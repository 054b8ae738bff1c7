import ProxyGateway.Lib.Dict
import ProxyGateway.Lib.Text
import ProxyGateway.Pdgtx.State

set_option autoImplicit false

/-!
# ProxyGateway.Pdgtx.Target

The target whitelist of the transaction core: a caller names a *logical* target
and `resolveTarget` maps it to a production path and the validators its content
has to pass, or refuses it. Names are fixed (`static`) or consist of a prefix and
a leaf of a restricted shape.

Three name spaces meet here: the logical name, the production path
(`resolveTarget`), and the file name under `before/` and `candidate/`
(`safeLeaf`). Nothing in this file makes either map injective.
-/

namespace ProxyGateway.Pdgtx

/-- A logical target name. -/
abbrev Name := String

/-- A production path. -/
abbrev Path := String

/-- The name of a file under `before/` or `candidate/`. -/
abbrev Leaf := String

/-- File contents. -/
abbrev Bytes := List UInt8

/-- What `resolve_target` returns: path, mode, whether the content carries
credentials, and the validators by name. -/
structure Resolved where
  path : Path
  mode : Nat
  secret : Bool
  validators : List String
  deriving DecidableEq, Repr

/-- `_STATIC`, as path, mode, secret and validators. -/
def static : Dict Name Resolved :=
  [ ("model", ⟨"/etc/sing-box/config.json", 0o600, true, ["json_model"]⟩),
    ("mihomo_cfg", ⟨"/etc/mihomo/config.yaml", 0o600, true, ["mihomo_check"]⟩),
    ("mosdns_conf", ⟨"/etc/mosdns/config.yaml", 0o644, false, ["mosdns_probe"]⟩),
    ("ruleset_direct", ⟨"/etc/mosdns/rules/ruleset_direct.txt", 0o644, false, ["mosdns_lines"]⟩),
    ("ruleset_hijack", ⟨"/etc/mosdns/rules/ruleset_hijack.txt", 0o644, false, ["mosdns_lines"]⟩),
    ("rs_meta", ⟨"/opt/pdg-bot/rulesets.json", 0o644, false, ["json_any"]⟩),
    ("profile_env", ⟨"/etc/privdns-gateway/profile.env", 0o600, false, ["kv_env"]⟩),
    ("nftables_conf", ⟨"/etc/nftables.conf", 0o644, false, ["nft_check"]⟩),
    ("mitm_json", ⟨"/etc/privdns-gateway/mitm.json", 0o600, false, ["json_any"]⟩),
    ("mitm_hijack", ⟨"/etc/mosdns/rules/mitm_hijack.txt", 0o644, false, ["mosdns_lines"]⟩),
    ("sysctl_tfo", ⟨"/etc/sysctl.d/99-pdg-tfo.conf", 0o644, false, ["kv_env"]⟩),
    ("dot_marker", ⟨"/opt/pdg-bot/dot-domain", 0o644, false, ["hostname_line"]⟩),
    ("cert_fullchain", ⟨"/etc/mosdns/certs/fullchain.pem", 0o644, false, ["pem_cert"]⟩),
    ("cert_privkey", ⟨"/etc/mosdns/certs/privkey.pem", 0o600, true, ["pem_key"]⟩) ]

/-! ### Leaf shapes -/

/-- `[A-Za-z0-9]`. -/
def alnum (c : Char) : Bool := c.isAlphanum

/-- Under `re.match` a final `$` also matches before one closing newline. -/
def dropEol (cs : List Char) : List Char :=
  if cs.getLast? = some '\n' then cs.dropLast else cs

/-- `[class]+\.(ext|…)` on the whole text. -/
def stemAndExt (cls : Char → Bool) (exts : List String) (cs : List Char) : Bool :=
  exts.any (fun ext =>
    ('.' :: ext.toList).isSuffixOf cs && decide (ext.length + 1 < cs.length) &&
      (cs.take (cs.length - (ext.length + 1))).all cls)

/-- `_MOSDNS_RULE_RE.match`. -/
def mosdnsRuleRe (leaf : List Char) : Bool :=
  stemAndExt (fun c => alnum c || c == '_' || c == '!' || c == '.' || c == '-') ["txt"]
    (dropEol leaf)

/-- `_RULESET_RE.match`. -/
def rulesetRe (leaf : List Char) : Bool :=
  stemAndExt (fun c => alnum c || c == '_' || c == '.' || c == '-') ["json", "mrs"] (dropEol leaf)

/-- `_UNIT_RE.match`. -/
def unitRe (leaf : List Char) : Bool :=
  stemAndExt (fun c => alnum c || c == '_' || c == '.' || c == '@' || c == '-')
    ["service", "timer"] (dropEol leaf)

/-- `_MIHOMO_PROVIDER_RE.fullmatch`. -/
def mihomoProviderRe (leaf : List Char) : Bool :=
  decide (64 < leaf.length) &&
    (leaf.take 64).all (fun c => ('a' ≤ c && c ≤ 'f') || c.isDigit) &&
    ["yaml", "yml", "json", "txt", "mrs"].any (fun ext => leaf.drop 64 == '.' :: ext.toList)

/-- A leaf that passed its pattern still may not contain `/` or start with a dot. -/
def leafOk (re : List Char → Bool) (leaf : List Char) : Bool :=
  re leaf && !leaf.contains '/' && !(leaf.head? == some '.')

/-- The text after a prefix. -/
def afterPrefix (pfx : String) (name : Name) : Option (List Char) :=
  if pfx.toList.isPrefixOf name.toList then some (name.toList.drop pfx.length) else none

/-- The prefixed families of `resolve_target` other than providers. -/
def families : List (String × (List Char → Bool) × String × Nat × List String) :=
  [ ("mosdns_rule:", mosdnsRuleRe, "/etc/mosdns/rules/", 0o644, ["mosdns_lines"]),
    ("ruleset:", rulesetRe, "/etc/sing-box/rs/", 0o644, ["ruleset_format"]),
    ("unit:", unitRe, "/etc/systemd/system/", 0o644, ["systemd_unit"]) ]

/-- The first family whose prefix the name has; a leaf it refuses refuses the name. -/
def resolveFamily (name : Name) :
    List (String × (List Char → Bool) × String × Nat × List String) → Option Resolved
  | [] => none
  | (pfx, re, base, mode, validators) :: rest => match afterPrefix pfx name with
    | some leaf =>
        if leafOk re leaf then some ⟨base ++ String.ofList leaf, mode, false, validators⟩ else none
    | none => resolveFamily name rest

/-- The validators of a provider payload, by its extension. -/
def providerValidators (leaf : List Char) : List String :=
  if [".yaml", ".yml", ".json"].any (fun ext => ext.toList.isSuffixOf leaf) then ["yaml_safe"]
  else if ".mrs".toList.isSuffixOf leaf then ["ruleset_format"]
  else ["nonempty"]

/-- Is this one of the two names whose path follows the certificate directory? -/
def isCert (name : Name) : Bool := name == "cert_fullchain" || name == "cert_privkey"

/-- `resolve_target` once the trusted certificate directory is known; `none` is the
`TxError` of a name outside the whitelist. -/
def resolveIn (certDir : String) (name : Name) : Option Resolved :=
  if name = "cert_fullchain" then
    some ⟨certDir ++ "/" ++ "fullchain.pem", 0o644, false, ["pem_cert"]⟩
  else if name = "cert_privkey" then
    some ⟨certDir ++ "/" ++ "privkey.pem", 0o600, true, ["pem_key"]⟩
  else match static.get? name with
    | some r => some r
    | none => match afterPrefix "mihomo_provider:" name with
      | some leaf =>
          if leafOk mihomoProviderRe leaf then
            some ⟨"/etc/mihomo/providers/" ++ String.ofList leaf, 0o600, true,
              providerValidators leaf⟩
          else none
      | none => resolveFamily name families

/-- Only the two certificate names depend on the certificate directory. -/
theorem resolveIn_congr {name : Name} (h : isCert name = false) (d d' : String) :
    resolveIn d name = resolveIn d' name := by
  simp only [isCert, Bool.or_eq_false_iff, beq_eq_false_iff_ne, ne_eq] at h
  simp [resolveIn, h.1, h.2]

/-! ### The trusted certificate directory -/

/-- The profile file `_trusted_cert_dir` reads. -/
def profilePath : Path := "/etc/privdns-gateway/profile.env"

/-- `_CERT_DIR_DEFAULT`. -/
def certDirDefault : String := "/etc/mosdns/certs"

/-- The last `PDG_CERT_DIR=` value among the lines of a profile, unquoted. -/
def certDirLine (profile : List Char) : List Char :=
  (Text.lines profile).foldl (fun val line =>
    let ln := Text.strip line
    if "PDG_CERT_DIR=".toList.isPrefixOf ln then
      Text.stripBy (· == '\'') (Text.stripBy (· == '"')
        (Text.strip ((Text.afterFirst '=' ln).getD [])))
    else val) []

/-- Drop trailing slashes. -/
def rstripSlash (cs : List Char) : List Char := (cs.reverse.dropWhile (· == '/')).reverse

/-- `_trusted_cert_dir` on the profile text (`[]` when the file cannot be opened),
the process environment's value and the answer whether a path is free of symbolic
links. -/
def trustedCertDir (env : List Char) (noSymlink : String → Bool) (profile : List Char) : String :=
  let val := match certDirLine profile with
    | [] => env
    | v => v
  if val = [] then certDirDefault
  else if val.head? ≠ some '/' ∨ rstripSlash val ≠ rstripSlash (Text.normpath val) then
    certDirDefault
  else if noSymlink (String.ofList val) then String.ofList (rstripSlash val)
  else certDirDefault

/-! ### Services and leaves of a target -/

/-- `_TARGET_SVC` and the prefix rules of `target_service`. -/
def targetService (name : Name) : Option ServiceUnit :=
  if ["model", "mihomo_cfg", "rs_meta"].contains name then some .mihomo
  else if ["mosdns_conf", "mitm_hijack", "ruleset_direct", "ruleset_hijack", "cert_fullchain",
      "cert_privkey"].contains name then some .mosdns
  else if name = "mitm_json" then some .pdgMitm
  else if (afterPrefix "mosdns_rule:" name).isSome then some .mosdns
  else if (afterPrefix "ruleset:" name).isSome then some .mihomo
  else if (afterPrefix "mihomo_provider:" name).isSome then some .mihomo
  else none

/-- `_safe_leaf`: every character outside `[A-Za-z0-9_.-]` becomes `_`. -/
def safeLeaf (name : Name) : Leaf :=
  String.ofList (name.toList.map (fun c =>
    if alnum c || c == '_' || c == '.' || c == '-' then c else '_'))

/-- Two different targets can be given one before-image leaf. -/
example : safeLeaf "mosdns_rule:a!b.txt" = safeLeaf "mosdns_rule:a_b.txt" := by decide

/-- Two different targets can be given one production path. -/
example : (resolveIn certDirDefault "ruleset_direct").map Resolved.path =
    (resolveIn certDirDefault "mosdns_rule:ruleset_direct.txt").map Resolved.path := by decide

end ProxyGateway.Pdgtx
