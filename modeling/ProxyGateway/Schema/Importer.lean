import ProxyGateway.Lib.Encode
import ProxyGateway.Schema.Migrate

set_option autoImplicit false

/-!
# ProxyGateway.Schema.Importer

`pdgconfigio.normalize_model`: the gate in front of every document that is imported, and in
front of every model that a transaction stages. It refuses with the text of an
`ImportInvalid`.
-/

namespace ProxyGateway.Schema

/-- What the gates take from the libraries of their language: the Unicode database, base64
and SHA-256 (as lower-case hex), the text of a float, and that of a fault. -/
structure Host where
  unicode : Unicode
  b64decode : String → Option ByteArray
  sha256 : ByteArray → String
  floatRepr : FloatVal → String
  faultText : Fault → String

/-- `_sha` of the UTF-8 bytes of a text. -/
def Host.shaText (H : Host) (s : String) : String := H.sha256 s.toUTF8

/-! ### Limits and texts -/

def maxArchiveFile : Nat := 8 * 1024 * 1024

def maxModelFile : Nat := 24 * 1024 * 1024

def maxArchiveTotal : Nat := 32 * 1024 * 1024

/-- The length of `_model_bytes`: the encoded document and a line feed. -/
def modelBytesLength (H : Host) (model : Json) : Nat :=
  (model.dumps H.floatRepr 0).utf8ByteSize + 1

def hexChar (c : Char) : Bool :=
  c.isDigit || ('a' ≤ c.toLower && c.toLower ≤ 'f')

/-- `re.fullmatch(r"[a-f0-9]{64}\.(?:ya?ml|json|txt|mrs)", leaf, re.I)`. -/
def managedLeafRe (leaf : List Char) : Bool :=
  decide (64 ≤ leaf.length) && (leaf.take 64).all hexChar &&
    [".yaml", ".yml", ".json", ".txt", ".mrs"].any
      (fun ext => afterFolded ext.toList (leaf.drop 64) = some [])

/-- The group of `/etc/mihomo/providers/(…)` in a provider path. -/
def providerLeaf (path : String) : Option String :=
  match afterFolded "/etc/mihomo/providers/".toList path.toList with
  | some leaf => if managedLeafRe leaf then some (String.ofList leaf) else none
  | none => none

/-- `leaf.split(".", 1)[0]`. -/
def leafStem (leaf : String) : String := String.ofList (leaf.toList.takeWhile (· ≠ '.'))

def hasNul (s : String) : Bool := s.toList.any (· = '\x00')

/-! ### Advanced metadata -/

def proxyAdvancedBlocked : List String :=
  ["name", "type", "server", "port", "password", "username", "uuid", "cipher", "alterId", "flow",
   "auth", "auth-str", "up", "down", "congestion-controller", "udp-relay-mode", "tls",
   "servername", "sni", "skip-cert-verify", "alpn", "reality-opts", "client-fingerprint",
   "network", "ws-opts", "grpc-opts", "tfo"]

def pdgOwnedMihomo : List String :=
  ["allow-lan", "bind-address", "dns", "external-controller", "external-ui", "external-ui-url",
   "listeners", "mixed-port", "port", "redir-port", "secret", "sniffer", "socks-port",
   "tproxy-port", "tun", "proxies", "proxy-providers", "proxy-groups", "rule-providers", "rules",
   "mode", "log-level"]

def topRuntimeAdvanced : List String := ["tcp-concurrent", "unified-delay"]

mutual

/-- `_validate_proxy_advanced`, with what the budget has counted so far. -/
def validateProxyAdvanced (value : Json) (depth budget : Nat) : Py String Nat :=
  if depth > 12 then Py.raise "per-proxy Mihomo metadata is too deep"
  else if budget + 1 > 4096 then Py.raise "per-proxy Mihomo metadata is too complex"
  else match value with
    | .null | .bool _ | .int _ => .ok (budget + 1)
    | .float (.finite _) => .ok (budget + 1)
    | .float _ => Py.raise "per-proxy Mihomo metadata contains a non-finite number"
    | .str s =>
        if decide (s.length ≤ 16384) && !hasNul s then .ok (budget + 1)
        else Py.raise "per-proxy Mihomo metadata contains an unsafe value"
    | .arr xs => validateProxyAdvancedItems xs (depth + 1) (budget + 1)
    | .obj kvs => validateProxyAdvancedFields kvs (depth + 1) (budget + 1)

/-- The loop over a list. -/
def validateProxyAdvancedItems (xs : List Json) (depth budget : Nat) : Py String Nat :=
  match xs with
  | [] => .ok budget
  | x :: xs => do
      let budget ← validateProxyAdvanced x depth budget
      validateProxyAdvancedItems xs depth budget

/-- The loop over an object. -/
def validateProxyAdvancedFields (kvs : List (String × Json)) (depth budget : Nat) :
    Py String Nat :=
  match kvs with
  | [] => .ok budget
  | (key, x) :: kvs => do
      raiseIf (decide (key = "") || decide (key.length > 128) || hasNul key)
        "per-proxy Mihomo metadata contains an unsafe key"
      let budget ← validateProxyAdvanced x depth budget
      validateProxyAdvancedFields kvs depth budget

end

mutual

/-- `_validate_safe_value`: the budget where the value is safe. -/
def validateSafeValue (value : Json) (depth budget : Nat) : Option Nat :=
  if depth > 12 ∨ budget + 1 > 4096 then none
  else match value with
    | .null | .bool _ | .int _ => some (budget + 1)
    | .float (.finite _) => some (budget + 1)
    | .float _ => none
    | .str s => if decide (s.length ≤ 16384) && !hasNul s then some (budget + 1) else none
    | .arr xs => validateSafeItems xs (depth + 1) (budget + 1)
    | .obj kvs => validateSafeFields kvs (depth + 1) (budget + 1)

/-- `all(...)` over a list. -/
def validateSafeItems (xs : List Json) (depth budget : Nat) : Option Nat :=
  match xs with
  | [] => some budget
  | x :: xs => (validateSafeValue x depth budget).bind (validateSafeItems xs depth)

/-- `all(...)` over an object. -/
def validateSafeFields (kvs : List (String × Json)) (depth budget : Nat) : Option Nat :=
  match kvs with
  | [] => some budget
  | (key, x) :: kvs =>
      if decide (0 < key.length ∧ key.length ≤ 128) && !hasNul key then
        (validateSafeValue x depth budget).bind (validateSafeFields kvs depth)
      else none

end

/-- A field with a fixed set of values, if it is there. -/
def validateChoice (value : Json) (key : String) (allowed : List String) (message : String) :
    Py String Unit :=
  match value.get? key with
  | some choice => do raiseIf (!(← choice.within allowed)) message
  | none => .ok ()

/-- `_validate_runtime_advanced` with `proxy=True`. -/
def validateRuntimeProxy (advanced : Dict String Json) : Py String Unit := do
  raiseIf ((advanced.get? "udp").any (!isBool ·)) "per-proxy Mihomo udp option is invalid"
  validateChoice (.obj advanced) "packet-encoding" ["packetaddr", "xudp"]
    "per-proxy Mihomo packet encoding is invalid"

/-- `_validate_runtime_advanced` with `proxy=False`. -/
def validateRuntimeTop (advanced : Dict String Json) : Py String Unit :=
  raiseIf (topRuntimeAdvanced.any (fun key => (advanced.get? key).any (!isBool ·)))
    "top-level Mihomo runtime metadata is invalid"

/-- The turn of `normalize_model` for one outbound. -/
def checkProxyMeta (outbound : Json) : Py String Unit :=
  match outbound.getD "_pdg_mihomo" .null with
  | .null => .ok ()
  | proxyMeta => do
      let shapeError := "per-proxy Mihomo metadata has the wrong shape"
      raiseIf (!sameKeys (proxyMeta.fields?.getD []) ["advanced"] || !isDict proxyMeta) shapeError
      let .obj advanced := proxyMeta.getD "advanced" .null | Py.raise shapeError
      raiseIf ((Dict.keys advanced).any (· ∈ proxyAdvancedBlocked))
        "per-proxy Mihomo metadata overrides a canonical field"
      let _ ← validateProxyAdvanced (.obj advanced) 0 0
      validateRuntimeProxy advanced

/-! ### Providers and groups -/

/-- `_valid_http_url`. -/
def validHttpUrl (value : Json) : Bool :=
  value.str?.any (fun url => decide (url.length ≤ 8192) && httpUrlRe url)

/-- The two kinds of provider collections. -/
inductive ProviderKind where
  | proxy | rule
  deriving DecidableEq, Repr

/-- The name of a kind in digests and messages. -/
def ProviderKind.name : ProviderKind → String
  | .proxy => "proxy-provider"
  | .rule => "rule-provider"

def providerCommon : List String := ["type", "url", "path", "interval", "size-limit"]

/-- `_PROXY_PROVIDER_FIELDS` and `_RULE_PROVIDER_FIELDS`. -/
def providerFields : ProviderKind → List String
  | .proxy => providerCommon ++ ["health-check", "filter", "exclude-filter", "override"]
  | .rule => providerCommon ++ ["format", "behavior"]

def providerHealthFields : List String := ["enable", "url", "interval", "lazy"]

def providerOverrideFields : List String :=
  ["additional-prefix", "additional-suffix", "udp", "tfo"]

/-- `value is not None and (not isinstance(value, str) or len(value) > most or NUL in value)`. -/
def badText (most : Nat) : Json → Bool
  | .null => false
  | .str s => decide (s.length > most) || hasNul s
  | _ => true

/-- The check of a health check that is there. -/
def badHealth (health : Json) : Bool :=
  !isDict health || extraKeys (health.fields?.getD []) providerHealthFields ||
    !isBool (health.getD "enable" (.bool true)) || !validHttpUrl (health.getD "url" .null) ||
    !isIntIn 1 604800 (health.getD "interval" .null) || (health.get? "lazy").any (!isBool ·)

/-- The formats of a kind. -/
def providerFormats : ProviderKind → List String
  | .proxy => ["yaml"]
  | .rule => ["yaml", "text", "mrs"]

/-- The check of an override, if it is there. -/
def validateOverride (kind : ProviderKind) (override : Json) : Py String Unit :=
  if override = .null then .ok ()
  else do
    raiseIf (!isDict override || extraKeys (override.fields?.getD []) providerOverrideFields)
      (kind.name ++ " override contains unsafe runtime fields")
    raiseIf (badText 128 (override.getD "additional-prefix" .null) ||
        badText 128 (override.getD "additional-suffix" .null))
      (kind.name ++ " override is invalid")
    raiseIf (["udp", "tfo"].any (fun key => (override.get? key).any (!isBool ·)))
      (kind.name ++ " override is invalid")

/-- `_validate_provider_schema`. -/
def validateProviderSchema (kind : ProviderKind) (provider : Json) : Py String Unit := do
  raiseIf (extraKeys (provider.fields?.getD []) (providerFields kind))
    (kind.name ++ " contains unsupported runtime fields")
  let interval := provider.getD "interval" .null
  raiseIf (decide (interval ≠ .null) && !isIntIn 1 604800 interval)
    (kind.name ++ " interval is invalid")
  let sizeLimit := provider.getD "size-limit" .null
  raiseIf (decide (sizeLimit ≠ .null) && !isIntIn 1 (1024 * 1024 * 1024) sizeLimit)
    (kind.name ++ " size limit is invalid")
  raiseIf (badText 4096 (provider.getD "filter" .null) ||
      badText 4096 (provider.getD "exclude-filter" .null))
    (kind.name ++ " filter is invalid")
  let health := provider.getD "health-check" .null
  raiseIf (decide (health ≠ .null) && badHealth health) (kind.name ++ " health-check is invalid")
  validateOverride kind (provider.getD "override" .null)
  validateChoice provider "format" (providerFormats kind) (kind.name ++ " format is invalid")
  validateChoice provider "behavior" ["domain", "ipcidr", "classical"]
    (kind.name ++ " behavior is invalid")

/-- `_validate_group_schema`. -/
def validateGroupSchema (group : Json) : Py String Unit := do
  if !(group.getD "type" .null).hashable then Py.fault .type
  raiseIf (((group.getD "type" .null).str?.bind groupFields).all
      (extraKeys (group.fields?.getD [])))
    "proxy group contains unsupported runtime fields"
  raiseIf (["lazy", "disable-udp", "hidden"].any (fun key => (group.get? key).any (!isBool ·)))
    "proxy group option is invalid"
  raiseIf ((group.get? "url").any (!validHttpUrl ·)) "proxy group URL is invalid"
  raiseIf ((group.get? "interval").any (!isIntIn 1 604800 ·)) "proxy group interval is invalid"
  raiseIf ((group.get? "tolerance").any (!isIntIn 0 65535 ·)) "proxy group tolerance is invalid"
  validateChoice group "strategy" strategies "proxy group strategy is invalid"

/-! ### `_validate_native_mihomo_metadata` -/

/-- The path and the URL of one provider, whose schema holds; the leaf of a local file. -/
def nativeProvider (H : Host) (m : MihomoMeta) (kind : ProviderKind) (name : String)
    (provider : Json) : Py String (List String) := do
  raiseIf (!isValidName H.unicode (.str name) || !isDict provider ||
      (validateSafeValue provider 0 0).isNone) (kind.name ++ " metadata is invalid")
  validateProviderSchema kind provider
  let typ := provider.getD "type" (.str "http")
  let isKnown ← typ.within ["http", "file"]
  let .str path := provider.getD "path" .null
    | Py.raise (kind.name ++ " type or path is invalid")
  raiseIf (!isKnown) (kind.name ++ " type or path is invalid")
  let some leaf := providerLeaf path
    | Py.raise (kind.name ++ " path is outside the managed directory")
  if typ = .str "file" then
    raiseIf (!m.managedFiles.contains leaf) (kind.name ++ " local file is not embedded")
    raiseIf (provider.get? "url").isSome (kind.name ++ " file source has a URL")
    return [leaf]
  else
    raiseIf (!validHttpUrl (provider.getD "url" .null)) (kind.name ++ " URL is invalid")
    raiseIf (m.managedFiles.contains leaf)
      (kind.name ++ " remote path collides with an embedded file")
    raiseIf (decide ((leafStem leaf).toLower ≠ H.shaText (kind.name ++ ":" ++ name)))
      (kind.name ++ " remote path is not canonical")
    return []

/-- The loop over the two provider collections: the leaves of the local files. -/
def nativeProviders (H : Host) (m : MihomoMeta) : Py String (List String) := do
  let proxy ← m.proxyProviders.mapM (fun entry => nativeProvider H m .proxy entry.1 entry.2)
  let rule ← m.ruleProviders.mapM (fun entry => nativeProvider H m .rule entry.1 entry.2)
  return proxy.flatten ++ rule.flatten

/-- `set(xs) == set(ys)`. -/
def sameSet (xs ys : List String) : Bool :=
  xs.all (· ∈ ys) && ys.all (· ∈ xs)

/-- One turn of the loop over the groups: the names so far. -/
def nativeGroup (H : Host) (names : List String) (group : Json) : Py String (List String) := do
  let shapeError := "proxy group metadata is invalid"
  raiseIf (!isDict group || (validateSafeValue group 0 0).isNone) shapeError
  let .str name := group.getD "name" .null | Py.raise shapeError
  raiseIf (!isValidName H.unicode (.str name) || decide (name ∈ names)) shapeError
  raiseIf (!(← (group.getD "type" .null).within groupTypes)) shapeError
  raiseIf (!isList (group.getD "proxies" (.arr [])) || !isList (group.getD "use" (.arr [])))
    shapeError
  validateGroupSchema group
  return names ++ [name]

/-- The tags of the outbounds that are neither direct nor legacy groups. -/
def proxyTags (model : Json) : Py String (List String) := do
  let proxies ← (outboundsOf model).filterM (fun item =>
    match item.get? "tag" with
    | some (.str _) => do
        return !(← (item.getD "type" .null).within ["direct", "selector", "urltest"])
    | _ => .ok false)
  return outboundTags proxies

/-- The members of a group that are groups, once all of its members and providers are known. -/
def nativeMembers (known providers groups : List String) (group : Json) :
    Py String (String × List String) := do
  let members := (group.getD "proxies" (.arr [])).entries
  let uses := (group.getD "use" (.arr [])).entries
  raiseIf (members.any (fun item => !(item.str?.any (· ∈ known))) ||
      uses.any (fun item => !(item.str?.any (· ∈ providers))))
    "proxy group references an undefined member or provider"
  return ((group.get? "name").bind Json.str? |>.getD "",
    (members.filterMap Json.str?).filter (· ∈ groups))

/-- `value or []`. -/
def orEmptyList (value : Json) : Json := if value.truthy then value else .arr []

/-- `_validate_native_mihomo_metadata`. -/
def validateNativeMihomoMetadata (H : Host) (model : Json) (m : MihomoMeta) : Py String Unit := do
  let direct := directTags (outboundsOf model)
  raiseIf (direct.any (· ∈ reservedTargets)) "direct tag collides with a reserved Mihomo target"
  let localLeaves ← nativeProviders H m
  raiseIf (!sameSet localLeaves m.managedFiles.keys)
    "managed provider files are not an exact reference closure"
  let groups ← (orEmptyList ((model.getD "_pdg" .null).getD "policy-groups" .null)).items
  let names ← groups.foldlM (nativeGroup H) []
  raiseIf (names.any (· ∈ (← proxyTags model))) "proxy and group names collide"
  raiseIf (names.any (· ∈ reservedTargets ++ direct))
    "proxy group name collides with a reserved target"
  let known := outboundTags (outboundsOf model) ++ names ++ ["DIRECT", "REJECT"]
  let graph ← groups.mapM (nativeMembers known m.proxyProviders.keys names)
  Search.visitAll "proxy groups contain a dependency cycle"
    (fun name => (Dict.get? graph name).getD []) (graph.map Prod.fst)

/-! ### `normalize_model` -/

/-- The call of `migrate`. -/
def migrated (H : Host) (model : Json) : Py String Json :=
  match migrate H.unicode model with
  | .ok result => .ok result
  | .error (.error e) => Py.raise ("PDG schema v3 validation failed: " ++ e.message)
  | .error (.fault f) =>
      if f = .type ∨ f = .value then
        Py.raise ("PDG schema v3 validation failed: " ++ H.faultText f)
      else Py.fault f

/-- A map of the Mihomo metadata, `mihomo.get(key) or {}`. -/
def normalizedField (mihomo : Json) (key : String) : Py String (Dict String Json) :=
  match orEmpty (mihomo.getD key .null) with
  | .obj fields => .ok fields
  | _ => Py.raise "PDG Mihomo metadata has the wrong shape"

/-- The four maps of the Mihomo metadata. -/
def normalizedMihomo (result : Json) : Py String MihomoMeta := do
  let pdg := result.getD "_pdg" (.obj [])
  raiseIf (!isDict pdg || !sameKeys (pdg.fields?.getD []) v3MetaFields) "PDG metadata is invalid"
  raiseIf (!(pdg.getD "schema" .null).isNumber schemaVersion) "PDG model schema is not supported"
  let mihomo := orEmpty (pdg.getD "mihomo" .null)
  raiseIf (!isDict mihomo || !sameKeys (mihomo.fields?.getD []) v3MihomoFields)
    "PDG Mihomo metadata is invalid"
  return {
    proxyProviders := ← normalizedField mihomo "proxy-providers"
    ruleProviders := ← normalizedField mihomo "rule-providers"
    advanced := ← normalizedField mihomo "advanced"
    managedFiles := ← normalizedField mihomo "managed-files" }

/-- One embedded provider file: the length of its content. -/
def managedFileSize (H : Host) (leaf : String) (encoded : Json) : Py String Nat := do
  raiseIf (!managedLeafRe leaf.toList) "managed provider file name is invalid"
  let some raw := encoded.str?.bind H.b64decode | Py.raise "managed provider file is invalid"
  raiseIf (decide (raw.size = 0 ∨ raw.size > maxArchiveFile ∨ H.sha256 raw ≠ leafStem leaf))
    "managed provider file integrity check failed"
  return raw.size

/-- `normalize_model`. -/
def normalizeModel (H : Host) (model : Json) : Py String Json := do
  let result ← migrated H model
  (outboundsOf result).forM checkProxyMeta
  let m ← normalizedMihomo result
  raiseIf (m.advanced.keys.any (· ∈ pdgOwnedMihomo))
    "PDG Mihomo metadata overrides a managed runtime field"
  let _ ← validateProxyAdvanced (.obj m.advanced) 0 0
  validateRuntimeTop m.advanced
  let sizes ← m.managedFiles.mapM (fun entry => managedFileSize H entry.1 entry.2)
  validateNativeMihomoMetadata H result m
  let groups := (result.getD "_pdg" .null).getD "policy-groups" .null
  let result := Json.obj (Dict.set (result.fields?.getD []) "_pdg" (metaJson groups m))
  let size := modelBytesLength H result
  raiseIf (decide (size > maxModelFile ∨ size + sizes.sum > maxArchiveTotal))
    "PDG model and managed providers exceed the restorable limits"
  return result

end ProxyGateway.Schema
