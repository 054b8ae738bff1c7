import ProxyGateway.Schema.Importer

set_option autoImplicit false

/-!
# ProxyGateway.Render.RuleProviders

The rule-providers of the rulesets, as two programs compute them from `rulesets.json`: the
Bot's `_mihomo_rulesets` with the end of `singbox_to_mihomo`, and the verifier's
`_pdg_mihomo_rule_providers`. Both walk the entries in order, pass over the same ones (targets
that are `direct`, `.srs` files, binary formats), and build one provider for each other entry.
-/

namespace ProxyGateway.Render

open Schema

/-- The bytes of a file. -/
abbrev Bytes := List UInt8

/-- The metadata of the rulesets: a parsed object, whose names occur once. -/
structure RulesetMeta where
  entries : Dict String Json
  uniq : entries.Uniq

/-- What both programs take from their surroundings: the lower case of a text, the text of a
value that is none, the content of a live file, and how each of them reads the first bytes of
a Zstandard frame (`zstdMod` and `zstdCli` for the Bot, where nothing is found they are
empty; `zstdHead` for the verifier, which refuses a frame that it cannot check). -/
structure Site where
  host : Host
  lower : String → String
  textOf : Json → String
  live : String → Option Bytes
  zstdMod : Bytes → Bytes
  zstdCli : Bytes → Bytes
  zstdHead : Bytes → Option Bytes

/-- A site for plain texts, without files. -/
def plainSite : Site where
  host := {
    unicode := ⟨id, fun _ => "Ll", fun _ => none⟩
    b64decode := fun _ => none
    sha256 := fun _ => String.ofList (List.replicate 64 '0')
    floatRepr := fun _ => "0.0"
    faultText := fun _ => "" }
  lower := id
  textOf _ := ""
  live _ := none
  zstdMod _ := []
  zstdCli _ := []
  zstdHead _ := none

/-- `str(value)`. -/
def Site.str (S : Site) : Json → String
  | .str s => s
  | value => S.textOf value

/-! ### What an entry says -/

/-- `str(info.get("url", "")).lower().split("?", 1)[0]`. -/
def Site.lowUrl (S : Site) (info : Json) : List Char :=
  (S.lower (S.str (info.getD "url" (.str "")))).toList.takeWhile (· ≠ '?')

/-- `low.endswith(suffixes)`. -/
def endsWithAny (low : List Char) (suffixes : List String) : Bool :=
  suffixes.any (fun suffix => suffix.toList.isSuffixOf low)

/-- `str(info.get("format", ""))`. -/
def Site.recordedFormat (S : Site) (info : Json) : String := S.str (info.getD "format" (.str ""))

/-- `str(info.get("behavior", ""))`. -/
def Site.recordedBehavior (S : Site) (info : Json) : String :=
  S.str (info.getD "behavior" (.str ""))

/-- `str(info.get("behavior") or "classical")`. -/
def Site.yamlBehavior (S : Site) (info : Json) : String :=
  let behavior := info.getD "behavior" .null
  if behavior.truthy then S.str behavior else "classical"

/-- The kinds of sources that are rendered. -/
inductive SourceKind where
  | yaml | mrs | text
  deriving DecidableEq, Repr

/-- The kind of an entry, `none` for one that is passed over. -/
def Site.kindOf (S : Site) (info : Json) : Option SourceKind :=
  let low := S.lowUrl info
  if info.get? "outbound" = some (.str "direct") then none
  else if endsWithAny low [".srs"] || S.recordedFormat info = "binary" then none
  else if endsWithAny low [".yaml", ".yml"] then some .yaml
  else if endsWithAny low [".mrs"] || S.recordedFormat info = "mrs" then some .mrs
  else some .text

/-! ### The Bot -/

/-- `b"MRS"`. -/
def mrsMark : Bytes := [77, 82, 83]

/-- The first bytes of a Zstandard frame. -/
def zstdMagic : Bytes := [0x28, 0xb5, 0x2f, 0xfd]

/-- `data[i:]` for `i = data.find(b"MRS", 0, most)`. -/
def findMrs : Nat → Bytes → Option Bytes
  | 0, _ => none
  | _, [] => none
  | most + 1, x :: xs =>
      if mrsMark.isPrefixOf (x :: xs) && decide (3 ≤ most + 1) then some (x :: xs)
      else findMrs most xs

/-- `_mrs_head`. -/
def mrsHead (S : Site) (data : Bytes) : Bytes :=
  if data.take 3 = mrsMark then data.take 8
  else if data.take 4 ≠ zstdMagic then []
  else match [S.zstdMod data, S.zstdCli data].find? (fun head => head.take 3 = mrsMark) with
    | some head => head
    | none => ((findMrs 65536 data).getD []).take 8

/-- The behavior byte of an MRS file. -/
def behaviorOf (head : Bytes) : Option String :=
  match (head.drop 4).head? with
  | some 0 => some "domain"
  | some 1 => some "ipcidr"
  | _ => none

/-- `mrs_behavior`. -/
def mrsBehavior (S : Site) (data : Bytes) : Option String :=
  let head := mrsHead S data
  if head.length < 5 ∨ head.take 4 ≠ mrsMark ++ [1] then none else behaviorOf head

/-- `_mrs_behavior_of_file(info.get("path") or "")`. -/
def mrsBehaviorOfFile (S : Site) (path : Json) : Option String :=
  (path.str?.bind S.live).bind (fun data => mrsBehavior S (data.take 1048576))

def mrsBehaviors : List String := ["domain", "ipcidr"]

/-- The behavior and the format that `_mihomo_rulesets` gives an entry. -/
def mihomoRuleset (S : Site) (info : Json) : Option (String × String) :=
  match S.kindOf info with
  | none => none
  | some .yaml => some (S.yamlBehavior info, "yaml")
  | some .mrs =>
      let recorded := S.recordedBehavior info
      let behavior := if recorded ∈ mrsBehaviors then recorded
        else (mrsBehaviorOfFile S (info.getD "path" .null)).getD ""
      if behavior ∈ mrsBehaviors then some (behavior, "mrs") else none
  | some .text => some ("classical", "text")

/-- `{"text": "txt", "yaml": "yaml", "mrs": "mrs"}.get(format, "txt")`. -/
def extensionOf (format : String) : String :=
  if format = "yaml" then "yaml" else if format = "mrs" then "mrs" else "txt"

/-- A rule-provider of a ruleset. -/
def provider (url : Json) (behavior format stem : String) : Json :=
  .obj [("type", .str "http"), ("url", url), ("behavior", .str behavior), ("format", .str format),
    ("path", .str ("./ruleset/" ++ stem ++ "." ++ extensionOf format)), ("interval", .int 86400)]

/-- What `singbox_to_mihomo` makes of an entry of `_mihomo_rulesets`. -/
def generatedProvider (S : Site) (name : String) (info : Json) : Option Json :=
  (mihomoRuleset S info).map
    (fun ruleset => provider (info.getD "url" (.str "")) ruleset.1 ruleset.2 name)

/-- `generated_rule_providers`, for the rulesets that `_mihomo_rulesets` makes of the
metadata. -/
def generatedRuleProviders (S : Site) (rulesets : RulesetMeta) : Dict String Json :=
  rulesets.entries.filterMap
    (fun entry => (generatedProvider S entry.1 entry.2).map (fun p => (entry.1, p)))

/-- `_runtime_provider(provider, rule=True)`. -/
def runtimeRuleProvider (value : Json) : Json :=
  let path := value.getD "path" .null
  let isHttp := decide (value.getD "type" (.str "http") = .str "http")
  if !(isHttp || decide (value.getD "type" (.str "http") = .str "file")) ||
      (path.str?.bind providerLeaf).isNone then .obj []
  else if isHttp && !((value.getD "url" .null).str?.any httpUrlRe) then .obj []
  else .obj ((value.fields?.getD []).filter (fun field => field.1 ∈ providerFields .rule))

/-- `imported_rule_providers`, for a migrated document. -/
def importedRuleProviders (sb : Json) : Dict String Json :=
  (((((sb.getD "_pdg" .null).getD "mihomo" .null).getD "rule-providers" .null).fields?.getD
    []).filter (fun entry => isDict entry.2)).map
      (fun entry => (entry.1, runtimeRuleProvider entry.2))

/-- `combined_rule_providers`: the `rule-providers` of the rendered configuration. -/
def combinedRuleProviders (S : Site) (sb : Json) (rulesets : RulesetMeta) : Dict String Json :=
  (importedRuleProviders sb).update (generatedRuleProviders S rulesets)

/-! ### The verifier -/

/-- `_LEGACY_SAFE_RULESET_LEAF_RE`. -/
def legacySafeLeaf (name : String) : Bool :=
  match name.toList with
  | [] => false
  | c :: cs => c.isAlphanum && cs.all tagChar && decide (cs.length ≤ 63)

/-- `_pdg_ruleset_cache_stem`, where a bad name gives `none`. -/
def rulesetCacheStem (H : Host) (name : String) : Option String :=
  match normalizeName H.unicode (.str name) "ruleset provider name" with
  | .ok canonical =>
      if canonical ≠ name then none
      else if legacySafeLeaf canonical then some canonical
      else some ("u-" ++ H.shaText canonical)
  | .error _ => none

/-- `os.path.basename`. -/
def basename (path : String) : String :=
  String.ofList (((Text.splitAt '/' path.toList).getLast?).getD [])

/-- `_RULESET_RE.fullmatch(leaf) and leaf.endswith(".mrs")`. -/
def mrsLeafRe (leaf : String) : Bool :=
  let stem := leaf.toList.take (leaf.length - 4)
  !stem.isEmpty && stem.all tagChar && decide (leaf.toList = stem ++ ".mrs".toList)

/-- The staged or live content of a ruleset file. `targets` are the staged contents, where
a deletion has none. -/
def rulesetSource (S : Site) (targets : Dict String (Option Bytes)) (leaf : String) :
    Option Bytes :=
  match targets.get? ("ruleset:" ++ leaf) with
  | some staged => staged
  | none => (S.live ("/etc/sing-box/rs/" ++ leaf)).map (·.take (maxArchiveFile + 1))

/-- `_mrs_validation_head`. -/
def mrsValidationHead (S : Site) (data : Bytes) : Option Bytes :=
  if data.take 3 = mrsMark then some (data.take 8)
  else if data.take 4 ≠ zstdMagic then none
  else S.zstdHead data

/-- The source file of an MRS entry, and the behavior that it has. -/
def mrsSource (S : Site) (targets : Dict String (Option Bytes)) (info : Json) :
    Py String (Bytes × Option String) := do
  let .str path := info.getD "path" (.str "") | Py.raise "候选 MRS 源路径不合法"
  let leaf := basename path
  raiseIf (!mrsLeafRe leaf || decide (path ≠ "/etc/sing-box/rs/" ++ leaf))
    "候选 MRS 源路径不受管"
  let some data := rulesetSource S targets leaf | Py.raise "候选 MRS 源文件为空或过大"
  raiseIf (data.isEmpty || decide (data.length > maxArchiveFile)) "候选 MRS 源文件为空或过大"
  let some head := mrsValidationHead S data | Py.raise "候选 MRS 源文件无法严格识别"
  raiseIf (decide (head.length < 5 ∨ head.take 4 ≠ mrsMark ++ [1]))
    "候选 MRS 源文件无法严格识别"
  return (data, behaviorOf head)

/-- What the verifier expects for an entry: nothing, or the provider and, for an MRS file,
the content to probe with. -/
def expectedProvider (S : Site) (targets : Dict String (Option Bytes)) (name : String)
    (info : Json) : Py String (Option (Json × Option Bytes)) := do
  raiseIf (!isDict info) "候选 rulesets.json 条目不合法"
  let some stem := rulesetCacheStem S.host name
    | Py.raise "候选 PDG rule-provider 名称不符合 Unicode 名称规范"
  let url := info.getD "url" (.str "")
  raiseIf (!validHttpUrl url) "候选 ruleset URL 不合法"
  match S.kindOf info with
  | none => return none
  | some .yaml => return some (provider url (S.yamlBehavior info) "yaml" stem, none)
  | some .mrs =>
      let (data, sniffed) ← mrsSource S targets info
      let recorded := S.recordedBehavior info
      let behavior := if recorded ∈ mrsBehaviors then recorded else sniffed.getD ""
      raiseIf (decide (behavior ∉ mrsBehaviors ∨ some behavior ≠ sniffed))
        "候选 MRS behavior 与源文件不一致"
      return some (provider url behavior "mrs" stem, some data)
  | some .text => return some (provider url "classical" "text" stem, none)

/-- `_pdg_mihomo_rule_providers`: the expected providers and the probe sources. -/
def pdgMihomoRuleProviders (S : Site) (targets : Dict String (Option Bytes))
    (rulesets : RulesetMeta) : Py String (Dict String Json × Dict String Bytes) := do
  let found ← rulesets.entries.mapM (fun entry => do
    return (← expectedProvider S targets entry.1 entry.2).map (fun e => (entry.1, e)))
  let found := found.filterMap id
  return (found.map (fun e => (e.1, e.2.1)),
    found.filterMap (fun e => e.2.2.map (fun data => (e.1, data))))

/-- The verifier's comparison: every expected provider is there as it is expected. -/
def providersAccepted (expected providers : Dict String Json) : Bool :=
  expected.all (fun e => providers.get? e.1 = some e.2)

end ProxyGateway.Render
