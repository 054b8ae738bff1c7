import ProxyGateway.Lib.Search
import ProxyGateway.Schema.Names

set_option autoImplicit false

/-!
# ProxyGateway.Schema.Shape

`pdgmodel.validate`: what a canonical schema-v3 document must look like. The function is cut
where the source changes its subject: the outbounds, the policy groups, the one namespace,
the members of the groups and their dependency cycles, the route.
-/

namespace ProxyGateway.Schema

/-! ### Constants -/

def schemaVersion : Int := 3

def proxyOutboundTypes : List String :=
  ["shadowsocks", "vmess", "trojan", "vless", "hysteria", "hysteria2", "tuic", "anytls",
   "shadowtls", "socks", "http"]

def routableOutboundTypes : List String := proxyOutboundTypes ++ ["direct", "block"]

/-- The types of the legacy group outbounds. -/
def groupOutboundTypes : List String := ["selector", "urltest"]

def reservedTargets : List String :=
  ["DIRECT", "REJECT", "REJECT-DROP", "PASS", "PASS-RULE", "COMPATIBLE", "GLOBAL"]

def v3MetaFields : List String := ["schema", "policy-groups", "mihomo"]

def v3MihomoFields : List String :=
  ["proxy-providers", "rule-providers", "advanced", "managed-files"]

def groupTypes : List String := ["select", "url-test", "fallback", "load-balance"]

def groupCommonFields : List String := ["name", "type", "proxies", "use"]

/-- `GROUP_FIELDS`. -/
def groupFields : String → Option (List String)
  | "select" => some (groupCommonFields ++ ["lazy", "disable-udp", "hidden"])
  | "url-test" =>
      some (groupCommonFields ++ ["url", "interval", "tolerance", "lazy", "disable-udp", "hidden"])
  | "fallback" => some (groupCommonFields ++ ["url", "interval", "lazy", "disable-udp", "hidden"])
  | "load-balance" =>
      some (groupCommonFields ++ ["url", "interval", "lazy", "disable-udp", "hidden", "strategy"])
  | _ => none

def strategies : List String := ["consistent-hashing", "round-robin", "sticky-sessions"]

def defaultTestUrl : String := "https://www.gstatic.com/generate_204"

/-! ### Tests on values -/

/-- `set(fields) == set(names)`. -/
def sameKeys (fields : Dict String Json) (names : List String) : Bool :=
  fields.keys.all (fun k => decide (k ∈ names)) && names.all (fun k => decide (k ∈ fields.keys))

/-- `set(fields) - set(names)` is not empty. -/
def extraKeys (fields : Dict String Json) (names : List String) : Bool :=
  fields.keys.any (fun k => decide (k ∉ names))

/-- `type(value) is bool`. -/
def isBool : Json → Bool
  | .bool _ => true
  | _ => false

/-- `type(value) is int and low <= value <= high`. -/
def isIntIn (low high : Int) : Json → Bool
  | .int n => decide (low ≤ n ∧ n ≤ high)
  | _ => false

/-- `isinstance(value, dict)`. -/
def isDict : Json → Bool
  | .obj _ => true
  | _ => false

/-- `isinstance(value, list)`. -/
def isList : Json → Bool
  | .arr _ => true
  | _ => false

/-- Does `c` match the small letter or sign `x` in a pattern that ignores case? -/
def matchesFolded (x c : Char) : Bool :=
  c.toLower = x || (x = 's' && c = 'ſ') || (x = 'i' && (c = 'İ' || c = 'ı'))

/-- What is left of a text behind a piece of a pattern that ignores case. -/
def afterFolded : List Char → List Char → Option (List Char)
  | [], cs => some cs
  | _ :: _, [] => none
  | x :: xs, c :: cs => if matchesFolded x c then afterFolded xs cs else none

/-- `re.fullmatch(r"https?://[^\s\x00]+", url, re.I)`. -/
def httpUrlRe (url : String) : Bool :=
  match afterFolded "http".toList url.toList with
  | none => false
  | some rest =>
      match afterFolded "://".toList ((afterFolded "s".toList rest).getD rest) with
      | none => false
      | some path => !path.isEmpty && path.all (fun c => !Text.isSpace c && c ≠ '\x00')

/-! ### Outbounds -/

/-- `isinstance(item, dict) and item.get("type") == t`. -/
def hasType (t : String) (item : Json) : Bool := decide (item.get? "type" = some (.str t))

/-- `direct_tag`. -/
def directTag (model : Json) : Py ModelError String := do
  let outbounds ← (model.getD "outbounds" (.arr [])).items
  match outbounds.filter (hasType "direct") with
  | [outbound] => tag (outbound.getD "tag" .null) "direct tag"
  | _ => Py.raise (.text "model must contain exactly one direct outbound")

/-- One turn of the loop over the outbounds: the tags so far, and the routable ones. -/
def validateOutbound (U : Unicode) (seen : List String × List String) (outbound : Json) :
    Py ModelError (List String × List String) := do
  raiseIf (!isDict outbound) (.text "outbound must be an object")
  let typ := outbound.getD "type" .null
  let isProxy ← typ.within proxyOutboundTypes
  let name ← (if isProxy then validateName U else tag) (outbound.getD "tag" .null) "outbound tag"
  raiseIf (decide (name ∈ seen.1)) (.text ("duplicate outbound tag: " ++ name))
  raiseIf (← typ.within groupOutboundTypes)
    (.text "schema v3 policy groups cannot be outbounds")
  let isRoutable ← typ.within routableOutboundTypes
  return (seen.1 ++ [name], if isRoutable then seen.2 ++ [name] else seen.2)

/-! ### Policy groups -/

/-- A list of texts without repetition. -/
def distinctTexts (value : Json) : Option (List String) :=
  match value with
  | .arr xs => do
      let names ← xs.mapM Json.str?
      if names.Nodup then some names else none
  | _ => none

/-- A policy group as `_validate_group` returns it. -/
structure GroupPart where
  name : String
  proxies : List String
  uses : List String
  deriving DecidableEq

/-- The probe settings of the groups that test their members. -/
def validateProbe (group : Json) (name : String) : Py ModelError Unit :=
  if group.getD "type" .null = .str "select" then .ok ()
  else do
    let url := group.getD "url" (.str defaultTestUrl)
    raiseIf (!(url.str?.any httpUrlRe)) (.text ("policy group URL is invalid: " ++ name))
    raiseIf (!isIntIn 1 604800 (group.getD "interval" (.int 180)))
      (.text ("policy group interval is invalid: " ++ name))

/-- `_validate_group`. -/
def validateGroup (U : Unicode) (group : Json) : Py ModelError GroupPart := do
  raiseIf (!isDict group) (.text "policy group must be an object")
  let fields := group.fields?.getD []
  let name ← validateName U (group.getD "name" .null) "group name"
  let typ := group.getD "type" .null
  let isKnown ← typ.within groupTypes
  raiseIf (!isKnown || ((typ.str?.bind groupFields).all (extraKeys fields)))
    (.text ("policy group contains unsupported runtime fields for its type: " ++ name))
  let proxies := distinctTexts (group.getD "proxies" (.arr []))
  let uses := distinctTexts (group.getD "use" (.arr []))
  raiseIf (proxies.isNone || uses.isNone || (proxies = some [] && uses = some []))
    (.text ("policy group members/providers are invalid: " ++ name))
  raiseIf (["lazy", "disable-udp", "hidden"].any (fun key => (group.get? key).any (!isBool ·)))
    (.text ("policy group boolean option is invalid: " ++ name))
  validateProbe group name
  raiseIf ((group.get? "tolerance").any (!isIntIn 0 65535 ·))
    (.text ("policy group tolerance is invalid: " ++ name))
  let isStrategy ← (group.getD "strategy" (.str "round-robin")).within strategies
  raiseIf (!isStrategy) (.text ("policy group strategy is invalid: " ++ name))
  return ⟨name, proxies.getD [], uses.getD []⟩

/-- One turn of the loop over the groups. -/
def validateGroupIn (U : Unicode) (parts : List GroupPart) (group : Json) :
    Py ModelError (List GroupPart) := do
  let part ← validateGroup U group
  raiseIf (parts.any (·.name = part.name)) (.text ("duplicate policy group: " ++ part.name))
  return parts ++ [part]

/-- The groups among the members of a group: `graph[name]`. -/
def groupGraph (parts : List GroupPart) (name : String) : List String :=
  match parts.find? (·.name = name) with
  | some part => part.proxies.filter (fun item => item ∈ parts.map GroupPart.name)
  | none => []

/-- `item["tag"] for item in outbounds if item.get("type") == "block"`. -/
def blockTags (outbounds : List Json) : List String :=
  (outbounds.filter (hasType "block")).filterMap (fun o => (o.get? "tag").bind Json.str?)

/-- The members and providers of a group are there, and at most one of them rejects. -/
def validateMembers (known blocks providers : List String) (part : GroupPart) :
    Py ModelError Unit := do
  raiseIf (part.proxies.any (· ∉ known))
    (.text ("policy group references an undefined member: " ++ part.name))
  raiseIf (decide ((part.proxies.filter (fun m => m = "REJECT" ∨ m ∈ blocks)).length > 1))
    (.text ("policy group has ambiguous REJECT members: " ++ part.name))
  raiseIf (part.uses.any (· ∉ providers))
    (.text ("policy group references an undefined proxy provider: " ++ part.name))

/-! ### Namespace and route -/

/-- Outbounds, groups and providers share one namespace, without a reserved target. -/
def validateNamespace (U : Unicode) (tags groups providers ruleProviders : List String) :
    Py ModelError Unit := do
  (providers ++ ruleProviders).forM
    (fun name => discard (validateName U (.str name) "provider name"))
  let occupied := tags ++ groups ++ providers ++ ruleProviders
  raiseIf (decide (¬ occupied.Nodup)) (.text "proxy/group/provider names share one namespace")
  raiseIf (occupied.any (· ∈ reservedTargets))
    (.text "name collides with a reserved Mihomo target")

/-- One route rule. -/
def validateRule (routable : List String) (rule : Json) : Py ModelError Unit := do
  raiseIf (!isDict rule) (.text "route rule must be an object")
  let target := rule.getD "outbound" .null
  if target ≠ .null then
    raiseIf (!(← target.within routable)) (.text "route rule references an undefined target")

/-- The final target and the rules of the route. -/
def validateRoute (routable : List String) (route : Json) : Py ModelError Unit := do
  raiseIf (!isDict route) (.text "route.final references an undefined target")
  raiseIf (!(← (route.getD "final" .null).within routable))
    (.text "route.final references an undefined target")
  match route.getD "rules" (.arr []) with
  | .arr rules => rules.forM (validateRule routable)
  | _ => Py.raise (.text "route.rules must be a list")

/-! ### `validate` -/

/-- What a validated document names: its outbounds, those that a rule may name, and its
policy groups. -/
structure Names where
  tags : List String
  routable : List String
  groups : List GroupPart

/-- The envelope of a canonical document: the outbounds, the policy groups and the two
provider maps. -/
def envelope (model : Json) : Py ModelError (List Json × Json × Dict String Json × Dict String Json) := do
  let .arr outbounds := model.getD "outbounds" .null | Py.raise (.text "invalid model")
  let direct ← directTag model
  raiseIf (decide (direct ∈ reservedTargets)) (.text "direct tag collides with a reserved target")
  let pdg := model.getD "_pdg" .null
  raiseIf (!isDict pdg || !(pdg.getD "schema" .null).isNumber schemaVersion ||
      !sameKeys (pdg.fields?.getD []) v3MetaFields)
    (.text "model is not canonical schema v3")
  let mihomo := pdg.getD "mihomo" .null
  raiseIf (!isDict mihomo || !sameKeys (mihomo.fields?.getD []) v3MihomoFields)
    (.text "invalid schema-v3 Mihomo metadata")
  match mihomo.getD "proxy-providers" .null, mihomo.getD "rule-providers" .null with
  | .obj providers, .obj ruleProviders =>
      return (outbounds, pdg.getD "policy-groups" .null, providers, ruleProviders)
  | _, _ => Py.raise (.text "providers must be mappings")

/-- `validate`, with the names that it collects on its way. -/
def validateNames (U : Unicode) (model : Json) : Py ModelError Names := do
  let (outbounds, groups, providers, ruleProviders) ← envelope model
  let (tags, routable) ← outbounds.foldlM (validateOutbound U) ([], [])
  let parts ← (← groups.items).foldlM (validateGroupIn U) []
  let groupNames := parts.map GroupPart.name
  validateNamespace U tags groupNames providers.keys ruleProviders.keys
  parts.forM (validateMembers (routable ++ groupNames ++ ["REJECT"]) (blockTags outbounds)
    providers.keys)
  Search.visitAll (.text "policy groups contain a dependency cycle") (groupGraph parts) groupNames
  validateRoute (routable ++ groupNames) (model.getD "route" .null)
  return ⟨tags, routable, parts⟩

/-- `validate`. -/
def validate (U : Unicode) (model : Json) : Py ModelError Unit := discard (validateNames U model)

end ProxyGateway.Schema
