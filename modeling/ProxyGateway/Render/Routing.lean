import ProxyGateway.Render.Proxy

set_option autoImplicit false

/-!
# ProxyGateway.Render.Routing

The rule lines of the renderer: `_map_target`, `_rules_from_route` and `_mixed_listeners`, and the
places where the lines of the listeners and of the intercepted domains are inserted.
-/

namespace ProxyGateway.Render

open Schema Json

/-- The tags that a target is looked up in. -/
structure MachineTags where
  direct : List String
  block : List String

/-- `_direct_tags` and `_block_tags`. -/
def machineTags (outbounds : List Json) : MachineTags := ⟨directTags outbounds, blockTags outbounds⟩

/-- `_map_target`. -/
def mapTarget (tags : MachineTags) (tag : Json) : Py RenderError Json := do
  if ← tag.within tags.direct then return .str "DIRECT"
  if ← tag.within tags.block then return .str "REJECT"
  return tag

/-! ### The route -/

/-- One line for each element of a field. -/
def fieldLines (S : Site) (kind : String) (value : Json) (tail : String) :
    Py RenderError (List String) := do
  return (← value.items).map (fun item => kind ++ "," ++ S.str item ++ "," ++ tail)

/-- What a rule adds to the lines and to the dropped entries. -/
def ruleLines (S : Site) (tags : MachineTags) (available : List String) (rule : Json) :
    Py RenderError (List String × List Json) := do
  if rule.getD "action" .null = .str "reject" then
    return (← fieldLines S "IP-CIDR" (rule.getD "ip_cidr" (.arr [])) "REJECT,no-resolve", [])
  let out := rule.getD "outbound" .null
  if !out.truthy then return ([], [rule])
  let target ← mapTarget tags out
  let name := rule.getD "rule_set" .null
  if name.truthy then
    -- A rule set decides alone; other matchers of the rule are not looked at.
    if ← name.within available then
      return (["RULE-SET," ++ S.str name ++ "," ++ S.str target], [])
    else return ([], [.obj [("rule_set", name), ("outbound", out)]])
  let suffixes ← fieldLines S "DOMAIN-SUFFIX" (rule.getD "domain_suffix" (.arr [])) (S.str target)
  let domains ← fieldLines S "DOMAIN" (rule.getD "domain" (.arr [])) (S.str target)
  let keywords ← fieldLines S "DOMAIN-KEYWORD" (rule.getD "domain_keyword" (.arr [])) (S.str target)
  return (suffixes ++ domains ++ keywords, [])

/-- `route.get("rules", [])`. -/
def routeRules (route : Json) : Py RenderError (List Json) := (route.getD "rules" (.arr [])).items

/-- The policy of a target, `DIRECT` where there is none. -/
def policyOf (S : Site) (tags : MachineTags) (tag : Json) : Py RenderError String := do
  if tag.truthy then return S.str (← mapTarget tags tag) else return "DIRECT"

/-- `_rules_from_route`. -/
def rulesFromRoute (S : Site) (tags : MachineTags) (available : List String) (route : Json) :
    Py RenderError (List String × List Json) := do
  let parts ← (← routeRules route).mapM (ruleLines S tags available)
  let final ← policyOf S tags (route.getD "final" .null)
  return ((parts.map Prod.fst).flatten ++ ["MATCH," ++ final], (parts.map Prod.snd).flatten)

/-! ### Mixed listeners -/

/-- `value in container`. -/
def isIn (value container : Json) : Py RenderError Bool :=
  match value, container with
  | .str text, _ => container.has text
  | _, .arr xs => .ok (xs.any (fun x => same value x))
  | _, .obj _ => if value.hashable then .ok false else Py.fault .type
  | _, _ => Py.fault .type

/-- The target of the first rule that names the listener, `null` where there is none. -/
def pinOf (tag : Json) : List Json → Py RenderError Json
  | [] => .ok .null
  | rule :: rules => do
      let inbound := rule.getD "inbound" .null
      let named ← isIn tag (if inbound.truthy then inbound else .arr [])
      if named && (rule.getD "outbound" .null).truthy then return rule.getD "outbound" .null
      else pinOf tag rules

/-- The listener and the rule line of an inbound. -/
def listenerOf (S : Site) (tags : MachineTags) (route inbound : Json) :
    Py RenderError (Option (Json × String)) := do
  let typ ← attr inbound "type"
  if typ ≠ .str "mixed" || !(inbound.getD "listen_port" .null).truthy then return none
  let tag := inbound.getD "tag" .null
  let tag := if tag.truthy then tag else .str "mixed-in"
  let pin ← pinOf tag (← routeRules route)
  let exit := if pin.truthy then pin else route.getD "final" .null
  let policy ← policyOf S tags exit
  return some (.obj [("name", tag), ("type", .str "mixed"),
    ("port", inbound.getD "listen_port" .null), ("listen", inbound.getD "listen" (.str "0.0.0.0"))],
    "IN-NAME," ++ S.str tag ++ "," ++ policy)

/-- `_mixed_listeners`. -/
def mixedListeners (S : Site) (tags : MachineTags) (route inbounds : Json) :
    Py RenderError (List (Json × String)) := do
  return (← (← inbounds.items).mapM (listenerOf S tags route)).filterMap id

/-! ### Insertion -/

/-- The leading lines against loops, behind which other lines are inserted. -/
def isAntiLoop (line : String) : Bool :=
  "IP-CIDR".toList.isPrefixOf line.toList && "REJECT,no-resolve".toList.isSuffixOf line.toList

/-- Lines inserted behind the first ones that satisfy `isAntiLoop`. -/
def inserted (lines rules : List String) : List String :=
  rules.takeWhile isAntiLoop ++ lines ++ rules.dropWhile isAntiLoop

/-- The domains that are retired. -/
def retiredDomains : List String := ["gs-loc.apple.com", "gs-loc-cn.apple.com"]

/-- `str(d).lower().rstrip(".") not in {...}`. -/
def stillMitm (S : Site) (domain : Json) : Bool :=
  decide (String.ofList ((S.lower (S.str domain)).toList.rdropWhile (· = '.')) ∉ retiredDomains)

/-- The line that hands a domain to the local service. -/
def mitmLine (S : Site) (domain : Json) : String := "DOMAIN-SUFFIX," ++ S.str domain ++ ",MITM-OUT"

end ProxyGateway.Render
