import ProxyGateway.Schema.Agreement
import ProxyGateway.Schema.Rebind

set_option autoImplicit false

/-!
# ProxyGateway.WebImport.Merge

`_merge_model`: the model that an import puts in place of the current one. Both models are normalized
first, and the direct outbound of the incoming one is bound to the machine. In replace mode the
incoming outbounds, groups and route are taken over; in merge mode each name is one slot, which the
incoming model fills unless the choice for a conflict keeps the existing one.
-/

namespace ProxyGateway.WebImport

open Schema Json Py

/-! ### The parts of a normalized model -/

/-- The parts of a model, with the fields that they stand in. -/
structure Parts where
  fields : Dict String Json
  outbounds : List Json
  groups : List Json
  mihomo : MihomoMeta
  route : Dict String Json

/-- The parts of a model that was normalized. -/
def partsOf (model : Json) : Py String Parts := do
  let .obj fields := model | Py.fault .type
  let .arr outbounds := model.getD "outbounds" .null | Py.fault .type
  let .arr groups := (model.getD "_pdg" .null).getD "policy-groups" .null | Py.fault .type
  let mihomo ← normalizedMihomo model
  let .obj route := model.getD "route" .null | Py.fault .type
  return { fields, outbounds, groups, mihomo, route }

/-- The model with the parts put back. -/
def Parts.model (p : Parts) : Json := assembled p.fields p.outbounds p.groups p.mihomo p.route

/-! ### The direct outbound of the machine -/

/-- `_single_direct` -/
def singleDirect (label : String) (model : Json) : Py String (Json × String) :=
  let invalid := label ++ " PDG model must contain exactly one valid direct outbound"
  match (outboundsOf model).filter (hasType "direct") with
  | [outbound] =>
      match outbound.getD "tag" .null with
      | .str tag => if tagRe tag then .ok (outbound, tag) else Py.raise invalid
      | _ => Py.raise invalid
  | _ => Py.raise invalid

/-- The call of `rebind_direct`. -/
def rebound (H : Schema.Host) (model : Json) (new : String) : Py String Json :=
  match rebindDirect H.unicode model (.str new) with
  | .ok result => .ok result
  | .error (.error e) => Py.raise ("incoming direct tag cannot be rebound: " ++ e.message)
  | .error (.fault f) =>
      if f = .type ∨ f = .value then
        Py.raise ("incoming direct tag cannot be rebound: " ++ H.faultText f)
      else Py.fault f

/-- `_rebind_incoming_direct` -/
def rebindIncomingDirect (H : Schema.Host) (current incoming : Json) : Py String Json := do
  let (_, currentTag) ← singleDirect "current" current
  let (_, incomingTag) ← singleDirect "incoming" incoming
  if incomingTag = currentTag then return incoming
  raiseIf ((outboundsOf incoming).any fun item => item.get? "tag" = some (.str currentTag))
    "incoming model collides with the current direct tag"
  let result ← rebound H incoming currentTag
  normalizeModel H result

/-! ### Slots -/

/-- Is it an outbound that has a slot, one that is not the direct outbound? -/
def hasSlot (item : Json) : Bool := isDict item && !hasType "direct" item

/-- The items by the text of a field. -/
def keyed (key : String) (items : List Json) : Dict String Json :=
  items.filterMap fun item => ((item.get? key).bind Json.str?).map fun name => (name, item)

/-- `incoming_outbounds` -/
def Parts.outboundSlots (p : Parts) : Dict String Json :=
  Dict.update [] (keyed "tag" (p.outbounds.filter hasSlot))

/-- `incoming_groups` -/
def Parts.groupSlots (p : Parts) : Dict String Json := Dict.update [] (keyed "name" p.groups)

/-- `_model_name_occupancy` -/
def Parts.names (p : Parts) : List String := outboundTags (p.outbounds.filter hasSlot) ++ groupNames p.groups

/-- `_ordered_model_names` -/
def Parts.orderedNames (p : Parts) : List String := p.names.eraseDups

/-- The choice for a conflict, `"incoming"` where there is none. -/
def choiceFor (resolutions : Dict String String) (kind name : String) : String :=
  (resolutions.get? (kind ++ ":" ++ name)).getD "incoming"

/-- Is it the outbound in the slot of the name? -/
def outboundAt (name : String) (item : Json) : Bool := hasSlot item && decide (item.get? "tag" = some (.str name))

/-- Is it the group in the slot of the name? -/
def groupAt (name : String) (group : Json) : Bool := decide (group.get? "name" = some (.str name))

/-- The slot of a name is filled by the incoming model. -/
def fillSlot (incoming : Parts) (name : String) (p : Parts) : Parts :=
  { p with
    outbounds := p.outbounds.filter (!outboundAt name ·) ++ (incoming.outboundSlots.get? name).toList
    groups := p.groups.filter (!groupAt name ·) ++ (incoming.groupSlots.get? name).toList }

/-- A turn of the loop over the names. -/
def fillTurn (current incoming : Parts) (resolutions : Dict String String) (p : Parts) (name : String) : Parts :=
  if name ∈ current.names ∧ choiceFor resolutions "name" name = "existing" then p else fillSlot incoming name p

/-- The loop over the names. -/
def fillSlots (current incoming : Parts) (resolutions : Dict String String) (p : Parts) : Parts :=
  incoming.orderedNames.foldl (fillTurn current incoming resolutions) p

/-- The loop over the providers of a kind. -/
def mergeProviders (resolutions : Dict String String) (kind : String) (current incoming : Dict String Json) :
    Dict String Json :=
  incoming.foldl (fun providers entry =>
    if ¬ providers.contains entry.1 ∨ choiceFor resolutions kind entry.1 = "incoming" then
      providers.set entry.1 entry.2
    else providers) current

/-- `incoming["route"].get("rules") or []`, with that of the current route behind it. -/
def mergeRules (current incoming : Dict String Json) : Py String (List Json) := do
  let .arr xs := orEmptyList ((Json.obj incoming).getD "rules" .null) | Py.fault .type
  let .arr ys := orEmptyList ((Json.obj current).getD "rules" .null) | Py.fault .type
  return xs ++ ys

/-- The final target of the incoming route, if it has one. -/
def mergeFinal (incoming route : Dict String Json) : Dict String Json :=
  let final := (Json.obj incoming).getD "final" .null
  if final.truthy then route.set "final" final else route

/-! ### `_merge_model` -/

/-- The leaf that a provider needs, if it is a local file. -/
def neededLeaf (managed : Dict String Json) (provider : Json) : Py String (Option String) := do
  if !(isDict provider && decide (provider.getD "type" (.str "http") = .str "file")) then return none
  let .str path := provider.getD "path" (.str "") | Py.fault .type
  let missing := "merged model references a missing managed provider file"
  let some leaf := providerLeaf path | Py.raise missing
  raiseIf (!managed.contains leaf) missing
  return some leaf

/-- `_prune_managed_files` -/
def pruneManagedFiles (H : Schema.Host) (p : Parts) : Py String Json := do
  let proxy ← p.mihomo.proxyProviders.mapM fun entry => neededLeaf p.mihomo.managedFiles entry.2
  let rule ← p.mihomo.ruleProviders.mapM fun entry => neededLeaf p.mihomo.managedFiles entry.2
  let needed := proxy.reduceOption ++ rule.reduceOption
  normalizeModel H { p with mihomo.managedFiles := p.mihomo.managedFiles.filter (fun f => f.1 ∈ needed) }.model

/-- The branch of replace mode. -/
def replaceParts (machineDirect : Json) (current incoming : Parts) : Parts :=
  { fields := current.fields
    outbounds := machineDirect :: incoming.outbounds.filter hasSlot
    groups := incoming.groups
    mihomo := incoming.mihomo
    route := incoming.route }

/-- The branch of merge mode. -/
def mergeParts (resolutions : Dict String String) (current incoming : Parts) : Py String Parts := do
  let slots := fillSlots current incoming resolutions current
  let rules ← mergeRules current.route incoming.route
  return { slots with
    mihomo := {
      proxyProviders := mergeProviders resolutions "proxy-provider" current.mihomo.proxyProviders
        incoming.mihomo.proxyProviders
      ruleProviders := mergeProviders resolutions "rule-provider" current.mihomo.ruleProviders
        incoming.mihomo.ruleProviders
      advanced := current.mihomo.advanced.update incoming.mihomo.advanced
      managedFiles := current.mihomo.managedFiles.update incoming.mihomo.managedFiles }
    route := mergeFinal incoming.route (current.route.set "rules" (.arr rules)) }

/-- The two models as they are merged. -/
def preparedModels (H : Schema.Host) (current incoming : Json) : Py String (Json × Json) := do
  let current ← normalizeModel H current
  let incoming ← normalizeModel H incoming
  let incoming ← rebindIncomingDirect H current incoming
  return (current, incoming)

/-- `_merge_model` -/
def mergeModel (H : Schema.Host) (current incoming : Json) (mode : String) (resolutions : Dict String String) :
    Py String Json := do
  let (current, incoming) ← preparedModels H current incoming
  let incoming ← partsOf incoming
  if mode = "replace" then
    let (machineDirect, _) ← singleDirect "current" current
    pruneManagedFiles H (replaceParts machineDirect (← partsOf current) incoming)
  else
    pruneManagedFiles H (← mergeParts resolutions (← partsOf current) incoming)

end ProxyGateway.WebImport
