import ProxyGateway.Schema.Rebind

set_option autoImplicit false

/-!
# ProxyGateway.Exits.Delete

Deleting an exit or a policy group: `delete_exit` of the Bot and `delete_group` of the Web, on the
documents that they read, with the metadata of the rulesets.

The transaction refuses a model that is not the one that was read, so that the preview and the
candidate are computed from the same document. The names of a validated model are texts.
-/

namespace ProxyGateway.Exits

open Py Json Schema

/-- Why nothing is committed. -/
inductive Refusal where
  | undeletable | notFound | noFallback | fallbackChanged
  | model (e : ModelError)
  deriving DecidableEq

/-- A `ModelError` on the way. -/
def modelError {α : Type} : Py ModelError α → Py Refusal α
  | .ok a => .ok a
  | .error (.error e) => Py.raise (.model e)
  | .error (.fault f) => Py.fault f

/-! ### Policy groups -/

/-- `isinstance(group, dict) and group.get("name") in removed`. -/
def isGone {ε : Type} (removed : List String) (group : Json) : Py ε Bool :=
  match group with
  | .obj _ => (group.getD "name" .null).within removed
  | _ => .ok false

/-- The members of a group that are still there. -/
def pruneGroup {ε : Type} (removed : List String) (group : Json) : Py ε Json :=
  match group, group.getD "proxies" .null with
  | .obj fields, .arr items => do
      let kept ← items.filterM (fun item => return !(← item.within removed))
      return .obj (Dict.set fields "proxies" (.arr kept))
  | _, _ => .ok group

/-- `not group["proxies"] and not group.get("use")`. -/
def isEmptied (group : Json) : Bool :=
  match group, group.getD "proxies" .null with
  | .obj _, .arr items => items.isEmpty && !(group.getD "use" .null).truthy
  | _, _ => false

/-- `_mihomo_group_delete`; each turn but the last takes a group out. -/
def mihomoGroupDelete {ε : Type} : Nat → List String → List Json → Py ε (List Json)
  | 0, _, groups => return groups
  | turns + 1, removed, groups => do
      let groups ← groups.filterM (fun group => return !(← isGone removed group))
      let groups ← groups.mapM (pruneGroup removed)
      let newlyEmpty := groupNames (groups.filter isEmptied)
      if newlyEmpty.all (· ∈ removed) then return groups
      else mihomoGroupDelete turns (removed ++ newlyEmpty) groups

/-! ### Targets -/

/-- `routable_tags_unchecked`. -/
def routableTagsUnchecked {ε : Type} (model : Json) : Py ε (List String) := do
  let outbounds ← (outboundsOf model).filterM (fun item =>
    if isDict item then (item.getD "type" .null).within routableOutboundTypes else .ok false)
  return outboundTags outbounds ++ groupNames (policyGroups model)

/-- `deletable_tags`. -/
def deletableTags {ε : Type} (model : Json) : Py ε (List String) := do
  let outbounds ← (outboundsOf model).filterM (fun item =>
    (item.getD "type" .null).within (proxyOutboundTypes ++ groupOutboundTypes))
  return outboundTags outbounds ++ groupNames (policyGroups model)

/-- A rule whose target is gone gets the fallback. -/
def redirectRule {ε : Type} (live : List String) (fallback : String) (rule : Json) : Py ε Json :=
  match rule with
  | .obj fields => do
      let target := rule.getD "outbound" .null
      if target ≠ .null then
        if ← target.within live then return rule
        return .obj (Dict.set fields "outbound" (.str fallback))
      else return rule
  | _ => .ok rule

/-- The final target and the rules of the route. -/
def redirectRoute {ε : Type} (live : List String) (fallback : String) (route : Dict String Json) :
    Py ε (Dict String Json) := do
  let isLive ← ((Json.obj route).getD "final" .null).within live
  let route := if isLive then route else Dict.set route "final" (.str fallback)
  match Dict.get? route "rules" with
  | some (.arr rules) => return Dict.set route "rules" (.arr (← rules.mapM (redirectRule live fallback)))
  | _ => return route

/-- The route of a document, replaced. -/
def withRoute (model : Json) (route : Dict String Json) : Json :=
  match model with
  | .obj fields => .obj (Dict.set fields "route" (.obj route))
  | _ => model

/-- A ruleset whose target was removed gets the fallback. -/
def retargetRuleset {ε : Type} (removed : List String) (fallback : String) (entry : String × Json) :
    Py ε (String × Json) :=
  match entry.2 with
  | .obj info => do
      if ← (entry.2.getD "outbound" .null).within removed then
        return (entry.1, .obj (Dict.set info "outbound" (.str fallback)))
      return entry
  | _ => .ok entry

/-- The model without the names that are gone, every reference to them turned to the fallback: what
the transactions of both deletions do to it. -/
def closeReferences (model : Json) (fallback : String) : Py Refusal Json := do
  let live ← routableTagsUnchecked model
  if fallback ∉ live then Py.raise .fallbackChanged
  return withRoute model (← redirectRoute live fallback ((model.getD "route" .null).fields?.getD []))

/-! ### The operations -/

/-- The names of the groups that the cascade took out. -/
def removedGroups (before after : List Json) : List String :=
  (groupNames before).filter (· ∉ groupNames after)

/-- `delete_exit`. -/
def deleteExit (tag : String) (model : Json) (rsMeta : Dict String Json) :
    Py Refusal (Json × Dict String Json) := do
  if tag ∉ (← deletableTags model) then Py.raise .undeletable
  let outbounds := (outboundsOf model).filter (fun o => o.getD "tag" .null ≠ .str tag)
  let groups ← mihomoGroupDelete ((policyGroups model).length + 1) [tag] (policyGroups model)
  let preview := withGroups (withOutbounds model outbounds) groups
  let removed := tag :: removedGroups (policyGroups model) groups
  match (← routableTagsUnchecked preview).filter (· ∉ removed) with
  | [] => Py.raise .noFallback
  | fallback :: _ =>
      let rsMeta ← rsMeta.mapM (retargetRuleset removed fallback)
      return (← closeReferences preview fallback, rsMeta)

/-- `delete_group` of a model of schema 3. -/
def deleteGroup (U : Unicode) (tag : String) (model : Json) (rsMeta : Dict String Json) :
    Py Refusal (Json × Dict String Json) := do
  if tag ∉ groupNames (policyGroups model) then Py.raise .notFound
  let groups ← mihomoGroupDelete ((policyGroups model).length + 1) [tag] (policyGroups model)
  let removed := removedGroups (policyGroups model) groups
  match (← modelError (routableTags U model)).filter (· ∉ removed) with
  | [] => Py.raise .noFallback
  | fallback :: _ =>
      let rsMeta ← rsMeta.mapM (retargetRuleset removed fallback)
      return (← closeReferences (withGroups model groups) fallback, rsMeta)

end ProxyGateway.Exits
