import ProxyGateway.Route.Operations

set_option autoImplicit false

/-!
# ProxyGateway.Route.Exits

Deleting an exit: the Bot's `delete_exit` and the Web's `_delete_outbound`. Both take the
outbound out, cascade through the policy groups (`_mihomo_group_delete`) and give every
reference to something that is gone a fallback. They differ in what counts as such a
reference: the Web also rewrites a rule that has no outbound at all.

A schema-v3 model has no `selector` or `urltest` outbounds, so the parts of
`_delete_outbound` that edit those have nothing to do.
-/

namespace ProxyGateway.Route

/-- `_mihomo_group_delete`; each turn but the last takes a group out, so that the number
of groups bounds the turns. -/
def groupDelete : Nat → List String → List Group → List Group
  | 0, _, groups => groups
  | turns + 1, removed, groups =>
      let groups := (groups.filter (fun x => x.name ∉ removed)).map
        (fun x => { x with proxies := x.proxies.filter (· ∉ removed) })
      let newlyEmpty := (groups.filter (fun x => x.proxies.isEmpty && x.use.isEmpty)).map Group.name
      if newlyEmpty = [] then groups
      else groupDelete turns (removed ++ newlyEmpty) groups

/-- The model without an outbound or group and the groups that empties. -/
def Model.without (m : Model) (tag : String) : Model :=
  { m with
    outbounds := m.outbounds.filter (fun o => o.tag ≠ tag)
    groups := groupDelete (m.groups.length + 1) [tag] m.groups }

/-- `deletable_tags`. -/
def Model.deletableTags (m : Model) : List String :=
  (m.outbounds.filter
      (fun o => decide (o.type ∈ proxyTypes ++ ["selector", "urltest"]))).map Outbound.tag ++
    m.groups.map Group.name

/-- A ruleset whose outbound satisfies `p` gets a new one. -/
def retargetEntry (p : Json → Py Refusal Bool) (target : String) (entry : String × Json) :
    Py Refusal (String × Json) :=
  match entry.2 with
  | .obj info => do
      if ← p ((Dict.get? info "outbound").getD .null) then
        return (entry.1, .obj (Dict.set info "outbound" (.str target)))
      else return entry
  | _ => return entry

/-- Give each ruleset whose outbound satisfies `p` a new one. -/
def retargetRulesets (p : Json → Py Refusal Bool) (target : String) (rsMeta : Dict String Json) :
    Py Refusal (Dict String Json) :=
  rsMeta.mapM (retargetEntry p target)

/-- `rule["outbound"] = fallback` where the outbound is there and not live. -/
def redirectDangling (live : List String) (fallback : String) (r : Rule) : Py Refusal Rule := do
  if r.outbound ≠ .null then
    if ← r.outbound.within live then return r
    return r.set "outbound" (.str fallback)
  else return r

/-- `delete_exit`. -/
def deleteExit (tag : String) (g : Gateway) : Py Refusal Gateway := do
  if tag ∉ g.model.deletableTags then Py.raise .undeletable
  let m := g.model.without tag
  let kept := m.groups.map Group.name
  let removed := tag :: (g.model.groups.map Group.name).filter (· ∉ kept)
  match m.exitTags.filter (· ∉ removed) with
  | [] => Py.raise .noFallback
  | fallback :: _ =>
      let live := m.exitTags
      if fallback ∉ live then Py.raise .fallbackChanged
      let rules ← m.rules.mapM (redirectDangling live fallback)
      let rsMeta ← retargetRulesets (Json.within removed) fallback g.rsMeta
      return { g with
        model := { m with
          rules := rules
          final := if m.final ∈ live then m.final else fallback }
        rsMeta := rsMeta }

/-- `rule["outbound"] = final` where the outbound is not routable, as one that is absent is
not. -/
def redirectUnroutable (routable : List String) (final : String) (r : Rule) :
    Py Refusal Rule := do
  if ← r.outbound.within routable then return r
  return r.set "outbound" (.str final)

/-- Is it none of the names that can be routed to? -/
def unroutable (routable : List String) (o : Json) : Py Refusal Bool := do
  return !(← o.within routable)

/-- The default exit of a model without the deleted outbound: its own while that is
routable, else the first outbound that can be one. -/
def Model.finalAfter (m : Model) : Option String :=
  if m.final ∈ m.exitTags then some m.final
  else (m.outbounds.find? (fun o => o.type ∈ proxyTypes ++ ["direct"])).map Outbound.tag

/-- The Web's `_delete_outbound`, as `delete_exit` calls it. -/
def deleteOutbound (H : Host) (value : String) (g : Gateway) : Py Refusal Gateway := do
  match H.normalizeName value with
  | none => Py.raise .badTarget
  | some tag =>
      if tag ∈ mihomoReserved then Py.raise .badTarget
      match g.model.outbounds.find? (fun o => o.tag = tag) with
      | none => Py.raise .notFound
      | some o =>
          if o.type ∉ proxyTypes then Py.raise .notFound
          let m := g.model.without tag
          let live := m.exitTags
          match m.finalAfter with
          | none => Py.raise .noFallback
          | some final =>
              let rules ← m.rules.mapM (redirectUnroutable (live ++ ["direct"]) final)
              let rsMeta ← retargetRulesets (unroutable (live ++ ["direct"])) final g.rsMeta
              return { g with
                model := { m with rules := rules, final := final }
                rsMeta := rsMeta }

end ProxyGateway.Route
