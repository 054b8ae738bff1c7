import ProxyGateway.Route.Exits

set_option autoImplicit false

/-!
# ProxyGateway.Route.Import

The Web import of a configuration, as far as it reaches the gateway: `_merge_model` in
either mode, with the incoming direct outbound bound to the machine's, and for a PDG
archive what `_restore_bundle` hands on to `restore_from`: the merged model, in which the
addresses of the archive's machine are replaced, and those of the archive's domain lists
and ruleset metadata that were chosen.

Providers and managed files belong to no operation here, and `normalize_model` of the
result is the check that a transaction makes (`Model.valid`).
-/

namespace ProxyGateway.Route

/-! ### Validity -/

/-- What `pdgmodel.validate` demands, as far as it is held here: one direct outbound, one
namespace, and routable targets only. -/
def Model.valid (m : Model) : Bool :=
  decide ((m.outbounds.filter (fun o => o.type = "direct")).length = 1) &&
    decide (m.outbounds.map Outbound.tag ++ m.groups.map Group.name).Nodup &&
    decide (m.final ∈ m.exitTags) &&
    m.rules.all (fun r => decide (r.outbound = .null) || r.outbound.str?.any (· ∈ m.exitTags))

/-- `normalize_model`: the model itself, if it is valid. -/
def validated (m : Model) : Py Refusal Model := if m.valid then .ok m else Py.raise .badImport

/-! ### Imports -/

/-- How an import is applied. -/
inductive Mode where
  | merge | replace
  deriving DecidableEq, Repr

/-- The side chosen for a conflict. -/
inductive Choice where
  | incoming | existing
  deriving DecidableEq, Repr

/-- What a PDG archive holds beside the model. -/
structure Bundle where
  direct : Option (List String)
  hijack : Option (List String)
  rsMeta : Option (Dict String Json)
  /-- What becomes of a text when the machine's addresses are replaced; types and keys
  never hold one. -/
  rebased : String → String

/-- An accepted import: the normalized incoming model, the mode, the choices and, for a
PDG archive, the rest of it. -/
structure Import where
  model : Model
  valid : model.valid = true
  mode : Mode
  resolutions : Dict String Choice
  bundle : Option Bundle

/-! ### Binding the direct outbound -/

/-- `RESERVED_TARGETS` of `pdgmodel`. -/
def reservedTargets : List String := mihomoReserved

/-- Rename a tag wherever it denotes the outbound. -/
def renamed (old new tag : String) : String := if tag = old then new else tag

/-- `pdgmodel.rename_references` on a rule. -/
def renameRule (old new : String) (r : Rule) : Rule :=
  if r.outbound = .str old then r.set "outbound" (.str new) else r

/-- `pdgmodel.rebind_direct`. -/
def rebindDirect (m : Model) (new : String) : Py Refusal Model := do
  match m.directTag with
  | none => Py.raise .badImport
  | some old =>
      if old = new then return m
      if new ∈ reservedTargets ∨
          new ∈ (m.outbounds.filter (fun o => o.tag ≠ old)).map Outbound.tag ∨
          new ∈ m.groups.map Group.name then
        Py.raise .badImport
      return { m with
        outbounds := m.outbounds.map
          (fun o => if o.type = "direct" then { o with tag := new } else o)
        groups := m.groups.map (fun x => { x with proxies := x.proxies.map (renamed old new) })
        final := renamed old new m.final
        rules := m.rules.map (renameRule old new) }

/-! ### Merging models -/

/-- `_ordered_model_names`. -/
def Model.orderedNames (m : Model) : List String :=
  ((m.outbounds.filter (fun o => o.type ≠ "direct")).map Outbound.tag ++
    m.groups.map Group.name).dedup

/-- One turn of the loop over the incoming names. -/
def mergeName (current incoming : Model) (resolutions : Dict String Choice) (result : Model)
    (name : String) : Model :=
  if name ∈ current.orderedNames ∧ Dict.get? resolutions ("name:" ++ name) = some .existing then
    result
  else
    { result with
      outbounds :=
        result.outbounds.filter (fun o => !(o.type ≠ "direct" && o.tag = name)) ++
          ((incoming.outbounds.filter (fun o => o.type ≠ "direct")).filter
            (fun o => o.tag = name)).getLast?.toList
      groups :=
        result.groups.filter (fun x => x.name ≠ name) ++
          (incoming.groups.filter (fun x => x.name = name)).getLast?.toList }

/-- `_merge_model`. -/
def mergeModel (current incoming : Model) (mode : Mode) (resolutions : Dict String Choice) :
    Py Refusal Model := do
  match current.directTag, current.outbounds.find? (fun o => o.type = "direct") with
  | some direct, some machine =>
      let incoming ← rebindDirect incoming direct
      match mode with
      | .replace =>
          validated { incoming with
            outbounds := machine :: incoming.outbounds.filter (fun o => o.type ≠ "direct") }
      | .merge =>
          let result := incoming.orderedNames.foldl (mergeName current incoming resolutions) current
          validated { result with
            rules := incoming.rules ++ result.rules
            final := if incoming.final = "" then result.final else incoming.final }
  | _, _ => Py.raise .badImport

/-! ### Restoring a bundle -/

mutual

/-- Change the texts of a document. -/
def mapTexts (f : String → String) : Json → Json
  | .str s => .str (f s)
  | .arr xs => .arr (mapTextsList f xs)
  | .obj kvs => .obj (mapTextsFields f kvs)
  | j => j

/-- Change the texts of a list of documents. -/
def mapTextsList (f : String → String) : List Json → List Json
  | [] => []
  | x :: xs => mapTexts f x :: mapTextsList f xs

/-- Change the texts of the values of an object. -/
def mapTextsFields (f : String → String) : List (String × Json) → List (String × Json)
  | [] => []
  | (k, v) :: kvs => (k, mapTexts f v) :: mapTextsFields f kvs

end

/-- Replace the machine's addresses throughout a model. -/
def Model.rebase (f : String → String) (m : Model) : Model where
  outbounds := m.outbounds.map (fun o => { o with tag := f o.tag })
  groups := m.groups.map (fun x => ⟨f x.name, x.proxies.map f, x.use.map f⟩)
  final := f m.final
  rules := m.rules.map (mapTextsFields f)
  ruleSets := mapTextsList f m.ruleSets

/-- Is a component of the archive taken over? In merge mode only where it was chosen. -/
def Import.takes (I : Import) (component : String) : Bool :=
  decide (I.mode = .replace ∨
    Dict.get? I.resolutions ("component:" ++ component) = some .incoming)

/-- A list of the archive if it is taken over and there, else the one in place. -/
def Import.list (I : Import) (held : Option (List String)) (current : List String) :
    List String :=
  if I.takes "mosdns" then held.getD current else current

/-- The model that the import commits. -/
def Import.result (I : Import) (g : Gateway) : Py Refusal Model := do
  let merged ← mergeModel g.model I.model I.mode I.resolutions
  match I.bundle, g.model.directTag with
  | none, _ => return merged
  | some _, none => Py.raise .badImport
  | some b, some direct => rebindDirect (← validated (merged.rebase b.rebased)) direct

/-- The hijack list in force after the import. -/
def Import.hijack (I : Import) (g : Gateway) : List String :=
  match I.bundle with
  | none => g.hijack
  | some b => I.list b.hijack g.hijack

/-- Give each ruleset whose outbound satisfies `p` a new one. -/
def retargetMeta (p : Json → Bool) (target : String) (rsMeta : Dict String Json) :
    Dict String Json :=
  rsMeta.map (fun entry => match entry.2 with
    | .obj info =>
        if p ((Dict.get? info "outbound").getD .null) then
          (entry.1, .obj (Dict.set info "outbound" (.str target)))
        else entry
    | _ => entry)

/-- `ConfigIO.apply`. -/
def applyImport (I : Import) (g : Gateway) : Py Refusal Gateway := do
  let m ← I.result g
  match I.bundle with
  | none => return { g with model := m }
  | some b =>
      return {
        model := m
        direct := I.list b.direct g.direct
        hijack := I.hijack g
        rsMeta := if I.takes "rulesets" then
            (b.rsMeta.map (retargetMeta
              (fun o => decide (some o = I.model.directTag.map Json.str))
              (g.model.directTag.getD ""))).getD g.rsMeta
          else g.rsMeta }

/-! ### All operations -/

/-- An operation on the gateway. -/
inductive Op where
  | rule (op : RuleOp)
  | deleteExit (tag : String)
  | deleteOutbound (value : String)
  | apply (I : Import)

/-- What the operation commits. -/
def Op.run (H : Host) : Op → Gateway → Py Refusal Gateway
  | .rule op => op.run H
  | .deleteExit tag => Route.deleteExit tag
  | .deleteOutbound value => Route.deleteOutbound H value
  | .apply I => applyImport I

end ProxyGateway.Route
