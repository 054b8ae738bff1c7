import ProxyGateway.Schema.Merge
import ProxyGateway.Schema.Rebind

set_option autoImplicit false

/-!
# ProxyGateway.Schema.Preserve

`rebind_direct_preserve_schema` gives the direct outbound of a document a new tag and leaves its
schema: the references are rewritten where they are spelled like the old tag, in the outbounds and
in both places where a document keeps its groups.

The groups of an older document come out renamed (`legacyGroups_preserved`).
-/

namespace ProxyGateway.Schema

open Py Json

/-! ### `rebind_direct_preserve_schema` -/

/-- `[new if item == old else item for item in fields.get(key, [])]`, written back. -/
def renameMembers (old new key : String) (fields : Dict String Json) :
    Py ModelError (Dict String Json) := do
  let members ← ((Json.obj fields).getD key (.arr [])).items
  return Dict.set fields key (.arr (members.map (renamed old new)))

/-- An outbound: the direct one gets the tag, a legacy group has its members renamed. -/
def preserveOutbound (old new : String) (outbound : Json) : Py ModelError Json :=
  match retag new outbound with
  | .obj fields => do
      if !(← ((Json.obj fields).getD "type" .null).within groupOutboundTypes) then
        return .obj fields
      return .obj (← renameMembers old new "outbounds" fields)
  | _ => .ok outbound

/-- A group of the metadata. -/
def preserveGroup (old new : String) (group : Json) : Py ModelError Json :=
  match group with
  | .obj fields => do return .obj (← renameMembers old new "proxies" fields)
  | _ => .ok group

/-- The groups of either schema. -/
def preserveMeta (old new : String) (pdg : Dict String Json) : Py ModelError (Dict String Json) := do
  let pdg ← referList "policy-groups" (preserveGroup old new) pdg
  match Dict.get? pdg "mihomo" with
  | some (.obj mihomo) =>
      return Dict.set pdg "mihomo" (.obj (← referList "proxy-groups" (preserveGroup old new) mihomo))
  | _ => return pdg

/-- The final target and the targets of the rules. -/
def preserveRoute (old new : String) (route : Dict String Json) :
    Py ModelError (Dict String Json) :=
  referList "rules" (fun rule => .ok (renameRule old new rule)) (renameField old new "final" route)

/-- `result[key] = f(result[key])`, for a field that is an object. -/
def withObject (key : String) (f : Dict String Json → Py ModelError (Dict String Json))
    (fields : Dict String Json) : Py ModelError (Dict String Json) :=
  match Dict.get? fields key with
  | some (.obj value) => do return Dict.set fields key (.obj (← f value))
  | _ => .ok fields

/-- `rebind_direct_preserve_schema`. -/
def rebindDirectPreserveSchema (U : Unicode) (model new : Json) : Py ModelError Json := do
  let .obj fields := model | Py.raise (.text "model root must be an object")
  let old ← directTag model
  let new ← tag new "direct tag"
  discard (rebindDirect U model (.str new))
  if old = new then return model
  -- `rebind_direct` has let the document through: outbounds and route are there.
  let outbounds ← (model.getD "outbounds" (.arr [])).items
  let outbounds ← outbounds.mapM (preserveOutbound old new)
  let fields ← withObject "_pdg" (preserveMeta old new) (Dict.set fields "outbounds" (.arr outbounds))
  let fields ← withObject "route" (preserveRoute old new) fields
  discard (migrate U (.obj fields))
  return .obj fields

/-! ### What is rewritten -/

variable {U : Unicode} {old new key : String} {fields route : Dict String Json}
  {outbounds groups raws : List Json} {model result outbound raw group : Json} {m : MihomoMeta}

/-- A legacy group with its members renamed. -/
def preservedMembers (old new : String) (outbound : Json) : Json :=
  match outbound with
  | .obj fields => .obj (Dict.set fields "outbounds"
      (.arr ((outbound.getD "outbounds" (.arr [])).entries.map (renamed old new))))
  | _ => outbound

/-- An outbound as it is rewritten. -/
def preservedOutbound (old new : String) (outbound : Json) : Json :=
  if isGroupOutbound outbound then preservedMembers old new outbound else retag new outbound

theorem isContainer_of_items {ε : Type} {value : Json} {xs : List Json} (h : value.items (ε := ε) = .ok xs) :
    value.isContainer = true :=
  clean_items_iff.mp (onlyFaults_of_ok h)

theorem renameMembers_eq (h : ((Json.obj fields).getD key (.arr [])).isContainer = true) :
    renameMembers old new key fields = .ok (Dict.set fields key
      (.arr (((Json.obj fields).getD key (.arr [])).entries.map (renamed old new)))) := by
  rw [renameMembers, items_of_container h]
  rfl

theorem preserveGroup_eq (h : (group.getD "proxies" (.arr [])).isContainer = true) :
    preserveGroup old new group = .ok (renamedGroup old new group) := by
  cases group with
  | obj fields =>
      rw [preserveGroup, renameMembers_eq h]
      rfl
  | _ => rfl

/-- The members of a group that is rewritten can be visited. -/
theorem isContainer_of_preserveGroup (h : preserveGroup old new group = .ok result) :
    (group.getD "proxies" (.arr [])).isContainer = true := by
  cases group with
  | obj fields =>
      obtain ⟨fields', hfields, -⟩ := bind_eq_ok.mp h
      obtain ⟨xs, hxs, -⟩ := bind_eq_ok.mp hfields
      exact isContainer_of_items hxs
  | _ => rfl

/-- A legacy group is no direct outbound. -/
theorem not_direct_of_group (h : isGroupOutbound outbound = true) : hasType "direct" outbound ≠ true := by
  intro hdirect
  rw [hasType, decide_eq_true_eq] at hdirect
  rw [isGroupOutbound, getD_of_get? hdirect] at h
  simp [Json.str?, groupOutboundTypes] at h

theorem isGroupOutbound_retag : isGroupOutbound (retag new outbound) = isGroupOutbound outbound := by
  rw [isGroupOutbound, isGroupOutbound, getD, getD, get?_retag_type]

theorem preserveOutbound_eq (htype : (outbound.getD "type" .null).hashable = true)
    (hmembers : isGroupOutbound outbound = true →
      (outbound.getD "outbounds" (.arr [])).isContainer = true) :
    preserveOutbound old new outbound = .ok (preservedOutbound old new outbound) := by
  cases outbound with
  | obj fields =>
      by_cases hgroup : isGroupOutbound (.obj fields) = true
      · have hkeep : retag new (.obj fields) = .obj fields := retag_of_ne (not_direct_of_group hgroup)
        rw [preserveOutbound, hkeep, preservedOutbound, if_pos hgroup]
        simp only [within_of_hashable htype, ok_bind]
        rw [← isGroupOutbound, hgroup, renameMembers_eq (hmembers hgroup)]
        rfl
      · obtain ⟨fields', hfields'⟩ : ∃ fields', retag new (.obj fields) = .obj fields' := by
          by_cases hdirect : hasType "direct" (.obj fields) = true
          · exact ⟨Dict.set fields "tag" (.str new), by simp only [retag, hdirect, if_true]⟩
          · exact ⟨fields, retag_of_ne hdirect⟩
        have htype' : ((Json.obj fields').getD "type" .null) = (Json.obj fields).getD "type" .null := by
          rw [← hfields', getD, getD, get?_retag_type]
        rw [preserveOutbound, preservedOutbound, if_neg hgroup, hfields']
        simp only [htype', within_of_hashable htype, ok_bind]
        rw [← isGroupOutbound, Bool.eq_false_iff.mpr hgroup]
        rfl
  | _ => rfl

/-! ### The groups of an older document -/

/-- A loop over rewritten elements, where each turn rewrites the state and keeps an invariant. -/
theorem foldlM_map_eq_ok {ε σ σ' α β : Type} {f : σ → α → Py ε σ} {f' : σ' → β → Py ε σ'} {g : α → β}
    {k : σ → σ'} {xs : List α} (P : σ → Prop)
    (hturn : ∀ x ∈ xs, ∀ s t, P s → f s x = .ok t → P t ∧ f' (k s) (g x) = .ok (k t)) {s t : σ}
    (hs : P s) (h : xs.foldlM f s = .ok t) : (xs.map g).foldlM f' (k s) = .ok (k t) := by
  induction xs generalizing s with
  | nil =>
      cases h
      rfl
  | cons x xs ih =>
      rw [List.foldlM_cons] at h
      obtain ⟨mid, hmid, h⟩ := bind_eq_ok.mp h
      obtain ⟨hkept, hstep⟩ := hturn x (by simp) s mid hs hmid
      rw [List.map_cons, List.foldlM_cons, hstep]
      exact ih (fun y hy => hturn y (List.mem_cons_of_mem x hy)) hkept h

/-- The fields of a group with its members renamed. -/
def renamedFields (old new : String) (fields : Dict String Json) : Dict String Json :=
  Dict.set fields "proxies"
    (.arr (((Json.obj fields).getD "proxies" (.arr [])).entries.map (renamed old new)))

/-- The entries of the groups with their members renamed. -/
def renamedEntries (old new : String) (groups : GroupDict) : GroupDict :=
  groups.map (fun entry => (entry.1, renamedFields old new entry.2))

theorem keys_renamedEntries {groups : GroupDict} : Dict.keys (renamedEntries old new groups) = groups.keys := by
  simp [renamedEntries, Dict.keys, Function.comp_def]

theorem get?_renamedEntries {groups : GroupDict} {name : String} :
    Dict.get? (renamedEntries old new groups) name = (groups.get? name).map (renamedFields old new) := by
  induction groups with
  | nil => rfl
  | cons entry groups ih =>
      obtain ⟨k, v⟩ := entry
      by_cases hk : k = name
      · subst hk
        simp [renamedEntries]
      · rw [Dict.get?_cons_ne hk, ← ih, renamedEntries, List.map_cons, Dict.get?_cons_ne hk]
        rfl

theorem contains_renamedEntries {groups : GroupDict} {name : String} :
    Dict.contains (renamedEntries old new groups) name = groups.contains name := by
  rw [Dict.contains, Dict.contains, get?_renamedEntries, Option.isSome_map]

/-- The alias of the direct tag and the tag itself are renamed alike. -/
theorem toDirect_renamed (hold : old ≠ "DIRECT") (item : Json) :
    toDirect new (renamed old new item) = renamed old new (toDirect old item) := by
  by_cases halias : item = .str "DIRECT"
  · have hne : Json.str "DIRECT" ≠ .str old := fun h => hold (Json.str.inj h).symm
    rw [halias, renamed_of_ne hne, toDirect, if_pos rfl, toDirect, if_pos rfl, renamed_self]
  · by_cases hitem : item = .str old
    · rw [hitem, renamed_self, toDirect, toDirect, if_neg (fun h => hold (Json.str.inj h)), renamed_self]
      split
      · rfl
      · rfl
    · rw [renamed_of_ne hitem, toDirect, if_neg halias, toDirect, if_neg halias, renamed_of_ne hitem]

theorem map_toDirect_renamed (hold : old ≠ "DIRECT") (items : List Json) :
    (items.map (renamed old new)).map (toDirect new) = (items.map (toDirect old)).map (renamed old new) := by
  rw [List.map_map, List.map_map]
  exact List.map_congr_left fun item _ => toDirect_renamed hold item

/-- The group that a rewritten outbound stands for. -/
theorem canonicalGroup_preserved {entry : String × Dict String Json} (hold : old ≠ "DIRECT")
    (h : canonicalGroup U (.obj fields) old = .ok entry) :
    canonicalGroup U (preservedMembers old new (.obj fields)) new =
      .ok (entry.1, renamedFields old new entry.2) := by
  obtain ⟨name, hname, h⟩ := bind_eq_ok.mp h
  have hread : ∀ key d, "outbounds" ≠ key →
      (preservedMembers old new (.obj fields)).getD key d = (Json.obj fields).getD key d := by
    intro key d hne
    simp only [preservedMembers, getD, get?, Dict.get?_set_ne hne]
  have htest : hasType "urltest" (preservedMembers old new (.obj fields)) =
      hasType "urltest" (.obj fields) := by
    simp only [hasType, preservedMembers, get?, Dict.get?_set_ne (show "outbounds" ≠ "type" by simp)]
    rfl
  have hmembers : ((preservedMembers old new (.obj fields)).getD "outbounds" (.arr [])) =
      .arr (((Json.obj fields).getD "outbounds" (.arr [])).entries.map (renamed old new)) := by
    simp [preservedMembers, getD, get?]
  rw [canonicalGroup, hread "tag" _ (by simp), hname, ok_bind, htest, hread "interval" _ (by simp),
    hread "url" _ (by simp), hread "tolerance" _ (by simp), hmembers]
  -- the members are the only part of the group that is renamed
  have hfields : ∀ (typ : Json) (items : List Json) (probe : Dict String Json),
      renamedFields old new ([("name", .str name), ("type", typ), ("proxies", .arr items),
        ("use", .arr [])] ++ probe) = [("name", .str name), ("type", typ),
          ("proxies", .arr (items.map (renamed old new))), ("use", .arr [])] ++ probe := by
    intro typ items probe
    simp [renamedFields, getD, get?, Dict.get?_cons_ne, Dict.set, Json.entries]
  cases htest' : hasType "urltest" (.obj fields) with
  | true =>
      simp only [htest', if_true] at h ⊢
      obtain ⟨interval, hinterval, h⟩ := bind_eq_ok.mp h
      obtain ⟨probe, hprobe, h⟩ := bind_eq_ok.mp h
      obtain ⟨items, hitems, h⟩ := bind_eq_ok.mp h
      cases pure_eq_ok.mp hprobe
      rw [hinterval, ← pure_eq_ok.mp h, items_eq_ok hitems, hfields]
      simp only [items_arr, ok_bind, map_toDirect_renamed hold]
      rfl
  | false =>
      simp only [htest', Bool.false_eq_true, if_false] at h ⊢
      obtain ⟨probe, hprobe, h⟩ := bind_eq_ok.mp h
      obtain ⟨items, hitems, h⟩ := bind_eq_ok.mp h
      cases pure_eq_ok.mp hprobe
      rw [← pure_eq_ok.mp h, items_eq_ok hitems, hfields]
      simp only [items_arr, pure_bind, ok_bind, map_toDirect_renamed hold]
      rfl

theorem renamedEntries_concat {groups : GroupDict} {entry : String × Dict String Json} :
    renamedEntries old new (groups ++ [entry]) =
      renamedEntries old new groups ++ [(entry.1, renamedFields old new entry.2)] := by
  simp [renamedEntries]

theorem not_mem_renamedEntries {groups : GroupDict} {name : String} (h : name ∉ groups.keys) :
    name ∉ Dict.keys (renamedEntries old new groups) := by
  rwa [keys_renamedEntries]

/-- A turn of the loop over the outbounds, on a legacy group. -/
theorem canonicalGroups_group {groups : GroupDict} {direct : String} {entry : String × Dict String Json}
    (hgroup : isGroupOutbound (.obj fields) = true) (hentry : canonicalGroup U (.obj fields) direct = .ok entry)
    (hfresh : entry.1 ∉ groups.keys) :
    canonicalGroups U direct groups (.obj fields) = .ok (groups ++ [entry]) := by
  have hwithin : ((Json.obj fields).getD "type" .null).within (ε := ModelError) groupOutboundTypes =
      .ok true := by
    rw [isGroupOutbound] at hgroup
    cases htype : (Json.obj fields).getD "type" .null <;> simp_all [Json.within, Json.str?]
  have hcontains : groups.contains entry.1 = false := by
    rw [Dict.contains, Dict.get?_eq_none_iff.mpr hfresh]
    rfl
  rw [canonicalGroups_eq, isDict, if_pos rfl, hwithin, ok_bind, hentry, ← Dict.set_of_not_mem hfresh]
  simp only [ok_bind, hcontains]
  rfl

theorem canonicalGroups_other {groups : GroupDict} {direct : String}
    (hgroup : isGroupOutbound outbound = false) (htype : (outbound.getD "type" .null).hashable = true) :
    canonicalGroups U direct groups outbound = .ok groups := by
  rw [canonicalGroups_eq, within_of_hashable htype, ← isGroupOutbound, hgroup]
  cases isDict outbound <;> rfl

theorem canonicalGroups_preserved {acc acc' : GroupDict} (hold : old ≠ "DIRECT")
    (h : canonicalGroups U old acc outbound = .ok acc') :
    canonicalGroups U new (renamedEntries old new acc) (preservedOutbound old new outbound) =
      .ok (renamedEntries old new acc') := by
  obtain ⟨htype, hturn⟩ := canonicalGroups_turn h
  by_cases hgroup : isGroupOutbound outbound = true
  · rw [if_pos hgroup] at hturn
    obtain ⟨entry, hentry, hfresh, rfl⟩ := hturn
    cases outbound with
    | obj fields =>
        have hgroup' : isGroupOutbound (preservedMembers old new (.obj fields)) = true := by
          rw [← hgroup]
          simp [isGroupOutbound, preservedMembers, getD, get?, Dict.get?_set_ne]
        rw [preservedOutbound, if_pos hgroup, renamedEntries_concat]
        exact canonicalGroups_group hgroup' (canonicalGroup_preserved hold hentry)
          (not_mem_renamedEntries hfresh)
    | _ => simp [isGroupOutbound, getD, get?, Json.str?] at hgroup
  · rw [if_neg hgroup] at hturn
    have htype' : (retag new outbound).getD "type" .null = outbound.getD "type" .null := by
      rw [getD, getD, get?_retag_type]
    rw [hturn, preservedOutbound, if_neg hgroup]
    refine canonicalGroups_other ?_ (by rwa [htype'])
    rw [isGroupOutbound_retag, Bool.eq_false_iff.mpr hgroup]

/-! ### The groups of the metadata -/

/-- What an accepted group of the metadata does not hold, where its members are no list: the alias
of the direct tag, or a text with the reserved name in it. -/
structure Plain (fields : Dict String Json) : Prop where
  noAlias : isList ((Json.obj fields).getD "proxies" (.arr [])) = false →
    .str "DIRECT" ∉ ((Json.obj fields).getD "proxies" (.arr [])).entries
  noReject : ∀ s, (Json.obj fields).getD "proxies" (.arr []) = .str s →
    ¬ "REJECT".toList <:+: s.toList

theorem getD_renamedFields_ne {d : Json} (h : "proxies" ≠ key) :
    (Json.obj (renamedFields old new fields)).getD key d = (Json.obj fields).getD key d := by
  simp only [renamedFields, getD, get?, Dict.get?_set_ne h]

theorem getD_renamedFields {d : Json} :
    (Json.obj (renamedFields old new fields)).getD "proxies" d =
      .arr (((Json.obj fields).getD "proxies" (.arr [])).entries.map (renamed old new)) := by
  simp [renamedFields, getD, get?]

/-- Renaming and the alias of the direct tag. -/
theorem mirrored_renamed (hold : old ≠ "DIRECT") (hplain : Plain fields) :
    mirrored new (renamedFields old new fields) = renamedFields old new (mirrored old fields) := by
  have hget : Dict.get? (renamedFields old new fields) "proxies" =
      some (.arr (((Json.obj fields).getD "proxies" (.arr [])).entries.map (renamed old new))) :=
    Dict.get?_set_self _ _ _
  have hleft : mirrored new (renamedFields old new fields) = Dict.set fields "proxies"
      (.arr ((((Json.obj fields).getD "proxies" (.arr [])).entries.map (toDirect old)).map
        (renamed old new))) := by
    rw [mirrored, hget]
    simp only [renamedFields, Dict.set_set, map_toDirect_renamed hold]
  rw [hleft]
  by_cases hlist : isList ((Json.obj fields).getD "proxies" (.arr [])) = true
  · obtain ⟨ys, hys⟩ : ∃ ys, (Json.obj fields).getD "proxies" (.arr []) = .arr ys := by
      cases hvalue : (Json.obj fields).getD "proxies" (.arr []) with
      | arr ys => exact ⟨ys, rfl⟩
      | _ =>
          rw [hvalue] at hlist
          simp [isList] at hlist
    rw [renamedFields, mirrored_list hys, hys, Json.entries, Json.entries]
    unfold mirrored
    split
    · rw [Dict.set_set]
    · rfl
  · have hother : isList ((Json.obj fields).getD "proxies" (.arr [])) = false := Bool.eq_false_iff.mpr hlist
    have hsame : ((Json.obj fields).getD "proxies" (.arr [])).entries.map (toDirect old) =
        ((Json.obj fields).getD "proxies" (.arr [])).entries := by
      refine (List.map_congr_left fun x hx => ?_).trans (List.map_id _)
      rw [toDirect, if_neg]
      · rfl
      · rintro rfl
        exact hplain.noAlias hother hx
    rw [mirrored_other hother, hsame]
    rfl

theorem mirrorGroups_of_entry {groups : GroupDict} {direct : String} {entry : String × Dict String Json}
    (hmirror : MirrorOf U direct raw entry) (hfresh : entry.1 ∉ groups.keys) :
    mirrorGroups U direct groups raw = .ok (groups ++ [entry]) := by
  obtain ⟨fields, rfl, hname, hfields⟩ := hmirror
  have hcontains : groups.contains entry.1 = false := by
    rw [Dict.contains, Dict.get?_eq_none_iff.mpr hfresh]
    rfl
  rw [← Dict.set_of_not_mem hfresh, hfields]
  unfold mirrorGroups
  simp only [hname, ok_bind, hcontains]
  rfl

theorem mirrorGroups_preserved {acc acc' : GroupDict} (hold : old ≠ "DIRECT")
    (hplain : ∀ fields, raw = .obj fields → Plain fields) (h : mirrorGroups U old acc raw = .ok acc') :
    mirrorGroups U new (renamedEntries old new acc) (renamedGroup old new raw) =
      .ok (renamedEntries old new acc') := by
  obtain ⟨entry, ⟨fields, rfl, hname, hfields⟩, hfresh, rfl⟩ := mirrorGroups_turn h
  rw [renamedEntries_concat]
  refine mirrorGroups_of_entry ⟨renamedFields old new fields, rfl, ?_, ?_⟩ (not_mem_renamedEntries hfresh)
  · show validateName U ((Json.obj (renamedFields old new fields)).getD "name" .null) "group name" = _
    rw [getD_renamedFields_ne (by simp)]
    exact hname
  · rw [mirrored_renamed hold (hplain fields rfl), hfields]

/-! ### Both halves -/

/-- Neither tag is a reserved target. -/
structure Unreserved (old new : String) : Prop where
  oldAlias : old ≠ "DIRECT"
  oldReject : old ≠ "REJECT"
  newReject : new ≠ "REJECT"

theorem reject_renamed (hu : Unreserved old new) {item : Json} :
    renamed old new item = .str "REJECT" ↔ item = .str "REJECT" := by
  by_cases hitem : item = .str old
  · subst hitem
    rw [renamed_self]
    simp [hu.oldReject, hu.newReject]
  · rw [renamed_of_ne hitem]

theorem mem_reject_renamed (hu : Unreserved old new) {items : List Json} :
    .str "REJECT" ∈ items.map (renamed old new) ↔ .str "REJECT" ∈ items := by
  constructor
  · intro h
    obtain ⟨item, hmem, hitem⟩ := List.mem_map.mp h
    rwa [← (reject_renamed hu).mp hitem]
  · intro h
    exact List.mem_map.mpr ⟨_, h, (reject_renamed hu).mpr rfl⟩

theorem has_reject {value : Json} {found : Bool} (hpieces : ∀ s, value = .str s → ¬ "REJECT".toList <:+: s.toList)
    (h : value.has (ε := ModelError) "REJECT" = .ok found) :
    found = decide (Json.str "REJECT" ∈ value.entries) := by
  cases value with
  | arr items => exact (Except.ok.inj h).symm
  | str s =>
      have hfound : found = false := by
        rw [← Except.ok.inj h]
        exact decide_eq_false (hpieces s rfl)
      have hchars : Json.str "REJECT" ∉ (Json.str s).entries := by
        intro hmem
        obtain ⟨c, -, hc⟩ := List.mem_map.mp hmem
        have hlength := congrArg String.length (Json.str.inj hc)
        simp at hlength
        exact absurd hlength (by decide)
      rw [hfound, decide_eq_false hchars]
  | obj kvs =>
      rw [← Except.ok.inj h]
      simp only [Json.entries, List.mem_map, Json.str.injEq]
  | _ => simp [Json.has] at h

/-- Renaming does not decide whether an outbound can hold a group. -/
theorem representable_renamed (hu : Unreserved old new) (hplain : Plain fields) {b : Bool}
    (h : representable (.obj fields) = .ok b) : representable (.obj (renamedFields old new fields)) = .ok b := by
  unfold representable at h ⊢
  rw [getD_renamedFields_ne (by simp)]
  split
  · next huse =>
    rw [if_pos huse] at h
    exact h
  · next huse =>
    rw [if_neg huse] at h
    obtain ⟨found, hfound, h⟩ := bind_eq_ok.mp h
    rw [getD_renamedFields, Json.has, decide_eq_decide.mpr (mem_reject_renamed hu),
      ← has_reject hplain.noReject hfound]
    exact h

/-- `same` is kept by renaming. -/
theorem same_renamed {x y : Json} (h : same x y = true) : same (renamed old new x) (renamed old new y) = true := by
  by_cases hx : x = .str old
  · have hy : y = .str old := by
      rw [hx] at h
      cases y <;> simp_all [same]
    rw [hx, hy, renamed_self]
    simp [same]
  · have hy : y ≠ .str old := by
      rintro rfl
      cases x with
      | str s =>
          rw [same, decide_eq_true_eq] at h
          exact hx (congrArg Json.str h)
      | float v => cases v <;> simp [same, Json.number?] at h
      | _ => simp [same, Json.number?] at h
    rwa [renamed_of_ne hx, renamed_of_ne hy]

theorem sameList_renamed {xs ys : List Json} (h : sameList xs ys = true) :
    sameList (xs.map (renamed old new)) (ys.map (renamed old new)) = true := by
  induction xs generalizing ys with
  | nil =>
      cases ys with
      | nil => rfl
      | cons y ys => simp [sameList] at h
  | cons x xs ih =>
      cases ys with
      | nil => simp [sameList] at h
      | cons y ys =>
          rw [sameList, Bool.and_eq_true] at h
          rw [List.map_cons, List.map_cons, sameList, Bool.and_eq_true]
          exact ⟨same_renamed h.1, ih h.2⟩

theorem agrees_renamed {own : Dict String Json} {xs ys : List Json} (hu : Unreserved old new)
    (hplain : Plain fields) (hxs : (Json.obj fields).getD "proxies" (.arr []) = .arr xs)
    (hys : Dict.get? own "proxies" = some (.arr ys)) (h : Agrees (.obj fields) (.obj own)) :
    Agrees (.obj (renamedFields old new fields)) (.obj (renamedFields old new own)) := by
  have hread : ∀ (d : Dict String Json) key, "proxies" ≠ key →
      (Json.obj (renamedFields old new d)).get? key = (Json.obj d).get? key :=
    fun d key hne => Dict.get?_set_ne hne _ _
  have htest : hasType "url-test" (.obj (renamedFields old new own)) = hasType "url-test" (.obj own) := by
    rw [hasType, hasType, hread _ _ (by simp)]
  have hmembers := h.members
  rw [hxs, getD_obj hys] at hmembers
  refine ⟨?_, representable_renamed hu hplain h.whole, ?_, ?_, ?_, ?_⟩
  · rw [hread _ _ (by simp), hread _ _ (by simp)]
    exact h.type
  · rw [getD_renamedFields, getD_renamedFields, hxs, getD_obj hys]
    simp only [Json.equal, Json.same, Json.entries, Bool.and_eq_true, decide_eq_true_eq] at hmembers ⊢
    exact ⟨by simp, sameList_renamed hmembers.2⟩
  · rw [htest, getD_renamedFields_ne (by simp), getD_renamedFields_ne (by simp)]
    exact h.url
  · rw [htest, getD_renamedFields_ne (by simp), getD_renamedFields_ne (by simp)]
    exact h.interval
  · rw [htest, getD_renamedFields_ne (by simp), getD_renamedFields_ne (by simp)]
    exact h.tolerance

theorem plain_of_list {xs : List Json} (h : (Json.obj fields).getD "proxies" (.arr []) = .arr xs) :
    Plain fields where
  noAlias hlist := by
    rw [h] at hlist
    simp [isList] at hlist
  noReject s hs := by
    rw [h] at hs
    cases hs

theorem Plain.mirrored (h : Plain fields) (direct : String) : Plain (mirrored direct fields) := by
  by_cases hlist : isList ((Json.obj fields).getD "proxies" (.arr [])) = true
  · obtain ⟨ys, hys⟩ : ∃ ys, (Json.obj fields).getD "proxies" (.arr []) = .arr ys := by
      cases hvalue : (Json.obj fields).getD "proxies" (.arr []) with
      | arr ys => exact ⟨ys, rfl⟩
      | _ =>
          rw [hvalue] at hlist
          simp [isList] at hlist
    exact plain_of_list (mirrored_list hys)
  · rwa [mirrored_other (Bool.eq_false_iff.mpr hlist)]

/-- A turn of the loop over the groups of the outbounds. -/
theorem reconcileGroup_of_agrees {groups : GroupDict} {isV2 : Bool} {entry : String × Dict String Json}
    (hget : groups.get? entry.1 = some fields) (h : Agrees (.obj fields) (.obj entry.2)) :
    reconcileGroup isV2 groups entry = .ok groups := by
  obtain ⟨name, own⟩ := entry
  unfold reconcileGroup
  simp only [hget, h.whole, ok_bind, h.type, h.members]
  cases htest : hasType "url-test" (.obj own) with
  | false => simp [raiseIf]
  | true => simp [raiseIf, h.url htest, h.interval htest, h.tolerance htest]

theorem reconcileGroup_of_fresh {groups : GroupDict} {entry : String × Dict String Json}
    (hget : groups.get? entry.1 = none) :
    reconcileGroup false groups entry = .ok (groups ++ [entry]) := by
  obtain ⟨name, own⟩ := entry
  have hset := Dict.set_of_not_mem (b := own) (Dict.get?_eq_none_iff.mp hget)
  unfold reconcileGroup
  simp only [hget]
  exact congrArg Except.ok hset

theorem reconcileGroup_preserved {acc acc' : GroupDict} {isV2 : Bool} {ys : List Json}
    {entry : String × Dict String Json} (hu : Unreserved old new) (hplain : ∀ e ∈ acc, Plain e.2)
    (hown : Dict.get? entry.2 "proxies" = some (.arr ys))
    (h : reconcileGroup isV2 acc entry = .ok acc') :
    (∀ e ∈ acc', Plain e.2) ∧
      reconcileGroup isV2 (renamedEntries old new acc) (entry.1, renamedFields old new entry.2) =
        .ok (renamedEntries old new acc') := by
  have hturn := reconcileGroup_turn h
  cases hget : acc.get? entry.1 with
  | none =>
      rw [hget] at hturn
      obtain ⟨rfl, rfl⟩ := hturn
      constructor
      · intro e he
        rcases List.mem_append.mp he with he | he
        · exact hplain e he
        · rw [List.mem_singleton] at he
          rw [he]
          exact plain_of_list (getD_obj hown)
      · rw [renamedEntries_concat]
        refine reconcileGroup_of_fresh ?_
        rw [get?_renamedEntries, hget]
        rfl
  | some fields =>
      rw [hget] at hturn
      obtain ⟨hagree, rfl⟩ := hturn
      obtain ⟨xs, hxs⟩ : ∃ xs, (Json.obj fields).getD "proxies" (.arr []) = .arr xs := by
        have hmembers := hagree.members
        rw [getD_obj hown] at hmembers
        cases hvalue : (Json.obj fields).getD "proxies" (.arr []) with
        | arr xs => exact ⟨xs, rfl⟩
        | float v => cases v <;> simp_all [Json.equal, Json.same, Json.number?]
        | _ => simp_all [Json.equal, Json.same, Json.number?]
      have hget' : (renamedEntries old new acc').get? entry.1 = some (renamedFields old new fields) := by
        rw [get?_renamedEntries, hget]
        rfl
      exact ⟨hplain, reconcileGroup_of_agrees hget'
        (agrees_renamed hu (hplain _ (Dict.mem_of_get? hget)) hxs hown hagree)⟩

theorem checkMirrored_preserved {canonical : GroupDict} {entry : String × Dict String Json}
    (hu : Unreserved old new) (hplain : Plain entry.2) (h : checkMirrored canonical entry = .ok ()) :
    checkMirrored (renamedEntries old new canonical) (entry.1, renamedFields old new entry.2) = .ok () := by
  unfold checkMirrored at h ⊢
  simp only [contains_renamedEntries, getD_renamedFields_ne (show "proxies" ≠ "type" by simp)] at h ⊢
  split
  · rfl
  · next hmissing =>
    rw [if_neg hmissing] at h
    obtain ⟨known, hknown, h⟩ := bind_eq_ok.mp h
    rw [hknown, ok_bind]
    cases known with
    | false => rfl
    | true =>
        obtain ⟨whole, hwhole, h⟩ := bind_eq_ok.mp h
        simp only [Bool.not_true, Bool.false_eq_true, if_false, representable_renamed hu hplain hwhole, ok_bind]
        exact h

/-- The members of the group that an outbound stands for. -/
theorem canonicalGroup_members {direct : String} {entry : String × Dict String Json}
    (h : canonicalGroup U outbound direct = .ok entry) :
    (outbound.getD "outbounds" (.arr [])).isContainer = true ∧ Dict.get? entry.2 "proxies" =
      some (.arr ((outbound.getD "outbounds" (.arr [])).entries.map (toDirect direct))) := by
  obtain ⟨name, hname, h⟩ := bind_eq_ok.mp h
  cases htest : hasType "urltest" outbound with
  | true =>
      simp only [htest, if_true] at h
      obtain ⟨interval, -, h⟩ := bind_eq_ok.mp h
      obtain ⟨probe, -, h⟩ := bind_eq_ok.mp h
      obtain ⟨items, hitems, h⟩ := bind_eq_ok.mp h
      rw [← pure_eq_ok.mp h, ← items_eq_ok hitems]
      exact ⟨isContainer_of_items hitems, rfl⟩
  | false =>
      simp only [htest, Bool.false_eq_true, if_false] at h
      obtain ⟨probe, -, h⟩ := bind_eq_ok.mp h
      obtain ⟨items, hitems, h⟩ := bind_eq_ok.mp h
      rw [← pure_eq_ok.mp h, ← items_eq_ok hitems]
      exact ⟨isContainer_of_items hitems, rfl⟩

/-- The groups of a rewritten document are the renamed ones. -/
theorem legacyGroups_preserved (outbounds : List Json) {model' mihomo mihomo' : Json} {isV2 : Bool}
    (hu : Unreserved old new)
    (hdirect : directTag model = .ok old) (hdirect' : directTag model' = .ok new)
    (hraws : mihomo.getD "proxy-groups" (.arr []) = .arr raws)
    (hraws' : mihomo'.getD "proxy-groups" (.arr []) = .arr (raws.map (renamedGroup old new)))
    (hplain : ∀ raw ∈ raws, ∀ fields, raw = .obj fields → Plain fields)
    (h : legacyGroups U model outbounds mihomo isV2 = .ok groups) :
    legacyGroups U model' (outbounds.map (preservedOutbound old new)) mihomo' isV2 =
      .ok (groups.map (renamedGroup old new)) := by
  unfold legacyGroups at h ⊢
  rw [hdirect, ok_bind] at h
  obtain ⟨canonical, hcanonical, h⟩ := bind_eq_ok.mp h
  rw [hraws] at h
  obtain ⟨mirrors, hmirrors, h⟩ := bind_eq_ok.mp h
  obtain ⟨merged, hmerged, h⟩ := bind_eq_ok.mp h
  obtain ⟨hchecked, h⟩ := unit_bind_eq_ok.mp h
  -- each loop turns the renamed entries into the renamed result of its run before
  have hcanonical' : (outbounds.map (preservedOutbound old new)).foldlM (canonicalGroups U new) [] =
      .ok (renamedEntries old new canonical) :=
    foldlM_map_eq_ok (k := renamedEntries old new) (fun _ => True)
      (fun o _ s t _ hturn => ⟨trivial, canonicalGroups_preserved hu.oldAlias hturn⟩) trivial hcanonical
  have hmirrors' : (raws.map (renamedGroup old new)).foldlM (mirrorGroups U new) [] =
      .ok (renamedEntries old new mirrors) :=
    foldlM_map_eq_ok (k := renamedEntries old new) (fun _ => True)
      (fun raw hraw s t _ hturn => ⟨trivial, mirrorGroups_preserved hu.oldAlias (hplain raw hraw) hturn⟩)
      trivial hmirrors
  have hmirrorsPlain : ∀ e ∈ mirrors, Plain e.2 := by
    obtain ⟨-, entries, hentries, hall⟩ := mirrorGroups_cases hmirrors
    rw [List.nil_append] at hentries
    intro e he
    rw [hentries] at he
    obtain ⟨raw, hraw, fields, hfields, -, hmirror⟩ := exists_of_forall₂ hall.flip he
    rw [hmirror]
    exact (hplain raw hraw fields hfields).mirrored old
  have hown : ∀ e ∈ canonical, ∃ ys, Dict.get? e.2 "proxies" = some (.arr ys) := by
    obtain ⟨-, -, entries, hentries, hall⟩ := canonicalGroups_cases hcanonical
    rw [List.nil_append] at hentries
    intro e he
    rw [hentries] at he
    obtain ⟨o, -, ho⟩ := exists_of_forall₂ hall.flip he
    exact ⟨_, (canonicalGroup_members ho).2⟩
  have hmerged' : (renamedEntries old new canonical).foldlM (reconcileGroup isV2)
      (renamedEntries old new mirrors) = .ok (renamedEntries old new merged) :=
    foldlM_map_eq_ok (k := renamedEntries old new) (fun acc => ∀ e ∈ acc, Plain e.2)
      (fun e he s t hs hturn => by
        obtain ⟨ys, hys⟩ := hown e he
        exact reconcileGroup_preserved hu hs hys hturn) hmirrorsPlain hmerged
  have hmergedPlain : ∀ e ∈ merged, Plain e.2 := by
    have huniq := (canonicalGroups_cases hcanonical).2.1 List.nodup_nil
    intro e he
    rw [(reconcileGroup_cases huniq hmerged).1, List.mem_append] at he
    rcases he with he | he
    · exact hmirrorsPlain e he
    · obtain ⟨ys, hys⟩ := hown e (List.mem_of_mem_filter he)
      exact plain_of_list (getD_obj hys)
  have hchecked' : (renamedEntries old new merged).forM
      (checkMirrored (renamedEntries old new canonical)) = .ok () := by
    rw [forM_eq_ok] at hchecked ⊢
    intro e he
    obtain ⟨e, hmem, rfl⟩ := List.mem_map.mp he
    exact checkMirrored_preserved hu (hmergedPlain e hmem) (hchecked e hmem)
  simp only [hdirect', ok_bind, hcanonical', hraws', hmirrors', hmerged', hchecked']
  rw [← pure_eq_ok.mp h]
  simp only [renamedEntries, List.map_map]
  rfl

end ProxyGateway.Schema
