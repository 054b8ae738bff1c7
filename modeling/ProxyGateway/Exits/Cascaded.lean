import ProxyGateway.Exits.Delete
import ProxyGateway.Lib.Cascade

set_option autoImplicit false

/-!
# ProxyGateway.Exits.Cascaded

What the cascade through the policy groups takes out: the names that fall with the deleted one
(`mihomoGroupDelete_eq`), and that the groups that are left keep their other members.
-/

namespace ProxyGateway.Exits

open Py Json Schema

/-! ### What falls with a name -/

/-- The name of a group. -/
def groupName (group : Json) : String := ((group.getD "name" .null).str?).getD ""

/-- The members of a group. -/
def groupMembers (group : Json) : List String :=
  (group.getD "proxies" (.arr [])).entries.filterMap Json.str?

/-- Does the group use a provider? -/
def usesProvider (group : Json) : Bool := (group.getD "use" .null).truthy

/-- The least set that has the name and every group whose members are all in it and that uses no
provider. -/
abbrev Falls (model : Json) (tag : String) : String → Prop :=
  Cascade.Falls groupName groupMembers usesProvider (policyGroups model) [tag]

/-- A group without the members that were removed. -/
def pruned (removed : List String) (group : Json) : Json :=
  match group with
  | .obj fields => .obj (Dict.set fields "proxies"
      (.arr ((groupMembers group).filter (· ∉ removed) |>.map Json.str)))
  | _ => group

/-- The groups that are left, without the members that were removed. -/
def kept (removed : List String) (groups : List Json) : List Json :=
  (groups.filter (fun group => decide (groupName group ∉ removed))).map (pruned removed)

variable {group : Json} {groups : List Json} {removed old : List String} {name : String}
  {members uses : List String} {ε : Type}

/-! ### A group as a migrated document has it -/

structure GroupRead (group : Json) (name : String) (members uses : List String) : Prop where
  name : group.get? "name" = some (.str name)
  proxies : group.get? "proxies" = some (.arr (members.map Json.str))
  uses : group.get? "use" = some (.arr (uses.map Json.str))

theorem filterMap_str (names : List String) : (names.map Json.str).filterMap Json.str? = names := by
  rw [List.filterMap_map]
  exact List.filterMap_some

theorem GroupRead.obj (h : GroupRead group name members uses) : ∃ fields, group = .obj fields := by
  cases group with
  | obj fields => exact ⟨fields, rfl⟩
  | _ => cases h.name

theorem GroupRead.groupName (h : GroupRead group name members uses) : groupName group = name := by
  rw [Exits.groupName, getD, h.name]
  rfl

theorem GroupRead.groupMembers (h : GroupRead group name members uses) : groupMembers group = members := by
  rw [Exits.groupMembers, getD, h.proxies]
  exact filterMap_str members

theorem GroupRead.usesProvider (h : GroupRead group name members uses) :
    usesProvider group = !uses.isEmpty := by
  rw [Exits.usesProvider, getD, h.uses]
  cases uses with
  | nil => rfl
  | cons use uses => rfl

theorem GroupRead.pruned (h : GroupRead group name members uses) :
    GroupRead (pruned removed group) name (members.filter (· ∉ removed)) uses := by
  obtain ⟨fields, rfl⟩ := h.obj
  rw [Exits.pruned, h.groupMembers]
  exact ⟨(Dict.get?_set_ne (by decide) _ _).trans h.name, Dict.get?_set_self _ _ _,
    (Dict.get?_set_ne (by decide) _ _).trans h.uses⟩

theorem GroupRead.isGone (h : GroupRead group name members uses) :
    isGone (ε := ε) removed group = .ok (decide (name ∈ removed)) := by
  obtain ⟨fields, rfl⟩ := h.obj
  rw [Exits.isGone, getD, h.name]
  rfl

theorem GroupRead.pruneGroup (h : GroupRead group name members uses) :
    pruneGroup (ε := ε) removed group = .ok (Exits.pruned removed group) := by
  obtain ⟨fields, rfl⟩ := h.obj
  have hitems : (Json.obj fields).getD "proxies" .null = .arr (members.map Json.str) := getD_of_get? h.proxies
  have hkept : (members.map Json.str).filterM (m := Py ε) (fun item => return !(← item.within removed)) =
      .ok ((members.map Json.str).filter (fun item => !item.str?.any (· ∈ removed))) := by
    refine filterM_eq_ok fun item hitem => ?_
    obtain ⟨member, -, rfl⟩ := List.mem_map.mp hitem
    rfl
  have hsame : ((fun item : Json => !item.str?.any (· ∈ removed)) ∘ Json.str) = fun member => decide (member ∉ removed) := by
    funext member
    simp [str?]
  unfold Exits.pruneGroup
  rw [hitems, Exits.pruned, h.groupMembers]
  simp only
  rw [hkept, ok_bind, List.filter_map, hsame]
  rfl

theorem GroupRead.isEmptied (h : GroupRead group name members uses) :
    isEmptied group = (members.isEmpty && uses.isEmpty) := by
  have huses := h.usesProvider
  obtain ⟨fields, rfl⟩ := h.obj
  rw [Exits.usesProvider] at huses
  unfold Exits.isEmptied
  rw [getD_of_get? h.proxies, huses, Bool.not_not]
  simp only [List.isEmpty_map]

/-- Members that were removed before make no difference. -/
theorem GroupRead.pruned_pruned (h : GroupRead group name members uses) (hsub : old ⊆ removed) :
    Exits.pruned removed (Exits.pruned old group) = Exits.pruned removed group := by
  have hmembers : Exits.groupMembers (Exits.pruned old group) = members.filter (· ∉ old) := h.pruned.groupMembers
  obtain ⟨fields, rfl⟩ := h.obj
  have hfilter : (members.filter (· ∉ old)).filter (· ∉ removed) = members.filter (· ∉ removed) := by
    rw [List.filter_filter]
    refine List.filter_congr fun member _ => ?_
    have hin : member ∉ removed → member ∉ old := fun hnot hold => hnot (hsub hold)
    grind
  have hshape : Exits.pruned old (.obj fields) =
      .obj (Dict.set fields "proxies" (.arr ((members.filter (· ∉ old)).map Json.str))) := by
    rw [Exits.pruned, h.groupMembers]
  rw [hshape] at hmembers ⊢
  rw [Exits.pruned, Exits.pruned, hmembers, hfilter, h.groupMembers, Dict.set_set]

theorem GroupRead.pruned_nil (h : GroupRead group name members uses) : Exits.pruned [] group = group := by
  obtain ⟨fields, rfl⟩ := h.obj
  have hall : members.filter (· ∉ ([] : List String)) = members := List.filter_eq_self.mpr (by simp)
  rw [Exits.pruned, h.groupMembers, hall, Dict.set_of_get? h.proxies]

/-! ### The loop -/

/-- Every group is as a migrated document has it. -/
def AllRead (groups : List Json) : Prop := ∀ group ∈ groups, ∃ name members uses, GroupRead group name members uses

theorem allRead_kept (h : AllRead groups) : AllRead (kept removed groups) := by
  intro group hgroup
  obtain ⟨own, hown, rfl⟩ := List.mem_map.mp hgroup
  obtain ⟨name, members, uses, hread⟩ := h own (List.mem_of_mem_filter hown)
  exact ⟨name, _, uses, hread.pruned⟩

theorem groupName_pruned (h : ∃ name members uses, GroupRead group name members uses) :
    groupName (pruned removed group) = groupName group := by
  obtain ⟨name, members, uses, hread⟩ := h
  exact hread.pruned.groupName.trans hread.groupName.symm

theorem kept_kept (h : AllRead groups) (hsub : old ⊆ removed) :
    kept removed (kept old groups) = kept removed groups := by
  have hnames : (groups.filter (fun group => decide (groupName group ∉ old))).filter
      ((fun group => decide (groupName group ∉ removed)) ∘ pruned old) =
        groups.filter (fun group => decide (groupName group ∉ removed)) := by
    rw [List.filter_filter]
    refine List.filter_congr fun group hgroup => ?_
    have hin : groupName group ∉ removed → groupName group ∉ old := fun hnot hold => hnot (hsub hold)
    rw [Function.comp_apply, groupName_pruned (h group hgroup)]
    grind
  rw [kept, kept, List.filter_map, List.map_map, hnames, kept]
  refine List.map_congr_left fun group hgroup => ?_
  obtain ⟨name, members, uses, hread⟩ := h group (List.mem_of_mem_filter hgroup)
  exact hread.pruned_pruned hsub

/-- One turn takes the removed names out. -/
theorem turn_eq (h : AllRead groups) (hsub : old ⊆ removed) :
    ((kept old groups).filterM (m := Py ε) (fun group => return !(← isGone removed group)) >>=
      fun groups => groups.mapM (pruneGroup removed)) = .ok (kept removed groups) := by
  have hread : AllRead (kept old groups) := allRead_kept h
  have hfilter : (kept old groups).filterM (m := Py ε) (fun group => return !(← isGone removed group)) =
      .ok ((kept old groups).filter (fun group => decide (groupName group ∉ removed))) := by
    refine filterM_eq_ok fun group hgroup => ?_
    obtain ⟨name, members, uses, hone⟩ := hread group hgroup
    rw [hone.isGone, hone.groupName, ok_bind, decide_not]
    rfl
  have hmap : ((kept old groups).filter (fun group => decide (groupName group ∉ removed))).mapM
      (pruneGroup (ε := ε) removed) = .ok (kept removed (kept old groups)) := by
    refine mapM_of_forall₂ ?_
    refine List.forall₂_map_right_iff.mpr (List.forall₂_same.mpr fun group hgroup => ?_)
    obtain ⟨name, members, uses, hone⟩ := hread group (List.mem_of_mem_filter hgroup)
    exact hone.pruneGroup
  rw [hfilter, ok_bind, hmap, kept_kept h hsub]

theorem groupNames_eq (h : AllRead groups) : groupNames groups = groups.map groupName := by
  induction groups with
  | nil => rfl
  | cons group groups ih =>
      obtain ⟨⟨name, members, uses, hread⟩, hrest⟩ := List.forall_mem_cons.mp h
      rw [List.map_cons, ← ih hrest, groupNames, List.filterMap_cons, hread.name, hread.groupName]
      rfl

/-- The names of the emptied groups are those that fall next. -/
theorem emptied_eq (h : AllRead groups) : groupNames ((kept removed groups).filter isEmptied) =
    Cascade.emptied groupName groupMembers usesProvider groups removed := by
  have hread : AllRead ((kept removed groups).filter isEmptied) := fun group hgroup =>
    allRead_kept h group (List.mem_of_mem_filter hgroup)
  rw [groupNames_eq hread, kept, List.filter_map, List.map_map, List.filter_filter, Cascade.emptied]
  have hnames : ∀ group ∈ groups, (groupName ∘ pruned removed) group = groupName group :=
    fun group hgroup => groupName_pruned (h group hgroup)
  have hfilter : groups.filter (fun group => (isEmptied ∘ pruned removed) group &&
      decide (groupName group ∉ removed)) = groups.filter (fun group =>
        decide (groupName group ∉ removed) && (groupMembers group).all (· ∈ removed) && !usesProvider group) := by
    refine List.filter_congr fun group hgroup => ?_
    obtain ⟨name, members, uses, hone⟩ := h group hgroup
    have hempty : (members.filter (· ∉ removed)).isEmpty = members.all (· ∈ removed) := by
      rw [Bool.eq_iff_iff]
      simp [List.isEmpty_iff, List.filter_eq_nil_iff]
    rw [Function.comp_apply, hone.pruned.isEmptied, hone.groupMembers, hone.usesProvider, hempty, Bool.not_not]
    rw [Bool.and_comm, Bool.and_assoc]
  rw [hfilter]
  exact List.map_congr_left fun group hgroup => hnames group (List.mem_of_mem_filter hgroup)

/-- The cascade leaves the groups that do not fall. -/
theorem mihomoGroupDelete_kept {turns : Nat} (h : AllRead groups) (hsub : old ⊆ removed)
    (hturns : (Cascade.remaining groupName groups removed).length < turns) :
    mihomoGroupDelete (ε := ε) turns removed (kept old groups) =
      .ok (kept (Cascade.cascade groupName groupMembers usesProvider groups turns removed) groups) := by
  induction turns generalizing removed old with
  | zero => omega
  | succ turns ih =>
      have hturn := turn_eq (ε := ε) h hsub
      rw [mihomoGroupDelete, ← bind_assoc, hturn, ok_bind, emptied_eq h, Cascade.cascade]
      by_cases hempty : Cascade.emptied groupName groupMembers usesProvider groups removed = []
      · rw [if_pos hempty, hempty]
        rfl
      · have hfresh : ¬(Cascade.emptied groupName groupMembers usesProvider groups removed).all (· ∈ removed) = true := by
          obtain ⟨a, ha⟩ := List.exists_mem_of_ne_nil _ hempty
          obtain ⟨group, -, rfl, hnot, -, -⟩ := Cascade.mem_emptied.mp ha
          intro hall
          exact hnot (of_decide_eq_true (List.all_eq_true.mp hall _ ha))
        have hlt := Cascade.remaining_lt hempty
        rw [if_neg hempty, if_neg hfresh]
        exact ih (List.subset_append_left _ _) (by omega)

/-- With a turn for each group, the cascade takes out exactly what falls. -/
theorem mihomoGroupDelete_eq {turns : Nat} {start : List String} (h : AllRead groups) (hturns : groups.length < turns) :
    ∃ removed, mihomoGroupDelete (ε := ε) turns start groups = .ok (kept removed groups) ∧
      ∀ name, name ∈ removed ↔ Cascade.Falls groupName groupMembers usesProvider groups start name := by
  have hself : kept [] groups = groups := by
    rw [kept, List.filter_eq_self.mpr (by simp)]
    calc groups.map (pruned [])
        _ = groups.map id := List.map_congr_left fun group hgroup => by
          obtain ⟨name, members, uses, hread⟩ := h group hgroup
          exact hread.pruned_nil
        _ = groups := List.map_id groups
  have hlength : (Cascade.remaining groupName groups start).length < turns :=
    Nat.lt_of_le_of_lt (List.length_filter_le _ _) hturns
  refine ⟨_, ?_, fun name => Cascade.mem_cascade_iff hturns⟩
  have hkept := mihomoGroupDelete_kept (ε := ε) h (List.nil_subset start) hlength
  rwa [hself] at hkept

end ProxyGateway.Exits
