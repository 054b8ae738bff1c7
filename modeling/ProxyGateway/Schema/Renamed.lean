import ProxyGateway.Schema.Rewritten

set_option autoImplicit false

/-!
# ProxyGateway.Schema.Renamed

The names and references of a document whose direct tag was replaced before they were normalized:
the loops of `_canonicalize_user_names` return the same parts, renamed, exactly when every reference
to the tag is spelled like the tag (`canonicalize_renamed_iff`).
-/

namespace ProxyGateway.Schema

open Py Json

variable {U : Unicode} {old new key key' : String} {fields route : Dict String Json}
  {groups outbounds : List Json} {m : MihomoMeta}

/-! ### Names and references -/

/-- Two loops that run alike on the elements with a property. -/
theorem mapM_map_iff {ε α β γ δ : Type} {f : α → β} {g : α → Py ε γ} {g' : β → Py ε δ} {k : γ → δ}
    {P : α → Prop} {xs : List α} {ys : List γ} (h : xs.mapM g = .ok ys)
    (hturn : ∀ x ∈ xs, ∀ y, g x = .ok y → (g' (f x) = .ok (k y) ↔ P x)) :
    (xs.map f).mapM g' = .ok (ys.map k) ↔ ∀ x ∈ xs, P x := by
  have hpairs := mapM_forall₂ h
  clear h
  constructor
  · intro hrun
    have hruns := mapM_forall₂ hrun
    clear hrun
    induction hpairs with
    | nil => simp
    | @cons x y xs ys hx _ ih =>
        rw [List.map_cons, List.map_cons, List.forall₂_cons] at hruns
        exact List.forall_mem_cons.mpr ⟨(hturn x (by simp) y hx).mp hruns.1,
          ih (fun z hz => hturn z (List.mem_cons_of_mem x hz)) hruns.2⟩
  · intro hall
    refine mapM_of_forall₂ ?_
    induction hpairs with
    | nil => exact .nil
    | @cons x y xs ys hx _ ih =>
        exact .cons ((hturn x (by simp) y hx).mpr (hall x (by simp)))
          (ih (fun z hz => hturn z (List.mem_cons_of_mem x hz))
            fun z hz => hall z (List.mem_cons_of_mem x hz))

/-- A reference to the tag is spelled like the tag. -/
def Spelled (U : Unicode) (old : String) (value : Json) : Prop :=
  ∀ s, value = .str s → canonicalText U s = old → s = old

/-- Both tags are normal forms, and they differ. -/
structure Retagging (U : Unicode) (old new : String) : Prop where
  oldNormal : NormalText U old
  newNormal : NormalText U new
  ne : new ≠ old

variable {label : String} {x y : Json}

theorem spelled_of_reference {s : String} : Spelled U old (.str s) ↔ (canonicalText U s = old → s = old) :=
  ⟨fun h => h s rfl, fun h t ht => by cases ht; exact h⟩

theorem canonicalText_of_normal {s : String} (h : NormalText U s) : canonicalText U s = s := by
  obtain ⟨t, ht, hname⟩ := normalizeName_canonical (h "")
  cases ht
  exact hname.symm

theorem reference_renamed_iff (hr : Retagging U old new) (h : reference U label x = .ok y) :
    reference U label (renamed old new x) = .ok (renamed old new y) ↔ Spelled U old x := by
  obtain ⟨⟨s, rfl⟩, rfl⟩ := reference_canonical h
  have hnew : reference U label (.str new) = .ok (.str new) := by
    rw [reference, hr.newNormal]
    rfl
  have holdText : canonicalText U old = old := canonicalText_of_normal hr.oldNormal
  rw [spelled_of_reference, canonicalRef]
  by_cases hs : s = old
  · subst hs
    rw [holdText, renamed_self]
    exact iff_of_true hnew fun _ => rfl
  · rw [renamed_of_ne fun heq => hs (Json.str.inj heq), h, canonicalRef]
    constructor
    · intro heq hcanonical
      rw [hcanonical, renamed_self] at heq
      exact absurd (Json.str.inj (Except.ok.inj heq)).symm hr.ne
    · intro hspelled
      rw [renamed_of_ne fun heq => hs (hspelled (Json.str.inj heq))]

/-- A member that rejects is no name. -/
theorem memberOf_renamed_iff (hr : Retagging U old new) (hu : Unreserved old new)
    (hreject : NormalText U "REJECT") (h : memberOf U x = .ok y) :
    memberOf U (renamed old new x) = .ok (renamed old new y) ↔ Spelled U old x := by
  by_cases hx : x = .str "REJECT"
  · subst hx
    have hy : y = .str "REJECT" := by
      rw [memberOf, if_pos rfl] at h
      exact (Except.ok.inj h).symm
    have hkeep : renamed old new (.str "REJECT") = .str "REJECT" := (reject_renamed hu).mpr rfl
    rw [hy] at h
    rw [hy, hkeep]
    refine iff_of_true h (spelled_of_reference.mpr fun hcanonical => ?_)
    rwa [canonicalText_of_normal hreject] at hcanonical
  · rw [memberOf, if_neg hx] at h
    rw [memberOf, if_neg fun heq => hx ((reject_renamed hu).mp heq), reference_renamed_iff hr h]

/-- Writing a field that was renamed. -/
theorem set_renameField {v : Json} :
    Dict.set (renameField old new key fields) key v = Dict.set fields key v := by
  unfold renameField
  split
  · rw [Dict.set_set]
  · rfl

theorem renameField_written {v : Json} :
    renameField old new key (Dict.set fields key v) = Dict.set fields key (renamed old new v) := by
  unfold renameField
  rw [Dict.get?_set_self]
  by_cases hv : v = .str old
  · rw [if_pos (congrArg some hv), Dict.set_set, hv, renamed_self]
  · rw [if_neg fun h => hv (Option.some.inj h), renamed_of_ne hv]

theorem set_inj {v w : Json} : Dict.set fields key v = Dict.set fields key w ↔ v = w := by
  constructor
  · intro h
    have hget := congrArg (fun d => Dict.get? d key) h
    simpa using hget
  · rintro rfl
    rfl

/-- What `referField` does to a field that holds a text, and to any other. -/
theorem referField_cases {fields' : Dict String Json} (h : referField U key label fields = .ok fields') :
    (∃ s y, Dict.get? fields key = some (.str s) ∧ reference U label (.str s) = .ok y ∧
      fields' = Dict.set fields key y) ∨
    (∀ s, Dict.get? fields key ≠ some (.str s)) ∧ fields' = fields := by
  unfold referField at h
  split at h
  · next s hs =>
    obtain ⟨y, hy, h⟩ := bind_eq_ok.mp h
    exact .inl ⟨s, y, hs, hy, (pure_eq_ok.mp h).symm⟩
  · next hother =>
    cases h
    exact .inr ⟨fun s hs => hother s hs, rfl⟩

theorem referField_of_text {s : String} {y : Json} (hget : Dict.get? fields key = some (.str s))
    (h : reference U label (.str s) = .ok y) :
    referField U key label fields = .ok (Dict.set fields key y) := by
  rw [referField, hget]
  simp only [h, ok_bind]
  rfl

theorem referField_of_other (h : ∀ s, Dict.get? fields key ≠ some (.str s)) :
    referField U key label fields = .ok fields := by
  unfold referField
  split
  · next s hs => exact absurd hs (h s)
  · rfl

theorem renamed_text (old new s : String) : ∃ t, renamed old new (.str s) = .str t := by
  by_cases hold : s = old
  · exact ⟨new, by rw [hold, renamed_self]⟩
  · exact ⟨s, renamed_of_ne fun heq => hold (Json.str.inj heq)⟩

/-- A renamed field, normalized, is the normalized field, renamed, if its value is. -/
theorem eq_renameField_of_get {fields' d : Dict String Json} (h : referField U key label fields = .ok fields')
    (hd : referField U key label (renameField old new key fields) = .ok d)
    (hget : Dict.get? d key = Dict.get? (renameField old new key fields') key) :
    d = renameField old new key fields' := by
  rcases referField_cases h with ⟨s, y, hs, hy, rfl⟩ | ⟨hother, rfl⟩
  · obtain ⟨t, ht⟩ := renamed_text old new s
    have hread : Dict.get? (renameField old new key fields) key = some (.str t) := by
      rw [get?_renameField, hs, Option.map_some, ht]
    rcases referField_cases hd with ⟨-, z, -, -, rfl⟩ | ⟨hno, -⟩
    · rw [renameField_written, set_renameField] at hget ⊢
      rw [Dict.get?_set_self, Dict.get?_set_self] at hget
      rw [Option.some.inj hget]
    · exact absurd hread (hno t)
  · have hkeep : renameField old new key fields' = fields' := by rw [renameField, if_neg (hother old)]
    rw [hkeep, h] at hd
    rw [hkeep]
    exact (Except.ok.inj hd).symm

theorem referField_renamed_iff {fields' : Dict String Json} (hr : Retagging U old new)
    (h : referField U key label fields = .ok fields') :
    referField U key label (renameField old new key fields) = .ok (renameField old new key fields') ↔
      Spelled U old ((Json.obj fields).getD key .null) := by
  rcases referField_cases h with ⟨s, y, hs, hy, rfl⟩ | ⟨hother, rfl⟩
  · obtain ⟨t, ht⟩ := renamed_text old new s
    have hread : Dict.get? (renameField old new key fields) key = some (.str t) := by
      rw [get?_renameField, hs, Option.map_some, ht]
    have hiff := reference_renamed_iff hr hy
    rw [ht] at hiff
    rw [getD_obj hs, ← hiff, renameField_written]
    constructor
    · intro hrun
      rcases referField_cases hrun with ⟨t', z, ht', hz, heq⟩ | ⟨hno, -⟩
      · rw [hread] at ht'
        cases ht'
        rw [set_renameField, set_inj] at heq
        rw [hz, heq]
      · exact absurd hread (hno t)
    · intro hz
      rw [referField_of_text hread hz, set_renameField]
  · have hkeep : renameField old new key fields' = fields' := by rw [renameField, if_neg (hother old)]
    rw [hkeep]
    refine iff_of_true h fun s hs _ => ?_
    exact absurd (get?_of_getD hs (by simp)) (hother s)

/-! ### Outbounds, groups and route -/

theorem nameOutbound_retag {o named : Json} (h : nameOutbound U o = .ok named) :
    nameOutbound U (retag new o) = .ok (retag new named) := by
  by_cases hdirect : hasType "direct" o = true
  · have htype : ∀ p : Json, hasType "direct" p = true → nameOutbound U p = .ok p := by
      intro p hp
      cases p with
      | obj fields =>
          have hread : (Json.obj fields).getD "type" .null = .str "direct" :=
            getD_of_get? (of_decide_eq_true hp)
          unfold nameOutbound
          simp only [hread]
          rfl
      | _ => rfl
    rw [htype o hdirect] at h
    cases h
    exact htype _ (by rwa [hasType_retag])
  · have hnamed : hasType "direct" named ≠ true := by
      cases o with
      | obj fields =>
          obtain ⟨isProxy, -, h⟩ := bind_eq_ok.mp h
          split at h
          · rw [← pure_eq_ok.mp h]
            exact hdirect
          · obtain ⟨name, -, h⟩ := bind_eq_ok.mp h
            rw [← pure_eq_ok.mp h, hasType, get?, Dict.get?_set_ne (by simp)]
            exact hdirect
      | _ =>
          rw [← pure_eq_ok.mp h]
          exact hdirect
    rw [retag_of_ne hdirect, retag_of_ne hnamed, h]

/-- A field that is written next to a reference. -/
theorem referField_set {v : Json} (hne : key ≠ key') :
    referField U key label (Dict.set fields key' v) =
      (fun d => Dict.set d key' v) <$> referField U key label fields := by
  unfold referField
  rw [Dict.get?_set_ne (Ne.symm hne)]
  cases hget : Dict.get? fields key with
  | none => rfl
  | some value =>
      cases value with
      | str s =>
          simp only
          cases reference U label (.str s) with
          | error e => rfl
          | ok y => exact congrArg Except.ok (Dict.set_comm hne hget _ _).symm
      | _ => rfl

/-- The second pass reads no tag. -/
theorem referOutbound_retag {o referred : Json} (h : referOutbound U o = .ok referred) :
    referOutbound U (retag new o) = .ok (retag new referred) := by
  cases o with
  | obj fields =>
      obtain ⟨mid, hmid, hrest⟩ := bind_eq_ok.mp h
      have htype : ∀ d, referred = .obj d → Dict.get? d "type" = Dict.get? fields "type" := by
        rintro d rfl
        obtain ⟨fields', hfields', hframe⟩ := referOutbound_cases h
        cases hfields'
        exact hframe "type" (by simp) (by simp)
      by_cases hdirect : hasType "direct" (.obj fields) = true
      · have hmid' : referField U "detour" "outbound detour" (Dict.set fields "tag" (.str new)) =
            .ok (Dict.set mid "tag" (.str new)) := by
          rw [referField_set (by simp), hmid]
          rfl
        have hretag : retag new (.obj fields) = .obj (Dict.set fields "tag" (.str new)) := by
          simp only [retag, hdirect, if_true]
        have hshape : ∀ d, referred = .obj d → retag new (.obj d) = .obj (Dict.set d "tag" (.str new)) := by
          intro d hd
          have hdirect' : hasType "direct" (.obj d) = true := by
            rw [hasType, get?, htype d hd]
            exact hdirect
          simp only [retag, hdirect', if_true]
        rw [hretag, referOutbound]
        simp only [hmid', ok_bind, Dict.get?_set_ne (show "tag" ≠ "outbounds" by simp)]
        split at hrest
        · next members hget =>
          obtain ⟨members', hmembers, hrest⟩ := bind_eq_ok.mp hrest
          have hreferred := (pure_eq_ok.mp hrest).symm
          rw [hreferred, hshape _ hreferred]
          simp only [hmembers, ok_bind]
          exact congrArg (fun d => Except.ok (Json.obj d)) (Dict.set_comm (by simp) hget _ _).symm
        · next hother =>
          have hreferred := (pure_eq_ok.mp hrest).symm
          rw [hreferred, hshape _ hreferred]
          rfl
      · have hreferred : hasType "direct" referred ≠ true := by
          obtain ⟨fields', rfl, -⟩ := referOutbound_cases h
          rw [hasType, get?, htype _ rfl]
          exact hdirect
        rw [retag_of_ne hdirect, retag_of_ne hreferred, h]
  | _ =>
      rw [← pure_eq_ok.mp h]
      rfl

theorem nameGroup_renamed {group named : Json} (h : nameGroup U group = .ok named) :
    nameGroup U (renamedGroup old new group) = .ok (renamedGroup old new named) := by
  cases group with
  | obj fields =>
      obtain ⟨name, hname, h⟩ := bind_eq_ok.mp h
      obtain ⟨s, hs, -⟩ := normalizeName_canonical hname
      have hget : Dict.get? fields "name" = some (.str s) := get?_of_getD hs (by simp)
      have hread : (Json.obj (renamedFields old new fields)).getD "name" .null =
          (Json.obj fields).getD "name" .null := getD_renamedFields_ne (by simp)
      have hmembers : (Json.obj (Dict.set fields "name" (.str name))).getD "proxies" (.arr []) =
          (Json.obj fields).getD "proxies" (.arr []) := getD_congr (Dict.get?_set_ne (by simp) _ _)
      rw [← pure_eq_ok.mp h]
      show nameGroup U (.obj (renamedFields old new fields)) =
        .ok (.obj (renamedFields old new (Dict.set fields "name" (.str name))))
      unfold nameGroup
      simp only [hread, hname, ok_bind]
      refine congrArg (fun d => Except.ok (Json.obj d)) ?_
      rw [renamedFields, renamedFields, hmembers]
      exact (Dict.set_comm (by simp) hget _ _).symm
  | _ =>
      rw [← pure_eq_ok.mp h]
      rfl

theorem membersOf_eq {members : List Json} (h : membersOf (.obj fields) key = .ok members) :
    members = ((Json.obj fields).getD key (.arr [])).entries := by
  have hread : ((Json.obj fields).getD key (.arr [])).entries = ((Json.obj fields).getD key .null).entries := by
    cases hget : Dict.get? fields key with
    | none => simp [getD, get?, hget, Json.entries]
    | some v => rw [getD_obj hget, getD_obj hget]
  rw [hread]
  unfold membersOf at h
  simp only at h
  split at h
  · exact items_eq_ok h
  · next hfalsy =>
    rw [← Except.ok.inj h]
    by_contra hne
    exact hfalsy (truthy_of_entries (Ne.symm hne))

/-- The second pass over a group, on its members as they are spelled. -/
theorem referGroup_renamed_iff {group referred : Json} (hr : Retagging U old new) (hu : Unreserved old new)
    (hreject : NormalText U "REJECT") (h : referGroup U group = .ok referred) :
    referGroup U (renamedGroup old new group) = .ok (renamedGroup old new referred) ↔
      ∀ x ∈ (group.getD "proxies" (.arr [])).entries, Spelled U old x := by
  cases group with
  | obj fields =>
      obtain ⟨members, hmembers, h⟩ := bind_eq_ok.mp h
      obtain ⟨proxies, hproxies, h⟩ := bind_eq_ok.mp h
      obtain ⟨providers, hproviders, h⟩ := bind_eq_ok.mp h
      obtain ⟨uses, huses, h⟩ := bind_eq_ok.mp h
      have hentries := membersOf_eq hmembers
      have hiff := mapM_map_iff (f := renamed old new) (k := renamed old new)
        (show members.mapM (memberOf U) = .ok proxies from hproxies)
        (fun x _ y hy => memberOf_renamed_iff hr hu hreject hy)
      have hread : membersOf (.obj (renamedFields old new fields)) "proxies" =
          .ok (members.map (renamed old new)) := by
        rw [hentries]
        exact membersOf_arr (Dict.get?_set_self _ _ _)
      have huse : membersOf (.obj (renamedFields old new fields)) "use" =
          membersOf (.obj fields) "use" := by
        rw [membersOf, membersOf, getD_renamedFields_ne (by simp)]
      have hright : renamedFields old new (Dict.set (Dict.set fields "proxies" (.arr proxies)) "use"
          (.arr uses)) = Dict.set (Dict.set fields "proxies" (.arr (proxies.map (renamed old new)))) "use"
            (.arr uses) := by
        have hget : Dict.get? (Dict.set (Dict.set fields "proxies" (.arr proxies)) "use" (.arr uses))
            "proxies" = some (.arr proxies) := by
          rw [Dict.get?_set_ne (by simp), Dict.get?_set_self]
        rw [renamedFields, getD_obj hget, Json.entries,
          ← Dict.set_comm (by simp) (Dict.get?_set_self fields "proxies" (.arr proxies)), Dict.set_set]
      rw [← hentries, ← hiff, ← pure_eq_ok.mp h]
      show referGroup U (.obj (renamedFields old new fields)) = .ok (.obj (renamedFields old new _)) ↔ _
      rw [hright]
      unfold referGroup
      simp only [hread, huse, hproviders, huses, ok_bind]
      show ((members.map (renamed old new)).mapM (memberOf U) >>= _) = _ ↔ _
      constructor
      · intro hrun
        obtain ⟨found, hfound, hrun⟩ := bind_eq_ok.mp hrun
        have hsame := congrArg (fun j => j.get? "proxies") (pure_eq_ok.mp hrun)
        simp only [get?, Dict.get?_set_ne (show "use" ≠ "proxies" by simp), Dict.get?_set_self,
          Option.some.injEq, Json.arr.injEq] at hsame
        rw [hfound, hsame]
      · intro hrun
        rw [hrun, ok_bind, renamedFields, Dict.set_set]
        rfl
  | _ =>
      rw [← pure_eq_ok.mp h]
      exact iff_of_true rfl (by simp [getD, get?, Json.entries])

theorem referRule_renamed_iff {rule referred : Json} (hr : Retagging U old new)
    (h : referRule U rule = .ok referred) :
    referRule U (renameRule old new rule) = .ok (renameRule old new referred) ↔
      Spelled U old (rule.getD "outbound" .null) := by
  cases rule with
  | obj fields =>
      obtain ⟨mid, hmid, h⟩ := bind_eq_ok.mp h
      obtain ⟨fields', hfields', h⟩ := bind_eq_ok.mp h
      have hframe : ∀ (d d' : Dict String Json), referField U "rule_set" "rule provider name" d = .ok d' →
          referField U "rule_set" "rule provider name" (renameField old new "outbound" d) =
            .ok (renameField old new "outbound" d') := by
        intro d d' hd
        have hsame : Dict.get? d' "outbound" = Dict.get? d "outbound" := get?_referField hd (by simp)
        unfold renameField
        rw [hsame]
        split
        · rw [referField_set (by simp), hd]
          rfl
        · exact hd
      rw [← referField_renamed_iff hr hmid, ← pure_eq_ok.mp h]
      show (referField U "outbound" "route target" (renameField old new "outbound" fields) >>= _) =
        Except.ok (Json.obj (renameField old new "outbound" fields')) ↔ _
      constructor
      · intro hrun
        obtain ⟨mid', hmid', hrun⟩ := bind_eq_ok.mp hrun
        obtain ⟨final, hfinal, hrun⟩ := bind_eq_ok.mp hrun
        have hsame : final = renameField old new "outbound" fields' := Json.obj.inj (pure_eq_ok.mp hrun)
        rw [hmid']
        refine congrArg Except.ok (eq_renameField_of_get hmid hmid' ?_)
        have hread := get?_referField hfinal (show "rule_set" ≠ "outbound" by simp)
        have hread' := get?_referField hfields' (show "rule_set" ≠ "outbound" by simp)
        rw [← hread, hsame, get?_renameField, get?_renameField, hread']
      · intro hrun
        rw [hrun, ok_bind, hframe _ _ hfields']
        rfl
  | _ =>
      rw [← pure_eq_ok.mp h]
      exact iff_of_true rfl fun s hs => by cases hs

/-- A field that is written next to a list that is rebuilt. -/
theorem referList_set {f : Json → Py ModelError Json} {v : Json} (hne : key ≠ key') :
    referList key f (Dict.set fields key' v) = (fun d => Dict.set d key' v) <$> referList key f fields := by
  unfold referList
  rw [Dict.get?_set_ne (Ne.symm hne)]
  cases hget : Dict.get? fields key with
  | none => rfl
  | some value =>
      cases value with
      | arr items =>
          simp only [Option.getD_some]
          cases items.mapM f with
          | error e => rfl
          | ok items' => exact congrArg Except.ok (Dict.set_comm hne hget _ _).symm
      | _ =>
          simp only [Option.getD_some]
          split <;> rfl

theorem referList_renameField {f : Json → Py ModelError Json} {fields' : Dict String Json} (hne : key ≠ key')
    (h : referList key f fields = .ok fields') :
    referList key f (renameField old new key' fields) = .ok (renameField old new key' fields') := by
  have hsame : Dict.get? fields' key' = Dict.get? fields key' := get?_referList h hne
  unfold renameField
  rw [hsame]
  split
  · rw [referList_set hne, h]
    rfl
  · exact h

/-- The route with its rules apart. -/
theorem referRoute_set {rules : List Json} : referRoute U (Dict.set route "rules" (.arr rules)) = (do
    let d ← referField U "final" "route target" route
    let rules' ← rules.mapM (referRule U)
    let d ← referList "rule_set" (referRuleSet U) d
    return Dict.set d "rules" (.arr rules')) := by
  have hfield : referField U "final" "route target" (Dict.set route "rules" (.arr rules)) =
      (fun d => Dict.set d "rules" (.arr rules)) <$> referField U "final" "route target" route :=
    referField_set (by simp)
  unfold referRoute
  rw [hfield]
  cases referField U "final" "route target" route with
  | error e => rfl
  | ok d =>
      show (referList "rules" (referRule U) (Dict.set d "rules" (.arr rules)) >>= _) = _
      rw [referList, Dict.get?_set_self]
      simp only [Option.getD_some, ok_bind]
      cases rules.mapM (referRule U) with
      | error e => rfl
      | ok rules' =>
          simp only [ok_bind, Dict.set_set, pure_bind, referList_set (show "rule_set" ≠ "rules" by simp)]
          cases referList "rule_set" (referRuleSet U) d <;> rfl

theorem referRoute_of_none (h : Dict.get? route "rules" = none) : referRoute U route = (do
    let d ← referField U "final" "route target" route
    referList "rule_set" (referRuleSet U) d) := by
  unfold referRoute
  cases hd : referField U "final" "route target" route with
  | error e => rfl
  | ok d =>
      have hnone : Dict.get? d "rules" = none := by rw [get?_referField hd (by simp), h]
      simp only [ok_bind]
      rw [referList, hnone]
      rfl

/-- The references of a route, on the targets as they are spelled. -/
theorem referRoute_renamed_iff {route' : Dict String Json} {rules : List Json} (hr : Retagging U old new)
    (hrules : (Json.obj route).getD "rules" (.arr []) = .arr rules)
    (h : referRoute U route = .ok route') :
    referRoute U (renamedRoute old new route) = .ok (renamedRoute old new route') ↔
      Spelled U old ((Json.obj route).getD "final" .null) ∧
        ∀ rule ∈ rules, Spelled U old (rule.getD "outbound" .null) := by
  -- the field with the final target, before and after the loop over the rule sets
  have hfinal : ∀ {mid d r r' : Dict String Json},
      referField U "final" "route target" route = .ok mid →
      referField U "final" "route target" (renameField old new "final" route) = .ok d →
      referList "rule_set" (referRuleSet U) mid = .ok r' → referList "rule_set" (referRuleSet U) d = .ok r →
      Dict.get? r "final" = Dict.get? (renameField old new "final" r') "final" →
      d = renameField old new "final" mid := by
    intro mid d r r' hmid hd hr' hrun hget
    refine eq_renameField_of_get hmid hd ?_
    rw [← get?_referList hrun (by simp), hget, get?_renameField, get?_renameField,
      get?_referList hr' (by simp)]
  cases hget : Dict.get? route "rules" with
  | none =>
      have hempty : rules = [] := by simpa [getD, get?, hget] using hrules.symm
      have hshape : renamedRoute old new route = renameField old new "final" route := by
        simp only [renamedRoute, hget]
      have hget' : Dict.get? (renameField old new "final" route) "rules" = none := by
        rw [get?_renameField_ne (by simp), hget]
      rw [referRoute_of_none hget] at h
      obtain ⟨mid, hmid, h⟩ := bind_eq_ok.mp h
      have hnone : Dict.get? route' "rules" = none := by
        rw [get?_referList h (by simp), get?_referField hmid (by simp), hget]
      have hshape' : renamedRoute old new route' = renameField old new "final" route' := by
        simp only [renamedRoute, hnone]
      rw [hempty, hshape, hshape', referRoute_of_none hget', ← referField_renamed_iff hr hmid]
      constructor
      · intro hrun
        obtain ⟨d, hd, hrun⟩ := bind_eq_ok.mp hrun
        refine ⟨?_, by simp⟩
        rw [hd, hfinal hmid hd h hrun rfl]
      · rintro ⟨hrun, -⟩
        rw [hrun, ok_bind]
        exact referList_renameField (by simp) h
  | some value =>
      have hvalue : value = .arr rules := by
        rw [getD_obj hget] at hrules
        exact hrules
      rw [hvalue] at hget
      have hshape : renamedRoute old new route =
          Dict.set (renameField old new "final" route) "rules" (.arr (rules.map (renameRule old new))) := by
        simp only [renamedRoute, hget]
      have hroute : referRoute U route = referRoute U (Dict.set route "rules" (.arr rules)) := by
        rw [Dict.set_of_get? hget]
      rw [hroute, referRoute_set] at h
      obtain ⟨mid, hmid, h⟩ := bind_eq_ok.mp h
      obtain ⟨rules', hrules', h⟩ := bind_eq_ok.mp h
      obtain ⟨r', hr', h⟩ := bind_eq_ok.mp h
      have hroute' : route' = Dict.set r' "rules" (.arr rules') := (pure_eq_ok.mp h).symm
      have hshape' : renamedRoute old new route' = Dict.set (renameField old new "final" r') "rules"
          (.arr (rules'.map (renameRule old new))) := by
        have hwritten : Dict.get? route' "rules" = some (.arr rules') := by
          rw [hroute', Dict.get?_set_self]
        have hturn : ∀ v, renameField old new "final" (Dict.set r' "rules" v) =
            Dict.set (renameField old new "final" r') "rules" v := by
          intro v
          unfold renameField
          rw [Dict.get?_set_ne (by simp)]
          split
          · next hold => exact (Dict.set_comm (by simp) hold _ _).symm
          · rfl
        simp only [renamedRoute, hwritten]
        rw [hroute', hturn, Dict.set_set]
      have hiff := mapM_map_iff (f := renameRule old new) (k := renameRule old new) hrules'
        (fun rule _ referred hrule => referRule_renamed_iff hr hrule)
      rw [hshape, hshape', referRoute_set, ← referField_renamed_iff hr hmid, ← hiff]
      constructor
      · intro hrun
        obtain ⟨d, hd, hrun⟩ := bind_eq_ok.mp hrun
        obtain ⟨found, hfound, hrun⟩ := bind_eq_ok.mp hrun
        obtain ⟨r, hrSet, hrun⟩ := bind_eq_ok.mp hrun
        have hsame := pure_eq_ok.mp hrun
        have hgetRules := congrArg (fun e => Dict.get? e "rules") hsame
        have hgetFinal := congrArg (fun e => Dict.get? e "final") hsame
        simp only [Dict.get?_set_self, Option.some.injEq, Json.arr.injEq] at hgetRules
        simp only [Dict.get?_set_ne (show "rules" ≠ "final" by simp)] at hgetFinal
        exact ⟨by rw [hd, hfinal hmid hd hr' hrSet hgetFinal], by rw [hfound, hgetRules]⟩
      · rintro ⟨hrun, hfound⟩
        rw [hrun, ok_bind, hfound, ok_bind, referList_renameField (by simp) hr']
        rfl

theorem mapM_map_of_turn {ε α β γ δ : Type} {f : α → β} {g : α → Py ε γ} {g' : β → Py ε δ} {k : γ → δ}
    {xs : List α} {ys : List γ} (h : xs.mapM g = .ok ys)
    (hturn : ∀ x ∈ xs, ∀ y, g x = .ok y → g' (f x) = .ok (k y)) :
    (xs.map f).mapM g' = .ok (ys.map k) :=
  (mapM_map_iff (P := fun _ => True) h fun x hx y hy => iff_true_intro (hturn x hx y hy)).mpr
    fun _ _ => trivial

/-- Naming a group leaves its members. -/
theorem forall_members_named {P : Json → Prop} {named : List Json}
    (h : List.Forall₂ (fun g g' => nameGroup U g = .ok g') groups named) :
    (∀ g ∈ named, ∀ x ∈ (g.getD "proxies" (.arr [])).entries, P x) ↔
      ∀ g ∈ groups, ∀ x ∈ (g.getD "proxies" (.arr [])).entries, P x := by
  have hsame : ∀ g g', nameGroup U g = .ok g' → g'.getD "proxies" (.arr []) = g.getD "proxies" (.arr []) := by
    intro g g' hname
    cases g with
    | obj fields =>
        obtain ⟨name, -, hname⟩ := bind_eq_ok.mp hname
        rw [← pure_eq_ok.mp hname]
        exact getD_congr (Dict.get?_set_ne (by simp) _ _)
    | _ => rw [← pure_eq_ok.mp hname]
  induction h with
  | nil => simp
  | cons hg _ ih =>
      rw [List.forall_mem_cons, List.forall_mem_cons, hsame _ _ hg]
      exact and_congr_right fun _ => ih

/-- The names and references of a rewritten document, on the references as they are spelled. -/
theorem canonicalize_renamed_iff {outbounds' groups' rules : List Json} {m' : MihomoMeta}
    {route' : Dict String Json} (hr : Retagging U old new) (hu : Unreserved old new)
    (hreject : NormalText U "REJECT") (hrules : (Json.obj route).getD "rules" (.arr []) = .arr rules)
    (h : canonicalizeUserNames U outbounds groups m route = .ok (outbounds', groups', m', route')) :
    canonicalizeUserNames U (outbounds.map (retag new)) (groups.map (renamedGroup old new)) m
        (renamedRoute old new route) = .ok (outbounds'.map (retag new),
          groups'.map (renamedGroup old new), m', renamedRoute old new route') ↔
      (∀ g ∈ groups, ∀ x ∈ (g.getD "proxies" (.arr [])).entries, Spelled U old x) ∧
        Spelled U old ((Json.obj route).getD "final" .null) ∧
          ∀ rule ∈ rules, Spelled U old (rule.getD "outbound" .null) := by
  obtain ⟨outs, houts, h⟩ := bind_eq_ok.mp h
  obtain ⟨gs, hgs, h⟩ := bind_eq_ok.mp h
  obtain ⟨proxies, hproxies, h⟩ := bind_eq_ok.mp h
  obtain ⟨providers, hproviders, h⟩ := bind_eq_ok.mp h
  obtain ⟨outs', houts', h⟩ := bind_eq_ok.mp h
  obtain ⟨gs', hgs', h⟩ := bind_eq_ok.mp h
  obtain ⟨final, hfinal, h⟩ := bind_eq_ok.mp h
  cases pure_eq_ok.mp h
  have hnamed : (outbounds.map (retag new)).mapM (nameOutbound U) = .ok (outs.map (retag new)) :=
    mapM_map_of_turn houts fun o _ y hy => nameOutbound_retag hy
  have hnamedGroups : (groups.map (renamedGroup old new)).mapM (nameGroup U) =
      .ok (gs.map (renamedGroup old new)) :=
    mapM_map_of_turn hgs fun g _ y hy => nameGroup_renamed hy
  have hreferred : (outs.map (retag new)).mapM (referOutbound U) = .ok (outbounds'.map (retag new)) :=
    mapM_map_of_turn houts' fun o _ y hy => referOutbound_retag hy
  have hgroups := mapM_map_iff (f := renamedGroup old new) (k := renamedGroup old new) hgs'
    (fun g _ y hy => referGroup_renamed_iff hr hu hreject hy)
  have hroute := referRoute_renamed_iff hr hrules hfinal
  have hmembers : (∀ g ∈ gs, ∀ x ∈ (g.getD "proxies" (.arr [])).entries, Spelled U old x) ↔
      ∀ g ∈ groups, ∀ x ∈ (g.getD "proxies" (.arr [])).entries, Spelled U old x :=
    forall_members_named (mapM_forall₂ hgs)
  rw [← hmembers, ← hgroups, ← hroute]
  unfold canonicalizeUserNames
  simp only [hnamed, hnamedGroups, hproxies, hproviders, hreferred, ok_bind]
  constructor
  · intro hrun
    obtain ⟨found, hfound, hrun⟩ := bind_eq_ok.mp hrun
    obtain ⟨route'', hroute'', hrun⟩ := bind_eq_ok.mp hrun
    have hsame := pure_eq_ok.mp hrun
    simp only [Prod.mk.injEq, true_and] at hsame
    exact ⟨by rw [hfound, hsame.1], by rw [hroute'', hsame.2]⟩
  · rintro ⟨hfound, hroute''⟩
    rw [hfound, hroute'']
    rfl

end ProxyGateway.Schema
