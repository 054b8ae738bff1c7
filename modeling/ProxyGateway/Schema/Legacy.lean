import ProxyGateway.Schema.Validated

set_option autoImplicit false

/-!
# ProxyGateway.Schema.Legacy

What `_legacy_groups` makes of the two representations of a policy group: the groups of the
metadata in their order, then those that only the outbounds hold. A group that both hold must
agree (`Agrees`).
-/

namespace ProxyGateway.Schema

open Py Json

variable {U : Unicode} {direct : String} {outbounds raws : List Json} {model mihomo : Json}
  {isV2 : Bool}

/-- The groups by name. -/
abbrev GroupDict := Dict String (Dict String Json)

variable {canonical mirrors groups groups' : GroupDict}

/-- Is the outbound a legacy group? -/
def isGroupOutbound (outbound : Json) : Bool :=
  (outbound.getD "type" .null).str?.any (· ∈ groupOutboundTypes)

/-! ### The outbounds -/

theorem getD_of_not_dict {value d : Json} {key : String} (h : isDict value = false) :
    value.getD key d = d := by
  cases value <;> first | rfl | simp [isDict] at h

/-- The test in the loops over the outbounds. -/
theorem groupTest_eq_ok {item : Json} {b : Bool} {ε : Type}
    (h : (if isDict item then (item.getD "type" .null).within (ε := ε) groupOutboundTypes
      else .ok false) = .ok b) :
    b = isGroupOutbound item ∧ (item.getD "type" .null).hashable = true := by
  by_cases hd : isDict item = true
  · rw [if_pos hd] at h
    exact ⟨within_str h, within_hashable h⟩
  · rw [if_neg hd] at h
    cases h
    have hnone : item.getD "type" .null = .null := getD_of_not_dict (by simpa using hd)
    rw [isGroupOutbound, hnone]
    exact ⟨rfl, rfl⟩

/-- The first lines of a turn of the loop over the outbounds. -/
theorem canonicalGroups_eq (item : Json) : canonicalGroups U direct groups item =
    ((if isDict item then (item.getD "type" .null).within groupOutboundTypes else .ok false) >>=
      fun isGroup => if !isGroup then pure groups else do
        let entry ← canonicalGroup U item direct
        raiseIf (groups.contains entry.1) (.text ("duplicate legacy canonical group: " ++ entry.1))
        return groups.set entry.1 entry.2) := by
  unfold canonicalGroups
  cases isDict item <;> rfl

theorem canonicalGroups_turn {item : Json} (h : canonicalGroups U direct groups item = .ok groups') :
    (item.getD "type" .null).hashable = true ∧
      if isGroupOutbound item then
        ∃ entry, canonicalGroup U item direct = .ok entry ∧ entry.1 ∉ groups.keys ∧
          groups' = groups ++ [entry]
      else groups' = groups := by
  rw [canonicalGroups_eq] at h
  obtain ⟨b, hb, h⟩ := bind_eq_ok.mp h
  obtain ⟨rfl, hhash⟩ := groupTest_eq_ok hb
  refine ⟨hhash, ?_⟩
  cases hg : isGroupOutbound item with
  | false =>
      rw [hg] at h
      exact (pure_eq_ok.mp h).symm
  | true =>
      rw [hg] at h
      obtain ⟨entry, hgroup, h⟩ := bind_eq_ok.mp h
      obtain ⟨hnew, h⟩ := raiseIf_bind_eq_ok.mp h
      have hnot : entry.1 ∉ groups.keys := by
        rw [← Dict.get?_isSome_iff]
        simpa [Dict.contains] using hnew
      refine ⟨entry, hgroup, hnot, ?_⟩
      rw [← pure_eq_ok.mp h, Dict.set_of_not_mem hnot]

/-- A new entry at the end. -/
theorem uniq_concat {entry : String × Dict String Json} (hg : groups.Uniq)
    (hfresh : entry.1 ∉ groups.keys) : Dict.Uniq (groups ++ [entry]) := by
  rw [← Dict.set_of_not_mem hfresh]
  exact hg.set entry.1 entry.2

theorem canonicalGroups_cases
    (h : outbounds.foldlM (canonicalGroups U direct) groups = .ok groups') :
    (∀ o ∈ outbounds, (o.getD "type" .null).hashable = true) ∧
      (groups.Uniq → groups'.Uniq) ∧
      ∃ new, groups' = groups ++ new ∧ List.Forall₂
        (fun o entry => canonicalGroup U o direct = .ok entry) (outbounds.filter isGroupOutbound)
        new := by
  induction outbounds generalizing groups with
  | nil =>
      obtain rfl := pure_eq_ok.mp h
      exact ⟨by simp, id, [], by simp, .nil⟩
  | cons o outbounds ih =>
      rw [List.foldlM_cons, bind_eq_ok] at h
      obtain ⟨mid, hmid, h⟩ := h
      obtain ⟨hhash, hmid⟩ := canonicalGroups_turn hmid
      obtain ⟨hrest, huniq, new, hnew, hall⟩ := ih h
      refine ⟨List.forall_mem_cons.mpr ⟨hhash, hrest⟩, ?_⟩
      cases hg : isGroupOutbound o with
      | false =>
          rw [hg, if_neg (by simp)] at hmid
          subst hmid
          exact ⟨huniq, new, hnew, by simpa [hg] using hall⟩
      | true =>
          rw [hg, if_pos rfl] at hmid
          obtain ⟨entry, hentry, hfresh, rfl⟩ := hmid
          refine ⟨fun hg => huniq (uniq_concat hg hfresh), entry :: new, by simpa using hnew, ?_⟩
          rw [List.filter_cons_of_pos hg]
          exact .cons hentry hall

/-! ### The metadata -/

/-- The members of a group of the metadata, with the tag of the direct outbound. -/
def mirrored (direct : String) (fields : Dict String Json) : Dict String Json :=
  match Dict.get? fields "proxies" with
  | some (.arr members) => Dict.set fields "proxies" (.arr (members.map (toDirect direct)))
  | _ => fields

/-- A group of the metadata and its entry. -/
def MirrorOf (U : Unicode) (direct : String) (raw : Json) (entry : String × Dict String Json) :
    Prop :=
  ∃ fields, raw = .obj fields ∧ validateName U (raw.getD "name" .null) "group name" = .ok entry.1 ∧
    entry.2 = mirrored direct fields

theorem mirrorGroups_turn {raw : Json} (h : mirrorGroups U direct groups raw = .ok groups') :
    ∃ entry, MirrorOf U direct raw entry ∧ entry.1 ∉ groups.keys ∧ groups' = groups ++ [entry] := by
  unfold mirrorGroups at h
  cases raw with
  | obj fields =>
      obtain ⟨name, hname, h⟩ := bind_eq_ok.mp h
      obtain ⟨hnew, h⟩ := raiseIf_bind_eq_ok.mp h
      have hnot : name ∉ groups.keys := by
        rw [← Dict.get?_isSome_iff]
        simpa [Dict.contains] using hnew
      refine ⟨(name, mirrored direct fields), ⟨fields, rfl, hname, rfl⟩, hnot, ?_⟩
      rw [← pure_eq_ok.mp h, Dict.set_of_not_mem hnot]
      rfl
  | _ => simp at h

theorem mirrorGroups_cases (h : raws.foldlM (mirrorGroups U direct) groups = .ok groups') :
    (groups.Uniq → groups'.Uniq) ∧
      ∃ new, groups' = groups ++ new ∧ List.Forall₂ (MirrorOf U direct) raws new := by
  induction raws generalizing groups with
  | nil =>
      obtain rfl := pure_eq_ok.mp h
      exact ⟨id, [], by simp, .nil⟩
  | cons raw raws ih =>
      rw [List.foldlM_cons, bind_eq_ok] at h
      obtain ⟨mid, hmid, h⟩ := h
      obtain ⟨entry, hentry, hfresh, rfl⟩ := mirrorGroups_turn hmid
      obtain ⟨huniq, new, hnew, hall⟩ := ih h
      exact ⟨fun hg => huniq (uniq_concat hg hfresh), entry :: new, by simpa using hnew,
        .cons hentry hall⟩

/-! ### Both -/

/-- Two representations of a group say the same. -/
structure Agrees (raw own : Json) : Prop where
  type : raw.get? "type" = own.get? "type"
  whole : representable raw = .ok true
  members : (raw.getD "proxies" (.arr [])).equal (own.getD "proxies" .null) = true
  url : hasType "url-test" own = true →
    (raw.getD "url" (.str defaultTestUrl)).equal (own.getD "url" (.str defaultTestUrl)) = true
  interval : hasType "url-test" own = true →
    (raw.getD "interval" (.int 180)).equal (own.getD "interval" (.int 180)) = true
  tolerance : hasType "url-test" own = true →
    (raw.getD "tolerance" (.int 50)).equal (own.getD "tolerance" (.int 50)) = true

theorem reconcileGroup_turn {entry : String × Dict String Json}
    (h : reconcileGroup isV2 groups entry = .ok groups') :
    match groups.get? entry.1 with
    | some fields => Agrees (.obj fields) (.obj entry.2) ∧ groups' = groups
    | none => isV2 = false ∧ groups' = groups ++ [entry] := by
  obtain ⟨name, mirror⟩ := entry
  unfold reconcileGroup at h
  dsimp only at h ⊢
  cases hget : groups.get? name with
  | none =>
      rw [hget] at h
      obtain ⟨hv2, h⟩ := raiseIf_bind_eq_ok.mp h
      refine ⟨hv2, ?_⟩
      rw [← pure_eq_ok.mp h, Dict.set_of_not_mem (Dict.get?_eq_none_iff.mp hget)]
  | some fields =>
      rw [hget] at h
      obtain ⟨whole, hwhole, h⟩ := bind_eq_ok.mp h
      obtain ⟨htype, h⟩ := raiseIf_bind_eq_ok.mp h
      obtain ⟨hmembers, h⟩ := raiseIf_bind_eq_ok.mp h
      obtain ⟨hprobe, h⟩ := raiseIf_bind_eq_ok.mp h
      simp only [Bool.or_eq_false_iff, decide_eq_false_iff_not, not_not, Bool.not_eq_false',
        Bool.and_eq_false_imp] at htype hmembers hprobe
      obtain ⟨htype, hall⟩ := htype
      rw [hall] at hwhole
      exact ⟨⟨htype, hwhole, hmembers, fun ht => (hprobe ht).1.1, fun ht => (hprobe ht).1.2,
        fun ht => (hprobe ht).2⟩, (pure_eq_ok.mp h).symm⟩

/-- Every group of the outbounds agrees with its mirror, and one without a mirror goes to the
end. -/
theorem reconcileGroup_cases (huniq : canonical.Uniq)
    (h : canonical.foldlM (reconcileGroup isV2) groups = .ok groups') :
    groups' = groups ++ canonical.filter (fun entry => entry.1 ∉ groups.keys) ∧
      (∀ entry ∈ canonical, ∀ fields, groups.get? entry.1 = some fields →
        Agrees (.obj fields) (.obj entry.2)) ∧
      (isV2 = true → ∀ entry ∈ canonical, entry.1 ∈ groups.keys) := by
  induction canonical generalizing groups with
  | nil =>
      obtain rfl := pure_eq_ok.mp h
      simp
  | cons entry canonical ih =>
      rw [List.foldlM_cons, bind_eq_ok] at h
      obtain ⟨mid, hmid, h⟩ := h
      have hturn := reconcileGroup_turn hmid
      rw [Dict.Uniq, Dict.keys_cons, List.nodup_cons] at huniq
      obtain ⟨hnew, hagree, hall⟩ := ih huniq.2 h
      cases hget : groups.get? entry.1 with
      | some fields =>
          rw [hget] at hturn
          obtain ⟨hentry, rfl⟩ := hturn
          have hmem : entry.1 ∈ mid.keys := Dict.mem_keys_of_get? hget
          refine ⟨by simpa [hmem] using hnew, ?_, ?_⟩
          · refine List.forall_mem_cons.mpr ⟨fun fields' hf => ?_, hagree⟩
            rw [hget] at hf
            cases hf
            exact hentry
          · exact fun hv => List.forall_mem_cons.mpr ⟨hmem, hall hv⟩
      | none =>
          rw [hget] at hturn
          obtain ⟨hv2, rfl⟩ := hturn
          have hnot : entry.1 ∉ groups.keys := Dict.get?_eq_none_iff.mp hget
          -- no later group has the name of this one
          have hsame : ∀ e ∈ canonical, entry.1 ≠ e.1 := fun e he heq =>
            huniq.1 (heq ▸ List.mem_map_of_mem he)
          have hkeys : ∀ e ∈ canonical, (e.1 ∈ Dict.keys (groups ++ [entry]) ↔ e.1 ∈ groups.keys) := by
            intro e he
            rw [← Dict.set_of_not_mem hnot, Dict.mem_keys_set]
            exact or_iff_right (Ne.symm (hsame e he))
          refine ⟨?_, ?_, fun hv => by rw [hv2] at hv; cases hv⟩
          · rw [hnew, List.filter_cons_of_pos (by simpa using hnot), List.append_assoc]
            refine congrArg _ (congrArg _ (List.filter_congr fun e he => ?_))
            simp [hkeys e he]
          · refine List.forall_mem_cons.mpr ⟨fun fields hf => ?_, fun e he fields hf => ?_⟩
            · rw [hget] at hf
              cases hf
            · refine hagree e he fields ?_
              rw [← Dict.set_of_not_mem hnot, Dict.get?_set_ne (hsame e he)]
              exact hf

end ProxyGateway.Schema
