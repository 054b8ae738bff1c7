import Mathlib.Data.List.Find
import ProxyGateway.Route.Decision

set_option autoImplicit false

/-!
# ProxyGateway.Route.Merged

What `_merge_domain_rules` does to first matches: the first rule that decides a host is the first one
kept that catches it or stands in front of another domain rule for its exit that lists it
(`find_mergeDomainRules`). Domains stay with their exit, other matchers only with the rules that are
kept (`holds_merged`).
-/

namespace ProxyGateway.Route

open Rule

section Merging

variable (M : Matching) (host : String)

/-- The rules that `_merge_domain_rules` keeps: a domain rule goes into an earlier one for its exit. -/
def keptRules : List Json → List Rule → List Rule
  | _, [] => []
  | seen, r :: rules =>
      if mergeable r && decide (r.outbound ∈ seen) then keptRules seen rules
      else r :: keptRules (if mergeable r then r.outbound :: seen else seen) rules

/-- Does the rule stand in front of a domain rule for its exit that lists the host? -/
def standsFor (later : List Rule) (r : Rule) : Bool :=
  r.active && mergeable r &&
    later.any (fun r' => mergeable r' && decide (r'.outbound = r.outbound) && lists M host r')

/-- The first of the rules that are kept that catches the host or stands for a later one. -/
def firstMerged : List Json → List Rule → Option Rule
  | _, [] => none
  | seen, r :: rules =>
      if mergeable r && decide (r.outbound ∈ seen) then firstMerged seen rules
      else if catches M host r || standsFor M host rules r then some r
      else firstMerged (if mergeable r then r.outbound :: seen else seen) rules

end Merging

/-- A rule without ruleset for the exit has the entry under the key. -/
def Holds (rules : List Rule) (o : Json) (key : String) (v : Json) : Prop :=
  ∃ r ∈ rules, (r.field "rule_set").truthy = false ∧ r.outbound = o ∧ v ∈ (r.field key).entries

variable {M : Matching} {host key : String} {r base base' : Rule} {rules rules' out : List Rule} {o v : Json}
  {seen : List Json}

/-! ### One rule into another -/

theorem absorbKey_truthy (h : absorbKey r base key = .ok base') (hb : (base.field key).truthy = true) :
    (base'.field key).truthy = true := by
  unfold absorbKey at h
  split at h
  · split at h
    · next held hheld =>
      obtain ⟨ds, -, h⟩ := Py.bind_eq_ok.mp h
      rw [← Py.pure_eq_ok.mp h, field_set_self]
      have hfield : base.field key = .arr held := by
        rw [field] at hb ⊢
        rw [listed] at hheld
        cases hget : Dict.get? base key with
        | none => simp [hget, Json.truthy] at hb
        | some w => rwa [hget] at hheld
      rw [hfield] at hb
      cases held with
      | nil => simp [Json.truthy] at hb
      | cons x xs => simp [Json.truthy]
    · cases h
  · rwa [← Py.pure_eq_ok.mp h]

theorem absorb_entries (h : absorb r base = .ok base') (hkey : IsDomainKey key) :
    v ∈ (base'.field key).entries ↔ v ∈ (base.field key).entries ∨ v ∈ (r.field key).entries := by
  obtain ⟨b, hb, h⟩ := Py.bind_eq_ok.mp h
  simp only [← entries_listed]
  rcases hkey with rfl | rfl
  · have hsame : base'.field "domain_suffix" = b.field "domain_suffix" := (absorbKey_frame h (by decide)).1
    rw [entries_listed base', hsame, ← entries_listed b]
    exact absorbKey_mem hb
  · have hsame : b.field "domain" = base.field "domain" := (absorbKey_frame hb (by decide)).1
    rw [absorbKey_mem h, entries_listed b, hsame, ← entries_listed base]

theorem absorb_contains (h : absorb r base = .ok base') {k : String} (hk : ¬ IsDomainKey k) :
    base'.contains k = base.contains k := by
  have hne : "domain_suffix" ≠ k ∧ "domain" ≠ k := ⟨fun he => hk (.inl he.symm), fun he => hk (.inr he.symm)⟩
  obtain ⟨b, hb, h⟩ := Py.bind_eq_ok.mp h
  exact (absorbKey_frame h hne.2).2.trans (absorbKey_frame hb hne.1).2

theorem absorb_outbound (h : absorb r base = .ok base') : base'.outbound = base.outbound :=
  absorb_field h (by simp [IsDomainKey])

theorem absorb_hasDomains (h : absorb r base = .ok base') (hb : base.hasDomains = true) : base'.hasDomains = true := by
  obtain ⟨b, hb', h⟩ := Py.bind_eq_ok.mp h
  have hsuffix : base'.field "domain_suffix" = b.field "domain_suffix" := (absorbKey_frame h (by decide)).1
  have hdomain : b.field "domain" = base.field "domain" := (absorbKey_frame hb' (by decide)).1
  rw [hasDomains, Bool.or_eq_true] at hb ⊢
  rcases hb with hb | hb
  · exact .inl (hsuffix ▸ absorbKey_truthy hb' hb)
  · exact .inr (absorbKey_truthy h (hdomain ▸ hb))

theorem absorb_mergeable (h : absorb r base = .ok base') (hb : mergeable base = true) : mergeable base' = true := by
  simp only [mergeable, Bool.and_eq_true] at hb ⊢
  rw [absorb_outbound h, absorb_contains h (by simp [IsDomainKey])]
  exact ⟨hb.1, absorb_hasDomains h hb.2⟩

theorem absorb_active (h : absorb r base = .ok base') : base'.active = base.active := by
  rw [active, active, absorb_outbound h, absorb_field h (by simp [IsDomainKey])]

theorem absorb_lists (h : absorb r base = .ok base') : lists M host base' = (lists M host base || lists M host r) := by
  rw [Bool.eq_iff_iff]
  simp only [lists, Bool.or_eq_true, List.any_eq_true, absorb_entries h (.inl rfl), absorb_entries h (.inr rfl)]
  constructor
  · rintro (⟨v, hv | hv, hits⟩ | ⟨v, hv | hv, hits⟩)
    · exact .inl (.inl ⟨v, hv, hits⟩)
    · exact .inr (.inl ⟨v, hv, hits⟩)
    · exact .inl (.inr ⟨v, hv, hits⟩)
    · exact .inr (.inr ⟨v, hv, hits⟩)
  · rintro ((⟨v, hv, hits⟩ | ⟨v, hv, hits⟩) | (⟨v, hv, hits⟩ | ⟨v, hv, hits⟩))
    · exact .inl ⟨v, .inl hv, hits⟩
    · exact .inr ⟨v, .inl hv, hits⟩
    · exact .inl ⟨v, .inr hv, hits⟩
    · exact .inr ⟨v, .inr hv, hits⟩

/-- A domain rule has no ruleset. -/
theorem noRuleSet_of_mergeable (h : mergeable r = true) : (r.field "rule_set").truthy = false := by
  simp only [mergeable, Bool.and_eq_true, Bool.not_eq_true'] at h
  have hnone : Dict.get? r "rule_set" = none := by
    have habsent := h.1.2
    rw [Dict.contains] at habsent
    simpa using habsent
  rw [field, hnone]
  rfl

theorem catches_of_mergeable (h : mergeable r = true) : catches M host r =
    (r.active && (lists M host r || (r.field "domain_keyword").entries.any (hitsKeyword M host))) := by
  rw [catches, noRuleSet_of_mergeable h]
  rfl

/-- The rule that took another one over decides for both. -/
theorem catches_absorbed (h : absorb r base = .ok base') (hb : mergeable base = true) (hr : mergeable r = true)
    (hsame : base.outbound = r.outbound) :
    (catches M host base' || standsFor M host rules base') = (catches M host base || standsFor M host (r :: rules) base) := by
  have hkeyword : base'.field "domain_keyword" = base.field "domain_keyword" := absorb_field h (by simp [IsDomainKey])
  rw [catches_of_mergeable (absorb_mergeable h hb), catches_of_mergeable hb, absorb_active h, absorb_lists h, hkeyword,
    standsFor, standsFor, absorb_active h, absorb_mergeable h hb, hb, absorb_outbound h, List.any_cons, hr, hsame]
  cases base.active <;> cases lists M host base <;> cases lists M host r <;>
    cases (base.field "domain_keyword").entries.any (hitsKeyword M host) <;> simp

/-! ### The loop -/

theorem absorbInto_none (h : absorbInto r out = .ok none) :
    ∀ b ∈ out, mergeable b = true → b.outbound ≠ r.outbound := by
  induction out with
  | nil => simp
  | cons b out ih =>
      unfold absorbInto at h
      split at h
      · obtain ⟨b', -, h⟩ := Py.bind_eq_ok.mp h
        cases h
      · next hb =>
        obtain ⟨o, ho, h⟩ := Py.bind_eq_ok.mp h
        have hnone : o = none := by simpa using Py.pure_eq_ok.mp h
        refine List.forall_mem_cons.mpr ⟨fun hm hsame => hb (by simp [hm, hsame]), ih (hnone ▸ ho)⟩

/-- One turn: the rule is kept, as no earlier domain rule is for its exit, or the earlier one takes it
over. -/
theorem mergeDomainRules_turn (h : mergeDomainRules out (r :: rules) = .ok rules') :
    (mergeDomainRules (out ++ [r]) rules = .ok rules' ∧
        (mergeable r = true → ∀ b ∈ out, mergeable b = true → b.outbound ≠ r.outbound)) ∨
      ∃ xs base ys base', out = xs ++ base :: ys ∧ mergeable r = true ∧ mergeable base = true ∧
        base.outbound = r.outbound ∧ absorb r base = .ok base' ∧
        mergeDomainRules (xs ++ base' :: ys) rules = .ok rules' := by
  unfold mergeDomainRules at h
  split at h
  · next hm =>
    split at h
    · cases h
    · obtain ⟨o, ho, h⟩ := Py.bind_eq_ok.mp h
      rcases absorbInto_cases ho with rfl | ⟨xs, base, ys, base', rfl, hb, he, hb', rfl⟩
      · exact .inl ⟨h, fun _ => absorbInto_none ho⟩
      · exact .inr ⟨xs, base, ys, base', rfl, hm, hb, he, hb', h⟩
  · next hm => exact .inl ⟨h, fun hm' => absurd hm' hm⟩

/-- The exits of the domain rules so far. -/
def mergedExits (out : List Rule) : List Json := (out.filter mergeable).map Rule.outbound

theorem mem_mergedExits : o ∈ mergedExits out ↔ ∃ b ∈ out, mergeable b = true ∧ b.outbound = o := by
  simp [mergedExits, and_assoc]

theorem mergedExits_absorbed {xs ys : List Rule} (h : absorb r base = .ok base') (hb : mergeable base = true) :
    mergedExits (xs ++ base' :: ys) = mergedExits (xs ++ base :: ys) := by
  simp [mergedExits, List.filter_append, hb, absorb_mergeable h hb, absorb_outbound h]

/-- The exits so far, when a rule is kept. -/
theorem mem_seen_kept (hseen : ∀ o, o ∈ seen ↔ o ∈ mergedExits out) :
    o ∈ (if mergeable r then r.outbound :: seen else seen) ↔ o ∈ mergedExits (out ++ [r]) := by
  rw [mergedExits, List.filter_append, List.map_append, List.mem_append, ← mergedExits, ← hseen]
  cases hm : mergeable r <;> simp [hm, or_comm]

theorem not_absorbed (hseen : ∀ o, o ∈ seen ↔ o ∈ mergedExits out)
    (hfresh : mergeable r = true → ∀ b ∈ out, mergeable b = true → b.outbound ≠ r.outbound) :
    ¬(mergeable r && decide (r.outbound ∈ seen)) = true := by
  rw [Bool.and_eq_true, decide_eq_true_eq, hseen, mem_mergedExits]
  rintro ⟨hm, b, hmem, hmb, he⟩
  exact hfresh hm b hmem hmb he

theorem absorbed_of_mem (hseen : ∀ o, o ∈ seen ↔ o ∈ mergedExits out) (hmem : base ∈ out) (hr : mergeable r = true)
    (hb : mergeable base = true) (hsame : base.outbound = r.outbound) :
    (mergeable r && decide (r.outbound ∈ seen)) = true := by
  rw [Bool.and_eq_true, decide_eq_true_eq, hseen, mem_mergedExits]
  exact ⟨hr, base, hmem, hb, hsame⟩

/-- A rule for another exit changes nothing for a rule kept before. -/
theorem standsFor_cons_of_ne (h : mergeable r = true → mergeable base = true → base.outbound ≠ r.outbound) :
    standsFor M host (r :: rules) base = standsFor M host rules base := by
  rw [standsFor, standsFor, List.any_cons]
  cases hb : mergeable base with
  | false => simp
  | true =>
      cases hr : mergeable r with
      | false => simp
      | true =>
          have hne : r.outbound ≠ base.outbound := fun he => h hr hb he.symm
          simp [hne]

/-- The exits so far are apart, and so are those of the other rules kept. -/
theorem ne_of_nodup {xs ys : List Rule} (hnodup : (mergedExits (xs ++ base :: ys)).Nodup) (hb : mergeable base = true)
    {b : Rule} (hmem : b ∈ xs ∨ b ∈ ys) (hm : mergeable b = true) : b.outbound ≠ base.outbound := by
  simp only [mergedExits, List.filter_append, List.filter_cons, hb, if_true, List.map_append, List.map_cons] at hnodup
  rw [List.nodup_middle, List.nodup_cons, List.mem_append] at hnodup
  intro he
  refine hnodup.1 ?_
  rw [← he]
  exact hmem.imp (fun h => List.mem_map_of_mem (List.mem_filter.mpr ⟨h, hm⟩))
    fun h => List.mem_map_of_mem (List.mem_filter.mpr ⟨h, hm⟩)

/-- What decides after the merge: a rule kept so far that catches the host or stands for a later one,
else the first such rule of the rest. -/
theorem find_mergeDomainRules (h : mergeDomainRules out rules = .ok rules') (hnodup : (mergedExits out).Nodup)
    (hseen : ∀ o, o ∈ seen ↔ o ∈ mergedExits out) :
    (rules'.find? (catches M host)).map Rule.outbound =
      ((out.find? (fun b => catches M host b || standsFor M host rules b)).or (firstMerged M host seen rules)).map
        Rule.outbound := by
  -- on the rules still to be merged; one of `out` also answers for the later rules it will absorb
  induction rules generalizing out seen with
  | nil =>
      rw [← Py.pure_eq_ok.mp h]
      simp [firstMerged, standsFor]
  | cons r rules ih =>
      rcases mergeDomainRules_turn h with ⟨h, hfresh⟩ | ⟨xs, base, ys, base', rfl, hr, hb, hsame, hab, h⟩
      · have hkept := not_absorbed hseen hfresh
        have hnodup' : (mergedExits (out ++ [r])).Nodup := by
          cases hm : mergeable r with
          | false => simpa [mergedExits, List.filter_append, hm] using hnodup
          | true =>
              have hsplit : mergedExits (out ++ [r]) = mergedExits out ++ [r.outbound] := by
                simp [mergedExits, List.filter_append, hm]
              rw [hsplit]
              refine List.nodup_append.mpr ⟨hnodup, List.nodup_singleton _, fun a ha b hbm hab => ?_⟩
              obtain ⟨c, hc, hmc, rfl⟩ := mem_mergedExits.mp ha
              exact hfresh hm c hc hmc (hab.trans (List.mem_singleton.mp hbm))
        have hout : out.find? (fun b => catches M host b || standsFor M host (r :: rules) b) =
            out.find? (fun b => catches M host b || standsFor M host rules b) := by
          refine List.find?_congr fun b hmem => ?_
          rw [standsFor_cons_of_ne fun hm hmb => hfresh hm b hmem hmb]
        rw [ih h hnodup' fun o => mem_seen_kept hseen, hout, firstMerged, if_neg hkept, List.find?_append]
        cases out.find? (fun b => catches M host b || standsFor M host rules b) with
        | some b => rfl
        | none =>
            cases hq : catches M host r || standsFor M host rules r <;> simp [hq]
      · have habsorbed := absorbed_of_mem hseen (List.mem_append_right xs List.mem_cons_self) hr hb hsame
        have hexits : mergedExits (xs ++ base' :: ys) = mergedExits (xs ++ base :: ys) := mergedExits_absorbed hab hb
        have hothers : ∀ zs : List Rule, (∀ b ∈ zs, b ∈ xs ∨ b ∈ ys) →
            zs.find? (fun b => catches M host b || standsFor M host (r :: rules) b) =
              zs.find? (fun b => catches M host b || standsFor M host rules b) := by
          intro zs hzs
          refine List.find?_congr fun b hmem => ?_
          rw [standsFor_cons_of_ne fun _ hmb => hsame ▸ ne_of_nodup hnodup hb (hzs b hmem) hmb]
        rw [ih h (hexits ▸ hnodup) (hexits ▸ hseen), firstMerged, if_pos habsorbed, List.find?_append, List.find?_append,
          hothers xs fun _ => .inl, List.find?_cons, List.find?_cons, hothers ys fun _ => .inr,
          catches_absorbed hab hb hr hsame]
        cases xs.find? (fun b => catches M host b || standsFor M host rules b) with
        | some b => rfl
        | none =>
            cases catches M host base || standsFor M host (r :: rules) base with
            | true => simp [absorb_outbound hab]
            | false => rfl

/-! ### Where the entries stay -/

theorem holds_append {xs ys : List Rule} : Holds (xs ++ ys) o key v ↔ Holds xs o key v ∨ Holds ys o key v := by
  simp [Holds, or_and_right, exists_or]

theorem holds_cons : Holds (r :: rules) o key v ↔
    ((r.field "rule_set").truthy = false ∧ r.outbound = o ∧ v ∈ (r.field key).entries) ∨ Holds rules o key v := by
  simp [Holds]

theorem holds_absorbed {xs ys : List Rule} (h : absorb r base = .ok base') (hk : ¬ IsDomainKey key) :
    Holds (xs ++ base' :: ys) o key v ↔ Holds (xs ++ base :: ys) o key v := by
  rw [holds_append, holds_append, holds_cons, holds_cons, absorb_outbound h, absorb_field h hk,
    absorb_field h (by simp [IsDomainKey])]

/-- Domains stay with rules for their exit. -/
theorem holds_domains (h : mergeDomainRules out rules = .ok rules') (hk : IsDomainKey key) :
    Holds rules' o key v ↔ Holds (out ++ rules) o key v := by
  induction rules generalizing out with
  | nil => rw [← Py.pure_eq_ok.mp h, List.append_nil]
  | cons r rules ih =>
      rcases mergeDomainRules_turn h with ⟨h, -⟩ | ⟨xs, base, ys, base', rfl, hr, hb, hsame, hab, h⟩
      · rw [ih h, ← List.append_cons]
      · have hset : (base'.field "rule_set").truthy = false := by
          rw [absorb_field hab (by simp [IsDomainKey]), noRuleSet_of_mergeable hb]
        rw [ih h]
        simp only [holds_append, holds_cons, absorb_outbound hab, absorb_entries hab hk, hset,
          noRuleSet_of_mergeable hb, noRuleSet_of_mergeable hr, hsame, true_and]
        tauto

/-- Other entries stay only in the rules that are kept. -/
theorem holds_merged (h : mergeDomainRules out rules = .ok rules') (hseen : ∀ o, o ∈ seen ↔ o ∈ mergedExits out)
    (hk : ¬ IsDomainKey key) : Holds rules' o key v ↔ Holds (out ++ keptRules seen rules) o key v := by
  induction rules generalizing out seen with
  | nil => rw [← Py.pure_eq_ok.mp h, keptRules, List.append_nil]
  | cons r rules ih =>
      rcases mergeDomainRules_turn h with ⟨h, hfresh⟩ | ⟨xs, base, ys, base', rfl, hr, hb, hsame, hab, h⟩
      · have hkept := not_absorbed hseen hfresh
        rw [ih h fun o => mem_seen_kept hseen, keptRules, if_neg hkept, ← List.append_cons]
      · have habsorbed := absorbed_of_mem hseen (List.mem_append_right xs List.mem_cons_self) hr hb hsame
        have hexits : mergedExits (xs ++ base' :: ys) = mergedExits (xs ++ base :: ys) := mergedExits_absorbed hab hb
        rw [ih h (hexits ▸ hseen), keptRules, if_pos habsorbed, List.append_assoc, List.append_assoc, List.cons_append,
          List.cons_append, holds_absorbed hab hk]

end ProxyGateway.Route
