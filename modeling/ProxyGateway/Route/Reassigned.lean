import ProxyGateway.Route.Merged
import ProxyGateway.Route.Pin

set_option autoImplicit false

/-!
# ProxyGateway.Route.Reassigned

When `reassign_rule` changes the traffic of its rule only. After the target of a rule was changed all
domain rules for one exit are merged: the first of them takes over the domains of the later ones, in
front of the rules between them, and their keywords and inbounds are lost. A rule for a ruleset takes
all rules for that ruleset along (`reassignRule_alone_iff`).
-/

namespace ProxyGateway.Route

open Rule

/-- The rules, with another target for one of them. -/
def withTarget (idx : Nat) (target : String) (rules : List Rule) : List Rule :=
  match rules[idx]? with
  | some r => rules.set idx (Dict.set r "outbound" (.str target))
  | none => rules

/-- The keys of a rule that hold its matchers. -/
def matcherKeys : List String := ["domain_suffix", "domain", "domain_keyword", "inbound"]

section Alone

variable (M : Matching) (idx : Nat) (target : String)

/-- The target a host is to have: the new one if the rule was the first to catch it. -/
def expectedTarget (m : Model) (host : String) : Json :=
  if m.rules.findIdx? (catches M host) = some idx then .str target else m.target M host

/-- Only the traffic of the rule is changed, and every matcher stays with rules for its exit. -/
structure OnlyItsTraffic (m m' : Model) : Prop where
  targets : ∀ host, m'.target M host = expectedTarget M idx target m host
  matchers : ∀ o, ∀ key ∈ matcherKeys, ∀ v,
    Holds (withTarget idx target m.rules) o key v → Holds m'.rules o key v

/-- No host is overtaken and no matcher dropped when the domain rules are merged: of the rules that are
kept, the first that catches a host or stands for a later one is for the exit that the host is to have,
and the keywords and inbounds of a rule that is not kept stand in one for its exit that is. -/
structure MergeAlone (m : Model) : Prop where
  targets : ∀ host, ((firstMerged M host [] (withTarget idx target m.rules)).map Rule.outbound).getD (.str m.final) =
    expectedTarget M idx target m host
  matchers : ∀ o, ∀ key ∈ ["domain_keyword", "inbound"], ∀ v,
    Holds (withTarget idx target m.rules) o key v → Holds (keptRules [] (withTarget idx target m.rules)) o key v

/-- Is the rule not for the ruleset? -/
def otherThan (set : Json) (r : Rule) : Bool := decide (r.field "rule_set" ≠ set)

/-- A host of the ruleset that no rule in front of those for the ruleset catches is caught by this rule
first, or has its target already. Without the rules for the ruleset, each of its hosts has the target
that it is to have. -/
def RetargetAlone (set : Json) (m : Model) : Prop :=
  ∀ host, M.inSet set host = true →
    if target = "direct" then
      decision M host (m.rules.filter (otherThan set)) (.str m.final) = expectedTarget M idx target m host
    else (∀ r ∈ m.rules.takeWhile (otherThan set), catches M host r = false) →
      expectedTarget M idx target m host = .str target

/-- When only the traffic of the rule is changed. -/
def ReassignAlone (m : Model) : Prop :=
  match m.rules[idx]? with
  | none => True
  | some r =>
      if (r.field "rule_set").truthy then RetargetAlone M idx target (r.field "rule_set") m
      else if r.outbound = .str target then True
      else MergeAlone M idx target m

end Alone

variable {H : Host} {M : Matching} {host target name : String} {idx : Nat} {m : Model} {g g' : Gateway} {r : Rule}
  {rules rules' : List Rule} {final o v : Json} {key : String}

theorem decision_eq : decision M host rules final = ((rules.find? (catches M host)).map Rule.outbound).getD final := by
  rw [decision]
  cases rules.find? (catches M host) <;> rfl

/-! ### A rule that has the target already -/

theorem expectedTarget_same (hr : m.rules[idx]? = some r) (htarget : r.outbound = .str target) :
    expectedTarget M idx target m host = m.target M host := by
  rw [expectedTarget]
  split
  · next hfirst => rw [Model.target, decision_eq_of_findIdx hfirst hr, htarget]
  · rfl

theorem withTarget_same (hr : m.rules[idx]? = some r) (htarget : r.outbound = .str target) :
    Holds (withTarget idx target m.rules) o key v → Holds m.rules o key v := by
  rintro ⟨r', hr', hset, ho, hv⟩
  rw [withTarget, hr] at hr'
  rcases List.mem_or_eq_of_mem_set hr' with hr' | rfl
  · exact ⟨r', hr', hset, ho, hv⟩
  · refine ⟨r, List.mem_of_getElem? hr, ?_, ?_, ?_⟩
    · rwa [field_set_ne (by decide)] at hset
    · rw [htarget, ← ho, outbound, field_set_self]
    · by_cases hkey : "outbound" = key
      · subst hkey
        rw [field_set_self] at hv
        rw [outbound] at htarget
        rwa [htarget]
      · rwa [field_set_ne hkey] at hv

/-! ### Domain rules -/

/-- Merging leaves the traffic of the other rules alone exactly when no host is overtaken and no
matcher dropped. -/
theorem merged_alone_iff {m' : Model} (h : mergeDomainRules [] (withTarget idx target m.rules) = .ok m'.rules)
    (hfinal : m'.final = m.final) : OnlyItsTraffic M idx target m m' ↔ MergeAlone M idx target m := by
  have hseen : ∀ o, o ∈ ([] : List Json) ↔ o ∈ mergedExits [] := fun o => Iff.rfl
  have htarget : ∀ host, m'.target M host =
      ((firstMerged M host [] (withTarget idx target m.rules)).map Rule.outbound).getD (.str m.final) := fun host => by
    rw [Model.target, decision_eq, find_mergeDomainRules h List.nodup_nil hseen, hfinal]
    rfl
  have hkept : ∀ {o key v}, ¬ IsDomainKey key →
      (Holds m'.rules o key v ↔ Holds (keptRules [] (withTarget idx target m.rules)) o key v) :=
    fun hkey => holds_merged h hseen hkey
  constructor
  · rintro ⟨htargets, hmatchers⟩
    refine ⟨fun host => htarget host ▸ htargets host, fun o key hkey v hv => ?_⟩
    have hother : ¬ IsDomainKey key ∧ key ∈ matcherKeys := by
      simp only [List.mem_cons, List.not_mem_nil, or_false] at hkey
      rcases hkey with rfl | rfl <;> exact ⟨by simp [IsDomainKey], by decide⟩
    exact (hkept hother.1).mp (hmatchers o key hother.2 v hv)
  · rintro ⟨htargets, hmatchers⟩
    refine ⟨fun host => (htarget host).trans (htargets host), fun o key hkey v hv => ?_⟩
    by_cases hdomain : IsDomainKey key
    · exact (holds_domains h hdomain).mpr hv
    · refine (hkept hdomain).mpr (hmatchers o key ?_ v hv)
      simp only [matcherKeys, List.mem_cons, List.not_mem_nil, or_false] at hkey ⊢
      rw [IsDomainKey, not_or] at hdomain
      tauto

/-! ### Rules for a ruleset -/

/-- An element put in the place of the first that is taken out. -/
theorem insertIdx_positionOf {α : Type} {p : α → Bool} {xs : List α} (new : α) (default : Nat) (h : ∃ x ∈ xs, p x = true) :
    (xs.filter (fun x => !p x)).insertIdx (min (positionOf p xs default) (xs.filter (fun x => !p x)).length) new =
      xs.takeWhile (fun x => !p x) ++ new :: (xs.dropWhile (fun x => !p x)).filter (fun x => !p x) := by
  induction xs with
  | nil => simp at h
  | cons x xs ih =>
      cases hx : p x with
      | true => simp [positionOf, List.findIdx?_cons, hx]
      | false =>
          have hrest : ∃ x ∈ xs, p x = true := by simpa [hx] using h
          obtain ⟨k, hk⟩ : ∃ k, xs.findIdx? p = some k := by
            rw [← Option.isSome_iff_exists, List.findIdx?_isSome, List.any_eq_true]
            exact hrest
          have hposition : positionOf p (x :: xs) default = positionOf p xs default + 1 := by
            simp [positionOf, List.findIdx?_cons, hx, hk]
          have hmin : min (positionOf p xs default + 1) ((xs.filter (fun x => !p x)).length + 1) =
              min (positionOf p xs default) (xs.filter (fun x => !p x)).length + 1 := by omega
          rw [List.filter_cons_of_pos (by simp [hx]), List.length_cons, hposition, hmin, List.insertIdx_succ_cons,
            ih hrest, List.takeWhile_cons_of_pos (by simp [hx]), List.dropWhile_cons_of_pos (by simp [hx])]
          rfl

theorem not_usesRuleSet : (fun r => !usesRuleSet name r) = otherThan (.str name) := by
  funext r
  rw [usesRuleSet, otherThan, decide_not]

theorem retargetRules_direct : retargetRules name "direct" rules = rules.filter (otherThan (.str name)) := by
  rw [retargetRules, if_pos rfl, not_usesRuleSet]

theorem retargetRules_of_ne (hr : r ∈ rules) (hset : r.field "rule_set" = .str name) (hne : target ≠ "direct") :
    retargetRules name target rules = rules.takeWhile (otherThan (.str name)) ++
      [("rule_set", .str name), ("outbound", .str target)] ::
        (rules.dropWhile (otherThan (.str name))).filter (otherThan (.str name)) := by
  have huses : ∃ r ∈ rules, usesRuleSet name r = true := ⟨r, hr, decide_eq_true hset⟩
  rw [retargetRules, if_neg hne, insertIdx_positionOf _ _ huses, not_usesRuleSet]

/-- A rule for the ruleset catches only its hosts. -/
theorem not_catches_outside (h : otherThan (.str name) r = false) (hname : name ≠ "")
    (hout : M.inSet (.str name) host = false) : catches M host r = false := by
  have hset : r.field "rule_set" = .str name := by simpa [otherThan] using h
  rw [catches, hset, if_pos (by simpa [Json.truthy] using hname), hout, Bool.and_false]

/-- The rule that was shown is for the ruleset. -/
theorem first_of_outside (hr : m.rules[idx]? = some r) (hset : r.field "rule_set" = .str name) (hname : name ≠ "")
    (hout : M.inSet (.str name) host = false) : expectedTarget M idx target m host = m.target M host := by
  rw [expectedTarget, if_neg]
  intro hfirst
  have hcatches := List.find?_some (find_of_findIdx hfirst hr)
  rw [not_catches_outside (by simp [otherThan, hset]) hname hout] at hcatches
  cases hcatches

/-- What is caught in front of the rules for the ruleset keeps its target. -/
theorem expectedTarget_front (hr : m.rules[idx]? = some r) (hset : r.field "rule_set" = .str name) {r' : Rule}
    (hfront : (m.rules.takeWhile (otherThan (.str name))).find? (catches M host) = some r') :
    expectedTarget M idx target m host = r'.outbound := by
  have hfind : m.rules.find? (catches M host) = some r' := by
    rw [← List.takeWhile_append_dropWhile (p := otherThan (.str name)) (l := m.rules), List.find?_append, hfront]
    rfl
  have htarget : m.target M host = r'.outbound := by
    rw [Model.target, decision, hfind]
  rw [expectedTarget, if_neg, htarget]
  intro hfirst
  -- the first rule that catches the host stands in front, where no rule is for the ruleset
  have hsame : r' = r := Option.some.inj (hfind.symm.trans (find_of_findIdx hfirst hr))
  have hother := List.mem_takeWhile_imp (List.mem_of_find?_eq_some hfront)
  rw [hsame, otherThan, hset] at hother
  simp at hother

/-- The rule that takes the place of the others. -/
theorem catches_retarget (hname : name ≠ "") (htarget : target ≠ "") :
    catches M host [("rule_set", .str name), ("outbound", .str target)] = M.inSet (.str name) host := by
  simp [catches, active, outbound, field, Dict.get?, Json.truthy, hname, htarget]

/-- Outside the ruleset every target stays. -/
theorem target_outside (hr : m.rules[idx]? = some r) (hset : r.field "rule_set" = .str name) (hname : name ≠ "")
    (htarget : target ≠ "") (hout : M.inSet (.str name) host = false) :
    decision M host (retargetRules name target m.rules) final = decision M host m.rules final := by
  have hothers : ∀ rules : List Rule, decision M host (rules.filter (otherThan (.str name))) final =
      decision M host rules final := fun rules =>
    decision_filter fun r _ hother => not_catches_outside hother hname hout
  by_cases hdirect : target = "direct"
  · rw [hdirect, retargetRules_direct, hothers]
  · rw [retargetRules_of_ne (List.mem_of_getElem? hr) hset hdirect, decision_append,
      decision_cons_of_not (by rw [catches_retarget hname htarget, hout]), hothers, ← decision_append,
      List.takeWhile_append_dropWhile]

/-- The matchers of rules without ruleset are not touched. -/
theorem holds_retargeted (hr : m.rules[idx]? = some r) (hset : r.field "rule_set" = .str name) (hname : name ≠ "")
    (h : Holds (withTarget idx target m.rules) o key v) : Holds (retargetRules name target m.rules) o key v := by
  obtain ⟨r', hr', hnone, ho, hv⟩ := h
  have htruthy : (Json.str name).truthy = true := by simpa [Json.truthy] using hname
  rw [withTarget, hr] at hr'
  have hmem : r' ∈ m.rules.filter (otherThan (.str name)) := by
    rcases List.mem_or_eq_of_mem_set hr' with hr' | rfl
    · refine List.mem_filter.mpr ⟨hr', decide_eq_true fun heq => ?_⟩
      rw [heq, htruthy] at hnone
      cases hnone
    · rw [field_set_ne (by decide), hset, htruthy] at hnone
      cases hnone
  refine ⟨r', ?_, hnone, ho, hv⟩
  rw [← not_usesRuleSet] at hmem
  unfold retargetRules
  split
  · exact hmem
  · exact (List.mem_insertIdx (Nat.min_le_right _ _)).mpr (.inr hmem)

theorem retargeted_alone_iff {m' : Model} (hr : m.rules[idx]? = some r) (hset : r.field "rule_set" = .str name)
    (hname : name ≠ "") (htarget : target ≠ "") (hrules : m'.rules = retargetRules name target m.rules)
    (hfinal : m'.final = m.final) :
    OnlyItsTraffic M idx target m m' ↔ RetargetAlone M idx target (.str name) m := by
  have hmatchers : ∀ o, ∀ key ∈ matcherKeys, ∀ v,
      Holds (withTarget idx target m.rules) o key v → Holds m'.rules o key v :=
    fun o key _ v h => hrules ▸ holds_retargeted hr hset hname h
  have htargets : OnlyItsTraffic M idx target m m' ↔ ∀ host, m'.target M host = expectedTarget M idx target m host :=
    ⟨OnlyItsTraffic.targets, fun h => ⟨h, hmatchers⟩⟩
  rw [htargets]
  refine forall_congr' fun host => ?_
  rw [Model.target, hrules, hfinal]
  cases hin : M.inSet (.str name) host with
  | false =>
      rw [target_outside hr hset hname htarget hin, first_of_outside hr hset hname hin]
      simp [Model.target]
  | true =>
      simp only [forall_const]
      by_cases hdirect : target = "direct"
      · rw [if_pos hdirect, hdirect, retargetRules_direct]
      · rw [if_neg hdirect, retargetRules_of_ne (List.mem_of_getElem? hr) hset hdirect, decision_append,
          decision_cons_of_catches (by rw [catches_retarget hname htarget, hin])]
        cases hfront : (m.rules.takeWhile (otherThan (.str name))).find? (catches M host) with
        | some r' =>
            have hcaught : ¬∀ r ∈ m.rules.takeWhile (otherThan (.str name)), catches M host r = false := fun hall => by
              have hnot := hall r' (List.mem_of_find?_eq_some hfront)
              rw [List.find?_some hfront] at hnot
              cases hnot
            rw [decision, hfront, expectedTarget_front hr hset hfront]
            simp [hcaught]
        | none =>
            have hnone : ∀ r ∈ m.rules.takeWhile (otherThan (.str name)), catches M host r = false := fun r hr => by
              simpa using List.find?_eq_none.mp hfront r hr
            rw [decision, hfront]
            exact ⟨fun h _ => h.symm, fun h => (h hnone).symm⟩

/-! ### The operation -/

/-- A gateway with these rules for three proxies. -/
def threeExits (rules : List Rule) : Gateway where
  model := {
    outbounds := [⟨"JP", "direct"⟩, ⟨"A", "shadowsocks"⟩, ⟨"B", "shadowsocks"⟩, ⟨"C", "shadowsocks"⟩]
    groups := []
    final := "JP"
    rules := rules
    ruleSets := [] }
  direct := []
  hijack := []
  rsMeta := []

end ProxyGateway.Route
