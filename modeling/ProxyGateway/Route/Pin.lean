import ProxyGateway.Lib.Runs
import ProxyGateway.Route.OperationCases

set_option autoImplicit false

/-!
# ProxyGateway.Route.Pin

The Telegram pin and the domain rules in one list. Whether an operation keeps them apart
is decided by the pins alone (`pins`): the exit in force and whether a pin carries domains
are read off them. Each operation is followed on the pins, and the outcome is compared
with a condition on the state before it (`Safe`): an operation that meets it leaves the
two kinds independent (`Independent`), and no other one does (`independent_iff_safe`).

The conditions are not idle. `add_rule` uses the first rule with the target and without
`rule_set`, which can be the pin, and each deletion cleans up rules without matcher, which
the pin looks like (`added_domain_lost`).
-/

namespace ProxyGateway.Route

open Rule

variable {H : Host} {g g' : Gateway} {r r' : Rule} {rules rules' : List Rule}

/-! ### The pins -/

/-- The pins, in order. -/
def pins (rules : List Rule) : List Rule := rules.filter Rule.pinned

theorem tgExit_eq_pins (rules : List Rule) : tgExit rules = exitOf (pins rules).head? := by
  rw [tgExit_eq, pins, List.head?_filter]

theorem apart_iff_pins : Apart rules ↔ ∀ r ∈ pins rules, r.hasDomains = false := by
  simp [Apart, pins]

theorem tgExit_congr (h : pins rules' = pins rules) : tgExit rules' = tgExit rules := by
  rw [tgExit_eq_pins, tgExit_eq_pins, h]

theorem apart_congr (h : pins rules' = pins rules) : Apart rules' ↔ Apart rules := by
  rw [apart_iff_pins, apart_iff_pins, h]

theorem pins_insert (h : r.pinned = false) (xs ys : List Rule) :
    pins (xs ++ r :: ys) = pins (xs ++ ys) := by
  simp [pins, h]

theorem pins_replace (h : r.pinned = false) (h' : r'.pinned = false) (xs ys : List Rule) :
    pins (xs ++ r' :: ys) = pins (xs ++ r :: ys) := by
  rw [pins_insert h, pins_insert h']

theorem pins_insertFirst (h : r.pinned = false) (rules : List Rule) :
    pins (insertFirst r rules) = pins rules := by
  obtain ⟨xs, ys, hr, hi⟩ := insertFirst_split r rules
  rw [hi, hr, pins_insert h]

theorem pins_insertIdx (h : r.pinned = false) (rules : List Rule) (n : Nat) :
    pins (rules.insertIdx n r) = pins rules := by
  induction rules generalizing n with
  | nil => cases n <;> simp [pins, h]
  | cons x rules ih =>
      cases n with
      | zero => simp [pins, h]
      | succ n =>
          have := ih n
          simp only [pins] at this
          simp [pins, List.insertIdx_succ_cons, List.filter_cons, this]

/-- Where nothing is listed, a domain is found only if it is empty. -/
theorem eq_empty_of_has {domain : String} {v : Json} (hv : v.truthy = false)
    (h : v.has (ε := Refusal) domain = .ok true) : domain = "" := by
  cases v with
  | arr xs => cases xs <;> simp_all [Json.truthy, Json.has]
  | obj kvs => cases kvs <;> simp_all [Json.truthy, Json.has]
  | str s =>
      have hs : s = "" := by simpa [Json.truthy] using hv
      subst hs
      simpa [Json.has] using h
  | _ => simp [Json.has] at h

theorem truthy_listed (r : Rule) (key : String) :
    (r.listed key).truthy = (r.field key).truthy := by
  unfold listed field
  cases r.get? key <;> simp [Json.truthy]

/-- A domain key that holds a domain makes a domain rule. -/
theorem hasDomains_of_arr {key d : String} {ds : List Json} (hk : IsDomainKey key)
    (h : r.field key = .arr (ds ++ [.str d])) : r.hasDomains = true := by
  rcases hk with rfl | rfl <;> simp [hasDomains, h, Json.truthy]

theorem field_falsy {key : String} (hk : IsDomainKey key) (h : r.hasDomains = false) :
    (r.field key).truthy = false := by
  simp only [hasDomains, Bool.or_eq_false_iff] at h
  rcases hk with rfl | rfl
  · exact h.1
  · exact h.2

/-! ### Deletions -/

/-- The exit of the first pin that the clean-up leaves in. -/
def survivingExit (rules : List Rule) : Json :=
  exitOf (rules.find? (fun r => r.pinned && r.keeps))

/-- A deletion, whatever domains it takes from the rules. -/
theorem cleanUp_pins (h : List.Forall₂ Fewer rules rules') (hA : Apart rules) :
    Apart (cleanUp rules') ∧ tgExit (cleanUp rules') = survivingExit rules := by
  induction h with
  | nil => exact ⟨fun r hr => absurd hr (by simp [cleanUp]), rfl⟩
  | @cons r r' rules rules' hr hrs ih =>
      obtain ⟨hd, hA⟩ := apart_cons.mp hA
      obtain ⟨ihA, ihe⟩ := ih hA
      by_cases hp : r.pinned = true
      · have hd := hd hp
        have hp' : r'.pinned = true := hr.pinned_eq.trans hp
        have hk' : r'.keeps = r.keeps := hr.keeps_eq hd
        by_cases hk : r.keeps = true
        · have hc : cleanUp (r' :: rules') = r' :: cleanUp rules' := by simp [cleanUp, hk', hk]
          rw [hc, tgExit_cons_of_pinned hp', hr.outbound_eq]
          refine ⟨apart_cons.mpr ⟨fun _ => hr.hasDomains_eq_false hd, ihA⟩, ?_⟩
          simp [survivingExit, hp, hk, exitOf]
        · have hk : r.keeps = false := by simpa using hk
          have hc : cleanUp (r' :: rules') = cleanUp rules' := by simp [cleanUp, hk', hk]
          rw [hc, ihe]
          exact ⟨ihA, by simp [survivingExit, hk]⟩
      · have hp : r.pinned = false := by simpa using hp
        have hp' : r'.pinned = false := hr.pinned_eq.trans hp
        have hs : survivingExit (r :: rules) = survivingExit rules := by simp [survivingExit, hp]
        by_cases hk : r'.keeps = true
        · have hc : cleanUp (r' :: rules') = r' :: cleanUp rules' := by simp [cleanUp, hk]
          rw [hc, hs, tgExit_cons_of_not_pinned hp']
          exact ⟨apart_cons.mpr ⟨fun h => by simp [hp'] at h, ihA⟩, ihe⟩
        · have hc : cleanUp (r' :: rules') = cleanUp rules' := by simp [cleanUp, hk]
          rw [hc, hs]
          exact ⟨ihA, ihe⟩

/-! ### Merging -/

theorem pinned_eq_of_field (h : r'.field "inbound" = r.field "inbound") :
    r'.pinned = r.pinned := by
  simp only [pinned, h]

/-- Without domains on pins the merge leaves the pins as they are. -/
theorem mergeDomainRules_pins {out : List Rule} (hA : Apart (out ++ rules))
    (h : mergeDomainRules out rules = .ok rules') : pins rules' = pins (out ++ rules) := by
  induction rules generalizing out with
  | nil =>
      rw [← Py.pure_eq_ok.mp h, List.append_nil]
  | cons r rules ih =>
      rcases mergeDomainRules_cons h with h | ⟨xs, base, ys, base', rfl, hr, hb, -, hab, h⟩
      · rw [List.append_cons out r rules] at hA ⊢
        exact ih hA h
      · -- both rules carry domains, so neither is a pin
        have not_pinned : ∀ x ∈ (xs ++ base :: ys) ++ r :: rules, mergeable x = true →
            x.pinned = false := by
          intro x hx hm
          by_contra hp
          have := hA x hx (by simpa using hp)
          simp [mergeable, this] at hm
        have hrp : r.pinned = false := not_pinned r (by simp) hr
        have hbp : base.pinned = false := not_pinned base (by simp) hb
        have hbp' : base'.pinned = false :=
          (pinned_eq_of_field (absorb_field hab (by simp [IsDomainKey]))).trans hbp
        have hp : pins ((xs ++ base' :: ys) ++ rules) = pins ((xs ++ base :: ys) ++ r :: rules) := by
          rw [pins_insert hrp, List.append_assoc, List.append_assoc, List.cons_append,
            List.cons_append, pins_replace hbp hbp']
        rw [ih ((apart_congr hp).mpr hA) h, hp]

/-! ### Safe operations -/

/-- Is it `set_tg_exit`? The other operations are the domain operations. -/
def RuleOp.movesPin : RuleOp → Bool
  | .setTgExit _ => true
  | _ => false

/-- The step keeps pin and domain rules independent: only `set_tg_exit` moves the pinned
exit, only the domain operations change the domain pairs, and no pin gets a domain. -/
structure Independent (g : Gateway) (op : RuleOp) (g' : Gateway) : Prop where
  exit : op.movesPin = false → tgExit g'.model.rules = tgExit g.model.rules
  pairs : op.movesPin = true → ∀ d e, Pair g'.model.rules d e ↔ Pair g.model.rules d e
  apart : Apart g'.model.rules

/-- `add_rule` does not use a pin. -/
def SafeAdd (target : String) (rules : List Rule) : Prop :=
  (target = "direct" ∨ target = "直连") ∨
    ∀ r, rules.find? (takesDomain target) = some r → r.pinned = false

/-- The clean-up leaves the pinned exit in force: the first pin with a further matcher
names it. -/
def SafeCleanUp (rules : List Rule) : Prop := survivingExit rules = tgExit rules

/-- The rule found for the new target of a patched domain is no pin. -/
def SafePatch (H : Host) (old value : String) (rules : List Rule) : Prop :=
  ∀ target rest found key, webTarget H value = .ok target →
    patchRules (canonicalDomain H old) rules = .ok (rest, found, key) →
      target = "direct" ∨ ∀ r, rest.find? (takesPatched target key) = some r → r.pinned = false

/-- The reassigned rule is not the pin in force, nor is the pin in force a rule for the
reassigned ruleset. -/
def SafeReassign (idx : Nat) (target : String) (rules : List Rule) : Prop :=
  ∀ r, rules[idx]? = some r →
    if (r.field "rule_set").truthy then
      ∀ name, r.field "rule_set" = .str name →
        exitOf (rules.find? (fun r => r.pinned && !usesRuleSet name r)) = tgExit rules
    else r.outbound = .str target ∨ r.pinned = false ∨ (rules.take idx).any Rule.pinned = true

/-- The condition under which an operation keeps pin and domain rules independent. -/
def Safe (H : Host) (g : Gateway) : RuleOp → Prop
  | .addRule _ target => SafeAdd target g.model.rules
  | .delRule domain =>
      mentionedIn (canonicalDomain H domain) g.model.rules = .ok true → SafeCleanUp g.model.rules
  | .delRulesBulk _ => SafeCleanUp g.model.rules
  | .reassignRule idx target => SafeReassign idx.toNat target g.model.rules
  | .patchRule old value => SafeCleanUp g.model.rules ∧ SafePatch H old value g.model.rules
  | .setTgExit _ => True

/-- For a domain operation only the pins matter. -/
theorem independent_iff {op : RuleOp} (hop : op.movesPin = false) :
    Independent g op g' ↔
      tgExit g'.model.rules = tgExit g.model.rules ∧ Apart g'.model.rules := by
  constructor
  · intro h
    exact ⟨h.exit hop, h.apart⟩
  · intro h
    exact ⟨fun _ => h.1, fun hp => by simp [hop] at hp, h.2⟩

theorem newRule_not_pinned {key d target : String} (hk : IsDomainKey key) :
    (newRule key d target).pinned = false := by
  rcases hk with rfl | rfl <;> simp [newRule, pinned, field, Dict.get?]

theorem addRule_safe {domain target : String} (h : addRule H domain target g = .ok g')
    (hA : Apart g.model.rules) :
    (tgExit g'.model.rules = tgExit g.model.rules ∧ Apart g'.model.rules) ↔
      SafeAdd target g.model.rules := by
  obtain ⟨hd, ⟨ht, rfl⟩ | ⟨ht, -, rules, hr, rfl⟩⟩ := addRule_cases h
  · exact iff_of_true ⟨rfl, hA⟩ (.inl ht)
  · rcases addDomain_cases hr with ⟨hf, rfl⟩ | ⟨xs, r, ys, r', hx, hf, ha, -, rfl⟩
    · have hn : Rule.pinned (newRule "domain_suffix" (canonicalDomain H domain) target) = false :=
        newRule_not_pinned (.inl rfl)
      have hp := pins_insertFirst hn g.model.rules
      exact iff_of_true ⟨tgExit_congr hp, (apart_congr hp).mpr hA⟩
        (.inr (fun r hr => by simp [hf] at hr))
    · obtain ⟨v, hrv, hlv, hv⟩ := addSuffix_cases ha
      have hin : r'.field "inbound" = r.field "inbound" := by
        rcases hrv with rfl | rfl
        · rfl
        · exact field_set_ne (by decide) _ _
      have hpe : r'.pinned = r.pinned := pinned_eq_of_field hin
      by_cases hp : r.pinned = true
      · -- the pin takes the domain: it carries one now
        refine iff_of_false (fun hs => ?_) (fun hs => ?_)
        · have hrd : r.hasDomains = false := hA r (by simp [hx]) hp
          have hrd' : r'.hasDomains = false := hs.2 r' (by simp) (hpe.trans hp)
          have hv' : v.truthy = false := by
            rw [← hlv, truthy_listed]
            exact field_falsy (.inl rfl) hrd'
          rcases hv with ⟨hhas, rfl⟩ | ⟨ds, -, rfl⟩
          · have hempty := eq_empty_of_has hv' hhas
            simp [hempty, looseDomain] at hd
          · simp [Json.truthy] at hv'
        · rcases hs with hs | hs
          · exact ht hs
          · simp [hs r hf] at hp
      · have hp : r.pinned = false := by simpa using hp
        have hpins := pins_replace hp (hpe.trans hp) xs ys
        rw [← hx] at hpins
        exact iff_of_true ⟨tgExit_congr hpins, (apart_congr hpins).mpr hA⟩
          (.inr (fun r₀ hr₀ => by rw [hf] at hr₀; cases hr₀; exact hp))

theorem delRule_safe {domain : String} (h : delRule H domain g = .ok g')
    (hA : Apart g.model.rules) :
    (tgExit g'.model.rules = tgExit g.model.rules ∧ Apart g'.model.rules) ↔
      (mentionedIn (canonicalDomain H domain) g.model.rules = .ok true →
        SafeCleanUp g.model.rules) := by
  obtain ⟨-, -, ⟨hm, hg⟩ | ⟨hm, rules, hr, hg⟩⟩ := delRule_cases h
  · rw [hg]
    exact iff_of_true ⟨rfl, hA⟩ (fun ht => by simp [hm] at ht)
  · obtain ⟨hA', he⟩ := cleanUp_pins ((Py.mapM_forall₂ hr).imp (fun _ _ => strike_fewer)) hA
    rw [hg]
    constructor
    · intro hs _
      exact he.symm.trans hs.1
    · intro hs
      exact ⟨he.trans (hs hm), hA'⟩

theorem delRulesBulk_safe {domains : List String} (h : delRulesBulk H domains g = .ok g')
    (hA : Apart g.model.rules) :
    (tgExit g'.model.rules = tgExit g.model.rules ∧ Apart g'.model.rules) ↔
      SafeCleanUp g.model.rules := by
  obtain ⟨rules, hr, rfl⟩ := delRulesBulk_cases h
  obtain ⟨hA', he⟩ := cleanUp_pins ((Py.mapM_forall₂ hr).imp (fun _ _ => strikeSet_fewer)) hA
  exact ⟨fun hs => he.symm.trans hs.1, fun hs => ⟨he.trans hs, hA'⟩⟩

theorem patchRule_safe {old value : String} (h : patchRule H old value g = .ok g')
    (hA : Apart g.model.rules) :
    (tgExit g'.model.rules = tgExit g.model.rules ∧ Apart g'.model.rules) ↔
      SafeCleanUp g.model.rules ∧ SafePatch H old value g.model.rules := by
  obtain ⟨target, rules, found, key, hd, ht, hp, hg⟩ := patchRule_cases h
  obtain ⟨patched, hm, hrules, hk⟩ := patchRules_cases hp
  have hfew : List.Forall₂ Fewer g.model.rules (patched.map Prod.fst) :=
    List.forall₂_map_right_iff.mpr
      ((Py.mapM_forall₂ hm).imp (fun _ _ => patchOne_fewer))
  obtain ⟨hA', he⟩ := cleanUp_pins hfew hA
  rw [← hrules] at hA' he
  have hpatch : SafePatch H old value g.model.rules ↔ target = "direct" ∨
      ∀ r, rules.find? (takesPatched target key) = some r → r.pinned = false := by
    constructor
    · intro hs
      exact hs target rules found key ht hp
    · intro hs t rs f k ht' hp'
      rw [ht] at ht'
      rw [hp] at hp'
      cases ht'
      cases hp'
      exact hs
  rw [hpatch]
  -- where the pins stay, only the removal before counts
  have same_pins : ∀ rules', pins rules' = pins rules → (target = "direct" ∨
      ∀ r, rules.find? (takesPatched target key) = some r → r.pinned = false) →
      ((tgExit rules' = tgExit g.model.rules ∧ Apart rules') ↔
        SafeCleanUp g.model.rules ∧ (target = "direct" ∨
          ∀ r, rules.find? (takesPatched target key) = some r → r.pinned = false)) := by
    intro rules' hpins hs
    rw [tgExit_congr hpins, apart_congr hpins, he, and_iff_left hs, and_iff_left hA']
    exact Iff.rfl
  obtain ⟨htd, rfl⟩ | ⟨htd, -, o, ho, rfl⟩ := hg
  · exact same_pins rules rfl (.inl htd)
  · rcases patchInto_cases ho with ⟨rfl, hf⟩ | ⟨xs, r, ys, r', rfl, hf, -, rfl, hr⟩
    · exact same_pins _ (pins_insertFirst (newRule_not_pinned hk) rules)
        (.inr (fun r hr => by simp [hf] at hr))
    · have hpe : r'.pinned = r.pinned := by
        rcases hr with ⟨-, rfl⟩ | ⟨ds, -, rfl⟩
        · rfl
        · exact pinned_eq_of_field (field_set_ne hk.ne_inbound _ _)
      by_cases hpin : r.pinned = true
      · -- the pin takes the domain: it carries one now
        refine iff_of_false (fun hs => ?_) (fun hs => ?_)
        · have hrd : r.hasDomains = false := hA' r (by simp) hpin
          have hrd' : r'.hasDomains = false := hs.2 r' (by simp) (hpe.trans hpin)
          rcases hr with ⟨hhas, rfl⟩ | ⟨ds, -, rfl⟩
          · have hempty := eq_empty_of_has (field_falsy hk hrd) hhas
            simp [hempty, domainRe, Text.splitAt] at hd
          · rw [hasDomains_of_arr hk (field_set_self _ _ _)] at hrd'
            simp at hrd'
        · rcases hs.2 with hs | hs
          · exact htd hs
          · simp [hs r hf] at hpin
      · have hpin : r.pinned = false := by simpa using hpin
        exact same_pins _ (pins_replace hpin (hpe.trans hpin) xs ys)
          (.inr (fun r₀ hr₀ => by rw [hf] at hr₀; cases hr₀; exact hpin))

/-- The pins after a list of rules lost those for a ruleset. -/
theorem retargetRules_pins (name target : String) (rules : List Rule) :
    pins (retargetRules name target rules) = (pins rules).filter (fun r => !usesRuleSet name r) := by
  have hrest : pins (rules.filter (fun r => !usesRuleSet name r)) =
      (pins rules).filter (fun r => !usesRuleSet name r) := by
    rw [pins, pins, List.filter_filter, List.filter_filter]
    congr 1
    funext r
    exact Bool.and_comm _ _
  unfold retargetRules
  split
  · exact hrest
  · rw [pins_insertIdx (by simp [pinned, field, Dict.get?]), hrest]

/-- Another exit for one rule is another pinned exit exactly if the rule is the first pin. -/
theorem tgExit_replace_iff (hp : r'.pinned = r.pinned) (ho : r'.outbound ≠ r.outbound)
    {xs ys : List Rule} :
    tgExit (xs ++ r' :: ys) = tgExit (xs ++ r :: ys) ↔
      r.pinned = false ∨ xs.any Rule.pinned = true := by
  induction xs with
  | nil =>
      by_cases h : r.pinned = true
      · simp [h, hp.trans h, ho]
      · have h : r.pinned = false := by simpa using h
        simp [h, hp.trans h]
  | cons x xs ih =>
      by_cases hx : x.pinned = true
      · simp [hx]
      · have hx : x.pinned = false := by simpa using hx
        simp [hx, ih]

theorem apart_replace (hp : r'.pinned = r.pinned) (hd : r'.hasDomains = r.hasDomains)
    {xs ys : List Rule} (hA : Apart (xs ++ r :: ys)) : Apart (xs ++ r' :: ys) := by
  intro x hx hxp
  rcases List.mem_append.mp hx with hx | hx
  · exact hA x (List.mem_append_left _ hx) hxp
  · rcases List.mem_cons.mp hx with rfl | hx
    · rw [hd]
      exact hA r (by simp) (hp.symm.trans hxp)
    · exact hA x (by simp [hx]) hxp

theorem reassignRule_safe {idx : Int} {target : String} (h : reassignRule H idx target g = .ok g')
    (hA : Apart g.model.rules) :
    (tgExit g'.model.rules = tgExit g.model.rules ∧ Apart g'.model.rules) ↔
      SafeReassign idx.toNat target g.model.rules := by
  obtain ⟨r, -, hr, -, -, hcases⟩ := reassignRule_cases h
  have hsafe : SafeReassign idx.toNat target g.model.rules ↔
      if (r.field "rule_set").truthy then
        ∀ name, r.field "rule_set" = .str name →
          exitOf (g.model.rules.find? (fun r => r.pinned && !usesRuleSet name r)) =
            tgExit g.model.rules
      else r.outbound = .str target ∨ r.pinned = false ∨
        (g.model.rules.take idx.toNat).any Rule.pinned = true := by
    constructor
    · intro hs
      exact hs r hr
    · intro hs r₀ hr₀
      rw [hr] at hr₀
      cases hr₀
      exact hs
  rw [hsafe]
  -- the rule of a ruleset, a rule that has the target already, one that is given it
  rcases hcases with ⟨hset, h⟩ | ⟨hset, ho, rfl⟩ | ⟨hset, ho, rules, hm, rfl⟩
  · rw [if_pos hset]
    obtain ⟨n, leaf, info, hn, -, rfl⟩ := setRulesetTarget_cases h
    have hpins := retargetRules_pins n target g.model.rules
    have hexit : tgExit (retargetRules n target g.model.rules) =
        exitOf (g.model.rules.find? (fun r => r.pinned && !usesRuleSet n r)) := by
      rw [tgExit_eq_pins, hpins, pins, List.filter_filter, List.head?_filter]
      congr 2
      funext r
      exact Bool.and_comm _ _
    have hA' : Apart (retargetRules n target g.model.rules) := by
      rw [apart_iff_pins, hpins]
      intro r hr
      exact apart_iff_pins.mp hA r (List.mem_of_mem_filter hr)
    constructor
    · rintro ⟨he, -⟩ name hname
      rw [hn] at hname
      cases hname
      exact hexit.symm.trans he
    · intro hs
      exact ⟨hexit.trans (hs n hn), hA'⟩
  · rw [if_neg (by simp [hset])]
    exact iff_of_true ⟨rfl, hA⟩ (.inl ho)
  · rw [if_neg (by simp [hset])]
    obtain ⟨hlt, hget⟩ := List.getElem?_eq_some_iff.mp hr
    set r' : Rule := r.set "outbound" (.str target)
    have hsplit : g.model.rules = g.model.rules.take idx.toNat ++ r ::
        g.model.rules.drop (idx.toNat + 1) := by
      rw [← hget, List.getElem_cons_drop, List.take_append_drop]
    rw [List.set_eq_take_append_cons_drop, if_pos hlt] at hm
    set xs := g.model.rules.take idx.toNat
    set ys := g.model.rules.drop (idx.toNat + 1)
    have hpe : r'.pinned = r.pinned := pinned_eq_of_field (field_set_ne (by decide) _ _)
    have hde : r'.hasDomains = r.hasDomains := by
      rw [hasDomains, field_set_ne (by decide), field_set_ne (by decide), hasDomains]
    have hoe : r'.outbound ≠ r.outbound := by
      rw [outbound, field_set_self]
      exact fun he => ho he.symm
    rw [hsplit] at hA
    have hA' := apart_replace hpe hde hA
    -- pins have no domains, so the merge behind it leaves them alone
    have hpins : pins rules = pins ([] ++ (xs ++ r' :: ys)) := mergeDomainRules_pins hA' hm
    rw [List.nil_append] at hpins
    show (tgExit rules = tgExit g.model.rules ∧ Apart rules) ↔ _
    rw [tgExit_congr hpins, apart_congr hpins, and_iff_left hA', hsplit,
      tgExit_replace_iff hpe hoe, or_iff_right ho]

/-- `set_tg_exit` leaves the domain pairs alone and makes a pin without domains. -/
theorem setTgExit_independent {tag : String} (h : setTgExit tag g = .ok g')
    (hA : Apart g.model.rules) : Independent g (.setTgExit tag) g' := by
  set rest := g.model.rules.filter (fun r => !r.pinned) with hrest
  set pin : Rule := [("inbound", .arr [.str "tg-proxy"]), ("outbound", .str tag)]
  have hg' : g'.model.rules = if tag = "" then rest else insertFirst pin rest := by
    rw [setTgExit_cases h]
  have hpin : pin.hasDomains = false := by rfl
  -- the new rules are the unpinned ones of before, and the pin
  have hmem : ∀ r ∈ g'.model.rules, r = pin ∨ r ∈ rest := by
    intro r hr
    rw [hg'] at hr
    split at hr
    · exact .inr hr
    · obtain ⟨xs, ys, he, hi⟩ := insertFirst_split pin rest
      rw [hi] at hr
      rw [he]
      rcases List.mem_append.mp hr with hr | hr
      · exact .inr (List.mem_append_left _ hr)
      · rcases List.mem_cons.mp hr with hr | hr
        · exact .inl hr
        · exact .inr (List.mem_append_right _ hr)
  have hsub : ∀ r ∈ rest, r ∈ g'.model.rules := by
    intro r hr
    rw [hg']
    split
    · exact hr
    · obtain ⟨xs, ys, he, hi⟩ := insertFirst_split pin rest
      rw [hi]
      rw [he] at hr
      simp only [List.mem_append, List.mem_cons] at hr ⊢
      tauto
  refine ⟨fun hm => by simp [RuleOp.movesPin] at hm, fun _ d e => ⟨?_, ?_⟩, ?_⟩
  · rintro ⟨r, hr, hx, ho, hd⟩
    rcases hmem r hr with rfl | hr
    · simp [domains_eq_nil hpin] at hd
    · exact ⟨r, List.mem_of_mem_filter hr, hx, ho, hd⟩
  · rintro ⟨r, hr, hx, ho, hd⟩
    refine ⟨r, hsub r (List.mem_filter.mpr ⟨hr, ?_⟩), hx, ho, hd⟩
    by_contra hp
    have hp : r.pinned = true := by simpa using hp
    simp [domains_eq_nil (hA r hr hp)] at hd
  · intro r hr hp
    rcases hmem r hr with rfl | hr
    · exact hpin
    · have := (List.mem_filter.mp hr).2
      simp [hp] at this

/-- One committed operation keeps pin and domain rules independent exactly if it is safe. -/
theorem independent_iff_safe {op : RuleOp} (h : op.run H g = .ok g') (hA : Apart g.model.rules) :
    Independent g op g' ↔ Safe H g op := by
  cases op with
  | addRule domain target =>
      rw [independent_iff rfl]
      exact addRule_safe h hA
  | delRule domain =>
      rw [independent_iff rfl]
      exact delRule_safe h hA
  | delRulesBulk domains =>
      rw [independent_iff rfl]
      exact delRulesBulk_safe h hA
  | reassignRule idx target =>
      rw [independent_iff rfl]
      exact reassignRule_safe h hA
  | patchRule old value =>
      rw [independent_iff rfl]
      exact patchRule_safe h hA
  | setTgExit tag => exact iff_of_true (setTgExit_independent h hA) trivial

/-! ### Runs -/

/-- An operation whose transaction commits. -/
def Commits (H : Host) (g : Gateway) (op : RuleOp) (g' : Gateway) : Prop := op.run H g = .ok g'

/-- In a run of committed operations from a model whose pins carry no domains, every step
keeps pin and domain rules independent exactly if every step is safe. -/
theorem run_independent_iff_safe (H : Host) (g : Gateway) (run : List (RuleOp × Gateway))
    (hA : Apart g.model.rules) (hr : Runs.IsRun (Commits H) g run) :
    Runs.AllSteps Independent g run ↔ Runs.AllSteps (fun g op _ => Safe H g op) g run :=
  Runs.allSteps_iff (I := fun g => Apart g.model.rules) hr hA
    (fun _ _ _ hA h => independent_iff_safe h hA) (fun _ _ _ _ _ h => h.apart)

/-- Names as they are: a host for texts in lower case. -/
def plainHost : Host where
  lower s := s
  validName s := s != ""
  normalizeName s := some s
  managedRulesets _ := some []

/-- A gateway whose only rule is the pin. -/
def pinnedGateway : Gateway where
  model := {
    outbounds := [⟨"JP", "direct"⟩, ⟨"tokyo", "shadowsocks"⟩]
    groups := []
    final := "JP"
    rules := [[("inbound", .arr [.str "tg-proxy"]), ("outbound", .str "tokyo")]]
    ruleSets := [] }
  direct := []
  hijack := []
  rsMeta := []

/-- After `add_rule` made a rule of its own. -/
def domainBeside : Gateway :=
  { pinnedGateway with
    model := { pinnedGateway.model with
      rules := [newRule "domain_suffix" "example.com" "JP",
        [("inbound", .arr [.str "tg-proxy"]), ("outbound", .str "tokyo")]] }
    hijack := ["example.com"] }

/-- After the pin was moved to that exit. -/
def pinMoved : Gateway :=
  { domainBeside with model := { domainBeside.model with
      rules := [[("inbound", .arr [.str "tg-proxy"]), ("outbound", .str "JP")],
        newRule "domain_suffix" "example.com" "JP"] } }

theorem pinnedGateway_apart : Apart pinnedGateway.model.rules := by
  simp [Apart, pinnedGateway, hasDomains, field, Dict.get?, Json.truthy]

/-- A domain beside the pin stays when the pin is moved to its exit. -/
theorem run_independent_domainBeside :
    Runs.AllSteps Independent pinnedGateway
      [(.addRule "example.com" "JP", domainBeside), (.setTgExit "JP", pinMoved)] := by
  have hadd : addRule plainHost "example.com" "JP" pinnedGateway = .ok domainBeside := by rfl
  have hset : setTgExit "JP" domainBeside = .ok pinMoved := by rfl
  have hnone : pinnedGateway.model.rules.find? (takesDomain "JP") = none := by decide
  have hsafe : SafeAdd "JP" pinnedGateway.model.rules :=
    .inr (fun r hr => by simp [hnone] at hr)
  exact (run_independent_iff_safe plainHost pinnedGateway
    [(.addRule "example.com" "JP", domainBeside), (.setTgExit "JP", pinMoved)]
    pinnedGateway_apart ⟨hadd, hset, trivial⟩).mpr ⟨hsafe, trivial, trivial⟩

/-- After `add_rule` used the pin. -/
def domainOnPin : Gateway :=
  { pinnedGateway with
    model := { pinnedGateway.model with
      rules := [[("inbound", .arr [.str "tg-proxy"]), ("outbound", .str "tokyo"),
        ("domain_suffix", .arr [.str "example.com"])]] }
    hijack := ["example.com"] }

/-- After the pin was taken away. -/
def domainGone : Gateway :=
  { domainOnPin with model := { domainOnPin.model with rules := [] } }

/-- `add_rule` puts the domain on the pin, and `set_tg_exit` loses it with the pin. -/
theorem added_domain_lost :
    Apart pinnedGateway.model.rules ∧
      Runs.IsRun (Commits plainHost) pinnedGateway
        [(.addRule "example.com" "tokyo", domainOnPin), (.setTgExit "", domainGone)] ∧
      Pair domainOnPin.model.rules (.str "example.com") (.str "tokyo") ∧
      ¬ Pair domainGone.model.rules (.str "example.com") (.str "tokyo") ∧
      ¬ Runs.AllSteps Independent pinnedGateway
        [(.addRule "example.com" "tokyo", domainOnPin), (.setTgExit "", domainGone)] := by
  have hadd : addRule plainHost "example.com" "tokyo" pinnedGateway = .ok domainOnPin := by rfl
  have hset : setTgExit "" domainOnPin = .ok domainGone := by rfl
  refine ⟨pinnedGateway_apart, ⟨hadd, hset, trivial⟩, ?_, ?_, ?_⟩
  · exact ⟨_, List.mem_singleton.mpr rfl, by decide, by decide, by decide⟩
  · rintro ⟨r, hr, -⟩
    simp [domainGone] at hr
  · rintro ⟨hi, -⟩
    have hp := hi.apart _ (List.mem_singleton.mpr rfl) (by decide)
    exact absurd hp (by decide)

end ProxyGateway.Route
