import ProxyGateway.Route.OperationCases
import ProxyGateway.Route.Import

set_option autoImplicit false

/-!
# ProxyGateway.Route.Listed

Which domains a list of rules sends where (`Listed`), and how each operation changes that:
deletions take out exactly the named domains (`Drops`), additions add at most one pair,
and merging the rules for one exit changes nothing.
-/

namespace ProxyGateway.Route

open Rule

variable {domain target key : String} {r r' : Rule} {rules rules' : List Rule} {o d : Json}

/-- Some rule for the outbound lists the domain. -/
def Listed (rules : List Rule) (o d : Json) : Prop :=
  ∃ r ∈ rules, r.outbound = o ∧ d ∈ r.domains

@[simp] theorem not_listed_nil : ¬ Listed [] o d := by
  simp [Listed]

@[simp] theorem listed_cons :
    Listed (r :: rules) o d ↔ (r.outbound = o ∧ d ∈ r.domains) ∨ Listed rules o d := by
  simp [Listed]

@[simp] theorem listed_append :
    Listed (rules ++ rules') o d ↔ Listed rules o d ∨ Listed rules' o d := by
  simp [Listed, or_and_right, exists_or]

theorem Listed.mono (h : Listed rules o d) (hs : ∀ r ∈ rules, r ∈ rules') :
    Listed rules' o d := by
  obtain ⟨r, hr, ho, hd⟩ := h
  exact ⟨r, hs r hr, ho, hd⟩

/-! ### The entries of one key -/

/-- A text that is not found is not among the entries. -/
theorem not_mem_entries {v : Json} (h : v.has (ε := Refusal) domain = .ok false) :
    .str domain ∉ v.entries := by
  cases v with
  | arr xs => simpa [Json.has, Json.entries] using h
  | obj kvs =>
      simp only [Json.has, Except.ok.injEq, decide_eq_false_iff_not] at h
      simpa [Json.entries] using h
  | str s =>
      simp only [Json.has, Except.ok.injEq, decide_eq_false_iff_not] at h
      simp only [Json.entries, Json.chars, List.mem_map, not_exists, not_and]
      intro c hc he
      obtain ⟨xs, ys, hs⟩ := List.append_of_mem hc
      refine h ⟨xs, ys, ?_⟩
      rw [hs, ← Json.str.inj he]
      simp
  | _ => simp [Json.has] at h

/-- `r'` is `r` without the domains under `key` that `p` refuses. -/
structure DropsAt (p : Json → Bool) (key : String) (r r' : Rule) : Prop where
  field : ∀ k, k ≠ key → r'.field k = r.field k
  mem : ∀ d, d ∈ (r'.field key).entries ↔ d ∈ (r.field key).entries ∧ p d = true

/-- `r'` is `r` without the domains that `p` refuses. -/
structure Drops (p : Json → Bool) (r r' : Rule) : Prop where
  outbound : r'.outbound = r.outbound
  mem : ∀ d, d ∈ r'.domains ↔ d ∈ r.domains ∧ p d = true

theorem DropsAt.both {p : Json → Bool} {r₁ : Rule} (h : DropsAt p "domain_suffix" r r₁)
    (h' : DropsAt p "domain" r₁ r') : Drops p r r' := by
  refine ⟨(h'.field _ (by decide)).trans (h.field _ (by decide)), fun d => ?_⟩
  simp only [domains, entries_listed, List.mem_append]
  rw [h'.field "domain_suffix" (by decide), h.mem, h'.mem, h.field "domain" (by decide)]
  tauto

theorem dropsAt_refl {p : Json → Bool} (h : ∀ d ∈ (r.field key).entries, p d = true) :
    DropsAt p key r r :=
  ⟨fun _ _ => rfl, fun d => ⟨fun hd => ⟨hd, h d hd⟩, fun hd => hd.1⟩⟩

theorem dropsAt_set {p : Json → Bool} :
    DropsAt p key r (r.set key (.arr ((r.field key).entries.filter p))) := by
  refine ⟨fun k hk => field_set_ne (Ne.symm hk) _ _, fun d => ?_⟩
  simp [Json.entries]

/-- What `del_rule` and `patch_rule` leave in. -/
def isNot (domain : String) (d : Json) : Bool := decide (d ≠ .str domain)

theorem dropFrom_drops (h : dropFrom domain r key = .ok r') : DropsAt (isNot domain) key r r' := by
  rw [dropFrom_eq h]
  exact dropsAt_set

theorem strike_drops (h : strike domain r = .ok r') : Drops (isNot domain) r r' := by
  have drops : ∀ {key} {r r' : Rule}, strikeKey domain r key = .ok r' →
      DropsAt (isNot domain) key r r' := by
    intro key r r' h
    rcases strikeKey_cases h with ⟨hn, rfl⟩ | ⟨-, h⟩
    · refine dropsAt_refl (fun d hd => ?_)
      rw [isNot, decide_eq_true_eq]
      intro he
      rw [← entries_listed, he] at hd
      exact not_mem_entries hn hd
    · exact dropFrom_drops h
  obtain ⟨r₁, h₁, h₂⟩ := Py.bind_eq_ok.mp h
  exact (drops h₁).both (drops h₂)

/-- What `del_rules_bulk` leaves in. -/
def notAmong (domains : List String) (d : Json) : Bool := !d.str?.any (· ∈ domains)

/-- A loop that marks the elements of a set, and what is left unmarked. -/
theorem filter_marks {domains : List String} {ds : List Json} {marks : List Bool}
    (h : ds.mapM (Json.within (ε := Refusal) domains) = .ok marks) :
    ((ds.zip marks).filter (fun p => !p.2)).map Prod.fst = ds.filter (notAmong domains) := by
  have hm := Py.mapM_forall₂ h
  clear h
  induction hm with
  | nil => rfl
  | @cons d b ds marks hb _ ih =>
      have hn : notAmong domains d = !b := by
        cases d with
        | str s => simpa [Json.within, notAmong, Json.str?] using hb
        | arr xs => simp [Json.within] at hb
        | obj kvs => simp [Json.within] at hb
        | _ => simpa [Json.within, notAmong, Json.str?] using hb
      rw [List.zip_cons_cons, List.filter_cons, List.filter_cons, hn]
      cases b with
      | true => simpa using ih
      | false => simpa using ih

theorem strikeSet_drops {domains : List String} (h : strikeSet domains r = .ok r') :
    Drops (notAmong domains) r r' := by
  have drops : ∀ {key} {r r' : Rule}, strikeKeySet domains r key = .ok r' →
      DropsAt (notAmong domains) key r r' := by
    intro key r r' h
    unfold strikeKeySet at h
    split at h
    · obtain ⟨ds, hds, h⟩ := Py.bind_eq_ok.mp h
      obtain ⟨marks, hm, h⟩ := Py.bind_eq_ok.mp h
      rw [← Py.pure_eq_ok.mp h, filter_marks hm, Json.items_eq_ok hds]
      exact dropsAt_set
    · next ht =>
        rw [← Py.pure_eq_ok.mp h]
        refine dropsAt_refl (fun d hd => ?_)
        rw [entries_eq_nil (by simpa using ht)] at hd
        simp at hd
  obtain ⟨r₁, h₁, h₂⟩ := Py.bind_eq_ok.mp h
  exact (drops h₁).both (drops h₂)

theorem patchOne_drops {p : Rule × Bool × Bool} (h : patchOne domain r = .ok p) :
    Drops (isNot domain) r p.1 := by
  have drops : ∀ {key} {r r' : Rule} {b}, patchKey domain r key = .ok (r', b) →
      DropsAt (isNot domain) key r r' := by
    intro key r r' b h
    unfold patchKey at h
    obtain ⟨c, hc, h⟩ := Py.bind_eq_ok.mp h
    cases c with
    | true =>
        obtain ⟨r₁, h₁, h⟩ := Py.bind_eq_ok.mp h
        rw [← (Prod.mk.inj (Py.pure_eq_ok.mp h)).1]
        exact dropFrom_drops h₁
    | false =>
        rw [← (Prod.mk.inj (Py.pure_eq_ok.mp h)).1]
        refine dropsAt_refl (fun d hd => ?_)
        rw [isNot, decide_eq_true_eq]
        intro he
        rw [he] at hd
        unfold listedOr at hc
        split at hc
        · exact not_mem_entries hc hd
        · next ht =>
            rw [entries_eq_nil (by simpa using ht)] at hd
            simp at hd
  obtain ⟨⟨r₁, b₁⟩, h₁, h⟩ := Py.bind_eq_ok.mp h
  obtain ⟨⟨r₂, b₂⟩, h₂, h⟩ := Py.bind_eq_ok.mp h
  rw [← Py.pure_eq_ok.mp h]
  exact (drops h₁).both (drops h₂)

/-! ### Deletions -/

/-- The clean-up takes out rules without domains only. -/
theorem listed_cleanUp : Listed (cleanUp rules) o d ↔ Listed rules o d := by
  constructor
  · intro h
    exact h.mono (fun r hr => List.mem_of_mem_filter hr)
  · intro h
    obtain ⟨r, hr, ho, hd⟩ := h
    refine ⟨r, List.mem_filter.mpr ⟨hr, ?_⟩, ho, hd⟩
    by_contra hk
    have hn : r.hasDomains = false := by
      by_contra hh
      simp only [Bool.not_eq_false] at hh
      exact hk (by simp [keeps, hh])
    simp [domains_eq_nil hn] at hd

theorem listed_drops {p : Json → Bool} (h : List.Forall₂ (Drops p) rules rules') :
    Listed rules' o d ↔ Listed rules o d ∧ p d = true := by
  induction h with
  | nil => simp
  | cons hr _ ih =>
      rw [listed_cons, listed_cons, ih, hr.outbound, hr.mem]
      tauto

/-! ### Additions -/

theorem listed_insertFirst :
    Listed (insertFirst r rules) o d ↔ (r.outbound = o ∧ d ∈ r.domains) ∨ Listed rules o d := by
  obtain ⟨xs, ys, hr, hi⟩ := insertFirst_split r rules
  rw [hi, hr, listed_append, listed_cons, listed_append]
  tauto

theorem newRule_outbound (hk : IsDomainKey key) :
    Rule.outbound (newRule key domain target) = .str target := by
  rcases hk with rfl | rfl <;> simp [newRule, outbound, field, Dict.get?]

theorem mem_newRule_domains (hk : IsDomainKey key) :
    d ∈ Rule.domains (newRule key domain target) ↔ d = .str domain := by
  rcases hk with rfl | rfl <;> simp [newRule, domains, listed, Dict.get?, Json.entries]

theorem addSuffix_domains (h : addSuffix domain r = .ok r') (hd : d ∈ r'.domains) :
    d ∈ r.domains ∨ d = .str domain := by
  obtain ⟨v, hr, hl, hv⟩ := addSuffix_cases h
  have hdom : r'.listed "domain" = r.listed "domain" := by
    rcases hr with rfl | rfl
    · rfl
    · exact listed_set_ne (by decide) _ _
  rw [domains, hl, hdom, List.mem_append] at hd
  rw [domains, List.mem_append]
  rcases hv with ⟨-, rfl⟩ | ⟨ds, hds, rfl⟩
  · exact .inl hd
  · rw [hds]
    simp only [Json.entries, List.mem_append, List.mem_singleton] at hd ⊢
    tauto

theorem addSuffix_outbound (h : addSuffix domain r = .ok r') : r'.outbound = r.outbound := by
  obtain ⟨v, hr, -, -⟩ := addSuffix_cases h
  rcases hr with rfl | rfl
  · rfl
  · exact field_set_ne (by decide) _ _

theorem takesDomain_outbound (h : rules.find? (takesDomain target) = some r) :
    r.outbound = .str target := by
  have := List.find?_some h
  simp only [takesDomain, Bool.and_eq_true, decide_eq_true_eq] at this
  exact this.1

/-- `add_rule` adds at most the pair it is asked for. -/
theorem listed_addDomain (h : addDomain domain target rules = .ok rules')
    (hl : Listed rules' o d) : Listed rules o d ∨ (o = .str target ∧ d = .str domain) := by
  rcases addDomain_cases h with ⟨-, rfl⟩ | ⟨xs, r, ys, r', rfl, hf, ha, -, rfl⟩
  · rw [listed_insertFirst, newRule_outbound (.inl rfl), mem_newRule_domains (.inl rfl)] at hl
    tauto
  · rw [listed_append, listed_cons] at hl ⊢
    rcases hl with hl | ⟨ho, hd⟩ | hl
    · exact .inl (.inl hl)
    · rw [addSuffix_outbound ha] at ho
      rcases addSuffix_domains ha hd with hd | hd
      · exact .inl (.inr (.inl ⟨ho, hd⟩))
      · exact .inr ⟨ho.symm.trans (takesDomain_outbound hf), hd⟩
    · exact .inl (.inr (.inr hl))

theorem takesPatched_outbound (h : rules.find? (takesPatched target key) = some r) :
    r.outbound = .str target := by
  have := List.find?_some h
  simp only [takesPatched, Bool.and_eq_true, decide_eq_true_eq] at this
  exact this.1.1

/-- One more domain under a domain key. -/
theorem mem_domains_set {ds : List Json} (hk : IsDomainKey key) (hf : r.field key = .arr ds)
    (hd : d ∈ Rule.domains (r.set key (.arr (ds ++ [.str domain])))) :
    d ∈ r.domains ∨ d = .str domain := by
  have hl : (r.listed key).entries = ds := by
    rw [entries_listed, hf]
    rfl
  rcases hk with rfl | rfl
  · rw [domains, listed_set_self, listed_set_ne (by decide)] at hd
    rw [domains, hl]
    simp only [Json.entries, List.mem_append, List.mem_singleton] at hd ⊢
    tauto
  · rw [domains, listed_set_self, listed_set_ne (by decide)] at hd
    rw [domains, hl]
    simp only [Json.entries, List.mem_append, List.mem_singleton] at hd ⊢
    tauto

/-- `patch_rule` adds at most the pair it is asked for. -/
theorem listed_patchInto {rest : Option (List Rule)} (hk : IsDomainKey key)
    (h : patchInto domain target key rules = .ok rest)
    (hl : Listed (rest.getD (insertFirst (newRule key domain target) rules)) o d) :
    Listed rules o d ∨ (o = .str target ∧ d = .str domain) := by
  rcases patchInto_cases h with ⟨rfl, -⟩ | ⟨xs, r, ys, r', rfl, hf, -, rfl, hr⟩
  · rw [Option.getD_none, listed_insertFirst, newRule_outbound hk, mem_newRule_domains hk] at hl
    tauto
  · rw [Option.getD_some, listed_append, listed_cons] at hl
    rw [listed_append, listed_cons]
    rcases hl with hl | ⟨ho, hd⟩ | hl
    · exact .inl (.inl hl)
    · rcases hr with ⟨-, rfl⟩ | ⟨ds, hds, rfl⟩
      · exact .inl (.inr (.inl ⟨ho, hd⟩))
      · have hne : key ≠ "outbound" := by rcases hk with rfl | rfl <;> decide
        have ho' : r.outbound = o := (field_set_ne hne _ _).symm.trans ho
        rcases mem_domains_set hk hds hd with hd | hd
        · exact .inl (.inr (.inl ⟨ho', hd⟩))
        · exact .inr ⟨ho'.symm.trans (takesPatched_outbound hf), hd⟩
    · exact .inl (.inr (.inr hl))

/-! ### Merging -/

theorem absorbKey_mem {base base' : Rule} (h : absorbKey r base key = .ok base') :
    d ∈ (base'.listed key).entries ↔
      d ∈ (base.listed key).entries ∨ d ∈ (r.listed key).entries := by
  unfold absorbKey at h
  split at h
  · split at h
    · next held hb =>
        obtain ⟨ds, hds, h⟩ := Py.bind_eq_ok.mp h
        rw [← Py.pure_eq_ok.mp h, listed_set_self, hb, Json.items_eq_ok hds, entries_listed r]
        simp only [Json.entries, List.mem_append, List.mem_filter, decide_eq_true_eq]
        tauto
    · simp at h
  · next ht =>
      have hr : (r.field key).entries = [] := entries_eq_nil (by simpa using ht)
      rw [← Py.pure_eq_ok.mp h, entries_listed r, hr]
      simp

theorem absorb_domains {base base' : Rule} (h : absorb r base = .ok base') :
    d ∈ base'.domains ↔ d ∈ base.domains ∨ d ∈ r.domains := by
  obtain ⟨b, hb, h⟩ := Py.bind_eq_ok.mp h
  have hs : (base'.listed "domain_suffix").entries = (b.listed "domain_suffix").entries := by
    rw [entries_listed, entries_listed, (absorbKey_frame h (by decide)).1]
  have hx : (b.listed "domain").entries = (base.listed "domain").entries := by
    rw [entries_listed, entries_listed, (absorbKey_frame hb (by decide)).1]
  simp only [domains, List.mem_append]
  rw [hs, absorbKey_mem hb, absorbKey_mem h, hx]
  tauto

/-- Merging the rules for one exit moves domains between rules for that exit only. -/
theorem listed_mergeDomainRules {out : List Rule} (h : mergeDomainRules out rules = .ok rules') :
    Listed rules' o d ↔ Listed (out ++ rules) o d := by
  induction rules generalizing out with
  | nil => rw [← Py.pure_eq_ok.mp h, List.append_nil]
  | cons r rules ih =>
      rcases mergeDomainRules_cons h with h | ⟨xs, base, ys, base', rfl, -, -, ho, hab, h⟩
      · rw [ih h, ← List.append_cons]
      · rw [ih h]
        have ho' : base'.outbound = base.outbound :=
          absorb_field hab (by simp [IsDomainKey])
        simp only [listed_append, listed_cons, absorb_domains hab, ho', ho]
        tauto

/-! ### Other targets -/

theorem domains_set_of_ne (hk : ¬ IsDomainKey key) (v : Json) :
    Rule.domains (r.set key v) = r.domains := by
  have hne : key ≠ "domain_suffix" ∧ key ≠ "domain" :=
    ⟨fun he => hk (.inl he), fun he => hk (.inr he)⟩
  rw [domains, domains, listed_set_ne hne.1, listed_set_ne hne.2]

theorem domains_set_outbound (v : Json) : Rule.domains (r.set "outbound" v) = r.domains :=
  domains_set_of_ne (by simp [IsDomainKey]) v

theorem listed_retargetRules {name : String} (h : Listed (retargetRules name target rules) o d) :
    Listed rules o d := by
  obtain ⟨r, hr, ho, hd⟩ := h
  unfold retargetRules at hr
  split at hr
  · exact ⟨r, List.mem_of_mem_filter hr, ho, hd⟩
  · rcases (List.mem_insertIdx (Nat.min_le_right _ _)).mp hr with rfl | hr
    · simp [domains, listed, Dict.get?, Json.entries] at hd
    · exact ⟨r, List.mem_of_mem_filter hr, ho, hd⟩

end ProxyGateway.Route
