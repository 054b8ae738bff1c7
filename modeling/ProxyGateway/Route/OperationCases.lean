import ProxyGateway.Route.Operations

set_option autoImplicit false

/-!
# ProxyGateway.Route.OperationCases

What a committed operation has done: one inversion lemma for each operation and for each
of the loops it is made of. The invariants are read off these, not off the operations.
-/

namespace ProxyGateway.Route

variable {H : Host} {g g' : Gateway} {domain target key : String} {r r' : Rule}
  {rules rules' : List Rule}

/-! ### Rewriting single rules -/

open Rule

theorem dropFrom_eq (h : dropFrom domain r key = .ok r') :
    r' = r.set key (.arr ((r.field key).entries.filter (fun d => d ≠ .str domain))) := by
  unfold dropFrom at h
  obtain ⟨ds, hds, h⟩ := Py.bind_eq_ok.mp h
  rw [Json.items_eq_ok hds] at h
  exact (Py.pure_eq_ok.mp h).symm

/-- Filtering the entries of a key leaves nothing where nothing was. -/
theorem fewer_filter (hk : IsDomainKey key) (r : Rule) (ds : List Json)
    (h : ds ≠ [] → (r.field key).entries ≠ []) : Fewer r (r.set key (.arr ds)) := by
  refine fewer_set hk (fun ht => ?_)
  have hne : ds ≠ [] := by
    rintro rfl
    simp [Json.truthy] at ht
  exact Json.truthy_of_entries (h hne)

theorem dropFrom_fewer (hk : IsDomainKey key) (h : dropFrom domain r key = .ok r') :
    Fewer r r' := by
  rw [dropFrom_eq h]
  refine fewer_filter hk r _ (fun hne he => hne ?_)
  rw [he, List.filter_nil]

theorem strikeKey_cases (h : strikeKey domain r key = .ok r') :
    ((r.listed key).has (ε := Refusal) domain = .ok false ∧ r' = r) ∨
      ((r.listed key).has (ε := Refusal) domain = .ok true ∧ dropFrom domain r key = .ok r') := by
  unfold strikeKey at h
  obtain ⟨b, hb, h⟩ := Py.bind_eq_ok.mp h
  cases b with
  | false => exact .inl ⟨hb, (Py.pure_eq_ok.mp h).symm⟩
  | true => exact .inr ⟨hb, h⟩

theorem strikeKey_fewer (hk : IsDomainKey key) (h : strikeKey domain r key = .ok r') :
    Fewer r r' := by
  rcases strikeKey_cases h with ⟨-, rfl⟩ | ⟨-, h⟩
  · exact Fewer.refl r'
  · exact dropFrom_fewer hk h

theorem strike_fewer (h : strike domain r = .ok r') : Fewer r r' := by
  obtain ⟨r₁, h₁, h₂⟩ := Py.bind_eq_ok.mp h
  exact (strikeKey_fewer (.inl rfl) h₁).trans (strikeKey_fewer (.inr rfl) h₂)

theorem strikeKeySet_fewer {domains : List String} (hk : IsDomainKey key)
    (h : strikeKeySet domains r key = .ok r') : Fewer r r' := by
  unfold strikeKeySet at h
  split at h
  · obtain ⟨ds, hds, h⟩ := Py.bind_eq_ok.mp h
    obtain ⟨marks, -, h⟩ := Py.bind_eq_ok.mp h
    rw [← Py.pure_eq_ok.mp h, Json.items_eq_ok hds]
    refine fewer_filter hk r _ (fun hne he => hne ?_)
    rw [he, List.zip_nil_left, List.filter_nil, List.map_nil]
  · rw [← Py.pure_eq_ok.mp h]
    exact Fewer.refl r

theorem strikeSet_fewer {domains : List String} (h : strikeSet domains r = .ok r') :
    Fewer r r' := by
  obtain ⟨r₁, h₁, h₂⟩ := Py.bind_eq_ok.mp h
  exact (strikeKeySet_fewer (.inl rfl) h₁).trans (strikeKeySet_fewer (.inr rfl) h₂)

theorem patchKey_fewer {b : Bool} (hk : IsDomainKey key) (h : patchKey domain r key = .ok (r', b)) :
    Fewer r r' := by
  unfold patchKey at h
  obtain ⟨c, -, h⟩ := Py.bind_eq_ok.mp h
  cases c with
  | false =>
      have he := Py.pure_eq_ok.mp h
      rw [← (Prod.mk.inj he).1]
      exact Fewer.refl r
  | true =>
      obtain ⟨r₁, h₁, h⟩ := Py.bind_eq_ok.mp h
      have he := Py.pure_eq_ok.mp h
      rw [← (Prod.mk.inj he).1]
      exact dropFrom_fewer hk h₁

theorem patchOne_fewer {p : Rule × Bool × Bool} (h : patchOne domain r = .ok p) :
    Fewer r p.1 := by
  obtain ⟨⟨r₁, b₁⟩, h₁, h⟩ := Py.bind_eq_ok.mp h
  obtain ⟨⟨r₂, b₂⟩, h₂, h⟩ := Py.bind_eq_ok.mp h
  rw [← Py.pure_eq_ok.mp h]
  exact (patchKey_fewer (.inl rfl) h₁).trans (patchKey_fewer (.inr rfl) h₂)

/-! ### Putting a rule in -/

theorem insertFirst_split (r : Rule) (rules : List Rule) :
    ∃ xs ys, rules = xs ++ ys ∧ insertFirst r rules = xs ++ r :: ys := by
  cases rules with
  | nil => exact ⟨[], [], rfl, rfl⟩
  | cons x rules =>
      by_cases hx : x.field "action" = .str "reject"
      · exact ⟨[x], rules, rfl, by simp [insertFirst, hx]⟩
      · exact ⟨[], x :: rules, rfl, by simp [insertFirst, hx]⟩

theorem addToRule_cases {o : Option (List Rule)} (h : addToRule domain target rules = .ok o) :
    (o = none ∧ rules.find? (takesDomain target) = none) ∨
      ∃ xs r ys r', rules = xs ++ r :: ys ∧ rules.find? (takesDomain target) = some r ∧
        addSuffix domain r = .ok r' ∧ (∀ x ∈ xs, takesDomain target x = false) ∧
        o = some (xs ++ r' :: ys) := by
  induction rules generalizing o with
  | nil => exact .inl ⟨(Py.pure_eq_ok.mp h).symm, rfl⟩
  | cons x rules ih =>
      unfold addToRule at h
      split at h
      · next hx =>
          obtain ⟨r', hr, h⟩ := Py.bind_eq_ok.mp h
          exact .inr ⟨[], x, rules, r', rfl, by simp [hx], hr, List.forall_mem_nil _,
            (Py.pure_eq_ok.mp h).symm⟩
      · next hx =>
          obtain ⟨o', ho, h⟩ := Py.bind_eq_ok.mp h
          have hx' : takesDomain target x = false := by simpa using hx
          rcases ih ho with ⟨rfl, hf⟩ | ⟨xs, r, ys, r', rfl, hf, hr, hxs, rfl⟩
          · exact .inl ⟨(Py.pure_eq_ok.mp h).symm, by simp [hx', hf]⟩
          · exact .inr ⟨x :: xs, r, ys, r', rfl, by simpa [hx'] using hf, hr,
              List.forall_mem_cons.mpr ⟨hx', hxs⟩, (Py.pure_eq_ok.mp h).symm⟩

/-- The new rule that `add_rule` and `patch_rule` make. -/
def newRule (key domain target : String) : Rule :=
  [(key, .arr [.str domain]), ("outbound", .str target)]

theorem addDomain_cases (h : addDomain domain target rules = .ok rules') :
    (rules.find? (takesDomain target) = none ∧
        rules' = insertFirst (newRule "domain_suffix" domain target) rules) ∨
      ∃ xs r ys r', rules = xs ++ r :: ys ∧ rules.find? (takesDomain target) = some r ∧
        addSuffix domain r = .ok r' ∧ (∀ x ∈ xs, takesDomain target x = false) ∧
        rules' = xs ++ r' :: ys := by
  unfold addDomain at h
  obtain ⟨o, ho, h⟩ := Py.bind_eq_ok.mp h
  rcases addToRule_cases ho with ⟨rfl, hf⟩ | ⟨xs, r, ys, r', rfl, hf, hr, hxs, rfl⟩
  · exact .inl ⟨hf, (Py.pure_eq_ok.mp h).symm⟩
  · exact .inr ⟨xs, r, ys, r', rfl, hf, hr, hxs, (Py.pure_eq_ok.mp h).symm⟩

/-- What `add_rule` does to the rule it uses: only `domain_suffix` is written, and what it
reads afterwards is what it read before, with the domain at its end if it was not there. -/
theorem addSuffix_cases (h : addSuffix domain r = .ok r') :
    ∃ v, (r' = r ∨ r' = r.set "domain_suffix" v) ∧ r'.listed "domain_suffix" = v ∧
      (((r.listed "domain_suffix").has (ε := Refusal) domain = .ok true ∧
          v = r.listed "domain_suffix") ∨
        ∃ ds, r.listed "domain_suffix" = .arr ds ∧ v = .arr (ds ++ [.str domain])) := by
  unfold addSuffix at h
  set held := r.listed "domain_suffix" with hheld
  obtain ⟨b, hb, h⟩ := Py.bind_eq_ok.mp h
  cases b with
  | true =>
      have he := Py.pure_eq_ok.mp h
      refine ⟨held, ?_, ?_, .inl ⟨hb, rfl⟩⟩
      · split at he
        · exact .inl he.symm
        · exact .inr he.symm
      · split at he
        · rw [← he]
        · rw [← he, Rule.listed_set_self]
  | false =>
      obtain ⟨v, hv, h⟩ := Py.bind_eq_ok.mp h
      have he := Py.pure_eq_ok.mp h
      have hset : r' = r.set "domain_suffix" v := by
        rw [← he]
        split
        · rfl
        · exact Dict.set_set _ _ _ _
      refine ⟨v, .inr hset, by rw [hset, Rule.listed_set_self], .inr ?_⟩
      cases hl : held with
      | arr ds =>
          rw [hl] at hv
          exact ⟨ds, rfl, (Except.ok.inj hv).symm⟩
      | _ =>
          rw [hl] at hv
          simp [Json.append] at hv

theorem takesDomain_iff : takesDomain target r = true ↔ r.outbound = .str target ∧ r.contains "rule_set" = false := by
  rw [takesDomain, Bool.and_eq_true, decide_eq_true_eq, Bool.not_eq_true']

theorem listed_of_field_str {s : String} (h : r.listed key = .str s) : Dict.get? r key = some (.str s) := by
  unfold listed at h
  cases hg : Dict.get? r key with
  | none => simp [hg] at h
  | some v => simpa [hg] using h

/-- What has the domain and is no text lists it. -/
theorem mem_of_has {v : Json} (h : v.has (ε := Refusal) domain = .ok true) (hs : v.str? = none) :
    Json.str domain ∈ v.entries := by
  cases v with
  | arr xs => simpa [Json.has, Json.entries] using h
  | obj kvs =>
      simp only [Json.has, Except.ok.injEq, decide_eq_true_eq] at h
      obtain ⟨p, hp, rfl⟩ := List.mem_map.mp h
      exact List.mem_map.mpr ⟨p, hp, rfl⟩
  | str s => simp [Json.str?] at hs
  | _ => simp [Json.has] at h

/-- A rule whose suffixes are no text lists the domain after it has taken it. -/
theorem mem_addSuffix (h : addSuffix domain r = .ok r') (hs : (r.field "domain_suffix").str? = none) :
    Json.str domain ∈ (r'.listed "domain_suffix").entries := by
  obtain ⟨v, -, hl, ⟨hhas, rfl⟩ | ⟨ds, -, rfl⟩⟩ := addSuffix_cases h
  · rw [hl]
    refine mem_of_has hhas ?_
    cases hv : r.listed "domain_suffix" with
    | str s => simp [field, listed_of_field_str hv, Json.str?] at hs
    | _ => rfl
  · simp [hl, Json.entries]

theorem takesDomain_addSuffix (h : addSuffix domain r = .ok r') (ht : takesDomain target r = true) :
    takesDomain target r' = true := by
  obtain ⟨v, rfl | rfl, -, -⟩ := addSuffix_cases h
  · exact ht
  · rw [takesDomain_iff] at ht ⊢
    exact ⟨(field_set_ne (by decide) r v).trans ht.1, (contains_set_ne (by decide) r v).trans ht.2⟩

/-- A text that holds the domain stays as it is. -/
theorem addSuffix_text (h : addSuffix domain r = .ok r') (hs : (r.field "domain_suffix").str?.isSome = true) :
    r' = r := by
  have hget : ∃ s, Dict.get? r "domain_suffix" = some (.str s) := by
    unfold field at hs
    cases hg : Dict.get? r "domain_suffix" with
    | none => simp [hg, Json.str?] at hs
    | some v =>
        cases v with
        | str s => exact ⟨s, rfl⟩
        | _ => simp [hg, Json.str?] at hs
  obtain ⟨s, hget⟩ := hget
  have hlisted : r.listed "domain_suffix" = .str s := by simp [listed, hget]
  obtain ⟨v, hr', -, ⟨-, rfl⟩ | ⟨ds, hds, -⟩⟩ := addSuffix_cases h
  · rcases hr' with rfl | rfl
    · rfl
    · rw [hlisted, Dict.set_of_get? hget]
  · rw [hlisted] at hds
    cases hds

/-- The renderer makes a line of each domain that is put in the rule under the key. -/
def Rule.plainAt (key : String) (r : Rule) : Bool :=
  decide (r.field "action" ≠ .str "reject") && (r.field key).str?.isNone

theorem patchInto_cases {o : Option (List Rule)} (h : patchInto domain target key rules = .ok o) :
    (o = none ∧ rules.find? (takesPatched target key) = none) ∨
      ∃ xs r ys r', rules = xs ++ r :: ys ∧ rules.find? (takesPatched target key) = some r ∧
        (∀ x ∈ xs, takesPatched target key x = false) ∧ o = some (xs ++ r' :: ys) ∧
        (((r.field key).has (ε := Refusal) domain = .ok true ∧ r' = r) ∨
          ∃ ds, r.field key = .arr ds ∧ r' = r.set key (.arr (ds ++ [.str domain]))) := by
  induction rules generalizing o with
  | nil => exact .inl ⟨(Py.pure_eq_ok.mp h).symm, rfl⟩
  | cons x rules ih =>
      unfold patchInto at h
      split at h
      · next hx =>
          obtain ⟨b, hb, h⟩ := Py.bind_eq_ok.mp h
          cases b with
          | true =>
              exact .inr ⟨[], x, rules, x, rfl, by simp [hx], List.forall_mem_nil _,
                (Py.pure_eq_ok.mp h).symm, .inl ⟨hb, rfl⟩⟩
          | false =>
              obtain ⟨v, hv, h⟩ := Py.bind_eq_ok.mp h
              refine .inr ⟨[], x, rules, x.set key v, rfl, by simp [hx], List.forall_mem_nil _,
                (Py.pure_eq_ok.mp h).symm, .inr ?_⟩
              cases hl : x.field key with
              | arr ds =>
                  rw [hl] at hv
                  exact ⟨ds, rfl, by rw [Except.ok.inj hv]⟩
              | _ =>
                  rw [hl] at hv
                  simp [Json.append] at hv
      · next hx =>
          obtain ⟨o', ho, h⟩ := Py.bind_eq_ok.mp h
          have hx' : takesPatched target key x = false := by simpa using hx
          rcases ih ho with ⟨rfl, hf⟩ | ⟨xs, r, ys, r', rfl, hf, hxs, rfl, hr⟩
          · exact .inl ⟨(Py.pure_eq_ok.mp h).symm, by simp [hx', hf]⟩
          · exact .inr ⟨x :: xs, r, ys, r', rfl, by simpa [hx'] using hf,
              List.forall_mem_cons.mpr ⟨hx', hxs⟩, (Py.pure_eq_ok.mp h).symm, hr⟩

/-! ### Merging -/

/-- A rule that is no pin takes domains over from another one and stays no pin. -/
theorem absorbKey_frame {base base' : Rule} (h : absorbKey r base key = .ok base') {k : String}
    (hk : key ≠ k) : base'.field k = base.field k ∧ base'.contains k = base.contains k := by
  unfold absorbKey at h
  split at h
  · split at h
    · obtain ⟨ds, -, h⟩ := Py.bind_eq_ok.mp h
      rw [← Py.pure_eq_ok.mp h]
      exact ⟨field_set_ne hk _ _, contains_set_ne hk _ _⟩
    · simp at h
  · rw [← Py.pure_eq_ok.mp h]
    exact ⟨rfl, rfl⟩

theorem absorb_field {base base' : Rule} (h : absorb r base = .ok base') {k : String}
    (hk : ¬ IsDomainKey k) : base'.field k = base.field k := by
  have hne : "domain_suffix" ≠ k ∧ "domain" ≠ k :=
    ⟨fun he => hk (.inl he.symm), fun he => hk (.inr he.symm)⟩
  obtain ⟨b, hb, h⟩ := Py.bind_eq_ok.mp h
  exact (absorbKey_frame h hne.2).1.trans (absorbKey_frame hb hne.1).1

theorem absorbInto_cases {out : List Rule} {o : Option (List Rule)}
    (h : absorbInto r out = .ok o) :
    o = none ∨ ∃ xs base ys base', out = xs ++ base :: ys ∧ mergeable base = true ∧
      base.outbound = r.outbound ∧ absorb r base = .ok base' ∧ o = some (xs ++ base' :: ys) := by
  induction out generalizing o with
  | nil => exact .inl (Py.pure_eq_ok.mp h).symm
  | cons b out ih =>
      unfold absorbInto at h
      split at h
      · next hb =>
          simp only [Bool.and_eq_true, decide_eq_true_eq] at hb
          obtain ⟨b', hb', h⟩ := Py.bind_eq_ok.mp h
          exact .inr ⟨[], b, out, b', rfl, hb.1, hb.2, hb', (Py.pure_eq_ok.mp h).symm⟩
      · obtain ⟨o', ho, h⟩ := Py.bind_eq_ok.mp h
        rcases ih ho with rfl | ⟨xs, base, ys, base', rfl, hm, he, hb', rfl⟩
        · exact .inl (Py.pure_eq_ok.mp h).symm
        · exact .inr ⟨b :: xs, base, ys, base', rfl, hm, he, hb', (Py.pure_eq_ok.mp h).symm⟩

/-- One turn of `_merge_domain_rules`: the rule is kept, or an earlier one absorbs it. -/
theorem mergeDomainRules_cons {out : List Rule}
    (h : mergeDomainRules out (r :: rules) = .ok rules') :
    mergeDomainRules (out ++ [r]) rules = .ok rules' ∨
      ∃ xs base ys base', out = xs ++ base :: ys ∧ mergeable r = true ∧ mergeable base = true ∧
        base.outbound = r.outbound ∧ absorb r base = .ok base' ∧
        mergeDomainRules (xs ++ base' :: ys) rules = .ok rules' := by
  unfold mergeDomainRules at h
  split at h
  · next hm =>
      split at h
      · simp at h
      · obtain ⟨o, ho, h⟩ := Py.bind_eq_ok.mp h
        rcases absorbInto_cases ho with rfl | ⟨xs, base, ys, base', rfl, hb, he, hb', rfl⟩
        · exact .inl h
        · exact .inr ⟨xs, base, ys, base', rfl, hm, hb, he, hb', h⟩
  · exact .inl h

/-! ### The operations -/

theorem addRule_cases (h : addRule H domain target g = .ok g') :
    looseDomain (canonicalDomain H domain) = true ∧
      (((target = "direct" ∨ target = "直连") ∧
          g' = { g with
            direct := domainText (g.direct ++ [canonicalDomain H domain])
            hijack := domainText (g.hijack.filter (· ≠ canonicalDomain H domain)) }) ∨
        (¬ (target = "direct" ∨ target = "直连") ∧ target ∈ g.model.exitTags ∧
          ∃ rules, addDomain (canonicalDomain H domain) target g.model.rules = .ok rules ∧
            g' = { g with
              model := { g.model with rules := rules }
              hijack := domainText (g.hijack ++ [canonicalDomain H domain]) })) := by
  unfold addRule at h
  simp only at h
  split at h
  · simp at h
  · next hd =>
      refine ⟨by simpa using hd, ?_⟩
      split at h
      · next ht => exact .inl ⟨ht, (Py.pure_eq_ok.mp h).symm⟩
      · next ht =>
          split at h
          · simp at h
          · next he =>
              obtain ⟨rules, hr, h⟩ := Py.bind_eq_ok.mp h
              exact .inr ⟨ht, by simpa using he, rules, hr, (Py.pure_eq_ok.mp h).symm⟩

theorem delRule_cases (h : delRule H domain g = .ok g') :
    g'.direct = domainText (g.direct.filter (· ≠ canonicalDomain H domain)) ∧
      g'.hijack = domainText (g.hijack.filter (· ≠ canonicalDomain H domain)) ∧
      ((mentionedIn (canonicalDomain H domain) g.model.rules = .ok false ∧
          g'.model = g.model) ∨
        (mentionedIn (canonicalDomain H domain) g.model.rules = .ok true ∧
          ∃ rules, g.model.rules.mapM (strike (canonicalDomain H domain)) = .ok rules ∧
            g'.model = { g.model with rules := cleanUp rules })) := by
  unfold delRule at h
  obtain ⟨b, hb, h⟩ := Py.bind_eq_ok.mp h
  cases b with
  | true =>
      obtain ⟨rules', hr, h⟩ := Py.bind_eq_ok.mp h
      obtain ⟨rules, hs, hr⟩ := Py.bind_eq_ok.mp hr
      rw [← Py.pure_eq_ok.mp h, ← Py.pure_eq_ok.mp hr]
      exact ⟨rfl, rfl, .inr ⟨hb, rules, hs, rfl⟩⟩
  | false =>
      simp only [Bool.false_eq_true, if_false] at h
      split at h
      · rw [← Py.pure_eq_ok.mp h]
        exact ⟨rfl, rfl, .inl ⟨hb, rfl⟩⟩
      · simp at h

theorem delRulesBulk_cases {domains : List String} (h : delRulesBulk H domains g = .ok g') :
    ∃ rules, g.model.rules.mapM (strikeSet (selected H domains)) = .ok rules ∧
      g' = { g with
        model := { g.model with rules := cleanUp rules }
        direct := domainText (g.direct.filter (· ∉ selected H domains))
        hijack := domainText (g.hijack.filter (· ∉ selected H domains)) } := by
  unfold delRulesBulk at h
  simp only at h
  split at h
  · simp at h
  · obtain ⟨rules, hr, h⟩ := Py.bind_eq_ok.mp h
    exact ⟨rules, hr, (Py.pure_eq_ok.mp h).symm⟩

theorem setTgExit_cases (h : setTgExit target g = .ok g') :
    g' = { g with model := { g.model with
      rules := if target = "" then g.model.rules.filter (fun r => !r.pinned)
        else insertFirst [("inbound", .arr [.str "tg-proxy"]), ("outbound", .str target)]
          (g.model.rules.filter (fun r => !r.pinned)) } } := by
  unfold setTgExit at h
  simp only at h
  split at h
  · simp at h
  · exact (Py.pure_eq_ok.mp h).symm

theorem patchRules_cases {found : Bool} (h : patchRules domain rules = .ok (rules', found, key)) :
    ∃ patched, rules.mapM (patchOne domain) = .ok patched ∧
      rules' = cleanUp (patched.map Prod.fst) ∧ IsDomainKey key := by
  unfold patchRules at h
  obtain ⟨patched, hp, h⟩ := Py.bind_eq_ok.mp h
  have he := Prod.mk.inj (Py.pure_eq_ok.mp h)
  refine ⟨patched, hp, he.1.symm, ?_⟩
  rw [← (Prod.mk.inj he.2).2]
  split
  · exact .inr rfl
  · exact .inl rfl

theorem patchRule_cases {old value : String} (h : patchRule H old value g = .ok g') :
    ∃ target rules found key, domainRe (canonicalDomain H old) = true ∧
      webTarget H value = .ok target ∧
      patchRules (canonicalDomain H old) g.model.rules = .ok (rules, found, key) ∧
      ((target = "direct" ∧ g' = { g with
          model := { g.model with rules := rules }
          direct := domainText (g.direct.filter (· ≠ canonicalDomain H old) ++
            [canonicalDomain H old])
          hijack := domainText (g.hijack.filter (· ≠ canonicalDomain H old)) }) ∨
        (target ≠ "direct" ∧ target ∈ g.model.exitTags ∧ ∃ o,
          patchInto (canonicalDomain H old) target key rules = .ok o ∧ g' = { g with
            model := { g.model with
              rules := o.getD (insertFirst (newRule key (canonicalDomain H old) target) rules) }
            direct := domainText (g.direct.filter (· ≠ canonicalDomain H old))
            hijack := domainText (g.hijack.filter (· ≠ canonicalDomain H old) ++
              [canonicalDomain H old]) })) := by
  unfold patchRule at h
  simp only at h
  split at h
  · simp at h
  · next hd =>
      obtain ⟨shown, -, h⟩ := Py.bind_eq_ok.mp h
      split at h
      · simp at h
      · obtain ⟨target, ht, h⟩ := Py.bind_eq_ok.mp h
        split at h
        · simp at h
        · next hx =>
            obtain ⟨⟨rules, found, key⟩, hp, h⟩ := Py.bind_eq_ok.mp h
            refine ⟨target, rules, found, key, by simpa using hd, ht, hp, ?_⟩
            split at h
            · simp at h
            · split at h
              · next htd => exact .inl ⟨htd, (Py.pure_eq_ok.mp h).symm⟩
              · next htd =>
                  obtain ⟨o, ho, h⟩ := Py.bind_eq_ok.mp h
                  exact .inr ⟨htd, not_not.mp (fun hn => hx ⟨htd, hn⟩), o, ho,
                    (Py.pure_eq_ok.mp h).symm⟩

theorem setRulesetTarget_cases {name : Json} (h : setRulesetTarget H name target g = .ok g') :
    ∃ n leaf info, name = .str n ∧ (target = "direct" ∨ target ∈ g.model.exitTags) ∧
      g' = { g with
        model := { g.model with
          rules := retargetRules n target g.model.rules
          ruleSets := retargetSets n leaf target g.model.ruleSets }
        rsMeta := info } := by
  unfold setRulesetTarget at h
  simp only at h
  split at h
  · simp at h
  · next ht =>
      have ht' : target = "direct" ∨ target ∈ g.model.exitTags := by
        by_cases hd : target = "direct"
        · exact .inl hd
        · exact .inr (not_not.mp (fun hn => ht ⟨hd, hn⟩))
      split at h
      · simp at h
      · split at h
        · simp at h
        · split at h
          · split at h
            · split at h
              · simp at h
              · exact ⟨_, _, _, rfl, ht', (Py.pure_eq_ok.mp h).symm⟩
            · simp at h
          · simp at h

theorem reassignRule_cases {idx : Int} (h : reassignRule H idx target g = .ok g') :
    ∃ r, 0 ≤ idx ∧ g.model.rules[idx.toNat]? = some r ∧ r.contains "outbound" = true ∧
      target ∈ g.model.exitTags ∧
      (((r.field "rule_set").truthy = true ∧
          setRulesetTarget H (r.field "rule_set") target g = .ok g') ∨
        ((r.field "rule_set").truthy = false ∧ r.outbound = .str target ∧ g' = g) ∨
        ((r.field "rule_set").truthy = false ∧ r.outbound ≠ .str target ∧ ∃ rules,
          mergeDomainRules [] (g.model.rules.set idx.toNat (r.set "outbound" (.str target))) =
            .ok rules ∧ g' = { g with model := { g.model with rules := rules } })) := by
  unfold reassignRule at h
  simp only at h
  split at h
  · simp at h
  · next hi =>
      split at h
      · simp at h
      · next r hr =>
          split at h
          · simp at h
          · next hc =>
              split at h
              · simp at h
              · next ht =>
                  refine ⟨r, by omega, hr, by simpa using hc, by simpa using ht, ?_⟩
                  split at h
                  · next hs => exact .inl ⟨hs, h⟩
                  · next hs =>
                      have hs' : (r.field "rule_set").truthy = false := by simpa using hs
                      split at h
                      · next ho => exact .inr (.inl ⟨hs', ho, (Py.pure_eq_ok.mp h).symm⟩)
                      · next ho =>
                          obtain ⟨rules, hm, h⟩ := Py.bind_eq_ok.mp h
                          exact .inr (.inr ⟨hs', ho, rules, hm, (Py.pure_eq_ok.mp h).symm⟩)

end ProxyGateway.Route
