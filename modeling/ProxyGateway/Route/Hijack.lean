import ProxyGateway.Lib.Runs
import ProxyGateway.Route.Listed

set_option autoImplicit false

/-!
# ProxyGateway.Route.Hijack

The custom hijack list and the domain rules. A domain whose rule has an exit only reaches
that exit if mosdns sends its name to the gateway, which it does for the names covered by
the list (`Hijacked`). List and rules are two files that every operation writes on its
own account, so that the invariant is a property of each pair of writes.

For each operation the condition on the state before it is given under which the invariant
holds afterwards (`KeepsHijacked`). Only some operations need one: `add_rule` to `direct`
takes the domain off the list and leaves its rule, a deletion takes a parent domain off the
list that covered others, `reassign_rule` can give an exit to domains that never were on
the list, and an import brings rules that the list in force need not cover.
-/

namespace ProxyGateway.Route

open Rule

variable {H : Host} {g g' : Gateway} {m m' : Model} {r r' : Rule} {rules rules' : List Rule}
  {o d : Json} {domain target : String}

/-! ### Coverage -/

/-- An entry of the list covers a name if it is the name or a parent domain of it. -/
def covers (entry name : String) : Bool :=
  entry = name || ('.' :: entry.toList).isSuffixOf name.toList

@[simp] theorem covers_self (name : String) : covers name name = true := by
  simp [covers]

/-- Some entry of the list covers the domain. -/
def CoveredBy (hijack : List String) (d : Json) : Prop :=
  ∃ s, d = .str s ∧ ∃ entry ∈ hijack, covers entry s = true

theorem CoveredBy.mono {xs ys : List String} (h : CoveredBy xs d) (hs : ∀ e ∈ xs, e ∈ ys) :
    CoveredBy ys d := by
  obtain ⟨s, hd, e, he, hc⟩ := h
  exact ⟨s, hd, e, hs e he, hc⟩

theorem coveredBy_domainText {xs : List String} : CoveredBy (domainText xs) d ↔ CoveredBy xs d :=
  ⟨fun h => h.mono (fun _ => mem_domainText.mp), fun h => h.mono (fun _ => mem_domainText.mpr)⟩

theorem coveredBy_of_mem {xs : List String} {s : String} (h : s ∈ xs) : CoveredBy xs (.str s) :=
  ⟨s, rfl, s, h, covers_self s⟩

/-- Is it an exit other than the machine's direct outbound? -/
def Model.proxied (m : Model) (o : Json) : Bool :=
  decide (o ≠ .null) && decide (some o ≠ m.directTag.map Json.str)

theorem proxied_iff : m.proxied o = true ↔ o ≠ .null ∧ some o ≠ m.directTag.map Json.str := by
  simp [Model.proxied]

/-- The domain has a rule that proxies it. -/
def Needs (m : Model) (d : Json) : Prop := ∃ o, Listed m.rules o d ∧ m.proxied o = true

/-- Every proxied domain is covered by the hijack list. -/
def Hijacked (g : Gateway) : Prop := ∀ d, Needs g.model d → CoveredBy g.hijack d

@[simp] theorem proxied_rules (rules : List Rule) :
    Model.proxied { m with rules := rules } o = m.proxied o := rfl

/-! ### The condition on each operation -/

/-- What is left of the proxied domains is covered by what is left of the list. -/
def CoveredWithout (g : Gateway) (gone : List String) : Prop :=
  ∀ d, Needs g.model d → (∀ s ∈ gone, d ≠ .str s) → CoveredBy (g.hijack.filter (· ∉ gone)) d

/-- The condition on `reassign_rule`: a domain rule is given to the direct outbound, or its
domains are on the list. -/
def ReassignCovered (idx : Nat) (target : String) (g : Gateway) : Prop :=
  ∀ r, g.model.rules[idx]? = some r → (r.field "rule_set").truthy = false →
    g.model.proxied (.str target) = true → ∀ d ∈ r.domains, CoveredBy g.hijack d

/-- The condition on the Web's exit deletion, which gives rules without outbound an exit. -/
def DeleteCovered (H : Host) (value : String) (g : Gateway) : Prop :=
  ∀ tag final, H.normalizeName value = some tag →
    (g.model.without tag).finalAfter = some final → g.model.proxied (.str final) = true →
      ∀ d, Listed g.model.rules .null d → CoveredBy g.hijack d

/-- The domains that the proxied rules of a model have after its texts are replaced. -/
def NeedsAfter (f : Rule → Rule) (m : Model) (d : Json) : Prop :=
  ∃ r ∈ m.rules, m.proxied r.outbound = true ∧ d ∈ (f r).domains

/-- The condition on an import: a Mihomo configuration brings rules that the list in place
covers; the rules that a PDG archive results in are covered by the list that it leaves. -/
def ImportCovered (I : Import) (g : Gateway) : Prop :=
  match I.bundle with
  | none => ∀ d, Needs I.model d → CoveredBy g.hijack d
  | some b => ∀ d, NeedsAfter (mapTextsFields b.rebased) I.model d ∨
      (I.mode = .merge ∧ NeedsAfter (mapTextsFields b.rebased) g.model d) →
        CoveredBy (I.hijack g) d

/-- The condition under which an operation keeps every proxied domain hijacked. -/
def KeepsHijacked (H : Host) (g : Gateway) : Op → Prop
  | .rule (.addRule domain target) =>
      target = "direct" ∨ target = "直连" → ∀ d, Needs g.model d →
        CoveredBy (g.hijack.filter (· ∉ [canonicalDomain H domain])) d
  | .rule (.delRule domain) => CoveredWithout g [canonicalDomain H domain]
  | .rule (.delRulesBulk domains) => CoveredWithout g (selected H domains)
  | .rule (.patchRule old value) =>
      webTarget H value = .ok "direct" → CoveredWithout g [canonicalDomain H old]
  | .rule (.reassignRule idx target) => ReassignCovered idx.toNat target g
  | .rule (.setTgExit _) => True
  | .deleteExit _ => True
  | .deleteOutbound value => DeleteCovered H value g
  | .apply I => ImportCovered I g

/-! ### Single rules -/

theorem filter_not_mem_singleton (xs : List String) (s : String) :
    xs.filter (· ≠ s) = xs.filter (· ∉ [s]) := by
  simp

theorem addRule_hijacked (h : addRule H domain target g = .ok g') (hg : Hijacked g) :
    Hijacked g' ↔ KeepsHijacked H g (.rule (.addRule domain target)) := by
  obtain ⟨-, ⟨ht, rfl⟩ | ⟨ht, -, rules, hr, rfl⟩⟩ := addRule_cases h
  · simp only [Hijacked, KeepsHijacked, coveredBy_domainText, filter_not_mem_singleton]
    exact ⟨fun hh _ => hh, fun hh => hh ht⟩
  · refine iff_of_true (fun d hd => ?_) (fun hd => absurd hd ht)
    obtain ⟨o, hl, hp⟩ := hd
    rw [coveredBy_domainText]
    rcases listed_addDomain hr hl with hl | ⟨-, rfl⟩
    · exact (hg d ⟨o, hl, hp⟩).mono (fun e he => List.mem_append_left _ he)
    · exact coveredBy_of_mem (by simp)

/-- A deletion of the domains in `gone` from rules and list. -/
theorem deletion_hijacked {gone : List String} {p : Json → Bool}
    (hp : ∀ d, p d = true ↔ ∀ s ∈ gone, d ≠ .str s)
    (hl : ∀ o d, Listed g'.model.rules o d ↔ Listed g.model.rules o d ∧ p d = true)
    (hm : ∀ o, g'.model.proxied o = g.model.proxied o)
    (hh : ∀ d, CoveredBy g'.hijack d ↔ CoveredBy (g.hijack.filter (· ∉ gone)) d) :
    Hijacked g' ↔ CoveredWithout g gone := by
  constructor
  · intro h d hd hgone
    obtain ⟨o, hd, ho⟩ := hd
    exact (hh d).mp (h d ⟨o, (hl o d).mpr ⟨hd, (hp d).mpr hgone⟩, (hm o).trans ho⟩)
  · intro h d hd
    obtain ⟨o, hd, ho⟩ := hd
    obtain ⟨hd, hpd⟩ := (hl o d).mp hd
    exact (hh d).mpr (h d ⟨o, hd, (hm o).symm.trans ho⟩ ((hp d).mp hpd))

theorem isNot_iff : isNot domain d = true ↔ ∀ s ∈ [domain], d ≠ .str s := by
  simp [isNot]

theorem notAmong_iff {domains : List String} :
    notAmong domains d = true ↔ ∀ s ∈ domains, d ≠ .str s := by
  cases d with
  | str t =>
      simp only [notAmong, Json.str?, Option.any_some, Bool.not_eq_true', decide_eq_false_iff_not,
        ne_eq, Json.str.injEq]
      exact ⟨fun h s hs he => h (he ▸ hs), fun h ht => h t ht rfl⟩
  | _ => simp [notAmong, Json.str?]

/-- Where no rule names the domain, striking it changes nothing. -/
theorem mentionedIn_false (h : mentionedIn domain rules = .ok false) (hl : Listed rules o d) :
    d ≠ .str domain := by
  induction rules with
  | nil => simp at hl
  | cons r rules ih =>
      unfold mentionedIn at h
      obtain ⟨b, hb, h⟩ := Py.bind_eq_ok.mp h
      cases b with
      | true => simp at h
      | false =>
          rcases listed_cons.mp hl with ⟨-, hd⟩ | hl
          · unfold mentions at hb
            obtain ⟨c, hc, hb⟩ := Py.bind_eq_ok.mp hb
            cases c with
            | true => simp at hb
            | false =>
                intro he
                rw [he, domains, List.mem_append] at hd
                rcases hd with hd | hd
                · exact not_mem_entries hc hd
                · exact not_mem_entries hb hd
          · exact ih h hl

theorem delRule_hijacked (h : delRule H domain g = .ok g') :
    Hijacked g' ↔ CoveredWithout g [canonicalDomain H domain] := by
  obtain ⟨-, hh, ⟨hm, hg⟩ | ⟨hm, rules, hr, hg⟩⟩ := delRule_cases h
  · refine deletion_hijacked (fun _ => isNot_iff) (fun o d => ?_) (fun o => by rw [hg])
      (fun d => by rw [hh, coveredBy_domainText, filter_not_mem_singleton])
    rw [hg]
    refine ⟨fun hl => ⟨hl, ?_⟩, fun hl => hl.1⟩
    simpa [isNot] using mentionedIn_false hm hl
  · refine deletion_hijacked (fun _ => isNot_iff) (fun o d => ?_) (fun o => by rw [hg]; rfl)
      (fun d => by rw [hh, coveredBy_domainText, filter_not_mem_singleton])
    rw [hg]
    exact listed_cleanUp.trans (listed_drops ((Py.mapM_forall₂ hr).imp (fun _ _ => strike_drops)))

theorem delRulesBulk_hijacked {domains : List String} (h : delRulesBulk H domains g = .ok g') :
    Hijacked g' ↔ CoveredWithout g (selected H domains) := by
  obtain ⟨rules, hr, rfl⟩ := delRulesBulk_cases h
  refine deletion_hijacked (fun _ => notAmong_iff) (fun o d => ?_) (fun _ => rfl)
    (fun d => coveredBy_domainText)
  exact listed_cleanUp.trans (listed_drops ((Py.mapM_forall₂ hr).imp (fun _ _ => strikeSet_drops)))

theorem patchRule_hijacked {old value : String} (h : patchRule H old value g = .ok g')
    (hg : Hijacked g) :
    Hijacked g' ↔ (webTarget H value = .ok "direct" → CoveredWithout g [canonicalDomain H old]) := by
  obtain ⟨target, rules, found, key, -, ht, hp, hcases⟩ := patchRule_cases h
  obtain ⟨patched, hm, hrules, hk⟩ := patchRules_cases hp
  have hl : ∀ o d, Listed rules o d ↔
      Listed g.model.rules o d ∧ isNot (canonicalDomain H old) d = true := by
    intro o d
    rw [hrules, listed_cleanUp]
    exact listed_drops (List.forall₂_map_right_iff.mpr
      ((Py.mapM_forall₂ hm).imp (fun _ _ => patchOne_drops)))
  rcases hcases with ⟨htd, rfl⟩ | ⟨htd, -, rest, hrest, rfl⟩
  · refine Iff.trans (b := CoveredWithout g [canonicalDomain H old])
      (deletion_hijacked (fun _ => isNot_iff) hl (fun _ => rfl) (fun d => ?_))
      ⟨fun hh _ => hh, fun hh => hh (htd ▸ ht)⟩
    rw [coveredBy_domainText, filter_not_mem_singleton]
  · refine iff_of_true (fun d hd => ?_) (fun hd => ?_)
    · obtain ⟨o, hd, ho⟩ := hd
      rw [coveredBy_domainText]
      rcases listed_patchInto hk hrest hd with hd | ⟨-, rfl⟩
      · -- what the list covered it still covers: the domain itself is put back
        refine (hg d ⟨o, ((hl o d).mp hd).1, ho⟩).mono (fun e he => ?_)
        by_cases heq : e = canonicalDomain H old
        · simp [heq]
        · simp [he, heq]
      · exact coveredBy_of_mem (by simp)
    · rw [ht] at hd
      exact absurd (Except.ok.inj hd) htd

theorem reassignRule_hijacked {idx : Int} (h : reassignRule H idx target g = .ok g')
    (hg : Hijacked g) : Hijacked g' ↔ ReassignCovered idx.toNat target g := by
  obtain ⟨r, -, hr, -, -, hcases⟩ := reassignRule_cases h
  rcases hcases with ⟨hset, h⟩ | ⟨hset, ho, rfl⟩ | ⟨hset, ho, rules, hm, rfl⟩
  · obtain ⟨n, leaf, info, -, -, rfl⟩ := setRulesetTarget_cases h
    refine iff_of_true (fun d hd => ?_) (fun r₀ hr₀ hs => ?_)
    · obtain ⟨o, hl, hp⟩ := hd
      exact hg d ⟨o, listed_retargetRules hl, hp⟩
    · rw [hr] at hr₀
      cases hr₀
      simp [hset] at hs
  · refine iff_of_true hg (fun r₀ hr₀ _ hp d hd => ?_)
    rw [hr] at hr₀
    cases hr₀
    exact hg d ⟨.str target, ⟨r, List.mem_of_getElem? hr, ho, hd⟩, hp⟩
  · obtain ⟨hlt, hget⟩ := List.getElem?_eq_some_iff.mp hr
    have hsplit : g.model.rules = g.model.rules.take idx.toNat ++ r ::
        g.model.rules.drop (idx.toNat + 1) := by
      rw [← hget, List.getElem_cons_drop, List.take_append_drop]
    rw [List.set_eq_take_append_cons_drop, if_pos hlt] at hm
    set xs := g.model.rules.take idx.toNat
    set ys := g.model.rules.drop (idx.toNat + 1)
    have hl : ∀ o d, Listed rules o d ↔
        Listed (xs ++ ys) o d ∨ (.str target = o ∧ d ∈ r.domains) := by
      intro o d
      rw [listed_mergeDomainRules hm, List.nil_append, listed_append, listed_cons, listed_append,
        outbound, field_set_self, domains_set_outbound]
      tauto
    have hold : ∀ o d, Listed (xs ++ ys) o d → Listed g.model.rules o d := by
      intro o d h
      rw [hsplit, listed_append, listed_cons]
      rw [listed_append] at h
      tauto
    constructor
    · intro hh r₀ hr₀ _ hp d hd
      rw [hr] at hr₀
      cases hr₀
      exact hh d ⟨.str target, (hl _ _).mpr (.inr ⟨rfl, hd⟩), hp⟩
    · intro hc d hn
      obtain ⟨o, hlo, hp⟩ := hn
      rcases (hl o d).mp hlo with hlo | ⟨he, hd⟩
      · exact hg d ⟨o, hold o d hlo, hp⟩
      · rw [← he] at hp
        exact hc r hr hset hp d hd

theorem setTgExit_hijacked {tag : String} (h : setTgExit tag g = .ok g') (hg : Hijacked g) :
    Hijacked g' := by
  intro d hd
  rw [setTgExit_cases h] at hd ⊢
  obtain ⟨o, hl, hp⟩ := hd
  refine hg d ⟨o, ?_, hp⟩
  have hrest : Listed (g.model.rules.filter (fun r => !r.pinned)) o d → Listed g.model.rules o d :=
    fun hl => hl.mono (fun r hr => List.mem_of_mem_filter hr)
  by_cases ht : tag = ""
  · simp only [ht, if_true] at hl
    exact hrest hl
  · simp only [ht, if_false] at hl
    rcases listed_insertFirst.mp hl with ⟨-, hd⟩ | hl
    · simp [domains, listed, Dict.get?, Json.entries] at hd
    · exact hrest hl

/-! ### Valid models -/

theorem valid_iff : m.valid = true ↔
    (m.outbounds.filter (fun o => o.type = "direct")).length = 1 ∧
      (m.outbounds.map Outbound.tag ++ m.groups.map Group.name).Nodup ∧
      m.final ∈ m.exitTags ∧
      ∀ r ∈ m.rules, r.outbound = .null ∨ ∃ t ∈ m.exitTags, r.outbound = .str t := by
  have hopt : ∀ o : Json, (o.str?.any (· ∈ m.exitTags) = true) ↔
      ∃ t ∈ m.exitTags, o = .str t := by
    intro o
    cases o <;> simp [Json.str?]
  simp only [Model.valid, Bool.and_eq_true, decide_eq_true_eq, List.all_eq_true, Bool.or_eq_true,
    hopt, and_assoc]

/-- The machine's direct outbound. -/
theorem exists_direct (hv : m.valid = true) :
    ∃ o ∈ m.outbounds, o.type = "direct" ∧ m.directTag = some o.tag ∧
      m.outbounds.find? (fun o => o.type = "direct") = some o := by
  obtain ⟨hone, -⟩ := valid_iff.mp hv
  obtain ⟨o, ho⟩ := List.length_eq_one_iff.mp hone
  have hf : m.outbounds.find? (fun o => o.type = "direct") = some o := by
    rw [← List.head?_filter, ho]
    rfl
  refine ⟨o, List.mem_of_find?_eq_some hf, by simpa using List.find?_some hf, ?_, hf⟩
  rw [Model.directTag, hf]
  rfl

/-- A tag that names a proxy outbound or a group is not the direct outbound's. -/
theorem directTag_ne {o : Outbound} {tag : String} (hv : m.valid = true) (ho : o ∈ m.outbounds)
    (hd : o.type = "direct") (ht : (∃ x ∈ m.outbounds, x.tag = tag ∧ x.type ≠ "direct") ∨
      tag ∈ m.groups.map Group.name) : o.tag ≠ tag := by
  obtain ⟨-, hn, -⟩ := valid_iff.mp hv
  obtain ⟨hn, -, hdis⟩ := List.nodup_append.mp hn
  intro he
  rcases ht with ⟨x, hx, hxt, hxd⟩ | ht
  · have := List.inj_on_of_nodup_map hn ho hx (he.trans hxt.symm)
    exact hxd (this ▸ hd)
  · exact hdis o.tag (List.mem_map_of_mem ho) tag ht he

theorem proxied_congr (h : m'.directTag = m.directTag) : m'.proxied o = m.proxied o := by
  simp only [Model.proxied, h]

/-- The model without a deletable exit still has its direct outbound. -/
theorem without_direct {tag : String} (hv : m.valid = true)
    (ht : (∃ x ∈ m.outbounds, x.tag = tag ∧ x.type ≠ "direct") ∨ tag ∈ m.groups.map Group.name) :
    (m.without tag).directTag = m.directTag ∧
      ∃ t, m.directTag = some t ∧ t ∈ (m.without tag).exitTags := by
  obtain ⟨o, ho, hd, hdt, hf⟩ := exists_direct hv
  have hne := directTag_ne hv ho hd ht
  have hall : ∀ x ∈ m.outbounds, x.type = "direct" → x.tag ≠ tag :=
    fun x hx hxd => directTag_ne hv hx hxd ht
  constructor
  · unfold Model.directTag Model.without
    rw [← List.head?_filter, ← List.head?_filter, List.filter_filter]
    congr 2
    refine List.filter_congr (fun x hx => ?_)
    by_cases hxd : x.type = "direct"
    · simp [hxd, hall x hx hxd]
    · simp [hxd]
  · refine ⟨o.tag, hdt, ?_⟩
    refine List.mem_append_left _ (List.mem_map.mpr ⟨o, ?_, rfl⟩)
    refine List.mem_filter.mpr ⟨List.mem_filter.mpr ⟨ho, by simpa using hne⟩, ?_⟩
    simp [hd, routableTypes]

/-! ### Deleting an exit -/

theorem deleteExit_cases {tag : String} (h : deleteExit tag g = .ok g') :
    tag ∈ g.model.deletableTags ∧ ∃ fallback rules final info,
      g.model.rules.mapM (redirectDangling (g.model.without tag).exitTags fallback) = .ok rules ∧
      g' = { g with
        model := { g.model.without tag with rules := rules, final := final }
        rsMeta := info } := by
  unfold deleteExit at h
  simp only at h
  split at h
  · simp at h
  · next ht =>
      refine ⟨not_not.mp ht, ?_⟩
      split at h
      · simp at h
      · split at h
        · simp at h
        · obtain ⟨rules, hr, h⟩ := Py.bind_eq_ok.mp h
          obtain ⟨info, -, h⟩ := Py.bind_eq_ok.mp h
          exact ⟨_, rules, _, info, hr, (Py.pure_eq_ok.mp h).symm⟩

/-- A tag that can be deleted is a proxy outbound's or a group's. -/
theorem deletable_cases {tag : String} (h : tag ∈ m.deletableTags) :
    (∃ x ∈ m.outbounds, x.tag = tag ∧ x.type ≠ "direct") ∨ tag ∈ m.groups.map Group.name := by
  rcases List.mem_append.mp h with h | h
  · obtain ⟨x, hx, ht⟩ := List.mem_map.mp h
    obtain ⟨hx, htype⟩ := List.mem_filter.mp hx
    refine .inl ⟨x, hx, ht, ?_⟩
    intro hd
    rw [hd] at htype
    exact absurd htype (by decide)
  · exact .inr h

theorem redirectDangling_cases {live : List String} {fallback : String}
    (h : redirectDangling live fallback r = .ok r') :
    r' = r ∨ (r.outbound ≠ .null ∧ (∀ t ∈ live, r.outbound ≠ .str t) ∧
      r' = r.set "outbound" (.str fallback)) := by
  unfold redirectDangling at h
  split at h
  · next hn =>
      obtain ⟨b, hb, h⟩ := Py.bind_eq_ok.mp h
      cases b with
      | true => exact .inl (Py.pure_eq_ok.mp h).symm
      | false =>
          refine .inr ⟨hn, ?_, (Py.pure_eq_ok.mp h).symm⟩
          intro t ht he
          rw [he] at hb
          simp [Json.within, ht] at hb
  · exact .inl (Py.pure_eq_ok.mp h).symm

/-- What the rules after a redirection list, the rules before it list for some outbound. -/
theorem listed_of_forall₂ {R : Rule → Rule → Prop} (h : List.Forall₂ R rules rules')
    (hR : ∀ r r', R r r' → r'.domains = r.domains) (hl : Listed rules' o d) :
    ∃ r ∈ rules, ∃ r', R r r' ∧ r'.outbound = o ∧ d ∈ r.domains := by
  induction h with
  | nil => simp at hl
  | @cons r r' rules rules' hr _ ih =>
      rcases listed_cons.mp hl with ⟨ho, hd⟩ | hl
      · exact ⟨r, List.mem_cons_self, r', hr, ho, by rwa [hR r r' hr] at hd⟩
      · obtain ⟨x, hx, hrest⟩ := ih hl
        exact ⟨x, List.mem_cons_of_mem _ hx, hrest⟩

theorem deleteExit_hijacked {tag : String} (h : deleteExit tag g = .ok g') (hg : Hijacked g)
    (hv : g.model.valid = true) : Hijacked g' := by
  obtain ⟨ht, fallback, rules, final, info, hr, rfl⟩ := deleteExit_cases h
  obtain ⟨hdt, t, htag, hlive⟩ := without_direct hv (deletable_cases ht)
  intro d hd
  obtain ⟨o, hl, hp⟩ := hd
  have hp : g.model.proxied o = true := (proxied_congr hdt).symm.trans hp
  obtain ⟨r, hrm, r', hrr, ho, hdr⟩ := listed_of_forall₂ (Py.mapM_forall₂ hr) (by
    intro r r' hrr
    rcases redirectDangling_cases hrr with rfl | ⟨-, -, rfl⟩
    · rfl
    · exact domains_set_outbound _) hl
  refine hg d ⟨r.outbound, ⟨r, hrm, rfl, hdr⟩, ?_⟩
  rcases redirectDangling_cases hrr with rfl | ⟨hn, hdead, -⟩
  · rw [ho]
    exact hp
  · refine proxied_iff.mpr ⟨hn, ?_⟩
    rw [htag]
    intro he
    exact hdead t hlive (Option.some.inj he)

theorem deleteOutbound_cases {value : String} (h : deleteOutbound H value g = .ok g') :
    ∃ tag final rules info, H.normalizeName value = some tag ∧
      (∃ x ∈ g.model.outbounds, x.tag = tag ∧ x.type ≠ "direct") ∧
      (g.model.without tag).finalAfter = some final ∧
      g.model.rules.mapM (redirectUnroutable ((g.model.without tag).exitTags ++ ["direct"]) final) =
        .ok rules ∧
      retargetRulesets (unroutable ((g.model.without tag).exitTags ++ ["direct"])) final g.rsMeta = .ok info ∧
      g' = { g with
        model := { g.model.without tag with rules := rules, final := final }
        rsMeta := info } := by
  unfold deleteOutbound at h
  split at h
  · simp at h
  · next tag hn =>
      simp only at h
      split at h
      · simp at h
      · split at h
        · simp at h
        · next x hx =>
            split at h
            · simp at h
            · next htype =>
                split at h
                · simp at h
                · next final hf =>
                    obtain ⟨rules, hr, h⟩ := Py.bind_eq_ok.mp h
                    obtain ⟨info, hinfo, h⟩ := Py.bind_eq_ok.mp h
                    refine ⟨tag, final, rules, info, hn, ⟨x, List.mem_of_find?_eq_some hx,
                      by simpa using List.find?_some hx, ?_⟩, hf, hr, hinfo, (Py.pure_eq_ok.mp h).symm⟩
                    intro hd
                    rw [hd] at htype
                    exact htype (by decide)

theorem redirectUnroutable_cases {routable : List String} {final : String}
    (h : redirectUnroutable routable final r = .ok r') :
    ((∃ t ∈ routable, r.outbound = .str t) ∧ r' = r) ∨
      ((∀ t ∈ routable, r.outbound ≠ .str t) ∧ r' = r.set "outbound" (.str final)) := by
  unfold redirectUnroutable at h
  obtain ⟨b, hb, h⟩ := Py.bind_eq_ok.mp h
  cases b with
  | true =>
      refine .inl ⟨?_, (Py.pure_eq_ok.mp h).symm⟩
      cases ho : r.outbound with
      | str t =>
          rw [ho] at hb
          exact ⟨t, by simpa [Json.within] using hb, rfl⟩
      | _ =>
          rw [ho] at hb
          simp [Json.within] at hb
  | false =>
      refine .inr ⟨?_, (Py.pure_eq_ok.mp h).symm⟩
      intro t ht he
      rw [he] at hb
      simp only [Json.within, Except.ok.injEq, decide_eq_false_iff_not] at hb
      exact hb ht

theorem redirectUnroutable_domains {routable : List String} {final : String}
    (h : redirectUnroutable routable final r = .ok r') : r'.domains = r.domains := by
  rcases redirectUnroutable_cases h with ⟨-, rfl⟩ | ⟨-, rfl⟩
  · rfl
  · exact domains_set_outbound _

theorem deleteOutbound_hijacked {value : String} (h : deleteOutbound H value g = .ok g')
    (hg : Hijacked g) (hv : g.model.valid = true) :
    Hijacked g' ↔ DeleteCovered H value g := by
  obtain ⟨tag, final, rules, info, hn, hx, hf, hr, -, rfl⟩ := deleteOutbound_cases h
  obtain ⟨hdt, t, htag, hlive⟩ := without_direct hv (.inl hx)
  have hprox : ∀ o, Model.proxied { g.model.without tag with rules := rules, final := final } o =
      g.model.proxied o := fun o => proxied_congr hdt
  have hcond : DeleteCovered H value g ↔ (g.model.proxied (.str final) = true →
      ∀ d, Listed g.model.rules .null d → CoveredBy g.hijack d) := by
    constructor
    · intro hc
      exact hc tag final hn hf
    · intro hc tag' final' hn' hf'
      rw [hn] at hn'
      cases hn'
      rw [hf] at hf'
      cases hf'
      exact hc
  rw [hcond]
  constructor
  · -- a rule without outbound gets the new default exit, and its domains need the list
    intro hh hp d hd
    obtain ⟨r, hrm, ho, hdr⟩ := hd
    obtain ⟨r', hrm', hrr⟩ := exists_of_forall₂ (Py.mapM_forall₂ hr) hrm
    refine hh d ⟨.str final, ⟨r', hrm', ?_, ?_⟩, (hprox _).trans hp⟩
    · rcases redirectUnroutable_cases hrr with ⟨⟨s, -, hs⟩, -⟩ | ⟨-, rfl⟩
      · rw [ho] at hs
        cases hs
      · exact field_set_self _ _ _
    · rw [redirectUnroutable_domains hrr]
      exact hdr
  · intro hc d hd
    obtain ⟨o, hl, hp⟩ := hd
    have hp : g.model.proxied o = true := (hprox o).symm.trans hp
    obtain ⟨r, hrm, r', hrr, ho, hdr⟩ := listed_of_forall₂ (Py.mapM_forall₂ hr)
      (fun _ _ => redirectUnroutable_domains) hl
    rcases redirectUnroutable_cases hrr with ⟨-, rfl⟩ | ⟨hdead, rfl⟩
    · exact hg d ⟨o, ⟨r', hrm, ho, hdr⟩, hp⟩
    · by_cases hnull : r.outbound = .null
      · rw [outbound, field_set_self] at ho
        exact hc (ho ▸ hp) d ⟨r, hrm, hnull, hdr⟩
      · refine hg d ⟨r.outbound, ⟨r, hrm, rfl, hdr⟩, proxied_iff.mpr ⟨hnull, ?_⟩⟩
        rw [htag]
        intro he
        exact hdead t (List.mem_append_left _ hlive) (Option.some.inj he)

end ProxyGateway.Route
