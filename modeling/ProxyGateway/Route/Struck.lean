import ProxyGateway.Route.Pin

set_option autoImplicit false

/-!
# ProxyGateway.Route.Struck

Deleting domains from the rules. `del_rule`, `del_rules_bulk` and the Web `patch_rule` to `direct` go
through all rules, take the domains out and then clean up. The clean-up looks at some of the matchers
only: a rule for an inbound goes with the first deletion that reaches it (`struck_iff`).
-/

namespace ProxyGateway.Route

open Rule

/-! ### Rules without the domains -/

/-- A list of domains without those of `D`; what is no list stays. -/
def stripped (D : List String) : Json → Json
  | .arr ds => .arr (ds.filter (fun d => d ∉ D.map Json.str))
  | v => v

def withoutKey (D : List String) (r : Rule) (key : String) : Rule :=
  match r.get? key with
  | some v => r.set key (stripped D v)
  | none => r

/-- The rule without the domains of `D`. -/
def without (D : List String) (r : Rule) : Rule := withoutKey D (withoutKey D r "domain_suffix") "domain"

/-- Does a key other than those that say what to do hold something? -/
def Rule.hasMatcher (r : Rule) : Bool :=
  (Dict.keys r).any (fun key => decide (key ∉ ["outbound", "action"]) && (r.field key).truthy)

/-- The rule had domains, and without those of `D` it has no matcher left. -/
def Spent (D : List String) (r : Rule) : Prop := r.hasDomains = true ∧ (without D r).hasMatcher = false

/-- The rules without the domains of `D`; only rules that are spent may be left out. -/
inductive OnlyDomains (D : List String) : List Rule → List Rule → Prop where
  | nil : OnlyDomains D [] []
  | keep {r : Rule} {rules rules' : List Rule} : OnlyDomains D rules rules' →
      OnlyDomains D (r :: rules) (without D r :: rules')
  | drop {r : Rule} {rules rules' : List Rule} : Spent D r → OnlyDomains D rules rules' →
      OnlyDomains D (r :: rules) rules'

/-- Where a domain key of the rule is rewritten, it holds a list. -/
def Lists (rewritten : Json → Prop) (r : Rule) : Prop :=
  ∀ key, IsDomainKey key → rewritten (r.field key) → ∃ ds, r.field key = .arr ds

/-- Nothing but lists is rewritten in a rule that stays, and a rule that goes is spent. -/
def Meets (rewritten : Json → Prop) (D : List String) (r : Rule) : Prop :=
  if (without D r).keeps = true then Lists rewritten r else Spent D r

variable {H : Host} {g g' : Gateway} {rewritten : Json → Prop} {D : List String} {r r' : Rule}
  {rules rules' struck : List Rule} {key : String}

theorem field_withoutKey (D : List String) (r : Rule) (key : String) :
    Rule.field (withoutKey D r key) key = stripped D (r.field key) := by
  rw [withoutKey, Rule.field, Rule.field]
  cases hget : Dict.get? r key with
  | none => simp [hget, stripped]
  | some v => simp

theorem field_withoutKey_ne {k : String} (h : key ≠ k) : Rule.field (withoutKey D r key) k = r.field k := by
  rw [withoutKey]
  split
  · exact field_set_ne h r _
  · rfl

theorem contains_withoutKey_ne {k : String} (h : key ≠ k) : Dict.contains (withoutKey D r key) k = r.contains k := by
  rw [withoutKey]
  split
  · exact contains_set_ne h r _
  · rfl

theorem field_without (hkey : IsDomainKey key) : Rule.field (without D r) key = stripped D (r.field key) := by
  rcases hkey with rfl | rfl
  · rw [without, field_withoutKey_ne (by decide), field_withoutKey]
  · rw [without, field_withoutKey, field_withoutKey_ne (by decide)]

theorem stripped_list {v : Json} : (∃ ds, stripped D v = .arr ds) ↔ ∃ ds, v = .arr ds := by
  cases v <;> simp [stripped]

/-! ### Striking one key -/

/-- A value that is not rewritten has none of the domains. -/
def Sees (rewritten : Json → Prop) (D : List String) : Prop :=
  ∀ ds, ¬rewritten (.arr ds) → ∀ d ∈ ds, d ∉ D.map Json.str

/-- What the operations do to a key of a rule. -/
structure KeyStruck (rewritten : Json → Prop) (D : List String) (key : String) (r r' : Rule) : Prop where
  yes : rewritten (r.field key) → r' = r.set key (.arr ((r.field key).entries.filter (fun d => d ∉ D.map Json.str)))
  no : ¬rewritten (r.field key) → r' = r

theorem get?_of_list {ds : List Json} (h : r.field key = .arr ds) : r.get? key = some (.arr ds) := by
  rw [Rule.field] at h
  cases hget : r.get? key with
  | none => simp [hget] at h
  | some v => simpa [hget] using h

theorem stripped_eq (hsees : Sees rewritten D) {v : Json} (h : ¬rewritten v) : stripped D v = v := by
  cases v with
  | arr ds =>
      rw [stripped, List.filter_eq_self.mpr]
      intro d hd
      exact decide_eq_true (hsees ds h d hd)
  | _ => rfl

/-- A list is rewritten to the list without the domains. -/
theorem KeyStruck.eq_without (h : KeyStruck rewritten D key r r') (hsees : Sees rewritten D)
    (hlist : rewritten (r.field key) → ∃ ds, r.field key = .arr ds) : r' = withoutKey D r key := by
  by_cases hrewritten : rewritten (r.field key)
  · obtain ⟨ds, hds⟩ := hlist hrewritten
    rw [h.yes hrewritten, withoutKey, get?_of_list hds, hds]
    rfl
  · rw [h.no hrewritten, withoutKey]
    cases hget : r.get? key with
    | none => rfl
    | some v =>
        have hv : ¬rewritten v := by simpa [Rule.field, hget] using hrewritten
        simp only [stripped_eq hsees hv, Dict.set_of_get? hget]

theorem KeyStruck.field_ne (h : KeyStruck rewritten D key r r') {k : String} (hk : key ≠ k) :
    r'.field k = r.field k := by
  by_cases hrewritten : rewritten (r.field key)
  · rw [h.yes hrewritten, field_set_ne hk]
  · rw [h.no hrewritten]

/-- What is rewritten is a list afterwards. -/
theorem KeyStruck.list_now (h : KeyStruck rewritten D key r r') (hrewritten : rewritten (r'.field key)) :
    ∃ ds, r'.field key = .arr ds := by
  by_cases hbefore : rewritten (r.field key)
  · rw [h.yes hbefore, field_set_self]
    exact ⟨_, rfl⟩
  · rw [h.no hbefore] at hrewritten
    exact absurd hrewritten hbefore

/-- The key is empty afterwards if it is without the domains. -/
theorem KeyStruck.empty_now (h : KeyStruck rewritten D key r r') (hsees : Sees rewritten D)
    (hempty : (stripped D (r.field key)).truthy = false) : (r'.field key).truthy = false := by
  by_cases hrewritten : rewritten (r.field key)
  · rw [h.yes hrewritten, field_set_self]
    cases hv : r.field key with
    | arr ds =>
        rw [hv] at hempty
        exact hempty
    | _ =>
        rw [hv, stripped] at hempty
        · rw [entries_eq_nil hempty]
          rfl
        · simp
  · rw [h.no hrewritten, ← stripped_eq hsees hrewritten]
    exact hempty

/-! ### Striking a rule -/

/-- What the operations do to a rule. -/
structure Struck (rewritten : Json → Prop) (D : List String) (r r' : Rule) : Prop where
  fewer : Fewer r r'
  keys : ∃ r₁, KeyStruck rewritten D "domain_suffix" r r₁ ∧ KeyStruck rewritten D "domain" r₁ r'

theorem Struck.eq_without (h : Struck rewritten D r r') (hsees : Sees rewritten D) (hlists : Lists rewritten r) :
    r' = without D r := by
  obtain ⟨r₁, hsuffix, hdomain⟩ := h.keys
  have hfirst : r₁ = withoutKey D r "domain_suffix" := hsuffix.eq_without hsees (hlists _ (.inl rfl))
  subst hfirst
  refine hdomain.eq_without hsees ?_
  rw [field_withoutKey_ne (by decide)]
  exact hlists _ (.inr rfl)

theorem Struck.lists_now (h : Struck rewritten D r r') : Lists rewritten r' := by
  obtain ⟨r₁, hsuffix, hdomain⟩ := h.keys
  rintro key (rfl | rfl) hrewritten
  · rw [hdomain.field_ne (by decide)] at hrewritten ⊢
    exact hsuffix.list_now hrewritten
  · exact hdomain.list_now hrewritten

theorem fewer_without (D : List String) (r : Rule) : Fewer r (without D r) := by
  have hkept : ∀ k, ¬IsDomainKey k → Rule.field (without D r) k = r.field k ∧ Dict.contains (without D r) k = r.contains k := by
    intro k hk
    rw [IsDomainKey, not_or] at hk
    rw [without, field_withoutKey_ne (Ne.symm hk.2), field_withoutKey_ne (Ne.symm hk.1),
      contains_withoutKey_ne (Ne.symm hk.2), contains_withoutKey_ne (Ne.symm hk.1)]
    exact ⟨rfl, rfl⟩
  have hheld : ∀ key, IsDomainKey key → (Rule.field (without D r) key).truthy = true → (r.field key).truthy = true := by
    intro key hkey htruthy
    rw [field_without hkey] at htruthy
    cases hv : r.field key with
    | arr ds =>
        refine Json.truthy_of_entries fun hnil => ?_
        rw [hv, stripped, show ds = [] from hnil] at htruthy
        simp [Json.truthy] at htruthy
    | _ => simpa [hv, stripped] using htruthy
  exact ⟨fun k hk => (hkept k hk).1, fun k hk => (hkept k hk).2, hheld _ (.inl rfl), hheld _ (.inr rfl)⟩

theorem Struck.hasDomains_now (h : Struck rewritten D r r') (hsees : Sees rewritten D)
    (hempty : (without D r).hasDomains = false) : r'.hasDomains = false := by
  obtain ⟨r₁, hsuffix, hdomain⟩ := h.keys
  rw [hasDomains, Bool.or_eq_false_iff, field_without (.inl rfl), field_without (.inr rfl)] at hempty
  rw [hasDomains, Bool.or_eq_false_iff, hdomain.field_ne (by decide)]
  refine ⟨hsuffix.empty_now hsees hempty.1, hdomain.empty_now hsees ?_⟩
  rw [hsuffix.field_ne (by decide)]
  exact hempty.2

/-- What the clean-up looks at besides the domains. -/
def Rule.keepsAnyway (r : Rule) : Bool :=
  (r.field "action").truthy || !r.contains "outbound" || (r.field "rule_set").truthy ||
    (r.field "domain_keyword").truthy || (r.field "ip_cidr").truthy

theorem keeps_eq_or (r : Rule) : r.keeps = (r.keepsAnyway || r.hasDomains) := by
  rw [keeps, keepsAnyway]
  cases r.hasDomains <;> simp

theorem keepsAnyway_eq (h : Fewer r r') : r'.keepsAnyway = r.keepsAnyway := by
  simp only [keepsAnyway, h.contains "outbound" (by simp [IsDomainKey]), h.field "action" (by simp [IsDomainKey]),
    h.field "rule_set" (by simp [IsDomainKey]), h.field "domain_keyword" (by simp [IsDomainKey]),
    h.field "ip_cidr" (by simp [IsDomainKey])]

/-- A rule that the clean-up takes out is without the domains one that it takes out. -/
theorem Struck.dropped (h : Struck rewritten D r r') (hsees : Sees rewritten D) (hdrop : (without D r).keeps = false) :
    r'.keeps = false := by
  rw [keeps_eq_or, Bool.or_eq_false_iff, keepsAnyway_eq (fewer_without D r)] at hdrop
  rw [keeps_eq_or, Bool.or_eq_false_iff, keepsAnyway_eq h.fewer]
  exact ⟨hdrop.1, h.hasDomains_now hsees hdrop.2⟩

/-! ### The rules together -/

theorem truthy_of_hasMatcher (h : r.hasMatcher = false) (hkey : key ∉ ["outbound", "action"]) :
    (r.field key).truthy = false := by
  by_cases hin : key ∈ Dict.keys r
  · have hall := List.any_eq_false.mp h key hin
    simpa [hkey] using hall
  · rw [Rule.field, Dict.get?_eq_none_iff.mpr hin]
    rfl

/-- A rule without matchers stays for what it does or lacks, and not for its domains. -/
theorem keepsAnyway_of_hasMatcher (h : r.hasMatcher = false) (hkeeps : r.keeps = true) : r.keepsAnyway = true := by
  have hempty : r.hasDomains = false := by
    rw [hasDomains, truthy_of_hasMatcher h (by decide), truthy_of_hasMatcher h (by decide)]
    rfl
  rwa [keeps_eq_or, hempty, Bool.or_false] at hkeeps

theorem lists_of_without (hlists : Lists rewritten (without D r)) : Lists rewritten r := by
  intro key hkey hrewritten
  have hkept := hlists key hkey
  rw [field_without hkey, stripped_list] at hkept
  cases hv : r.field key with
  | arr ds => exact ⟨ds, rfl⟩
  | _ =>
      rw [hv] at hkept hrewritten
      exact hkept hrewritten

theorem onlyDomains_of_meets (hsees : Sees rewritten D) (hstruck : List.Forall₂ (Struck rewritten D) rules struck)
    (hmeets : ∀ r ∈ rules, Meets rewritten D r) : OnlyDomains D rules (cleanUp struck) := by
  induction hstruck with
  | nil => exact .nil
  | @cons r r' rules struck hr _ ih =>
      obtain ⟨hhead, htail⟩ := List.forall_mem_cons.mp hmeets
      have hrest := ih htail
      rw [Meets] at hhead
      by_cases hkeeps : (without D r).keeps = true
      · rw [if_pos hkeeps] at hhead
        rw [hr.eq_without hsees hhead, cleanUp, List.filter_cons_of_pos hkeeps]
        exact .keep hrest
      · rw [if_neg hkeeps] at hhead
        have hdrop := hr.dropped hsees (Bool.eq_false_iff.mpr hkeeps)
        rw [cleanUp, List.filter_cons_of_neg (by simp [hdrop])]
        exact .drop hhead hrest

/-- A rule that may stay in a result of the clean-up does so, hence such a result is no longer than
what the clean-up leaves; if it is as long, all rules meet the condition. -/
theorem meets_of_onlyDomains (hsees : Sees rewritten D) (hstruck : List.Forall₂ (Struck rewritten D) rules struck)
    (honly : OnlyDomains D rules rules') (hrules' : ∀ r ∈ rules', r.keeps = true ∧ Lists rewritten r) :
    rules'.length ≤ (cleanUp struck).length ∧
      (rules'.length = (cleanUp struck).length → ∀ r ∈ rules, Meets rewritten D r) := by
  induction honly generalizing struck with
  | nil =>
      cases hstruck
      exact ⟨Nat.le_refl _, fun _ _ hr => nomatch hr⟩
  | @keep r rules rules' _ ih =>
      obtain ⟨r', struck, hr, hrest, rfl⟩ := List.forall₂_cons_left_iff.mp hstruck
      obtain ⟨⟨hkeeps, hlists⟩, htail⟩ := List.forall_mem_cons.mp hrules'
      obtain ⟨hle, hmeets⟩ := ih hrest htail
      rw [hr.eq_without hsees (lists_of_without hlists), cleanUp, List.filter_cons_of_pos hkeeps, List.length_cons,
        List.length_cons]
      refine ⟨Nat.succ_le_succ hle, fun hlength => List.forall_mem_cons.mpr ⟨?_, hmeets (Nat.succ.inj hlength)⟩⟩
      rw [Meets, if_pos hkeeps]
      exact lists_of_without hlists
  | @drop r rules rules' hspent _ ih =>
      obtain ⟨r', struck, hr, hrest, rfl⟩ := List.forall₂_cons_left_iff.mp hstruck
      obtain ⟨hle, hmeets⟩ := ih hrest hrules'
      have hlonger : (cleanUp struck).length ≤ (cleanUp (r' :: struck)).length :=
        ((List.sublist_cons_self r' struck).filter _).length_le
      refine ⟨hle.trans hlonger, fun hlength => List.forall_mem_cons.mpr ⟨?_, hmeets (by omega)⟩⟩
      -- as long, so that the clean-up takes the rule out too
      have hdrop : r'.keeps = false := by
        by_contra hkeeps
        rw [cleanUp, List.filter_cons_of_pos (by simpa using hkeeps), List.length_cons] at hlength
        rw [cleanUp] at hle
        omega
      have hnot : ¬(without D r).keeps = true := by
        intro hkeeps
        have hanyway := keepsAnyway_of_hasMatcher hspent.2 hkeeps
        rw [keepsAnyway_eq (fewer_without D r), ← keepsAnyway_eq hr.fewer] at hanyway
        rw [keeps_eq_or, hanyway] at hdrop
        cases hdrop
      rw [Meets, if_neg hnot]
      exact hspent

theorem withoutKey_eq_self (h : (r.field key).truthy = false) : withoutKey D r key = r := by
  rw [withoutKey]
  cases hget : r.get? key with
  | none => rfl
  | some v =>
      have hempty : v.truthy = false := by simpa [Rule.field, hget] using h
      have hsame : stripped D v = v := by
        cases v with
        | arr ds =>
            have hnil : ds = [] := entries_eq_nil hempty
            rw [hnil]
            rfl
        | _ => rfl
      simp only [hsame, Dict.set_of_get? hget]

theorem without_eq_self (h : r.hasDomains = false) : without D r = r := by
  rw [hasDomains, Bool.or_eq_false_iff] at h
  rw [without, withoutKey_eq_self h.1, withoutKey_eq_self h.2]

/-- A rule without domains is still there. -/
theorem OnlyDomains.mem (h : OnlyDomains D rules rules') (hr : r ∈ rules) (hempty : r.hasDomains = false) : r ∈ rules' := by
  induction h with
  | nil => cases hr
  | @keep r₀ rules rules' _ ih =>
      rcases List.mem_cons.mp hr with rfl | hin
      · rw [without_eq_self hempty]
        exact List.mem_cons_self
      · exact List.mem_cons_of_mem _ (ih hin)
  | @drop r₀ rules rules' hspent _ ih =>
      rcases List.mem_cons.mp hr with rfl | hin
      · rw [hspent.1] at hempty
        cases hempty
      · exact ih hin

/-- The clean-up leaves the rules without the domains exactly if each rule meets the condition. -/
theorem cleanUp_iff (hsees : Sees rewritten D) (hstruck : List.Forall₂ (Struck rewritten D) rules struck) :
    OnlyDomains D rules (cleanUp struck) ↔ ∀ r ∈ rules, Meets rewritten D r := by
  constructor
  · intro honly
    refine (meets_of_onlyDomains hsees hstruck honly fun r hr => ?_).2 rfl
    obtain ⟨hin, hkeeps⟩ := List.mem_filter.mp hr
    obtain ⟨r₀, -, hr₀⟩ := exists_of_forall₂ hstruck.flip hin
    exact ⟨hkeeps, hr₀.lists_now⟩
  · exact onlyDomains_of_meets hsees hstruck

/-! ### The operations -/

variable {domain : String} {domains : List String}

/-- `domain in value`; `del_rule` and `patch_rule` rewrite such a value. -/
def Names (domain : String) (v : Json) : Prop := v.has (ε := Refusal) domain = .ok true

/-- `del_rules_bulk` rewrites such a value. -/
def Held (v : Json) : Prop := v.truthy = true

theorem sees_names (domain : String) : Sees (Names domain) [domain] := by
  intro ds hnot d hd hin
  obtain rfl : d = .str domain := by simpa using hin
  exact hnot (congrArg Except.ok (decide_eq_true hd))

theorem sees_held (domains : List String) : Sees Held domains := by
  intro ds hnot d hd
  cases ds with
  | nil => cases hd
  | cons d' ds => exact absurd rfl hnot

theorem has_listed : (r.listed key).has (ε := Refusal) domain = .ok true ↔ Names domain (r.field key) := by
  rw [listed, Rule.field, Names]
  cases r.get? key with
  | none => simp [Json.has]
  | some v => rfl

theorem dropFrom_struck (h : dropFrom domain r key = .ok r') :
    r' = r.set key (.arr ((r.field key).entries.filter (fun d => d ∉ [domain].map Json.str))) := by
  simpa using dropFrom_eq h

theorem strikeKey_struck (h : strikeKey domain r key = .ok r') : KeyStruck (Names domain) [domain] key r r' := by
  rcases strikeKey_cases h with ⟨hhas, rfl⟩ | ⟨hhas, hdrop⟩
  · refine ⟨fun hnames => ?_, fun _ => rfl⟩
    rw [has_listed.mpr hnames] at hhas
    cases hhas
  · exact ⟨fun _ => dropFrom_struck hdrop, fun hnot => absurd (has_listed.mp hhas) hnot⟩

theorem strike_struck (h : strike domain r = .ok r') : Struck (Names domain) [domain] r r' := by
  obtain ⟨r₁, h₁, h₂⟩ := Py.bind_eq_ok.mp h
  exact ⟨strike_fewer h, r₁, strikeKey_struck h₁, strikeKey_struck h₂⟩

/-- The elements that are marked as not among the domains. -/
theorem unmarked_eq {ds : List Json} {marks : List Bool} (h : ds.mapM (Json.within (ε := Refusal) D) = .ok marks) :
    ((ds.zip marks).filter (fun p => !p.2)).map Prod.fst = ds.filter (fun d => d ∉ D.map Json.str) := by
  induction ds generalizing marks with
  | nil => rfl
  | cons d ds ih =>
      rw [List.mapM_cons] at h
      obtain ⟨mark, hmark, hds⟩ := Py.bind_eq_ok.mp h
      obtain ⟨rest, hrest, heq⟩ := Py.bind_eq_ok.mp hds
      obtain rfl : mark :: rest = marks := Py.pure_eq_ok.mp heq
      have hd : (!mark) = decide (d ∉ D.map Json.str) := by
        cases d with
        | str text =>
            obtain rfl := Except.ok.inj hmark
            simp
        | arr xs => cases hmark
        | obj kvs => cases hmark
        | _ =>
            obtain rfl := Except.ok.inj hmark
            simp
      rw [List.zip_cons_cons, List.filter_cons, List.filter_cons, ← ih hrest, ← hd]
      cases mark <;> rfl

theorem strikeKeySet_struck (h : strikeKeySet domains r key = .ok r') : KeyStruck Held domains key r r' := by
  unfold strikeKeySet at h
  split at h
  · next hheld =>
    obtain ⟨ds, hds, h⟩ := Py.bind_eq_ok.mp h
    obtain ⟨marks, hmarks, h⟩ := Py.bind_eq_ok.mp h
    refine ⟨fun _ => ?_, fun hnot => absurd hheld hnot⟩
    rw [← Py.pure_eq_ok.mp h, unmarked_eq hmarks, Json.items_eq_ok hds]
  · next hheld => exact ⟨fun hyes => absurd hyes hheld, fun _ => (Py.pure_eq_ok.mp h).symm⟩

theorem strikeSet_struck (h : strikeSet domains r = .ok r') : Struck Held domains r r' := by
  obtain ⟨r₁, h₁, h₂⟩ := Py.bind_eq_ok.mp h
  exact ⟨strikeSet_fewer h, r₁, strikeKeySet_struck h₁, strikeKeySet_struck h₂⟩

/-- A value that names the domain holds something. -/
theorem held_of_names (hdomain : domain ≠ "") {v : Json} (h : Names domain v) : v.truthy = true := by
  by_contra hempty
  cases v with
  | arr ds =>
      have hnil : ds = [] := by simpa [Json.truthy] using hempty
      rw [hnil] at h
      cases h
  | str text =>
      have hnil : text = "" := by simpa [Json.truthy] using hempty
      rw [hnil] at h
      have hinfix : domain.toList <:+: [] := of_decide_eq_true (Except.ok.inj h)
      exact hdomain (String.toList_eq_nil_iff.mp (List.infix_nil.mp hinfix))
  | obj kvs =>
      have hnil : kvs = [] := by simpa [Json.truthy] using hempty
      rw [hnil] at h
      cases h
  | _ => cases h

theorem patchKey_struck {b : Bool} (hdomain : domain ≠ "") (h : patchKey domain r key = .ok (r', b)) :
    KeyStruck (Names domain) [domain] key r r' := by
  unfold patchKey at h
  obtain ⟨c, hc, h⟩ := Py.bind_eq_ok.mp h
  have hhas : c = true ↔ Names domain (r.field key) := by
    rw [listedOr] at hc
    split at hc
    · rw [Names, hc, Except.ok.injEq]
    · next hempty =>
      obtain rfl : false = c := Except.ok.inj hc
      exact iff_of_false Bool.false_ne_true fun hnames => hempty (held_of_names hdomain hnames)
  cases c with
  | false =>
      obtain ⟨rfl, -⟩ := Prod.mk.inj (Py.pure_eq_ok.mp h)
      exact ⟨fun hnames => (nomatch hhas.mpr hnames), fun _ => rfl⟩
  | true =>
      obtain ⟨r₁, hdrop, h⟩ := Py.bind_eq_ok.mp h
      obtain ⟨rfl, -⟩ := Prod.mk.inj (Py.pure_eq_ok.mp h)
      exact ⟨fun _ => dropFrom_struck hdrop, fun hnot => absurd (hhas.mp rfl) hnot⟩

theorem patchOne_struck {p : Rule × Bool × Bool} (hdomain : domain ≠ "") (h : patchOne domain r = .ok p) :
    Struck (Names domain) [domain] r p.1 := by
  -- the two flags besides the rule are not looked at
  have hfewer := patchOne_fewer h
  obtain ⟨⟨r₁, b₁⟩, h₁, h⟩ := Py.bind_eq_ok.mp h
  obtain ⟨⟨r₂, b₂⟩, h₂, h⟩ := Py.bind_eq_ok.mp h
  rw [← Py.pure_eq_ok.mp h] at hfewer ⊢
  exact ⟨hfewer, r₁, patchKey_struck hdomain h₁, patchKey_struck hdomain h₂⟩

theorem forall₂_of_mapM {f : Rule → Py Refusal Rule} (h : rules.mapM f = .ok struck)
    (hf : ∀ r r', f r = .ok r' → Struck rewritten D r r') : List.Forall₂ (Struck rewritten D) rules struck :=
  (Py.mapM_forall₂ h).imp fun _ _ => hf _ _

theorem strikeKey_unnamed (h : (r.listed key).has (ε := Refusal) domain = .ok false) : strikeKey domain r key = .ok r := by
  rw [strikeKey, h]
  rfl

/-- Rules that do not name the domain are left as they are. -/
theorem onlyDomains_of_unnamed (h : mentionedIn domain rules = .ok false) : OnlyDomains [domain] rules rules := by
  induction rules with
  | nil => exact .nil
  | cons r rules ih =>
      obtain ⟨b, hb, h⟩ := Py.bind_eq_ok.mp h
      cases b with
      | true => cases h
      | false =>
          obtain ⟨c, hsuffix, hb⟩ := Py.bind_eq_ok.mp hb
          cases c with
          | true => cases hb
          | false =>
              have hstrike : strike domain r = .ok r := by
                have hexact : (r.listed "domain").has (ε := Refusal) domain = .ok false := hb
                rw [strike, strikeKey_unnamed hsuffix, Py.ok_bind, strikeKey_unnamed hexact]
              have hlists : Lists (Names domain) r := by
                rintro key (rfl | rfl) hnames
                · rw [has_listed.mpr hnames] at hsuffix
                  cases hsuffix
                · rw [← has_listed] at hnames
                  have hexact : (r.listed "domain").has (ε := Refusal) domain = .ok false := hb
                  rw [hnames] at hexact
                  cases hexact
              have hsame : r = without [domain] r := (strike_struck hstrike).eq_without (sees_names domain) hlists
              have hkeep := OnlyDomains.keep (r := r) (ih h)
              rwa [← hsame] at hkeep

/-- Deleting domains touches them only, exactly if nothing but lists is rewritten in the rules that stay
and every rule that the clean-up takes out had domains and has no matcher left. -/
theorem struck_iff (H : Host) :
    (∀ domain g g', delRule H domain g = .ok g' →
      (OnlyDomains [canonicalDomain H domain] g.model.rules g'.model.rules ↔
        (mentionedIn (canonicalDomain H domain) g.model.rules = .ok true →
          ∀ r ∈ g.model.rules, Meets (Names (canonicalDomain H domain)) [canonicalDomain H domain] r))) ∧
    (∀ domains g g', delRulesBulk H domains g = .ok g' →
      (OnlyDomains (selected H domains) g.model.rules g'.model.rules ↔
        ∀ r ∈ g.model.rules, Meets Held (selected H domains) r)) ∧
    ∀ old value g g', webTarget H value = .ok "direct" → patchRule H old value g = .ok g' →
      (OnlyDomains [canonicalDomain H old] g.model.rules g'.model.rules ↔
        ∀ r ∈ g.model.rules, Meets (Names (canonicalDomain H old)) [canonicalDomain H old] r) := by
  refine ⟨fun domain g g' h => ?_, fun domains g g' h => ?_, fun old value g g' htarget h => ?_⟩
  · obtain ⟨-, -, ⟨hnamed, hmodel⟩ | ⟨hnamed, rules, hstrike, hmodel⟩⟩ := delRule_cases h
    · rw [hmodel]
      refine iff_of_true (onlyDomains_of_unnamed hnamed) fun hyes => ?_
      rw [hnamed] at hyes
      cases hyes
    · rw [hmodel, cleanUp_iff (sees_names _) (forall₂_of_mapM hstrike fun _ _ => strike_struck)]
      exact ⟨fun hall _ => hall, fun hall => hall hnamed⟩
  · obtain ⟨rules, hstrike, rfl⟩ := delRulesBulk_cases h
    exact cleanUp_iff (sees_held _) (forall₂_of_mapM hstrike fun _ _ => strikeSet_struck)
  · obtain ⟨target, rules, found, key, hdomain, htarget', hpatch, hcases⟩ := patchRule_cases h
    rw [htarget] at htarget'
    obtain rfl : "direct" = target := Except.ok.inj htarget'
    obtain ⟨-, rfl⟩ | ⟨hnot, -⟩ := hcases
    · obtain ⟨patched, hpatched, rfl, -⟩ := patchRules_cases hpatch
      have hne : canonicalDomain H old ≠ "" := by
        intro hempty
        rw [hempty] at hdomain
        revert hdomain
        decide
      refine cleanUp_iff (sees_names _) (List.forall₂_map_right_iff.mpr ?_)
      exact (Py.mapM_forall₂ hpatched).imp fun _ _ => patchOne_struck hne
    · exact absurd rfl hnot

/-- A domain rule alone. -/
def oneRule : Gateway where
  model := ⟨[⟨"tokyo", "socks"⟩], [], "tokyo", [newRule "domain_suffix" "example.com" "tokyo"], []⟩
  direct := []
  hijack := ["example.com"]
  rsMeta := []

theorem struck_oneRule : OnlyDomains ["example.com"] oneRule.model.rules [] := by
  have hdel : delRule plainHost "example.com" oneRule = .ok { oneRule with
      model := { oneRule.model with rules := [] }
      hijack := [] } := rfl
  refine ((struck_iff plainHost).1 _ _ _ hdel).mpr fun _ r hr => ?_
  obtain rfl := List.mem_singleton.mp hr
  rw [Meets, if_neg (by decide)]
  exact ⟨by decide, by decide⟩

/-- The rule for the Telegram inbound, in front of a domain rule. -/
def pinInFront : Gateway :=
  { oneRule with model := { oneRule.model with
    rules := [("inbound", .arr [.str "tg-proxy"]), ("outbound", .str "tokyo")] :: oneRule.model.rules } }

/-- Deleting the domain deletes the rule for the inbound with it. -/
theorem pin_struck : ∃ g', delRule plainHost "example.com" pinInFront = .ok g' ∧
    ¬OnlyDomains ["example.com"] pinInFront.model.rules g'.model.rules := by
  have hdel : delRule plainHost "example.com" pinInFront = .ok { oneRule with
      model := { oneRule.model with rules := [] }
      hijack := [] } := rfl
  refine ⟨_, hdel, fun h => ?_⟩
  have hkept := h.mem List.mem_cons_self (by decide)
  cases hkept

end ProxyGateway.Route
