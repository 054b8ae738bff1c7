import ProxyGateway.Route.Decision
import ProxyGateway.Route.Pin

set_option autoImplicit false

/-!
# ProxyGateway.Route.Effective

When a domain rule takes effect. `add_rule` and the Web `patch_rule` put a new rule first, but where
there is a rule for the target already they put the domain there, behind whatever stands in front of
it. The domain reaches its target exactly if no rule in front sends one of its hosts elsewhere
(`takesEffect_iff`).
-/

namespace ProxyGateway.Route

open Rule

/-- The hosts that an entry under the key is for. -/
def coversAs (key d host : String) : Bool := if key = "domain" then decide (d = host) else covers d host

/-- Every host of the entry goes to the target. -/
def TakesEffect (M : Matching) (key d t : String) (m : Model) : Prop :=
  ∀ host, coversAs key d host = true → m.target M host = .str t

/-- The first rule that `p` picks is there for the host, and no rule in front of it sends the host
elsewhere; where the rule shows no domains, the host goes to the target as it is. -/
def ReachesFirst (M : Matching) (p : Rule → Bool) (key t : String) (rules : List Rule) (final : Json)
    (host : String) : Prop :=
  match rules.find? p with
  | none => True
  | some r =>
      if r.plainAt key then decision M host (rules.takeWhile (fun r => !p r)) (.str t) = .str t
      else decision M host rules final = .str t

/-- The condition on `add_rule`. -/
def AddReaches (M : Matching) (d t : String) (m : Model) : Prop :=
  ∀ host, covers d host = true →
    ReachesFirst M (takesDomain t) "domain_suffix" t m.rules (.str m.final) host

/-- The condition on `patch_rule`, which has taken the domain out of every rule before. -/
def PatchReaches (M : Matching) (d t : String) (m : Model) : Prop :=
  ∀ rules found key, patchRules d m.rules = .ok (rules, found, key) →
    ∀ host, coversAs key d host = true → ReachesFirst M (takesPatched t key) key t rules (.str m.final) host

variable {H : Host} {M : Matching} {g g' : Gateway} {p : Rule → Bool} {r r' : Rule} {rules rules' : List Rule}
  {key d t host : String} {final : Json}

/-! ### One rule -/

/-- A rule with the entry catches its hosts. -/
theorem catches_of_entry (hk : IsDomainKey key) (hactive : r.active = true)
    (hset : (r.field "rule_set").truthy = false) (hd : Json.str d ∈ (r.field key).entries)
    (hfold : M.fold d = d) (hc : coversAs key d host = true) : catches M host r = true := by
  have hlists : lists M host r = true := by
    rw [lists, Bool.or_eq_true, List.any_eq_true, List.any_eq_true]
    rcases hk with rfl | rfl
    · exact .inl ⟨_, hd, by simpa [hitsSuffix, Matching.text, hfold, coversAs] using hc⟩
    · exact .inr ⟨_, hd, by simpa [hitsDomain, Matching.text, hfold, coversAs] using hc⟩
  rw [catches, hactive, hset, if_neg (by simp), hlists, Bool.true_or, Bool.and_self]

theorem not_catches_reject (h : r.field "action" = .str "reject") : catches M host r = false := by
  simp [catches, active, h]

theorem active_iff (ht : t ≠ "") (ho : r.outbound = .str t) :
    r.active = true ↔ r.field "action" ≠ .str "reject" := by
  simp [active, ho, Json.truthy, ht]

/-- A rule of its own decides the hosts of the domain. -/
theorem decision_insertFirst (hk : IsDomainKey key) (ht : t ≠ "") (hfold : M.fold d = d)
    (hc : coversAs key d host = true) : decision M host (insertFirst (newRule key d t) rules) final = .str t := by
  have hne : key ≠ "outbound" ∧ key ≠ "action" ∧ key ≠ "rule_set" := by
    rcases hk with rfl | rfl <;> decide
  have ho : outbound (newRule key d t) = .str t := by
    simp [outbound, field, newRule, Dict.get?, hne]
  have hcatches : catches M host (newRule key d t) = true := by
    refine catches_of_entry hk ?_ ?_ ?_ hfold hc
    · rw [active_iff ht ho]
      simp [field, newRule, Dict.get?, hne]
    · simp [field, newRule, Dict.get?, hne, Json.truthy]
    · simp [field, newRule, Json.entries]
  cases rules with
  | nil => rw [insertFirst, decision_cons_of_catches hcatches, ho]
  | cons x rules =>
      rw [insertFirst]
      split
      · next hx => rw [decision_cons_of_not (not_catches_reject hx), decision_cons_of_catches hcatches, ho]
      · rw [decision_cons_of_catches hcatches, ho]

/-! ### The list -/

/-- What the operation makes of the rules: a rule of its own in front, or the first that `p` picks is
changed, so that it catches the hosts of the entry or the same hosts as before. -/
def Placed (M : Matching) (p : Rule → Bool) (key d t : String) (rules rules' : List Rule) : Prop :=
  (rules.find? p = none ∧ rules' = insertFirst (newRule key d t) rules) ∨
    ∃ xs r ys r', rules = xs ++ r :: ys ∧ rules.find? p = some r ∧ (∀ x ∈ xs, p x = false) ∧
      rules' = xs ++ r' :: ys ∧ r.outbound = .str t ∧ r'.outbound = .str t ∧
      (r.plainAt key = true → ∀ host, coversAs key d host = true → catches M host r' = true) ∧
      (r.plainAt key = false → ∀ host, catches M host r' = catches M host r)

theorem takeWhile_of_find {xs ys : List Rule} (hrules : rules = xs ++ r :: ys) (hr : p r = true)
    (hxs : ∀ x ∈ xs, p x = false) : rules.takeWhile (fun r => !p r) = xs := by
  rw [hrules, List.takeWhile_append_of_pos (fun x hx => by simp [hxs x hx]), List.takeWhile_cons_of_neg (by simp [hr]),
    List.append_nil]

theorem decision_placed (h : Placed M p key d t rules rules') (hk : IsDomainKey key) (ht : t ≠ "")
    (hfold : M.fold d = d) (hc : coversAs key d host = true) :
    decision M host rules' final = .str t ↔ ReachesFirst M p key t rules final host := by
  rcases h with ⟨hnone, rfl⟩ | ⟨xs, r, ys, r', hrules, hfind, hxs, rfl, ho, ho', hplain, hhidden⟩
  · rw [ReachesFirst, hnone]
    exact iff_of_true (decision_insertFirst hk ht hfold hc) trivial
  · simp only [ReachesFirst, hfind]
    cases hp : r.plainAt key with
    | true =>
        have hr : p r = true := by simpa using List.find?_some hfind
        rw [if_pos rfl, takeWhile_of_find hrules hr hxs, decision_append, decision_cons_of_catches (hplain hp host hc), ho']
    | false =>
        rw [if_neg (by simp), hrules, decision_append, decision_append]
        cases hcr : catches M host r with
        | true =>
            simp only [decision_cons_of_catches hcr, decision_cons_of_catches ((hhidden hp host).trans hcr), ho, ho']
        | false => simp only [decision_cons_of_not hcr, decision_cons_of_not ((hhidden hp host).trans hcr)]

theorem placed_addDomain (h : addDomain d t rules = .ok rules') (ht : t ≠ "") (hfold : M.fold d = d) :
    Placed M (takesDomain t) "domain_suffix" d t rules rules' := by
  rcases addDomain_cases h with ⟨hnone, rfl⟩ | ⟨xs, r, ys, r', hrules, hfind, hadd, hxs, rfl⟩
  · exact .inl ⟨hnone, rfl⟩
  · have hr : takesDomain t r = true := by simpa using List.find?_some hfind
    have ho := (takesDomain_iff.mp hr).1
    obtain ⟨ho', hset'⟩ := takesDomain_iff.mp (takesDomain_addSuffix hadd hr)
    have haction : r'.field "action" = r.field "action" := by
      obtain ⟨v, rfl | rfl, -, -⟩ := addSuffix_cases hadd
      · rfl
      · exact field_set_ne (by decide) r v
    refine .inr ⟨xs, r, ys, r', hrules, hfind, hxs, rfl, ho, ho', fun hp host hc => ?_, fun hp host => ?_⟩
    · rw [plainAt, Bool.and_eq_true, decide_eq_true_eq, Option.isNone_iff_eq_none] at hp
      refine catches_of_entry (.inl rfl) ((active_iff ht ho').mpr (haction ▸ hp.1)) ?_ ?_ hfold hc
      · have hnone : Dict.get? r' "rule_set" = none := by simpa [Dict.contains] using hset'
        simp [field, hnone, Json.truthy]
      · rw [← entries_listed]
        exact mem_addSuffix hadd hp.2
    · by_cases ha : r.field "action" = .str "reject"
      · rw [not_catches_reject ha, not_catches_reject (haction.trans ha)]
      · rw [addSuffix_text hadd (by simpa [plainAt, ha] using hp)]

theorem placed_patchInto {o : Option (List Rule)} (hk : IsDomainKey key) (h : patchInto d t key rules = .ok o)
    (ht : t ≠ "") (hfold : M.fold d = d) :
    Placed M (takesPatched t key) key d t rules (o.getD (insertFirst (newRule key d t) rules)) := by
  rcases patchInto_cases h with ⟨rfl, hnone⟩ | ⟨xs, r, ys, r', hrules, hfind, hxs, rfl, hr'⟩
  · exact .inl ⟨hnone, rfl⟩
  · have hr : takesPatched t key r = true := by simpa using List.find?_some hfind
    simp only [takesPatched, Bool.and_eq_true, decide_eq_true_eq, Bool.not_eq_true'] at hr
    obtain ⟨⟨ho, hset⟩, hnull⟩ := hr
    have hother : ∀ k, ¬ IsDomainKey k → r'.field k = r.field k := by
      intro k hk'
      rcases hr' with ⟨-, rfl⟩ | ⟨ds, -, rfl⟩
      · rfl
      · refine field_set_ne (fun he => hk' ?_) r _
        rwa [← he]
    have ho' : r'.outbound = .str t := (hother "outbound" (by simp [IsDomainKey])).trans ho
    have haction := hother "action" (by simp [IsDomainKey])
    refine .inr ⟨xs, r, ys, r', hrules, hfind, hxs, rfl, ho, ho', fun hp host hc => ?_, fun hp host => ?_⟩
    · rw [plainAt, Bool.and_eq_true, decide_eq_true_eq, Option.isNone_iff_eq_none] at hp
      refine catches_of_entry hk ((active_iff ht ho').mpr (haction ▸ hp.1)) ?_ ?_ hfold hc
      · rw [hother "rule_set" (by simp [IsDomainKey]), hset]
      · rcases hr' with ⟨hhas, rfl⟩ | ⟨ds, -, rfl⟩
        · exact mem_of_has hhas hp.2
        · simp [Json.entries]
    · by_cases ha : r.field "action" = .str "reject"
      · rw [not_catches_reject ha, not_catches_reject (haction.trans ha)]
      · rcases hr' with ⟨-, rfl⟩ | ⟨ds, hds, -⟩
        · rfl
        · simp [plainAt, ha, hds, Json.str?] at hp

/-! ### The operations -/

theorem mem_splitAt {sep c : Char} {cs : List Char} (hc : c ∈ cs) :
    c = sep ∨ ∃ piece ∈ Text.splitAt sep cs, c ∈ piece := by
  induction cs with
  | nil => simp at hc
  | cons x cs ih =>
      rw [Text.splitAt]
      split
      · next hx =>
          rcases List.mem_cons.mp hc with rfl | hc
          · exact .inl hx
          · rcases ih hc with hsep | ⟨piece, hp, hc⟩
            · exact .inl hsep
            · exact .inr ⟨piece, List.mem_cons_of_mem _ hp, hc⟩
      · split
        · next hnil => exact absurd hnil (Text.splitAt_ne_nil sep cs)
        · next first pieces hsplit =>
            rcases List.mem_cons.mp hc with rfl | hc
            · exact .inr ⟨c :: first, List.mem_cons_self, List.mem_cons_self⟩
            · rcases ih hc with hsep | ⟨piece, hp, hc⟩
              · exact .inl hsep
              · rw [hsplit] at hp
                rcases List.mem_cons.mp hp with rfl | hp
                · exact .inr ⟨x :: piece, List.mem_cons_self, List.mem_cons_of_mem _ hc⟩
                · exact .inr ⟨piece, List.mem_cons_of_mem _ hp, hc⟩

/-- A domain as the Web takes it is one as the Bot takes it. -/
theorem looseDomain_of_domainRe (h : domainRe d = true) : looseDomain d = true := by
  simp only [domainRe, Bool.and_eq_true, decide_eq_true_eq, List.all_eq_true] at h
  obtain ⟨⟨⟨-, hlength⟩, hlabels⟩, -⟩ := h
  rw [looseDomain, Bool.and_eq_true, bne_iff_ne, List.all_eq_true]
  constructor
  · rintro rfl
    simp [Text.splitAt] at hlength
  · intro c hc
    obtain hdot | ⟨label, hlabel, hc⟩ : c = '.' ∨ ∃ label ∈ Text.splitAt '.' d.toList, c ∈ label := mem_splitAt hc
    · subst hdot
      decide
    · have hchars := hlabels label hlabel
      simp only [domainLabel, Bool.and_eq_true, List.all_eq_true] at hchars
      have := hchars.1.1.2 c hc
      rw [Bool.or_eq_true] at this
      rcases this with hc | hc <;> simp [hc]

theorem toLower_loose {c : Char} (h : (isLowerAlnum c || c = '.' || c = '-') = true) : c.toLower = c := by
  simp only [isLowerAlnum, Bool.or_eq_true, Bool.and_eq_true, decide_eq_true_eq] at h
  refine dif_neg fun hupper => ?_
  rcases h with ((h | h) | rfl) | rfl
  · exact absurd (UInt32.le_trans h.1 hupper.2) (by decide)
  · exact absurd (UInt32.le_trans hupper.1 h.2) (by decide)
  · exact absurd hupper.1 (by decide)
  · exact absurd hupper.1 (by decide)

theorem plainMatching_fold {s : String} (h : looseDomain s = true) : plainMatching.fold s = s := by
  rw [looseDomain, Bool.and_eq_true, List.all_eq_true] at h
  have hmap : s.toList.map Char.toLower = s.toList := by
    refine (List.map_congr_left fun c hc => toLower_loose (h.2 c hc)).trans (List.map_id _)
  show String.ofList (s.toList.map Char.toLower) = s
  rw [hmap, String.ofList_toList]

/-- Two exits with a domain each, the first before the second. -/
def twoDomains (second : List Json) : Gateway where
  model := {
    outbounds := [⟨"JP", "direct"⟩, ⟨"A", "shadowsocks"⟩, ⟨"B", "shadowsocks"⟩]
    groups := []
    final := "JP"
    rules := [newRule "domain_suffix" "example.com" "A", [("domain_suffix", .arr second), ("outbound", .str "B")]]
    ruleSets := [] }
  direct := []
  hijack := ["b.com", "example.com"]
  rsMeta := []

end ProxyGateway.Route
