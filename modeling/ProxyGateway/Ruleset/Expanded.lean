import ProxyGateway.Ruleset.Aggregate

set_option autoImplicit false

/-!
# ProxyGateway.Ruleset.Expanded

What the sets of entries hold. Each reader of values rewrites the texts of a field one by one (`Rewrites`),
so that the sets of the two files are the rewritten values that the rulesets declare (`mem_direct`,
`mem_hijack`). The order of the rulesets does not show (`directBytes_perm`, `hijackBytes_perm`).
-/

namespace ProxyGateway.Ruleset

open Schema Render Mosdns Py

variable {D : Deriver} {m m' : RulesetMeta} {staged watched : Dict String (Option Bytes)} {name leaf s : String}
  {info rule source : Json} {k : Kind} {e : Entries}

/-! ### What a ruleset declares -/

/-- The field of a rule whose values are of a kind. -/
def fieldOf : Kind → Option String
  | .full => some "domain"
  | .domain => some "domain_suffix"
  | .keyword => some "domain_keyword"
  | .regexp => none

/-- The rule lists the value under the field. -/
def Lists (rule : Json) (field s : String) : Prop :=
  ∃ values, rule.get? field = some (.arr values) ∧ Json.str s ∈ values

/-- A rule of the source lists the value as one of the kind. -/
def Declares (source : Json) (k : Kind) (s : String) : Prop :=
  ∃ rules, sourceRules source = some rules ∧ ∃ rule ∈ rules, ∃ field, fieldOf k = some field ∧ Lists rule field s

/-- The parsed source of an entry. -/
def sourceOf (D : Deriver) (staged watched : Dict String (Option Bytes)) (name : String) (info : Json) : Option Json :=
  (sourceData staged watched (D.leafOf name info)).bind D.loads

/-- Some ruleset among those that `part` selects declares the value. -/
def Declared (D : Deriver) (m : RulesetMeta) (staged watched : Dict String (Option Bytes))
    (part : String → Json → Bool) (k : Kind) (s : String) : Prop :=
  ∃ name info, (name, info) ∈ m.entries ∧ part name info = true ∧
    ∃ source, sourceOf D staged watched name info = some source ∧ Declares source k s

/-- The rulesets that the phone reaches directly. -/
def directPart (_ : String) (info : Json) : Bool := isDirect info

/-- The rulesets that lead to an exit and whose source can be expanded. -/
def Deriver.hijackPart (D : Deriver) (name : String) (info : Json) : Bool :=
  !isDirect info && endsWith ".json" (D.leafOf name info)

/-! ### The file names -/

theorem managedLeaf_eq_ok {seen : Dict String String} (h : managedLeaf D seen name info = .ok leaf) :
    leaf = D.leafOf name info := by
  simp only [managedLeaf, raiseIf_bind_eq_ok] at h
  obtain ⟨-, h⟩ := h
  obtain ⟨-, h⟩ := unit_bind_eq_ok.mp h
  simp only [raiseIf_bind_eq_ok, pure_eq_ok] at h
  exact h.2.2.2.2.symm

theorem managedLoop_eq_ok {seen managed : Dict String String} {entries : List (String × Json)}
    (h : managedLoop D seen entries = .ok managed) : managed = entries.map fun p => (p.1, D.leafOf p.1 p.2) := by
  induction entries generalizing seen managed with
  | nil => exact (Except.ok.inj h).symm
  | cons p entries ih =>
      obtain ⟨name, info⟩ := p
      obtain ⟨leaf, hleaf, h⟩ := bind_eq_ok.mp h
      obtain ⟨rest, hrest, h⟩ := bind_eq_ok.mp h
      rw [List.map_cons, ← pure_eq_ok.mp h, ih hrest, managedLeaf_eq_ok hleaf]

/-- The file name that is recorded for an entry. -/
theorem managedAt_of_mem {managed : Dict String String} (h : managedOrRefused D m.entries = .ok managed)
    (hmem : (name, info) ∈ m.entries) : managedAt managed name = .ok (D.leafOf name info) := by
  have hmanaged : managedRulesets D m.entries = .ok managed := by
    unfold managedOrRefused at h
    split at h
    next heq => rw [heq, Except.ok.inj h]
    · exact (raise_ne_ok.mp h).elim
    · exact (fault_ne_ok.mp h).elim
  have huniq : Dict.Uniq m.entries.sorted := Dict.sorted_keys_nodup m.uniq
  have hread : Dict.get? m.entries.sorted name = some info := huniq.get?_of_mem (Dict.mem_sorted.mpr hmem)
  rw [managedAt, managedLoop_eq_ok hmanaged, Dict.get?_map (fun key value => D.leafOf key value), hread]
  rfl

/-! ### Sets of entries -/

/-- The entries of a kind. -/
def Entries.of (e : Entries) : Kind → List String
  | .full => e.full
  | .domain => e.domain
  | .keyword => e.keyword
  | .regexp => []

@[simp] theorem of_union (a b : Entries) (k : Kind) : (a.union b).of k = a.of k ++ b.of k := by
  cases k <;> rfl

theorem mem_unionAll {xs : List Entries} : s ∈ (unionAll xs).of k ↔ ∃ e ∈ xs, s ∈ e.of k := by
  have hfold : ∀ acc : Entries, s ∈ (xs.foldl Entries.union acc).of k ↔ s ∈ acc.of k ∨ ∃ e ∈ xs, s ∈ e.of k := by
    induction xs with
    | nil => simp
    | cons e xs ih =>
        intro acc
        simp only [List.foldl_cons, ih, of_union, List.mem_append, List.mem_cons, exists_eq_or_imp, or_assoc]
  have hempty : s ∉ (({} : Entries).of k) := by
    cases k <;> exact List.not_mem_nil
  rw [unionAll, hfold]
  exact or_iff_right hempty

/-! ### Reading values -/

/-- What passes the checks on a value of the field. -/
structure Passes (field s : String) : Prop where
  host : isHostField field = true → phoneDirectDomainRe s = true

/-- A reader of values that rewrites each text by `g` and refuses what does not pass. -/
def Rewrites (g : String → String) (values : String → Json → Py AggregateError (List String)) : Prop :=
  ∀ field value ss, values field value = .ok ss →
    ∃ xs, value = .arr xs ∧ List.Forall₂ (fun x s => ∃ raw, x = .str raw ∧ hasControl raw = false ∧ s = g raw ∧
      Passes field s) xs ss

theorem rewrites_direct (D : Deriver) (ruleset : String) : Rewrites id (phoneDirectValues D ruleset) := by
  intro field value ss h
  cases value with
  | arr xs =>
      refine ⟨xs, rfl, (mapM_forall₂ h).imp fun x s hx => ?_⟩
      cases x with
      | str raw =>
          simp only [phoneDirectValue, raiseIf_bind_eq_ok, pure_eq_ok] at hx
          obtain ⟨-, hcontrol, hhost, rfl⟩ := hx
          exact ⟨raw, rfl, hcontrol, rfl, ⟨fun hfield => by simp_all⟩⟩
      | _ => exact (raise_ne_ok.mp hx).elim
  | _ => exact (raise_ne_ok.mp h).elim

theorem rewrites_hijack (D : Deriver) (ruleset : String) : Rewrites D.site.lower (hijackValues D ruleset) := by
  intro field value ss h
  cases value with
  | arr xs =>
      refine ⟨xs, rfl, (mapM_forall₂ h).imp fun x s hx => ?_⟩
      cases x with
      | str raw =>
          simp only [hijackValue, raiseIf_bind_eq_ok, pure_eq_ok, Bool.or_eq_false_iff] at hx
          obtain ⟨⟨-, hcontrol⟩, hhost, rfl⟩ := hx
          exact ⟨raw, rfl, hcontrol, rfl, ⟨fun hfield => by simp_all⟩⟩
      | _ => exact (raise_ne_ok.mp hx).elim
  | _ => exact (raise_ne_ok.mp h).elim

/-- What an entry of a set is: a rewritten text, with a host name where the kind has one. -/
structure Sound (g : String → String) (k : Kind) (raw s : String) : Prop where
  eq : s = g raw
  plain : hasControl raw = false
  host : k ≠ .keyword → phoneDirectDomainRe s = true

section Read

variable {g : String → String} {values : String → Json → Py AggregateError (List String)} {field : String}
  {ss : List String}

/-- A field that is read: its values are rewritten one by one. -/
theorem mem_of_reads (hg : Rewrites g values) (h : values field (rule.getD field (.arr [])) = .ok ss) :
    (∀ s ∈ ss, ∃ raw, Lists rule field raw ∧ s = g raw ∧ hasControl raw = false ∧ Passes field s) ∧
      ∀ raw, Lists rule field raw → g raw ∈ ss := by
  obtain ⟨xs, hvalue, hpairs⟩ := hg field _ ss h
  have hlists : ∀ raw, Lists rule field raw ↔ Json.str raw ∈ xs := by
    intro raw
    rw [Json.getD] at hvalue
    cases hget : rule.get? field with
    | none =>
        rw [hget] at hvalue
        cases hvalue
        simp [Lists, hget]
    | some value =>
        rw [hget] at hvalue
        change value = _ at hvalue
        subst hvalue
        simp [Lists, hget]
  constructor
  · intro s hs
    obtain ⟨x, hx, raw, rfl, hcontrol, heq, hpass⟩ := exists_of_forall₂ hpairs.flip hs
    exact ⟨raw, (hlists raw).mpr hx, heq, hcontrol, hpass⟩
  · intro raw hraw
    obtain ⟨s, hs, raw', heq, -, rfl, -⟩ := exists_of_forall₂ hpairs ((hlists raw).mp hraw)
    cases heq
    exact hs

end Read

/-! ### A ruleset -/

/-- The entries are the values of a source, each rewritten by `g`. -/
structure Expands (g : String → String) (declared : Kind → String → Prop) (e : Entries) : Prop where
  sound : ∀ k, ∀ s ∈ e.of k, ∃ raw, declared k raw ∧ Sound g k raw s
  complete : ∀ k raw, declared k raw → g raw ∈ e.of k

/-- The union over things that expand. -/
theorem expands_unionAll {ι : Type} {g : String → String} (declared : ι → Kind → String → Prop) {is : List ι}
    {es : List Entries} (h : List.Forall₂ (fun i e => Expands g (declared i) e) is es) :
    Expands g (fun k s => ∃ i ∈ is, declared i k s) (unionAll es) where
  sound k s hs := by
    obtain ⟨e, he, hs⟩ := mem_unionAll.mp hs
    obtain ⟨i, hi, hexpands⟩ := exists_of_forall₂ h.flip he
    obtain ⟨raw, hraw, hsound⟩ := hexpands.sound k s hs
    exact ⟨raw, ⟨i, hi, hraw⟩, hsound⟩
  complete k raw hraw := by
    obtain ⟨i, hi, hraw⟩ := hraw
    obtain ⟨e, he, hexpands⟩ := exists_of_forall₂ h hi
    exact mem_unionAll.mpr ⟨e, he, hexpands.complete k raw hraw⟩

/-- The entries of a rule are the rewritten values that it lists. -/
theorem expands_rule {g : String → String} {values : String → Json → Py AggregateError (List String)}
    (hg : Rewrites g values) (h : ruleEntries values rule = .ok e) :
    Expands g (fun k s => ∃ field, fieldOf k = some field ∧ Lists rule field s) e := by
  obtain ⟨full, hfull, h⟩ := bind_eq_ok.mp h
  obtain ⟨domain, hdomain, h⟩ := bind_eq_ok.mp h
  obtain ⟨keyword, hkeyword, h⟩ := bind_eq_ok.mp h
  obtain rfl := pure_eq_ok.mp h
  have hfull := mem_of_reads hg hfull
  have hdomain := mem_of_reads hg hdomain
  have hkeyword := mem_of_reads hg hkeyword
  constructor
  · intro k s hs
    cases k with
    | full =>
        obtain ⟨raw, hlist, heq, hplain, hpass⟩ := hfull.1 s hs
        exact ⟨raw, ⟨_, rfl, hlist⟩, heq, hplain, fun _ => hpass.host rfl⟩
    | domain =>
        obtain ⟨raw, hlist, heq, hplain, hpass⟩ := hdomain.1 s hs
        exact ⟨raw, ⟨_, rfl, hlist⟩, heq, hplain, fun _ => hpass.host rfl⟩
    | keyword =>
        obtain ⟨raw, hlist, heq, hplain, -⟩ := hkeyword.1 s hs
        exact ⟨raw, ⟨_, rfl, hlist⟩, heq, hplain, fun hne => (hne rfl).elim⟩
    | regexp => cases hs
  · rintro k raw ⟨field, hfield, hlist⟩
    cases k with
    | full =>
        cases hfield
        exact hfull.2 raw hlist
    | domain =>
        cases hfield
        exact hdomain.2 raw hlist
    | keyword =>
        cases hfield
        exact hkeyword.2 raw hlist
    | regexp => cases hfield

theorem Expands.congr {g : String → String} {declared declared' : Kind → String → Prop} (h : Expands g declared e)
    (heq : ∀ k s, declared k s ↔ declared' k s) : Expands g declared' e where
  sound k s hs := by
    obtain ⟨raw, hraw, hsound⟩ := h.sound k s hs
    exact ⟨raw, (heq k raw).mp hraw, hsound⟩
  complete k raw hraw := h.complete k raw ((heq k raw).mpr hraw)

theorem loadRules_eq_ok {what ruleset : String} {data : Bytes} {rules : List Json}
    (h : loadRules D what ruleset data = .ok rules) :
    ∃ source, D.loads data = some source ∧ sourceRules source = some rules := by
  unfold loadRules at h
  split at h
  · exact (raise_ne_ok.mp h).elim
  next source hsource =>
    split at h
    · exact (raise_ne_ok.mp h).elim
    next hrules => exact ⟨source, hsource, by rw [hrules, Except.ok.inj h]⟩

/-- The values that a source declares, by its rules. -/
theorem declares_iff {rules : List Json} (h : sourceRules source = some rules) (k : Kind) (s : String) :
    (∃ rule ∈ rules, ∃ field, fieldOf k = some field ∧ Lists rule field s) ↔ Declares source k s := by
  simp [Declares, h]

theorem expands_direct {data : Bytes} {ruleset : String} (h : phoneDirectEntries D data ruleset = .ok e) :
    ∃ source, D.loads data = some source ∧ Expands id (Declares source) e := by
  obtain ⟨rules, hrules, h⟩ := bind_eq_ok.mp h
  obtain ⟨es, hes, h⟩ := bind_eq_ok.mp h
  obtain rfl := pure_eq_ok.mp h
  obtain ⟨source, hsource, hrules⟩ := loadRules_eq_ok hrules
  refine ⟨source, hsource, (expands_unionAll _ ((mapM_forall₂ hes).imp fun rule e he => ?_)).congr (declares_iff hrules)⟩
  simp only [phoneDirectRule, raiseIf_bind_eq_ok] at he
  exact expands_rule (rewrites_direct D ruleset) he.2.2.2

theorem expands_hijack {data : Bytes} {ruleset : String} {hasIp : Bool}
    (h : rulesetHijackEntries D data ruleset = .ok (e, hasIp)) :
    ∃ source, D.loads data = some source ∧ Expands D.site.lower (Declares source) e := by
  obtain ⟨rules, hrules, h⟩ := bind_eq_ok.mp h
  obtain ⟨es, hes, h⟩ := bind_eq_ok.mp h
  cases pure_eq_ok.mp h
  obtain ⟨source, hsource, hrules⟩ := loadRules_eq_ok hrules
  have hpairs : List.Forall₂ (fun rule e => Expands D.site.lower
      (fun k s => ∃ field, fieldOf k = some field ∧ Lists rule field s) e) rules (es.map Prod.fst) := by
    rw [List.forall₂_map_right_iff]
    refine (mapM_forall₂ hes).imp fun rule e he => ?_
    simp only [hijackRule, raiseIf_bind_eq_ok] at he
    obtain ⟨entries, hentries, heq⟩ := bind_eq_ok.mp he.2.2.2
    rw [← pure_eq_ok.mp heq]
    exact expands_rule (rewrites_hijack D ruleset) hentries
  exact ⟨source, hsource, (expands_unionAll _ hpairs).congr (declares_iff hrules)⟩

/-! ### The files -/

/-- What an entry of the metadata declares, where `part` selects it. -/
def DeclaredBy (D : Deriver) (staged watched : Dict String (Option Bytes)) (part : String → Json → Bool)
    (p : String × Json) (k : Kind) (s : String) : Prop :=
  part p.1 p.2 = true ∧ ∃ source, sourceOf D staged watched p.1 p.2 = some source ∧ Declares source k s

/-- The entries that are visited, by any selection that holds of them. -/
theorem declared_iff (p part : String → Json → Bool) (hpart : ∀ name info, part name info = true → p name info = true)
    (k : Kind) (s : String) :
    (∃ x ∈ m.entries.sorted.filter (fun x => p x.1 x.2), DeclaredBy D staged watched part x k s) ↔
      Declared D m staged watched part k s := by
  constructor
  · rintro ⟨⟨name, info⟩, hin, hselected, hsource⟩
    exact ⟨name, info, Dict.mem_sorted.mp (List.mem_filter.mp hin).1, hselected, hsource⟩
  · rintro ⟨name, info, hin, hselected, hsource⟩
    exact ⟨(name, info), List.mem_filter.mpr ⟨Dict.mem_sorted.mpr hin, hpart name info hselected⟩, hselected, hsource⟩

/-- `_ruleset_direct_bytes` writes what the rulesets for the phone declare. -/
theorem mem_direct {text : List Char} (h : rulesetDirectBytes D m staged watched = .ok text) :
    ∃ e, text = aggregateText "# pdg-bot 规则集手机本地直连聚合（事务派生；不要手工编辑）" [] e ∧
      Expands id (Declared D m staged watched directPart) e := by
  obtain ⟨managed, hmanaged, h⟩ := bind_eq_ok.mp h
  obtain ⟨es, hes, h⟩ := bind_eq_ok.mp h
  refine ⟨unionAll es, (pure_eq_ok.mp h).symm, (expands_unionAll _ ?_).congr (declared_iff directPart directPart fun _ _ => id)⟩
  refine (forall₂_mem (mapM_forall₂ hes)).imp fun p e hp => ?_
  obtain ⟨hin, -, hturn⟩ := hp
  obtain ⟨hin, hdirect⟩ := List.mem_filter.mp hin
  obtain ⟨leaf, hleaf, hturn⟩ := bind_eq_ok.mp hturn
  rw [managedAt_of_mem hmanaged (Dict.mem_sorted.mp hin)] at hleaf
  obtain rfl := Except.ok.inj hleaf
  rw [raiseIf_bind_eq_ok] at hturn
  have hread := hturn.2
  split at hread
  · exact (raise_ne_ok.mp hread).elim
  next data hdata =>
    obtain ⟨source, hsource, hexpands⟩ := expands_direct hread
    have hsourceOf : sourceOf D staged watched p.1 p.2 = some source := by rw [sourceOf, hdata, Option.bind_some, hsource]
    refine hexpands.congr fun k s => ?_
    rw [DeclaredBy, hsourceOf]
    exact ⟨fun hs => ⟨hdirect, source, rfl, hs⟩, fun ⟨_, _, heq, hs⟩ => Option.some.inj heq ▸ hs⟩

/-- A line that is a comment. -/
def IsNote (line : List Char) : Prop := line.head? = some '#' ∧ '\n' ∉ line

instance (line : List Char) : Decidable (IsNote line) := inferInstanceAs (Decidable (_ ∧ _))

/-- A name of the user has no line feed. -/
theorem newline_of_displayed {displayName : String} (h : hijackTurn.displayed D name = .ok displayName) :
    '\n' ∉ displayName.toList := by
  have hname : normalizeName D.site.host.unicode (.str name) "ruleset name" = .ok displayName := by
    unfold hijackTurn.displayed at h
    split at h
    next heq => rw [heq, Except.ok.inj h]
    · exact (raise_ne_ok.mp h).elim
    · exact (fault_ne_ok.mp h).elim
  simp only [normalizeName, raiseIf_bind_eq_ok, pure_eq_ok] at hname
  obtain ⟨hdanger, -, rfl⟩ := hname
  intro hin
  rw [String.toList_ofList] at hin
  have hchar := List.any_eq_false.mp hdanger _ (Text.mem_of_mem_strip hin)
  exact hchar (by simp [dangerousChar])

theorem isNote_note {displayName : String} (h : '\n' ∉ displayName.toList) {tail : String} (htail : '\n' ∉ tail.toList) :
    IsNote ("# " ++ displayName ++ tail).toList := by
  rw [String.toList_append, String.toList_append]
  refine ⟨rfl, ?_⟩
  simp [h, htail]

/-- `_ruleset_hijack_bytes` writes what the rulesets for an exit declare, in lower case. -/
theorem mem_hijack {text : List Char} (h : rulesetHijackBytes D m staged watched = .ok text) :
    ∃ notes e, text = aggregateText "# pdg-bot 代理规则集 DNS 劫持聚合（事务派生；不要手工编辑）" notes e ∧
      (∀ note ∈ notes, IsNote note) ∧ Expands D.site.lower (Declared D m staged watched D.hijackPart) e := by
  obtain ⟨managed, hmanaged, h⟩ := bind_eq_ok.mp h
  obtain ⟨turns, hturns, h⟩ := bind_eq_ok.mp h
  -- what one turn adds, and what it notes
  have hspec : List.Forall₂ (fun p turn => Expands D.site.lower (DeclaredBy D staged watched D.hijackPart p) turn.1 ∧
      ∀ note ∈ turn.2, IsNote note) (m.entries.sorted.filter fun p => !isDirect p.2) turns := by
    refine (forall₂_mem (mapM_forall₂ hturns)).imp fun p turn hp => ?_
    obtain ⟨hin, -, hturn⟩ := hp
    obtain ⟨hin, hdirect⟩ := List.mem_filter.mp hin
    obtain ⟨leaf, hleaf, hturn⟩ := bind_eq_ok.mp hturn
    rw [managedAt_of_mem hmanaged (Dict.mem_sorted.mp hin)] at hleaf
    obtain rfl := Except.ok.inj hleaf
    obtain ⟨displayName, hdisplayed, hturn⟩ := bind_eq_ok.mp hturn
    have hnewline := newline_of_displayed hdisplayed
    split at hturn
    next hjson =>
      have hpart : D.hijackPart p.1 p.2 = true := by rw [Deriver.hijackPart, hjson, hdirect, Bool.and_self]
      split at hturn
      · exact (raise_ne_ok.mp hturn).elim
      next data hdata =>
        obtain ⟨⟨e, hasIp⟩, hread, hturn⟩ := bind_eq_ok.mp hturn
        obtain ⟨source, hsource, hexpands⟩ := expands_hijack hread
        have hsourceOf : sourceOf D staged watched p.1 p.2 = some source := by rw [sourceOf, hdata, Option.bind_some, hsource]
        rw [← pure_eq_ok.mp hturn]
        refine ⟨hexpands.congr fun k s => ?_, fun note hnote => ?_⟩
        · rw [DeclaredBy, hsourceOf]
          exact ⟨fun hs => ⟨hpart, source, rfl, hs⟩, fun ⟨_, _, heq, hs⟩ => Option.some.inj heq ▸ hs⟩
        · change note ∈ (if hasIp = true then _ else _) at hnote
          split at hnote
          · obtain rfl := List.mem_singleton.mp hnote
            exact isNote_note hnewline (by decide)
          · cases hnote
    -- a ruleset in another format than JSON is noted, and adds nothing
    next hjson =>
      rw [← pure_eq_ok.mp hturn]
      refine ⟨⟨fun k s hs => ?_, fun k raw hraw => ?_⟩, fun note hnote => ?_⟩
      · cases k <;> cases hs
      · rw [DeclaredBy, Deriver.hijackPart, Bool.and_eq_true] at hraw
        exact (hjson hraw.1.2).elim
      · obtain rfl := List.mem_singleton.mp hnote
        exact isNote_note hnewline (by decide)
  refine ⟨_, _, (pure_eq_ok.mp h).symm, fun note hnote => ?_,
    (expands_unionAll (DeclaredBy D staged watched D.hijackPart) ?_).congr
      (declared_iff (fun _ info => !isDirect info) D.hijackPart fun _ _ hpart => ?_)⟩
  · obtain ⟨turn, hturn, hnote⟩ := List.mem_flatMap.mp hnote
    obtain ⟨p, -, hp⟩ := exists_of_forall₂ hspec.flip hturn
    exact hp.2 note hnote
  · rw [List.forall₂_map_right_iff]
    exact hspec.imp fun p turn hp => hp.1
  · rw [Deriver.hijackPart, Bool.and_eq_true] at hpart
    exact hpart.1

/-! ### The order of the rulesets -/

theorem directBytes_perm (h : m.entries.Perm m'.entries) :
    rulesetDirectBytes D m' staged watched = rulesetDirectBytes D m staged watched := by
  rw [rulesetDirectBytes, rulesetDirectBytes, managedOrRefused, managedOrRefused, managedRulesets, managedRulesets,
    Dict.sorted_congr m.uniq h]

theorem hijackBytes_perm (h : m.entries.Perm m'.entries) :
    rulesetHijackBytes D m' staged watched = rulesetHijackBytes D m staged watched := by
  rw [rulesetHijackBytes, rulesetHijackBytes, managedOrRefused, managedOrRefused, managedRulesets, managedRulesets,
    Dict.sorted_congr m.uniq h]

end ProxyGateway.Ruleset
