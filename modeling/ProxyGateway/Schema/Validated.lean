import ProxyGateway.Schema.Migrate

set_option autoImplicit false

/-!
# ProxyGateway.Schema.Validated

What a document looks like that `validate` or `migrate` lets through. `Valid` names the parts
of a validated document and what holds of each; `migrate_cases` says that a migrated document
has the canonical envelope and is validated.
-/

namespace ProxyGateway.Schema

variable {U : Unicode} {model result value outbound group : Json} {name label : String}
  {outbounds groups : List Json} {m : MihomoMeta} {tags routable : List String}
  {part : GroupPart} {parts : List GroupPart}

/-! ### Reading fields -/

theorem get?_of_getD {key : String} {v : Json} (h : value.getD key .null = v) (hv : v ≠ .null) :
    value.get? key = some v := by
  cases hg : value.get? key with
  | none => simp [Json.getD, hg, hv.symm] at h
  | some w => simpa [Json.getD, hg] using h

theorem getD_of_get? {key : String} {v d : Json} (h : value.get? key = some v) :
    value.getD key d = v := by
  simp [Json.getD, h]

/-! ### Names -/

/-- Whether a name is accepted does not depend on what it is called in the message. -/
theorem normalizeName_label {label' : String} :
    normalizeName U value label = .ok name ↔ normalizeName U value label' = .ok name := by
  cases value <;> simp [normalizeName]

theorem validateName_label {label' : String} :
    validateName U value label = .ok name ↔ validateName U value label' = .ok name := by
  simp only [validateName, Py.bind_eq_ok, raiseIf_eq_ok]
  exact exists_congr fun n => and_congr_left' normalizeName_label

theorem normalizeName_length (h : normalizeName U value label = .ok name) :
    name.length ≤ nameMaxCodepoints := by
  cases value with
  | str s =>
      simp only [normalizeName, raiseIf_bind_eq_ok, Py.pure_eq_ok, decide_eq_false_iff_not,
        not_or] at h
      exact h.2.2 ▸ Nat.not_lt.mp h.2.1.2.1
  | _ => simp [normalizeName] at h

theorem isValidName_iff : isValidName U value = true ↔ ∃ name, validateName U value "name" = .ok name := by
  cases h : validateName U value "name" <;> simp [isValidName, h]

theorem validateName_cases (h : validateName U value label = .ok name) :
    value = .str name ∧ isValidName U (.str name) = true := by
  obtain ⟨n, hn, hrest⟩ := Py.bind_eq_ok.mp h
  simp only [raiseIf_bind_eq_ok, Py.pure_eq_ok, decide_eq_false_iff_not, not_not] at hrest
  obtain ⟨rfl, rfl⟩ := hrest
  exact ⟨rfl, isValidName_iff.mpr ⟨n, validateName_label.mp h⟩⟩

theorem tag_cases (h : tag value label = .ok name) : value = .str name ∧ tagRe name = true := by
  cases value with
  | str s =>
      by_cases hs : tagRe s = true
      · simp only [tag, hs, if_true, Except.ok.injEq] at h
        exact ⟨by rw [h], h ▸ hs⟩
      · simp [tag, hs] at h
  | _ => simp [tag] at h

/-! ### Outbounds -/

/-- An outbound that has been given a name. -/
structure Named (outbound : Json) (name : String) : Prop where
  dict : isDict outbound = true
  tag : outbound.get? "tag" = some (.str name)
  hashable : (outbound.getD "type" .null).hashable = true

/-- An outbound that a rule or a group may name. -/
def isRoutable (outbound : Json) : Bool :=
  (outbound.getD "type" .null).str?.any (· ∈ routableOutboundTypes)

theorem within_str {names : List String} {b : Bool} {ε : Type}
    (h : value.within (ε := ε) names = .ok b) : b = value.str?.any (· ∈ names) := by
  cases value <;> simp_all [Json.within, Json.str?]

theorem within_hashable {names : List String} {b : Bool} {ε : Type}
    (h : value.within (ε := ε) names = .ok b) : value.hashable = true := by
  cases value <;> simp_all [Json.within, Json.hashable]

theorem within_of_hashable {names : List String} {ε : Type} (h : value.hashable = true) :
    value.within (ε := ε) names = .ok (value.str?.any (· ∈ names)) := by
  cases value <;> simp_all [Json.within, Json.str?, Json.hashable]

theorem validateOutbound_cases {seen seen' : List String × List String}
    (h : validateOutbound U seen outbound = .ok seen') :
    ∃ name, Named outbound name ∧ name ∉ seen.1 ∧
      seen' = (seen.1 ++ [name], if isRoutable outbound then seen.2 ++ [name] else seen.2) := by
  rw [validateOutbound, raiseIf_bind_eq_ok] at h
  obtain ⟨hdict, h⟩ := h
  obtain ⟨isProxy, hproxy, h⟩ := Py.bind_eq_ok.mp h
  obtain ⟨name, hname, h⟩ := Py.bind_eq_ok.mp h
  rw [raiseIf_bind_eq_ok] at h
  obtain ⟨hnew, h⟩ := h
  obtain ⟨isGroup, -, h⟩ := Py.bind_eq_ok.mp h
  rw [raiseIf_bind_eq_ok] at h
  obtain ⟨-, h⟩ := h
  obtain ⟨b, hroutable, h⟩ := Py.bind_eq_ok.mp h
  rw [Py.pure_eq_ok] at h
  have htag : outbound.getD "tag" .null = .str name := by
    cases isProxy with
    | true => exact (validateName_cases hname).1
    | false => exact (tag_cases hname).1
  refine ⟨name, ⟨by simpa using hdict, get?_of_getD htag (by simp), within_hashable hproxy⟩,
    by simpa using hnew, ?_⟩
  rw [← h, within_str hroutable, isRoutable]

theorem outbounds_cases {seen seen' : List String × List String}
    (h : outbounds.foldlM (validateOutbound U) seen = .ok seen') :
    ∃ names, List.Forall₂ Named outbounds names ∧ seen'.1 = seen.1 ++ names ∧
      (seen.1.Nodup → seen'.1.Nodup) ∧
      seen'.2 = seen.2 ++ outboundTags (outbounds.filter isRoutable) := by
  induction outbounds generalizing seen with
  | nil =>
      rw [List.foldlM_nil, Py.pure_eq_ok] at h
      subst h
      exact ⟨[], .nil, by simp, id, by simp [outboundTags]⟩
  | cons outbound outbounds ih =>
      rw [List.foldlM_cons, Py.bind_eq_ok] at h
      obtain ⟨mid, hmid, h⟩ := h
      obtain ⟨name, hname, hnew, rfl⟩ := validateOutbound_cases hmid
      obtain ⟨names, hnames, htags, hnodup, hroutable⟩ := ih h
      refine ⟨name :: names, .cons hname hnames, by simpa using htags, fun hseen => ?_, ?_⟩
      · refine hnodup (List.nodup_append.mpr ⟨hseen, by simp, ?_⟩)
        intro a ha b hb hab
        simp only [List.mem_singleton] at hb
        exact hnew (hb ▸ hab ▸ ha)
      · rw [hroutable]
        have htag : ((outbound.get? "tag").bind Json.str?) = some name := by
          simp [hname.tag, Json.str?]
        by_cases hr : isRoutable outbound = true <;> simp [hr, outboundTags, htag]

theorem outboundTags_of_named {names : List String} (h : List.Forall₂ Named outbounds names) :
    outboundTags outbounds = names := by
  induction h with
  | nil => rfl
  | cons hname _ ih =>
      rw [← ih]
      simp [outboundTags, hname.tag, Json.str?]

/-! ### Policy groups -/

theorem mapM_str? {xs : List Json} {names : List String} (h : xs.mapM Json.str? = some names) :
    xs = names.map Json.str := by
  induction xs generalizing names with
  | nil =>
      obtain rfl : [] = names := by simpa using h
      rfl
  | cons x xs ih =>
      rw [List.mapM_cons] at h
      obtain ⟨s, hs, h⟩ := Option.bind_eq_some_iff.mp h
      obtain ⟨rest, hrest, h⟩ := Option.bind_eq_some_iff.mp h
      obtain rfl : s :: rest = names := by simpa using h
      cases x with
      | str t => simp_all [Json.str?]
      | _ => simp [Json.str?] at hs

theorem distinctTexts_cases {names : List String} (h : distinctTexts value = some names) :
    value = .arr (names.map Json.str) ∧ names.Nodup := by
  cases value with
  | arr xs =>
      obtain ⟨ys, hys, h⟩ := Option.bind_eq_some_iff.mp h
      by_cases hnodup : ys.Nodup
      · simp only [hnodup, if_true, Option.some.injEq] at h
        subst h
        exact ⟨by rw [mapM_str? hys], hnodup⟩
      · simp [hnodup] at h
  | _ => simp [distinctTexts] at h

/-- What holds of a policy group that is let through. -/
structure GroupFits (U : Unicode) (group : Json) (part : GroupPart) : Prop where
  dict : isDict group = true
  name : group.get? "name" = some (.str part.name)
  validName : isValidName U (.str part.name) = true
  type : (group.getD "type" .null).str?.any (· ∈ groupTypes) = true
  proxies : group.getD "proxies" (.arr []) = .arr (part.proxies.map Json.str)
  distinct : part.proxies.Nodup
  uses : group.getD "use" (.arr []) = .arr (part.uses.map Json.str)

theorem validateGroup_cases (h : validateGroup U group = .ok part) : GroupFits U group part := by
  rw [validateGroup, raiseIf_bind_eq_ok] at h
  obtain ⟨hdict, h⟩ := h
  obtain ⟨name, hname, h⟩ := Py.bind_eq_ok.mp h
  obtain ⟨isKnown, htype, h⟩ := Py.bind_eq_ok.mp h
  rw [raiseIf_bind_eq_ok, raiseIf_bind_eq_ok, raiseIf_bind_eq_ok] at h
  obtain ⟨hknown, hmembers, -, h⟩ := h
  rw [Py.unit_bind_eq_ok, raiseIf_bind_eq_ok] at h
  obtain ⟨-, -, h⟩ := h
  obtain ⟨isStrategy, -, h⟩ := Py.bind_eq_ok.mp h
  rw [raiseIf_bind_eq_ok, Py.pure_eq_ok] at h
  obtain ⟨-, rfl⟩ := h
  simp only [Bool.or_eq_false_iff, Option.isNone_eq_false_iff, Option.isSome_iff_exists] at hmembers
  obtain ⟨⟨⟨proxies, hproxies⟩, ⟨uses, huses⟩⟩, -⟩ := hmembers
  have hnamed := validateName_cases hname
  exact {
    dict := by simpa using hdict
    name := get?_of_getD hnamed.1 (by simp)
    validName := hnamed.2
    type := by
      rw [← within_str htype]
      simpa using (Bool.or_eq_false_iff.mp hknown).1
    proxies := by
      rw [hproxies]
      exact (distinctTexts_cases hproxies).1
    distinct := by
      rw [hproxies]
      exact (distinctTexts_cases hproxies).2
    uses := by
      rw [huses]
      exact (distinctTexts_cases huses).1 }

theorem groups_cases {seen : List GroupPart}
    (h : groups.foldlM (validateGroupIn U) seen = .ok parts) :
    ∃ new, List.Forall₂ (GroupFits U) groups new ∧ parts = seen ++ new ∧
      ((seen.map GroupPart.name).Nodup → (parts.map GroupPart.name).Nodup) := by
  induction groups generalizing seen with
  | nil =>
      rw [List.foldlM_nil, Py.pure_eq_ok] at h
      subst h
      exact ⟨[], .nil, by simp, id⟩
  | cons group groups ih =>
      rw [List.foldlM_cons, Py.bind_eq_ok] at h
      obtain ⟨mid, hmid, h⟩ := h
      obtain ⟨part, hpart, hmid⟩ := Py.bind_eq_ok.mp hmid
      rw [raiseIf_bind_eq_ok, Py.pure_eq_ok] at hmid
      obtain ⟨hnew, rfl⟩ := hmid
      obtain ⟨new, hfits, rfl, hnodup⟩ := ih h
      refine ⟨part :: new, .cons (validateGroup_cases hpart) hfits, by simp, fun hseen => ?_⟩
      refine hnodup ?_
      rw [List.map_append, List.nodup_append]
      refine ⟨hseen, by simp, ?_⟩
      intro a ha b hb hab
      obtain ⟨p, hp, rfl⟩ := List.mem_map.mp ha
      simp only [List.any_eq_false, decide_eq_true_eq] at hnew
      simp only [List.map_cons, List.map_nil, List.mem_singleton] at hb
      exact hnew p hp (hab.trans hb)

theorem groupNames_of_fits {parts : List GroupPart} (h : List.Forall₂ (GroupFits U) groups parts) :
    groupNames groups = parts.map GroupPart.name := by
  induction h with
  | nil => rfl
  | cons hfits _ ih =>
      rw [List.map_cons, ← ih, groupNames, List.filterMap_cons, hfits.name]
      rfl

/-! ### The whole document -/

/-- The canonical envelope around outbounds, groups, Mihomo metadata and route. -/
structure Enveloped (model : Json) (outbounds groups : List Json) (m : MihomoMeta)
    (route : Dict String Json) : Prop where
  dict : isDict model = true
  outbounds : model.get? "outbounds" = some (.arr outbounds)
  pdg : model.get? "_pdg" = some (metaJson (.arr groups) m)
  route : model.get? "route" = some (.obj route)

theorem outboundsOf_eq {route : Dict String Json} (he : Enveloped model outbounds groups m route) :
    outboundsOf model = outbounds := by
  rw [outboundsOf, getD_of_get? he.outbounds]

/-- What holds of an enveloped document that is let through: the one direct tag, the tags of
the outbounds, the policy groups, and what refers to what. -/
structure Valid (U : Unicode) (outbounds groups : List Json) (m : MihomoMeta)
    (route : Dict String Json) (direct : String) (tags : List String) (parts : List GroupPart) :
    Prop where
  oneDirect : directTags outbounds = [direct]
  directFree : direct ∉ reservedTargets
  named : List.Forall₂ Named outbounds tags
  fits : List.Forall₂ (GroupFits U) groups parts
  namespaced : (tags ++ parts.map GroupPart.name ++ m.proxyProviders.keys ++
    m.ruleProviders.keys).Nodup
  unreserved : ∀ name ∈ tags ++ parts.map GroupPart.name ++ m.proxyProviders.keys ++
    m.ruleProviders.keys, name ∉ reservedTargets
  providerNames : ∀ name ∈ m.proxyProviders.keys ++ m.ruleProviders.keys,
    isValidName U (.str name) = true
  members : ∀ part ∈ parts, validateMembers (outboundTags (outbounds.filter isRoutable) ++
    parts.map GroupPart.name ++ ["REJECT"]) (blockTags outbounds) m.proxyProviders.keys part =
      .ok ()
  acyclic : Search.visitAll (.text "policy groups contain a dependency cycle" : ModelError)
    (groupGraph parts) (parts.map GroupPart.name) = .ok ()
  routed : validateRoute (outboundTags (outbounds.filter isRoutable) ++
    parts.map GroupPart.name) (.obj route) = .ok ()

theorem directTag_cases {direct : String} (ho : model.get? "outbounds" = some (.arr outbounds))
    (h : directTag model = .ok direct) : directTags outbounds = [direct] := by
  rw [directTag, getD_of_get? ho, Json.items_arr, Py.ok_bind] at h
  split at h
  next outbound hfilter =>
    have htag := get?_of_getD (tag_cases h).1 (by simp)
    simp [directTags, hfilter, outboundTags, htag, Json.str?]
  next => simp at h

theorem metaJson_policyGroups : (metaJson value m).getD "policy-groups" .null = value := rfl

theorem metaJson_mihomo : (metaJson value m).getD "mihomo" .null = m.toJson := rfl

theorem envelope_cases {route : Dict String Json} (he : Enveloped model outbounds groups m route)
    {e : List Json × Json × Dict String Json × Dict String Json} (h : envelope model = .ok e) :
    e = (outbounds, .arr groups, m.proxyProviders, m.ruleProviders) ∧
      ∃ direct, directTags outbounds = [direct] ∧ direct ∉ reservedTargets := by
  rw [envelope, getD_of_get? he.outbounds] at h
  simp only at h
  obtain ⟨direct, hdirect, h⟩ := Py.bind_eq_ok.mp h
  rw [raiseIf_bind_eq_ok] at h
  obtain ⟨hfree, h⟩ := h
  rw [getD_of_get? he.pdg, raiseIf_bind_eq_ok, raiseIf_bind_eq_ok] at h
  obtain ⟨-, -, h⟩ := h
  refine ⟨(Py.pure_eq_ok.mp h).symm, direct, directTag_cases he.outbounds hdirect, ?_⟩
  simpa using hfree

theorem validateNamespace_cases {groups providers ruleProviders : List String}
    (h : validateNamespace U tags groups providers ruleProviders = .ok ()) :
    (tags ++ groups ++ providers ++ ruleProviders).Nodup ∧
      (∀ name ∈ tags ++ groups ++ providers ++ ruleProviders, name ∉ reservedTargets) ∧
      ∀ name ∈ providers ++ ruleProviders, isValidName U (.str name) = true := by
  rw [validateNamespace, Py.unit_bind_eq_ok, raiseIf_bind_eq_ok, raiseIf_eq_ok] at h
  obtain ⟨hvalid, hnodup, hfree⟩ := h
  refine ⟨by simpa using hnodup, fun name hname => ?_, fun name hname => ?_⟩
  · simpa using List.any_eq_false.mp hfree name hname
  have hcheck := Py.forM_eq_ok.mp hvalid name hname
  obtain ⟨n, hn, -⟩ := Py.bind_eq_ok.mp hcheck
  obtain ⟨he, hn⟩ := validateName_cases hn
  rwa [he]

theorem validate_cases {route : Dict String Json} (he : Enveloped model outbounds groups m route)
    (h : validate U model = .ok ()) :
    ∃ direct tags parts, Valid U outbounds groups m route direct tags parts := by
  obtain ⟨names, hnames, -⟩ := Py.bind_eq_ok.mp h
  rw [validateNames] at hnames
  obtain ⟨e, henv, hnames⟩ := Py.bind_eq_ok.mp hnames
  obtain ⟨rfl, direct, hdirect, hfree⟩ := envelope_cases he henv
  obtain ⟨⟨tags, routable⟩, houts, hnames⟩ := Py.bind_eq_ok.mp hnames
  obtain ⟨items, hitems, hnames⟩ := Py.bind_eq_ok.mp hnames
  obtain rfl : groups = items := by simpa using hitems
  obtain ⟨parts, hparts, hnames⟩ := Py.bind_eq_ok.mp hnames
  simp only [Py.unit_bind_eq_ok] at hnames
  obtain ⟨hspace, hmembers, hacyclic, hroute, -⟩ := hnames
  obtain ⟨tags', hnamed, htags, -, hroutable⟩ := outbounds_cases houts
  obtain ⟨new, hfits, hnew, -⟩ := groups_cases hparts
  obtain rfl : tags = tags' := by simpa using htags
  obtain rfl : parts = new := by simpa using hnew
  obtain rfl : routable = _ := hroutable
  obtain ⟨hnodup, hunreserved, hvalid⟩ := validateNamespace_cases hspace
  rw [getD_of_get? he.route] at hroute
  exact ⟨direct, tags, parts, hdirect, hfree, hnamed, hfits, hnodup, hunreserved, hvalid,
    by simpa using Py.forM_eq_ok.mp hmembers, hacyclic, by simpa using hroute⟩

theorem validateMembers_cases {known blocks providers : List String}
    (h : validateMembers known blocks providers part = .ok ()) :
    (∀ p ∈ part.proxies, p ∈ known) ∧ ∀ u ∈ part.uses, u ∈ providers := by
  rw [validateMembers, raiseIf_bind_eq_ok, raiseIf_bind_eq_ok, raiseIf_eq_ok] at h
  obtain ⟨hproxies, -, huses⟩ := h
  simp only [List.any_eq_false, decide_eq_true_eq, not_not] at hproxies huses
  exact ⟨hproxies, huses⟩

theorem outboundTags_filter {p : Json → Bool} {name : String}
    (h : name ∈ outboundTags (outbounds.filter p)) : name ∈ outboundTags outbounds := by
  rw [outboundTags, List.mem_filterMap] at h ⊢
  obtain ⟨o, ho, htag⟩ := h
  exact ⟨o, List.mem_of_mem_filter ho, htag⟩

/-- The final target is a routable name, and so is every target of a rule. -/
theorem validateRoute_cases {routable : List String} {route : Dict String Json}
    (h : validateRoute routable (.obj route) = .ok ()) :
    (∃ final ∈ routable, Dict.get? route "final" = some (.str final)) ∧
      ∃ rules, (Json.obj route).getD "rules" (.arr []) = .arr rules ∧
        ∀ rule ∈ rules, isDict rule = true ∧
          ∀ v, rule.get? "outbound" = some v → v = .null ∨ ∃ target ∈ routable, v = .str target := by
  rw [validateRoute, raiseIf_bind_eq_ok] at h
  obtain ⟨isFinal, hfinal, h⟩ := Py.bind_eq_ok.mp h.2
  rw [raiseIf_bind_eq_ok, Bool.not_eq_false'] at h
  obtain ⟨rfl, h⟩ := h
  constructor
  · cases hv : (Json.obj route).getD "final" .null with
    | str final =>
        rw [hv] at hfinal
        refine ⟨final, by simpa [Json.within] using hfinal, ?_⟩
        exact get?_of_getD hv (by simp)
    | _ => simp [hv, Json.within] at hfinal
  · split at h
    next rules hrules =>
      refine ⟨rules, hrules, fun rule hrule => ?_⟩
      have hone := Py.forM_eq_ok.mp h rule hrule
      rw [validateRule, raiseIf_bind_eq_ok] at hone
      obtain ⟨hdict, hone⟩ := hone
      refine ⟨by simpa using hdict, fun v hv => ?_⟩
      have hget : rule.getD "outbound" .null = v := getD_of_get? hv
      by_cases hnull : v = .null
      · exact .inl hnull
      · simp only [hget, ne_eq, hnull, not_false_eq_true, if_true] at hone
        obtain ⟨isRoutable, hwithin, hone⟩ := Py.bind_eq_ok.mp hone
        rw [raiseIf_eq_ok, Bool.not_eq_false'] at hone
        rw [hone] at hwithin
        cases v with
        | str target => exact .inr ⟨target, by simpa [Json.within] using hwithin, rfl⟩
        | _ => simp [Json.within] at hwithin
    next => simp at h

/-! ### `migrate` -/

/-- The document that `migrate` puts together. -/
def assembled (fields : Dict String Json) (outbounds groups : List Json) (m : MihomoMeta)
    (route : Dict String Json) : Json :=
  .obj (((fields.set "outbounds" (.arr outbounds)).set "_pdg" (metaJson (.arr groups) m)).set
    "route" (.obj route))

theorem assembled_enveloped {fields route : Dict String Json} :
    Enveloped (assembled fields outbounds groups m route) outbounds groups m route where
  dict := rfl
  outbounds := by simp [assembled, Json.get?, Dict.get?_set]
  pdg := by simp [assembled, Json.get?, Dict.get?_set]
  route := by simp [assembled, Json.get?]

/-- Outbounds, groups, Mihomo metadata and route of a migrated document are the normalized
ones, and the document is let through by `validate`. -/
theorem migrate_cases (h : migrate U model = .ok result) :
    ∃ fields route₀, model = .obj fields ∧ model.get? "route" = some (.obj route₀) ∧
      ∃ outbounds₀ groups₀ m₀ outbounds groups m route,
        canonicalizeUserNames U outbounds₀ groups₀ m₀ route₀ = .ok (outbounds, groups, m, route) ∧
        result = assembled fields outbounds groups m route ∧ validate U result = .ok () := by
  cases model with
  | obj fields =>
      unfold migrate at h
      simp only at h
      obtain ⟨-, h⟩ := Py.unit_bind_eq_ok.mp h
      split at h
      · rename_i outbounds₀ houts
        split at h
        · rename_i route₀ hroute
          obtain ⟨-, -, h⟩ := Py.bind_eq_ok.mp h
          rw [raiseIf_bind_eq_ok] at h
          obtain ⟨schema, -, h⟩ := Py.bind_eq_ok.mp h.2
          rw [raiseIf_bind_eq_ok, raiseIf_bind_eq_ok] at h
          obtain ⟨⟨outs, gs⟩, -, h⟩ := Py.bind_eq_ok.mp h.2.2
          obtain ⟨proxyProviders, -, h⟩ := Py.bind_eq_ok.mp h
          obtain ⟨ruleProviders, -, h⟩ := Py.bind_eq_ok.mp h
          obtain ⟨advanced, -, h⟩ := Py.bind_eq_ok.mp h
          obtain ⟨managedFiles, -, h⟩ := Py.bind_eq_ok.mp h
          obtain ⟨⟨outbounds, groups, m, route⟩, hnames, h⟩ := Py.bind_eq_ok.mp h
          obtain ⟨hvalid, h⟩ := Py.unit_bind_eq_ok.mp h
          rw [Py.pure_eq_ok] at h
          subst h
          exact ⟨fields, route₀, rfl, get?_of_getD hroute (by simp), outs, gs, _, outbounds,
            groups, m, route, hnames, rfl, hvalid⟩
        · simp at h
      · simp at h
  | _ => simp [migrate] at h

end ProxyGateway.Schema
