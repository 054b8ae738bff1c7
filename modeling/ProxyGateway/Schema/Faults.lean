import ProxyGateway.Schema.Typed

set_option autoImplicit false

/-!
# ProxyGateway.Schema.Faults

When `migrate` raises nothing but `ModelError`s: exactly on the documents on which it meets
no operand of the wrong type and no nesting that is too deep (`WellTyped`).
-/

namespace ProxyGateway.Schema

open Py Json

variable {U : Unicode} {S : Stack} {model value outbound group : Json} {direct : String}
  {routable : List String} {limit : Nat}

/-! ### `validate` -/

/-- `_validate_group` up to the strategy. -/
def groupHead (U : Unicode) (group : Json) : Py ModelError GroupPart := do
  raiseIf (!isDict group) (.text "policy group must be an object")
  let fields := group.fields?.getD []
  let name ← validateName U (group.getD "name" .null) "group name"
  let typ := group.getD "type" .null
  let isKnown ← typ.within groupTypes
  raiseIf (!isKnown || ((typ.str?.bind groupFields).all (extraKeys fields)))
    (.text ("policy group contains unsupported runtime fields for its type: " ++ name))
  let proxies := distinctTexts (group.getD "proxies" (.arr []))
  let uses := distinctTexts (group.getD "use" (.arr []))
  raiseIf (proxies.isNone || uses.isNone || (proxies = some [] && uses = some []))
    (.text ("policy group members/providers are invalid: " ++ name))
  raiseIf (["lazy", "disable-udp", "hidden"].any (fun key => (group.get? key).any (!isBool ·)))
    (.text ("policy group boolean option is invalid: " ++ name))
  validateProbe group name
  raiseIf ((group.get? "tolerance").any (!isIntIn 0 65535 ·))
    (.text ("policy group tolerance is invalid: " ++ name))
  return ⟨name, proxies.getD [], uses.getD []⟩

theorem validateGroup_eq (U : Unicode) (group : Json) : validateGroup U group = (do
    let part ← groupHead U group
    let isStrategy ← (group.getD "strategy" (.str "round-robin")).within strategies
    raiseIf (!isStrategy) (.text ("policy group strategy is invalid: " ++ part.name))
    return part) := by
  simp only [groupHead, validateGroup, bind_assoc, pure_bind]

/-- What is read of a policy group: its type behind its name, its strategy behind the rest. -/
structure GroupTyped (U : Unicode) (group : Json) : Prop where
  type : Passes (validateName U (group.getD "name" .null) "group name") →
    (group.getD "type" .null).hashable = true
  strategy : Passes (groupHead U group) →
    (group.getD "strategy" (.str "round-robin")).hashable = true

/-- What is read of the route: its final target and, behind it, the targets of its rules. -/
structure RouteTyped (routable : List String) (route : Json) : Prop where
  final : (route.getD "final" .null).hashable = true
  targets : (route.getD "final" .null).str?.any (· ∈ routable) = true →
    ∀ rules, route.getD "rules" (.arr []) = .arr rules →
      Each (validateRule routable) (fun rule => (rule.getD "outbound" .null).hashable = true) rules

/-- What `validate` reads behind its checks of the envelope, where the search for a cycle may
make `limit` nested calls. -/
def ValidateTyped (limit : Nat) (U : Unicode) (model : Json) : Prop :=
  ∀ outbounds groups providers ruleProviders,
    envelope model = .ok (outbounds, groups, providers, ruleProviders) →
    EachTurn (validateOutbound U) (fun _ o => (o.getD "type" .null).hashable = true) ([], []) outbounds ∧
    ∀ tags routable, outbounds.foldlM (validateOutbound U) ([], []) = .ok (tags, routable) →
      groups.isContainer = true ∧
      EachTurn (validateGroupIn U) (fun _ g => GroupTyped U g) [] groups.entries ∧
      ∀ parts, groups.entries.foldlM (validateGroupIn U) [] = .ok parts →
        Passes (validateNamespace U tags (parts.map GroupPart.name) providers.keys ruleProviders.keys) →
        Passes (parts.forM (validateMembers (routable ++ parts.map GroupPart.name ++ ["REJECT"])
          (blockTags outbounds) providers.keys)) →
          Search.Fits limit dependencyCycle (groupGraph parts) (parts.map GroupPart.name) ∧
          (Passes (Search.visitAllWithin limit dependencyCycle (groupGraph parts)
            (parts.map GroupPart.name)) →
              RouteTyped (routable ++ parts.map GroupPart.name) (model.getD "route" .null))

theorem clean_envelope : Clean (envelope model) := by
  unfold envelope
  split
  · rename_i outbounds houts
    have hget := get?_of_getD houts (by simp)
    refine (clean_directTag (getD_of_get? hget)).bind fun _ _ => ?_
    refine clean_raiseIf.bind fun _ _ => clean_raiseIf.bind fun _ _ => clean_raiseIf.bind fun _ _ => ?_
    split
    · exact onlyFaults_ok
    · exact onlyFaults_raise
  · exact onlyFaults_raise

theorem clean_validateOutbound_iff {seen : List String × List String} :
    Clean (validateOutbound U seen outbound) ↔ (outbound.getD "type" .null).hashable = true := by
  unfold validateOutbound
  rw [clean_raiseIf.bind_iff]
  simp only [raiseIf_eq_ok, forall_const, Bool.not_eq_false']
  cases hdict : isDict outbound with
  | false => simp [getD_of_not_dict hdict, Json.hashable]
  | true =>
      rw [forall_prop_of_true rfl, clean_bind_iff, clean_within_iff]
      refine and_iff_left_of_imp fun hhash isProxy _ => ?_
      have hin : ∀ names, Clean ((outbound.getD "type" .null).within (ε := ModelError) names) :=
        fun _ => clean_within_iff.mpr hhash
      refine OnlyFaults.bind ?_ fun _ _ => clean_raiseIf.bind fun _ _ => (hin _).bind fun _ _ =>
        clean_raiseIf.bind fun _ _ => (hin _).bind fun _ _ => onlyFaults_ok
      cases isProxy with
      | true => exact clean_validateName
      | false => exact clean_tag

theorem clean_validateProbe {name : String} : Clean (validateProbe group name) := by
  unfold validateProbe
  split
  · exact onlyFaults_ok
  · exact clean_raiseIf.bind fun _ _ => clean_raiseIf

theorem clean_groupHead_iff : Clean (groupHead U group) ↔
    (Passes (validateName U (group.getD "name" .null) "group name") →
      (group.getD "type" .null).hashable = true) := by
  unfold groupHead
  rw [clean_raiseIf.bind_iff]
  simp only [raiseIf_eq_ok, forall_const, Bool.not_eq_false']
  cases hdict : isDict group with
  | false => simp [getD_of_not_dict hdict, Json.hashable]
  | true =>
      rw [forall_prop_of_true rfl, clean_validateName.bind_iff, ← forall_ok_iff]
      refine forall_congr' fun name => imp_congr_right fun _ => ?_
      rw [clean_bind_iff, clean_within_iff]
      refine and_iff_left fun _ _ => ?_
      exact clean_raiseIf.bind fun _ _ => clean_raiseIf.bind fun _ _ => clean_raiseIf.bind fun _ _ =>
        clean_validateProbe.bind fun _ _ => clean_raiseIf.bind fun _ _ => onlyFaults_ok

theorem clean_validateGroupIn_iff {parts : List GroupPart} :
    Clean (validateGroupIn U parts group) ↔ GroupTyped U group := by
  have hrest : ∀ part : GroupPart, Clean ((do
      raiseIf (parts.any (·.name = part.name)) (.text ("duplicate policy group: " ++ part.name))
      return parts ++ [part]) : Py ModelError (List GroupPart)) :=
    fun _ => clean_raiseIf.bind fun _ _ => onlyFaults_ok
  unfold validateGroupIn
  rw [clean_bind_iff_left hrest, validateGroup_eq, clean_bind_iff, clean_groupHead_iff]
  have hstrategy : ∀ part : GroupPart, Clean ((do
      let isStrategy ← (group.getD "strategy" (.str "round-robin")).within strategies
      raiseIf (!isStrategy) (.text ("policy group strategy is invalid: " ++ part.name))
      return part) : Py ModelError GroupPart) ↔
        (group.getD "strategy" (.str "round-robin")).hashable = true := by
    intro part
    rw [clean_bind_iff_left fun _ => clean_raiseIf.bind fun _ _ => onlyFaults_pure, clean_within_iff]
  simp only [hstrategy, forall_ok_iff]
  exact ⟨fun h => ⟨h.1, h.2⟩, fun h => ⟨h.type, h.strategy⟩⟩

theorem clean_validateNamespace {tags groups providers ruleProviders : List String} :
    Clean (validateNamespace U tags groups providers ruleProviders) := by
  refine (OnlyFaults.forM fun _ _ => ?_).bind fun _ _ => clean_raiseIf.bind fun _ _ => clean_raiseIf
  exact onlyFaults_discard_iff.mpr clean_validateName

theorem clean_validateMembers {known blocks providers : List String} {part : GroupPart} :
    Clean (validateMembers known blocks providers part) :=
  clean_raiseIf.bind fun _ _ => clean_raiseIf.bind fun _ _ => clean_raiseIf

theorem clean_validateRule_iff {rule : Json} :
    Clean (validateRule routable rule) ↔ (rule.getD "outbound" .null).hashable = true := by
  unfold validateRule
  rw [clean_raiseIf.bind_iff]
  simp only [raiseIf_eq_ok, forall_const, Bool.not_eq_false']
  cases hdict : isDict rule with
  | false => simp [getD_of_not_dict hdict, Json.hashable]
  | true =>
      by_cases hnull : rule.getD "outbound" .null = .null
      · simp [hnull, Json.hashable]
      · simp only [hnull, ne_eq, not_false_eq_true, if_true, true_imp_iff]
        rw [clean_bind_iff_left fun _ => clean_raiseIf, clean_within_iff]

theorem clean_validateRoute_iff {route : Json} :
    Clean (validateRoute routable route) ↔ RouteTyped routable route := by
  unfold validateRoute
  rw [clean_raiseIf.bind_iff]
  simp only [raiseIf_eq_ok, forall_const, Bool.not_eq_false']
  cases hdict : isDict route with
  | false =>
      refine iff_of_true (by simp) ⟨?_, fun hfinal => ?_⟩
      · simp [getD_of_not_dict hdict, Json.hashable]
      · simp [getD_of_not_dict hdict, Json.str?] at hfinal
  | true =>
      rw [forall_prop_of_true rfl, clean_bind_iff, clean_within_iff]
      constructor
      · intro h
        refine ⟨h.1, fun hfinal rules hrules => ?_⟩
        have hrest := h.2 true (by rw [within_of_hashable h.1, hfinal])
        simp only [hrules] at hrest
        exact (onlyFaults_forM_iff fun _ _ => clean_validateRule_iff).mp hrest
      · intro h
        refine ⟨h.final, fun isFinal hfinal => ?_⟩
        cases isFinal with
        | false => exact onlyFaults_raise
        | true =>
            have htargets := h.targets (within_str hfinal).symm
            split
            · rename_i rules hrules
              exact (onlyFaults_forM_iff fun _ _ => clean_validateRule_iff).mpr (htargets rules hrules)
            · exact onlyFaults_raise

theorem items_of_container {ε : Type} (h : value.isContainer = true) :
    value.items (ε := ε) = .ok value.entries := by
  cases value <;> first | rfl | simp [isContainer] at h

theorem clean_validateWith_iff :
    Clean (validateWith U (Search.visitAllWithin limit dependencyCycle) model) ↔
      ValidateTyped limit U model := by
  unfold validateWith ValidateTyped
  rw [clean_envelope.bind_iff, Prod.forall]
  refine forall_congr' fun outbounds => ?_
  rw [Prod.forall]
  refine forall_congr' fun groups => ?_
  rw [Prod.forall]
  refine forall_congr' fun providers => forall_congr' fun ruleProviders => imp_congr_right fun _ => ?_
  dsimp only
  have houts : Clean (outbounds.foldlM (validateOutbound U) ([], [])) ↔
      EachTurn (validateOutbound U) (fun _ o => (o.getD "type" .null).hashable = true) ([], [])
        outbounds :=
    onlyFaults_foldlM_iff fun _ _ _ => clean_validateOutbound_iff
  have hgroups : Clean (groups.entries.foldlM (validateGroupIn U) []) ↔
      EachTurn (validateGroupIn U) (fun _ g => GroupTyped U g) [] groups.entries :=
    onlyFaults_foldlM_iff fun _ _ _ => clean_validateGroupIn_iff
  rw [clean_bind_iff, houts, Prod.forall]
  refine and_congr_right fun _ => forall_congr' fun tags => forall_congr' fun routable =>
    imp_congr_right fun _ => ?_
  rw [clean_bind_iff, clean_items_iff]
  refine and_congr_right fun hcontainer => ?_
  rw [items_of_container hcontainer]
  simp only [Except.ok.injEq, forall_eq']
  rw [clean_bind_iff, hgroups]
  refine and_congr_right fun _ => forall_congr' fun parts => imp_congr_right fun _ => ?_
  rw [clean_validateNamespace.bind_iff, forall_ok_iff]
  refine imp_congr_right fun _ => ?_
  have hmembers : Clean (parts.forM (validateMembers (routable ++ parts.map GroupPart.name ++
      ["REJECT"]) (blockTags outbounds) providers.keys)) :=
    OnlyFaults.forM fun _ _ => clean_validateMembers
  rw [hmembers.bind_iff, forall_ok_iff]
  refine imp_congr_right fun _ => ?_
  rw [clean_bind_iff, forall_ok_iff, clean_bind_iff_left fun _ => onlyFaults_pure, clean_validateRoute_iff]
  rfl

/-! ### `migrate` -/

/-- The four fields of the Mihomo metadata. -/
structure FieldsOf (mihomo : Json) (m : MihomoMeta) : Prop where
  proxyProviders : mihomoField mihomo "proxy-providers" = .ok m.proxyProviders
  ruleProviders : mihomoField mihomo "rule-providers" = .ok m.ruleProviders
  advanced : mihomoField mihomo "advanced" = .ok m.advanced
  managedFiles : mihomoField mihomo "managed-files" = .ok m.managedFiles

/-- What `migrate` reads before it validates: the schema, then outbounds and groups, then the
names and references. -/
def PartsTyped (U : Unicode) (model : Json) : Prop :=
  ∀ outbounds route direct, model.getD "outbounds" .null = .arr outbounds →
    model.getD "route" .null = .obj route → directTag model = .ok direct →
    isDict (pdgOf model) = true →
      ((pdgOf model).getD "schema" (.int 1)).hashable = true ∧
      ∀ schema, declaredSchema (pdgOf model) = .ok schema → isDict (mihomoOf model) = true →
        extraKeys ((mihomoOf model).fields?.getD []) (v3MihomoFields ++ ["proxy-groups"]) = false →
          GroupsTyped U (pdgOf model) (mihomoOf model) direct outbounds schema ∧
          ∀ rest groups m,
            groupsOf U model (pdgOf model) (mihomoOf model) outbounds schema = .ok (rest, groups) →
            FieldsOf (mihomoOf model) m → NamesTyped U rest groups m route

/-- `migrate` meets no operand of the wrong type and no nesting that is too deep. Everything
is asked only of a document whose root and declared envelope are let through. -/
structure WellTyped (S : Stack) (U : Unicode) (model : Json) : Prop where
  copied : isDict model = true → Passes (validateDeclaredSchemaShape model) →
    nesting model ≤ S.copy
  parts : isDict model = true → Passes (validateDeclaredSchemaShape model) → PartsTyped U model
  validated : isDict model = true → Passes (validateDeclaredSchemaShape model) →
    ∀ result, canonicalized U model = .ok result → ValidateTyped S.visit U result

theorem clean_declaredSchema_iff {pdg : Json} :
    Clean (declaredSchema pdg) ↔ (pdg.getD "schema" (.int 1)).hashable = true := by
  unfold declaredSchema
  cases hhash : (pdg.getD "schema" (.int 1)).hashable with
  | false => simp [hhash]
  | true =>
      simp only [hhash, Bool.not_true, Bool.false_eq_true, if_false, iff_true]
      split
      · exact onlyFaults_ok
      · exact onlyFaults_raise

theorem declaredSchema_isNumber {pdg : Json} {n : Int} (h : declaredSchema pdg = .ok n) :
    (pdg.getD "schema" (.int 1)).isNumber n = true := by
  unfold declaredSchema at h
  cases hhash : (pdg.getD "schema" (.int 1)).hashable with
  | false => simp [hhash] at h
  | true =>
      simp only [hhash, Bool.not_true, Bool.false_eq_true, if_false] at h
      cases hfind : [1, 2, 3].find? (pdg.getD "schema" (.int 1)).isNumber with
      | none => simp [hfind] at h
      | some m =>
          rw [hfind] at h
          cases pure_eq_ok.mp h
          have hn := List.find?_some hfind
          exact hn

/-- A document that declares schema 3 behind the check of its shape has a list of groups. -/
theorem groups_of_shape (h : Passes (validateDeclaredSchemaShape model))
    (hschema : declaredSchema (pdgOf model) = .ok 3) :
    ((pdgOf model).getD "policy-groups" .null).isContainer = true := by
  have hthree := declaredSchema_isNumber hschema
  obtain ⟨schema, hget, hnumber⟩ : ∃ schema, (pdgOf model).get? "schema" = some schema ∧
      schema.isNumber 3 = true := by
    cases hget : (pdgOf model).get? "schema" with
    | none =>
        rw [Json.getD, hget] at hthree
        exact absurd hthree (by decide)
    | some schema => exact ⟨schema, rfl, by simpa [Json.getD, hget] using hthree⟩
  -- the metadata is there, since the empty one has no schema
  obtain ⟨pdg, hpdg⟩ : ∃ pdg, model.getD "_pdg" .null = .obj pdg := by
    unfold pdgOf orEmpty at hget
    split at hget
    · cases hpdg : model.getD "_pdg" .null with
      | obj pdg => exact ⟨pdg, rfl⟩
      | _ => simp [hpdg, Json.get?] at hget
    · simp [Json.get?, Dict.get?] at hget
  have heq : pdgOf model = .obj pdg := by
    unfold pdgOf orEmpty at hget ⊢
    rw [hpdg] at hget ⊢
    split
    · rfl
    · rename_i hfalse
      rw [if_neg hfalse] at hget
      simp [Json.get?, Dict.get?] at hget
  obtain ⟨u, h⟩ := h
  rw [validateDeclaredSchemaShape, hpdg] at h
  rw [heq] at hget ⊢
  simp only [getD_of_get? hget, schemaVersion, hnumber, Bool.not_true, Bool.false_eq_true,
    if_false] at h
  obtain ⟨hshape, -⟩ := raiseIf_bind_eq_ok.mp h
  rw [Bool.or_eq_false_iff, Bool.not_eq_false'] at hshape
  cases hlist : (Json.obj pdg).getD "policy-groups" .null with
  | arr groups => rfl
  | _ => simp [hlist, isList] at hshape

theorem clean_canonicalized_iff {fields : Dict String Json}
    (h : Passes (validateDeclaredSchemaShape (.obj fields))) :
    Clean (canonicalized U (.obj fields)) ↔ PartsTyped U (.obj fields) := by
  unfold canonicalized PartsTyped
  dsimp only
  constructor
  · intro hclean outbounds route direct houts hroute hdirect hpdg
    rw [houts, hroute] at hclean
    dsimp only at hclean
    rw [hdirect, ok_bind, clean_raiseIf.bind_iff] at hclean
    have hclean := hclean () (by
      rw [raiseIf_eq_ok, Bool.not_eq_false']
      exact hpdg)
    obtain ⟨hschema, hclean⟩ := clean_bind_iff.mp hclean
    refine ⟨clean_declaredSchema_iff.mp hschema, fun schema hschema hmihomo hextra => ?_⟩
    have hclean := hclean schema hschema
    have hclean := clean_raiseIf.bind_iff.mp hclean () (by
      rw [raiseIf_eq_ok, Bool.not_eq_false']
      exact hmihomo)
    have hclean := clean_raiseIf.bind_iff.mp hclean () (raiseIf_eq_ok.mpr hextra)
    obtain ⟨hgroups, hclean⟩ := clean_bind_iff.mp hclean
    refine ⟨(clean_groupsOf_iff hdirect fun hthree => groups_of_shape h (hthree ▸ hschema)).mp hgroups,
      fun rest groups m hrest hm => ?_⟩
    have hclean := hclean (rest, groups) hrest
    have hclean := clean_mihomoField.bind_iff.mp hclean m.proxyProviders hm.proxyProviders
    have hclean := clean_mihomoField.bind_iff.mp hclean m.ruleProviders hm.ruleProviders
    have hclean := clean_mihomoField.bind_iff.mp hclean m.advanced hm.advanced
    have hclean := clean_mihomoField.bind_iff.mp hclean m.managedFiles hm.managedFiles
    exact (clean_canonicalizeUserNames_iff (groupsOf_hashable hrest)).mp (clean_bind_iff.mp hclean).1
  · intro htyped
    split
    · rename_i outbounds houts
      split
      · rename_i route hroute
        have hget := get?_of_getD houts (by simp)
        refine (clean_directTag (getD_of_get? hget)).bind fun direct hdirect => ?_
        refine clean_raiseIf.bind fun _ hpdg => ?_
        have hpdg : isDict (pdgOf (.obj fields)) = true := by
          rw [raiseIf_eq_ok, Bool.not_eq_false'] at hpdg
          exact hpdg
        obtain ⟨hschema, htyped⟩ := htyped outbounds route direct houts hroute hdirect hpdg
        refine (clean_declaredSchema_iff.mpr hschema).bind fun schema hschema => ?_
        refine clean_raiseIf.bind fun _ hmihomo => clean_raiseIf.bind fun _ hextra => ?_
        have hmihomo : isDict (mihomoOf (.obj fields)) = true := by
          rw [raiseIf_eq_ok, Bool.not_eq_false'] at hmihomo
          exact hmihomo
        obtain ⟨hgroups, hnames⟩ := htyped schema hschema hmihomo (raiseIf_eq_ok.mp hextra)
        refine ((clean_groupsOf_iff hdirect fun hthree => groups_of_shape h (hthree ▸ hschema)).mpr
          hgroups).bind fun parts hparts => ?_
        obtain ⟨rest, groups⟩ := parts
        refine clean_mihomoField.bind fun proxy hproxy => clean_mihomoField.bind fun rule hrule =>
          clean_mihomoField.bind fun advanced hadvanced => clean_mihomoField.bind fun managed hmanaged => ?_
        refine OnlyFaults.bind ?_ fun _ _ => onlyFaults_ok
        exact (clean_canonicalizeUserNames_iff (groupsOf_hashable hparts)).mpr
          (hnames rest groups ⟨proxy, rule, advanced, managed⟩ hparts
            ⟨hproxy, hrule, hadvanced, hmanaged⟩)
      · exact onlyFaults_raise
    · exact onlyFaults_raise

/-- The members that are groups are among the groups. -/
theorem groupGraph_closed (parts : List GroupPart) :
    ∀ a ∈ parts.map GroupPart.name, ∀ b ∈ groupGraph parts a, b ∈ parts.map GroupPart.name := by
  intro a _ b hb
  unfold groupGraph at hb
  split at hb
  · simpa using (List.mem_filter.mp hb).2
  · simp at hb

/-- Fewer groups than the limit are never too deep. -/
theorem fits_of_groups {parts : List GroupPart} {limit : Nat} (h : parts.length < limit) :
    Search.Fits limit dependencyCycle (groupGraph parts) (parts.map GroupPart.name) :=
  Search.fits_of_length (groupGraph_closed parts) (by simpa using h)

theorem validateNames_of_within {limit : Nat} {names : Names}
    (h : validateWith U (Search.visitAllWithin limit dependencyCycle) model = .ok names) :
    validateNames U model = .ok names := by
  unfold validateWith at h
  rw [validateNames_eq]
  unfold validateWith
  obtain ⟨⟨outbounds, groups, providers, ruleProviders⟩, henv, h⟩ := bind_eq_ok.mp h
  obtain ⟨⟨tags, routable⟩, houts, h⟩ := bind_eq_ok.mp h
  obtain ⟨items, hitems, h⟩ := bind_eq_ok.mp h
  obtain ⟨parts, hparts, h⟩ := bind_eq_ok.mp h
  simp only [unit_bind_eq_ok] at h
  obtain ⟨hspace, hmembers, hsearch, hroute, h⟩ := h
  have hall := Search.visitAll_of_visitAllWithin (groupGraph_closed parts) hsearch
  simp only [henv, houts, hitems, hparts, hspace, hmembers, hall, hroute, ok_bind]
  exact h

/-- What `migrate` returns is validated. -/
theorem validate_of_validateOn (h : validateOn S U model = .ok ()) : validate U model = .ok () := by
  obtain ⟨names, hnames, -⟩ := map_eq_ok.mp h
  exact map_eq_ok.mpr ⟨names, validateNames_of_within hnames, rfl⟩

theorem clean_migrateOn_iff : Clean (migrateOn S U model) ↔ WellTyped S U model := by
  cases hdict : isDict model with
  | false =>
      have hroot : migrateOn S U model = Py.raise (.text "model root must be an object") := by
        rw [migrateOn, hdict]
        rfl
      rw [hroot]
      exact iff_of_true onlyFaults_raise ⟨by simp [hdict], by simp [hdict], by simp [hdict]⟩
  | true =>
      obtain ⟨fields, rfl⟩ : ∃ fields, model = .obj fields := by
        cases model <;> first | exact ⟨_, rfl⟩ | simp [isDict] at hdict
      show Clean (validateDeclaredSchemaShape (.obj fields) >>= fun _ =>
        deepcopy S (.obj fields) >>= fun copy => canonicalized U copy >>= fun result =>
          validateOn S U result >>= fun _ => pure result) ↔ _
      rw [clean_validateDeclaredSchemaShape.bind_iff, forall_ok_iff]
      have hcopy : Clean (deepcopy S (.obj fields)) ↔ nesting (.obj fields) ≤ S.copy := by
        unfold deepcopy
        split <;> simp [*]
      have hvalid : ∀ result, Clean (validateOn S U result >>= fun _ => pure result) ↔
          ValidateTyped S.visit U result := by
        intro result
        rw [clean_bind_iff_left fun _ => onlyFaults_pure, ← clean_validateWith_iff]
        exact onlyFaults_discard_iff
      rw [clean_bind_iff, hcopy]
      constructor
      · intro h
        have hrest : ∀ hshape : Passes (validateDeclaredSchemaShape (.obj fields)),
            Clean (canonicalized U (.obj fields) >>= fun result =>
              validateOn S U result >>= fun _ => pure result) :=
          fun hshape => (h hshape).2 _ (if_pos (h hshape).1)
        exact {
          copied := fun _ hshape => (h hshape).1
          parts := fun _ hshape =>
            (clean_canonicalized_iff hshape).mp (clean_bind_iff.mp (hrest hshape)).1
          validated := fun _ hshape result hresult =>
            (hvalid result).mp ((clean_bind_iff.mp (hrest hshape)).2 result hresult) }
      · intro h hshape
        refine ⟨h.copied hdict hshape, fun copy hcopy => ?_⟩
        have heq : Json.obj fields = copy := by
          rw [deepcopy, if_pos (h.copied hdict hshape)] at hcopy
          exact Except.ok.inj hcopy
        rw [← heq]
        exact ((clean_canonicalized_iff hshape).mpr (h.parts hdict hshape)).bind fun result hresult =>
          (hvalid result).mpr (h.validated hdict hshape result hresult)

/-- `migrate` returns a validated document or raises a `ModelError`, on the well-typed
documents and on no other. -/
theorem migrate_total_iff (S : Stack) (U : Unicode) (model : Json) :
    ((∃ result, migrateOn S U model = .ok result ∧ validate U result = .ok ()) ∨
        ∃ e, migrateOn S U model = Py.raise e) ↔ WellTyped S U model := by
  rw [← clean_migrateOn_iff]
  constructor
  · intro h
    rcases h with ⟨result, hresult, -⟩ | ⟨e, he⟩
    · exact onlyFaults_of_ok hresult
    · exact onlyFaults_of_raise he
  · intro h
    rcases h.cases with ⟨result, hresult⟩ | ⟨e, he⟩
    · refine Or.inl ⟨result, hresult, ?_⟩
      obtain ⟨-, hresult⟩ := raiseIf_bind_eq_ok.mp hresult
      obtain ⟨-, hresult⟩ := unit_bind_eq_ok.mp hresult
      obtain ⟨copy, -, hresult⟩ := bind_eq_ok.mp hresult
      obtain ⟨canonical, -, hresult⟩ := bind_eq_ok.mp hresult
      obtain ⟨hvalid, hresult⟩ := unit_bind_eq_ok.mp hresult
      rw [← pure_eq_ok.mp hresult]
      exact validate_of_validateOn hvalid
    · exact Or.inr ⟨e, he⟩

/-- An outbound whose type is a list. -/
def listedType : Json :=
  .obj [
    ("outbounds", .arr [
      .obj [("type", .arr [.str "direct"]), ("tag", .str "tokyo")],
      .obj [("type", .str "direct"), ("tag", .str "JP")]]),
    ("route", .obj [("final", .str "JP")])]

/-- The type is looked up in a set, and a `TypeError` leaves `migrate`. -/
theorem listedType_raises :
    ¬ ((∃ result, migrateOn ⟨1000, 1000⟩ ⟨id, fun _ => "Ll", fun _ => none⟩ listedType = .ok result ∧
          validate ⟨id, fun _ => "Ll", fun _ => none⟩ result = .ok ()) ∨
        ∃ e, migrateOn ⟨1000, 1000⟩ ⟨id, fun _ => "Ll", fun _ => none⟩ listedType = Py.raise e) := by
  have hfault : migrateOn ⟨1000, 1000⟩ ⟨id, fun _ => "Ll", fun _ => none⟩ listedType =
      Py.fault .type := by rfl
  rw [hfault]
  simp [Py.raise, Py.fault]

end ProxyGateway.Schema
