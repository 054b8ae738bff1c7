import ProxyGateway.Schema.Validator

set_option autoImplicit false

/-!
# ProxyGateway.Schema.ValidatorFaults

When the validator of the model target answers: exactly for the candidates on which it meets
no operand of the wrong type and no nesting that is too deep (`CandidateTyped`). What
`validate` and `validate_ruleset_namespace` raise is caught, unless it is the depth of the
recursion.
-/

namespace ProxyGateway.Schema

open Py Json
open Pdgtx (Bytes Name Path Target)

variable {U : Unicode} {S : Stack} {H : Host} {model value provider outbound group : Json}
  {kind : ProviderKind} {limit : Nat} {names : List String}

/-! ### The checks of single values -/

/-- The value under a key, if it is there, can be an element of a set. -/
def choosable (value : Json) (key : String) : Bool := (value.get? key).all Json.hashable

/-- What is read of an outbound with Mihomo metadata: behind the other checks its
packet encoding. -/
def ProxyMetaTyped (outbound : Json) : Prop :=
  ∀ proxyMeta advanced, outbound.get? "_pdg_mihomo" = some proxyMeta →
    isDict proxyMeta = true → sameKeys (proxyMeta.fields?.getD []) ["advanced"] = true →
    proxyMeta.getD "advanced" .null = .obj advanced →
    ((Dict.keys advanced).any (· ∈ blockedAdvanced) || (safeAdvanced (.obj advanced) 0 0).isNone ||
      (Dict.get? advanced "udp").any (!isBool ·)) = false →
        choosable (.obj advanced) "packet-encoding" = true

/-- The tests of `provider_schema` in front of the format. -/
def providerHead (kind : ProviderKind) (provider : Json) : Bool :=
  !extraKeys (provider.fields?.getD []) (schemaFields kind) &&
    nullOr (isIntIn 1 604800) (provider.getD "interval" .null) &&
    nullOr (isIntIn 1 (1024 * 1024 * 1024)) (provider.getD "size-limit" .null) &&
    !(["filter", "exclude-filter"].any (fun key => badText 4096 (provider.getD key .null))) &&
    nullOr healthSchema (provider.getD "health-check" .null) &&
    nullOr overrideSchema (provider.getD "override" .null)

/-- What is read of a provider: its format, then its behavior, then its path. -/
structure ProviderTyped (H : Host) (kind : ProviderKind) (name : String) (provider : Json) : Prop where
  format : isValidName H.unicode (.str name) = true → isDict provider = true →
    (safeAdvanced provider 0 0).isSome = true → providerHead kind provider = true →
      choosable provider "format" = true ∧
      (choiceIn provider "format" (providerFormats kind) = .ok true →
        choosable provider "behavior" = true)
  path : isValidName H.unicode (.str name) = true → isDict provider = true →
    (safeAdvanced provider 0 0).isSome = true → providerSchema kind provider = .ok true →
      ((provider.getD "path" .null).str?.isSome || !(provider.getD "path" .null).truthy) = true

/-- The tests of `group_schema` in front of the strategy. -/
def groupSchemaHead (group : Json) : Bool :=
  (((group.getD "type" .null).str?.bind groupFields).any
    (fun allowed => !extraKeys (group.fields?.getD []) allowed)) &&
  !(["lazy", "disable-udp", "hidden"].any (fun key => (group.get? key).any (!isBool ·))) &&
  !(group.get? "url").any (!httpUrl ·) &&
  !(group.get? "interval").any (!isIntIn 1 604800 ·) &&
  !(group.get? "tolerance").any (!isIntIn 0 65535 ·)

/-- What is read of a policy group: its type and, behind the other tests, its strategy. -/
structure SchemaTyped (group : Json) : Prop where
  type : isDict group = true → (safeAdvanced group 0 0).isSome = true →
    (group.getD "type" .null).hashable = true
  strategy : isDict group = true → (safeAdvanced group 0 0).isSome = true →
    groupSchemaHead group = true → choosable group "strategy" = true

theorem clean_choiceIn_iff {key : String} {allowed : List String} :
    Clean (choiceIn value key allowed) ↔ choosable value key = true := by
  unfold choiceIn choosable
  cases value.get? key with
  | none => simp
  | some v => simp

theorem clean_proxyMetaSafe_iff : Clean (proxyMetaSafe outbound) ↔ ProxyMetaTyped outbound := by
  unfold proxyMetaSafe ProxyMetaTyped
  cases outbound.get? "_pdg_mihomo" with
  | none => simp
  | some proxyMeta =>
      dsimp only
      rw [clean_raiseIf.bind_iff]
      simp only [raiseIf_eq_ok, forall_const, Bool.or_eq_false_iff, Bool.not_eq_false']
      cases hget : proxyMeta.getD "advanced" .null with
      | obj advanced =>
          dsimp only
          rw [clean_raiseIf.bind_iff, clean_bind_iff_left fun _ => clean_raiseIf,
            clean_choiceIn_iff]
          simp only [raiseIf_eq_ok, forall_const, Bool.or_eq_false_iff, and_imp]
          constructor
          · intro h _ _ heq hdict hkeys hadv
            cases heq
            rw [hget] at hadv
            cases hadv
            exact h hdict hkeys
          · intro h hdict hkeys
            exact h proxyMeta advanced rfl hdict hkeys hget
      | _ =>
          refine iff_of_true (fun _ => onlyFaults_raise) fun _ _ heq _ _ hadv => ?_
          cases heq
          rw [hget] at hadv
          cases hadv

theorem providerSchema_eq : providerSchema kind provider =
    if providerHead kind provider then
      choiceIn provider "format" (providerFormats kind) >>= fun isFormat =>
        if isFormat then choiceIn provider "behavior" ["domain", "ipcidr", "classical"] else .ok false
    else .ok false := by
  unfold providerSchema providerHead
  cases extraKeys (provider.fields?.getD []) (schemaFields kind) with
  | true => rfl
  | false =>
  cases nullOr (isIntIn 1 604800) (provider.getD "interval" .null) with
  | false => rfl
  | true =>
  cases nullOr (isIntIn 1 (1024 * 1024 * 1024)) (provider.getD "size-limit" .null) with
  | false => rfl
  | true =>
  cases ["filter", "exclude-filter"].any (fun key => badText 4096 (provider.getD key .null)) with
  | true => rfl
  | false =>
  cases nullOr healthSchema (provider.getD "health-check" .null) with
  | false => rfl
  | true =>
  cases nullOr overrideSchema (provider.getD "override" .null) with
  | false => rfl
  | true =>
      cases choiceIn provider "format" (providerFormats kind) with
      | error e => rfl
      | ok isFormat => cases isFormat <;> rfl

theorem clean_providerSchema_iff : Clean (providerSchema kind provider) ↔
    (providerHead kind provider = true → choosable provider "format" = true ∧
      (choiceIn provider "format" (providerFormats kind) = .ok true →
        choosable provider "behavior" = true)) := by
  rw [providerSchema_eq]
  cases providerHead kind provider with
  | false => simp
  | true =>
      rw [if_pos rfl, clean_bind_iff, clean_choiceIn_iff]
      simp only [forall_const]
      refine and_congr_right fun _ => ⟨fun h hformat => ?_, fun h isFormat hformat => ?_⟩
      · exact clean_choiceIn_iff.mp (h true hformat)
      · cases isFormat with
        | true => exact clean_choiceIn_iff.mpr (h hformat)
        | false => exact onlyFaults_ok

theorem clean_pathLeaf_iff : Clean (pathLeaf value) ↔ (value.str?.isSome || !value.truthy) = true := by
  cases value with
  | str s => simp [pathLeaf, Json.str?]
  | _ =>
      unfold pathLeaf
      dsimp only
      split <;> simp_all [Json.str?]

theorem clean_providerClosed_iff {managed : Dict String Json} {name : String} :
    Clean (providerClosed H managed kind name provider) ↔ ProviderTyped H kind name provider := by
  unfold providerClosed
  rw [clean_raiseIf.bind_iff]
  simp only [raiseIf_eq_ok, forall_const, Bool.or_eq_false_iff, Bool.not_eq_false',
    Option.isNone_eq_false_iff, and_imp]
  constructor
  · intro h
    refine ⟨fun hname hdict hsafe hhead => ?_, fun hname hdict hsafe hschema => ?_⟩
    · exact clean_providerSchema_iff.mp (clean_bind_iff.mp (h hname hdict hsafe)).1 hhead
    · have hrest := (clean_bind_iff.mp (h hname hdict hsafe)).2 true hschema
      exact clean_pathLeaf_iff.mp (clean_bind_iff.mp (clean_raiseIf.bind_iff.mp hrest () rfl)).1
  · intro h hname hdict hsafe
    refine (clean_providerSchema_iff.mpr (h.format hname hdict hsafe)).bind fun isSchema hschema => ?_
    cases isSchema with
    | false => exact onlyFaults_raise
    | true =>
        refine clean_raiseIf.bind fun _ _ => ?_
        refine (clean_pathLeaf_iff.mpr (h.path hname hdict hsafe hschema)).bind fun leaf _ => ?_
        refine clean_raiseIf.bind fun _ _ => ?_
        split
        · exact clean_raiseIf.bind fun _ _ => onlyFaults_ok
        · exact clean_raiseIf.bind fun _ _ => onlyFaults_ok

theorem groupSchema_eq (h : (group.getD "type" .null).hashable = true) : groupSchema group =
    if groupSchemaHead group then choiceIn group "strategy" strategies else .ok false := by
  unfold groupSchema groupSchemaHead
  rw [h]
  cases (group.getD "type" .null).str?.bind groupFields with
  | none => rfl
  | some allowed =>
  by_cases hextra : extraKeys (group.fields?.getD []) allowed = true
  · simp [hextra]
  by_cases hbools : ["lazy", "disable-udp", "hidden"].any
      (fun key => (group.get? key).any (!isBool ·)) = true
  · simp [hextra, hbools]
  by_cases hurl : (group.get? "url").any (!httpUrl ·) = true
  · simp [hextra, hbools, hurl]
  by_cases hinterval : (group.get? "interval").any (!isIntIn 1 604800 ·) = true
  · simp [hextra, hbools, hurl, hinterval]
  by_cases htolerance : (group.get? "tolerance").any (!isIntIn 0 65535 ·) = true
  · simp [hextra, hbools, hurl, hinterval, htolerance]
  · simp [hextra, hbools, hurl, hinterval, htolerance]

theorem clean_groupSafe_iff : Clean (groupSafe group) ↔ SchemaTyped group := by
  have hrest : ∀ isSchema : Bool, Clean (raiseIf (!isSchema) "config.json 的 policy-group 元数据不合法") :=
    fun _ => clean_raiseIf
  unfold groupSafe
  rw [clean_raiseIf.bind_iff]
  simp only [raiseIf_eq_ok, forall_const, Bool.or_eq_false_iff, Bool.not_eq_false',
    Option.isNone_eq_false_iff, and_imp, clean_bind_iff_left hrest]
  constructor
  · intro h
    have htype : isDict group = true → (safeAdvanced group 0 0).isSome = true →
        (group.getD "type" .null).hashable = true := by
      intro hdict hsafe
      by_contra hhash
      have hfault : groupSchema group = Py.fault .type := by
        unfold groupSchema
        simp [hhash]
      have hclean := h hdict hsafe
      rw [hfault] at hclean
      simp at hclean
    refine ⟨htype, fun hdict hsafe hhead => ?_⟩
    have hclean := h hdict hsafe
    rw [groupSchema_eq (htype hdict hsafe), if_pos hhead] at hclean
    exact clean_choiceIn_iff.mp hclean
  · intro h hdict hsafe
    rw [groupSchema_eq (h.type hdict hsafe)]
    split
    · rename_i hhead
      exact clean_choiceIn_iff.mpr (h.strategy hdict hsafe hhead)
    · exact onlyFaults_ok

/-! ### What is caught

Around `validate` and `validate_ruleset_namespace` the validator catches a `TypeError` and a
`ValueError`. Everything `migrate` does before it validates raises nothing else. -/

/-- The faults that the validator turns into a refusal. -/
def Caught (f : Fault) : Prop := f = .type ∨ f = .value

theorem clean_checked_iff {α : Type} {label : String} {x : Py ModelError α} :
    Clean (checked H label x) ↔ OnlyFaults Caught x := by
  cases x with
  | ok a => simp [checked]
  | error e =>
      cases e with
      | error e => exact iff_of_true onlyFaults_raise onlyFaults_raise
      | fault f =>
          show Clean (if f = .type ∨ f = .value then _ else _) ↔ _
          by_cases hf : f = .type ∨ f = .value
          · rw [if_pos hf]
            exact iff_of_true onlyFaults_raise fun g hg => by cases hg; exact hf
          · rw [if_neg hf]
            exact iff_of_false (by simp) fun h => hf (h f rfl)

theorem caught_within {ε : Type} {names : List String} :
    OnlyFaults Caught (value.within (ε := ε) names) := by
  cases value <;> simp [Json.within, OnlyFaults, Caught]

theorem caught_items {ε : Type} : OnlyFaults Caught (value.items (ε := ε)) := by
  cases value <;> simp [Json.items, OnlyFaults, Caught]

theorem caught_has {ε : Type} {text : String} : OnlyFaults Caught (Json.has (ε := ε) text value) := by
  cases value <;> simp [Json.has, OnlyFaults, Caught]

theorem caught_groupTest {ε : Type} : OnlyFaults Caught (if isDict value then
    (value.getD "type" .null).within (ε := ε) groupOutboundTypes else .ok false) := by
  split
  · exact caught_within
  · exact onlyFaults_ok

theorem caught_directTag : OnlyFaults Caught (directTag model) := by
  refine caught_items.bind fun _ _ => ?_
  split
  · exact clean_tag.only
  · exact onlyFaults_raise

theorem caught_durationSeconds : OnlyFaults Caught (durationSeconds U value) := by
  have h := @durationSeconds_cases U value
  split at h
  · obtain ⟨n, hn⟩ := h
    exact onlyFaults_of_ok hn
  · rw [h]
    exact onlyFaults_fault_iff.mpr (Or.inr rfl)

theorem caught_canonicalGroup {direct : String} :
    OnlyFaults Caught (canonicalGroup U outbound direct) := by
  refine clean_validateName.only.bind fun name _ => ?_
  cases hasType "urltest" outbound with
  | true =>
      refine caught_durationSeconds.bind fun _ _ => ?_
      exact caught_items.bind fun _ _ => onlyFaults_ok
  | false => exact caught_items.bind fun _ _ => onlyFaults_ok

theorem caught_canonicalGroups {direct : String} {groups : GroupDict} :
    OnlyFaults Caught (canonicalGroups U direct groups value) := by
  rw [canonicalGroups_eq]
  refine caught_groupTest.bind fun isGroup _ => ?_
  cases isGroup with
  | true =>
      exact caught_canonicalGroup.bind fun _ _ => clean_raiseIf.only.bind fun _ _ => onlyFaults_ok
  | false => exact onlyFaults_ok

theorem caught_representable {raw : Json} : OnlyFaults Caught (representable raw) := by
  unfold representable
  cases (raw.getD "use" .null).truthy with
  | true => exact onlyFaults_ok
  | false => exact caught_has.bind fun _ _ => onlyFaults_ok

theorem caught_reconcileGroup {isV2 : Bool} {groups : GroupDict}
    {entry : String × Dict String Json} : OnlyFaults Caught (reconcileGroup isV2 groups entry) := by
  obtain ⟨name, own⟩ := entry
  unfold reconcileGroup
  dsimp only
  split
  · exact clean_raiseIf.only.bind fun _ _ => onlyFaults_ok
  · exact caught_representable.bind fun _ _ => clean_raiseIf.only.bind fun _ _ =>
      clean_raiseIf.only.bind fun _ _ => clean_raiseIf.only.bind fun _ _ => onlyFaults_ok

theorem caught_checkMirrored {canonical : GroupDict} {entry : String × Dict String Json} :
    OnlyFaults Caught (checkMirrored canonical entry) := by
  rw [checkMirrored_eq]
  split
  · exact onlyFaults_ok
  · refine caught_within.bind fun isEditable _ => ?_
    cases isEditable with
    | true => exact caught_representable.bind fun _ _ => clean_raiseIf.only
    | false => exact onlyFaults_ok

theorem caught_groupsOf {pdg mihomo : Json} {outbounds : List Json} {schema : Int} :
    OnlyFaults Caught (groupsOf U model pdg mihomo outbounds schema) := by
  unfold groupsOf
  dsimp only
  split
  · exact (OnlyFaults.anyM fun _ _ => caught_groupTest).bind fun _ _ =>
      clean_raiseIf.only.bind fun _ _ => caught_items.bind fun _ _ => onlyFaults_ok
  · refine clean_raiseIf.only.bind fun _ _ => OnlyFaults.bind ?_ fun _ _ =>
      OnlyFaults.bind (OnlyFaults.filterM fun _ _ => caught_groupTest.bind fun _ _ => onlyFaults_ok)
        fun _ _ => onlyFaults_ok
    refine caught_directTag.bind fun direct _ =>
      (OnlyFaults.foldlM fun _ _ _ => caught_canonicalGroups).bind fun canonical _ => ?_
    split
    · exact (OnlyFaults.foldlM fun _ _ _ => clean_mirrorGroups.only).bind fun _ _ =>
        (OnlyFaults.foldlM fun _ _ _ => caught_reconcileGroup).bind fun _ _ =>
          (OnlyFaults.forM fun _ _ => caught_checkMirrored).bind fun _ _ => onlyFaults_ok
    · exact onlyFaults_raise

theorem caught_declaredSchema {pdg : Json} : OnlyFaults Caught (declaredSchema pdg) := by
  by_cases hhash : (pdg.getD "schema" (.int 1)).hashable = true
  · exact Clean.only (clean_declaredSchema_iff.mpr hhash)
  · unfold declaredSchema
    simp [hhash, Caught]

theorem caught_nameOutbound : OnlyFaults Caught (nameOutbound U outbound) := by
  cases outbound with
  | obj fields =>
      refine caught_within.bind fun isProxy _ => ?_
      cases isProxy with
      | true => exact clean_normalizeName.only.bind fun _ _ => onlyFaults_ok
      | false => exact onlyFaults_ok
  | _ => exact onlyFaults_ok

theorem caught_membersOf {key : String} : OnlyFaults Caught (membersOf group key) := by
  unfold membersOf
  dsimp only
  split
  · exact caught_items
  · exact onlyFaults_ok

theorem caught_referGroup : OnlyFaults Caught (referGroup U group) := by
  cases group with
  | obj fields =>
      refine caught_membersOf.bind fun _ _ => OnlyFaults.bind (OnlyFaults.mapM fun item _ => ?_)
        fun _ _ => caught_membersOf.bind fun _ _ =>
          (OnlyFaults.mapM fun _ _ => clean_reference.only).bind fun _ _ => onlyFaults_ok
      split
      · exact onlyFaults_ok
      · exact clean_reference.only
  | _ => exact onlyFaults_ok

theorem caught_referList {key : String} {f : Json → Py ModelError Json} {fields : Dict String Json}
    (hf : ∀ item, Clean (f item)) : OnlyFaults Caught (referList key f fields) := by
  cases hlist : isList ((Dict.get? fields key).getD .null) with
  | false =>
      rw [referList_other hlist]
      split
      · exact caught_items.bind fun _ _ => onlyFaults_ok
      · exact onlyFaults_ok
  | true =>
      -- a list can be looped over
      refine Clean.only ((clean_referList_iff hf).mpr ?_)
      cases hvalue : (Dict.get? fields key).getD .null with
      | arr items => simp [loopable, isContainer]
      | _ => simp [hvalue, isList] at hlist

theorem caught_canonicalizeUserNames {outbounds groups : List Json} {m : MihomoMeta}
    {route : Dict String Json} :
    OnlyFaults Caught (canonicalizeUserNames U outbounds groups m route) := by
  refine (OnlyFaults.mapM fun _ _ => caught_nameOutbound).bind fun _ _ =>
    (OnlyFaults.mapM fun _ _ => clean_nameGroup.only).bind fun _ _ =>
    clean_nameProviders.only.bind fun _ _ => clean_nameProviders.only.bind fun _ _ =>
    (OnlyFaults.mapM fun _ _ => clean_referOutbound.only).bind fun _ _ =>
    (OnlyFaults.mapM fun _ _ => caught_referGroup).bind fun _ _ => OnlyFaults.bind ?_ fun _ _ =>
    onlyFaults_ok
  exact clean_referField.only.bind fun _ _ => (caught_referList fun _ => clean_referRule).bind
    fun _ _ => caught_referList fun _ => clean_referRuleSet

theorem caught_canonicalized : OnlyFaults Caught (canonicalized U model) := by
  unfold canonicalized
  split
  · split
    · split
      · refine caught_directTag.bind fun _ _ => clean_raiseIf.only.bind fun _ _ =>
          caught_declaredSchema.bind fun _ _ => clean_raiseIf.only.bind fun _ _ =>
          clean_raiseIf.only.bind fun _ _ => caught_groupsOf.bind fun _ _ => ?_
        exact clean_mihomoField.only.bind fun _ _ => clean_mihomoField.only.bind fun _ _ =>
          clean_mihomoField.only.bind fun _ _ => clean_mihomoField.only.bind fun _ _ =>
          caught_canonicalizeUserNames.bind fun _ _ => onlyFaults_ok
      · exact onlyFaults_raise
    · exact onlyFaults_raise
  · exact onlyFaults_raise

theorem caught_validateOutbound {seen : List String × List String} :
    OnlyFaults Caught (validateOutbound U seen outbound) := by
  refine clean_raiseIf.only.bind fun _ _ => caught_within.bind fun isProxy _ =>
    OnlyFaults.bind ?_ fun _ _ => clean_raiseIf.only.bind fun _ _ => caught_within.bind fun _ _ =>
      clean_raiseIf.only.bind fun _ _ => caught_within.bind fun _ _ => onlyFaults_ok
  cases isProxy with
  | true => exact clean_validateName.only
  | false => exact clean_tag.only

theorem caught_validateGroupIn {parts : List GroupPart} :
    OnlyFaults Caught (validateGroupIn U parts group) := by
  unfold validateGroupIn
  rw [validateGroup_eq]
  refine OnlyFaults.bind ?_ fun _ _ => clean_raiseIf.only.bind fun _ _ => onlyFaults_ok
  refine OnlyFaults.bind ?_ fun _ _ => caught_within.bind fun _ _ =>
    clean_raiseIf.only.bind fun _ _ => onlyFaults_ok
  exact clean_raiseIf.only.bind fun _ _ => clean_validateName.only.bind fun _ _ =>
    caught_within.bind fun _ _ => clean_raiseIf.only.bind fun _ _ => clean_raiseIf.only.bind fun _ _ =>
    clean_raiseIf.only.bind fun _ _ => clean_validateProbe.only.bind fun _ _ =>
    clean_raiseIf.only.bind fun _ _ => onlyFaults_ok

theorem caught_validateRoute {routable : List String} {route : Json} :
    OnlyFaults Caught (validateRoute routable route) := by
  refine clean_raiseIf.only.bind fun _ _ => caught_within.bind fun _ _ =>
    clean_raiseIf.only.bind fun _ _ => ?_
  split
  · refine OnlyFaults.forM fun rule _ => clean_raiseIf.only.bind fun _ _ => ?_
    dsimp only
    split
    · exact caught_within.bind fun _ _ => clean_raiseIf.only
    · exact onlyFaults_ok
  · exact onlyFaults_raise

/-- The search for a cycle of policy groups makes no more than `limit` nested calls, where
`validate` gets to it. -/
def SearchFits (limit : Nat) (U : Unicode) (model : Json) : Prop :=
  ∀ outbounds groups providers ruleProviders,
    envelope model = .ok (outbounds, groups, providers, ruleProviders) →
    ∀ tags routable, outbounds.foldlM (validateOutbound U) ([], []) = .ok (tags, routable) →
    ∀ items, groups.items (ε := ModelError) = .ok items →
    ∀ parts, items.foldlM (validateGroupIn U) [] = .ok parts →
      Passes (validateNamespace U tags (parts.map GroupPart.name) providers.keys ruleProviders.keys) →
      Passes (parts.forM (validateMembers (routable ++ parts.map GroupPart.name ++ ["REJECT"])
        (blockTags outbounds) providers.keys)) →
        Search.Fits limit dependencyCycle (groupGraph parts) (parts.map GroupPart.name)

/-- The search raises no other fault. -/
theorem caught_search_iff {next : String → List String} {nodes : List String} :
    OnlyFaults Caught (Search.visitAllWithin limit dependencyCycle next nodes) ↔
      Search.Fits limit dependencyCycle next nodes := by
  refine ⟨fun h fault hf => ?_, fun h => Clean.only h⟩
  have hrec : OnlyFaults (· = .recursion) (Search.visitAllWithin limit dependencyCycle next nodes) :=
    (OnlyFaults.foldlM fun _ _ _ => Search.visitWithin_recursion).bind fun _ _ => onlyFaults_ok
  rw [hrec fault hf] at hf
  rcases h .recursion hf with h | h <;> cases h

theorem caught_validateOn_iff :
    OnlyFaults Caught (validateOn S U model) ↔ SearchFits S.visit U model := by
  have hdiscard : OnlyFaults Caught (validateOn S U model) ↔
      OnlyFaults Caught (validateWith U (Search.visitAllWithin S.visit dependencyCycle) model) :=
    onlyFaults_discard_iff
  rw [hdiscard]
  unfold validateWith SearchFits
  rw [(Clean.only clean_envelope).bind_iff, Prod.forall]
  refine forall_congr' fun outbounds => ?_
  rw [Prod.forall]
  refine forall_congr' fun groups => ?_
  rw [Prod.forall]
  refine forall_congr' fun providers => forall_congr' fun ruleProviders => imp_congr_right fun _ => ?_
  dsimp only
  have houts : OnlyFaults Caught (outbounds.foldlM (validateOutbound U) ([], [])) :=
    OnlyFaults.foldlM fun _ _ _ => caught_validateOutbound
  rw [houts.bind_iff, Prod.forall]
  refine forall_congr' fun tags => forall_congr' fun routable => imp_congr_right fun _ => ?_
  rw [caught_items.bind_iff]
  refine forall_congr' fun items => imp_congr_right fun _ => ?_
  have hgroups : OnlyFaults Caught (items.foldlM (validateGroupIn U) []) :=
    OnlyFaults.foldlM fun _ _ _ => caught_validateGroupIn
  rw [hgroups.bind_iff]
  refine forall_congr' fun parts => imp_congr_right fun _ => ?_
  rw [(Clean.only clean_validateNamespace).bind_iff, forall_ok_iff]
  refine imp_congr_right fun _ => ?_
  have hmembers : OnlyFaults Caught (parts.forM (validateMembers (routable ++
      parts.map GroupPart.name ++ ["REJECT"]) (blockTags outbounds) providers.keys)) :=
    OnlyFaults.forM fun _ _ => clean_validateMembers.only
  rw [hmembers.bind_iff, forall_ok_iff]
  refine imp_congr_right fun _ => ?_
  rw [onlyFaults_bind_iff_left fun _ => caught_validateRoute.bind fun _ _ => onlyFaults_pure]
  exact caught_search_iff

/-- `migrate` reaches the limits of the interpreter in copying, or in its `validate`. -/
def MigrateFits (S : Stack) (U : Unicode) (model : Json) : Prop :=
  isDict model = true → Passes (validateDeclaredSchemaShape model) →
    nesting model ≤ S.copy ∧
      ∀ result, canonicalized U model = .ok result → SearchFits S.visit U result

theorem caught_migrateOn_iff :
    OnlyFaults Caught (migrateOn S U model) ↔ MigrateFits S U model := by
  have hcopy : OnlyFaults Caught (deepcopy S model) ↔ nesting model ≤ S.copy := by
    unfold deepcopy
    split <;> simp [*, Caught]
  have hvalid : ∀ result, OnlyFaults Caught (validateOn S U result >>= fun _ => pure result) ↔
      SearchFits S.visit U result := fun result => by
    rw [onlyFaults_bind_iff_left fun _ => onlyFaults_pure, caught_validateOn_iff]
  unfold migrateOn MigrateFits
  rw [(Clean.only clean_raiseIf).bind_iff, forall_ok_iff]
  have hroot : Passes (raiseIf (!isDict model) (.text "model root must be an object" : ModelError)) ↔
      isDict model = true := by
    simp [Passes]
  rw [hroot]
  refine imp_congr_right fun _ => ?_
  rw [(Clean.only clean_validateDeclaredSchemaShape).bind_iff, forall_ok_iff]
  refine imp_congr_right fun _ => ?_
  rw [onlyFaults_bind_iff, hcopy]
  refine and_congr_right fun hfits => ?_
  have heq : deepcopy S model = .ok model := if_pos hfits
  simp only [heq, Except.ok.injEq, forall_eq']
  rw [caught_canonicalized.bind_iff]
  simp only [hvalid]

/-! ### The whole validator -/

/-- What is read of the metadata in front of `validate`: the proxy providers, then the rule
providers, then the policy groups. -/
def PartsChoosable (H : Host) (data : ModelData) (pdg : Json) (m : MihomoMeta) : Prop :=
  advancedSafe m.advanced = .ok () →
  ∀ sizes, m.managedFiles.mapM (fun entry => managedSize H entry.1 entry.2) = .ok sizes →
  ¬ data.size + sizes.sum > maxManagedBundle →
    Each (fun entry : String × Json => providerClosed H m.managedFiles .proxy entry.1 entry.2)
      (fun entry => ProviderTyped H .proxy entry.1 entry.2) m.proxyProviders ∧
    ∀ proxy, m.proxyProviders.mapM
        (fun entry => providerClosed H m.managedFiles .proxy entry.1 entry.2) = .ok proxy →
      Each (fun entry : String × Json => providerClosed H m.managedFiles .rule entry.1 entry.2)
        (fun entry => ProviderTyped H .rule entry.1 entry.2) m.ruleProviders ∧
      ∀ rule, m.ruleProviders.mapM
          (fun entry => providerClosed H m.managedFiles .rule entry.1 entry.2) = .ok rule →
        sameSet (proxy.flatten ++ rule.flatten) m.managedFiles.keys = true →
        ∀ groups, pdg.getD "policy-groups" .null = .arr groups → Each groupSafe SchemaTyped groups

/-- What is read of the rulesets: the target of each. -/
def TargetTyped (info : Json) : Prop :=
  isDict info = true → info.getD "outbound" .null ≠ .str "direct" →
    (info.getD "outbound" .null).hashable = true

/-- What is read of a document with metadata: its parts, the search of `validate`, then what
`migrate` copies and searches, and last the targets of the rulesets. -/
def MetaTyped (S : Stack) (H : Host) (answer : Except String (Dict String Json)) (data : ModelData)
    (pdg : Json) : Prop :=
  ∀ m, metaShape pdg = .ok m → PartsChoosable H data pdg m ∧
    (Passes (metaParts H data pdg m) → SearchFits S.visit H.unicode data.doc ∧
      (Passes (validateOn S H.unicode data.doc) → ∀ ruleMeta, answer = .ok ruleMeta →
        (Passes (rulesetNames H.unicode ruleMeta.keys) → MigrateFits S H.unicode data.doc) ∧
        (Passes (validateRulesetNamespaceOn S H.unicode data.doc ruleMeta.keys) →
          ∀ entry ∈ ruleMeta, TargetTyped entry.2)))

/-- The validator meets no operand of the wrong type and no nesting that is too deep. -/
def CandidateTyped (S : Stack) (H : Host) (R : Reader) (bytes : Bytes) (targets : Dict Name Target)
    (files : Path → Pdgtx.Node) : Prop :=
  ¬ (bytes = [] ∨ bytes.length > maxManagedModel) → ∀ doc, R.loads bytes = .ok doc →
    isDict doc = true → (doc.get? "outbounds").isSome = true → (doc.get? "route").isSome = true →
      (doc.getD "outbounds" .null).isContainer = true ∧
      Each proxyMetaSafe ProxyMetaTyped (doc.getD "outbounds" .null).entries ∧
      (Passes ((doc.getD "outbounds" .null).entries.forM proxyMetaSafe) →
        doc.getD "_pdg" .null ≠ .null →
          MetaTyped S H (candidateRulesetMeta R targets files) ⟨doc, bytes.length⟩
            (doc.getD "_pdg" .null))

theorem clean_metaShape {pdg : Json} : Clean (metaShape pdg) := by
  refine clean_raiseIf.bind fun _ _ => clean_raiseIf.bind fun _ _ => clean_raiseIf.bind fun _ _ => ?_
  split
  · exact onlyFaults_ok
  · exact onlyFaults_raise

theorem clean_managedSize {leaf : String} : Clean (managedSize H leaf value) := by
  unfold managedSize
  split
  · refine clean_raiseIf.bind fun _ _ => ?_
    split
    · exact clean_raiseIf.bind fun _ _ => onlyFaults_ok
    · exact onlyFaults_raise
  · exact onlyFaults_raise

theorem clean_metaParts_iff {data : ModelData} {pdg : Json} {m : MihomoMeta} :
    Clean (metaParts H data pdg m) ↔ PartsChoosable H data pdg m := by
  have hsizes : Clean (m.managedFiles.mapM (fun entry => managedSize H entry.1 entry.2)) :=
    OnlyFaults.mapM fun _ _ => clean_managedSize
  have hproxy : Clean (m.proxyProviders.mapM
      (fun entry => providerClosed H m.managedFiles .proxy entry.1 entry.2)) ↔
      Each (fun entry : String × Json => providerClosed H m.managedFiles .proxy entry.1 entry.2)
        (fun entry => ProviderTyped H .proxy entry.1 entry.2) m.proxyProviders :=
    onlyFaults_mapM_iff fun _ _ => clean_providerClosed_iff
  have hrule : Clean (m.ruleProviders.mapM
      (fun entry => providerClosed H m.managedFiles .rule entry.1 entry.2)) ↔
      Each (fun entry : String × Json => providerClosed H m.managedFiles .rule entry.1 entry.2)
        (fun entry => ProviderTyped H .rule entry.1 entry.2) m.ruleProviders :=
    onlyFaults_mapM_iff fun _ _ => clean_providerClosed_iff
  unfold metaParts PartsChoosable advancedSafe
  rw [clean_raiseIf.bind_iff]
  simp only [raiseIf_eq_ok, forall_const]
  refine imp_congr_right fun _ => ?_
  rw [hsizes.bind_iff]
  refine forall_congr' fun sizes => imp_congr_right fun _ => ?_
  rw [clean_raiseIf.bind_iff]
  simp only [raiseIf_eq_ok, forall_const, decide_eq_false_iff_not]
  refine imp_congr_right fun _ => ?_
  rw [clean_bind_iff, hproxy]
  refine and_congr_right fun _ => forall_congr' fun proxy => imp_congr_right fun _ => ?_
  rw [clean_bind_iff, hrule]
  refine and_congr_right fun _ => forall_congr' fun rule => imp_congr_right fun _ => ?_
  rw [clean_raiseIf.bind_iff]
  simp only [raiseIf_eq_ok, forall_const, Bool.not_eq_false']
  refine imp_congr_right fun _ => ?_
  cases pdg.getD "policy-groups" .null with
  | arr groups =>
      simp only [Json.arr.injEq, forall_eq']
      exact onlyFaults_forM_iff fun _ _ => clean_groupSafe_iff
  | _ => simp

theorem clean_badRulesetTarget_iff {routable : List String} {info : Json} :
    Clean (badRulesetTarget routable info) ↔ TargetTyped info := by
  unfold badRulesetTarget TargetTyped
  by_cases hdict : isDict info = true
  · by_cases hdirect : info.getD "outbound" .null = .str "direct"
    · simp [hdict, hdirect]
    · simp [hdict, hdirect]
  · simp [hdict]

/-- The test of a target returns or faults. -/
theorem badRulesetTarget_ne_raise {routable : List String} {info : Json} (e : String) :
    badRulesetTarget routable info ≠ Py.raise e := by
  unfold badRulesetTarget
  by_cases hdict : isDict info = true
  · by_cases hdirect : info.getD "outbound" .null = .str "direct"
    · simp [hdict, hdirect, Py.raise, pure, Except.pure]
    · cases htarget : info.getD "outbound" .null <;>
        simp_all [Json.within, Py.raise, bind, Except.bind, pure, Except.pure]
  · simp [hdict, Py.raise, pure, Except.pure]

theorem migrate_of_migrateOn {result : Json} (h : migrateOn S U model = .ok result) :
    migrate U model = .ok result := by
  obtain ⟨hroot, h⟩ := raiseIf_bind_eq_ok.mp h
  obtain ⟨hshape, h⟩ := unit_bind_eq_ok.mp h
  obtain ⟨copy, hcopy, h⟩ := bind_eq_ok.mp h
  obtain ⟨canonical, hcanonical, h⟩ := bind_eq_ok.mp h
  obtain ⟨hvalid, h⟩ := unit_bind_eq_ok.mp h
  have heq : model = copy := by
    unfold deepcopy at hcopy
    split at hcopy
    · exact Except.ok.inj hcopy
    · simp at hcopy
  rw [← heq] at hcanonical
  rw [migrate_eq, hroot]
  simp only [raiseIf, Bool.false_eq_true, if_false, ok_bind, hshape, hcanonical,
    validate_of_validateOn hvalid]
  exact h

/-- A document that `migrate` lets through has its routable tags. -/
theorem routableTags_of_migrate {result : Json} (h : migrateOn S U model = .ok result) :
    routableTagsOn S U model = .ok (outboundTags ((outboundsOf result).filter isRoutable) ++
      groupNames (policyGroups result)) := by
  obtain ⟨fields, route₀, -, -, -, -, -, outbounds, groups, m, route, -, rfl, hvalid⟩ :=
    migrate_cases (migrate_of_migrateOn h)
  have henv := @assembled_enveloped outbounds groups m fields route
  obtain ⟨direct, tags, parts, hv⟩ := validate_cases henv hvalid
  have htest : ∀ o ∈ outboundsOf (assembled fields outbounds groups m route),
      (if isDict o then (o.getD "type" .null).within (ε := ModelError) routableOutboundTypes
        else .ok false) = .ok (isRoutable o) := by
    intro o ho
    rw [outboundsOf_eq henv] at ho
    obtain ⟨name, -, hname⟩ := exists_of_forall₂ hv.named ho
    rw [if_pos hname.dict, within_of_hashable hname.hashable, isRoutable]
  rw [routableTagsOn, h, ok_bind, filterM_eq_ok htest]
  rfl

theorem passes_checked_iff {α : Type} {label : String} {x : Py ModelError α} :
    Passes (checked H label x) ↔ Passes x := by
  refine exists_congr fun a => ?_
  cases x with
  | ok b => simp [checked]
  | error e =>
      cases e with
      | error e => simp [checked]
      | fault f =>
          unfold checked
          dsimp only
          split <;> simp

theorem clean_rulesetsFitOn_iff {doc : Json} {ruleMeta : Dict String Json} :
    Clean (rulesetsFitOn S H doc ruleMeta) ↔
      (Passes (rulesetNames H.unicode ruleMeta.keys) → MigrateFits S H.unicode doc) ∧
      (Passes (validateRulesetNamespaceOn S H.unicode doc ruleMeta.keys) →
        ∀ entry ∈ ruleMeta, TargetTyped entry.2) := by
  have hnames : Clean (rulesetNames H.unicode ruleMeta.keys) :=
    (OnlyFaults.mapM fun _ _ => clean_normalizeName).bind fun _ _ =>
      clean_raiseIf.bind fun _ _ => onlyFaults_ok
  have hspace : OnlyFaults Caught (validateRulesetNamespaceOn S H.unicode doc ruleMeta.keys) ↔
      (Passes (rulesetNames H.unicode ruleMeta.keys) → MigrateFits S H.unicode doc) := by
    unfold validateRulesetNamespaceOn
    rw [(Clean.only hnames).bind_iff, ← forall_ok_iff]
    refine forall_congr' fun canonical => imp_congr_right fun _ => ?_
    rw [onlyFaults_bind_iff_left fun _ => clean_raiseIf.only, caught_migrateOn_iff]
  have htargets : ∀ routable : List String,
      Clean (ruleMeta.filterM (fun entry => badRulesetTarget routable entry.2)) ↔
        ∀ entry ∈ ruleMeta, TargetTyped entry.2 := by
    intro routable
    rw [clean_filterM_iff fun _ _ => badRulesetTarget_ne_raise]
    exact forall₂_congr fun entry _ => clean_badRulesetTarget_iff
  unfold rulesetsFitOn
  rw [clean_bind_iff, clean_checked_iff, hspace, forall_ok_iff, passes_checked_iff]
  refine and_congr_right fun _ => imp_congr_right fun hpass => ?_
  obtain ⟨result, hresult⟩ : ∃ result, migrateOn S H.unicode doc = .ok result := by
    obtain ⟨u, hu⟩ := hpass
    obtain ⟨canonical, -, hu⟩ := bind_eq_ok.mp hu
    obtain ⟨result, hresult, -⟩ := bind_eq_ok.mp hu
    exact ⟨result, hresult⟩
  rw [routableTags_of_migrate hresult, unchecked, ok_bind, clean_bind_iff_left fun _ => clean_raiseIf]
  exact htargets _

/-- The validator answers for the candidates that are well-typed, and for no others. -/
theorem clean_vJsonModelBytes_iff {R : Reader} {bytes : Bytes} {targets : Dict Name Target}
    {files : Path → Pdgtx.Node} :
    Clean (vJsonModelBytes S H R bytes targets files) ↔ CandidateTyped S H R bytes targets files := by
  have hrefused : ∀ {α : Type} (answer : Except String α), Clean (refused answer) := by
    intro α answer
    cases answer <;> simp [refused]
  have hmeta : ∀ doc pdg, Clean (metaFitsOn S H (candidateRulesetMeta R targets files)
      ⟨doc, bytes.length⟩ pdg) ↔
        MetaTyped S H (candidateRulesetMeta R targets files) ⟨doc, bytes.length⟩ pdg := by
    intro doc pdg
    unfold metaFitsOn MetaTyped
    rw [clean_metaShape.bind_iff]
    refine forall_congr' fun m => imp_congr_right fun _ => ?_
    rw [clean_bind_iff, clean_metaParts_iff, forall_ok_iff]
    refine and_congr_right fun _ => imp_congr_right fun _ => ?_
    rw [clean_bind_iff, clean_checked_iff, caught_validateOn_iff, forall_ok_iff, passes_checked_iff]
    refine and_congr_right fun _ => imp_congr_right fun _ => ?_
    rw [(hrefused _).bind_iff]
    refine forall_congr' fun ruleMeta => ?_
    rw [refused_eq_ok, clean_rulesetsFitOn_iff]
  unfold vJsonModelBytes CandidateTyped
  rw [clean_raiseIf.bind_iff]
  simp only [raiseIf_eq_ok, forall_const, decide_eq_false_iff_not]
  refine imp_congr_right fun _ => ?_
  rw [(hrefused _).bind_iff]
  refine forall_congr' fun doc => ?_
  have hloads : (R.loads bytes).mapError ("不是合法 JSON: " ++ ·) = .ok doc ↔ R.loads bytes = .ok doc := by
    cases R.loads bytes <;> simp [Except.mapError]
  rw [refused_eq_ok, hloads]
  refine imp_congr_right fun _ => ?_
  rw [clean_raiseIf.bind_iff]
  simp only [raiseIf_eq_ok, forall_const, Bool.or_eq_false_iff, Bool.not_eq_false',
    Option.isNone_eq_false_iff, and_imp]
  refine imp_congr_right fun _ => imp_congr_right fun _ => imp_congr_right fun _ => ?_
  rw [clean_bind_iff, clean_items_iff]
  refine and_congr_right fun hcontainer => ?_
  have hmetas : Clean ((doc.getD "outbounds" .null).entries.forM proxyMetaSafe) ↔
      Each proxyMetaSafe ProxyMetaTyped (doc.getD "outbounds" .null).entries :=
    onlyFaults_forM_iff fun _ _ => clean_proxyMetaSafe_iff
  rw [items_of_container hcontainer]
  simp only [Except.ok.injEq, forall_eq']
  rw [clean_bind_iff, hmetas, forall_ok_iff]
  refine and_congr_right fun _ => imp_congr_right fun _ => ?_
  split
  · rename_i hnull
    exact iff_of_true onlyFaults_ok fun hno => absurd hnull hno
  · rename_i hmetadata
    rw [hmeta]
    exact ⟨fun h _ => h, fun h => h hmetadata⟩

end ProxyGateway.Schema
