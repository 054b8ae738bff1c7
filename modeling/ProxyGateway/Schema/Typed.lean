import ProxyGateway.Schema.Legacy
import ProxyGateway.Schema.Limits

set_option autoImplicit false

/-!
# ProxyGateway.Schema.Typed

Where `migrate` and `validate` apply an operator to an operand of the wrong type, or search
deeper than the interpreter allows. What is looked up in a set must be hashable, what a loop
goes over must be a container (`PartsTyped`, `ValidateTyped`); each condition asks only for
what is read, behind the checks that come first in the source.
-/

namespace ProxyGateway.Schema

open Py Json

variable {U : Unicode} {S : Stack} {model value outbound group raw mihomo : Json} {label direct : String}
  {outbounds groups raws : List Json} {isV2 : Bool}

/-! ### Calls that are always clean -/

@[simp] theorem clean_raiseIf {ε : Type} {bad : Bool} {e : ε} : Clean (raiseIf bad e) := by
  cases bad <;> simp [raiseIf]

theorem clean_normalizeName : Clean (normalizeName U value label) := by
  cases value with
  | str s => exact clean_raiseIf.bind fun _ _ => clean_raiseIf.bind fun _ _ => onlyFaults_ok
  | _ => exact onlyFaults_raise

theorem clean_validateName : Clean (validateName U value label) :=
  clean_normalizeName.bind fun _ _ => clean_raiseIf.bind fun _ _ => onlyFaults_ok

theorem clean_tag : Clean (tag value label) := by
  cases value with
  | str s =>
      show Clean (if tagRe s = true then _ else _)
      split
      · exact onlyFaults_ok
      · exact onlyFaults_raise
  | _ => exact onlyFaults_raise

theorem clean_directTag (ho : model.getD "outbounds" (.arr []) = .arr outbounds) :
    Clean (directTag model) := by
  unfold directTag
  rw [ho, items_arr, ok_bind]
  split
  · exact clean_tag
  · exact onlyFaults_raise

theorem clean_reference : Clean (reference U label value) := by
  cases value with
  | str s => exact clean_normalizeName.bind fun _ _ => onlyFaults_ok
  | _ => exact onlyFaults_raise

theorem clean_referField {key : String} {fields : Dict String Json} :
    Clean (referField U key label fields) := by
  unfold referField
  split
  · exact clean_reference.bind fun _ _ => onlyFaults_ok
  · exact onlyFaults_ok

theorem clean_nameProviders {providers : Dict String Json} :
    Clean (nameProviders U label providers) :=
  OnlyFaults.foldlM fun _ _ _ => clean_normalizeName.bind fun _ _ =>
    clean_raiseIf.bind fun _ _ => onlyFaults_ok

theorem clean_nameGroup : Clean (nameGroup U group) := by
  cases group with
  | obj fields => exact clean_normalizeName.bind fun _ _ => onlyFaults_ok
  | _ => exact onlyFaults_ok

theorem clean_referOutbound : Clean (referOutbound U outbound) := by
  cases outbound with
  | obj fields =>
      refine clean_referField.bind fun fields _ => ?_
      split
      · exact (OnlyFaults.mapM fun _ _ => clean_reference).bind fun _ _ => onlyFaults_ok
      · exact onlyFaults_ok
  | _ => exact onlyFaults_ok

theorem clean_referRule {rule : Json} : Clean (referRule U rule) := by
  cases rule with
  | obj fields => exact clean_referField.bind fun _ _ => clean_referField.bind fun _ _ => onlyFaults_ok
  | _ => exact onlyFaults_ok

theorem clean_referRuleSet {ruleSet : Json} : Clean (referRuleSet U ruleSet) := by
  cases ruleSet with
  | obj fields => exact clean_referField.bind fun _ _ => onlyFaults_ok
  | _ => exact onlyFaults_ok

theorem clean_mirrorGroups {groups : GroupDict} : Clean (mirrorGroups U direct groups raw) := by
  cases raw with
  | obj fields => exact clean_validateName.bind fun _ _ => clean_raiseIf.bind fun _ _ => onlyFaults_ok
  | _ => exact onlyFaults_raise

theorem clean_mihomoField {key : String} : Clean (mihomoField mihomo key) := by
  unfold mihomoField
  split
  · exact onlyFaults_ok
  · exact onlyFaults_raise

theorem clean_validateDeclaredSchemaShape : Clean (validateDeclaredSchemaShape model) := by
  unfold validateDeclaredSchemaShape
  split
  · split
    · exact onlyFaults_ok
    · exact clean_raiseIf.bind fun _ _ => clean_raiseIf
  · exact onlyFaults_ok

/-! ### Legacy groups -/

/-- `_duration_seconds` can read the value: not too many digits. -/
def readable (U : Unicode) : Json → Bool
  | .str s =>
      let digits := s.toList.takeWhile (fun c => (U.decimal c).isSome)
      (durationUnit (s.toList.drop digits.length)).isNone || decide (digits.length ≤ 4300)
  | _ => true

/-- What is read of an outbound: its type and, behind the name of a legacy group, its
interval and its members. -/
structure OutboundTyped (U : Unicode) (outbound : Json) : Prop where
  type : (outbound.getD "type" .null).hashable = true
  interval : hasType "urltest" outbound = true →
    Passes (validateName U (outbound.getD "tag" .null) "group name") →
      readable U (outbound.getD "interval" (.str "180s")) = true
  members : isGroupOutbound outbound = true →
    Passes (validateName U (outbound.getD "tag" .null) "group name") →
      (outbound.getD "outbounds" (.arr [])).isContainer = true

/-- What is read of a group for `representable`. -/
def MembersTyped (raw : Json) : Prop :=
  (raw.getD "use" .null).truthy = false → (raw.getD "proxies" (.arr [])).isContainer = true

/-- What is read of a group of the metadata that no outbound holds. -/
structure MirrorTyped (raw : Json) : Prop where
  type : (raw.getD "type" .null).hashable = true
  members : (raw.getD "type" .null).str?.any (· ∈ ["select", "url-test"]) = true → MembersTyped raw

/-- What `_legacy_groups` reads. -/
structure LegacyTyped (U : Unicode) (direct : String) (outbounds : List Json) (mihomo : Json)
    (isV2 : Bool) : Prop where
  own : EachTurn (canonicalGroups U direct) (fun _ o => OutboundTyped U o) [] outbounds
  mirrors : ∀ (canonical mirrors : GroupDict) (raws : List Json),
    outbounds.foldlM (canonicalGroups U direct) [] = .ok canonical →
    mihomo.getD "proxy-groups" (.arr []) = .arr raws →
    raws.foldlM (mirrorGroups U direct) [] = .ok mirrors →
      EachTurn (reconcileGroup isV2)
        (fun groups entry => ∀ fields, groups.get? entry.1 = some fields → MembersTyped (.obj fields))
        mirrors canonical ∧
      ∀ groups : GroupDict, canonical.foldlM (reconcileGroup isV2) mirrors = .ok groups →
        Each (checkMirrored canonical)
          (fun entry => Dict.contains canonical entry.1 = false → MirrorTyped (.obj entry.2)) groups

theorem durationSeconds_cases :
    if readable U value = true then ∃ n, durationSeconds U value = .ok n
    else durationSeconds U value = Py.fault .value := by
  cases value with
  | str s =>
      rw [durationSeconds, readable]
      generalize s.toList.takeWhile (fun c => (U.decimal c).isSome) = digits
      cases durationUnit (s.toList.drop digits.length) with
      | none => simp
      | some factor =>
          by_cases hempty : digits.isEmpty = true
          · simp [List.isEmpty_iff.mp hempty]
          by_cases hlong : digits.length > 4300
          · simp [hempty, hlong]
          · simp [hempty, hlong, Nat.not_lt.mp hlong]
  | _ => simp [durationSeconds, readable]

theorem clean_canonicalGroup_iff :
    Clean (canonicalGroup U outbound direct) ↔
      (Passes (validateName U (outbound.getD "tag" .null) "group name") →
        (hasType "urltest" outbound = true →
          readable U (outbound.getD "interval" (.str "180s")) = true) ∧
        (outbound.getD "outbounds" (.arr [])).isContainer = true) := by
  unfold canonicalGroup
  rw [clean_validateName.bind_iff, Passes, forall_exists_index]
  refine forall_congr' fun name => imp_congr_right fun _ => ?_
  cases hasType "urltest" outbound with
  | false => simp
  | true =>
      have hduration :=
        @durationSeconds_cases U (outbound.getD "interval" (.str "180s"))
      cases hread : readable U (outbound.getD "interval" (.str "180s")) with
      | true =>
          -- no interval raises a `ModelError`, so that the members are read behind it
          obtain ⟨n, hn⟩ := (if_pos hread).mp hduration
          simp [hn]
      | false =>
          rw [hread, if_neg (by simp)] at hduration
          simp [hduration]

theorem hasType_group (h : hasType "urltest" outbound = true) : isGroupOutbound outbound = true := by
  have htype : outbound.get? "type" = some (.str "urltest") := by simpa [hasType] using h
  simp [isGroupOutbound, getD_of_get? htype, Json.str?, groupOutboundTypes]

theorem clean_groupTest_iff {ε : Type} {item : Json} :
    Clean (if isDict item then (item.getD "type" .null).within (ε := ε) groupOutboundTypes
      else .ok false) ↔ (item.getD "type" .null).hashable = true := by
  by_cases hd : isDict item = true
  · simp [hd]
  · have hnone : item.getD "type" .null = .null := getD_of_not_dict (by simpa using hd)
    simp [hd, hnone, Json.hashable]

theorem groupTest_of_hashable {ε : Type} {item : Json}
    (h : (item.getD "type" .null).hashable = true) :
    (if isDict item then (item.getD "type" .null).within (ε := ε) groupOutboundTypes
      else .ok false) = .ok (isGroupOutbound item) := by
  by_cases hd : isDict item = true
  · rw [if_pos hd, within_of_hashable h, isGroupOutbound]
  · have hnone : item.getD "type" .null = .null := getD_of_not_dict (by simpa using hd)
    rw [if_neg hd, isGroupOutbound, hnone]
    rfl

theorem clean_canonicalGroups_iff {groups : GroupDict} :
    Clean (canonicalGroups U direct groups outbound) ↔ OutboundTyped U outbound := by
  rw [canonicalGroups_eq, clean_bind_iff, clean_groupTest_iff]
  constructor
  · intro h
    obtain ⟨htype, h⟩ := h
    have hgroup : isGroupOutbound outbound = true → Clean (canonicalGroup U outbound direct) := by
      intro hg
      have hrest := h true (by rw [groupTest_of_hashable htype, hg])
      exact (clean_bind_iff.mp hrest).1
    exact {
      type := htype
      interval := fun ht hname =>
        (clean_canonicalGroup_iff.mp (hgroup (hasType_group ht)) hname).1 ht
      members := fun hg hname => (clean_canonicalGroup_iff.mp (hgroup hg) hname).2 }
  · intro h
    refine ⟨h.type, fun isGroup htest => ?_⟩
    obtain ⟨rfl, -⟩ := groupTest_eq_ok htest
    cases hg : isGroupOutbound outbound with
    | false => exact onlyFaults_ok
    | true =>
        refine (clean_canonicalGroup_iff.mpr fun hname => ?_).bind fun _ _ =>
          clean_raiseIf.bind fun _ _ => onlyFaults_ok
        exact ⟨fun ht => h.interval ht hname, h.members hg hname⟩

theorem clean_representable_iff : Clean (representable raw) ↔ MembersTyped raw := by
  unfold representable MembersTyped
  cases (raw.getD "use" .null).truthy with
  | true => simp
  | false => simp

theorem clean_reconcileGroup_iff {groups : GroupDict} {entry : String × Dict String Json} :
    Clean (reconcileGroup isV2 groups entry) ↔
      ∀ fields, groups.get? entry.1 = some fields → MembersTyped (.obj fields) := by
  obtain ⟨name, own⟩ := entry
  unfold reconcileGroup
  dsimp only
  cases hget : groups.get? name with
  | none =>
      simp only [reduceCtorEq, false_imp_iff, implies_true, iff_true]
      exact clean_raiseIf.bind fun _ _ => onlyFaults_ok
  | some fields => simp [clean_bind_iff, clean_representable_iff]

theorem checkMirrored_eq (canonical : GroupDict) (entry : String × Dict String Json) :
    checkMirrored canonical entry =
      if Dict.contains canonical entry.1 then .ok () else
        ((Json.obj entry.2).getD "type" .null).within ["select", "url-test"] >>= fun isEditable =>
          if !isEditable then .ok () else representable (.obj entry.2) >>= fun bad =>
            raiseIf bad (.text ("legacy editable policy group is missing its mirror: " ++ entry.1)) :=
  rfl

theorem clean_checkMirrored_iff {canonical : GroupDict} {entry : String × Dict String Json} :
    Clean (checkMirrored canonical entry) ↔
      (Dict.contains canonical entry.1 = false → MirrorTyped (.obj entry.2)) := by
  rw [checkMirrored_eq]
  cases Dict.contains canonical entry.1 with
  | true => simp
  | false =>
      simp only [Bool.false_eq_true, if_false, true_imp_iff]
      rw [clean_bind_iff, clean_within_iff]
      constructor
      · intro h
        obtain ⟨htype, h⟩ := h
        refine ⟨htype, fun hedit => ?_⟩
        have hrest := h true (by rw [within_of_hashable htype, hedit])
        exact clean_representable_iff.mp (clean_bind_iff.mp hrest).1
      · intro h
        refine ⟨h.type, fun isEditable hedit => ?_⟩
        cases isEditable with
        | false => exact onlyFaults_ok
        | true =>
            refine (clean_representable_iff.mpr (h.members ?_)).bind fun _ _ => clean_raiseIf
            exact (within_str hedit).symm

theorem clean_legacyGroups_iff (hd : directTag model = .ok direct) :
    Clean (legacyGroups U model outbounds mihomo isV2) ↔
      LegacyTyped U direct outbounds mihomo isV2 := by
  have hown : Clean (outbounds.foldlM (canonicalGroups U direct) []) ↔
      EachTurn (canonicalGroups U direct) (fun _ o => OutboundTyped U o) [] outbounds :=
    onlyFaults_foldlM_iff fun _ _ _ => clean_canonicalGroups_iff
  have hmirrors : ∀ raws : List Json, Clean (raws.foldlM (mirrorGroups U direct) []) := fun raws =>
    OnlyFaults.foldlM fun _ _ _ => clean_mirrorGroups
  unfold legacyGroups
  rw [hd, ok_bind, clean_bind_iff, hown]
  constructor
  · intro h
    refine ⟨h.1, fun canonical mirrors raws hcanonical hraws hmir => ?_⟩
    have hrest := h.2 canonical hcanonical
    simp only [hraws] at hrest
    obtain ⟨hturns, hrest⟩ := clean_bind_iff.mp ((hmirrors raws).bind_iff.mp hrest mirrors hmir)
    refine ⟨(onlyFaults_foldlM_iff fun _ _ _ => clean_reconcileGroup_iff).mp hturns, fun groups hgroups => ?_⟩
    exact (onlyFaults_forM_iff fun _ _ => clean_checkMirrored_iff).mp (clean_bind_iff.mp (hrest groups hgroups)).1
  · intro h
    refine ⟨h.own, fun canonical hcanonical => ?_⟩
    split
    · rename_i raws hraws
      refine (hmirrors raws).bind fun mirrors hmir => ?_
      obtain ⟨hturns, hrest⟩ := h.mirrors canonical mirrors raws hcanonical hraws hmir
      refine ((onlyFaults_foldlM_iff fun _ _ _ => clean_reconcileGroup_iff).mpr hturns).bind fun groups hgroups => ?_
      exact ((onlyFaults_forM_iff fun _ _ => clean_checkMirrored_iff).mpr (hrest groups hgroups)).bind
        fun _ _ => onlyFaults_ok
    · exact onlyFaults_raise

/-! ### Outbounds and groups of any schema -/

/-- `_pdg`, empty where it is missing. -/
def pdgOf (model : Json) : Json := orEmpty (model.getD "_pdg" .null)

/-- The Mihomo metadata, empty where it is missing. -/
def mihomoOf (model : Json) : Json := orEmpty ((pdgOf model).getD "mihomo" .null)

/-- What is read of outbounds and groups: in schema 3 the types of the outbounds up to the
first legacy group. -/
def GroupsTyped (U : Unicode) (pdg mihomo : Json) (direct : String) (outbounds : List Json)
    (schema : Int) : Prop :=
  if schema = 3 then
    ∀ o ∈ outbounds.takeWhile (fun o => !isGroupOutbound o), (o.getD "type" .null).hashable = true
  else
    extraKeys (pdg.fields?.getD []) ["schema", "mihomo"] = false →
      LegacyTyped U direct outbounds mihomo (schema = 2)

/-- The test of the loops over the outbounds. -/
abbrev groupTest (item : Json) : Py ModelError Bool :=
  if isDict item then (item.getD "type" .null).within groupOutboundTypes else .ok false

theorem clean_anyGroup_iff : Clean (outbounds.anyM groupTest) ↔
    ∀ o ∈ outbounds.takeWhile (fun o => !isGroupOutbound o),
      (o.getD "type" .null).hashable = true := by
  induction outbounds with
  | nil => simp
  | cons o outbounds ih =>
      rw [List.anyM, clean_bind_iff, clean_groupTest_iff]
      by_cases hhash : (o.getD "type" .null).hashable = true
      · have htest : groupTest o = .ok (isGroupOutbound o) := groupTest_of_hashable hhash
        cases hg : isGroupOutbound o with
        | true => simp [htest, hg, hhash]
        | false => simp [htest, hg, hhash, ih]
      · -- a type that no set can hold is no type of a group
        have hg : isGroupOutbound o = false := by
          unfold isGroupOutbound
          cases htype : o.getD "type" .null with
          | str s => simp [htype, Json.hashable] at hhash
          | _ => rfl
        simp [hhash, hg]

theorem anyGroup_false (h : outbounds.anyM groupTest = .ok false) :
    ∀ o ∈ outbounds, (o.getD "type" .null).hashable = true := by
  induction outbounds with
  | nil => simp
  | cons o outbounds ih =>
      rw [List.anyM] at h
      obtain ⟨isGroup, htest, h⟩ := bind_eq_ok.mp h
      obtain ⟨-, hhash⟩ := groupTest_eq_ok htest
      cases isGroup with
      | true => simp at h
      | false => exact List.forall_mem_cons.mpr ⟨hhash, ih h⟩

theorem legacyGroups_hashable (h : legacyGroups U model outbounds mihomo isV2 = .ok groups) :
    ∀ o ∈ outbounds, (o.getD "type" .null).hashable = true := by
  obtain ⟨direct, -, h⟩ := bind_eq_ok.mp h
  obtain ⟨canonical, hcanonical, -⟩ := bind_eq_ok.mp h
  exact (canonicalGroups_cases hcanonical).1

/-- The outbounds that are no groups are left. -/
theorem kept_outbounds {kept : List Json} (hhash : ∀ o ∈ outbounds, (o.getD "type" .null).hashable = true)
    (h : outbounds.filterM (fun item => do return !(← groupTest item)) = .ok kept) :
    kept = outbounds.filter (fun o => !isGroupOutbound o) := by
  have hfilter : outbounds.filterM (fun item => do return !(← groupTest item)) =
      .ok (outbounds.filter fun o => !isGroupOutbound o) := by
    refine filterM_eq_ok fun o ho => ?_
    have htest : groupTest o = .ok (isGroupOutbound o) := groupTest_of_hashable (hhash o ho)
    simp [htest]
  rw [hfilter] at h
  exact (Except.ok.inj h).symm

/-- What is left of the outbounds has types that a set can hold. -/
theorem groupsOf_hashable {pdg : Json} {schema : Int} {rest : List Json}
    (h : groupsOf U model pdg mihomo outbounds schema = .ok (rest, groups)) :
    ∀ o ∈ rest, (o.getD "type" .null).hashable = true := by
  unfold groupsOf at h
  by_cases hthree : schema = 3
  · simp only [hthree, if_true] at h
    obtain ⟨isGroup, hany, h⟩ := bind_eq_ok.mp h
    obtain ⟨hfalse, h⟩ := raiseIf_bind_eq_ok.mp h
    obtain ⟨items, -, h⟩ := bind_eq_ok.mp h
    cases pure_eq_ok.mp h
    rw [hfalse] at hany
    exact anyGroup_false hany
  · simp only [hthree, if_false] at h
    obtain ⟨-, h⟩ := raiseIf_bind_eq_ok.mp h
    obtain ⟨gs, hlegacy, h⟩ := bind_eq_ok.mp h
    obtain ⟨kept, hkept, h⟩ := bind_eq_ok.mp h
    cases pure_eq_ok.mp h
    have hhash := legacyGroups_hashable hlegacy
    rw [kept_outbounds hhash hkept]
    exact fun o ho => hhash o (List.mem_of_mem_filter ho)

theorem clean_groupsOf_iff {pdg : Json} {schema : Int} (hd : directTag model = .ok direct)
    (hlist : schema = 3 → (pdg.getD "policy-groups" .null).isContainer = true) :
    Clean (groupsOf U model pdg mihomo outbounds schema) ↔
      GroupsTyped U pdg mihomo direct outbounds schema := by
  unfold groupsOf GroupsTyped
  by_cases hthree : schema = 3
  · simp only [hthree, if_true]
    rw [← clean_anyGroup_iff, clean_bind_iff]
    refine and_iff_left fun _ _ => clean_raiseIf.bind fun _ _ => ?_
    exact (clean_items_iff.mpr (hlist hthree)).bind fun _ _ => onlyFaults_ok
  · simp only [hthree, if_false]
    rw [clean_raiseIf.bind_iff]
    simp only [raiseIf_eq_ok, forall_const]
    refine imp_congr_right fun _ => ?_
    rw [clean_bind_iff, clean_legacyGroups_iff hd]
    refine and_iff_left fun groups hgroups => ?_
    refine OnlyFaults.bind (OnlyFaults.filterM fun o ho => ?_) fun _ _ => onlyFaults_ok
    have hhash := legacyGroups_hashable hgroups o ho
    exact (clean_groupTest_iff.mpr hhash).bind fun _ _ => onlyFaults_ok

/-! ### Names and references -/

/-- `value or []` can be looped over. -/
def loopable (value : Json) : Bool := !value.truthy || value.isContainer

/-- The references to the members of a group. -/
def memberNames (U : Unicode) (group : Json) : Py ModelError (List Json) := do
  (← membersOf group "proxies").mapM (fun item =>
    if item = .str "REJECT" then .ok item else reference U "group member" item)

/-- What is read of a group: its members and, behind them, its providers. -/
structure GroupLoopable (U : Unicode) (group : Json) : Prop where
  proxies : loopable (group.getD "proxies" .null) = true
  uses : Passes (memberNames U group) → loopable (group.getD "use" .null) = true

/-- What is read of the route: its rules and, behind them, its rule sets. -/
structure RouteLoopable (U : Unicode) (route : Dict String Json) : Prop where
  rules : Passes (referField U "final" "route target" route) →
    loopable ((Dict.get? route "rules").getD .null) = true
  ruleSets : Passes (referField U "final" "route target" route >>= referList "rules" (referRule U)) →
    loopable ((Dict.get? route "rule_set").getD .null) = true

/-- What `_canonicalize_user_names` reads. -/
def NamesTyped (U : Unicode) (outbounds groups : List Json) (m : MihomoMeta)
    (route : Dict String Json) : Prop :=
  Passes (outbounds.mapM (nameOutbound U) >>= fun outs => outs.mapM (referOutbound U)) →
  Passes (nameProviders U "proxy provider name" m.proxyProviders) →
  Passes (nameProviders U "rule provider name" m.ruleProviders) →
  ∀ gs, groups.mapM (nameGroup U) = .ok gs →
    Each (referGroup U) (GroupLoopable U) gs ∧
      (Passes (gs.mapM (referGroup U)) → RouteLoopable U route)

theorem clean_membersOf_iff {key : String} :
    Clean (membersOf group key) ↔ loopable (group.getD key .null) = true := by
  unfold membersOf loopable
  cases htrue : (group.getD key .null).truthy with
  | true => simp [htrue]
  | false => simp [htrue]

theorem clean_referGroup_iff : Clean (referGroup U group) ↔ GroupLoopable U group := by
  cases group with
  | obj fields =>
      have hnames : Clean (memberNames U (.obj fields)) ↔
          loopable ((Json.obj fields).getD "proxies" .null) = true := by
        rw [← clean_membersOf_iff, memberNames, clean_bind_iff]
        refine and_iff_left fun members _ => OnlyFaults.mapM fun item _ => ?_
        split
        · exact onlyFaults_ok
        · exact clean_reference
      have heq : referGroup U (.obj fields) = memberNames U (.obj fields) >>= fun proxies =>
          membersOf (.obj fields) "use" >>= fun members =>
            members.mapM (reference U "proxy provider name") >>= fun uses =>
              pure (.obj (Dict.set (Dict.set fields "proxies" (.arr proxies)) "use" (.arr uses))) := by
        simp only [referGroup, memberNames, bind_assoc]
      have huses : ∀ proxies : List Json, Clean (membersOf (.obj fields) "use" >>= fun members =>
          members.mapM (reference U "proxy provider name") >>= fun uses =>
            (pure (.obj (Dict.set (Dict.set fields "proxies" (.arr proxies)) "use" (.arr uses))) :
              Py ModelError Json)) ↔
          loopable ((Json.obj fields).getD "use" .null) = true := by
        intro proxies
        rw [← clean_membersOf_iff]
        exact clean_bind_iff_left fun members =>
          (OnlyFaults.mapM fun _ _ => clean_reference).bind fun _ _ => onlyFaults_ok
      rw [heq, clean_bind_iff, hnames]
      simp only [huses, forall_ok_iff]
      exact ⟨fun h => ⟨h.1, h.2⟩, fun h => ⟨h.proxies, h.uses⟩⟩
  | _ => exact iff_of_true onlyFaults_ok ⟨rfl, fun _ => rfl⟩

/-- A field of another type is visited and left as it is. -/
theorem referList_other {key : String} {f : Json → Py ModelError Json} {fields : Dict String Json}
    (h : isList ((Dict.get? fields key).getD .null) = false) :
    referList key f fields =
      if ((Dict.get? fields key).getD .null).truthy then
        ((Dict.get? fields key).getD .null).items >>= fun _ => .ok fields
      else .ok fields := by
  unfold referList
  generalize (Dict.get? fields key).getD .null = value at *
  cases value with
  | arr items => simp [isList] at h
  | _ =>
      dsimp only
      split
      · cases Json.items (ε := ModelError) _ <;> rfl
      · rfl

theorem clean_referList_iff {key : String} {f : Json → Py ModelError Json}
    {fields : Dict String Json} (hf : ∀ item, Clean (f item)) :
    Clean (referList key f fields) ↔ loopable ((Dict.get? fields key).getD .null) = true := by
  cases hlist : isList ((Dict.get? fields key).getD .null) with
  | false =>
      rw [referList_other hlist, loopable]
      cases ((Dict.get? fields key).getD .null).truthy with
      | true => simp [clean_bind_iff_left]
      | false => simp
  | true =>
      unfold referList
      generalize (Dict.get? fields key).getD .null = value at *
      cases value with
      | arr items =>
          exact iff_of_true ((OnlyFaults.mapM fun item _ => hf item).bind fun _ _ => onlyFaults_ok)
            (by simp [loopable, isContainer])
      | _ => simp [isList] at hlist

theorem get?_referField {key key' : String} {fields fields' : Dict String Json}
    (h : referField U key label fields = .ok fields') (hne : key ≠ key') :
    Dict.get? fields' key' = Dict.get? fields key' := by
  unfold referField at h
  split at h
  · obtain ⟨name, -, h⟩ := bind_eq_ok.mp h
    rw [← pure_eq_ok.mp h, Dict.get?_set_ne hne]
  · cases h
    rfl

theorem get?_referList {key key' : String} {f : Json → Py ModelError Json}
    {fields fields' : Dict String Json} (h : referList key f fields = .ok fields')
    (hne : key ≠ key') : Dict.get? fields' key' = Dict.get? fields key' := by
  cases hlist : isList ((Dict.get? fields key).getD .null) with
  | false =>
      rw [referList_other hlist] at h
      split at h
      · obtain ⟨-, -, h⟩ := bind_eq_ok.mp h
        cases h
        rfl
      · cases h
        rfl
  | true =>
      unfold referList at h
      generalize (Dict.get? fields key).getD .null = value at *
      cases value with
      | arr items =>
          obtain ⟨items, -, h⟩ := bind_eq_ok.mp h
          rw [← pure_eq_ok.mp h, Dict.get?_set_ne hne]
      | _ => simp [isList] at hlist

theorem clean_referRoute_iff {route : Dict String Json} :
    Clean (referRoute U route) ↔ RouteLoopable U route := by
  unfold referRoute
  rw [clean_referField.bind_iff]
  constructor
  · intro h
    have hrules : ∀ final, referField U "final" "route target" route = .ok final →
        loopable ((Dict.get? route "rules").getD .null) = true := by
      intro final hfinal
      rw [← get?_referField hfinal (by simp)]
      exact (clean_referList_iff fun _ => clean_referRule).mp (clean_bind_iff.mp (h final hfinal)).1
    refine ⟨fun hpass => hpass.elim hrules, fun hpass => ?_⟩
    obtain ⟨ruled, hpass⟩ := hpass
    obtain ⟨final, hfinal, hruled⟩ := bind_eq_ok.mp hpass
    rw [← get?_referField hfinal (by simp), ← get?_referList hruled (by simp)]
    exact (clean_referList_iff fun _ => clean_referRuleSet).mp
      ((clean_bind_iff.mp (h final hfinal)).2 ruled hruled)
  · intro h final hfinal
    have hrules := h.rules ⟨final, hfinal⟩
    rw [← get?_referField hfinal (by simp)] at hrules
    refine ((clean_referList_iff fun _ => clean_referRule).mpr hrules).bind fun ruled hruled => ?_
    have hsets := h.ruleSets ⟨ruled, bind_eq_ok.mpr ⟨final, hfinal, hruled⟩⟩
    rw [← get?_referField hfinal (by simp), ← get?_referList hruled (by simp)] at hsets
    exact (clean_referList_iff fun _ => clean_referRuleSet).mpr hsets

theorem clean_nameOutbound (h : (outbound.getD "type" .null).hashable = true) :
    Clean (nameOutbound U outbound) := by
  cases outbound with
  | obj fields => 
      refine (clean_within_iff.mpr h).bind fun isProxy _ => ?_
      cases isProxy with
      | true => exact clean_normalizeName.bind fun _ _ => onlyFaults_ok
      | false => exact onlyFaults_ok
  | _ => exact onlyFaults_ok

theorem clean_canonicalizeUserNames_iff {m : MihomoMeta} {route : Dict String Json}
    (ho : ∀ o ∈ outbounds, (o.getD "type" .null).hashable = true) :
    Clean (canonicalizeUserNames U outbounds groups m route) ↔
      NamesTyped U outbounds groups m route := by
  unfold canonicalizeUserNames NamesTyped
  have houts : Clean (outbounds.mapM (nameOutbound U)) :=
    OnlyFaults.mapM fun o h => clean_nameOutbound (ho o h)
  have hgs : Clean (groups.mapM (nameGroup U)) := OnlyFaults.mapM fun _ _ => clean_nameGroup
  have hrefer : ∀ outs : List Json, Clean (outs.mapM (referOutbound U)) :=
    fun outs => OnlyFaults.mapM fun _ _ => clean_referOutbound
  rw [houts.bind_iff]
  constructor
  · intro h hreferred hproxy hrule gs hgs'
    obtain ⟨referred, hreferred⟩ := hreferred
    obtain ⟨outs, houts', hreferred⟩ := bind_eq_ok.mp hreferred
    have h := hgs.bind_iff.mp (h outs houts') gs hgs'
    obtain ⟨proxy, hproxy⟩ := hproxy
    obtain ⟨rule, hrule⟩ := hrule
    have h := clean_nameProviders.bind_iff.mp (clean_nameProviders.bind_iff.mp h proxy hproxy) rule hrule
    obtain ⟨hgroups, hroute⟩ := clean_bind_iff.mp ((hrefer outs).bind_iff.mp h referred hreferred)
    refine ⟨(onlyFaults_mapM_iff fun _ _ => clean_referGroup_iff).mp hgroups, fun hpass => ?_⟩
    obtain ⟨named, hnamed⟩ := hpass
    exact clean_referRoute_iff.mp (clean_bind_iff.mp (hroute named hnamed)).1
  · intro h outs houts'
    refine hgs.bind fun gs hgs' => clean_nameProviders.bind fun proxy hproxy =>
      clean_nameProviders.bind fun rule hrule => (hrefer outs).bind fun referred hreferred => ?_
    obtain ⟨hgroups, hroute⟩ := h ⟨referred, bind_eq_ok.mpr ⟨outs, houts', hreferred⟩⟩
      ⟨proxy, hproxy⟩ ⟨rule, hrule⟩ gs hgs'
    refine ((onlyFaults_mapM_iff fun _ _ => clean_referGroup_iff).mpr hgroups).bind fun named hnamed => ?_
    exact (clean_referRoute_iff.mpr (hroute ⟨named, hnamed⟩)).bind fun _ _ => onlyFaults_ok

end ProxyGateway.Schema
