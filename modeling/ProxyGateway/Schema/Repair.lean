import ProxyGateway.Schema.Canonical
import ProxyGateway.Schema.FixedPoint

set_option autoImplicit false

/-!
# ProxyGateway.Schema.Repair

A document that declares schema 3 is only normalized: `migrate` returns its canonical form, and
a field of the wrong type is refused (`NotRepaired`). Most fields have their type checked in
what `migrate` returns, where they stand unchanged. The rest are `Loose`: the type and the detour
of an outbound, the member lists that the names are normalized in, the rule sets of the route. The
law is kept exactly where these have their types in every document that is let through, and where
no other operand is a fault (`notRepaired_iff`).
-/

namespace ProxyGateway.Schema

open Py Json

variable {S : Stack} {U : Unicode} {model result outbound group rule : Json}
  {outbounds groups : List Json} {route : Dict String Json}

/-! ### The types of the fields -/

/-- `isinstance(value, str)`. -/
def isText : Json → Bool
  | .str _ => true
  | _ => false

/-- `type(value) is int`. -/
def isInteger : Json → Bool
  | .int _ => true
  | _ => false

/-- A list of texts. -/
def isTexts : Json → Bool
  | .arr xs => xs.all isText
  | _ => false

structure OutboundFields (outbound : Json) : Prop where
  dict : isDict outbound = true
  type : (outbound.get? "type").all isText = true
  tag : (outbound.get? "tag").all isText = true
  detour : (outbound.get? "detour").all isText = true
  members : (outbound.get? "outbounds").all isTexts = true

structure GroupFields (group : Json) : Prop where
  dict : isDict group = true
  texts : ∀ key ∈ ["name", "type", "url", "strategy"], (group.get? key).all isText = true
  members : ∀ key ∈ ["proxies", "use"], (group.get? key).all isTexts = true
  bools : ∀ key ∈ ["lazy", "disable-udp", "hidden"], (group.get? key).all isBool = true
  integers : ∀ key ∈ ["interval", "tolerance"], (group.get? key).all isInteger = true

/-- A rule may hold a null target. -/
structure RuleFields (rule : Json) : Prop where
  dict : isDict rule = true
  target : (rule.get? "outbound").all (fun v => isText v || v = .null) = true
  ruleSet : (rule.get? "rule_set").all (fun v => isText v || isList v) = true

structure RuleSetFields (ruleSet : Json) : Prop where
  dict : isDict ruleSet = true
  tag : (ruleSet.get? "tag").all isText = true

structure RouteFields (route : Dict String Json) : Prop where
  final : (Dict.get? route "final").all isText = true
  rules : ∀ rules, Dict.get? route "rules" = some rules →
    ∃ xs, rules = .arr xs ∧ ∀ rule ∈ xs, RuleFields rule
  ruleSets : ∀ ruleSets, Dict.get? route "rule_set" = some ruleSets →
    ∃ xs, ruleSets = .arr xs ∧ ∀ ruleSet ∈ xs, RuleSetFields ruleSet

/-- Every field of a document that `migrate` or `validate` reads has its type. -/
structure FieldsTyped (model : Json) : Prop where
  outbounds : ∃ outbounds, model.get? "outbounds" = some (.arr outbounds) ∧
    ∀ outbound ∈ outbounds, OutboundFields outbound
  groups : ∃ groups, (model.getD "_pdg" .null).get? "policy-groups" = some (.arr groups) ∧
    ∀ group ∈ groups, GroupFields group
  mihomo : ∀ key ∈ v3MihomoFields,
    isDict (((model.getD "_pdg" .null).getD "mihomo" .null).getD key .null) = true
  route : ∃ route, model.get? "route" = some (.obj route) ∧ RouteFields route

/-! ### The fields that nothing checks -/

structure LooseOutbound (outbound : Json) : Prop where
  type : (outbound.get? "type").all isText = true
  detour : (outbound.get? "detour").all isText = true
  members : (outbound.get? "outbounds").all isList = true

structure LooseRoute (route : Dict String Json) : Prop where
  rules : ∀ xs, Dict.get? route "rules" = some (.arr xs) → ∀ rule ∈ xs,
    (rule.get? "rule_set").all (fun v => isText v || isList v) = true
  ruleSets : ∀ ruleSets, Dict.get? route "rule_set" = some ruleSets →
    ∃ xs, ruleSets = .arr xs ∧ ∀ ruleSet ∈ xs, RuleSetFields ruleSet

/-- These fields of a document have their types. -/
structure LooseTyped (model : Json) : Prop where
  outbounds : ∀ outbounds, model.get? "outbounds" = some (.arr outbounds) →
    ∀ outbound ∈ outbounds, LooseOutbound outbound
  groups : ∀ groups, (model.getD "_pdg" .null).get? "policy-groups" = some (.arr groups) →
    ∀ group ∈ groups, MembersListed group
  route : ∀ route, model.get? "route" = some (.obj route) → LooseRoute route

/-! ### The law -/

/-- The canonical form of a document with its parts: the normal names and references, and lists of
members in every group. -/
def CanonicalForm (U : Unicode) (model result : Json) : Prop :=
  ∃ fields outbounds groups m route,
    model = .obj fields ∧ Declares fields outbounds groups m route ∧
    result = assembled fields (outbounds.map (canonicalOutbound U))
      (groups.map (canonicalGroupOf U)) (canonicalMeta U m) (canonicalRoute U route)

/-- What `migrate` returns is the canonical form, and a field of the wrong type is refused. -/
structure NotRepaired (S : Stack) (U : Unicode) (model : Json) : Prop where
  canonical : ∀ result, migrateOn S U model = .ok result → CanonicalForm U model result
  refused : ¬ FieldsTyped model → ∃ e, migrateOn S U model = Py.raise e

/-! ### Types in the canonical form -/

theorem isText_canonicalRef {value : Json} : isText (canonicalRef U value) = isText value := by
  cases value <;> rfl

theorem isText_canonicalMember {value : Json} : isText (canonicalMember U value) = isText value := by
  unfold canonicalMember
  split
  · rfl
  · exact isText_canonicalRef

theorem isTexts_mapItems {g : Json → Json} {value : Json} (hg : ∀ v, isText (g v) = isText v) :
    isTexts (mapItems g value) = isTexts value := by
  cases value with
  | arr xs => simp [mapItems, isTexts, List.all_map, Function.comp_def, hg]
  | _ => rfl

theorem all_canonicalRef {value : Option Json} :
    (value.map (canonicalRef U)).all isText = value.all isText := by
  cases value with
  | none => rfl
  | some v => exact isText_canonicalRef

theorem all_mapItems {g : Json → Json} {value : Option Json} (hg : ∀ v, isText (g v) = isText v) :
    (value.map (mapItems g)).all isTexts = value.all isTexts := by
  cases value with
  | none => rfl
  | some v => exact isTexts_mapItems hg

/-- What a set lookup of texts finds is a text. -/
theorem isText_of_within {ε : Type} {value : Json} {names : List String}
    (h : value.within (ε := ε) names = .ok true) : isText value = true := by
  have hany := within_str h
  cases value <;> first | rfl | simp [Json.str?] at hany

/-! ### Outbounds -/

theorem references_texts {label : String} {xs ys : List Json}
    (h : xs.mapM (reference U label) = .ok ys) : ys.all isText = true := by
  have hpairs := mapM_forall₂ h
  clear h
  induction hpairs with
  | nil => rfl
  | cons hx _ ih =>
      obtain ⟨⟨s, rfl⟩, rfl⟩ := reference_canonical hx
      rw [List.all_cons, ih]
      rfl

theorem members_of_refer (h : referOutbound U outbound = .ok result) :
    (result.get? "outbounds").all (fun v => !isList v || isTexts v) = true := by
  cases outbound with
  | obj fields =>
      obtain ⟨mid, hmid, h⟩ := bind_eq_ok.mp h
      split at h
      · obtain ⟨new, hnew, h⟩ := bind_eq_ok.mp h
        rw [← pure_eq_ok.mp h, Json.get?, Dict.get?_set_self]
        exact references_texts hnew
      · rename_i hno
        rw [← pure_eq_ok.mp h, Json.get?]
        cases hget : Dict.get? mid "outbounds" with
        | none => rfl
        | some value =>
            cases value with
            | arr xs => exact absurd hget (hno xs)
            | _ => rfl
  | _ =>
      rw [← pure_eq_ok.mp h]
      rfl

/-- The fields that `validate` does not check have their types, and the others are checked where
they stand in the canonical form. -/
theorem outboundFields_of_canonical {name : String} (hloose : LooseOutbound outbound)
    (hmembers : ((canonicalOutbound U outbound).get? "outbounds").all
      (fun v => !isList v || isTexts v) = true)
    (hnamed : Named (canonicalOutbound U outbound) name) : OutboundFields outbound := by
  cases outbound with
  | obj fields =>
      have htag : (Dict.get? fields "tag").all isText = true := by
        have hget := hnamed.tag
        rw [canonicalOutbound, onFields, Json.get?, get?_canonicalItems_ne (by simp),
          get?_canonicalField_ne (by simp)] at hget
        split at hget
        · rw [← all_canonicalRef (U := U), ← get?_canonicalField, hget]
          rfl
        · rw [hget]
          rfl
      have hlist : (Dict.get? fields "outbounds").all isTexts = true := by
        have hproxy : Dict.get? (if isProxyOutbound (.obj fields) then canonicalField U "tag" fields
            else fields) "outbounds" = Dict.get? fields "outbounds" := by
          split
          · exact get?_canonicalField_ne (by simp)
          · rfl
        rw [canonicalOutbound, onFields, Json.get?, get?_canonicalItems,
          get?_canonicalField_ne (by simp), hproxy] at hmembers
        have hloose := hloose.members
        rw [Json.get?] at hloose
        cases hget : Dict.get? fields "outbounds" with
        | none => rfl
        | some value =>
            rw [hget] at hmembers hloose
            rw [Option.all_some] at hloose
            rw [Option.map_some, Option.all_some, isTexts_mapItems fun _ => isText_canonicalRef]
              at hmembers
            cases value with
            | arr xs => simpa [mapItems, isList] using hmembers
            | _ => simp [isList] at hloose
      exact ⟨rfl, hloose.type, htag, hloose.detour, hlist⟩
  | _ => exact absurd hnamed.dict (by simp [canonicalOutbound, onFields, isDict])

/-! ### Policy groups -/

/-- The types of the options of a group that is let through. -/
theorem validateGroup_options {part : GroupPart} (h : validateGroup U group = .ok part) :
    (∀ key ∈ ["lazy", "disable-udp", "hidden"], (group.get? key).all isBool = true) ∧
      (group.get? "url").all isText = true ∧ (group.get? "interval").all isInteger = true ∧
      (group.get? "tolerance").all isInteger = true ∧ (group.get? "strategy").all isText = true := by
  obtain ⟨hdict, h⟩ := raiseIf_bind_eq_ok.mp h
  obtain ⟨name, -, h⟩ := bind_eq_ok.mp h
  obtain ⟨isKnown, htype, h⟩ := bind_eq_ok.mp h
  obtain ⟨hknown, h⟩ := raiseIf_bind_eq_ok.mp h
  obtain ⟨-, h⟩ := raiseIf_bind_eq_ok.mp h
  obtain ⟨hbools, h⟩ := raiseIf_bind_eq_ok.mp h
  obtain ⟨hprobe, h⟩ := unit_bind_eq_ok.mp h
  obtain ⟨htolerance, h⟩ := raiseIf_bind_eq_ok.mp h
  obtain ⟨isStrategy, hstrategy, h⟩ := bind_eq_ok.mp h
  obtain ⟨hstrategies, -⟩ := raiseIf_bind_eq_ok.mp h
  have hinteger : ∀ {low high : Int} {v : Json}, isIntIn low high v = true → isInteger v = true := by
    intro low high v hv
    cases v <;> first | rfl | simp [isIntIn] at hv
  have hurl : (group.get? "url").all isText = true ∧ (group.get? "interval").all isInteger = true := by
    unfold validateProbe at hprobe
    split at hprobe
    · rename_i hselect
      -- a selector has no field for a probe
      have hno : ∀ key, key ∉ groupCommonFields ++ ["lazy", "disable-udp", "hidden"] →
          group.get? key = none := by
        intro key hkey
        rw [hselect] at hknown
        obtain ⟨-, hextra⟩ := Bool.or_eq_false_iff.mp hknown
        have hextra : extraKeys (group.fields?.getD []) (groupCommonFields ++
            ["lazy", "disable-udp", "hidden"]) = false := hextra
        cases group with
        | obj fields =>
            refine Dict.get?_eq_none_iff.mpr fun hmem => hkey ?_
            simp only [extraKeys, List.any_eq_false, decide_eq_true_eq, not_not] at hextra
            exact hextra key hmem
        | _ => rfl
      rw [hno "url" (by simp [groupCommonFields]), hno "interval" (by simp [groupCommonFields])]
      exact ⟨rfl, rfl⟩
    · obtain ⟨hurl, hprobe⟩ := raiseIf_bind_eq_ok.mp hprobe
      have hinterval := raiseIf_eq_ok.mp hprobe
      constructor
      · cases hget : group.get? "url" with
        | none => rfl
        | some v =>
            rw [getD_of_get? hget, Bool.not_eq_false'] at hurl
            cases v <;> first | rfl | simp [Json.str?] at hurl
      · cases hget : group.get? "interval" with
        | none => rfl
        | some v =>
            rw [getD_of_get? hget, Bool.not_eq_false'] at hinterval
            exact hinteger hinterval
  refine ⟨fun key hkey => ?_, hurl.1, hurl.2, ?_, ?_⟩
  · have hbool := List.any_eq_false.mp hbools key hkey
    cases hget : group.get? key with
    | none => rfl
    | some v => simpa [hget] using hbool
  · cases hget : group.get? "tolerance" with
    | none => rfl
    | some v =>
        rw [hget, Option.any_some, Bool.not_eq_false'] at htolerance
        exact hinteger htolerance
  · cases hget : group.get? "strategy" with
    | none => rfl
    | some v =>
        rw [Bool.not_eq_false'] at hstrategies
        rw [getD_of_get? hget, hstrategies] at hstrategy
        exact isText_of_within hstrategy

theorem get?_canonicalGroupOf {key : String} (h : key ∉ ["name", "proxies", "use"]) :
    (canonicalGroupOf U group).get? key = group.get? key := by
  simp only [List.mem_cons, List.not_mem_nil, or_false, not_or] at h
  cases group with
  | obj fields =>
      rw [canonicalGroupOf, onFields, Json.get?, get?_canonicalList_ne (Ne.symm h.2.2),
        get?_canonicalList_ne (Ne.symm h.2.1), get?_canonicalField_ne (Ne.symm h.1)]
      rfl
  | _ => rfl

theorem isTexts_of_strs {value : Json} {names : List String} (h : value = .arr (names.map Json.str)) :
    isTexts value = true := by
  rw [h, isTexts, List.all_map]
  exact List.all_eq_true.mpr fun _ _ => rfl

theorem groupFields_of_canonical {part : GroupPart} (hlisted : MembersListed group)
    (hfits : GroupFits U (canonicalGroupOf U group) part)
    (hvalid : validateGroup U (canonicalGroupOf U group) = .ok part) : GroupFields group := by
  obtain ⟨hbools, hurl, hinterval, htolerance, hstrategy⟩ := validateGroup_options hvalid
  rw [get?_canonicalGroupOf (by simp)] at hurl hinterval htolerance hstrategy
  cases group with
  | obj fields =>
      have hname : (Dict.get? fields "name").all isText = true := by
        have hget := hfits.name
        rw [canonicalGroupOf, onFields, Json.get?, get?_canonicalList_ne (by simp),
          get?_canonicalList_ne (by simp)] at hget
        rw [← all_canonicalRef (U := U), ← get?_canonicalField, hget]
        rfl
      have htype : (Dict.get? fields "type").all isText = true := by
        have hget := hfits.type
        rw [Json.getD, get?_canonicalGroupOf (by simp), Json.get?] at hget
        cases htype : Dict.get? fields "type" with
        | none => rfl
        | some v =>
            rw [htype] at hget
            cases v <;> first | rfl | simp [Json.str?] at hget
      have hmembers : ∀ key g value, (∀ v, isText (g v) = isText v) →
          (Dict.get? fields key).all isList = true →
          some value = some (mapItems g ((Dict.get? fields key).getD (.arr []))) →
          isTexts value = true → (Dict.get? fields key).all isTexts = true := by
        intro key g value hg hlist hvalue htexts
        cases hget : Dict.get? fields key with
        | none => rfl
        | some v =>
            rw [hget, Option.getD_some, Option.some.injEq] at hvalue
            rwa [hvalue, isTexts_mapItems hg] at htexts
      have hproxies : (Dict.get? fields "proxies").all isTexts = true := by
        have hget : (canonicalGroupOf U (.obj fields)).get? "proxies" =
            some (mapItems (canonicalMember U) ((Dict.get? fields "proxies").getD (.arr []))) := by
          rw [canonicalGroupOf, onFields, Json.get?, get?_canonicalList_ne (by simp),
            get?_canonicalList, get?_canonicalField_ne (by simp)]
        refine hmembers _ (canonicalMember U) _ (fun _ => isText_canonicalMember) hlisted.1 rfl ?_
        have hproxies := hfits.proxies
        rw [getD_of_get? hget] at hproxies
        exact isTexts_of_strs hproxies
      have huse : (Dict.get? fields "use").all isTexts = true := by
        have hget : (canonicalGroupOf U (.obj fields)).get? "use" =
            some (mapItems (canonicalRef U) ((Dict.get? fields "use").getD (.arr []))) := by
          rw [canonicalGroupOf, onFields, Json.get?, get?_canonicalList,
            get?_canonicalList_ne (by simp), get?_canonicalField_ne (by simp)]
        refine hmembers _ (canonicalRef U) _ (fun _ => isText_canonicalRef) hlisted.2 rfl ?_
        have huses := hfits.uses
        rw [getD_of_get? hget] at huses
        exact isTexts_of_strs huses
      exact {
        dict := rfl
        texts := by simpa using ⟨hname, htype, hurl, hstrategy⟩
        members := by simpa using ⟨hproxies, huse⟩
        bools := fun key hkey => by
          have hbool := hbools key hkey
          rwa [get?_canonicalGroupOf (by revert hkey; simp; rintro (rfl | rfl | rfl) <;> simp)] at hbool
        integers := by simpa using ⟨hinterval, htolerance⟩ }
  | _ => exact absurd hfits.dict (by simp [canonicalGroupOf, onFields, isDict])

/-! ### The route -/

theorem ruleFields_of_canonical {routable : List String}
    (hloose : (rule.get? "rule_set").all (fun v => isText v || isList v) = true)
    (hvalid : validateRule routable (canonicalRule U rule) = .ok ()) : RuleFields rule := by
  obtain ⟨hdict, hvalid⟩ := raiseIf_bind_eq_ok.mp hvalid
  cases rule with
  | obj fields =>
      refine ⟨rfl, ?_, hloose⟩
      have hget : (canonicalRule U (.obj fields)).get? "outbound" =
          (Dict.get? fields "outbound").map (canonicalRef U) := by
        rw [canonicalRule, onFields, Json.get?, get?_canonicalField_ne (by simp), get?_canonicalField]
      rw [Json.get?]
      cases htarget : Dict.get? fields "outbound" with
      | none => rfl
      | some v =>
          rw [htarget, Option.map_some] at hget
          rw [getD_of_get? hget] at hvalid
          dsimp only at hvalid
          split at hvalid
          · obtain ⟨isTarget, hwithin, hvalid⟩ := bind_eq_ok.mp hvalid
            have htrue := raiseIf_eq_ok.mp hvalid
            rw [Bool.not_eq_false'] at htrue
            rw [htrue] at hwithin
            have htext := isText_of_within hwithin
            rw [isText_canonicalRef] at htext
            rw [Option.all_some, htext]
            rfl
          · rename_i hnull
            rw [not_not] at hnull
            cases v <;> first | rfl | simp [canonicalRef] at hnull
  | _ => simp [canonicalRule, onFields, isDict] at hdict

theorem routeFields_of_canonical {routable : List String} (hloose : LooseRoute route)
    (hvalid : validateRoute routable (.obj (canonicalRoute U route)) = .ok ()) : RouteFields route := by
  have hfinal : Dict.get? (canonicalRoute U route) "final" =
      (Dict.get? route "final").map (canonicalRef U) := by
    rw [canonicalRoute, get?_canonicalItems_ne (by simp), get?_canonicalItems_ne (by simp),
      get?_canonicalField]
  have hrules : Dict.get? (canonicalRoute U route) "rules" =
      (Dict.get? route "rules").map (mapItems (canonicalRule U)) := by
    rw [canonicalRoute, get?_canonicalItems_ne (by simp), get?_canonicalItems,
      get?_canonicalField_ne (by simp)]
  obtain ⟨-, hvalid⟩ := raiseIf_bind_eq_ok.mp hvalid
  obtain ⟨isFinal, hwithin, hvalid⟩ := bind_eq_ok.mp hvalid
  obtain ⟨htrue, hvalid⟩ := raiseIf_bind_eq_ok.mp hvalid
  rw [Bool.not_eq_false'] at htrue
  rw [htrue] at hwithin
  refine ⟨?_, fun rules hget => ?_, hloose.ruleSets⟩
  · cases hget : Dict.get? route "final" with
    | none => rfl
    | some v =>
        rw [hget, Option.map_some] at hfinal
        rw [getD_obj hfinal] at hwithin
        rw [Option.all_some, ← isText_canonicalRef (U := U)]
        exact isText_of_within hwithin
  · rw [hget, Option.map_some] at hrules
    rw [getD_obj hrules] at hvalid
    cases rules with
    | arr xs =>
        refine ⟨xs, rfl, fun rule hrule => ?_⟩
        have hrule' : validateRule routable (canonicalRule U rule) = .ok () :=
          forM_eq_ok.mp hvalid _ (List.mem_map_of_mem hrule)
        exact ruleFields_of_canonical (hloose.rules xs hget rule hrule) hrule'
    | _ => simp [mapItems] at hvalid

/-! ### The whole document -/

theorem validated_groups {parts seen : List GroupPart}
    (h : groups.foldlM (validateGroupIn U) seen = .ok parts) :
    ∀ group ∈ groups, ∃ part, validateGroup U group = .ok part := by
  induction groups generalizing seen with
  | nil => simp
  | cons first groups ih =>
      intro group hgroup
      rw [List.foldlM_cons] at h
      obtain ⟨next, hnext, h⟩ := bind_eq_ok.mp h
      obtain ⟨part, hpart, -⟩ := bind_eq_ok.mp hnext
      rcases List.mem_cons.mp hgroup with rfl | hgroup
      · exact ⟨part, hpart⟩
      · exact ih h group hgroup

theorem validateGroup_of_validate {m : MihomoMeta} (henv : Enveloped model outbounds groups m route)
    (h : validate U model = .ok ()) : ∀ group ∈ groups, ∃ part, validateGroup U group = .ok part := by
  obtain ⟨names, hnames, -⟩ := bind_eq_ok.mp h
  rw [validateNames] at hnames
  obtain ⟨e, he, hnames⟩ := bind_eq_ok.mp hnames
  obtain ⟨rfl, -⟩ := envelope_cases henv he
  obtain ⟨tagged, -, hnames⟩ := bind_eq_ok.mp hnames
  obtain ⟨items, hitems, hnames⟩ := bind_eq_ok.mp hnames
  obtain rfl : groups = items := by simpa using hitems
  obtain ⟨seen, hseen, -⟩ := bind_eq_ok.mp hnames
  exact validated_groups hseen

/-- Each outbound goes through both passes. -/
theorem passes_of_outbounds {outbounds' groups' : List Json} {m m' : MihomoMeta}
    {route' : Dict String Json}
    (h : canonicalizeUserNames U outbounds groups m route = .ok (outbounds', groups', m', route')) :
    ∀ outbound ∈ outbounds, ∃ named result,
      nameOutbound U outbound = .ok named ∧ referOutbound U named = .ok result := by
  obtain ⟨named, hnamed, h⟩ := bind_eq_ok.mp h
  obtain ⟨gs, -, h⟩ := bind_eq_ok.mp h
  obtain ⟨proxies, -, h⟩ := bind_eq_ok.mp h
  obtain ⟨rules, -, h⟩ := bind_eq_ok.mp h
  obtain ⟨referred, hreferred, -⟩ := bind_eq_ok.mp h
  intro outbound houtbound
  obtain ⟨mid, hmid, hname⟩ := exists_of_forall₂ (mapM_forall₂ hnamed) houtbound
  obtain ⟨result, -, hrefer⟩ := exists_of_forall₂ (mapM_forall₂ hreferred) hmid
  exact ⟨mid, result, hname, hrefer⟩

/-- A document that is let through, with types for what nothing checks: it is only normalized,
and all its fields have their types. -/
theorem canonical_of_loose (hthree : DeclaresThree model) (hloose : LooseTyped model)
    (h : migrateOn S U model = .ok result) : CanonicalForm U model result ∧ FieldsTyped model := by
  obtain ⟨fields, outbounds, groups, m, route, outbounds', groups', m', route', rfl, hdeclares, hnames,
    hresult, hvalid⟩ := migrate_declared hthree h
  obtain ⟨pdg, hpdg, hmeta⟩ := hdeclares.pdg
  obtain ⟨mihomo, hmihomo, hfields⟩ := hmeta.mihomo
  have hgroupsAt : ((Json.obj fields).getD "_pdg" .null).get? "policy-groups" = some (.arr groups) := by
    rw [getD_obj hpdg]
    exact hmeta.groups
  have hpasses := passes_of_outbounds hnames
  have hlooseOuts := hloose.outbounds outbounds hdeclares.outbounds
  have hlooseGroups := hloose.groups groups hgroupsAt
  have hlooseRoute := hloose.route route hdeclares.route
  obtain ⟨rfl, rfl, rfl, rfl⟩ := canonicalizeUserNames_canonical hlooseGroups hnames
  refine ⟨⟨fields, outbounds, groups, m, route, rfl, hdeclares, hresult⟩, ?_⟩
  have henv := @assembled_enveloped (outbounds.map (canonicalOutbound U))
    (groups.map (canonicalGroupOf U)) (canonicalMeta U m) fields (canonicalRoute U route)
  rw [← hresult] at henv
  obtain ⟨direct, tags, parts, hall⟩ := validate_cases henv hvalid
  have hvalidGroups := validateGroup_of_validate henv hvalid
  exact {
    outbounds := by
      refine ⟨outbounds, hdeclares.outbounds, fun outbound houtbound => ?_⟩
      obtain ⟨named, final, hname, hrefer⟩ := hpasses outbound houtbound
      obtain ⟨tag, -, hnamed⟩ := exists_of_forall₂ hall.named
        (List.mem_map_of_mem (f := canonicalOutbound U) houtbound)
      have hmembers := members_of_refer hrefer
      rw [outbound_canonical hname hrefer] at hmembers
      exact outboundFields_of_canonical (hlooseOuts outbound houtbound) hmembers hnamed
    groups := by
      refine ⟨groups, hgroupsAt, fun group hgroup => ?_⟩
      obtain ⟨part, hpart⟩ := hvalidGroups _ (List.mem_map_of_mem (f := canonicalGroupOf U) hgroup)
      exact groupFields_of_canonical (hlooseGroups group hgroup) (validateGroup_cases hpart) hpart
    mihomo := by
      rw [getD_obj hpdg, getD_obj hmihomo]
      simp [v3MihomoFields, getD_obj hfields.proxyProviders, getD_obj hfields.ruleProviders,
        getD_obj hfields.advanced, getD_obj hfields.managedFiles, isDict]
    route := ⟨route, hdeclares.route, routeFields_of_canonical hlooseRoute hall.routed⟩ }

theorem FieldsTyped.loose (h : FieldsTyped model) : LooseTyped model := by
  obtain ⟨outbounds, houts, houtbounds⟩ := h.outbounds
  obtain ⟨groups, hgroupsAt, hgroups⟩ := h.groups
  obtain ⟨route, hrouteAt, hroute⟩ := h.route
  have hlist : ∀ value : Option Json, value.all isTexts = true → value.all isList = true := by
    intro value hvalue
    cases value with
    | none => rfl
    | some v => cases v <;> first | rfl | simp [isTexts] at hvalue
  exact {
    outbounds := fun xs hxs outbound hmem => by
      cases houts.symm.trans hxs
      have hfields := houtbounds outbound hmem
      exact ⟨hfields.type, hfields.detour, hlist _ hfields.members⟩
    groups := fun xs hxs group hmem => by
      cases hgroupsAt.symm.trans hxs
      have hfields := hgroups group hmem
      exact ⟨hlist _ (hfields.members _ (by simp)), hlist _ (hfields.members _ (by simp))⟩
    route := fun r hr => by
      cases hrouteAt.symm.trans hr
      refine ⟨fun xs hxs rule hrule => ?_, hroute.ruleSets⟩
      obtain ⟨ys, hys, hrules⟩ := hroute.rules _ hxs
      cases hys
      exact (hrules rule hrule).ruleSet }

/-- A declared document is only normalized, and an ill-typed one refused, iff no ill-typed
document is a fault and the fields that nothing checks have their types in what is let through. -/
theorem notRepaired_iff (hthree : DeclaresThree model) :
    NotRepaired S U model ↔ (FieldsTyped model ∨ WellTyped S U model) ∧
      ∀ result, migrateOn S U model = .ok result → LooseTyped model := by
  constructor
  · intro h
    constructor
    · by_cases htyped : FieldsTyped model
      · exact Or.inl htyped
      · exact Or.inr ((migrate_total_iff S U model).mp (Or.inr (h.refused htyped)))
    · intro result hresult
      by_cases htyped : FieldsTyped model
      · exact htyped.loose
      · obtain ⟨e, he⟩ := h.refused htyped
        rw [hresult] at he
        cases he
  · intro ⟨hfault, hloose⟩
    constructor
    · exact fun result hresult => (canonical_of_loose hthree (hloose result hresult) hresult).1
    · intro hill
      rcases (migrate_total_iff S U model).mpr (hfault.resolve_left hill) with ⟨result, hresult, -⟩ | he
      · exact absurd (canonical_of_loose hthree (hloose result hresult) hresult).2 hill
      · exact he

/-- A document of schema 3 with one policy group. -/
def groupedDocument (proxies : Json) : Json :=
  .obj [
    ("outbounds", .arr [.obj [("type", .str "direct"), ("tag", .str "JP")]]),
    ("route", .obj [("final", .str "pick")]),
    ("_pdg", metaJson (.arr [
      .obj [("name", .str "pick"), ("type", .str "select"), ("proxies", proxies)]]) ⟨[], [], [], []⟩)]

/-- With a list of members the law holds. -/
theorem notRepaired_listed :
    NotRepaired ⟨100, 100⟩ plainUnicode (groupedDocument (.arr [.str "JP"])) := by
  have htyped : FieldsTyped (groupedDocument (.arr [.str "JP"])) := {
    outbounds := by
      refine ⟨_, rfl, fun outbound houtbound => ?_⟩
      rw [List.mem_singleton.mp houtbound]
      exact ⟨rfl, rfl, rfl, rfl, rfl⟩
    groups := by
      refine ⟨_, rfl, fun group hgroup => ?_⟩
      rw [List.mem_singleton.mp hgroup]
      exact ⟨rfl, by decide, by decide, by decide, by decide⟩
    mihomo := by decide
    route := by
      refine ⟨[("final", .str "pick")], rfl, rfl, ?_, ?_⟩
      · intro rules hrules
        cases hrules
      · intro ruleSets hruleSets
        cases hruleSets }
  exact (notRepaired_iff ⟨rfl, by decide⟩).mpr ⟨Or.inl htyped, fun _ _ => htyped.loose⟩

/-- The keys of an object become the members of the group. -/
theorem objectMembers_repaired :
    DeclaresThree (groupedDocument (.obj [("JP", .int 1)])) ∧
      ¬ FieldsTyped (groupedDocument (.obj [("JP", .int 1)])) ∧
      migrateOn ⟨100, 100⟩ plainUnicode (groupedDocument (.obj [("JP", .int 1)])) =
        .ok (.obj [
          ("outbounds", .arr [.obj [("type", .str "direct"), ("tag", .str "JP")]]),
          ("route", .obj [("final", .str "pick")]),
          ("_pdg", metaJson (.arr [.obj [("name", .str "pick"), ("type", .str "select"),
            ("proxies", .arr [.str "JP"]), ("use", .arr [])]]) ⟨[], [], [], []⟩)]) ∧
      ¬ NotRepaired ⟨100, 100⟩ plainUnicode (groupedDocument (.obj [("JP", .int 1)])) := by
  have hill : ¬ FieldsTyped (groupedDocument (.obj [("JP", .int 1)])) := by
    intro h
    obtain ⟨groups, hgroups, hfields⟩ := h.groups
    cases hgroups
    exact absurd ((hfields _ List.mem_cons_self).members "proxies" (by simp)) (by decide)
  have hresult : migrateOn ⟨100, 100⟩ plainUnicode (groupedDocument (.obj [("JP", .int 1)])) =
      .ok (.obj [
        ("outbounds", .arr [.obj [("type", .str "direct"), ("tag", .str "JP")]]),
        ("route", .obj [("final", .str "pick")]),
        ("_pdg", metaJson (.arr [.obj [("name", .str "pick"), ("type", .str "select"),
          ("proxies", .arr [.str "JP"]), ("use", .arr [])]]) ⟨[], [], [], []⟩)]) := by
    rfl
  refine ⟨⟨rfl, by decide⟩, hill, hresult, fun h => ?_⟩
  obtain ⟨e, he⟩ := h.refused hill
  rw [hresult] at he
  cases he

end ProxyGateway.Schema
