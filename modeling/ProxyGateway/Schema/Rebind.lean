import ProxyGateway.Schema.FixedPoint

set_option autoImplicit false

/-!
# ProxyGateway.Schema.Rebind

`rebind_direct` gives the direct outbound a new tag: the outbound, the members of the groups, the
final target and the targets of the rules are renamed. Rebinding back gives the migrated document
again (`rebindDirect_back`).
-/

namespace ProxyGateway.Schema

open Py Json

/-! ### `rename_references` and `rebind_direct` -/

/-- `new if item == old else item`. -/
def renamed (old new : String) (item : Json) : Json := if item = .str old then .str new else item

/-- `if fields.get(key) == old: fields[key] = new`. -/
def renameField (old new key : String) (fields : Dict String Json) : Dict String Json :=
  if Dict.get? fields key = some (.str old) then Dict.set fields key (.str new) else fields

/-- The members of a group. -/
def renameGroup (old new : String) (group : Json) : Py ModelError Json := do
  let .obj fields := group | Py.fault .attribute
  let members ← (group.getD "proxies" (.arr [])).items
  return .obj (Dict.set fields "proxies" (.arr (members.map (renamed old new))))

/-- The target of a rule. -/
def renameRule (old new : String) (rule : Json) : Json :=
  match rule with
  | .obj fields => .obj (renameField old new "outbound" fields)
  | _ => rule

/-- The final target and the targets of the rules. -/
def renameRoute (old new : String) (route : Dict String Json) : Py ModelError (Dict String Json) := do
  let route := renameField old new "final" route
  match Dict.get? route "rules" with
  | some (.arr rules) => return Dict.set route "rules" (.arr (rules.map (renameRule old new)))
  | some value => do
      let _ ← value.items (ε := ModelError)
      return route
  | none => return route

/-- The groups of the metadata, replaced. -/
def withGroups (model : Json) (groups : List Json) : Json :=
  match model, model.getD "_pdg" .null with
  | .obj fields, .obj pdg =>
      .obj (Dict.set fields "_pdg" (.obj (Dict.set pdg "policy-groups" (.arr groups))))
  | _, _ => model

/-- `rename_references`, which renames no group here. -/
def renameReferences (old new : String) (model : Json) : Py ModelError Json := do
  let groups ← (policyGroups model).mapM (renameGroup old new)
  match withGroups model groups, model.getD "route" .null with
  | .obj fields, .obj route =>
      return .obj (Dict.set fields "route" (.obj (← renameRoute old new route)))
  | _, _ => Py.fault .attribute

/-- The direct outbound gets the tag. -/
def retag (new : String) (outbound : Json) : Json :=
  match outbound with
  | .obj fields => if hasType "direct" outbound then .obj (Dict.set fields "tag" (.str new)) else outbound
  | _ => outbound

/-- The outbounds of a document, replaced. -/
def withOutbounds (model : Json) (outbounds : List Json) : Json :=
  match model with
  | .obj fields => .obj (Dict.set fields "outbounds" (.arr outbounds))
  | _ => model

/-- The names that the new tag must not be one of. -/
def occupiedNames (model : Json) (old : String) : List String :=
  (outboundTags (outboundsOf model)).filter (· ≠ old) ++ groupNames (policyGroups model) ++
    mihomoKeys model "proxy-providers" ++ mihomoKeys model "rule-providers"

/-- `rebind_direct`. -/
def rebindDirect (U : Unicode) (model new : Json) : Py ModelError Json := do
  let result ← migrate U model
  let old ← directTag result
  let new ← tag new "direct tag"
  if new = old then return result
  raiseIf (decide (new ∈ reservedTargets)) (.text "direct tag collides with a reserved target")
  raiseIf (decide (new ∈ occupiedNames result old))
    (.text "direct tag collides with an existing model name")
  let result ← renameReferences old new
    (withOutbounds result ((outboundsOf result).map (retag new)))
  validate U result
  return result

/-! ### What is renamed -/

variable {U : Unicode} {old new : String} {fields route : Dict String Json}
  {outbounds groups : List Json} {m : MihomoMeta} {model result : Json}

@[simp] theorem renamed_self : renamed old new (.str old) = .str new := by simp [renamed]

theorem renamed_of_ne {item : Json} (h : item ≠ .str old) : renamed old new item = item := by
  simp [renamed, h]

/-- Renaming back. -/
theorem renamed_back {item : Json} (h : item ≠ .str new) : renamed new old (renamed old new item) = item := by
  by_cases hitem : item = .str old
  · simp [hitem]
  · rw [renamed_of_ne hitem, renamed_of_ne h]

theorem get?_renameField_ne {key key' : String} (h : key ≠ key') :
    Dict.get? (renameField old new key fields) key' = Dict.get? fields key' := by
  unfold renameField
  split
  · rw [Dict.get?_set_ne h]
  · rfl

theorem get?_renameField {key : String} :
    Dict.get? (renameField old new key fields) key = (Dict.get? fields key).map (renamed old new) := by
  unfold renameField
  split
  · next h => rw [Dict.get?_set_self, h, Option.map_some, renamed_self]
  · next h =>
    cases hget : Dict.get? fields key with
    | none => rfl
    | some v =>
        have hne : v ≠ .str old := fun hv => h (by rw [hget, hv])
        rw [Option.map_some, renamed_of_ne hne]

theorem renameField_back {key : String} (old : String) (h : Dict.get? fields key ≠ some (.str new)) :
    renameField new old key (renameField old new key fields) = fields := by
  by_cases hold : Dict.get? fields key = some (.str old)
  · have hmid : renameField old new key fields = Dict.set fields key (.str new) := by
      rw [renameField, if_pos hold]
    rw [hmid, renameField, Dict.get?_set_self, if_pos rfl, Dict.set_set, Dict.set_of_get? hold]
  · have hmid : renameField old new key fields = fields := by rw [renameField, if_neg hold]
    rw [hmid, renameField, if_neg h]

theorem renameRule_back {rule : Json} (h : rule.get? "outbound" ≠ some (.str new)) :
    renameRule new old (renameRule old new rule) = rule := by
  cases rule with
  | obj fields => exact congrArg Json.obj (renameField_back old h)
  | _ => rfl

/-! ### The renamed document -/

/-- `renameGroup` on a group whose members are a list. -/
def renamedGroup (old new : String) (group : Json) : Json :=
  match group with
  | .obj fields => .obj (Dict.set fields "proxies"
      (.arr ((group.getD "proxies" (.arr [])).entries.map (renamed old new))))
  | _ => group

/-- `renameRoute` on a route whose rules are a list. -/
def renamedRoute (old new : String) (route : Dict String Json) : Dict String Json :=
  match Dict.get? route "rules" with
  | some (.arr rules) => Dict.set (renameField old new "final" route) "rules"
      (.arr (rules.map (renameRule old new)))
  | _ => renameField old new "final" route

theorem renameGroup_eq {group : Json} {part : GroupPart} (h : GroupFits U group part) :
    renameGroup old new group = .ok (renamedGroup old new group) := by
  have hdict := h.dict
  cases group with
  | obj fields =>
      unfold renameGroup
      simp only [h.proxies, items_arr, ok_bind, renamedGroup, Json.entries]
      rfl
  | _ => simp [isDict] at hdict

theorem renameRoute_eq {rules : List Json} (h : (Json.obj route).getD "rules" (.arr []) = .arr rules) :
    renameRoute old new route = .ok (renamedRoute old new route) := by
  unfold renameRoute renamedRoute
  simp only [get?_renameField_ne (show "final" ≠ "rules" by simp)]
  cases hrules : Dict.get? route "rules" with
  | none => rfl
  | some value =>
      have hvalue : value = .arr rules := by simpa [Json.getD, Json.get?, hrules] using h
      rw [hvalue]
      rfl

theorem renameReferences_eq (old new : String) (outs : List Json) {direct : String} {tags : List String}
    {parts : List GroupPart} (henv : Enveloped (.obj fields) outbounds groups m route)
    (hv : Valid U outbounds groups m route direct tags parts) :
    renameReferences old new (withOutbounds (.obj fields) outs) =
      .ok (assembled fields outs (groups.map (renamedGroup old new)) m (renamedRoute old new route)) := by
  have hpdg : Dict.get? (Dict.set fields "outbounds" (.arr outs)) "_pdg" =
      some (metaJson (.arr groups) m) := by
    rw [Dict.get?_set_ne (by simp)]
    exact henv.pdg
  have hroute : ∀ v, Dict.get? (Dict.set (Dict.set fields "outbounds" (.arr outs)) "_pdg" v) "route" =
      some (.obj route) := by
    intro v
    rw [Dict.get?_set_ne (by simp), Dict.get?_set_ne (by simp)]
    exact henv.route
  have hgroups : policyGroups (.obj (Dict.set fields "outbounds" (.arr outs))) = groups := by
    rw [policyGroups, getD_obj hpdg, metaJson_policyGroups]
  have hrenamed : groups.mapM (renameGroup old new) = .ok (groups.map (renamedGroup old new)) := by
    apply mapM_of_forall₂
    rw [List.forall₂_map_right_iff, List.forall₂_same]
    intro group hgroup
    obtain ⟨part, -, hfit⟩ := exists_of_forall₂ hv.fits hgroup
    exact renameGroup_eq hfit
  obtain ⟨-, rules, hrules, -⟩ := validateRoute_cases hv.routed
  have hwith : ∀ gs, withGroups (.obj (Dict.set fields "outbounds" (.arr outs))) gs =
      .obj (Dict.set (Dict.set fields "outbounds" (.arr outs)) "_pdg" (metaJson (.arr gs) m)) := by
    intro gs
    unfold withGroups
    rw [getD_obj hpdg]
    rfl
  have hroute' : (Json.obj (Dict.set fields "outbounds" (.arr outs))).getD "route" .null =
      .obj route := by
    refine getD_obj ?_
    rw [Dict.get?_set_ne (by simp)]
    exact henv.route
  rw [renameReferences, withOutbounds, hgroups, hrenamed, ok_bind, hwith, hroute']
  simp only [renameRoute_eq hrules, ok_bind]
  rfl

/-! ### Tags are normal names -/

/-- What the Unicode database says of ASCII: composed texts, and no special categories among the
characters that are printed. -/
structure AsciiPlain (U : Unicode) : Prop where
  nfc : ∀ s : String, (∀ c ∈ s.toList, c.toNat < 0x80) → U.nfc s = s
  category : ∀ c : Char, 0x20 ≤ c.toNat → c.toNat < 0x7F → U.category c ∉ ["Cs", "Zl", "Zp", "Cf"]

theorem utf8ByteSize_le (s : String) : s.utf8ByteSize ≤ 4 * s.length := by
  suffices h : ∀ cs : List Char, (String.ofList cs).utf8ByteSize ≤ 4 * cs.length by
    have := h s.toList
    rwa [String.ofList_toList, String.length_toList] at this
  intro cs
  induction cs with
  | nil => simp
  | cons c cs ih =>
      have hsplit : String.ofList (c :: cs) = String.singleton c ++ String.ofList cs := by
        rw [← String.toList_inj]
        simp
      rw [hsplit, String.utf8ByteSize_append, String.utf8ByteSize_singleton, List.length_cons]
      have := c.utf8Size_le_four
      omega

theorem tagChar_range {c : Char} (h : tagChar c = true) : 0x2D ≤ c.toNat ∧ c.toNat < 0x7B := by
  delta tagChar Char.isAlphanum Char.isAlpha Char.isUpper Char.isLower Char.isDigit at h
  simp only [Bool.or_eq_true, Bool.and_eq_true, decide_eq_true_eq, ge_iff_le, UInt32.le_iff_toNat_le] at h
  change ((((65 ≤ c.toNat ∧ c.toNat ≤ 90 ∨ 97 ≤ c.toNat ∧ c.toNat ≤ 122) ∨
    48 ≤ c.toNat ∧ c.toNat ≤ 57) ∨ c = '_') ∨ c = '.') ∨ c = '-' at h
  rcases h with ((h | rfl) | rfl) | rfl
  · omega
  · decide
  · decide
  · decide

theorem not_dangerousChar (hU : AsciiPlain U) {c : Char} (h : 0x2D ≤ c.toNat ∧ c.toNat < 0x7B) :
    dangerousChar U c = false := by
  have hfar : c.toNat ∉ dangerousNameCodepoints := by
    intro hmem
    have hlow : ∀ n ∈ dangerousNameCodepoints, 0x7B ≤ n := by decide
    have := hlow _ hmem
    omega
  have hcategory := hU.category c (by omega) (by omega)
  simp only [List.mem_cons, not_or] at hcategory
  simp [dangerousChar, hfar, hcategory]
  omega

theorem strip_of_solid {cs : List Char} (h : ∀ c ∈ cs, 0x2D ≤ c.toNat ∧ c.toNat < 0x7B) :
    Text.strip cs = cs := by
  have hsolid : ∀ c ∈ cs, Text.isSpace c = false := by
    intro c hc
    have := h c hc
    simp [Text.isSpace]
    omega
  have hdrop : cs.dropWhile Text.isSpace = cs := by
    rw [List.dropWhile_eq_self_iff]
    intro hlen
    simp [hsolid]
  rw [Text.strip, Text.stripBy_eq, hdrop, List.rdropWhile_eq_self_iff]
  intro hne
  simp [hsolid _ (List.getLast_mem hne)]

/-- A tag is a normal form. -/
theorem normalizeName_tag (hU : AsciiPlain U) (h : tagRe new = true) (label : String) :
    normalizeName U (.str new) label = .ok new := by
  rw [tagRe, Bool.and_eq_true, decide_eq_true_eq, List.all_eq_true] at h
  obtain ⟨hlength, hchars⟩ := h
  have hrange : ∀ c ∈ new.toList, 0x2D ≤ c.toNat ∧ c.toNat < 0x7B :=
    fun c hc => tagChar_range (hchars c hc)
  have hnfc : U.nfc new = new := hU.nfc new fun c hc => by have := hrange c hc; omega
  have hsafe : new.toList.any (dangerousChar U) = false := by
    rw [List.any_eq_false]
    exact fun c hc => by simp [not_dangerousChar hU (hrange c hc)]
  have hbytes := utf8ByteSize_le new
  have hempty : new ≠ "" := by
    rintro rfl
    simp at hlength
  have hshort : ¬ (new = "" ∨ new.length > nameMaxCodepoints ∨
      new.utf8ByteSize > nameMaxUtf8Bytes) := by
    simp only [hempty, nameMaxCodepoints, nameMaxUtf8Bytes, false_or]
    omega
  simp only [normalizeName, hnfc, hsafe, strip_of_solid hrange, String.ofList_toList, raiseIf,
    Bool.false_eq_true, if_false, ok_bind, hshort, decide_false]
  rfl

/-! ### The renamed document is normal -/

/-- A normal form under its own label. -/
def NormalText (U : Unicode) (s : String) : Prop :=
  ∀ label, normalizeName U (.str s) label = .ok s

theorem fieldFixed_renamed {key : String} (old : String) (hnew : NormalText U new)
    (h : FieldFixed U (Dict.get? fields key)) :
    FieldFixed U (Dict.get? (renameField old new key fields) key) := by
  rw [get?_renameField]
  intro s label hs
  obtain ⟨v, hv, hrenamed⟩ := Option.map_eq_some_iff.mp hs
  by_cases hold : v = .str old
  · rw [hold, renamed_self] at hrenamed
    cases hrenamed
    exact hnew label
  · rw [renamed_of_ne hold] at hrenamed
    exact h s label (by rw [hv, hrenamed])

theorem ruleFixed_renamed {rule : Json} (hnew : NormalText U new) (h : RuleFixed U rule) :
    RuleFixed U (renameRule old new rule) := by
  cases rule with
  | obj fields =>
      rintro _ ⟨rfl⟩
      obtain ⟨houtbound, hset⟩ := h fields rfl
      refine ⟨fieldFixed_renamed old hnew houtbound, ?_⟩
      rwa [get?_renameField_ne (by simp)]
  | _ => exact h

theorem routeFixed_renamed (hnew : NormalText U new) (h : RouteFixed U route) :
    RouteFixed U (renamedRoute old new route) := by
  have hfinal := fieldFixed_renamed old hnew h.final
  have hrules := h.rules
  unfold renamedRoute
  split
  · next rules hget =>
    rw [EachFixed, hget] at hrules
    constructor
    · rwa [Dict.get?_set_ne (by simp)]
    · rw [Dict.get?_set_self]
      intro rule hrule
      obtain ⟨rule, hmem, rfl⟩ := List.mem_map.mp hrule
      exact ruleFixed_renamed hnew (hrules rule hmem)
    · rw [Dict.get?_set_ne (by simp), get?_renameField_ne (by simp)]
      exact h.ruleSets
  · constructor
    · exact hfinal
    · rw [get?_renameField_ne (by simp)]
      exact hrules
    · rw [get?_renameField_ne (by simp)]
      exact h.ruleSets

/-- A member as `referGroup` rewrites it. -/
def memberOf (U : Unicode) (item : Json) : Py ModelError Json :=
  if item = .str "REJECT" then .ok item else reference U "group member" item

theorem memberOf_renamed {item : Json} (hnew : NormalText U new) (h : memberOf U item = .ok item) :
    memberOf U (renamed old new item) = .ok (renamed old new item) := by
  by_cases hitem : item = .str old
  · rw [hitem, renamed_self, memberOf]
    split
    · rfl
    · rw [reference, hnew]
      rfl
  · rwa [renamed_of_ne hitem]

/-- What a group holds that both passes leave as it is. -/
theorem group_normal (h : nameGroup U (.obj fields) = .ok (.obj fields))
    (h' : referGroup U (.obj fields) = .ok (.obj fields)) :
    ∃ name proxies uses, Dict.get? fields "name" = some (.str name) ∧
      normalizeName U (.str name) "group name" = .ok name ∧
      Dict.get? fields "proxies" = some (.arr proxies) ∧
      (∀ item ∈ proxies, memberOf U item = .ok item) ∧
      Dict.get? fields "use" = some (.arr uses) ∧
      uses.mapM (reference U "proxy provider name") = .ok uses := by
  obtain ⟨name, hname, h⟩ := bind_eq_ok.mp h
  have hfields : Dict.set fields "name" (.str name) = fields := Json.obj.inj (pure_eq_ok.mp h)
  have hget : Dict.get? fields "name" = some (.str name) := by
    rw [← hfields, Dict.get?_set_self]
  obtain ⟨members, hmembers, h'⟩ := bind_eq_ok.mp h'
  obtain ⟨proxies, hproxies, h'⟩ := bind_eq_ok.mp h'
  obtain ⟨providers, hproviders, h'⟩ := bind_eq_ok.mp h'
  obtain ⟨uses, huses, h'⟩ := bind_eq_ok.mp h'
  have hfields' : Dict.set (Dict.set fields "proxies" (.arr proxies)) "use" (.arr uses) = fields :=
    Json.obj.inj (pure_eq_ok.mp h')
  have hgetP : Dict.get? fields "proxies" = some (.arr proxies) := by
    rw [← hfields', Dict.get?_set_ne (by simp), Dict.get?_set_self]
  have hgetU : Dict.get? fields "use" = some (.arr uses) := by
    rw [← hfields', Dict.get?_set_self]
  rw [membersOf_arr hgetP] at hmembers
  rw [membersOf_arr hgetU] at hproviders
  cases hmembers
  cases hproviders
  rw [getD_obj hget] at hname
  exact ⟨name, _, _, hget, hname, hgetP,
    fun item hitem => List.forall₂_same.mp (mapM_forall₂ hproxies) item hitem, hgetU, huses⟩

theorem group_renamed {group : Json} (hnew : NormalText U new)
    (h : nameGroup U group = .ok group ∧ referGroup U group = .ok group) :
    nameGroup U (renamedGroup old new group) = .ok (renamedGroup old new group) ∧
      referGroup U (renamedGroup old new group) = .ok (renamedGroup old new group) := by
  cases group with
  | obj fields =>
      obtain ⟨name, proxies, uses, hname, hnormal, hproxies, hmembers, huses, hproviders⟩ :=
        group_normal h.1 h.2
      have hshape : renamedGroup old new (.obj fields) =
          .obj (Dict.set fields "proxies" (.arr (proxies.map (renamed old new)))) := by
        unfold renamedGroup
        simp only [getD_obj hproxies, Json.entries]
      obtain ⟨final, hfinal⟩ : ∃ final, final =
        Dict.set fields "proxies" (.arr (proxies.map (renamed old new))) := ⟨_, rfl⟩
      have hget : Dict.get? final "name" = some (.str name) := by
        rw [hfinal, Dict.get?_set_ne (by simp), hname]
      have hgetP : Dict.get? final "proxies" = some (.arr (proxies.map (renamed old new))) := by
        rw [hfinal, Dict.get?_set_self]
      have hgetU : Dict.get? final "use" = some (.arr uses) := by
        rw [hfinal, Dict.get?_set_ne (by simp), huses]
      have hmembers' : (proxies.map (renamed old new)).mapM (memberOf U) =
          .ok (proxies.map (renamed old new)) := by
        refine mapM_id fun item hitem => ?_
        obtain ⟨item, hmem, rfl⟩ := List.mem_map.mp hitem
        exact memberOf_renamed hnew (hmembers item hmem)
      rw [hshape, ← hfinal]
      constructor
      · unfold nameGroup
        simp only [getD_obj hget, hnormal, ok_bind, Dict.set_of_get? hget]
        rfl
      · unfold referGroup
        simp only [membersOf_arr hgetP, membersOf_arr hgetU, ok_bind, hproviders]
        show (List.mapM (memberOf U) (proxies.map (renamed old new)) >>= _) = _
        rw [hmembers', ok_bind, Dict.set_of_get? hgetP, Dict.set_of_get? hgetU]
        rfl
  | _ => exact h

/-- The references that the second pass reads are not in the tag. -/
theorem referOutbound_tagged (hU : NfcClosed U) (h : referOutbound U (.obj fields) = .ok (.obj fields))
    (v : Json) : referOutbound U (.obj (Dict.set fields "tag" v)) = .ok (.obj (Dict.set fields "tag" v)) := by
  obtain ⟨mid, hmid, h⟩ := bind_eq_ok.mp h
  have hfixed := fieldFixed_of_refer hU hmid
  split at h
  · next members hget =>
    obtain ⟨new, hnew, h⟩ := bind_eq_ok.mp h
    have hfields : Dict.set mid "outbounds" (.arr new) = fields := Json.obj.inj (pure_eq_ok.mp h)
    have hdetour : FieldFixed U (Dict.get? (Dict.set fields "tag" v) "detour") := by
      rw [Dict.get?_set_ne (by simp), ← hfields, Dict.get?_set_ne (by simp)]
      exact hfixed
    have hmembers : Dict.get? (Dict.set fields "tag" v) "outbounds" = some (.arr new) := by
      rw [Dict.get?_set_ne (by simp), ← hfields, Dict.get?_set_self]
    have hsecond : new.mapM (reference U "outbound member") = .ok new :=
      mapM_fixed hnew fun x _ y hy => reference_fixed hU hy
    unfold referOutbound
    simp only [referField_fixed hdetour, ok_bind, hmembers, hsecond, Dict.set_of_get? hmembers]
    rfl
  · next hno =>
    have hfields : mid = fields := Json.obj.inj (pure_eq_ok.mp h)
    rw [hfields] at hfixed hno
    have hdetour : FieldFixed U (Dict.get? (Dict.set fields "tag" v) "detour") := by
      rwa [Dict.get?_set_ne (by simp)]
    unfold referOutbound
    simp only [referField_fixed hdetour, ok_bind]
    rw [Dict.get?_set_ne (by simp)]
    split
    · next members hget => exact absurd hget (hno members)
    · rfl

theorem retag_of_ne {o : Json} (h : hasType "direct" o ≠ true) : retag new o = o := by
  cases o <;> simp [retag, h]

theorem outbound_retagged (hU : NfcClosed U) {outbound : Json}
    (h : nameOutbound U outbound = .ok outbound ∧ referOutbound U outbound = .ok outbound) :
    nameOutbound U (retag new outbound) = .ok (retag new outbound) ∧
      referOutbound U (retag new outbound) = .ok (retag new outbound) := by
  by_cases hdirect : hasType "direct" outbound = true
  · cases outbound with
    | obj fields =>
        have hshape : retag new (.obj fields) = .obj (Dict.set fields "tag" (.str new)) := by
          simp only [retag, hdirect, if_true]
        have htype : (Json.obj (Dict.set fields "tag" (.str new))).getD "type" .null = .str "direct" := by
          refine getD_obj ?_
          rw [Dict.get?_set_ne (by simp)]
          exact of_decide_eq_true hdirect
        rw [hshape]
        constructor
        · unfold nameOutbound
          simp only [htype]
          rfl
        · exact referOutbound_tagged hU h.2 (.str new)
    | _ => simp [hasType, Json.get?] at hdirect
  · rw [retag_of_ne hdirect]
    exact h

/-- Renaming keeps the names and references of a document normal. -/
theorem NormalNames.renamed (old : String) (hU : NfcClosed U) (h : NormalNames U outbounds groups m route)
    (hnew : NormalText U new) :
    NormalNames U (outbounds.map (retag new)) (groups.map (renamedGroup old new)) m
      (renamedRoute old new route) where
  outbounds := by
    rw [List.forall_mem_map]
    exact fun o ho => outbound_retagged hU (h.outbounds o ho)
  groups := by
    rw [List.forall_mem_map]
    exact fun g hg => group_renamed hnew (h.groups g hg)
  proxyProviders := h.proxyProviders
  ruleProviders := h.ruleProviders
  route := routeFixed_renamed hnew h.route

/-! ### Rebinding -/

/-- A document with its parts, as `migrate` returns it. -/
structure Migrated (U : Unicode) (fields : Dict String Json) (outbounds groups : List Json)
    (m : MihomoMeta) (route : Dict String Json) (direct : String) (tags : List String)
    (parts : List GroupPart) : Prop where
  enveloped : Enveloped (.obj fields) outbounds groups m route
  normal : NormalNames U outbounds groups m route
  valid : Valid U outbounds groups m route direct tags parts
  validated : validate U (.obj fields) = .ok ()
  direct : directTag (.obj fields) = .ok direct

variable {direct : String} {tags : List String} {parts : List GroupPart}

theorem migrated_of_validated (henv : Enveloped (.obj fields) outbounds groups m route)
    (hnormal : NormalNames U outbounds groups m route) (hvalid : validate U (.obj fields) = .ok ()) :
    ∃ direct tags parts, Migrated U fields outbounds groups m route direct tags parts := by
  obtain ⟨direct, tags, parts, hv⟩ := validate_cases henv hvalid
  obtain ⟨⟨direct', hdirect⟩, -⟩ := validate_envelope hvalid henv.outbounds
  have hsame : [direct] = [direct'] := hv.oneDirect.symm.trans (directTag_cases henv.outbounds hdirect)
  cases hsame
  exact ⟨direct, tags, parts, henv, hnormal, hv, hvalid, hdirect⟩

theorem migrate_parts (hU : NfcClosed U) (h : migrate U model = .ok result) :
    ∃ fields outbounds groups m route direct tags parts, result = .obj fields ∧
      Migrated U fields outbounds groups m route direct tags parts := by
  obtain ⟨fields, route₀, -, -, outbounds₀, groups₀, m₀, outbounds, groups, m, route, hnames, rfl,
    hvalid⟩ := migrate_cases h
  have henv := @assembled_enveloped outbounds groups m fields route
  have hnormal := normalNames_of_canonicalized hU hnames
  exact ⟨_, outbounds, groups, m, route, by
    obtain ⟨direct, tags, parts, hm⟩ := migrated_of_validated henv hnormal hvalid
    exact ⟨direct, tags, parts, rfl, hm⟩⟩

theorem Migrated.migrate (h : Migrated U fields outbounds groups m route direct tags parts) :
    migrate U (.obj fields) = .ok (.obj fields) :=
  migrate_of_normal h.enveloped h.normal h.validated

/-- The names that a document takes. -/
theorem Migrated.occupiedNames (h : Migrated U fields outbounds groups m route direct tags parts) :
    occupiedNames (.obj fields) direct = tags.filter (· ≠ direct) ++ parts.map GroupPart.name ++
      m.proxyProviders.keys ++ m.ruleProviders.keys := by
  have hgroups : policyGroups (.obj fields) = groups := by
    rw [policyGroups, getD_of_get? h.enveloped.pdg, metaJson_policyGroups]
  have hmeta : ((Json.obj fields).getD "_pdg" .null).getD "mihomo" .null = m.toJson := by
    rw [getD_of_get? h.enveloped.pdg, metaJson_mihomo]
  rw [Schema.occupiedNames, outboundsOf_eq h.enveloped, outboundTags_of_named h.valid.named, hgroups,
    groupNames_of_fits h.valid.fits, mihomoKeys, mihomoKeys, hmeta]
  rfl

/-- A name that a document does not take. -/
theorem fresh_of_occupied (hne : new ≠ direct)
    (h : new ∉ tags.filter (· ≠ direct) ++ parts.map GroupPart.name ++ m.proxyProviders.keys ++
      m.ruleProviders.keys) :
    new ∉ tags ++ parts.map GroupPart.name ++ m.proxyProviders.keys ++ m.ruleProviders.keys := by
  simp only [List.mem_append, List.mem_filter, not_or, not_and, decide_not, Bool.not_eq_true',
    decide_eq_false_iff_not, not_not] at h ⊢
  exact ⟨⟨⟨fun htag => hne (h.1.1.1 htag), h.1.1.2⟩, h.1.2⟩, h.2⟩

/-- The document that `rebind_direct` puts together. -/
def reboundDocument (fields : Dict String Json) (outbounds groups : List Json) (m : MihomoMeta)
    (route : Dict String Json) (old new : String) : Json :=
  assembled fields (outbounds.map (retag new)) (groups.map (renamedGroup old new)) m
    (renamedRoute old new route)

/-- What `rebind_direct` does to a migrated document with another tag. -/
theorem rebindDirect_eq (h : Migrated U fields outbounds groups m route old tags parts)
    (hmigrate : Schema.migrate U model = .ok (.obj fields)) (htag : tagRe new = true)
    (hne : new ≠ old) :
    rebindDirect U model (.str new) = (do
      raiseIf (decide (new ∈ reservedTargets)) (.text "direct tag collides with a reserved target")
      raiseIf (decide (new ∈ occupiedNames (.obj fields) old))
        (.text "direct tag collides with an existing model name")
      validate U (reboundDocument fields outbounds groups m route old new)
      return reboundDocument fields outbounds groups m route old new) := by
  have hnew : tag (.str new) "direct tag" = .ok new := by rw [tag, if_pos htag]
  have houts : outboundsOf (.obj fields) = outbounds := outboundsOf_eq h.enveloped
  have hrefs := renameReferences_eq old new (outbounds.map (retag new)) h.enveloped h.valid
  rw [rebindDirect, hmigrate, ok_bind, h.direct, ok_bind, hnew, ok_bind, houts, hrefs]
  simp only [if_neg hne, ok_bind]
  rfl

/-- A tag that `rebind_direct` accepts, and what it returns. -/
theorem rebindDirect_cases {new : Json} (hU : NfcClosed U) (h : rebindDirect U model new = .ok result) :
    ∃ fields outbounds groups m route old tags parts, Schema.migrate U model = .ok (.obj fields) ∧
      Migrated U fields outbounds groups m route old tags parts ∧
      ∃ name, new = .str name ∧ tagRe name = true ∧
        (name = old ∧ result = .obj fields ∨
          name ≠ old ∧ name ∉ reservedTargets ∧
            name ∉ tags ++ parts.map GroupPart.name ++ m.proxyProviders.keys ++ m.ruleProviders.keys ∧
            result = reboundDocument fields outbounds groups m route old name ∧
            validate U result = .ok ()) := by
  obtain ⟨migrated, hmigrate, hrest⟩ := bind_eq_ok.mp h
  obtain ⟨fields, outbounds, groups, m, route, old, tags, parts, rfl, hm⟩ := migrate_parts hU hmigrate
  rw [hm.direct, ok_bind] at hrest
  obtain ⟨name, hname, hresult⟩ := bind_eq_ok.mp hrest
  obtain ⟨hvalue, htag⟩ := tag_cases hname
  clear hrest
  subst hvalue
  refine ⟨fields, outbounds, groups, m, route, old, tags, parts, hmigrate, hm, name, rfl, htag, ?_⟩
  by_cases hne : name = old
  · rw [if_pos hne] at hresult
    exact .inl ⟨hne, (pure_eq_ok.mp hresult).symm⟩
  · rw [rebindDirect_eq hm hmigrate htag hne, raiseIf_bind_eq_ok, raiseIf_bind_eq_ok,
      unit_bind_eq_ok, pure_eq_ok] at h
    obtain ⟨hreserved, hoccupied, hvalid, rfl⟩ := h
    rw [hm.occupiedNames] at hoccupied
    exact .inr ⟨hne, by simpa using hreserved, fresh_of_occupied hne (of_decide_eq_false hoccupied), rfl,
      hvalid⟩

/-- The document that was rebound, with its own parts. -/
theorem Migrated.rebound (h : Migrated U fields outbounds groups m route old tags parts)
    (hU : NfcClosed U) (hA : AsciiPlain U) (htag : tagRe new = true)
    (hvalid : validate U (reboundDocument fields outbounds groups m route old new) = .ok ()) :
    ∃ fields' direct' tags' parts', reboundDocument fields outbounds groups m route old new = .obj fields' ∧
      Migrated U fields' (outbounds.map (retag new)) (groups.map (renamedGroup old new)) m
        (renamedRoute old new route) direct' tags' parts' := by
  have hnormal := h.normal.renamed old hU (normalizeName_tag hA htag)
  obtain ⟨direct', tags', parts', hm⟩ := migrated_of_validated assembled_enveloped hnormal hvalid
  exact ⟨_, direct', tags', parts', rfl, hm⟩

/-- Every group of a migrated document lists its members. -/
theorem Migrated.listed (h : Migrated U fields outbounds groups m route direct tags parts) {group : Json}
    (hgroup : group ∈ groups) : ∃ xs, group.get? "proxies" = some (.arr xs) := by
  obtain ⟨part, -, hfit⟩ := exists_of_forall₂ h.valid.fits hgroup
  have hdict := hfit.dict
  cases group with
  | obj fields =>
      obtain ⟨-, proxies, -, -, -, hproxies, -⟩ :=
        group_normal (h.normal.groups _ hgroup).1 (h.normal.groups _ hgroup).2
      exact ⟨proxies, hproxies⟩
  | _ => simp [isDict] at hdict

/-! ### Rebinding back -/

theorem Valid.tags_nodup (hv : Valid U outbounds groups m route direct tags parts) : tags.Nodup :=
  (List.nodup_append.mp (List.nodup_append.mp (List.nodup_append.mp hv.namespaced).1).1).1

/-- Two outbounds with the same tag are the same. -/
theorem Valid.eq_of_tag (hv : Valid U outbounds groups m route direct tags parts) {o o' : Json}
    (ho : o ∈ outbounds) (ho' : o' ∈ outbounds) (h : o.get? "tag" = o'.get? "tag") : o = o' := by
  have hmap : outbounds.map (fun o => o.get? "tag") = tags.map (fun t => some (.str t)) := by
    have hnamed := hv.named
    clear hv ho ho' h
    induction hnamed with
    | nil => rfl
    | cons hname _ ih => rw [List.map_cons, List.map_cons, hname.tag, ih]
  have hnodup : (outbounds.map (fun o => o.get? "tag")).Nodup := by
    rw [hmap]
    refine hv.tags_nodup.map ?_
    intro s t hst
    simpa using hst
  exact List.inj_on_of_nodup_map hnodup ho ho' h

/-- The direct outbound is the one that has the direct tag. -/
theorem Valid.direct_iff (hv : Valid U outbounds groups m route direct tags parts) {o : Json}
    (ho : o ∈ outbounds) : hasType "direct" o = true ↔ o.get? "tag" = some (.str direct) := by
  constructor
  · intro hdirect
    obtain ⟨t, -, hname⟩ := exists_of_forall₂ hv.named ho
    have hmem : t ∈ directTags outbounds := by
      rw [directTags, outboundTags, List.mem_filterMap]
      exact ⟨o, List.mem_filter.mpr ⟨ho, hdirect⟩, by rw [hname.tag]; rfl⟩
    rw [hv.oneDirect, List.mem_singleton] at hmem
    rw [hname.tag, hmem]
  · intro htag
    have hmem : direct ∈ directTags outbounds := by simp [hv.oneDirect]
    rw [directTags, outboundTags, List.mem_filterMap] at hmem
    obtain ⟨d, hd, hdtag⟩ := hmem
    obtain ⟨hd, hdirect⟩ := List.mem_filter.mp hd
    obtain ⟨t, -, hname⟩ := exists_of_forall₂ hv.named hd
    have hsame : t = direct := by simpa [hname.tag, Json.str?] using hdtag
    rw [hv.eq_of_tag ho hd (by rw [htag, hname.tag, hsame])]
    exact hdirect

theorem get?_retag_type (o : Json) : (retag new o).get? "type" = o.get? "type" := by
  cases o with
  | obj fields =>
      by_cases hdirect : hasType "direct" (.obj fields) = true
      · have hkeep := Dict.get?_set_ne (show "tag" ≠ "type" by simp) fields (.str new)
        simpa [retag, hdirect, Json.get?] using hkeep
      · simp [retag, hdirect]
  | _ => rfl

theorem hasType_retag {t : String} (o : Json) : hasType t (retag new o) = hasType t o := by
  rw [hasType, hasType, get?_retag_type]

theorem get?_retag_tag (o : Json) :
    (retag new o).get? "tag" = if hasType "direct" o then some (.str new) else o.get? "tag" := by
  cases o with
  | obj fields =>
      by_cases hdirect : hasType "direct" (.obj fields) = true
      · simp [retag, hdirect, Json.get?]
      · simp [retag, hdirect]
  | _ => rfl

/-- Retagging back. -/
theorem retag_back (hv : Valid U outbounds groups m route old tags parts) {o : Json}
    (ho : o ∈ outbounds) : retag old (retag new o) = o := by
  by_cases hdirect : hasType "direct" o = true
  · have htag := (hv.direct_iff ho).mp hdirect
    cases o with
    | obj fields =>
        have hmid : retag new (.obj fields) = .obj (Dict.set fields "tag" (.str new)) := by
          simp only [retag, hdirect, if_true]
        have hdirect' : hasType "direct" (.obj (Dict.set fields "tag" (.str new))) = true := by
          rw [← hmid, hasType_retag]
          exact hdirect
        rw [hmid]
        simp only [retag, hdirect', if_true, Dict.set_set]
        rw [Dict.set_of_get? (show Dict.get? fields "tag" = some (.str old) from htag)]
    | _ => simp [hasType, Json.get?] at hdirect
  · rw [retag_of_ne hdirect, retag_of_ne hdirect]

/-- No reference names a tag that no outbound and no group has. -/
theorem Valid.not_member (hv : Valid U outbounds groups m route direct tags parts)
    (hnew : new ∉ tags ++ parts.map GroupPart.name) (hreserved : new ∉ reservedTargets)
    {part : GroupPart} (hpart : part ∈ parts) : new ∉ part.proxies := by
  intro hmem
  have hknown := (validateMembers_cases (hv.members part hpart)).1 new hmem
  rw [List.mem_append, not_or] at hnew
  simp only [List.mem_append, List.mem_singleton] at hknown
  rcases hknown with (htag | hgroup) | hreject
  · rw [← outboundTags_of_named hv.named] at hnew
    exact hnew.1 (outboundTags_filter htag)
  · exact hnew.2 hgroup
  · exact hreserved (by simp [hreject, reservedTargets])

theorem Valid.not_routable (hv : Valid U outbounds groups m route direct tags parts)
    (hnew : new ∉ tags ++ parts.map GroupPart.name) :
    new ∉ outboundTags (outbounds.filter isRoutable) ++ parts.map GroupPart.name := by
  rw [List.mem_append, not_or] at hnew ⊢
  refine ⟨fun htag => hnew.1 ?_, hnew.2⟩
  rw [← outboundTags_of_named hv.named]
  exact outboundTags_filter htag

/-- A group whose members do not have the new name. -/
theorem renamedGroup_back {group : Json} {part : GroupPart} (hfit : GroupFits U group part)
    (hlisted : ∃ xs, group.get? "proxies" = some (.arr xs)) (hnew : new ∉ part.proxies) :
    renamedGroup new old (renamedGroup old new group) = group := by
  have hproxies := hfit.proxies
  cases group with
  | obj fields =>
      obtain ⟨xs, hxs⟩ := hlisted
      have hget : Dict.get? fields "proxies" = some (.arr xs) := hxs
      have hmembers : xs = part.proxies.map Json.str := by
        rw [getD_obj hget] at hproxies
        exact Json.arr.inj hproxies
      have hback : xs.map (renamed new old ∘ renamed old new) = xs := by
        refine (List.map_congr_left fun x hx => ?_).trans (List.map_id xs)
        rw [hmembers] at hx
        obtain ⟨p, hp, rfl⟩ := List.mem_map.mp hx
        exact renamed_back fun h => hnew (Json.str.inj h ▸ hp)
      have hmid : Dict.get? (Dict.set fields "proxies" (.arr (xs.map (renamed old new)))) "proxies" =
          some (.arr (xs.map (renamed old new))) := Dict.get?_set_self _ _ _
      unfold renamedGroup
      simp only [getD_obj hget, getD_obj hmid, Json.entries, List.map_map, hback, Dict.set_set,
        Dict.set_of_get? hget]
  | _ => rfl

/-- A field that is renamed, next to one that is written. -/
theorem renameField_set {key key' : String} {w : Json} (hne : key ≠ key')
    (hkey : Dict.get? fields key = some w) (v : Json) :
    renameField old new key (Dict.set fields key' v) = Dict.set (renameField old new key fields) key' v := by
  unfold renameField
  rw [Dict.get?_set_ne (Ne.symm hne)]
  split
  · exact (Dict.set_comm hne hkey _ _).symm
  · rfl

theorem renamedRoute_back {routable : List String} (old : String)
    (hroute : validateRoute routable (.obj route) = .ok ()) (hnew : new ∉ routable) :
    renamedRoute new old (renamedRoute old new route) = route := by
  obtain ⟨⟨final, hfinal, hget⟩, rules, hrules, htargets⟩ := validateRoute_cases hroute
  have hfinal' : Dict.get? route "final" ≠ some (.str new) := by
    rw [hget]
    exact fun h => hnew (Json.str.inj (Option.some_inj.mp h) ▸ hfinal)
  have hback := renameField_back old hfinal'
  have hrule : ∀ rule ∈ rules, renameRule new old (renameRule old new rule) = rule := by
    intro rule hmem
    refine renameRule_back fun hout => ?_
    rcases (htargets rule hmem).2 _ hout with hnull | ⟨target, htarget, hsame⟩
    · cases hnull
    · exact hnew (Json.str.inj hsame ▸ htarget)
  cases hlist : Dict.get? route "rules" with
  | none =>
      have hmid : renamedRoute old new route = renameField old new "final" route := by
        simp only [renamedRoute, hlist]
      rw [hmid, renamedRoute, get?_renameField_ne (by simp), hlist]
      exact hback
  | some value =>
      have hvalue : value = .arr rules := by simpa [Json.getD, Json.get?, hlist] using hrules
      rw [hvalue] at hlist
      have hmid : renamedRoute old new route = Dict.set (renameField old new "final" route) "rules"
          (.arr (rules.map (renameRule old new))) := by
        simp only [renamedRoute, hlist]
      have hfinalMid : Dict.get? (renameField old new "final" route) "final" =
          some (renamed old new (.str final)) := by
        rw [get?_renameField, hget]
        rfl
      have hrulesBack : (rules.map (renameRule old new)).map (renameRule new old) = rules := by
        rw [List.map_map]
        exact (List.map_congr_left hrule).trans (List.map_id rules)
      rw [hmid]
      unfold renamedRoute
      rw [Dict.get?_set_self]
      simp only [hrulesBack]
      rw [renameField_set (by simp) hfinalMid, hback, Dict.set_set, Dict.set_of_get? hlist]

/-- The parts of a document, put into one that is made of its fields. -/
theorem assembled_assembled {fields' : Dict String Json} {outs gs : List Json} {m' : MihomoMeta}
    {route' : Dict String Json} (henv : Enveloped (.obj fields) outbounds groups m route)
    (h : assembled fields outs gs m' route' = .obj fields') :
    assembled fields' outbounds groups m route = .obj fields := by
  have houts : Dict.get? fields "outbounds" = some (.arr outbounds) := henv.outbounds
  have hpdg : Dict.get? fields "_pdg" = some (metaJson (.arr groups) m) := henv.pdg
  have hroute : Dict.get? fields "route" = some (.obj route) := henv.route
  have hfields : fields' = ((fields.set "outbounds" (.arr outs)).set "_pdg"
    (metaJson (.arr gs) m')).set "route" (.obj route') := (Json.obj.inj h).symm
  have hother : ∀ (d : Dict String Json) (key key' : String) (v w : Json), key' ≠ key →
      Dict.get? d key = some w → Dict.get? (Dict.set d key' v) key = some w := by
    intro d key key' v w hne hget
    rw [Dict.get?_set_ne hne, hget]
  -- each write is brought next to the one that undoes it
  rw [hfields, assembled]
  rw [Dict.set_comm (a := "route") (c := "outbounds") (by simp)
      (hother _ _ "_pdg" _ _ (by simp) (hother _ _ "outbounds" _ _ (by simp) hroute)),
    Dict.set_comm (a := "_pdg") (c := "outbounds") (by simp)
      (hother _ _ "outbounds" _ _ (by simp) hpdg),
    Dict.set_set, Dict.set_of_get? houts,
    Dict.set_comm (a := "route") (c := "_pdg") (by simp) (hother _ _ "_pdg" _ _ (by simp) hroute),
    Dict.set_set, Dict.set_set, Dict.set_of_get? hpdg, Dict.set_of_get? hroute]

theorem tagRe_of_directTag (h : directTag model = .ok direct) : tagRe direct = true := by
  obtain ⟨outs, -, h⟩ := bind_eq_ok.mp h
  split at h
  · exact (tag_cases h).2
  · simp at h

theorem groupNames_renamed : groupNames (groups.map (renamedGroup old new)) = groupNames groups := by
  rw [groupNames, groupNames, List.filterMap_map]
  refine List.filterMap_congr fun group _ => ?_
  cases group with
  | obj fields =>
      have hname : Dict.get? (Dict.set fields "proxies" (.arr (((Json.obj fields).getD "proxies"
          (.arr [])).entries.map (renamed old new)))) "name" = Dict.get? fields "name" :=
        Dict.get?_set_ne (by simp) _ _
      simp only [Function.comp, renamedGroup, Json.get?, hname]
  | _ => rfl

/-- The tag of a retagged outbound. -/
theorem tag_of_retagged (hv : Valid U outbounds groups m route old tags parts) {t : String}
    (h : t ∈ outboundTags (outbounds.map (retag new))) : t = new ∨ t ∈ tags ∧ t ≠ old := by
  rw [outboundTags, List.mem_filterMap] at h
  obtain ⟨_, hmem, htag⟩ := h
  obtain ⟨o, ho, rfl⟩ := List.mem_map.mp hmem
  rw [get?_retag_tag] at htag
  split at htag
  · exact .inl (by simpa [Json.str?] using htag.symm)
  · next hdirect =>
    refine .inr ⟨?_, ?_⟩
    · rw [← outboundTags_of_named hv.named, outboundTags, List.mem_filterMap]
      exact ⟨o, ho, htag⟩
    · rintro rfl
      obtain ⟨s, -, hname⟩ := exists_of_forall₂ hv.named ho
      have hs : s = t := by simpa [hname.tag, Json.str?] using htag
      exact hdirect ((hv.direct_iff ho).mpr (by rw [hname.tag, hs]))

/-- The direct tag of a document that was rebound. -/
theorem direct_of_rebound {direct' : String} (hdirect : directTags (outbounds.map (retag new)) = [direct']) :
    direct' = new := by
  have hmem : direct' ∈ directTags (outbounds.map (retag new)) := by simp [hdirect]
  rw [directTags, outboundTags, List.mem_filterMap] at hmem
  obtain ⟨_, hmem, htag⟩ := hmem
  obtain ⟨hmem, htype⟩ := List.mem_filter.mp hmem
  obtain ⟨o, ho, rfl⟩ := List.mem_map.mp hmem
  rw [hasType_retag] at htype
  rw [get?_retag_tag, if_pos htype] at htag
  simpa [Json.str?] using htag.symm

/-- The old tag is free in a document that was rebound. -/
theorem Migrated.old_free {fields' : Dict String Json} {direct' : String} {tags' : List String}
    {parts' : List GroupPart} (h : Migrated U fields outbounds groups m route old tags parts)
    (h' : Migrated U fields' (outbounds.map (retag new)) (groups.map (renamedGroup old new)) m
      (renamedRoute old new route) direct' tags' parts') (hne : new ≠ old) :
    old ∉ Schema.occupiedNames (.obj fields') direct' := by
  have hold : old ∈ tags := by
    have hmem : old ∈ directTags outbounds := by simp [h.valid.oneDirect]
    rw [← outboundTags_of_named h.valid.named]
    exact outboundTags_filter hmem
  have hnames : parts'.map GroupPart.name = parts.map GroupPart.name := by
    rw [← groupNames_of_fits h'.valid.fits, ← groupNames_of_fits h.valid.fits, groupNames_renamed]
  have hdisjoint := h.valid.namespaced
  rw [List.append_assoc, List.append_assoc, List.nodup_append] at hdisjoint
  rw [h'.occupiedNames, hnames, List.append_assoc, List.append_assoc, List.mem_append, not_or]
  refine ⟨fun hmem => ?_, fun hmem => hdisjoint.2.2 old hold old hmem rfl⟩
  have htag := List.mem_of_mem_filter hmem
  rw [← outboundTags_of_named h'.valid.named] at htag
  rcases tag_of_retagged h.valid htag with hnew | ⟨-, hnot⟩
  · exact hne hnew.symm
  · exact hnot rfl

/-- The document that is rebound back. -/
theorem Migrated.reboundDocument_back {fields' : Dict String Json}
    (h : Migrated U fields outbounds groups m route old tags parts)
    (hfields : reboundDocument fields outbounds groups m route old new = .obj fields')
    (hlisted : ∀ g ∈ groups, ∃ xs, g.get? "proxies" = some (.arr xs))
    (hfresh : new ∉ tags ++ parts.map GroupPart.name) (hreserved : new ∉ reservedTargets) :
    reboundDocument fields' (outbounds.map (retag new)) (groups.map (renamedGroup old new)) m
      (renamedRoute old new route) new old = .obj fields := by
  have houts : (outbounds.map (retag new)).map (retag old) = outbounds := by
    rw [List.map_map]
    exact (List.map_congr_left fun o ho => retag_back h.valid ho).trans (List.map_id outbounds)
  have hgroups : (groups.map (renamedGroup old new)).map (renamedGroup new old) = groups := by
    rw [List.map_map]
    refine (List.map_congr_left fun g hg => ?_).trans (List.map_id groups)
    obtain ⟨part, hpart, hfit⟩ := exists_of_forall₂ h.valid.fits hg
    exact renamedGroup_back hfit (hlisted g hg) (h.valid.not_member hfresh hreserved hpart)
  have hroute := renamedRoute_back old h.valid.routed (h.valid.not_routable hfresh)
  rw [reboundDocument, houts, hgroups, hroute]
  exact assembled_assembled h.enveloped hfields

/-- Rebinding to the old tag gives the migrated document back. -/
theorem rebindDirect_back {new : Json} (hU : NfcClosed U) (hA : AsciiPlain U) {migrated : Json}
    (hmigrate : Schema.migrate U model = .ok migrated) (hold : directTag migrated = .ok old)
    (h : rebindDirect U model new = .ok result) :
    rebindDirect U result (.str old) = .ok migrated := by
  obtain ⟨fields, outbounds, groups, m, route, direct, tags, parts, hparts, hm, name, rfl, htag,
    hcases⟩ := rebindDirect_cases hU h
  have hsame : migrated = .obj fields := Except.ok.inj (hmigrate.symm.trans hparts)
  rw [hsame] at hold ⊢
  have hdirect : direct = old := Except.ok.inj (hm.direct.symm.trans hold)
  subst hdirect
  have holdTag := tagRe_of_directTag hm.direct
  rcases hcases with ⟨-, rfl⟩ | ⟨hne, hreserved, hfresh, hresult, hvalid⟩
  · have htag' : tag (.str direct) "direct tag" = .ok direct := by rw [tag, if_pos holdTag]
    rw [rebindDirect, hm.migrate, ok_bind, hm.direct, ok_bind, htag', ok_bind, if_pos rfl]
    rfl
  · rw [hresult] at hvalid
    obtain ⟨fields', direct', tags', parts', hfields', hm'⟩ := hm.rebound hU hA htag hvalid
    have hdirect' : direct' = name := direct_of_rebound hm'.valid.oneDirect
    have hfree := hm.old_free hm' hne
    subst hdirect'
    have hback := hm.reboundDocument_back hfields' (fun g hg => hm.listed hg)
      (fun hmem => hfresh (by simp only [List.mem_append] at hmem ⊢; exact .inl (.inl hmem))) hreserved
    rw [hresult, hfields', rebindDirect_eq hm' hm'.migrate holdTag (Ne.symm hne), hback,
      raiseIf_bind_eq_ok, raiseIf_bind_eq_ok, unit_bind_eq_ok]
    exact ⟨by simpa using hm.valid.directFree, decide_eq_false hfree, hm.validated, rfl⟩

end ProxyGateway.Schema
