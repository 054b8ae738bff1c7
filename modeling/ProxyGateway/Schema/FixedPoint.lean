import ProxyGateway.Schema.Declared

set_option autoImplicit false

/-!
# ProxyGateway.Schema.FixedPoint

`migrate` leaves a migrated document as it is (`migrate_idempotent`), where composed texts
stay composed in all their parts (`NfcClosed`).

Normalizing is a fixed point for a name, then for a field with a reference, a list of them,
an outbound, a group, a rule; the two passes over the outbounds and over the groups write
different fields.
-/

namespace ProxyGateway.Schema

open Py Json

variable {U : Unicode} {model result value outbound group : Json} {name label label' key : String}
  {fields fields' : Dict String Json} {f : Json → Py ModelError Json}

/-- NFC is idempotent, and closed under taking parts of a text. -/
def NfcClosed (U : Unicode) : Prop := ∀ s t : String, t.toList <:+: (U.nfc s).toList → U.nfc t = t

/-! ### Names and references -/

/-- A normalized name is its own normal form. -/
theorem normalizeName_fixed (hU : NfcClosed U) (h : normalizeName U value label = .ok name) :
    normalizeName U (.str name) label' = .ok name := by
  cases value with
  | str s =>
      simp only [normalizeName, raiseIf_bind_eq_ok, pure_eq_ok] at h
      obtain ⟨hsafe, hlength, rfl⟩ := h
      have hpart := Text.stripBy_infix Text.isSpace (U.nfc s).toList
      have hnfc : U.nfc (String.ofList (Text.strip (U.nfc s).toList)) =
          String.ofList (Text.strip (U.nfc s).toList) := by
        refine hU s _ ?_
        rw [String.toList_ofList]
        exact hpart
      have hsafe' : (Text.strip (U.nfc s).toList).any (dangerousChar U) = false := by
        rw [List.any_eq_false] at hsafe ⊢
        exact fun c hc => hsafe c (hpart.subset hc)
      have hstrip : Text.strip (Text.strip (U.nfc s).toList) = Text.strip (U.nfc s).toList :=
        Text.stripBy_stripBy _ _
      simp only [normalizeName, raiseIf_bind_eq_ok, pure_eq_ok]
      rw [hnfc, String.toList_ofList, hstrip]
      exact ⟨hsafe', hlength, rfl⟩
  | _ => simp [normalizeName] at h

theorem reference_fixed (hU : NfcClosed U) (h : reference U label value = .ok result) :
    reference U label' result = .ok result := by
  cases value with
  | str s =>
      obtain ⟨name, hname, h⟩ := bind_eq_ok.mp h
      cases pure_eq_ok.mp h
      simp only [reference, normalizeName_fixed hU hname, ok_bind]
      rfl
  | _ => simp [reference] at h

/-- What a loop returns is left as it is, if every element is. -/
theorem mapM_fixed {g : Json → Py ModelError Json} {xs ys : List Json} (h : xs.mapM f = .ok ys)
    (hf : ∀ x ∈ xs, ∀ y, f x = .ok y → g y = .ok y) : ys.mapM g = .ok ys := by
  have hpairs := mapM_forall₂ h
  clear h
  induction hpairs with
  | nil => rfl
  | cons hx _ ih =>
      rw [List.mapM_cons, hf _ (by simp) _ hx, ok_bind, ih fun x hx => hf x (by simp [hx]), ok_bind]
      rfl

theorem mapM_id {xs : List Json} (h : ∀ x ∈ xs, f x = .ok x) : xs.mapM f = .ok xs := by
  refine mapM_of_forall₂ (List.forall₂_same.mpr h)

/-- Two loops one after the other, each turn of which leaves the final element as it is. -/
theorem twice_fixed {g : Json → Py ModelError Json} {xs ys zs : List Json} (hf : xs.mapM f = .ok ys)
    (hg : ys.mapM g = .ok zs)
    (hfix : ∀ x y z, f x = .ok y → g y = .ok z → f z = .ok z ∧ g z = .ok z) :
    ∀ z ∈ zs, f z = .ok z ∧ g z = .ok z := by
  have hpairs := mapM_forall₂ hf
  have hpairs' := mapM_forall₂ hg
  clear hf hg
  induction hpairs generalizing zs with
  | nil =>
      cases hpairs'
      simp
  | cons hxy _ ih =>
      cases hpairs' with
      | cons hyz hrest =>
          intro z hz
          rcases List.mem_cons.mp hz with rfl | hz
          · exact hfix _ _ _ hxy hyz
          · exact ih hrest z hz

/-! ### Fields -/

/-- A text in the field is a normal form. -/
def FieldFixed (U : Unicode) (field : Option Json) : Prop :=
  ∀ s label, field = some (.str s) → normalizeName U (.str s) label = .ok s

theorem referField_fixed (h : FieldFixed U (Dict.get? fields key)) :
    referField U key label fields = .ok fields := by
  unfold referField
  split
  · rename_i s hget
    rw [reference, h s label hget]
    exact congrArg Except.ok (Dict.set_of_get? hget)
  · rfl

theorem fieldFixed_of_refer (hU : NfcClosed U) (h : referField U key label fields = .ok fields') :
    FieldFixed U (Dict.get? fields' key) := by
  unfold referField at h
  split at h
  · obtain ⟨result, hresult, h⟩ := bind_eq_ok.mp h
    obtain ⟨name, hname, hresult⟩ := bind_eq_ok.mp hresult
    cases pure_eq_ok.mp hresult
    cases pure_eq_ok.mp h
    intro s label' hs
    rw [Dict.get?_set_self] at hs
    cases hs
    exact normalizeName_fixed hU hname
  · rename_i hno
    cases h
    exact fun s _ hs => absurd hs (hno s)

/-- A list in the field is left as it is by the loop; anything else can be looped over. -/
def ListFixed (f : Json → Py ModelError Json) (field : Option Json) : Prop :=
  match field.getD .null with
  | .arr items => items.mapM f = .ok items
  | value => loopable value = true

theorem referList_fixed (h : ListFixed f (Dict.get? fields key)) :
    referList key f fields = .ok fields := by
  unfold ListFixed at h
  cases hlist : isList ((Dict.get? fields key).getD .null) with
  | true =>
      unfold referList
      cases hget : Dict.get? fields key with
      | none => simp [hget, isList] at hlist
      | some value =>
          rw [hget] at h hlist
          cases value with
          | arr items =>
              simp only [Option.getD_some] at h ⊢
              rw [h, ok_bind, Dict.set_of_get? hget]
              rfl
          | _ => simp [isList] at hlist
  | false =>
      rw [referList_other hlist]
      have hloop : loopable ((Dict.get? fields key).getD .null) = true := by
        generalize (Dict.get? fields key).getD .null = value at *
        cases value <;> first | exact h | simp [isList] at hlist
      rw [loopable, Bool.or_eq_true, Bool.not_eq_true'] at hloop
      split
      · rename_i htrue
        rcases hloop with hfalse | hcontainer
        · rw [htrue] at hfalse
          cases hfalse
        · rw [items_of_container hcontainer]
          rfl
      · rfl

theorem listFixed_of_refer (h : referList key f fields = .ok fields')
    (hf : ∀ x y, f x = .ok y → f y = .ok y) : ListFixed f (Dict.get? fields' key) := by
  unfold ListFixed
  cases hlist : isList ((Dict.get? fields key).getD .null) with
  | true =>
      unfold referList at h
      cases hvalue : (Dict.get? fields key).getD .null with
      | arr items =>
          rw [hvalue] at h
          obtain ⟨new, hnew, h⟩ := bind_eq_ok.mp h
          rw [← pure_eq_ok.mp h, Dict.get?_set_self]
          exact mapM_fixed hnew fun x _ y => hf x y
      | _ => simp [hvalue, isList] at hlist
  | false =>
      rw [referList_other hlist] at h
      have heq : fields' = fields ∧ loopable ((Dict.get? fields key).getD .null) = true := by
        split at h
        · rename_i htrue
          obtain ⟨items, hitems, h⟩ := bind_eq_ok.mp h
          cases h
          exact ⟨rfl, by simp [loopable, clean_items_iff.mp (onlyFaults_of_ok hitems)]⟩
        · rename_i hfalse
          cases h
          exact ⟨rfl, by simp [loopable, hfalse]⟩
      rw [heq.1]
      have hloop := heq.2
      generalize (Dict.get? fields key).getD .null = value at *
      cases value <;> first | exact hloop | simp [isList] at hlist

/-! ### Outbounds -/

/-- The second pass over an outbound writes its detour and its members. -/
theorem referOutbound_cases (h : referOutbound U (.obj fields) = .ok result) :
    ∃ fields', result = .obj fields' ∧
      ∀ key, key ≠ "detour" → key ≠ "outbounds" → Dict.get? fields' key = Dict.get? fields key := by
  obtain ⟨mid, hmid, h⟩ := bind_eq_ok.mp h
  have hframe : ∀ key, key ≠ "detour" → Dict.get? mid key = Dict.get? fields key :=
    fun key hkey => get?_referField hmid (Ne.symm hkey)
  split at h
  · obtain ⟨members, -, h⟩ := bind_eq_ok.mp h
    refine ⟨_, (pure_eq_ok.mp h).symm, fun key hdetour houts => ?_⟩
    rw [Dict.get?_set_ne (Ne.symm houts), hframe key hdetour]
  · exact ⟨mid, (pure_eq_ok.mp h).symm, fun key hdetour _ => hframe key hdetour⟩

theorem referOutbound_fixed (hU : NfcClosed U) (h : referOutbound U outbound = .ok result) :
    referOutbound U result = .ok result := by
  cases outbound with
  | obj fields =>
      obtain ⟨mid, hmid, h⟩ := bind_eq_ok.mp h
      have hdetour := fieldFixed_of_refer hU hmid
      split at h
      · rename_i members hmembers
        obtain ⟨new, hnew, h⟩ := bind_eq_ok.mp h
        rw [← pure_eq_ok.mp h]
        have hsecond : new.mapM (reference U "outbound member") = .ok new :=
          mapM_fixed hnew fun x _ y hy => reference_fixed hU hy
        unfold referOutbound
        simp only
        rw [referField_fixed (by rwa [Dict.get?_set_ne (by simp)]), ok_bind, Dict.get?_set_self]
        simp only
        rw [hsecond, ok_bind, Dict.set_set]
        rfl
      · rename_i hno
        rw [← pure_eq_ok.mp h]
        unfold referOutbound
        simp only
        rw [referField_fixed hdetour, ok_bind]
        split
        · rename_i members hmembers
          exact absurd hmembers (hno members)
        · rfl
  | _ =>
      cases pure_eq_ok.mp h
      rfl

/-- Both passes leave an outbound as it is that went through both. -/
theorem outbound_fixed (hU : NfcClosed U) {named : Json} (hname : nameOutbound U outbound = .ok named)
    (hrefer : referOutbound U named = .ok result) :
    nameOutbound U result = .ok result ∧ referOutbound U result = .ok result := by
  refine ⟨?_, referOutbound_fixed hU hrefer⟩
  cases outbound with
  | obj fields =>
      obtain ⟨isProxy, hproxy, hname⟩ := bind_eq_ok.mp hname
      cases isProxy with
      | false =>
          cases pure_eq_ok.mp hname
          obtain ⟨fields', rfl, hframe⟩ := referOutbound_cases hrefer
          have htype : (Json.obj fields').getD "type" .null = (Json.obj fields).getD "type" .null := by
            simp [Json.getD, Json.get?, hframe]
          unfold nameOutbound
          simp only [htype, hproxy, ok_bind]
          rfl
      | true =>
          obtain ⟨name, hnormal, hname⟩ := bind_eq_ok.mp hname
          cases pure_eq_ok.mp hname
          obtain ⟨fields', rfl, hframe⟩ := referOutbound_cases hrefer
          have htype : (Json.obj fields').getD "type" .null = (Json.obj fields).getD "type" .null := by
            simp [Json.getD, Json.get?, hframe, Dict.get?_set_ne]
          have htag : Dict.get? fields' "tag" = some (.str name) := by
            rw [hframe _ (by simp) (by simp), Dict.get?_set_self]
          have htag' : (Json.obj fields').getD "tag" .null = .str name := by
            simp [Json.getD, Json.get?, htag]
          unfold nameOutbound
          simp only [htype, hproxy, ok_bind, htag', normalizeName_fixed hU hnormal,
            Dict.set_of_get? htag]
          rfl
  | _ =>
      cases pure_eq_ok.mp hname
      cases pure_eq_ok.mp hrefer
      rfl

/-! ### Groups -/

theorem membersOf_arr {xs : List Json} (h : Dict.get? fields key = some (.arr xs)) :
    membersOf (.obj fields) key = .ok xs := by
  unfold membersOf
  rw [show (Json.obj fields).getD key .null = .arr xs from by simp [Json.getD, Json.get?, h]]
  cases xs <;> rfl

/-- Both passes leave a group as it is that went through both. -/
theorem group_fixed (hU : NfcClosed U) {named : Json} (hname : nameGroup U group = .ok named)
    (hrefer : referGroup U named = .ok result) :
    nameGroup U result = .ok result ∧ referGroup U result = .ok result := by
  cases group with
  | obj fields =>
      obtain ⟨name, hnormal, hname⟩ := bind_eq_ok.mp hname
      cases pure_eq_ok.mp hname
      obtain ⟨members, -, hrefer⟩ := bind_eq_ok.mp hrefer
      obtain ⟨proxies, hproxies, hrefer⟩ := bind_eq_ok.mp hrefer
      obtain ⟨providers, -, hrefer⟩ := bind_eq_ok.mp hrefer
      obtain ⟨uses, huses, hrefer⟩ := bind_eq_ok.mp hrefer
      rw [← pure_eq_ok.mp hrefer]
      obtain ⟨final, hfinal⟩ : ∃ final, final = Dict.set (Dict.set (Dict.set fields "name" (.str name))
        "proxies" (.arr proxies)) "use" (.arr uses) := ⟨_, rfl⟩
      have hget : Dict.get? final "name" = some (.str name) := by
        rw [hfinal, Dict.get?_set_ne (by simp), Dict.get?_set_ne (by simp), Dict.get?_set_self]
      have hgetP : Dict.get? final "proxies" = some (.arr proxies) := by
        rw [hfinal, Dict.get?_set_ne (by simp), Dict.get?_set_self]
      have hgetU : Dict.get? final "use" = some (.arr uses) := by
        rw [hfinal, Dict.get?_set_self]
      rw [← hfinal]
      constructor
      · have hvalue : (Json.obj final).getD "name" .null = .str name := by
          simp [Json.getD, Json.get?, hget]
        unfold nameGroup
        simp only [hvalue, normalizeName_fixed hU hnormal, ok_bind, Dict.set_of_get? hget]
        rfl
      · have hproxies' : proxies.mapM (fun item =>
            if item = .str "REJECT" then .ok item else reference U "group member" item) =
              .ok proxies := by
          refine mapM_fixed hproxies fun x _ y hy => ?_
          split
          · rfl
          · split at hy
            · rename_i hno hyes
              cases hy
              exact absurd hyes hno
            · exact reference_fixed hU hy
        have huses' : uses.mapM (reference U "proxy provider name") = .ok uses :=
          mapM_fixed huses fun x _ y hy => reference_fixed hU hy
        unfold referGroup
        simp only [membersOf_arr hgetP, membersOf_arr hgetU, ok_bind, hproxies', huses',
          Dict.set_of_get? hgetP, Dict.set_of_get? hgetU]
        rfl
  | _ =>
      cases pure_eq_ok.mp hname
      cases pure_eq_ok.mp hrefer
      exact ⟨rfl, rfl⟩

/-! ### Route -/

/-- The references of a rule are normal forms. -/
def RuleFixed (U : Unicode) (rule : Json) : Prop :=
  ∀ fields, rule = .obj fields →
    FieldFixed U (Dict.get? fields "outbound") ∧ FieldFixed U (Dict.get? fields "rule_set")

theorem RuleFixed.refer (h : RuleFixed U value) : referRule U value = .ok value := by
  cases value with
  | obj fields =>
      obtain ⟨houtbound, hset⟩ := h fields rfl
      unfold referRule
      simp only [referField_fixed houtbound, referField_fixed hset, ok_bind]
      rfl
  | _ => rfl

theorem ruleFixed_of_refer (hU : NfcClosed U) (h : referRule U value = .ok result) :
    RuleFixed U result := by
  cases value with
  | obj fields =>
      obtain ⟨mid, hmid, h⟩ := bind_eq_ok.mp h
      obtain ⟨final, hfinal, h⟩ := bind_eq_ok.mp h
      rintro fields' rfl
      cases pure_eq_ok.mp h
      refine ⟨?_, fieldFixed_of_refer hU hfinal⟩
      rw [get?_referField hfinal (by simp)]
      exact fieldFixed_of_refer hU hmid
  | _ =>
      rintro fields' rfl
      cases pure_eq_ok.mp h

theorem referRuleSet_fixed (hU : NfcClosed U) (h : referRuleSet U value = .ok result) :
    referRuleSet U result = .ok result := by
  cases value with
  | obj fields =>
      obtain ⟨final, hfinal, h⟩ := bind_eq_ok.mp h
      rw [← pure_eq_ok.mp h]
      unfold referRuleSet
      simp only [referField_fixed (fieldFixed_of_refer hU hfinal), ok_bind]
      rfl
  | _ =>
      cases pure_eq_ok.mp h
      rfl

/-- What is in a list that a loop leaves as it is. -/
def EachFixed (P : Json → Prop) (field : Option Json) : Prop :=
  match field.getD .null with
  | .arr items => ∀ item ∈ items, P item
  | value => loopable value = true

theorem EachFixed.list {P : Json → Prop} {field : Option Json} (h : EachFixed P field)
    (hf : ∀ x, P x → f x = .ok x) : ListFixed f field := by
  unfold EachFixed at h
  unfold ListFixed
  cases hvalue : field.getD .null with
  | arr items =>
      rw [hvalue] at h
      exact mapM_id fun x hx => hf x (h x hx)
  | _ =>
      rw [hvalue] at h
      exact h

theorem eachFixed_of_list {P : Json → Prop} {field : Option Json} (h : ListFixed f field)
    (hf : ∀ x y, f x = .ok y → P y) : EachFixed P field := by
  unfold ListFixed at h
  unfold EachFixed
  cases hvalue : field.getD .null with
  | arr items =>
      rw [hvalue] at h
      exact fun x hx => hf x x (List.forall₂_same.mp (mapM_forall₂ h) x hx)
  | _ =>
      rw [hvalue] at h
      exact h

/-- The references of a route are normal forms. -/
structure RouteFixed (U : Unicode) (route : Dict String Json) : Prop where
  final : FieldFixed U (Dict.get? route "final")
  rules : EachFixed (RuleFixed U) (Dict.get? route "rules")
  ruleSets : ListFixed (referRuleSet U) (Dict.get? route "rule_set")

theorem RouteFixed.refer {route : Dict String Json} (h : RouteFixed U route) :
    referRoute U route = .ok route := by
  unfold referRoute
  rw [referField_fixed h.final, ok_bind, referList_fixed (h.rules.list fun _ => RuleFixed.refer),
    ok_bind, referList_fixed h.ruleSets]

theorem routeFixed_of_refer (hU : NfcClosed U) {route route' : Dict String Json}
    (h : referRoute U route = .ok route') : RouteFixed U route' := by
  obtain ⟨first, hfirst, h⟩ := bind_eq_ok.mp h
  obtain ⟨second, hsecond, hthird⟩ := bind_eq_ok.mp h
  constructor
  · rw [get?_referList hthird (by simp), get?_referList hsecond (by simp)]
    exact fieldFixed_of_refer hU hfirst
  · rw [get?_referList hthird (by simp)]
    have hlist : ListFixed (referRule U) (Dict.get? second "rules") :=
      listFixed_of_refer hsecond fun x y hxy => (ruleFixed_of_refer hU hxy).refer
    exact eachFixed_of_list hlist fun x y hxy => ruleFixed_of_refer hU hxy
  · exact listFixed_of_refer hthird fun x y => referRuleSet_fixed hU

/-! ### Providers -/

/-- The map that is rebuilt has distinct keys, which are normal forms. -/
def Rebuilt (U : Unicode) (providers : Dict String Json) : Prop :=
  providers.Uniq ∧ ∀ name ∈ providers.keys, ∀ label, normalizeName U (.str name) label = .ok name

theorem nameProviders_rebuilt (hU : NfcClosed U) {providers rebuilt : Dict String Json}
    (h : nameProviders U label providers = .ok rebuilt) : Rebuilt U rebuilt := by
  unfold nameProviders at h
  suffices hgen : ∀ (acc : Dict String Json), Rebuilt U acc → ∀ rebuilt,
      providers.foldlM (fun rebuilt entry => do
        let name ← normalizeName U (.str entry.1) label
        raiseIf (rebuilt.contains name) (.text (label ++ " collides after Unicode normalization"))
        return rebuilt.set name entry.2) acc = .ok rebuilt → Rebuilt U rebuilt from
    hgen [] ⟨List.nodup_nil, by simp⟩ rebuilt h
  clear h
  induction providers with
  | nil =>
      intro acc hacc rebuilt h
      rw [List.foldlM_nil] at h
      rw [← pure_eq_ok.mp h]
      exact hacc
  | cons entry rest ih =>
      intro acc hacc rebuilt h
      rw [List.foldlM_cons] at h
      obtain ⟨next, hnext, h⟩ := bind_eq_ok.mp h
      obtain ⟨name, hname, hnext⟩ := bind_eq_ok.mp hnext
      obtain ⟨-, hnext⟩ := raiseIf_bind_eq_ok.mp hnext
      refine ih next ?_ rebuilt h
      rw [← pure_eq_ok.mp hnext]
      refine ⟨hacc.1.set _ _, fun key hkey label' => ?_⟩
      rcases Dict.mem_keys_set.mp hkey with rfl | hold
      · exact normalizeName_fixed hU hname
      · exact hacc.2 key hold label'

theorem nameProviders_fixed {providers : Dict String Json} (h : Rebuilt U providers) :
    nameProviders U label providers = .ok providers := by
  unfold nameProviders
  suffices hgen : ∀ (acc rest : Dict String Json), acc ++ rest = providers →
      List.foldlM (fun (rebuilt : Dict String Json) (entry : String × Json) => do
        let name ← normalizeName U (.str entry.1) label
        raiseIf (rebuilt.contains name) (.text (label ++ " collides after Unicode normalization"))
        return rebuilt.set name entry.2) acc rest = .ok providers from hgen [] providers rfl
  intro acc rest
  induction rest generalizing acc with
  | nil =>
      intro heq
      rw [← heq, List.append_nil]
      rfl
  | cons entry rest ih =>
      intro heq
      obtain ⟨name, value⟩ := entry
      have hkeys : acc.keys ++ name :: Dict.keys rest = providers.keys := by
        rw [← heq]
        simp [Dict.keys]
      have hname : normalizeName U (.str name) label = .ok name :=
        h.2 name (by rw [← hkeys]; simp) label
      have hfresh : name ∉ acc.keys := by
        have hnodup := h.1
        rw [Dict.Uniq, ← hkeys] at hnodup
        exact fun hmem => (List.nodup_append.mp hnodup).2.2 name hmem name (by simp) rfl
      have hnone : acc.contains name = false := by
        rw [Dict.contains, Dict.get?_eq_none_iff.mpr hfresh]
        rfl
      rw [List.foldlM_cons]
      simp only [hname, ok_bind, hnone, raiseIf, Bool.false_eq_true, if_false, Dict.set_of_not_mem hfresh]
      exact ih (acc ++ [(name, value)]) (by rw [← heq]; simp)

/-! ### The whole document -/

/-- The parts of a document whose names and references are normal forms. -/
structure NormalNames (U : Unicode) (outbounds groups : List Json) (m : MihomoMeta)
    (route : Dict String Json) : Prop where
  outbounds : ∀ o ∈ outbounds, nameOutbound U o = .ok o ∧ referOutbound U o = .ok o
  groups : ∀ g ∈ groups, nameGroup U g = .ok g ∧ referGroup U g = .ok g
  proxyProviders : Rebuilt U m.proxyProviders
  ruleProviders : Rebuilt U m.ruleProviders
  route : RouteFixed U route

theorem NormalNames.canonicalized {outbounds groups : List Json} {m : MihomoMeta}
    {route : Dict String Json} (h : NormalNames U outbounds groups m route) :
    canonicalizeUserNames U outbounds groups m route = .ok (outbounds, groups, m, route) := by
  unfold canonicalizeUserNames
  simp only [mapM_id fun o ho => (h.outbounds o ho).1, mapM_id fun o ho => (h.outbounds o ho).2,
    mapM_id fun g hg => (h.groups g hg).1, mapM_id fun g hg => (h.groups g hg).2,
    nameProviders_fixed h.proxyProviders, nameProviders_fixed h.ruleProviders, h.route.refer, ok_bind]
  rfl

theorem normalNames_of_canonicalized (hU : NfcClosed U)
    {outbounds groups outbounds' groups' : List Json} {m m' : MihomoMeta}
    {route route' : Dict String Json}
    (h : canonicalizeUserNames U outbounds groups m route = .ok (outbounds', groups', m', route')) :
    NormalNames U outbounds' groups' m' route' := by
  obtain ⟨outs, houts, h⟩ := bind_eq_ok.mp h
  obtain ⟨gs, hgs, h⟩ := bind_eq_ok.mp h
  obtain ⟨proxies, hproxies, h⟩ := bind_eq_ok.mp h
  obtain ⟨rules, hrules, h⟩ := bind_eq_ok.mp h
  obtain ⟨outs', houts', h⟩ := bind_eq_ok.mp h
  obtain ⟨gs', hgs', h⟩ := bind_eq_ok.mp h
  obtain ⟨final, hfinal, h⟩ := bind_eq_ok.mp h
  cases pure_eq_ok.mp h
  exact {
    outbounds := twice_fixed houts houts' fun x y z hxy hyz => outbound_fixed hU hxy hyz
    groups := twice_fixed hgs hgs' fun x y z hxy hyz => group_fixed hU hxy hyz
    proxyProviders := nameProviders_rebuilt hU hproxies
    ruleProviders := nameProviders_rebuilt hU hrules
    route := routeFixed_of_refer hU hfinal }

/-- Putting parts into a document that has them changes nothing. -/
theorem assembled_self {outbounds groups : List Json} {m : MihomoMeta} {route : Dict String Json}
    (h : Enveloped (.obj fields) outbounds groups m route) :
    assembled fields outbounds groups m route = .obj fields := by
  unfold assembled
  rw [Dict.set_of_get? (show Dict.get? fields "outbounds" = _ from h.outbounds),
    Dict.set_of_get? (show Dict.get? fields "_pdg" = _ from h.pdg),
    Dict.set_of_get? (show Dict.get? fields "route" = _ from h.route)]

/-- `migrate` leaves a validated document of normal forms as it is. -/
theorem migrate_of_normal {outbounds groups : List Json} {m : MihomoMeta} {route : Dict String Json}
    (henv : Enveloped (.obj fields) outbounds groups m route)
    (hnormal : NormalNames U outbounds groups m route) (hvalid : validate U (.obj fields) = .ok ()) :
    migrate U (.obj fields) = .ok (.obj fields) := by
  obtain ⟨⟨direct, hdirect⟩, hany⟩ := validate_envelope hvalid henv.outbounds
  rw [migrate_eq, henv.declares.shape, canonicalized_declared henv.declares hdirect hany,
    hnormal.canonicalized]
  simp only [isDict, Bool.not_true, raiseIf, Bool.false_eq_true, if_false, ok_bind, pure_bind,
    assembled_self henv, hvalid]
  rfl

/-- `migrate` is idempotent, and what it returns is validated. -/
theorem migrate_idempotent (hU : NfcClosed U) (h : migrate U model = .ok result) :
    migrate U result = .ok result ∧ validate U result = .ok () := by
  obtain ⟨fields, route₀, -, -, outbounds₀, groups₀, m₀, outbounds, groups, m, route, hnames, rfl,
    hvalid⟩ := migrate_cases h
  have henv := @assembled_enveloped outbounds groups m fields route
  exact ⟨migrate_of_normal henv (normalNames_of_canonicalized hU hnames) hvalid, hvalid⟩

/-- A Unicode database of composed texts. -/
def plainUnicode : Unicode := ⟨id, fun _ => "Ll", fun _ => none⟩

/-- A document of schema 1 with a proxy that the final target names. -/
def plainDocument (name : String) : Json :=
  .obj [
    ("outbounds", .arr [
      .obj [("type", .str "direct"), ("tag", .str "JP")],
      .obj [("type", .str "shadowsocks"), ("tag", .str name)]]),
    ("route", .obj [("final", .str name)])]

/-- The same document in schema 3. -/
def canonicalDocument (name : String) : Json :=
  .obj [
    ("outbounds", .arr [
      .obj [("type", .str "direct"), ("tag", .str "JP")],
      .obj [("type", .str "shadowsocks"), ("tag", .str name)]]),
    ("route", .obj [("final", .str name)]),
    ("_pdg", metaJson (.arr []) ⟨[], [], [], []⟩)]

/-- A document whose names are ASCII, where NFC changes nothing. -/
theorem migrate_idempotent_proxy :
    migrate plainUnicode (plainDocument " tokyo ") = .ok (canonicalDocument "tokyo") ∧
      migrate plainUnicode (canonicalDocument "tokyo") = .ok (canonicalDocument "tokyo") ∧
      validate plainUnicode (canonicalDocument "tokyo") = .ok () :=
  have hplain : migrate plainUnicode (plainDocument " tokyo ") = .ok (canonicalDocument "tokyo") := by
    rfl
  ⟨hplain, migrate_idempotent (fun _ _ _ => rfl) hplain⟩

end ProxyGateway.Schema
