import ProxyGateway.Schema.Faults

set_option autoImplicit false

/-!
# ProxyGateway.Schema.Declared

Documents that declare schema 3. The envelope is checked in front of everything else
(`declares_of_shape`), and behind it `migrate` normalizes the names and validates, and does
nothing else (`migrate_declared`).
-/

namespace ProxyGateway.Schema

open Py Json

variable {U : Unicode} {model result : Json} {outbounds groups : List Json} {m : MihomoMeta}
  {fields route : Dict String Json}

/-- `_pdg` is an object with schema 3. -/
def DeclaresThree (model : Json) : Prop :=
  isDict (model.getD "_pdg" .null) = true ∧
    ((model.getD "_pdg" .null).getD "schema" .null).isNumber schemaVersion = true

/-- An object with exactly the four Mihomo fields. -/
structure MihomoFields (mihomo : Dict String Json) (m : MihomoMeta) : Prop where
  keys : sameKeys mihomo v3MihomoFields = true
  proxyProviders : Dict.get? mihomo "proxy-providers" = some (.obj m.proxyProviders)
  ruleProviders : Dict.get? mihomo "rule-providers" = some (.obj m.ruleProviders)
  advanced : Dict.get? mihomo "advanced" = some (.obj m.advanced)
  managedFiles : Dict.get? mihomo "managed-files" = some (.obj m.managedFiles)

/-- The metadata of schema 3, with the keys in any order. -/
structure MetaFields (pdg : Dict String Json) (groups : List Json) (m : MihomoMeta) : Prop where
  keys : sameKeys pdg v3MetaFields = true
  schema : ((Json.obj pdg).getD "schema" .null).isNumber schemaVersion = true
  groups : Dict.get? pdg "policy-groups" = some (.arr groups)
  mihomo : ∃ mihomo, Dict.get? pdg "mihomo" = some (.obj mihomo) ∧ MihomoFields mihomo m

/-- A document that declares schema 3, with its parts. -/
structure Declares (fields : Dict String Json) (outbounds groups : List Json) (m : MihomoMeta)
    (route : Dict String Json) : Prop where
  outbounds : Dict.get? fields "outbounds" = some (.arr outbounds)
  route : Dict.get? fields "route" = some (.obj route)
  pdg : ∃ pdg, Dict.get? fields "_pdg" = some (.obj pdg) ∧ MetaFields pdg groups m

theorem getD_obj {key : String} {v d : Json} (h : Dict.get? fields key = some v) :
    (Json.obj fields).getD key d = v := by
  simp [Json.getD, Json.get?, h]

theorem metaFields_metaJson :
    ∃ pdg, metaJson (.arr groups) m = .obj pdg ∧ MetaFields pdg groups m := by
  refine ⟨_, rfl, ?_⟩
  exact {
    keys := by simp [sameKeys, v3MetaFields, Dict.keys]
    schema := by simp [Json.getD, Json.get?, Json.isNumber, Json.number?]
    groups := by simp [Dict.get?_cons]
    mihomo := by
      refine ⟨[("proxy-providers", .obj m.proxyProviders), ("rule-providers", .obj m.ruleProviders),
        ("advanced", .obj m.advanced), ("managed-files", .obj m.managedFiles)], rfl, ?_⟩
      exact {
        keys := by simp [sameKeys, v3MihomoFields, Dict.keys]
        proxyProviders := by simp
        ruleProviders := by simp [Dict.get?_cons]
        advanced := by simp [Dict.get?_cons]
        managedFiles := by simp [Dict.get?_cons] } }

theorem Enveloped.declares (he : Enveloped (.obj fields) outbounds groups m route) :
    Declares fields outbounds groups m route := by
  obtain ⟨pdg, hpdg, hmeta⟩ := @metaFields_metaJson groups m
  exact ⟨he.outbounds, he.route, pdg, by rw [← hpdg]; exact he.pdg, hmeta⟩

theorem sameKeys_subset {names : List String} (h : sameKeys fields names = true) :
    ∀ key ∈ Dict.keys fields, key ∈ names := by
  simp only [sameKeys, Bool.and_eq_true, List.all_eq_true, decide_eq_true_eq] at h
  exact h.1

/-- The check of the envelope, on a document with these parts. -/
theorem Declares.shape (h : Declares fields outbounds groups m route) :
    validateDeclaredSchemaShape (.obj fields) = .ok () := by
  obtain ⟨pdg, hpdg, hmeta⟩ := h.pdg
  obtain ⟨mihomo, hmihomo, hfields⟩ := hmeta.mihomo
  have hdicts : v3MihomoFields.any (fun key => !isDict ((Json.obj mihomo).getD key .null)) = false := by
    simp [v3MihomoFields, getD_obj hfields.proxyProviders, getD_obj hfields.ruleProviders,
      getD_obj hfields.advanced, getD_obj hfields.managedFiles, isDict]
  have houter : (!sameKeys pdg v3MetaFields || !isList ((Json.obj pdg).getD "policy-groups" .null)) =
      false := by
    rw [hmeta.keys, getD_obj hmeta.groups]
    rfl
  have hinner : (!isDict (.obj mihomo) || !sameKeys mihomo v3MihomoFields ||
      v3MihomoFields.any (fun key => !isDict ((Json.obj mihomo).getD key .null))) = false := by
    rw [hdicts, hfields.keys]
    rfl
  rw [validateDeclaredSchemaShape, getD_obj hpdg]
  simp only [hmeta.schema, Bool.not_true, Bool.false_eq_true, if_false, houter, raiseIf, ok_bind,
    getD_obj hmihomo, Json.fields?, Option.getD_some, hinner]

theorem declaredSchema_of_number {pdg : Json}
    (h : (pdg.getD "schema" .null).isNumber schemaVersion = true) : declaredSchema pdg = .ok 3 := by
  have hvalue : pdg.getD "schema" (.int 1) = pdg.getD "schema" .null := by
    cases hget : pdg.get? "schema" with
    | none => simp [Json.getD, hget, Json.isNumber, Json.number?] at h
    | some v => simp [Json.getD, hget]
  have hnumber : (pdg.getD "schema" .null).number? = some ((3 : Int) : Rat) := of_decide_eq_true h
  have hhash : (pdg.getD "schema" .null).hashable = true := by
    cases hv : pdg.getD "schema" .null <;> simp [hv, Json.number?] at hnumber <;> rfl
  unfold declaredSchema
  simp only [hvalue, hhash, Bool.not_true, Bool.false_eq_true, if_false]
  have hfind : [1, 2, 3].find? (pdg.getD "schema" .null).isNumber = some 3 := by
    simp only [Json.isNumber, hnumber, List.find?]
    rfl
  rw [hfind]
  rfl

theorem truthy_of_get? {key : String} {v : Json} (h : Dict.get? fields key = some v) :
    (Json.obj fields).truthy = true := by
  cases fields with
  | nil => simp at h
  | cons p rest => rfl

/-- Behind the check of the envelope the names are normalized, if no outbound is a legacy
group. -/
theorem canonicalized_declared {direct : String} (h : Declares fields outbounds groups m route)
    (hdirect : directTag (.obj fields) = .ok direct) (hgroup : outbounds.anyM groupTest = .ok false) :
    canonicalized U (.obj fields) = (do
      let (outbounds, groups, m, route) ← canonicalizeUserNames U outbounds groups m route
      return assembled fields outbounds groups m route) := by
  obtain ⟨pdg, hpdg, hmeta⟩ := h.pdg
  obtain ⟨mihomo, hmihomo, hfields⟩ := hmeta.mihomo
  have hextra : extraKeys mihomo (v3MihomoFields ++ ["proxy-groups"]) = false := by
    simp only [extraKeys, List.any_eq_false, decide_eq_true_eq, not_not]
    exact fun key hkey => List.mem_append_left _ (sameKeys_subset hfields.keys key hkey)
  have hfield : ∀ key (v : Dict String Json), Dict.get? mihomo key = some (.obj v) →
      mihomoField (.obj mihomo) key = .ok v := by
    intro key v hget
    rw [mihomoField, getD_obj hget]
  have hgroups : groupsOf U (.obj fields) (.obj pdg) (.obj mihomo) outbounds 3 =
      .ok (outbounds, groups) := by
    unfold groupsOf
    simp only [if_true]
    have hany : outbounds.anyM (fun item => if isDict item = true then
        (item.getD "type" .null).within (ε := ModelError) groupOutboundTypes else .ok false) =
          .ok false := hgroup
    rw [hany, ok_bind, getD_obj hmeta.groups]
    rfl
  unfold canonicalized
  simp only [getD_obj h.outbounds, getD_obj h.route, hdirect, ok_bind, getD_obj hpdg]
  have hor : orEmpty (.obj pdg) = .obj pdg := by
    rw [orEmpty, if_pos (truthy_of_get? hmihomo)]
  have hor' : orEmpty (.obj mihomo) = .obj mihomo := by
    rw [orEmpty, if_pos (truthy_of_get? hfields.advanced)]
  simp only [hor, isDict, Bool.not_true, raiseIf, Bool.false_eq_true, if_false, ok_bind,
    declaredSchema_of_number hmeta.schema, getD_obj hmihomo, hor', Json.fields?, Option.getD_some,
    hextra, hgroups, hfield _ _ hfields.proxyProviders, hfield _ _ hfields.ruleProviders,
    hfield _ _ hfields.advanced, hfield _ _ hfields.managedFiles]
  rfl

theorem deepcopy_eq {S : Stack} {value copy : Json} (h : deepcopy S value = .ok copy) :
    copy = value := by
  unfold deepcopy at h
  split at h
  · exact (Except.ok.inj h).symm
  · simp at h

/-- The parts of a document that declares schema 3, behind the check of its envelope. -/
theorem declares_of_shape (hthree : DeclaresThree (.obj fields))
    (hshape : validateDeclaredSchemaShape (.obj fields) = .ok ())
    (houts : (Json.obj fields).getD "outbounds" .null = .arr outbounds)
    (hroute : (Json.obj fields).getD "route" .null = .obj route) :
    ∃ groups m, Declares fields outbounds groups m route := by
  obtain ⟨hdict, hnumber⟩ := hthree
  cases hpdg : (Json.obj fields).getD "_pdg" .null with
  | obj pdg =>
      rw [hpdg] at hnumber
      rw [validateDeclaredSchemaShape, hpdg] at hshape
      simp only [hnumber, Bool.not_true, Bool.false_eq_true, if_false] at hshape
      obtain ⟨houter, hshape⟩ := raiseIf_bind_eq_ok.mp hshape
      rw [Bool.or_eq_false_iff, Bool.not_eq_false', Bool.not_eq_false'] at houter
      have hinner := raiseIf_eq_ok.mp hshape
      rw [Bool.or_eq_false_iff, Bool.or_eq_false_iff, Bool.not_eq_false', Bool.not_eq_false'] at hinner
      obtain ⟨⟨hmihomo, hkeys⟩, hdicts⟩ := hinner
      cases hlist : (Json.obj pdg).getD "policy-groups" .null with
      | arr groups =>
          cases hfields : (Json.obj pdg).getD "mihomo" .null with
          | obj mihomo =>
              rw [hfields] at hkeys hdicts
              have hobj : ∀ key ∈ v3MihomoFields, ∃ v, Dict.get? mihomo key = some (.obj v) := by
                intro key hkey
                have hv := List.any_eq_false.mp hdicts key hkey
                rw [Bool.not_eq_true', Bool.not_eq_false] at hv
                cases hvalue : (Json.obj mihomo).getD key .null with
                | obj v => exact ⟨v, get?_of_getD hvalue (by simp)⟩
                | _ => simp [hvalue, isDict] at hv
              obtain ⟨proxies, hproxies⟩ := hobj "proxy-providers" (by simp [v3MihomoFields])
              obtain ⟨rules, hrules⟩ := hobj "rule-providers" (by simp [v3MihomoFields])
              obtain ⟨advanced, hadvanced⟩ := hobj "advanced" (by simp [v3MihomoFields])
              obtain ⟨files, hfiles⟩ := hobj "managed-files" (by simp [v3MihomoFields])
              refine ⟨groups, ⟨proxies, rules, advanced, files⟩, get?_of_getD houts (by simp),
                get?_of_getD hroute (by simp), pdg, get?_of_getD hpdg (by simp), houter.1, hnumber,
                get?_of_getD hlist (by simp), mihomo, get?_of_getD hfields (by simp), ?_⟩
              exact ⟨hkeys, hproxies, hrules, hadvanced, hfiles⟩
          | _ => simp [hfields, isDict] at hmihomo
      | _ => simp [hlist, isList] at houter
  | _ => simp [hpdg, isDict] at hdict

/-- In front of the names `migrate` looks for the direct outbound and for legacy groups. -/
theorem canonicalized_declared_front (h : Declares fields outbounds groups m route)
    (hresult : canonicalized U (.obj fields) = .ok result) :
    (∃ direct, directTag (.obj fields) = .ok direct) ∧ outbounds.anyM groupTest = .ok false := by
  obtain ⟨pdg, hpdg, hmeta⟩ := h.pdg
  obtain ⟨mihomo, hmihomo, hfields⟩ := hmeta.mihomo
  have hor : orEmpty (.obj pdg) = .obj pdg := by
    rw [orEmpty, if_pos (truthy_of_get? hmihomo)]
  unfold canonicalized at hresult
  simp only [getD_obj h.outbounds, getD_obj h.route] at hresult
  obtain ⟨direct, hdirect, hresult⟩ := bind_eq_ok.mp hresult
  refine ⟨⟨direct, hdirect⟩, ?_⟩
  simp only [getD_obj hpdg, hor, isDict, Bool.not_true, raiseIf, Bool.false_eq_true, if_false, ok_bind,
    declaredSchema_of_number hmeta.schema] at hresult
  obtain ⟨-, -, hresult⟩ := bind_eq_ok.mp hresult
  obtain ⟨-, -, hresult⟩ := bind_eq_ok.mp hresult
  obtain ⟨parts, hparts, -⟩ := bind_eq_ok.mp hresult
  obtain ⟨isGroup, hany, hparts⟩ := bind_eq_ok.mp (show (outbounds.anyM groupTest >>= _) = _ from hparts)
  rw [(raiseIf_bind_eq_ok.mp hparts).1] at hany
  exact hany

/-- What `migrate` returns for a document that declares schema 3: the names are normalized, and
the result is validated. -/
theorem migrate_declared {S : Stack} (hthree : DeclaresThree model)
    (h : migrateOn S U model = .ok result) :
    ∃ fields outbounds groups m route outbounds' groups' m' route',
      model = .obj fields ∧ Declares fields outbounds groups m route ∧
      canonicalizeUserNames U outbounds groups m route = .ok (outbounds', groups', m', route') ∧
      result = assembled fields outbounds' groups' m' route' ∧ validate U result = .ok () := by
  cases model with
  | obj fields =>
      obtain ⟨-, h⟩ := raiseIf_bind_eq_ok.mp h
      obtain ⟨hshape, h⟩ := unit_bind_eq_ok.mp h
      obtain ⟨copy, hcopy, h⟩ := bind_eq_ok.mp h
      obtain ⟨canonical, hcanonical, h⟩ := bind_eq_ok.mp h
      obtain ⟨hvalid, h⟩ := unit_bind_eq_ok.mp h
      cases pure_eq_ok.mp h
      obtain rfl : copy = .obj fields := deepcopy_eq hcopy
      obtain ⟨outbounds, route, houts, hroute⟩ : ∃ outbounds route,
          (Json.obj fields).getD "outbounds" .null = .arr outbounds ∧
            (Json.obj fields).getD "route" .null = .obj route := by
        unfold canonicalized at hcanonical
        simp only at hcanonical
        split at hcanonical
        · split at hcanonical
          · rename_i outbounds houts _ route hroute
            exact ⟨outbounds, route, houts, hroute⟩
          · simp at hcanonical
        · simp at hcanonical
      obtain ⟨groups, m, hdeclares⟩ := declares_of_shape hthree hshape houts hroute
      obtain ⟨⟨direct, hdirect⟩, hany⟩ := canonicalized_declared_front hdeclares hcanonical
      rw [canonicalized_declared hdeclares hdirect hany] at hcanonical
      obtain ⟨⟨outbounds', groups', m', route'⟩, hnames, hcanonical⟩ := bind_eq_ok.mp hcanonical
      exact ⟨fields, outbounds, groups, m, route, outbounds', groups', m', route', rfl, hdeclares,
        hnames, (pure_eq_ok.mp hcanonical).symm, validate_of_validateOn hvalid⟩
  | _ =>
      obtain ⟨hdict, -⟩ := raiseIf_bind_eq_ok.mp h
      simp [isDict] at hdict

/-! ### What `validate` says of the envelope -/

theorem groupTest_of_validated {U : Unicode} {outbound : Json} {seen seen' : List String × List String}
    (h : validateOutbound U seen outbound = .ok seen') : groupTest outbound = .ok false := by
  obtain ⟨hdict, h⟩ := raiseIf_bind_eq_ok.mp h
  obtain ⟨isProxy, -, h⟩ := bind_eq_ok.mp h
  obtain ⟨name, -, h⟩ := bind_eq_ok.mp h
  obtain ⟨-, h⟩ := raiseIf_bind_eq_ok.mp h
  obtain ⟨isGroup, hgroup, h⟩ := bind_eq_ok.mp h
  obtain ⟨rfl, -⟩ := raiseIf_bind_eq_ok.mp h
  rw [Bool.not_eq_false'] at hdict
  rw [groupTest, if_pos hdict]
  exact hgroup

theorem anyGroup_of_validated {U : Unicode} {seen seen' : List String × List String}
    (h : outbounds.foldlM (validateOutbound U) seen = .ok seen') :
    outbounds.anyM groupTest = .ok false := by
  induction outbounds generalizing seen with
  | nil => rfl
  | cons o outbounds ih =>
      rw [List.foldlM_cons] at h
      obtain ⟨next, hnext, h⟩ := bind_eq_ok.mp h
      rw [List.anyM, groupTest_of_validated hnext, ok_bind]
      exact ih h

/-- A validated document has one direct outbound and no legacy group. -/
theorem validate_envelope (h : validate U (.obj fields) = .ok ())
    (houts : Dict.get? fields "outbounds" = some (.arr outbounds)) :
    (∃ direct, directTag (.obj fields) = .ok direct) ∧ outbounds.anyM groupTest = .ok false := by
  obtain ⟨names, hnames, -⟩ := bind_eq_ok.mp h
  rw [validateNames] at hnames
  obtain ⟨⟨outs, groups, providers, rules⟩, henv, hnames⟩ := bind_eq_ok.mp hnames
  obtain ⟨seen, hseen, -⟩ := bind_eq_ok.mp hnames
  rw [envelope, getD_obj houts] at henv
  simp only at henv
  obtain ⟨direct, hdirect, henv⟩ := bind_eq_ok.mp henv
  refine ⟨⟨direct, hdirect⟩, ?_⟩
  have heq : outs = outbounds := by
    obtain ⟨-, henv⟩ := raiseIf_bind_eq_ok.mp henv
    obtain ⟨-, henv⟩ := raiseIf_bind_eq_ok.mp henv
    obtain ⟨-, henv⟩ := raiseIf_bind_eq_ok.mp henv
    split at henv
    · cases pure_eq_ok.mp henv
      rfl
    · simp [raise] at henv
  rw [← heq]
  exact anyGroup_of_validated hseen

end ProxyGateway.Schema
