import ProxyGateway.Schema.Preserve

set_option autoImplicit false

/-!
# ProxyGateway.Schema.Rewritten

What `migrate` collects from a document (`Source`), and what it collects from the document that
`rebind_direct_preserve_schema` writes: the same parts, renamed (`Source.preserved`).
-/

namespace ProxyGateway.Schema

open Py Json

variable {U : Unicode} {old new direct : String} {fields route : Dict String Json}
  {outbounds kept groups : List Json} {model result : Json} {m : MihomoMeta} {schema : Int}

/-! ### What `migrate` reads -/

/-- The parts that `migrate` collects from a document, before it normalizes the names. -/
structure Source (U : Unicode) (fields : Dict String Json) (outbounds : List Json)
    (route : Dict String Json) (schema : Int) (kept groups : List Json) (m : MihomoMeta)
    (direct : String) : Prop where
  shape : validateDeclaredSchemaShape (.obj fields) = .ok ()
  outboundsAt : Dict.get? fields "outbounds" = some (.arr outbounds)
  routeAt : Dict.get? fields "route" = some (.obj route)
  directAt : directTag (.obj fields) = .ok direct
  pdgDict : isDict (pdgOf (.obj fields)) = true
  schemaAt : declaredSchema (pdgOf (.obj fields)) = .ok schema
  mihomoDict : isDict (mihomoOf (.obj fields)) = true
  keys : extraKeys ((mihomoOf (.obj fields)).fields?.getD []) (v3MihomoFields ++ ["proxy-groups"]) = false
  groupsAt : groupsOf U (.obj fields) (pdgOf (.obj fields)) (mihomoOf (.obj fields)) outbounds schema =
    .ok (kept, groups)
  proxyProviders : mihomoField (mihomoOf (.obj fields)) "proxy-providers" = .ok m.proxyProviders
  ruleProviders : mihomoField (mihomoOf (.obj fields)) "rule-providers" = .ok m.ruleProviders
  advanced : mihomoField (mihomoOf (.obj fields)) "advanced" = .ok m.advanced
  managedFiles : mihomoField (mihomoOf (.obj fields)) "managed-files" = .ok m.managedFiles

/-- What `migrate` makes of the parts. -/
theorem Source.migrate (h : Source U fields outbounds route schema kept groups m direct) :
    migrate U (.obj fields) = (do
      let (outbounds, groups, m, route) ← canonicalizeUserNames U kept groups m route
      validate U (assembled fields outbounds groups m route)
      return assembled fields outbounds groups m route) := by
  have houts : (Json.obj fields).getD "outbounds" .null = .arr outbounds := getD_obj h.outboundsAt
  have hroute : (Json.obj fields).getD "route" .null = .obj route := getD_obj h.routeAt
  have hpdg : orEmpty ((Json.obj fields).getD "_pdg" .null) = pdgOf (.obj fields) := rfl
  have hmihomo : orEmpty ((pdgOf (.obj fields)).getD "mihomo" .null) = mihomoOf (.obj fields) := rfl
  unfold Schema.migrate
  simp only [houts, hroute, hpdg, hmihomo, h.shape, h.directAt, h.pdgDict, h.schemaAt, h.mihomoDict,
    h.keys, h.groupsAt, h.proxyProviders, h.ruleProviders, h.advanced, h.managedFiles, ok_bind, raiseIf,
    Bool.not_true, Bool.false_eq_true, if_false]
  rfl

theorem source_of_migrate (h : migrate U model = .ok result) :
    ∃ fields outbounds route schema kept groups m direct, model = .obj fields ∧
      Source U fields outbounds route schema kept groups m direct := by
  cases model with
  | obj fields =>
      unfold migrate at h
      simp only at h
      obtain ⟨hshape, h⟩ := unit_bind_eq_ok.mp h
      split at h
      · rename_i outbounds houts
        split at h
        · rename_i route hroute
          obtain ⟨direct, hdirect, h⟩ := bind_eq_ok.mp h
          obtain ⟨hpdg, h⟩ := raiseIf_bind_eq_ok.mp h
          obtain ⟨schema, hschema, h⟩ := bind_eq_ok.mp h
          obtain ⟨hmihomo, h⟩ := raiseIf_bind_eq_ok.mp h
          obtain ⟨hkeys, h⟩ := raiseIf_bind_eq_ok.mp h
          obtain ⟨⟨kept, groups⟩, hgroups, h⟩ := bind_eq_ok.mp h
          obtain ⟨proxyProviders, hproxies, h⟩ := bind_eq_ok.mp h
          obtain ⟨ruleProviders, hrules, h⟩ := bind_eq_ok.mp h
          obtain ⟨advanced, hadvanced, h⟩ := bind_eq_ok.mp h
          obtain ⟨managedFiles, hfiles, h⟩ := bind_eq_ok.mp h
          exact ⟨fields, outbounds, route, schema, kept, groups,
            ⟨proxyProviders, ruleProviders, advanced, managedFiles⟩, direct, rfl, {
              shape := hshape, outboundsAt := get?_of_getD houts (by simp)
              routeAt := get?_of_getD hroute (by simp), directAt := hdirect
              pdgDict := by simpa [pdgOf] using hpdg, schemaAt := hschema
              mihomoDict := by simpa [pdgOf, mihomoOf] using hmihomo
              keys := hkeys, groupsAt := hgroups, proxyProviders := hproxies, ruleProviders := hrules
              advanced := hadvanced, managedFiles := hfiles }⟩
        · simp at h
      · simp at h
  | _ => simp [migrate] at h

/-! ### The rewritten document -/

/-- Replace an object in a field. -/
def onObject (key : String) (g : Dict String Json → Dict String Json) (fields : Dict String Json) :
    Dict String Json :=
  match Dict.get? fields key with
  | some (.obj value) => Dict.set fields key (.obj (g value))
  | _ => fields

def preservedMihomo (old new : String) : Dict String Json → Dict String Json :=
  canonicalItems "proxy-groups" (renamedGroup old new)

def preservedMeta (old new : String) (pdg : Dict String Json) : Dict String Json :=
  onObject "mihomo" (preservedMihomo old new)
    (canonicalItems "policy-groups" (renamedGroup old new) pdg)

/-- The fields of the rewritten document. -/
def preservedFields (old new : String) (outbounds : List Json) (fields : Dict String Json) :
    Dict String Json :=
  onObject "route" (renamedRoute old new) (onObject "_pdg" (preservedMeta old new)
    (Dict.set fields "outbounds" (.arr (outbounds.map (preservedOutbound old new)))))

variable {key key' : String} {g : Dict String Json → Dict String Json} {f : Json → Json}

theorem getD_congr {d e : Dict String Json} {v : Json} (h : Dict.get? d key = Dict.get? e key) :
    (Json.obj d).getD key v = (Json.obj e).getD key v :=
  congrArg (fun found => found.getD v) h

theorem get?_onObject_ne (h : key ≠ key') : Dict.get? (onObject key g fields) key' = Dict.get? fields key' := by
  unfold onObject
  split
  · rw [Dict.get?_set_ne h]
  · rfl

theorem get?_onObject {value : Dict String Json} (h : Dict.get? fields key = some (.obj value)) :
    Dict.get? (onObject key g fields) key = some (.obj (g value)) := by
  simp only [onObject, h, Dict.get?_set_self]

theorem onObject_of_not_dict (h : ∀ value, Dict.get? fields key ≠ some (.obj value)) :
    onObject key g fields = fields := by
  unfold onObject
  split
  · next value hget => exact absurd hget (h value)
  · rfl

theorem getD_canonicalItems {items : List Json} {d : Json} (h : (Json.obj fields).getD key d = .arr items)
    (hd : d = .null ∨ d = .arr []) :
    (Json.obj (canonicalItems key f fields)).getD key d = .arr (items.map f) := by
  cases hget : Dict.get? fields key with
  | none =>
      have hitems : d = .arr items := by simpa [getD, get?, hget] using h
      rcases hd with hd | hd
      · rw [hd] at hitems
        cases hitems
      · rw [hd] at hitems
        obtain rfl := Json.arr.inj hitems
        simp [canonicalItems, hget, getD, get?, hd]
  | some value =>
      rw [getD_obj hget] at h
      subst h
      refine getD_obj ?_
      simp only [canonicalItems, hget, Dict.get?_set_self]

theorem keys_set_of_get? {v w : Json} (h : Dict.get? fields key = some v) :
    Dict.keys (Dict.set fields key w) = Dict.keys fields := by
  rw [Dict.keys_set, if_pos (Dict.mem_keys_of_get? h)]

theorem keys_onObject : Dict.keys (onObject key g fields) = Dict.keys fields := by
  unfold onObject
  split
  · next hget => exact keys_set_of_get? hget
  · rfl

theorem keys_canonicalItems : Dict.keys (canonicalItems key f fields) = Dict.keys fields := by
  unfold canonicalItems
  split
  · next hget => exact keys_set_of_get? hget
  · rfl

theorem keys_preservedMeta {pdg : Dict String Json} :
    Dict.keys (preservedMeta old new pdg) = Dict.keys pdg := by
  rw [preservedMeta, keys_onObject, keys_canonicalItems]

theorem get?_preservedMeta_ne {pdg : Dict String Json} (h : "policy-groups" ≠ key) (h' : "mihomo" ≠ key) :
    Dict.get? (preservedMeta old new pdg) key = Dict.get? pdg key := by
  rw [preservedMeta, get?_onObject_ne h', get?_canonicalItems_ne h]

theorem get?_preservedFields_ne (h : "outbounds" ≠ key) (h' : "_pdg" ≠ key) (h'' : "route" ≠ key) :
    Dict.get? (preservedFields old new outbounds fields) key = Dict.get? fields key := by
  rw [preservedFields, get?_onObject_ne h'', get?_onObject_ne h', Dict.get?_set_ne h]

theorem get?_preservedFields_outbounds :
    Dict.get? (preservedFields old new outbounds fields) "outbounds" =
      some (.arr (outbounds.map (preservedOutbound old new))) := by
  rw [preservedFields, get?_onObject_ne (by simp), get?_onObject_ne (by simp), Dict.get?_set_self]

theorem get?_preservedFields_route (h : Dict.get? fields "route" = some (.obj route)) :
    Dict.get? (preservedFields old new outbounds fields) "route" =
      some (.obj (renamedRoute old new route)) := by
  refine get?_onObject ?_
  rw [get?_onObject_ne (by simp), Dict.get?_set_ne (by simp), h]

theorem get?_preservedFields_pdg (old new : String) (outbounds : List Json) {pdg : Dict String Json}
    (h : Dict.get? fields "_pdg" = some (.obj pdg)) :
    Dict.get? (preservedFields old new outbounds fields) "_pdg" =
      some (.obj (preservedMeta old new pdg)) := by
  rw [preservedFields, get?_onObject_ne (by simp)]
  refine get?_onObject ?_
  rw [Dict.get?_set_ne (by simp), h]

theorem get?_preservedFields_other (h : ∀ pdg, Dict.get? fields "_pdg" ≠ some (.obj pdg)) :
    Dict.get? (preservedFields old new outbounds fields) "_pdg" = Dict.get? fields "_pdg" := by
  have hset : Dict.get? (Dict.set fields "outbounds" (.arr (outbounds.map (preservedOutbound old new))))
      "_pdg" = Dict.get? fields "_pdg" := Dict.get?_set_ne (by simp) _ _
  rw [preservedFields, get?_onObject_ne (by simp), onObject_of_not_dict (fun pdg => by rw [hset]; exact h pdg),
    hset]

/-- What is no object and no failure counts as empty. -/
theorem orEmpty_of_not_dict {value : Json} (h : isDict (orEmpty value) = true)
    (hother : ∀ d, value ≠ .obj d) : orEmpty value = .obj [] := by
  unfold orEmpty at h ⊢
  split at h
  · cases value with
    | obj d => exact absurd rfl (hother d)
    | _ => simp [isDict] at h
  · next hfalsy => rw [if_neg hfalsy]

theorem pdgOf_of_get {pdg : Dict String Json} (h : Dict.get? fields "_pdg" = some (.obj pdg)) :
    pdgOf (.obj fields) = .obj pdg := by
  rw [pdgOf, getD_obj h]
  cases pdg <;> rfl

/-- The metadata of the rewritten document. -/
theorem pdgOf_preserved (old new : String) (outbounds : List Json)
    (h : isDict (pdgOf (.obj fields)) = true) :
    ∃ pdg, pdgOf (.obj fields) = .obj pdg ∧
      pdgOf (.obj (preservedFields old new outbounds fields)) = .obj (preservedMeta old new pdg) := by
  by_cases hdict : ∃ pdg, Dict.get? fields "_pdg" = some (.obj pdg)
  · obtain ⟨pdg, hpdg⟩ := hdict
    exact ⟨pdg, pdgOf_of_get hpdg, pdgOf_of_get (get?_preservedFields_pdg _ _ _ hpdg)⟩
  · have hother : ∀ pdg, Dict.get? fields "_pdg" ≠ some (.obj pdg) := fun pdg hpdg => hdict ⟨pdg, hpdg⟩
    have hsame : pdgOf (.obj (preservedFields old new outbounds fields)) = pdgOf (.obj fields) := by
      rw [pdgOf, pdgOf, getD_congr (get?_preservedFields_other hother)]
    have hempty : pdgOf (.obj fields) = .obj [] :=
      orEmpty_of_not_dict h fun pdg hpdg => hother pdg (get?_of_getD hpdg (by simp))
    exact ⟨[], hempty, hsame.trans hempty⟩

/-- The Mihomo metadata of the rewritten document. -/
theorem mihomoOf_preserved (old new : String) (outbounds : List Json)
    (hpdg : isDict (pdgOf (.obj fields)) = true)
    (h : isDict (mihomoOf (.obj fields)) = true) :
    ∃ mihomo, mihomoOf (.obj fields) = .obj mihomo ∧
      mihomoOf (.obj (preservedFields old new outbounds fields)) = .obj (preservedMihomo old new mihomo) := by
  obtain ⟨pdg, hread, hread'⟩ := pdgOf_preserved old new outbounds hpdg
  rw [mihomoOf, hread] at h
  rw [mihomoOf, hread, mihomoOf, hread']
  by_cases hdict : ∃ mihomo, Dict.get? pdg "mihomo" = some (.obj mihomo)
  · obtain ⟨mihomo, hget⟩ := hdict
    have hget' : Dict.get? (preservedMeta old new pdg) "mihomo" =
        some (.obj (preservedMihomo old new mihomo)) := by
      refine get?_onObject ?_
      rw [get?_canonicalItems_ne (by simp), hget]
    refine ⟨mihomo, ?_, ?_⟩
    · rw [getD_obj hget]
      cases mihomo <;> rfl
    · rw [getD_obj hget']
      cases hmihomo : preservedMihomo old new mihomo with
      | nil => rfl
      | cons e d => rfl
  · have hother : ∀ mihomo, Dict.get? pdg "mihomo" ≠ some (.obj mihomo) := fun mihomo hget =>
      hdict ⟨mihomo, hget⟩
    have hsame : (Json.obj (preservedMeta old new pdg)).getD "mihomo" .null =
        (Json.obj pdg).getD "mihomo" .null := by
      have hget : Dict.get? (preservedMeta old new pdg) "mihomo" = Dict.get? pdg "mihomo" := by
        rw [preservedMeta, onObject_of_not_dict, get?_canonicalItems_ne (by simp)]
        intro mihomo
        rw [get?_canonicalItems_ne (by simp)]
        exact hother mihomo
      exact getD_congr hget
    have hempty : orEmpty ((Json.obj pdg).getD "mihomo" .null) = .obj [] :=
      orEmpty_of_not_dict h fun mihomo hget => hother mihomo (get?_of_getD hget (by simp))
    exact ⟨[], hempty, by rw [hsame]; exact hempty⟩

theorem isList_canonicalItems {d : Dict String Json} :
    isList ((Json.obj (canonicalItems key f d)).getD key .null) = isList ((Json.obj d).getD key .null) := by
  unfold canonicalItems
  split
  · next hget => simp [getD, get?, hget, isList]
  · rfl

theorem shape_preserved (h : validateDeclaredSchemaShape (.obj fields) = .ok ()) :
    validateDeclaredSchemaShape (.obj (preservedFields old new outbounds fields)) = .ok () := by
  by_cases hdict : ∃ pdg, Dict.get? fields "_pdg" = some (.obj pdg)
  · obtain ⟨pdg, hpdg⟩ := hdict
    have hpdg' := get?_preservedFields_pdg old new outbounds hpdg
    have hschema : (Json.obj (preservedMeta old new pdg)).getD "schema" .null =
        (Json.obj pdg).getD "schema" .null :=
      getD_congr (get?_preservedMeta_ne (by simp) (by simp))
    have hkeys : ∀ names, sameKeys (preservedMeta old new pdg) names = sameKeys pdg names := by
      intro names
      rw [sameKeys, sameKeys, keys_preservedMeta]
    have hgroups : isList ((Json.obj (preservedMeta old new pdg)).getD "policy-groups" .null) =
        isList ((Json.obj pdg).getD "policy-groups" .null) := by
      have hread : (Json.obj (preservedMeta old new pdg)).getD "policy-groups" .null =
          (Json.obj (canonicalItems "policy-groups" (renamedGroup old new) pdg)).getD "policy-groups"
            .null :=
        getD_congr (get?_onObject_ne (by simp))
      rw [hread, isList_canonicalItems]
    unfold validateDeclaredSchemaShape at h ⊢
    rw [getD_obj hpdg] at h
    rw [getD_obj hpdg']
    simp only [hschema, hkeys, hgroups] at h ⊢
    split
    · rfl
    · next hthree =>
      rw [if_neg hthree] at h
      obtain ⟨hmeta, h⟩ := raiseIf_bind_eq_ok.mp h
      rw [raiseIf_bind_eq_ok]
      refine ⟨hmeta, ?_⟩
      cases hmihomo : (Json.obj pdg).getD "mihomo" .null with
      | obj mihomo =>
          have hget := get?_of_getD hmihomo (by simp)
          have hget' : Dict.get? (preservedMeta old new pdg) "mihomo" =
              some (.obj (preservedMihomo old new mihomo)) := by
            refine get?_onObject ?_
            rw [get?_canonicalItems_ne (by simp)]
            exact hget
          have hread : ∀ key ∈ v3MihomoFields, (Json.obj (preservedMihomo old new mihomo)).getD key .null =
              (Json.obj mihomo).getD key .null := by
            intro key hkey
            have hne : "proxy-groups" ≠ key := by
              rintro rfl
              simp [v3MihomoFields] at hkey
            exact getD_congr (get?_canonicalItems_ne hne)
          have hsame : sameKeys (preservedMihomo old new mihomo) v3MihomoFields =
              sameKeys mihomo v3MihomoFields := by
            rw [sameKeys, sameKeys, preservedMihomo, keys_canonicalItems]
          have hany : v3MihomoFields.any (fun key =>
              !isDict ((Json.obj (preservedMihomo old new mihomo)).getD key .null)) =
                v3MihomoFields.any (fun key => !isDict ((Json.obj mihomo).getD key .null)) := by
            rw [Bool.eq_iff_iff, List.any_eq_true, List.any_eq_true]
            exact exists_congr fun key => and_congr_right fun hkey => by rw [hread key hkey]
          rw [hmihomo] at h
          rw [getD_obj hget']
          simp only [fields?, Option.getD_some, hsame, hany] at h ⊢
          exact h
      | _ =>
          rw [hmihomo] at h
          simp [isDict, raiseIf] at h
  · have hother : ∀ pdg, Dict.get? fields "_pdg" ≠ some (.obj pdg) := fun pdg hpdg => hdict ⟨pdg, hpdg⟩
    have hsame : (Json.obj (preservedFields old new outbounds fields)).getD "_pdg" .null =
        (Json.obj fields).getD "_pdg" .null :=
      getD_congr (get?_preservedFields_other hother)
    unfold validateDeclaredSchemaShape at h ⊢
    rwa [hsame]

/-! ### The groups of the rewritten document -/

/-- The test for a legacy group is false for every outbound. -/
theorem anyGroup_false_iff : outbounds.anyM (m := Py ModelError) groupTest = .ok false ↔
    ∀ o ∈ outbounds, (o.getD "type" .null).hashable = true ∧ isGroupOutbound o = false := by
  induction outbounds with
  | nil => exact iff_of_true rfl (by simp)
  | cons o outbounds ih =>
      rw [List.anyM, List.forall_mem_cons, ← ih]
      constructor
      · intro h
        obtain ⟨b, hb, h⟩ := bind_eq_ok.mp h
        obtain ⟨rfl, hhash⟩ := groupTest_eq_ok hb
        cases hgroup : isGroupOutbound o with
        | true =>
            rw [hgroup] at h
            cases h
        | false =>
            rw [hgroup] at h
            exact ⟨⟨hhash, rfl⟩, h⟩
      · rintro ⟨⟨hhash, hgroup⟩, h⟩
        have htest : groupTest o = .ok false := by
          rw [← hgroup]
          exact groupTest_of_hashable hhash
        rw [htest, ok_bind]
        exact h

theorem preservedOutbound_of_not_group {o : Json} (h : isGroupOutbound o = false) :
    preservedOutbound old new o = retag new o := by
  rw [preservedOutbound, if_neg (by simp [h])]

theorem getD_type_preserved {o : Json} :
    (preservedOutbound old new o).getD "type" .null = o.getD "type" .null := by
  unfold preservedOutbound
  split
  · cases o with
    | obj fields => exact getD_congr (Dict.get?_set_ne (by simp) _ _)
    | _ => rfl
  · rw [getD, getD, get?_retag_type]

theorem isGroupOutbound_preserved {o : Json} :
    isGroupOutbound (preservedOutbound old new o) = isGroupOutbound o := by
  rw [isGroupOutbound, isGroupOutbound, getD_type_preserved]

/-- The outbounds that are kept are only retagged. -/
theorem kept_preserved : (outbounds.map (preservedOutbound old new)).filter (fun o => !isGroupOutbound o) =
    (outbounds.filter (fun o => !isGroupOutbound o)).map (retag new) := by
  rw [List.filter_map]
  have hfilter : outbounds.filter ((fun o => !isGroupOutbound o) ∘ preservedOutbound old new) =
      outbounds.filter (fun o => !isGroupOutbound o) :=
    List.filter_congr fun o _ => by rw [Function.comp, isGroupOutbound_preserved]
  rw [hfilter]
  refine List.map_congr_left fun o ho => preservedOutbound_of_not_group ?_
  simpa using (List.mem_filter.mp ho).2

/-- The direct tag of the rewritten document. -/
theorem directTag_preserved (houts : Dict.get? fields "outbounds" = some (.arr outbounds))
    (htag : tagRe new = true) (h : directTag (.obj fields) = .ok old) :
    directTag (.obj (preservedFields old new outbounds fields)) = .ok new := by
  have hdirect : ∀ o : Json, hasType "direct" (preservedOutbound old new o) = hasType "direct" o := by
    intro o
    by_cases hgroup : isGroupOutbound o = true
    · have hgroup' : isGroupOutbound (preservedOutbound old new o) = true := by
        rw [isGroupOutbound_preserved, hgroup]
      rw [Bool.eq_false_iff.mpr (not_direct_of_group hgroup),
        Bool.eq_false_iff.mpr (not_direct_of_group hgroup')]
    · rw [preservedOutbound_of_not_group (Bool.eq_false_iff.mpr hgroup), hasType_retag]
  rw [directTag, getD_obj houts, items_arr, ok_bind] at h
  rw [directTag, getD_obj get?_preservedFields_outbounds, items_arr, ok_bind, List.filter_map,
    List.filter_congr fun o _ => show (hasType "direct" ∘ preservedOutbound old new) o =
      hasType "direct" o from hdirect o]
  split at h
  · next d hd =>
    have hmem : hasType "direct" d = true := by
      have hmem : d ∈ outbounds.filter (hasType "direct") := by rw [hd]; simp
      exact (List.mem_filter.mp hmem).2
    have hgroup : isGroupOutbound d = false := by
      rw [Bool.eq_false_iff]
      exact fun hgroup => not_direct_of_group hgroup hmem
    have hget : (retag new d).getD "tag" .null = .str new := by
      rw [getD, get?_retag_tag, if_pos hmem]
      rfl
    rw [hd, List.map_singleton, preservedOutbound_of_not_group hgroup]
    show tag ((retag new d).getD "tag" .null) "direct tag" = _
    rw [hget, tag, if_pos htag]
  · simp at h

/-- The groups of the rewritten document, and the outbounds that are kept. -/
theorem groupsOf_preserved {pdg mihomo : Dict String Json} {model' : Json} (hu : Unreserved old new)
    (hdirect : directTag model = .ok old) (hdirect' : directTag model' = .ok new)
    (hlist : schema = 3 → isList ((Json.obj pdg).getD "policy-groups" .null) = true)
    (hplain : schema ≠ 3 → ∀ raws, (Json.obj mihomo).getD "proxy-groups" (.arr []) = .arr raws →
      ∀ raw ∈ raws, ∀ fields, raw = .obj fields → Plain fields)
    (h : groupsOf U model (.obj pdg) (.obj mihomo) outbounds schema = .ok (kept, groups)) :
    groupsOf U model' (.obj (preservedMeta old new pdg)) (.obj (preservedMihomo old new mihomo))
      (outbounds.map (preservedOutbound old new)) schema =
        .ok (kept.map (retag new), groups.map (renamedGroup old new)) := by
  unfold groupsOf at h ⊢
  by_cases hthree : schema = 3
  · simp only [hthree, if_true] at h ⊢
    obtain ⟨isGroup, hany, h⟩ := bind_eq_ok.mp h
    obtain ⟨hfalse, h⟩ := raiseIf_bind_eq_ok.mp h
    obtain ⟨items, hitems, h⟩ := bind_eq_ok.mp h
    cases pure_eq_ok.mp h
    rw [hfalse] at hany
    have hnone := anyGroup_false_iff.mp hany
    have hany' : (outbounds.map (preservedOutbound old new)).anyM groupTest = .ok false := by
      rw [anyGroup_false_iff, List.forall_mem_map]
      intro o ho
      rw [getD_type_preserved, isGroupOutbound_preserved]
      exact hnone o ho
    have hgroups : (Json.obj pdg).getD "policy-groups" .null = .arr groups := by
      have hlist := hlist hthree
      cases hvalue : (Json.obj pdg).getD "policy-groups" .null with
      | arr xs =>
          rw [hvalue, items_arr] at hitems
          rw [Except.ok.inj hitems]
      | _ =>
          rw [hvalue] at hlist
          simp [isList] at hlist
    have hgroups' : (Json.obj (preservedMeta old new pdg)).getD "policy-groups" .null =
        .arr (groups.map (renamedGroup old new)) := by
      rw [← getD_canonicalItems (f := renamedGroup old new) hgroups (.inl rfl)]
      exact getD_congr (get?_onObject_ne (by simp))
    have houts : outbounds.map (preservedOutbound old new) = outbounds.map (retag new) :=
      List.map_congr_left fun o ho => preservedOutbound_of_not_group (hnone o ho).2
    show ((outbounds.map (preservedOutbound old new)).anyM groupTest >>= _) = _
    rw [hany', hgroups', houts]
    rfl
  · simp only [hthree, if_false] at h ⊢
    obtain ⟨hextra, h⟩ := raiseIf_bind_eq_ok.mp h
    obtain ⟨gs, hlegacy, h⟩ := bind_eq_ok.mp h
    obtain ⟨rest, hrest, h⟩ := bind_eq_ok.mp h
    cases pure_eq_ok.mp h
    have hhash := legacyGroups_hashable hlegacy
    obtain ⟨raws, hraws⟩ : ∃ raws, (Json.obj mihomo).getD "proxy-groups" (.arr []) = .arr raws := by
      obtain ⟨direct, -, hlegacy⟩ := bind_eq_ok.mp hlegacy
      obtain ⟨canonical, -, hlegacy⟩ := bind_eq_ok.mp hlegacy
      split at hlegacy
      · next raws hraws => exact ⟨raws, hraws⟩
      · simp at hlegacy
    have hraws' : (Json.obj (preservedMihomo old new mihomo)).getD "proxy-groups" (.arr []) =
        .arr (raws.map (renamedGroup old new)) := getD_canonicalItems hraws (.inr rfl)
    have hlegacy' := legacyGroups_preserved outbounds hu hdirect hdirect' hraws hraws'
      (hplain hthree raws hraws) hlegacy
    have hkept : (outbounds.map (preservedOutbound old new)).filterM
        (fun item => do return !(← groupTest item)) = .ok (kept.map (retag new)) := by
      rw [kept_outbounds hhash hrest, ← kept_preserved]
      refine filterM_eq_ok fun o ho => ?_
      obtain ⟨o, hmem, rfl⟩ := List.mem_map.mp ho
      have htest : groupTest (preservedOutbound old new o) =
          .ok (isGroupOutbound (preservedOutbound old new o)) := by
        refine groupTest_of_hashable ?_
        rw [getD_type_preserved]
        exact hhash o hmem
      rw [htest]
      rfl
    have hextra' : extraKeys (preservedMeta old new pdg) ["schema", "mihomo"] = false := by
      rw [extraKeys, keys_preservedMeta]
      exact hextra
    simp only [fields?, Option.getD_some, hextra']
    show (legacyGroups U model' _ _ _ >>= fun groups =>
      ((outbounds.map (preservedOutbound old new)).filterM
        (fun item => do return !(← groupTest item)) >>= fun kept => pure (kept, groups))) = _
    rw [hlegacy', ok_bind, hkept, ok_bind]
    rfl

/-- A document of schema 3 has its envelope. -/
theorem Source.declares (h : Source U fields outbounds route schema kept groups m direct)
    (hthree : schema = 3) : ∃ gs m', Declares fields outbounds gs m' route := by
  have hnumber := declaredSchema_isNumber h.schemaAt
  rw [hthree] at hnumber
  refine declares_of_shape ?_ h.shape (getD_obj h.outboundsAt) (getD_obj h.routeAt)
  cases hpdg : (Json.obj fields).getD "_pdg" .null with
  | obj pdg =>
      have hsame : pdgOf (.obj fields) = .obj pdg := by
        rw [pdgOf, hpdg]
        cases pdg <;> rfl
      rw [hsame] at hnumber
      have hvalue : (Json.obj pdg).getD "schema" (.int 1) = (Json.obj pdg).getD "schema" .null := by
        cases hget : Dict.get? pdg "schema" with
        | none => simp [getD, get?, hget, isNumber, number?] at hnumber
        | some v => rw [getD_obj hget, getD_obj hget]
      rw [hvalue] at hnumber
      rw [DeclaresThree, hpdg]
      exact ⟨rfl, hnumber⟩
  | _ =>
      have hempty : pdgOf (.obj fields) = .obj [] :=
        orEmpty_of_not_dict h.pdgDict fun pdg hdict => by simp [hpdg] at hdict
      rw [hempty] at hnumber
      simp [getD, get?, isNumber, number?] at hnumber

/-- The policy groups of a document of schema 3 are a list. -/
theorem Source.policyGroups_list (h : Source U fields outbounds route schema kept groups m direct)
    (hthree : schema = 3) : isList ((pdgOf (.obj fields)).getD "policy-groups" .null) = true := by
  obtain ⟨gs, m', hdeclares⟩ := h.declares hthree
  obtain ⟨pdg, hpdg, hmeta⟩ := hdeclares.pdg
  rw [pdgOf_of_get hpdg, getD_obj hmeta.groups]
  rfl

/-- What `migrate` collects from the rewritten document. -/
theorem Source.preserved (hu : Unreserved old new) (htag : tagRe new = true)
    (hplain : schema ≠ 3 → ∀ raw ∈ mirrorsOf (.obj fields), ∀ fields, raw = .obj fields → Plain fields)
    (h : Source U fields outbounds route schema kept groups m old) :
    Source U (preservedFields old new outbounds fields) (outbounds.map (preservedOutbound old new))
      (renamedRoute old new route) schema (kept.map (retag new)) (groups.map (renamedGroup old new)) m
      new := by
  obtain ⟨pdg, hpdg, hpdg'⟩ := pdgOf_preserved old new outbounds h.pdgDict
  obtain ⟨mihomo, hmihomo, hmihomo'⟩ :=
    mihomoOf_preserved old new outbounds h.pdgDict h.mihomoDict
  have hfield : ∀ key, "proxy-groups" ≠ key →
      mihomoField (mihomoOf (.obj (preservedFields old new outbounds fields))) key =
        mihomoField (mihomoOf (.obj fields)) key := by
    intro key hne
    have hread : (Json.obj (preservedMihomo old new mihomo)).getD key (.obj []) =
        (Json.obj mihomo).getD key (.obj []) := getD_congr (get?_canonicalItems_ne hne)
    rw [mihomoField, mihomoField, hmihomo, hmihomo', hread]
  have hdirect := directTag_preserved h.outboundsAt htag h.directAt
  have hlist := h.policyGroups_list
  have hgroups := h.groupsAt
  rw [hpdg] at hlist
  rw [hpdg, hmihomo] at hgroups
  have hraws : ∀ raws, (Json.obj mihomo).getD "proxy-groups" (.arr []) = .arr raws →
      mirrorsOf (.obj fields) = raws := by
    intro raws hraws
    rw [mirrorsOf, hmihomo, hraws]
  exact {
    shape := shape_preserved h.shape
    outboundsAt := get?_preservedFields_outbounds
    routeAt := get?_preservedFields_route h.routeAt
    directAt := hdirect
    pdgDict := by rw [hpdg']; rfl
    schemaAt := by
      rw [← h.schemaAt, hpdg, hpdg', declaredSchema, declaredSchema,
        getD_congr (get?_preservedMeta_ne (by simp) (by simp))]
    mihomoDict := by rw [hmihomo']; rfl
    keys := by
      have hkeys := h.keys
      rw [hmihomo] at hkeys
      rw [hmihomo', fields?, Option.getD_some, extraKeys, preservedMihomo, keys_canonicalItems]
      exact hkeys
    groupsAt := by
      rw [hpdg', hmihomo']
      exact groupsOf_preserved hu h.directAt hdirect hlist
        (fun hschema raws hread => by rw [← hraws raws hread]; exact hplain hschema) hgroups
    proxyProviders := (hfield _ (by simp)).trans h.proxyProviders
    ruleProviders := (hfield _ (by simp)).trans h.ruleProviders
    advanced := (hfield _ (by simp)).trans h.advanced
    managedFiles := (hfield _ (by simp)).trans h.managedFiles }

end ProxyGateway.Schema
