import ProxyGateway.Schema.Repair

set_option autoImplicit false

/-!
# ProxyGateway.Schema.Merge

The groups of a document of schema 2 are written down twice, as outbounds and in the metadata.
`migrate` keeps each group once (`Merged`) and refuses a document whose halves differ
(`HalvesAgree`), where nothing is a fault and the members of the outbounds are lists
(`mergeSafe_iff`).
-/

namespace ProxyGateway.Schema

open Py Json

variable {S : Stack} {U : Unicode} {model result outbound raw group : Json} {direct name : String}
  {outbounds groups raws : List Json} {fields : Dict String Json}

/-! ### The two halves -/

/-- `_pdg` is an object with schema 2. -/
def DeclaresTwo (model : Json) : Prop :=
  isDict (model.getD "_pdg" .null) = true ∧
    ((model.getD "_pdg" .null).getD "schema" .null).isNumber 2 = true

/-- The outbounds that are groups. -/
def groupOutbounds (model : Json) : List Json := (outboundsOf model).filter isGroupOutbound

/-- The groups of the metadata. -/
def mirrorsOf (model : Json) : List Json :=
  match (mihomoOf model).getD "proxy-groups" (.arr []) with
  | .arr raws => raws
  | _ => []

/-- The type of a group that an outbound stands for. -/
def groupType (outbound : Json) : String :=
  if hasType "urltest" outbound then "url-test" else "select"

/-- Could the group of the metadata be an outbound as well? -/
def Editable (raw : Json) : Prop :=
  (raw.getD "type" .null).str?.any (· ∈ ["select", "url-test"]) = true ∧ representable raw = .ok true

/-- An outbound and a group of the metadata stand for one group: type, members in their order with
the direct tag for `DIRECT`, and the probe of a group that tests its members. -/
structure SameGroup (U : Unicode) (direct : String) (outbound raw : Json) : Prop where
  type : raw.get? "type" = some (.str (groupType outbound))
  whole : representable raw = .ok true
  members : ∃ xs ys, outbound.getD "outbounds" (.arr []) = .arr xs ∧
    raw.getD "proxies" (.arr []) = .arr ys ∧ xs.map (toDirect direct) = ys.map (toDirect direct)
  url : hasType "urltest" outbound = true →
    (raw.getD "url" (.str defaultTestUrl)).equal (outbound.getD "url" (.str defaultTestUrl)) = true
  interval : hasType "urltest" outbound = true →
    ∃ n, durationSeconds U (outbound.getD "interval" (.str "180s")) = .ok n ∧
      (raw.getD "interval" (.int 180)).equal (.int n) = true
  tolerance : hasType "urltest" outbound = true →
    (raw.getD "tolerance" (.int 50)).equal (outbound.getD "tolerance" (.int 50)) = true

/-- Every group outbound has a group of the metadata that says the same, and every group of the
metadata that an outbound can hold has its outbound. -/
structure HalvesAgree (U : Unicode) (model : Json) : Prop where
  mirrored : ∀ direct, directTag model = .ok direct → ∀ outbound ∈ groupOutbounds model,
    ∃ raw ∈ mirrorsOf model, raw.get? "name" = outbound.get? "tag" ∧ SameGroup U direct outbound raw
  editable : ∀ raw ∈ mirrorsOf model, Editable raw →
    ∃ outbound ∈ groupOutbounds model, raw.get? "name" = outbound.get? "tag"

/-- A group of the result is taken over from the metadata. -/
structure Taken (U : Unicode) (direct : String) (raw group : Json) : Prop where
  type : group.get? "type" = raw.get? "type"
  members : ∀ ys, raw.getD "proxies" (.arr []) = .arr ys →
    group.get? "proxies" = some (.arr ((ys.map (toDirect direct)).map (canonicalMember U)))
  probe : ∀ key ∈ ["url", "interval", "tolerance"], group.get? key = raw.get? key

/-- The result has one group for each of the metadata, in their order, and each group outbound is
among them, with what both halves say. -/
structure Merged (U : Unicode) (model result : Json) : Prop where
  ordered : List.Forall₂ (fun raw group => ∃ name, raw.get? "name" = some (.str name) ∧
    group.get? "name" = some (.str name)) (mirrorsOf model) (policyGroups result)
  once : (groupNames (policyGroups result)).Nodup
  outboundsOnce : List.Pairwise (fun o p => o.get? "tag" ≠ p.get? "tag") (groupOutbounds model)
  kept : ∀ outbound ∈ groupOutbounds model, ∃ raw ∈ mirrorsOf model,
    ∃ group ∈ policyGroups result, ∃ direct, directTag model = .ok direct ∧
      group.get? "name" = outbound.get? "tag" ∧ raw.get? "name" = outbound.get? "tag" ∧
      SameGroup U direct outbound raw ∧ Taken U direct raw group

/-- What is accepted is merged, and a disagreement or a missing half is refused. -/
structure MergeSafe (S : Stack) (U : Unicode) (model : Json) : Prop where
  merged : ∀ result, migrateOn S U model = .ok result → Merged U model result
  refused : ¬ HalvesAgree U model → ∃ e, migrateOn S U model = Py.raise e

/-- The members of the group outbounds are lists. -/
def MembersAreLists (model : Json) : Prop :=
  ∀ outbound ∈ groupOutbounds model, (outbound.get? "outbounds").all isList = true

/-! ### What `migrate` runs through -/

/-- The values in the run of `migrate` on an accepted document of schema 2. -/
structure LegacyRun (U : Unicode) (model result : Json) where
  fields : Dict String Json
  direct : String
  outbounds : List Json
  raws : List Json
  canonical : GroupDict
  mirrors : GroupDict
  merged : GroupDict
  groups : List Json
  root : model = .obj fields
  directTag : directTag model = .ok direct
  directFree : direct ∉ reservedTargets
  outboundsAt : model.getD "outbounds" .null = .arr outbounds
  rawsAt : (mihomoOf model).getD "proxy-groups" (.arr []) = .arr raws
  canonicalRun : outbounds.foldlM (canonicalGroups U direct) [] = .ok canonical
  mirrorRun : raws.foldlM (mirrorGroups U direct) [] = .ok mirrors
  reconciled : canonical.foldlM (reconcileGroup true) mirrors = .ok merged
  checked : merged.forM (checkMirrored canonical) = .ok ()
  passes : List.Forall₂ (Relation.Comp (fun g named => nameGroup U g = .ok named)
    (fun named g => referGroup U named = .ok g)) (merged.map fun entry => .obj entry.2) groups
  groupsAt : policyGroups result = groups
  parts : List GroupPart
  fits : List.Forall₂ (GroupFits U) groups parts
  namesOnce : (parts.map GroupPart.name).Nodup
  validated : ∀ group ∈ groups, ∃ part, validateGroup U group = .ok part

theorem declaredSchema_two {pdg : Json} {n : Int}
    (hnumber : (pdg.getD "schema" .null).isNumber 2 = true) (h : declaredSchema pdg = .ok n) :
    n = 2 := by
  have hn := declaredSchema_isNumber h
  have hvalue : pdg.getD "schema" (.int 1) = pdg.getD "schema" .null := by
    cases hget : pdg.get? "schema" with
    | none => simp [Json.getD, hget, Json.isNumber, Json.number?] at hnumber
    | some v => simp [Json.getD, hget]
  rw [hvalue, Json.isNumber, decide_eq_true_eq] at hn
  rw [Json.isNumber, decide_eq_true_eq, hn] at hnumber
  exact_mod_cast Option.some.inj hnumber

theorem passes_of_groups {outbounds' groups' : List Json} {m m' : MihomoMeta}
    {route route' : Dict String Json}
    (h : canonicalizeUserNames U outbounds groups m route = .ok (outbounds', groups', m', route')) :
    List.Forall₂ (Relation.Comp (fun g named => nameGroup U g = .ok named)
      (fun named g => referGroup U named = .ok g)) groups groups' := by
  obtain ⟨outs, -, h⟩ := bind_eq_ok.mp h
  obtain ⟨named, hnamed, h⟩ := bind_eq_ok.mp h
  obtain ⟨proxies, -, h⟩ := bind_eq_ok.mp h
  obtain ⟨rules, -, h⟩ := bind_eq_ok.mp h
  obtain ⟨referred, -, h⟩ := bind_eq_ok.mp h
  obtain ⟨final, hfinal, h⟩ := bind_eq_ok.mp h
  obtain ⟨last, -, h⟩ := bind_eq_ok.mp h
  cases pure_eq_ok.mp h
  exact forall₂_comp (mapM_forall₂ hnamed) (mapM_forall₂ hfinal)

theorem directTags_kept :
    directTags (outbounds.filter fun o => !isGroupOutbound o) = directTags outbounds := by
  unfold directTags
  rw [List.filter_filter]
  refine congrArg outboundTags (List.filter_congr fun o _ => ?_)
  cases hdirect : hasType "direct" o with
  | false => rfl
  | true =>
      rw [hasType, decide_eq_true_eq] at hdirect
      rw [isGroupOutbound, getD_of_get? hdirect]
      rfl

theorem pdgOf_two (h : DeclaresTwo model) : pdgOf model = model.getD "_pdg" .null := by
  obtain ⟨hdict, hnumber⟩ := h
  unfold pdgOf orEmpty
  split
  · rfl
  · rename_i hfalse
    cases hpdg : model.getD "_pdg" .null with
    | obj pdg =>
        rw [hpdg] at hfalse hnumber
        cases pdg with
        | nil => simp [Json.getD, Json.get?, Json.isNumber, Json.number?] at hnumber
        | cons p rest => simp [Json.truthy] at hfalse
    | _ => simp [hpdg, isDict] at hdict

/-- An accepted document of schema 2 has such a run. -/
theorem legacyRun_of_accepted (htwo : DeclaresTwo model) (h : migrateOn S U model = .ok result) :
    Nonempty (LegacyRun U model result) := by
  obtain ⟨hdict, h⟩ := raiseIf_bind_eq_ok.mp h
  obtain ⟨-, h⟩ := unit_bind_eq_ok.mp h
  obtain ⟨copy, hcopy, h⟩ := bind_eq_ok.mp h
  obtain ⟨canonical, hcanonical, h⟩ := bind_eq_ok.mp h
  obtain ⟨hvalid, h⟩ := unit_bind_eq_ok.mp h
  cases pure_eq_ok.mp h
  obtain rfl : copy = model := deepcopy_eq hcopy
  have hvalid := validate_of_validateOn hvalid
  cases copy with
  | obj fields =>
      unfold canonicalized at hcanonical
      dsimp only at hcanonical
      split at hcanonical
      · rename_i outbounds houts
        split at hcanonical
        · rename_i route hroute
          -- the values of the run, one bind after the other
          obtain ⟨direct, hdirect, hrun⟩ := bind_eq_ok.mp hcanonical
          obtain ⟨-, hrun⟩ := raiseIf_bind_eq_ok.mp hrun
          obtain ⟨schema, hschema, hrun⟩ := bind_eq_ok.mp hrun
          obtain rfl : schema = 2 := by
            have hnumber := htwo.2
            rw [← pdgOf_two htwo] at hnumber
            exact declaredSchema_two hnumber hschema
          obtain ⟨-, hrun⟩ := raiseIf_bind_eq_ok.mp hrun
          obtain ⟨-, hrun⟩ := raiseIf_bind_eq_ok.mp hrun
          obtain ⟨⟨rest, gs⟩, hgroups, hrun⟩ := bind_eq_ok.mp hrun
          obtain ⟨proxies, -, hrun⟩ := bind_eq_ok.mp hrun
          obtain ⟨rules, -, hrun⟩ := bind_eq_ok.mp hrun
          obtain ⟨advanced, -, hrun⟩ := bind_eq_ok.mp hrun
          obtain ⟨files, -, hrun⟩ := bind_eq_ok.mp hrun
          obtain ⟨⟨outbounds', groups', m', route'⟩, hnames, hrun⟩ := bind_eq_ok.mp hrun
          have hresult : result = assembled fields outbounds' groups' m' route' :=
            (pure_eq_ok.mp hrun).symm
          obtain ⟨-, hgroups⟩ := raiseIf_bind_eq_ok.mp hgroups
          obtain ⟨legacy, hlegacy, hgroups⟩ := bind_eq_ok.mp hgroups
          obtain ⟨kept, hkept, hgroups⟩ := bind_eq_ok.mp hgroups
          cases pure_eq_ok.mp hgroups
          obtain ⟨direct', hdirect', hlegacy⟩ := bind_eq_ok.mp hlegacy
          cases hdirect.symm.trans hdirect'
          obtain ⟨canonical, hcanonical', hlegacy⟩ := bind_eq_ok.mp hlegacy
          split at hlegacy
          · rename_i raws hraws
            obtain ⟨mirrors, hmirrors, hlegacy⟩ := bind_eq_ok.mp hlegacy
            obtain ⟨merged, hmerged, hlegacy⟩ := bind_eq_ok.mp hlegacy
            obtain ⟨hchecked, hlegacy⟩ := unit_bind_eq_ok.mp hlegacy
            cases pure_eq_ok.mp hlegacy
            have henv := @assembled_enveloped outbounds' groups' m' fields route'
            rw [← hresult] at henv
            obtain ⟨direct', tags, parts, hall⟩ := validate_cases henv hvalid
            -- the direct tag that the validator finds is the one the groups were read with
            have hdirectFree : direct ∉ reservedTargets := by
              have hone := hall.oneDirect
              rw [canonicalizeUserNames_outbounds hnames, directTags_canonical,
                kept_outbounds (canonicalGroups_cases hcanonical').1 hkept, directTags_kept,
                directTag_cases (get?_of_getD houts (by simp)) hdirect] at hone
              cases hone
              exact hall.directFree
            have hpolicy : policyGroups result = groups' := by
              rw [policyGroups, getD_of_get? henv.pdg, metaJson_policyGroups]
            have hnames' : (parts.map GroupPart.name).Nodup := by
              have hnodup := hall.namespaced
              rw [List.append_assoc, List.append_assoc, List.nodup_append] at hnodup
              exact (List.nodup_append.mp hnodup.2.1).1
            exact ⟨{
              fields := fields, direct := direct, outbounds := outbounds, raws := raws
              canonical := canonical, mirrors := mirrors, merged := merged, groups := groups'
              root := rfl, directTag := hdirect, directFree := hdirectFree, outboundsAt := houts, rawsAt := hraws
              canonicalRun := hcanonical', mirrorRun := hmirrors, reconciled := hmerged
              checked := hchecked, passes := passes_of_groups hnames, groupsAt := hpolicy
              parts := parts, fits := hall.fits, namesOnce := hnames'
              validated := validateGroup_of_validate henv hvalid }⟩
          · simp at hlegacy
        · simp at hcanonical
      · simp at hcanonical
  | _ => simp [isDict] at hdict

/-! ### One group -/

theorem canonicalGroup_tag {entry : String × Dict String Json}
    (h : canonicalGroup U outbound direct = .ok entry) :
    outbound.get? "tag" = some (.str entry.1) := by
  obtain ⟨name, hname, h⟩ := bind_eq_ok.mp h
  have htag := get?_of_getD (validateName_cases hname).1 (by simp)
  cases htest : hasType "urltest" outbound with
  | false =>
      rw [htest] at h
      obtain ⟨probe, -, h⟩ := bind_eq_ok.mp h
      obtain ⟨members, -, h⟩ := bind_eq_ok.mp h
      cases pure_eq_ok.mp h
      exact htag
  | true =>
      rw [htest] at h
      obtain ⟨interval, -, h⟩ := bind_eq_ok.mp h
      obtain ⟨probe, -, h⟩ := bind_eq_ok.mp h
      obtain ⟨members, -, h⟩ := bind_eq_ok.mp h
      cases pure_eq_ok.mp h
      exact htag

/-- The entry of a group outbound with a list of members. -/
theorem canonicalGroup_cases {entry : String × Dict String Json}
    (h : canonicalGroup U outbound direct = .ok entry)
    (hlist : (outbound.get? "outbounds").all isList = true) :
    Dict.get? entry.2 "type" = some (.str (groupType outbound)) ∧
      (∃ xs, outbound.getD "outbounds" (.arr []) = .arr xs ∧
        Dict.get? entry.2 "proxies" = some (.arr (xs.map (toDirect direct)))) ∧
      (hasType "urltest" outbound = true →
        Dict.get? entry.2 "url" = some (outbound.getD "url" (.str defaultTestUrl)) ∧
        (∃ n, durationSeconds U (outbound.getD "interval" (.str "180s")) = .ok n ∧
          Dict.get? entry.2 "interval" = some (.int n)) ∧
        Dict.get? entry.2 "tolerance" = some (outbound.getD "tolerance" (.int 50))) := by
  obtain ⟨xs, hxs⟩ : ∃ xs, outbound.getD "outbounds" (.arr []) = .arr xs := by
    cases hget : outbound.get? "outbounds" with
    | none => exact ⟨[], by simp [Json.getD, hget]⟩
    | some value =>
        rw [hget] at hlist
        rw [getD_of_get? hget]
        cases value with
        | arr xs => exact ⟨xs, rfl⟩
        | _ => simp [isList] at hlist
  obtain ⟨name, -, h⟩ := bind_eq_ok.mp h
  unfold groupType
  cases htest : hasType "urltest" outbound with
  | false =>
      rw [htest] at h
      simp only [Bool.false_eq_true, if_false, pure_bind, hxs, items_arr, ok_bind] at h
      cases pure_eq_ok.mp h
      exact ⟨rfl, ⟨xs, hxs, rfl⟩, fun hno => by cases hno⟩
  | true =>
      rw [htest] at h
      simp only [if_true, pure_bind, hxs, items_arr, ok_bind] at h
      obtain ⟨n, hn, h⟩ := bind_eq_ok.mp h
      cases pure_eq_ok.mp h
      exact ⟨rfl, ⟨xs, hxs, rfl⟩, fun _ => ⟨rfl, ⟨n, hn, rfl⟩, rfl⟩⟩

theorem get?_mirrored {key : String} (h : key ≠ "proxies") :
    Dict.get? (mirrored direct fields) key = Dict.get? fields key := by
  unfold mirrored
  split
  · exact Dict.get?_set_ne (Ne.symm h) _ _
  · rfl

theorem getD_mirrored {key : String} {d : Json} (h : key ≠ "proxies") :
    (Json.obj (mirrored direct fields)).getD key d = (Json.obj fields).getD key d := by
  simp only [Json.getD, Json.get?, get?_mirrored h]

theorem mirrored_list {ys : List Json} (h : (Json.obj fields).getD "proxies" (.arr []) = .arr ys) :
    (Json.obj (mirrored direct fields)).getD "proxies" (.arr []) = .arr (ys.map (toDirect direct)) := by
  cases hget : Dict.get? fields "proxies" with
  | none =>
      simp only [Json.getD, Json.get?, hget, Option.getD_none, Json.arr.injEq] at h
      simp [mirrored, hget, Json.getD, Json.get?, ← h]
  | some value =>
      rw [getD_obj hget] at h
      subst h
      rw [mirrored, hget]
      exact getD_obj (Dict.get?_set_self _ _ _)

theorem mirrored_other (h : isList ((Json.obj fields).getD "proxies" (.arr [])) = false) :
    mirrored direct fields = fields := by
  unfold mirrored
  split
  · rename_i members hget
    rw [getD_obj hget] at h
    simp [isList] at h
  · rfl

/-- Whether an outbound can hold a group does not depend on the direct tag. -/
theorem representable_mirrored (hfree : direct ∉ reservedTargets) :
    representable (.obj (mirrored direct fields)) = representable (.obj fields) := by
  unfold representable
  rw [getD_mirrored (by simp)]
  cases hlist : isList ((Json.obj fields).getD "proxies" (.arr [])) with
  | false => rw [mirrored_other hlist]
  | true =>
      obtain ⟨ys, hys⟩ : ∃ ys, (Json.obj fields).getD "proxies" (.arr []) = .arr ys := by
        cases hvalue : (Json.obj fields).getD "proxies" (.arr []) with
        | arr ys => exact ⟨ys, rfl⟩
        | _ => simp [hvalue, isList] at hlist
      have hmem : Json.str "REJECT" ∈ ys.map (toDirect direct) ↔ Json.str "REJECT" ∈ ys := by
        rw [List.mem_map]
        constructor
        · intro h
          obtain ⟨y, hy, heq⟩ := h
          unfold toDirect at heq
          split at heq
          · cases heq
            simp [reservedTargets] at hfree
          · rwa [← heq]
        · intro h
          exact ⟨_, h, by simp [toDirect]⟩
      rw [mirrored_list hys, hys]
      simp only [Json.has, hmem]

/-- A name that is let through is its own normal form. -/
theorem canonicalText_of_valid {label : String} (h : validateName U (.str name) label = .ok name) :
    canonicalText U name = name := by
  obtain ⟨n, hn, h⟩ := bind_eq_ok.mp h
  obtain ⟨-, h⟩ := raiseIf_bind_eq_ok.mp h
  cases pure_eq_ok.mp h
  obtain ⟨s, hs, hname⟩ := normalizeName_canonical hn
  cases hs
  exact hname.symm

/-- A group of the result and the one of the metadata that it comes from. -/
theorem taken_of_passes {entry : String × Dict String Json} (hmirror : MirrorOf U direct raw entry)
    (hpasses : Relation.Comp (fun g named => nameGroup U g = .ok named)
      (fun named g => referGroup U named = .ok g) (.obj entry.2) group) :
    raw.get? "name" = some (.str entry.1) ∧ group.get? "name" = some (.str entry.1) ∧
      Taken U direct raw group := by
  obtain ⟨fields, rfl, hname, hfields⟩ := hmirror
  obtain ⟨named, hnamed, hrefer⟩ := hpasses
  obtain ⟨s, members, hs, hmembers, hname', hproxies, hframe⟩ := group_passes hnamed hrefer
  have hstr := (validateName_cases hname).1
  have hraw : Dict.get? fields "name" = some (.str entry.1) := get?_of_getD hstr (by simp)
  rw [hfields, get?_mirrored (by simp), hraw] at hs
  cases hs
  rw [hstr] at hname
  rw [canonicalText_of_valid hname] at hname'
  refine ⟨hraw, hname', ?_, fun ys hys => ?_, fun key hkey => ?_⟩
  · rw [hframe "type" (by simp), hfields, get?_mirrored (by simp)]
    rfl
  · rw [hproxies]
    have hlist := @mirrored_list direct fields ys hys
    rw [hfields] at hmembers
    unfold membersOf at hmembers
    cases hget : Dict.get? (mirrored direct fields) "proxies" with
    | none =>
        rw [show (Json.obj (mirrored direct fields)).getD "proxies" .null = .null by
          simp [Json.getD, Json.get?, hget]] at hmembers
        rw [show (Json.obj (mirrored direct fields)).getD "proxies" (.arr []) = .arr [] by
          simp [Json.getD, Json.get?, hget]] at hlist
        cases hmembers
        rw [← Json.arr.inj hlist]
    | some value =>
        rw [getD_obj hget] at hmembers hlist
        rw [hlist] at hmembers
        cases hmap : ys.map (toDirect direct) with
        | nil =>
            rw [hmap] at hmembers
            cases hmembers
            rfl
        | cons y rest =>
            rw [hmap] at hmembers
            cases hmembers
            rfl
  · have hne : key ∉ ["name", "proxies", "use"] ∧ key ≠ "proxies" := by
      simp only [List.mem_cons, List.not_mem_nil, or_false] at hkey
      rcases hkey with rfl | rfl | rfl <;> simp
    rw [hframe key hne.1, hfields, get?_mirrored hne.2]
    rfl

/-- Lists of texts that are equal for the program are the same. -/
theorem sameList_texts {xs ys : List Json} (h : sameList xs ys = true) (htexts : xs.all isText = true) :
    xs = ys := by
  induction xs generalizing ys with
  | nil =>
      cases ys with
      | nil => rfl
      | cons y ys => simp [sameList] at h
  | cons x xs ih =>
      rw [List.all_cons, Bool.and_eq_true] at htexts
      cases ys with
      | nil => simp [sameList] at h
      | cons y ys =>
          rw [sameList, Bool.and_eq_true] at h
          have hxy : x = y := by
            cases x with
            | str s =>
                cases y with
                | str t =>
                    have hst := h.1
                    simp only [same, decide_eq_true_eq] at hst
                    rw [hst]
                | _ => simp [same] at h
            | _ => simp [isText] at htexts
          rw [hxy, ih h.2 htexts.2]

theorem texts_of_canonicalMembers {xs : List Json} {names : List String}
    (h : xs.map (canonicalMember U) = names.map Json.str) : xs.all isText = true := by
  have htexts : (xs.map (canonicalMember U)).all isText = true := by
    rw [h, List.all_map]
    exact List.all_eq_true.mpr fun _ _ => rfl
  rw [List.all_map] at htexts
  refine List.all_eq_true.mpr fun x hx => ?_
  rw [← isText_canonicalMember (U := U)]
  exact List.all_eq_true.mp htexts x hx

/-- Both halves of a group say the same, if the group that comes from them is let through. -/
theorem sameGroup_of_agrees {entry : String × Dict String Json} {fields : Dict String Json}
    {part : GroupPart} (hfree : direct ∉ reservedTargets)
    (hown : canonicalGroup U outbound direct = .ok entry)
    (hlist : (outbound.get? "outbounds").all isList = true)
    (hagree : Agrees (.obj (mirrored direct fields)) (.obj entry.2))
    (htaken : Taken U direct (.obj fields) group) (hfits : GroupFits U group part) :
    SameGroup U direct outbound (.obj fields) := by
  obtain ⟨htype, ⟨xs, hxs, hproxies⟩, hprobe⟩ := canonicalGroup_cases hown hlist
  have htest : hasType "urltest" outbound = true → hasType "url-test" (.obj entry.2) = true := by
    intro htest
    rw [hasType, decide_eq_true_eq, Json.get?, htype, groupType, if_pos htest]
  have hmembers := hagree.members
  rw [getD_obj hproxies] at hmembers
  obtain ⟨ys, hys⟩ : ∃ ys, (Json.obj fields).getD "proxies" (.arr []) = .arr ys := by
    cases hlist : isList ((Json.obj fields).getD "proxies" (.arr [])) with
    | true =>
        cases hvalue : (Json.obj fields).getD "proxies" (.arr []) with
        | arr ys => exact ⟨ys, rfl⟩
        | _ => simp [hvalue, isList] at hlist
    | false =>
        rw [mirrored_other hlist] at hmembers
        cases hvalue : (Json.obj fields).getD "proxies" (.arr []) with
        | arr ys => exact ⟨ys, rfl⟩
        | float v => cases v <;> simp [hvalue, equal, same, number?] at hmembers
        | _ => simp [hvalue, equal, same, number?] at hmembers
  rw [mirrored_list hys] at hmembers
  -- the members of the result are texts, so that equal lists are the same
  have htexts : (ys.map (toDirect direct)).all isText = true := by
    have hgroup := hfits.proxies
    rw [getD_of_get? (htaken.members ys hys)] at hgroup
    exact texts_of_canonicalMembers (Json.arr.inj hgroup)
  have hsame : ys.map (toDirect direct) = xs.map (toDirect direct) := by
    simp only [equal, same, Bool.and_eq_true] at hmembers
    exact sameList_texts hmembers.2 htexts
  exact {
    type := by
      have heq := hagree.type
      rw [Json.get?, Json.get?, get?_mirrored (by simp), htype] at heq
      exact heq
    whole := by
      rw [← representable_mirrored hfree]
      exact hagree.whole
    members := ⟨xs, ys, hxs, hys, hsame.symm⟩
    url := fun htrue => by
      have hequal := hagree.url (htest htrue)
      rwa [getD_mirrored (by simp), getD_obj (hprobe htrue).1] at hequal
    interval := fun htrue => by
      obtain ⟨n, hn, hfield⟩ := (hprobe htrue).2.1
      have hequal := hagree.interval (htest htrue)
      rw [getD_mirrored (by simp), getD_obj hfield] at hequal
      exact ⟨n, hn, hequal⟩
    tolerance := fun htrue => by
      have hequal := hagree.tolerance (htest htrue)
      rwa [getD_mirrored (by simp), getD_obj (hprobe htrue).2.2] at hequal }

/-! ### The whole document -/

theorem pairwise_of_forall₂ {α β : Type} {R : α → β → Prop} {T : β → β → Prop} {T' : α → α → Prop}
    {xs : List α} {ys : List β} (h : List.Forall₂ R xs ys)
    (hT : ∀ x x' y y', R x y → R x' y' → T y y' → T' x x') (hys : ys.Pairwise T) : xs.Pairwise T' := by
  induction h with
  | nil => exact .nil
  | cons hxy hrest ih =>
      rw [List.pairwise_cons] at hys
      refine List.pairwise_cons.mpr ⟨fun x' hx' => ?_, ih hys.2⟩
      obtain ⟨y', hy', hR⟩ := exists_of_forall₂ hrest hx'
      exact hT _ _ _ _ hxy hR (hys.1 y' hy')

/-- An accepted document of schema 2 is merged, and its halves agree. -/
theorem merged_of_lists (htwo : DeclaresTwo model) (hlists : MembersAreLists model)
    (h : migrateOn S U model = .ok result) : Merged U model result ∧ HalvesAgree U model := by
  obtain ⟨run⟩ := legacyRun_of_accepted htwo h
  obtain ⟨-, huniq, canonical, hcanonical, hown⟩ := canonicalGroups_cases run.canonicalRun
  obtain ⟨huniq', mirrors, hmirrors, hmirrorOf⟩ := mirrorGroups_cases run.mirrorRun
  rw [List.nil_append] at hcanonical hmirrors
  rw [← hcanonical] at hown
  rw [← hmirrors] at hmirrorOf
  have huniq := huniq List.nodup_nil
  have huniq' := huniq' List.nodup_nil
  obtain ⟨hmerged, hagree, hall⟩ := reconcileGroup_cases huniq run.reconciled
  have hall := hall rfl
  -- every group outbound has its mirror, so that nothing is added to the metadata
  have hmerged : run.merged = run.mirrors := by
    rw [hmerged, List.filter_eq_nil_iff.mpr (by simpa using hall), List.append_nil]
  have houts : groupOutbounds model = run.outbounds.filter isGroupOutbound := by
    rw [groupOutbounds, outboundsOf, run.outboundsAt]
  have hraws : mirrorsOf model = run.raws := by
    rw [mirrorsOf, run.rawsAt]
  have hpasses := run.passes
  rw [hmerged, List.forall₂_map_left_iff] at hpasses
  have hgroups : policyGroups result = run.groups := run.groupsAt
  have htriple : ∀ entry ∈ run.mirrors, ∃ raw ∈ run.raws, ∃ group ∈ run.groups,
      MirrorOf U run.direct raw entry ∧ raw.get? "name" = some (.str entry.1) ∧
        group.get? "name" = some (.str entry.1) ∧ Taken U run.direct raw group := by
    intro entry hentry
    obtain ⟨raw, hraw, hmirror⟩ := exists_of_forall₂ hmirrorOf.flip hentry
    obtain ⟨group, hgroup, hpass⟩ := exists_of_forall₂ hpasses hentry
    have htaken := taken_of_passes hmirror hpass
    exact ⟨raw, hraw, group, hgroup, hmirror, htaken.1, htaken.2.1, htaken.2.2⟩
  have hkept : ∀ outbound ∈ groupOutbounds model, ∃ raw ∈ mirrorsOf model,
      ∃ group ∈ policyGroups result, group.get? "name" = outbound.get? "tag" ∧
        raw.get? "name" = outbound.get? "tag" ∧ SameGroup U run.direct outbound raw ∧
        Taken U run.direct raw group := by
    intro outbound houtbound
    have hlist := hlists outbound houtbound
    rw [houts] at houtbound
    obtain ⟨own, hcanon, hentry⟩ := exists_of_forall₂ hown houtbound
    obtain ⟨fields, hget⟩ := Option.isSome_iff_exists.mp
      (Dict.get?_isSome_iff.mpr (hall own hcanon))
    obtain ⟨raw, hraw, group, hgroup, hmirror, hname, hname', htaken⟩ :=
      htriple _ (Dict.mem_of_get? hget)
    obtain ⟨part, -, hfits⟩ := exists_of_forall₂ run.fits hgroup
    have htag := canonicalGroup_tag hentry
    rw [hraws, hgroups]
    refine ⟨raw, hraw, group, hgroup, hname'.trans htag.symm, hname.trans htag.symm, ?_, htaken⟩
    obtain ⟨fields', rfl, -, hfields⟩ := hmirror
    have hsays := hagree own hcanon fields hget
    rw [show fields = mirrored run.direct fields' from hfields] at hsays
    exact sameGroup_of_agrees run.directFree hentry hlist hsays htaken hfits
  have hnames : groupNames (policyGroups result) = run.parts.map GroupPart.name := by
    rw [hgroups]
    exact groupNames_of_fits run.fits
  refine ⟨?_, ?_⟩
  · exact {
      ordered := by
        rw [hraws, hgroups]
        refine (forall₂_comp hmirrorOf hpasses).imp fun raw group hcomp => ?_
        obtain ⟨entry, hmirror, hpass⟩ := hcomp
        have htaken := taken_of_passes hmirror hpass
        exact ⟨entry.1, htaken.1, htaken.2.1⟩
      once := by
        rw [hnames]
        exact run.namesOnce
      outboundsOnce := by
        rw [houts]
        have hkeys : run.canonical.Pairwise (fun e e' => e.1 ≠ e'.1) := List.pairwise_map.mp huniq
        refine pairwise_of_forall₂ hown (fun o o' e e' he he' hne => ?_) hkeys
        rw [canonicalGroup_tag he, canonicalGroup_tag he']
        simpa using hne
      kept := by
        intro outbound houtbound
        obtain ⟨raw, hraw, group, hgroup, hname, hname', hsame, htaken⟩ := hkept outbound houtbound
        exact ⟨raw, hraw, group, hgroup, run.direct, run.directTag, hname, hname', hsame, htaken⟩ }
  · exact {
      mirrored := by
        intro direct hdirect outbound houtbound
        cases run.directTag.symm.trans hdirect
        obtain ⟨raw, hraw, group, -, -, hname, hsame, -⟩ := hkept outbound houtbound
        exact ⟨raw, hraw, hname, hsame⟩
      editable := by
        intro raw hraw hedit
        rw [hraws] at hraw
        obtain ⟨entry, hentry, hmirror⟩ := exists_of_forall₂ hmirrorOf hraw
        obtain ⟨fields, rfl, hname, hfields⟩ := hmirror
        have hcheck := forM_eq_ok.mp run.checked entry (hmerged ▸ hentry)
        rw [checkMirrored_eq, hfields] at hcheck
        cases hcontains : Dict.contains run.canonical entry.1 with
        | true =>
            obtain ⟨own, hown', hkey⟩ := List.mem_map.mp (Dict.get?_isSome_iff.mp hcontains)
            obtain ⟨outbound, houtbound, hcanon⟩ := exists_of_forall₂ hown.flip hown'
            refine ⟨outbound, houts ▸ houtbound, ?_⟩
            rw [canonicalGroup_tag hcanon, hkey]
            exact get?_of_getD (validateName_cases hname).1 (by simp)
        | false =>
            rw [hcontains, getD_mirrored (by simp)] at hcheck
            obtain ⟨isEditable, hwithin, hcheck⟩ := bind_eq_ok.mp hcheck
            obtain rfl : isEditable = true := (within_str hwithin).trans hedit.1
            rw [representable_mirrored run.directFree, hedit.2] at hcheck
            simp at hcheck }

/-- Accepted documents of schema 2 are merged and disagreements refused, iff no disagreement is a
fault and the members of the group outbounds of what is let through are lists. -/
theorem mergeSafe_iff (htwo : DeclaresTwo model) :
    MergeSafe S U model ↔ (HalvesAgree U model ∨ WellTyped S U model) ∧
      ∀ result, migrateOn S U model = .ok result → MembersAreLists model := by
  constructor
  · intro h
    constructor
    · by_cases hagree : HalvesAgree U model
      · exact Or.inl hagree
      · exact Or.inr ((migrate_total_iff S U model).mp (Or.inr (h.refused hagree)))
    · intro result hresult outbound houtbound
      obtain ⟨raw, -, group, -, direct, -, -, -, hsame, -⟩ := (h.merged result hresult).kept outbound houtbound
      obtain ⟨xs, ys, hxs, -⟩ := hsame.members
      cases hget : outbound.get? "outbounds" with
      | none => rfl
      | some value =>
          rw [getD_of_get? hget] at hxs
          rw [hxs]
          rfl
  · intro ⟨hfault, hlists⟩
    constructor
    · exact fun result hresult => (merged_of_lists htwo (hlists result hresult) hresult).1
    · intro hdisagree
      rcases (migrate_total_iff S U model).mpr (hfault.resolve_left hdisagree) with ⟨result, hresult, -⟩ | he
      · exact absurd (merged_of_lists htwo (hlists result hresult) hresult).2 hdisagree
      · exact he

/-- A document of schema 2 with one group in both halves. -/
def mirroredDocument (members proxies : Json) : Json :=
  .obj [
    ("outbounds", .arr [
      .obj [("type", .str "direct"), ("tag", .str "JP")],
      .obj [("type", .str "shadowsocks"), ("tag", .str "A")],
      .obj [("type", .str "selector"), ("tag", .str "pick"), ("outbounds", members)]]),
    ("route", .obj [("final", .str "pick")]),
    ("_pdg", .obj [("schema", .int 2), ("mihomo", .obj [("proxy-groups", .arr [
      .obj [("name", .str "pick"), ("type", .str "select"), ("proxies", proxies)]])])])]

/-- The same document in schema 3. -/
def mergedDocument (proxies : List Json) : Json :=
  .obj [
    ("outbounds", .arr [
      .obj [("type", .str "direct"), ("tag", .str "JP")],
      .obj [("type", .str "shadowsocks"), ("tag", .str "A")]]),
    ("route", .obj [("final", .str "pick")]),
    ("_pdg", metaJson (.arr [
      .obj [("name", .str "pick"), ("type", .str "select"), ("proxies", .arr proxies),
        ("use", .arr [])]]) ⟨[], [], [], []⟩)]

/-- With lists in both halves the law holds; `DIRECT` in the metadata is the direct tag. -/
theorem mergeSafe_listed : MergeSafe ⟨100, 100⟩ plainUnicode
    (mirroredDocument (.arr [.str "A", .str "JP"]) (.arr [.str "A", .str "DIRECT"])) := by
  have hresult : migrateOn ⟨100, 100⟩ plainUnicode
      (mirroredDocument (.arr [.str "A", .str "JP"]) (.arr [.str "A", .str "DIRECT"])) =
        .ok (mergedDocument [.str "A", .str "JP"]) := by
    rfl
  refine (mergeSafe_iff ⟨rfl, by decide⟩).mpr ⟨Or.inr ?_, fun _ _ outbound houtbound => ?_⟩
  · exact (migrate_total_iff _ _ _).mp (Or.inl ⟨_, hresult, rfl⟩)
  · rw [List.mem_singleton.mp (show outbound ∈ [_] from houtbound)]
    rfl

/-- The letters of a text count as the members of the other half, and a number in the metadata is
a fault. -/
theorem textMembers_merged :
    migrateOn ⟨100, 100⟩ plainUnicode (mirroredDocument (.str "A") (.arr [.str "A"])) =
        .ok (mergedDocument [.str "A"]) ∧
      ¬ HalvesAgree plainUnicode (mirroredDocument (.str "A") (.arr [.str "A"])) ∧
      ¬ MergeSafe ⟨100, 100⟩ plainUnicode (mirroredDocument (.str "A") (.arr [.str "A"])) ∧
      migrateOn ⟨100, 100⟩ plainUnicode (mirroredDocument (.arr [.str "A"]) (.int 5)) =
        Py.fault .type := by
  have hresult : migrateOn ⟨100, 100⟩ plainUnicode (mirroredDocument (.str "A") (.arr [.str "A"])) =
      .ok (mergedDocument [.str "A"]) := by
    rfl
  have hdisagree : ¬ HalvesAgree plainUnicode (mirroredDocument (.str "A") (.arr [.str "A"])) := by
    intro h
    obtain ⟨raw, -, -, hsame⟩ := h.mirrored "JP" rfl _ List.mem_cons_self
    obtain ⟨xs, ys, hxs, -⟩ := hsame.members
    cases hxs
  refine ⟨hresult, hdisagree, fun h => ?_, rfl⟩
  obtain ⟨e, he⟩ := h.refused hdisagree
  rw [hresult] at he
  cases he

end ProxyGateway.Schema
