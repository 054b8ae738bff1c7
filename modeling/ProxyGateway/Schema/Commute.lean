import ProxyGateway.Schema.Renamed

set_option autoImplicit false

/-!
# ProxyGateway.Schema.Commute

A document that was rewritten in its own schema migrates to the document that `rebind_direct`
returns, exactly when every reference to the direct tag is spelled like the tag and the members of
every group can be visited (`preserve_commutes_iff`).
-/

namespace ProxyGateway.Schema

open Py Json

variable {U : Unicode} {old new direct key : String} {fields route : Dict String Json}
  {outbounds kept groups : List Json} {model result : Json} {m : MihomoMeta} {schema : Int}

/-! ### The run of `rebind_direct_preserve_schema` -/

theorem containers_of_mapM {xs ys : List Json} (h : xs.mapM (preserveGroup old new) = .ok ys) :
    ∀ g ∈ xs, (g.getD "proxies" (.arr [])).isContainer = true := by
  intro g hg
  obtain ⟨y, -, hy⟩ := exists_of_forall₂ (mapM_forall₂ h) hg
  exact isContainer_of_preserveGroup hy

theorem mapM_preserveGroup {xs : List Json}
    (h : ∀ g ∈ xs, (g.getD "proxies" (.arr [])).isContainer = true) :
    xs.mapM (preserveGroup old new) = .ok (xs.map (renamedGroup old new)) := by
  refine mapM_of_forall₂ ?_
  rw [List.forall₂_map_right_iff, List.forall₂_same]
  exact fun g hg => preserveGroup_eq (h g hg)

/-- The loop over the groups in a field, where the field is a list or missing. -/
theorem referList_preserveGroup_iff {gs : List Json} {d : Dict String Json}
    (hgs : (Json.obj fields).getD key (.arr []) = .arr gs) :
    referList key (preserveGroup old new) fields = .ok d ↔
      (∀ g ∈ gs, (g.getD "proxies" (.arr [])).isContainer = true) ∧
        d = canonicalItems key (renamedGroup old new) fields := by
  cases hget : Dict.get? fields key with
  | none =>
      have hempty : gs = [] := by simpa [getD, get?, hget] using hgs.symm
      have hkeep : canonicalItems key (renamedGroup old new) fields = fields := by
        simp only [canonicalItems, hget]
      rw [hkeep, referList, hget, hempty]
      show Except.ok fields = _ ↔ _
      rw [Except.ok.injEq]
      exact ⟨fun h => ⟨by simp, h.symm⟩, fun h => h.2.symm⟩
  | some value =>
      have hvalue : value = .arr gs := by
        rw [getD_obj hget] at hgs
        exact hgs
      rw [hvalue] at hget
      have hwritten : canonicalItems key (renamedGroup old new) fields =
          Dict.set fields key (.arr (gs.map (renamedGroup old new))) := by
        simp only [canonicalItems, hget]
      rw [hwritten, referList, hget]
      simp only [Option.getD_some]
      constructor
      · intro h
        obtain ⟨ys, hys, h⟩ := bind_eq_ok.mp h
        have hall := containers_of_mapM hys
        rw [mapM_preserveGroup hall] at hys
        exact ⟨hall, by rw [← pure_eq_ok.mp h, ← Except.ok.inj hys]⟩
      · rintro ⟨hall, rfl⟩
        rw [mapM_preserveGroup hall]
        rfl

/-- The groups of the metadata, where a document of either schema keeps them. -/
def rawGroups (model : Json) : List Json := policyGroups model ++ mirrorsOf model

theorem preserveMeta_iff {gs raws : List Json} {pdg d : Dict String Json}
    (hgs : (Json.obj pdg).getD "policy-groups" (.arr []) = .arr gs)
    (hraws : ∀ mihomo, Dict.get? pdg "mihomo" = some (.obj mihomo) →
      (Json.obj mihomo).getD "proxy-groups" (.arr []) = .arr raws)
    (hnone : (∀ mihomo, Dict.get? pdg "mihomo" ≠ some (.obj mihomo)) → raws = []) :
    preserveMeta old new pdg = .ok d ↔
      (∀ g ∈ gs ++ raws, (g.getD "proxies" (.arr [])).isContainer = true) ∧ d = preservedMeta old new pdg := by
  have hmihomo : Dict.get? (canonicalItems "policy-groups" (renamedGroup old new) pdg) "mihomo" =
      Dict.get? pdg "mihomo" := get?_canonicalItems_ne (by simp)
  rw [preserveMeta, List.forall_mem_append]
  constructor
  · intro h
    obtain ⟨pdg', hpdg', h⟩ := bind_eq_ok.mp h
    obtain ⟨hall, rfl⟩ := (referList_preserveGroup_iff hgs).mp hpdg'
    split at h
    · next mihomo hget =>
      rw [hmihomo] at hget
      obtain ⟨mihomo', hmihomo', h⟩ := bind_eq_ok.mp h
      obtain ⟨hall', rfl⟩ := (referList_preserveGroup_iff (hraws mihomo hget)).mp hmihomo'
      refine ⟨⟨hall, hall'⟩, ?_⟩
      rw [preservedMeta, onObject, hmihomo, hget]
      exact (pure_eq_ok.mp h).symm
    · next hother =>
      rw [hmihomo] at hother
      refine ⟨⟨hall, by simp [hnone fun mihomo hget => hother mihomo hget]⟩, ?_⟩
      rw [preservedMeta, onObject_of_not_dict (fun mihomo hget => hother mihomo (by rw [← hmihomo, hget]))]
      exact (pure_eq_ok.mp h).symm
  · rintro ⟨⟨hall, hall'⟩, rfl⟩
    rw [(referList_preserveGroup_iff hgs).mpr ⟨hall, rfl⟩, ok_bind, hmihomo, preservedMeta]
    by_cases hdict : ∃ mihomo, Dict.get? pdg "mihomo" = some (.obj mihomo)
    · obtain ⟨mihomo, hget⟩ := hdict
      rw [onObject, hmihomo, hget]
      simp only [(referList_preserveGroup_iff (hraws mihomo hget)).mpr ⟨hall', rfl⟩, ok_bind]
      rfl
    · rw [onObject_of_not_dict (fun mihomo hget => hdict ⟨mihomo, by rw [← hmihomo, hget]⟩)]
      split
      · next mihomo hget => exact absurd ⟨mihomo, hget⟩ hdict
      · rfl

/-- The metadata of an accepted document, which may be missing. -/
theorem Source.metadata (h : Source U fields outbounds route schema kept groups m direct) :
    ∃ pdg, pdgOf (.obj fields) = .obj pdg ∧
      (Dict.get? fields "_pdg" = some (.obj pdg) ∨
        pdg = [] ∧ ∀ d, Dict.get? fields "_pdg" ≠ some (.obj d)) := by
  by_cases hdict : ∃ pdg, Dict.get? fields "_pdg" = some (.obj pdg)
  · obtain ⟨pdg, hpdg⟩ := hdict
    refine ⟨pdg, ?_, .inl hpdg⟩
    rw [pdgOf, getD_obj hpdg]
    cases pdg <;> rfl
  · have hempty : pdgOf (.obj fields) = .obj [] :=
      orEmpty_of_not_dict h.pdgDict fun pdg hpdg => hdict ⟨pdg, get?_of_getD hpdg (by simp)⟩
    exact ⟨[], hempty, .inr ⟨rfl, fun d hd => hdict ⟨d, hd⟩⟩⟩

/-- The Mihomo metadata, which may be missing. -/
theorem mihomo_of_pdg {pdg : Dict String Json} (hpdg : pdgOf (.obj fields) = .obj pdg)
    (h : isDict (mihomoOf (.obj fields)) = true) :
    ∃ mihomo, mihomoOf (.obj fields) = .obj mihomo ∧
      (Dict.get? pdg "mihomo" = some (.obj mihomo) ∨
        mihomo = [] ∧ ∀ d, Dict.get? pdg "mihomo" ≠ some (.obj d)) := by
  have hread : mihomoOf (.obj fields) = orEmpty ((Json.obj pdg).getD "mihomo" .null) := by
    rw [mihomoOf, hpdg]
  rw [hread] at h ⊢
  by_cases hdict : ∃ mihomo, Dict.get? pdg "mihomo" = some (.obj mihomo)
  · obtain ⟨mihomo, hget⟩ := hdict
    refine ⟨mihomo, ?_, .inl hget⟩
    rw [getD_obj hget]
    cases mihomo <;> rfl
  · have hempty := orEmpty_of_not_dict h fun d hd => hdict ⟨d, get?_of_getD hd (by simp)⟩
    exact ⟨[], hempty, .inr ⟨rfl, fun d hd => hdict ⟨d, hd⟩⟩⟩

theorem policyGroups_of_pdg {pdg : Dict String Json} (h : Dict.get? fields "_pdg" = some (.obj pdg) ∨
      pdg = [] ∧ ∀ d, Dict.get? fields "_pdg" ≠ some (.obj d)) {gs : List Json}
    (hgs : (Json.obj pdg).getD "policy-groups" (.arr []) = .arr gs) : policyGroups (.obj fields) = gs := by
  have hvalue : (Json.obj pdg).getD "policy-groups" .null = .arr gs ∨
      (Json.obj pdg).getD "policy-groups" .null = .null ∧ gs = [] := by
    cases hget : Dict.get? pdg "policy-groups" with
    | none =>
        refine .inr ⟨by simp [getD, get?, hget], ?_⟩
        simpa [getD, get?, hget] using hgs.symm
    | some v =>
        rw [getD_obj hget] at hgs
        exact .inl (by rw [getD_obj hget, hgs])
  rcases h with hpdg | ⟨rfl, hother⟩
  · rw [policyGroups, getD_obj hpdg]
    rcases hvalue with hvalue | ⟨hvalue, hempty⟩
    · rw [hvalue]
    · rw [hvalue, hempty]
  · have hempty : gs = [] := by simpa [getD, get?] using hgs.symm
    rw [hempty, policyGroups]
    cases hpdg : (Json.obj fields).getD "_pdg" .null with
    | obj d => exact absurd (get?_of_getD hpdg (by simp)) (hother d)
    | _ => rfl

/-- A document of schema 3: the groups are those of the metadata. -/
theorem Source.three (h : Source U fields outbounds route schema kept groups m direct)
    (hthree : schema = 3) :
    policyGroups (.obj fields) = groups ∧ mirrorsOf (.obj fields) = [] ∧
      ∀ o ∈ outbounds, (o.getD "type" .null).hashable = true ∧ isGroupOutbound o = false := by
  obtain ⟨gs, m', hdeclares⟩ := h.declares hthree
  obtain ⟨pdg, hpdg, hmeta⟩ := hdeclares.pdg
  obtain ⟨mihomo, hmihomo, hfields⟩ := hmeta.mihomo
  have hgroups := h.groupsAt
  rw [pdgOf_of_get hpdg, groupsOf] at hgroups
  simp only [hthree, if_true, getD_obj hmeta.groups, items_arr] at hgroups
  obtain ⟨isGroup, hany, hgroups⟩ := bind_eq_ok.mp hgroups
  obtain ⟨hfalse, hgroups⟩ := raiseIf_bind_eq_ok.mp hgroups
  have hsame := pure_eq_ok.mp hgroups
  simp only [Prod.mk.injEq] at hsame
  rw [hfalse] at hany
  refine ⟨?_, ?_, anyGroup_false_iff.mp hany⟩
  · rw [policyGroups, getD_obj hpdg, getD_obj hmeta.groups]
    exact hsame.2
  · have hnone : Dict.get? mihomo "proxy-groups" = none := by
      rw [Dict.get?_eq_none_iff]
      intro hmem
      have := sameKeys_subset hfields.keys _ hmem
      simp [v3MihomoFields] at this
    have hread : mihomoOf (.obj fields) = .obj mihomo := by
      rw [mihomoOf, pdgOf_of_get hpdg, getD_obj hmihomo]
      cases mihomo <;> rfl
    rw [mirrorsOf, hread]
    simp [getD, get?, hnone]

/-- A document of an older schema keeps no groups under the key of schema 3. -/
theorem Source.legacy (h : Source U fields outbounds route schema kept groups m direct)
    (hthree : schema ≠ 3) :
    policyGroups (.obj fields) = [] ∧ legacyGroups U (.obj fields) outbounds (mihomoOf (.obj fields))
      (schema = 2) = .ok groups ∧ kept = outbounds.filter (fun o => !isGroupOutbound o) := by
  obtain ⟨pdg, hpdg, hcases⟩ := h.metadata
  have hgroups := h.groupsAt
  rw [hpdg, groupsOf] at hgroups
  simp only [hthree, if_false] at hgroups
  obtain ⟨hextra, hgroups⟩ := raiseIf_bind_eq_ok.mp hgroups
  obtain ⟨gs, hlegacy, hgroups⟩ := bind_eq_ok.mp hgroups
  obtain ⟨rest, hrest, hgroups⟩ := bind_eq_ok.mp hgroups
  have hsame := pure_eq_ok.mp hgroups
  simp only [Prod.mk.injEq] at hsame
  have hnone : Dict.get? pdg "policy-groups" = none := by
    rw [Dict.get?_eq_none_iff]
    intro hmem
    rw [fields?, Option.getD_some, extraKeys, List.any_eq_false] at hextra
    have := hextra _ hmem
    simp at this
  refine ⟨policyGroups_of_pdg hcases (by simp [getD, get?, hnone]), ?_, ?_⟩
  · rw [← hsame.2]
    exact hlegacy
  · rw [← hsame.1]
    exact kept_outbounds (legacyGroups_hashable hlegacy) hrest

/-! ### What is accepted -/

/-- The members of a group that passes are texts. -/
theorem texts_of_passes {group named referred : Json} (hname : nameGroup U group = .ok named)
    (hrefer : referGroup U named = .ok referred) :
    ∀ x ∈ (group.getD "proxies" (.arr [])).entries, isText x = true := by
  have hall : ∀ x ∈ (named.getD "proxies" (.arr [])).entries, isText x = true := by
    cases named with
    | obj fields =>
        obtain ⟨members, hmembers, hrefer⟩ := bind_eq_ok.mp hrefer
        obtain ⟨proxies, hproxies, -⟩ := bind_eq_ok.mp hrefer
        rw [← membersOf_eq hmembers]
        intro x hx
        obtain ⟨y, -, hy⟩ := exists_of_forall₂ (mapM_forall₂ hproxies) hx
        split at hy
        · next hreject =>
          rw [hreject]
          rfl
        · obtain ⟨⟨s, rfl⟩, -⟩ := reference_canonical hy
          rfl
    | _ => simp [getD, get?, Json.entries]
  have hsame := (forall_members_named (P := fun x => isText x = true) (.cons hname .nil)).mp
    (by simpa using hall)
  simpa using hsame

/-- A group of the metadata that passes is plain. -/
theorem plain_of_passes {named referred : Json} {part : GroupPart} (halias : NormalText U "DIRECT")
    (hname : nameGroup U (.obj (mirrored direct fields)) = .ok named)
    (hrefer : referGroup U named = .ok referred) (hfits : GroupFits U referred part)
    (hknown : "DIRECT" ∉ part.proxies) : Plain fields := by
  by_cases hlist : isList ((Json.obj fields).getD "proxies" (.arr [])) = true
  · cases hvalue : (Json.obj fields).getD "proxies" (.arr []) with
    | arr ys => exact plain_of_list hvalue
    | _ =>
        rw [hvalue] at hlist
        simp [isList] at hlist
  · rw [mirrored_other (Bool.eq_false_iff.mpr hlist)] at hname
    obtain ⟨-, members, -, hmembers, -, hproxies, -⟩ := group_passes hname hrefer
    have hentries := membersOf_eq hmembers
    have hparts : members.map (canonicalMember U) = part.proxies.map Json.str := by
      have hread := hfits.proxies
      rw [getD_of_get? hproxies] at hread
      exact Json.arr.inj hread
    rw [hentries] at hparts
    refine ⟨fun _ hmem => hknown ?_, fun s hs hreject => ?_⟩
    · have hmapped := List.mem_map_of_mem (f := canonicalMember U) hmem
      rw [hparts, canonicalMember, if_neg (by simp), canonicalRef, canonicalText_of_normal halias] at hmapped
      simpa using hmapped
    · -- a text with `REJECT` in it has one letter twice
      have hnodup : (part.proxies.map Json.str).Nodup := hfits.distinct.map fun _ _ h => Json.str.inj h
      rw [← hparts, hs] at hnodup
      have hchars : s.toList.Nodup := by
        have := hnodup.of_map
        exact (show (s.toList.map _).Nodup from this).of_map
      exact absurd (hchars.sublist hreject.sublist) (by decide)

/-- No group of a migrated document has the alias of the direct tag as a member. -/
theorem Valid.alias_not_member {outs gs : List Json} {tags : List String} {parts : List GroupPart}
    (hv : Valid U outs gs m route direct tags parts) {part : GroupPart} (hpart : part ∈ parts) :
    "DIRECT" ∉ part.proxies := by
  intro hmem
  have hknown := (validateMembers_cases (hv.members part hpart)).1 _ hmem
  have hnot := hv.unreserved "DIRECT"
  simp only [List.mem_append, List.mem_singleton] at hknown hnot
  rcases hknown with (htag | hgroup) | hreject
  · rw [← outboundTags_of_named hv.named] at hnot
    exact hnot (.inl (.inl (.inl (outboundTags_filter htag)))) (by simp [reservedTargets])
  · exact hnot (.inl (.inl (.inr hgroup))) (by simp [reservedTargets])
  · simp at hreject

/-! ### The two halves of an older document -/

/-- The groups of an older document, with where they come from. -/
structure Halves (U : Unicode) (fields : Dict String Json) (outbounds : List Json) (direct : String)
    (groups : List Json) (canonical mirrors merged : GroupDict) : Prop where
  own : List.Forall₂ (fun o entry => canonicalGroup U o direct = .ok entry)
    (outbounds.filter isGroupOutbound) canonical
  mirror : List.Forall₂ (MirrorOf U direct) (mirrorsOf (.obj fields)) mirrors
  merge : merged = mirrors ++ canonical.filter (fun entry => entry.1 ∉ mirrors.keys)
  agree : ∀ entry ∈ canonical, ∀ found, mirrors.get? entry.1 = some found →
    Agrees (.obj found) (.obj entry.2)
  result : groups = merged.map (fun entry => .obj entry.2)

theorem Source.halves (h : Source U fields outbounds route schema kept groups m direct)
    (hthree : schema ≠ 3) :
    ∃ canonical mirrors merged, Halves U fields outbounds direct groups canonical mirrors merged := by
  obtain ⟨-, hlegacy, -⟩ := h.legacy hthree
  rw [legacyGroups, h.directAt, ok_bind] at hlegacy
  obtain ⟨canonical, hcanonical, hlegacy⟩ := bind_eq_ok.mp hlegacy
  obtain ⟨-, huniq, entries, hentries, hown⟩ := canonicalGroups_cases hcanonical
  rw [List.nil_append] at hentries
  subst hentries
  split at hlegacy
  · next raws hraws =>
    obtain ⟨mirrors, hmirrors, hlegacy⟩ := bind_eq_ok.mp hlegacy
    obtain ⟨merged, hmerged, hlegacy⟩ := bind_eq_ok.mp hlegacy
    obtain ⟨-, hlegacy⟩ := unit_bind_eq_ok.mp hlegacy
    obtain ⟨-, found, hfound, hall⟩ := mirrorGroups_cases hmirrors
    rw [List.nil_append] at hfound
    subst hfound
    obtain ⟨hmerge, hagree, -⟩ := reconcileGroup_cases (huniq List.nodup_nil) hmerged
    have hread : mirrorsOf (.obj fields) = raws := by rw [mirrorsOf, hraws]
    exact ⟨canonical, mirrors, merged, hown, by rw [hread]; exact hall, hmerge, hagree,
      (pure_eq_ok.mp hlegacy).symm⟩
  · simp at hlegacy

/-- The members of an entry. -/
def entryMembers (entry : String × Dict String Json) : List Json :=
  ((Json.obj entry.2).getD "proxies" (.arr [])).entries

theorem spelled_toDirect (halias : NormalText U "DIRECT") (hne : direct ≠ "DIRECT") {x : Json} :
    Spelled U direct (toDirect direct x) ↔ Spelled U direct x := by
  rw [toDirect]
  split
  · next hx =>
    rw [hx, spelled_of_reference, spelled_of_reference, canonicalText_of_normal halias]
    exact iff_of_true (fun _ => rfl) fun h => absurd h.symm hne
  · rfl

theorem spelled_mirrored (halias : NormalText U "DIRECT") (hne : direct ≠ "DIRECT")
    {raw : Json} {entry : String × Dict String Json} (hmirror : MirrorOf U direct raw entry) :
    (∀ x ∈ entryMembers entry, Spelled U direct x) ↔
      ∀ x ∈ (raw.getD "proxies" (.arr [])).entries, Spelled U direct x := by
  obtain ⟨fields, rfl, -, hfields⟩ := hmirror
  rw [entryMembers, hfields]
  by_cases hlist : isList ((Json.obj fields).getD "proxies" (.arr [])) = true
  · cases hvalue : (Json.obj fields).getD "proxies" (.arr []) with
    | arr ys =>
        rw [mirrored_list hvalue, Json.entries, Json.entries, List.forall_mem_map]
        exact forall₂_congr fun x _ => spelled_toDirect halias hne
    | _ =>
        rw [hvalue] at hlist
        simp [isList] at hlist
  · rw [mirrored_other (Bool.eq_false_iff.mpr hlist)]

theorem spelled_canonical (halias : NormalText U "DIRECT") (hne : direct ≠ "DIRECT")
    {o : Json} {entry : String × Dict String Json} (hown : canonicalGroup U o direct = .ok entry) :
    (∀ x ∈ entryMembers entry, Spelled U direct x) ↔
      ∀ x ∈ (o.getD "outbounds" (.arr [])).entries, Spelled U direct x := by
  rw [entryMembers, getD_obj (canonicalGroup_members hown).2, Json.entries, List.forall_mem_map]
  exact forall₂_congr fun x _ => spelled_toDirect halias hne

/-- A group of the outbounds and its mirror have the same members. -/
theorem members_of_agrees {found : Dict String Json} {o : Json} {entry : String × Dict String Json}
    (hown : canonicalGroup U o direct = .ok entry) (hagree : Agrees (.obj found) (.obj entry.2))
    (htexts : ∀ x ∈ ((Json.obj found).getD "proxies" (.arr [])).entries, isText x = true) :
    entryMembers entry = ((Json.obj found).getD "proxies" (.arr [])).entries := by
  have hmembers := hagree.members
  have hget := (canonicalGroup_members hown).2
  rw [entryMembers, getD_obj hget]
  rw [getD_obj hget] at hmembers
  cases hvalue : (Json.obj found).getD "proxies" (.arr []) with
  | arr xs =>
      rw [hvalue] at htexts hmembers
      simp only [Json.equal, Json.same, Bool.and_eq_true] at hmembers
      exact (sameList_texts hmembers.2 (List.all_eq_true.mpr htexts)).symm
  | float v => cases v <;> simp_all [Json.equal, Json.same, Json.number?]
  | _ => simp_all [Json.equal, Json.same, Json.number?]

/-- The members of all groups of an older document, and the members as both halves spell them. -/
theorem Halves.spelled_iff {canonical mirrors merged : GroupDict}
    (h : Halves U fields outbounds direct groups canonical mirrors merged)
    (halias : NormalText U "DIRECT") (hne : direct ≠ "DIRECT")
    (htexts : ∀ g ∈ groups, ∀ x ∈ (g.getD "proxies" (.arr [])).entries, isText x = true) :
    (∀ g ∈ groups, ∀ x ∈ (g.getD "proxies" (.arr [])).entries, Spelled U direct x) ↔
      (∀ o ∈ outbounds.filter isGroupOutbound, ∀ x ∈ (o.getD "outbounds" (.arr [])).entries,
        Spelled U direct x) ∧
        ∀ raw ∈ mirrorsOf (.obj fields), ∀ x ∈ (raw.getD "proxies" (.arr [])).entries,
          Spelled U direct x := by
  have hmirrorsMem : ∀ e ∈ mirrors, Json.obj e.2 ∈ groups := by
    intro e he
    rw [h.result, h.merge]
    exact List.mem_map_of_mem (List.mem_append_left _ he)
  constructor
  · intro hall
    have hmirrors : ∀ e ∈ mirrors, ∀ x ∈ entryMembers e, Spelled U direct x :=
      fun e he => hall _ (hmirrorsMem e he)
    constructor
    · intro o ho
      obtain ⟨entry, hentry, hown⟩ := exists_of_forall₂ h.own ho
      rw [← spelled_canonical halias hne hown]
      by_cases hmem : entry.1 ∈ mirrors.keys
      · -- the mirror has the same members
        obtain ⟨found, hfound⟩ := Option.isSome_iff_exists.mp (Dict.get?_isSome_iff.mpr hmem)
        have hin := Dict.mem_of_get? hfound
        rw [members_of_agrees hown (h.agree entry hentry found hfound) (htexts _ (hmirrorsMem _ hin))]
        exact hmirrors _ hin
      · refine hall (.obj entry.2) ?_
        rw [h.result, h.merge]
        refine List.mem_map_of_mem (f := fun entry : String × Dict String Json => Json.obj entry.2)
          (List.mem_append_right _ ?_)
        exact List.mem_filter.mpr ⟨hentry, by simpa using hmem⟩
    · intro raw hraw
      obtain ⟨entry, hentry, hmirror⟩ := exists_of_forall₂ h.mirror hraw
      rw [← spelled_mirrored halias hne hmirror]
      exact hmirrors entry hentry
  · rintro ⟨hown, hmirror⟩ g hg
    rw [h.result, h.merge] at hg
    obtain ⟨entry, hentry, rfl⟩ := List.mem_map.mp hg
    rcases List.mem_append.mp hentry with hentry | hentry
    · obtain ⟨raw, hraw, hof⟩ := exists_of_forall₂ h.mirror.flip hentry
      exact (spelled_mirrored halias hne hof).mpr (hmirror raw hraw)
    · obtain ⟨o, ho, hof⟩ := exists_of_forall₂ h.own.flip (List.mem_of_mem_filter hentry)
      exact (spelled_canonical halias hne hof).mpr (hown o ho)

/-- The outbounds that are kept are those that are no groups. -/
theorem Source.kept_eq (h : Source U fields outbounds route schema kept groups m direct) :
    kept = outbounds.filter (fun o => !isGroupOutbound o) := by
  by_cases hthree : schema = 3
  · have hnone := (h.three hthree).2.2
    have hgroups := h.groupsAt
    rw [groupsOf] at hgroups
    simp only [hthree, if_true] at hgroups
    obtain ⟨isGroup, -, hgroups⟩ := bind_eq_ok.mp hgroups
    obtain ⟨-, hgroups⟩ := raiseIf_bind_eq_ok.mp hgroups
    obtain ⟨items, -, hgroups⟩ := bind_eq_ok.mp hgroups
    have hsame := pure_eq_ok.mp hgroups
    simp only [Prod.mk.injEq] at hsame
    rw [← hsame.1, List.filter_eq_self.mpr]
    exact fun o ho => by simp [(hnone o ho).2]
  · exact (h.legacy hthree).2.2

/-- What the loop over the outbounds reads is there. -/
theorem Source.outbounds_visited (h : Source U fields outbounds route schema kept groups m direct) :
    ∀ o ∈ outbounds, (o.getD "type" .null).hashable = true ∧
      (isGroupOutbound o = true → (o.getD "outbounds" (.arr [])).isContainer = true) := by
  intro o ho
  by_cases hthree : schema = 3
  · obtain ⟨hhash, hgroup⟩ := (h.three hthree).2.2 o ho
    exact ⟨hhash, fun hyes => by rw [hgroup] at hyes; cases hyes⟩
  · obtain ⟨-, hlegacy, -⟩ := h.legacy hthree
    refine ⟨legacyGroups_hashable hlegacy o ho, fun hgroup => ?_⟩
    obtain ⟨canonical, mirrors, merged, hhalves⟩ := h.halves hthree
    obtain ⟨entry, -, hown⟩ := exists_of_forall₂ hhalves.own (List.mem_filter.mpr ⟨ho, hgroup⟩)
    exact (canonicalGroup_members hown).1

/-- The groups of the metadata are lists, where they are there. -/
theorem Source.rawGroups_at (h : Source U fields outbounds route schema kept groups m direct)
    {pdg : Dict String Json} (hpdg : Dict.get? fields "_pdg" = some (.obj pdg)) {d : Dict String Json} :
    preserveMeta old new pdg = .ok d ↔
      (∀ g ∈ rawGroups (.obj fields), (g.getD "proxies" (.arr [])).isContainer = true) ∧
        d = preservedMeta old new pdg := by
  have hread := pdgOf_of_get hpdg
  obtain ⟨mihomo, hmihomo, hcases⟩ := mihomo_of_pdg hread h.mihomoDict
  have hlists : ∃ gs raws, (Json.obj pdg).getD "policy-groups" (.arr []) = .arr gs ∧
      (Json.obj mihomo).getD "proxy-groups" (.arr []) = .arr raws := by
    by_cases hthree : schema = 3
    · obtain ⟨gs, m', hdeclares⟩ := h.declares hthree
      obtain ⟨pdg', hpdg', hmeta⟩ := hdeclares.pdg
      rw [hpdg] at hpdg'
      cases hpdg'
      obtain ⟨mihomo', hmihomo', hfields⟩ := hmeta.mihomo
      have hnone : Dict.get? mihomo "proxy-groups" = none := by
        rcases hcases with hget | ⟨rfl, -⟩
        · rw [hget] at hmihomo'
          cases hmihomo'
          rw [Dict.get?_eq_none_iff]
          intro hmem
          have := sameKeys_subset hfields.keys _ hmem
          simp [v3MihomoFields] at this
        · rfl
      exact ⟨gs, [], getD_obj hmeta.groups, by simp [getD, get?, hnone]⟩
    · obtain ⟨-, hlegacy, -⟩ := h.legacy hthree
      have hgroups := h.groupsAt
      rw [hread, groupsOf] at hgroups
      simp only [hthree, if_false] at hgroups
      obtain ⟨hextra, -⟩ := raiseIf_bind_eq_ok.mp hgroups
      have hnone : Dict.get? pdg "policy-groups" = none := by
        rw [Dict.get?_eq_none_iff]
        intro hmem
        rw [fields?, Option.getD_some, extraKeys, List.any_eq_false] at hextra
        have := hextra _ hmem
        simp at this
      obtain ⟨direct', hdirect, hlegacy⟩ := bind_eq_ok.mp hlegacy
      obtain ⟨canonical, hcanonical, hlegacy⟩ := bind_eq_ok.mp hlegacy
      rw [hmihomo] at hlegacy
      split at hlegacy
      · next raws hraws => exact ⟨[], raws, by simp [getD, get?, hnone], hraws⟩
      · simp at hlegacy
  obtain ⟨gs, raws, hgs, hraws⟩ := hlists
  have hraw : rawGroups (.obj fields) = gs ++ raws := by
    rw [rawGroups, policyGroups_of_pdg (.inl hpdg) hgs, mirrorsOf, hmihomo, hraws]
  rw [hraw]
  refine preserveMeta_iff hgs (fun mihomo' hget => ?_) fun hother => ?_
  · rcases hcases with hsame | ⟨rfl, hnot⟩
    · rw [hsame] at hget
      cases hget
      exact hraws
    · exact absurd hget (hnot mihomo')
  · rcases hcases with hget | ⟨rfl, -⟩
    · exact absurd hget (hother mihomo)
    · simpa [getD, get?] using hraws.symm

theorem preserveRoute_eq {rules : List Json} (hrules : (Json.obj route).getD "rules" (.arr []) = .arr rules) :
    preserveRoute old new route = .ok (renamedRoute old new route) := by
  have hkeep : Dict.get? (renameField old new "final" route) "rules" = Dict.get? route "rules" :=
    get?_renameField_ne (by simp)
  unfold preserveRoute renamedRoute referList
  rw [hkeep]
  cases hget : Dict.get? route "rules" with
  | none => rfl
  | some value =>
      have hvalue : value = .arr rules := by
        rw [getD_obj hget] at hrules
        exact hrules
      have hloop : rules.mapM (fun rule => (.ok (renameRule old new rule) : Py ModelError Json)) =
          .ok (rules.map (renameRule old new)) := by
        refine mapM_of_forall₂ ?_
        rw [List.forall₂_map_right_iff, List.forall₂_same]
        exact fun _ _ => rfl
      rw [hvalue]
      simp only [Option.getD_some, hloop, ok_bind]
      rfl

/-- The run on a document whose destination is accepted. -/
theorem Source.preserve_iff (h : Source U fields outbounds route schema kept groups m old)
    {rules : List Json} (hrules : (Json.obj route).getD "rules" (.arr []) = .arr rules)
    (hrebind : rebindDirect U (.obj fields) (.str new) = .ok result) (htag : tagRe new = true)
    (hne : new ≠ old) {preserved : Json} :
    rebindDirectPreserveSchema U (.obj fields) (.str new) = .ok preserved ↔
      (∀ g ∈ rawGroups (.obj fields), (g.getD "proxies" (.arr [])).isContainer = true) ∧
        preserved = .obj (preservedFields old new outbounds fields) ∧
        ∃ migrated, Schema.migrate U preserved = .ok migrated := by
  have hnew : tag (.str new) "direct tag" = .ok new := by rw [tag, if_pos htag]
  have houts : outbounds.mapM (preserveOutbound old new) =
      .ok (outbounds.map (preservedOutbound old new)) := by
    refine mapM_of_forall₂ ?_
    rw [List.forall₂_map_right_iff, List.forall₂_same]
    exact fun o ho => preserveOutbound_eq (h.outbounds_visited o ho).1 (h.outbounds_visited o ho).2
  obtain ⟨outer, houter⟩ : ∃ outer, outer =
    Dict.set fields "outbounds" (.arr (outbounds.map (preservedOutbound old new))) := ⟨_, rfl⟩
  have hpdgAt : Dict.get? outer "_pdg" = Dict.get? fields "_pdg" := by
    rw [houter, Dict.get?_set_ne (by simp)]
  -- the groups in the metadata are all that can be refused
  have hmeta : ∀ d, withObject "_pdg" (preserveMeta old new) outer = .ok d ↔
      (∀ g ∈ rawGroups (.obj fields), (g.getD "proxies" (.arr [])).isContainer = true) ∧
        d = onObject "_pdg" (preservedMeta old new) outer := by
    intro d
    by_cases hdict : ∃ pdg, Dict.get? fields "_pdg" = some (.obj pdg)
    · obtain ⟨pdg, hpdg⟩ := hdict
      rw [withObject, onObject, hpdgAt, hpdg]
      constructor
      · intro hrun
        obtain ⟨pdg', hpdg', hrun⟩ := bind_eq_ok.mp hrun
        obtain ⟨hall, rfl⟩ := (h.rawGroups_at hpdg).mp hpdg'
        exact ⟨hall, (pure_eq_ok.mp hrun).symm⟩
      · rintro ⟨hall, rfl⟩
        simp only [(h.rawGroups_at hpdg).mpr ⟨hall, rfl⟩, ok_bind]
        rfl
    · have hother : ∀ pdg, Dict.get? outer "_pdg" ≠ some (.obj pdg) := fun pdg hpdg =>
        hdict ⟨pdg, by rw [← hpdgAt, hpdg]⟩
      have hempty : rawGroups (.obj fields) = [] := by
        obtain ⟨pdg, hread, hpdg | ⟨rfl, hnot⟩⟩ := h.metadata
        · exact absurd ⟨pdg, hpdg⟩ hdict
        · have hmihomo : mihomoOf (.obj fields) = .obj [] := by
            rw [mihomoOf, hread]
            rfl
          rw [rawGroups, policyGroups_of_pdg (.inr ⟨rfl, hnot⟩) rfl, mirrorsOf, hmihomo]
          rfl
      have hkeep : withObject "_pdg" (preserveMeta old new) outer = .ok outer := by
        unfold withObject
        split
        · next pdg hpdg => exact absurd hpdg (hother pdg)
        · rfl
      rw [hkeep, hempty, onObject_of_not_dict hother, Except.ok.injEq]
      exact ⟨fun hd => ⟨by simp, hd.symm⟩, fun hd => hd.2.symm⟩
  have hroute : ∀ d : Dict String Json, Dict.get? d "route" = some (.obj route) →
      withObject "route" (preserveRoute old new) d = .ok (onObject "route" (renamedRoute old new) d) := by
    intro d hd
    simp only [withObject, onObject, hd, preserveRoute_eq hrules, ok_bind]
    rfl
  have hrouteAt : Dict.get? (onObject "_pdg" (preservedMeta old new) outer) "route" = some (.obj route) := by
    rw [get?_onObject_ne (by simp), houter, Dict.get?_set_ne (by simp), h.routeAt]
  have hfields : onObject "route" (renamedRoute old new) (onObject "_pdg" (preservedMeta old new) outer) =
      preservedFields old new outbounds fields := by
    rw [preservedFields, houter]
  have hdiscard : discard (Except.ok result : Py ModelError Json) = .ok () := rfl
  rw [rebindDirectPreserveSchema]
  simp only [h.directAt, hnew, hrebind, hdiscard, getD_obj h.outboundsAt, items_arr, houts, Ne.symm hne,
    if_false, ok_bind, ← houter]
  constructor
  · intro hrun
    obtain ⟨d, hd, hrun⟩ := bind_eq_ok.mp hrun
    obtain ⟨hall, rfl⟩ := (hmeta d).mp hd
    rw [hroute _ hrouteAt, ok_bind, hfields] at hrun
    obtain ⟨done, hmigrate, hrun⟩ := bind_eq_ok.mp hrun
    obtain ⟨migrated, hmigrated, -⟩ := map_eq_ok.mp hmigrate
    have hsame := pure_eq_ok.mp hrun
    exact ⟨hall, hsame.symm, migrated, by rw [← hsame, hmigrated]⟩
  · rintro ⟨hall, rfl, migrated, hmigrated⟩
    rw [(hmeta _).mpr ⟨hall, rfl⟩, ok_bind, hroute _ hrouteAt, ok_bind, hfields, hmigrated]
    rfl

/-! ### The commuting square -/

/-- Every reference to the direct tag is spelled like the tag, and the members of the groups of the
metadata can be visited. -/
structure SpelledOut (U : Unicode) (model : Json) (old : String) : Prop where
  final : Spelled U old ((model.getD "route" .null).getD "final" .null)
  rules : ∀ rule ∈ ((model.getD "route" .null).getD "rules" (.arr [])).entries,
    Spelled U old (rule.getD "outbound" .null)
  outbounds : ∀ o ∈ groupOutbounds model, ∀ x ∈ (o.getD "outbounds" (.arr [])).entries, Spelled U old x
  groups : ∀ g ∈ rawGroups model, (g.getD "proxies" (.arr [])).isContainer = true ∧
    ∀ x ∈ (g.getD "proxies" (.arr [])).entries, Spelled U old x

/-- The rules of a document whose migrated route has a list of them. -/
theorem rules_of_referRoute {route' : Dict String Json} {rules' : List Json}
    (h : referRoute U route = .ok route')
    (hrules : (Json.obj route').getD "rules" (.arr []) = .arr rules') :
    ∃ rules, (Json.obj route).getD "rules" (.arr []) = .arr rules := by
  obtain ⟨mid, hmid, h⟩ := bind_eq_ok.mp h
  obtain ⟨second, hsecond, h⟩ := bind_eq_ok.mp h
  have hget : Dict.get? mid "rules" = Dict.get? route "rules" := get?_referField hmid (by simp)
  have hget' : Dict.get? route' "rules" = Dict.get? second "rules" := get?_referList h (by simp)
  cases hlist : isList ((Dict.get? mid "rules").getD .null) with
  | true =>
      cases hvalue : Dict.get? mid "rules" with
      | none => simp [hvalue, isList] at hlist
      | some value =>
          rw [hvalue] at hget hlist
          cases value with
          | arr rules => exact ⟨rules, getD_obj hget.symm⟩
          | _ => simp [isList] at hlist
  | false =>
      -- what is no list stays, and is no list in the migrated route either
      have hkeep : second = mid := by
        rw [referList_other hlist] at hsecond
        split at hsecond
        · obtain ⟨-, -, hsecond⟩ := bind_eq_ok.mp hsecond
          exact (Except.ok.inj hsecond).symm
        · exact (Except.ok.inj hsecond).symm
      rw [hkeep, hget] at hget'
      exact ⟨rules', (getD_congr hget').symm.trans hrules⟩

/-- Writing the parts does not depend on the parts that were there. -/
theorem assembled_preserved {outs gs : List Json} {route' : Dict String Json}
    (hroute : Dict.get? fields "route" = some (.obj route)) :
    assembled (preservedFields old new outbounds fields) outs gs m route' =
      assembled fields outs gs m route' := by
  obtain ⟨outer, houter⟩ : ∃ outer, outer =
    Dict.set fields "outbounds" (.arr (outbounds.map (preservedOutbound old new))) := ⟨_, rfl⟩
  have hfirst : assembled outer outs gs m route' = assembled fields outs gs m route' := by
    rw [houter, assembled, assembled, Dict.set_set]
  have hsecond : ∀ d : Dict String Json, assembled (onObject "_pdg" (preservedMeta old new) d) outs gs m route' =
      assembled d outs gs m route' := by
    intro d
    unfold onObject
    split
    · next pdg hpdg =>
      rw [assembled, assembled, Dict.set_comm (by simp) hpdg, Dict.set_set]
    · rfl
  have hthird : ∀ d : Dict String Json, Dict.get? d "route" = some (.obj route) →
      assembled (onObject "route" (renamedRoute old new) d) outs gs m route' =
        assembled d outs gs m route' := by
    intro d hd
    have hd' : Dict.get? (Dict.set d "outbounds" (.arr outs)) "route" = some (.obj route) := by
      rw [Dict.get?_set_ne (by simp), hd]
    simp only [onObject, hd]
    rw [assembled, assembled, Dict.set_comm (by simp) hd, Dict.set_comm (by simp) hd', Dict.set_set]
  have hrouteAt : Dict.get? (onObject "_pdg" (preservedMeta old new) outer) "route" = some (.obj route) := by
    rw [get?_onObject_ne (by simp), houter, Dict.get?_set_ne (by simp), hroute]
  rw [preservedFields, ← houter, hthird _ hrouteAt, hsecond, hfirst]

/-- The condition on the document, and on the groups that `migrate` collects. -/
theorem Source.spelledOut_iff (h : Source U fields outbounds route schema kept groups m direct)
    (halias : NormalText U "DIRECT") (hne : direct ≠ "DIRECT") {rules : List Json}
    (hrules : (Json.obj route).getD "rules" (.arr []) = .arr rules)
    (htexts : ∀ g ∈ groups, ∀ x ∈ (g.getD "proxies" (.arr [])).entries, isText x = true) :
    SpelledOut U (.obj fields) direct ↔
      (∀ g ∈ rawGroups (.obj fields), (g.getD "proxies" (.arr [])).isContainer = true) ∧
        (∀ g ∈ groups, ∀ x ∈ (g.getD "proxies" (.arr [])).entries, Spelled U direct x) ∧
          Spelled U direct ((Json.obj route).getD "final" .null) ∧
            ∀ rule ∈ rules, Spelled U direct (rule.getD "outbound" .null) := by
  have hroute : (Json.obj fields).getD "route" .null = .obj route := getD_obj h.routeAt
  have houts : groupOutbounds (.obj fields) = outbounds.filter isGroupOutbound := by
    rw [groupOutbounds, outboundsOf, getD_obj h.outboundsAt]
  have hgroups : (∀ g ∈ groups, ∀ x ∈ (g.getD "proxies" (.arr [])).entries, Spelled U direct x) ↔
      (∀ o ∈ groupOutbounds (.obj fields), ∀ x ∈ (o.getD "outbounds" (.arr [])).entries,
        Spelled U direct x) ∧
        ∀ g ∈ rawGroups (.obj fields), ∀ x ∈ (g.getD "proxies" (.arr [])).entries, Spelled U direct x := by
    rw [houts, rawGroups]
    by_cases hthree : schema = 3
    · obtain ⟨hpolicy, hmirrors, hnone⟩ := h.three hthree
      have hempty : outbounds.filter isGroupOutbound = [] := by
        rw [List.filter_eq_nil_iff]
        exact fun o ho => by simp [(hnone o ho).2]
      rw [hempty, hpolicy, hmirrors, List.append_nil]
      simp
    · obtain ⟨canonical, mirrors, merged, hhalves⟩ := h.halves hthree
      rw [(h.legacy hthree).1, List.nil_append]
      exact hhalves.spelled_iff halias hne htexts
  rw [hgroups]
  constructor
  · intro hs
    obtain ⟨hfinal, hall, houtbounds, hraw⟩ := hs
    rw [hroute] at hfinal hall
    rw [hrules] at hall
    exact ⟨fun g hg => (hraw g hg).1, ⟨houtbounds, fun g hg => (hraw g hg).2⟩, hfinal, hall⟩
  · rintro ⟨hcontainers, ⟨houtbounds, hraw⟩, hfinal, hall⟩
    refine ⟨by rwa [hroute], ?_, houtbounds, fun g hg => ⟨hcontainers g hg, hraw g hg⟩⟩
    rw [hroute, hrules]
    exact hall

/-! ### What `rebind_direct` starts from -/

/-- A document has one set of parts. -/
theorem Enveloped.unique {outs outs' gs gs' : List Json} {m' : MihomoMeta} {route' : Dict String Json}
    (h : Enveloped model outs gs m route) (h' : Enveloped model outs' gs' m' route') :
    outs = outs' ∧ gs = gs' ∧ m = m' ∧ route = route' := by
  have houts := h.outbounds.symm.trans h'.outbounds
  have hpdg := h.pdg.symm.trans h'.pdg
  have hroute := h.route.symm.trans h'.route
  simp only [metaJson, MihomoMeta.toJson, Option.some.injEq, Json.arr.injEq, Json.obj.injEq,
    List.cons.injEq, Prod.mk.injEq, true_and, and_true] at houts hpdg hroute
  obtain ⟨hgroups, hproxies, hrules, hadvanced, hfiles⟩ := hpdg
  refine ⟨houts, hgroups, ?_, hroute⟩
  cases m
  cases m'
  simp_all

/-- Parts that are written over other parts. -/
theorem assembled_over {fields' : Dict String Json} {outs outs' gs gs' : List Json} {m' : MihomoMeta}
    {route' : Dict String Json} (h : assembled fields outs gs m route = .obj fields') :
    assembled fields' outs' gs' m' route' = assembled fields outs' gs' m' route' := by
  have hfields := Json.obj.inj h
  have hpdg : ∀ d : Dict String Json, Dict.get? (Dict.set d "_pdg" (metaJson (.arr gs) m)) "_pdg" =
      some (metaJson (.arr gs) m) := fun d => Dict.get?_set_self _ _ _
  have houts : Dict.get? (Dict.set fields "outbounds" (.arr outs)) "outbounds" = some (.arr outs) :=
    Dict.get?_set_self _ _ _
  have houts' : Dict.get? (Dict.set (Dict.set fields "outbounds" (.arr outs)) "_pdg"
      (metaJson (.arr gs) m)) "outbounds" = some (.arr outs) := by
    rw [Dict.get?_set_ne (by simp), houts]
  -- each write is brought next to the one that it replaces
  rw [← hfields, assembled, assembled, ← Dict.set_comm (by simp) houts', ← Dict.set_comm (by simp) houts,
    Dict.set_set, ← Dict.set_comm (by simp) (hpdg _), Dict.set_set, Dict.set_set]

/-- The migrated document, with the parts that are collected. -/
theorem Source.migrated (h : Source U fields outbounds route schema kept groups m direct)
    (hU : NfcClosed U) (hmigrate : Schema.migrate U (.obj fields) = .ok result) :
    ∃ fields' outs gs m' route' tags parts,
      canonicalizeUserNames U kept groups m route = .ok (outs, gs, m', route') ∧ result = .obj fields' ∧
        assembled fields outs gs m' route' = .obj fields' ∧
        Migrated U fields' outs gs m' route' direct tags parts := by
  rw [h.migrate] at hmigrate
  obtain ⟨⟨outs, gs, m', route'⟩, hrun, hmigrate⟩ := bind_eq_ok.mp hmigrate
  obtain ⟨hvalid, hmigrate⟩ := unit_bind_eq_ok.mp hmigrate
  have henv := @assembled_enveloped outs gs m' fields route'
  obtain ⟨direct', tags, parts, hm⟩ :=
    migrated_of_validated henv (normalNames_of_canonicalized hU hrun) hvalid
  have hdirect : direct' = direct := by
    have hone := hm.valid.oneDirect
    rw [canonicalizeUserNames_outbounds hrun, directTags_canonical, h.kept_eq, directTags_kept,
      directTag_cases (show (Json.obj fields).get? "outbounds" = _ from h.outboundsAt) h.directAt] at hone
    simpa using hone.symm
  rw [hdirect] at hm
  exact ⟨_, outs, gs, m', route', tags, parts, hrun, (pure_eq_ok.mp hmigrate).symm, rfl, hm⟩

/-- The members of the groups that are collected are texts. -/
theorem texts_of_canonicalized {outs gs : List Json} {m' : MihomoMeta} {route' : Dict String Json}
    (h : canonicalizeUserNames U kept groups m route = .ok (outs, gs, m', route')) :
    ∀ g ∈ groups, ∀ x ∈ (g.getD "proxies" (.arr [])).entries, isText x = true := by
  intro g hg
  obtain ⟨referred, -, named, hname, hrefer⟩ := exists_of_forall₂ (passes_of_groups h) hg
  exact texts_of_passes hname hrefer

/-- The groups of the metadata of an older document are plain. -/
theorem Source.plain (h : Source U fields outbounds route schema kept groups m direct)
    (halias : NormalText U "DIRECT") {outs gs : List Json} {m' : MihomoMeta} {route' : Dict String Json}
    {tags : List String} {parts : List GroupPart}
    (hrun : canonicalizeUserNames U kept groups m route = .ok (outs, gs, m', route'))
    (hv : Valid U outs gs m' route' direct tags parts) (hthree : schema ≠ 3) :
    ∀ raw ∈ mirrorsOf (.obj fields), ∀ d, raw = .obj d → Plain d := by
  rintro raw hraw d rfl
  obtain ⟨canonical, mirrors, merged, hhalves⟩ := h.halves hthree
  obtain ⟨entry, hentry, d', hd', -, hmirrored⟩ := exists_of_forall₂ hhalves.mirror hraw
  cases hd'
  have hmem : Json.obj (mirrored direct d) ∈ groups := by
    rw [hhalves.result, hhalves.merge, ← hmirrored]
    exact List.mem_map_of_mem (f := fun entry : String × Dict String Json => Json.obj entry.2)
      (List.mem_append_left _ hentry)
  obtain ⟨referred, hreferred, named, hname, hrefer⟩ := exists_of_forall₂ (passes_of_groups hrun) hmem
  obtain ⟨part, hpart, hfits⟩ := exists_of_forall₂ hv.fits hreferred
  exact plain_of_passes halias hname hrefer hfits (hv.alias_not_member hpart)

/-- The rules of an accepted document are a list. -/
theorem rules_of_canonicalized {outs gs : List Json} {m' : MihomoMeta} {route' : Dict String Json}
    {tags : List String} {parts : List GroupPart}
    (hrun : canonicalizeUserNames U kept groups m route = .ok (outs, gs, m', route'))
    (hv : Valid U outs gs m' route' direct tags parts) :
    ∃ rules, (Json.obj route).getD "rules" (.arr []) = .arr rules := by
  obtain ⟨-, rules', hrules', -⟩ := validateRoute_cases hv.routed
  obtain ⟨o₁, -, hrun⟩ := bind_eq_ok.mp hrun
  obtain ⟨g₁, -, hrun⟩ := bind_eq_ok.mp hrun
  obtain ⟨p₁, -, hrun⟩ := bind_eq_ok.mp hrun
  obtain ⟨r₁, -, hrun⟩ := bind_eq_ok.mp hrun
  obtain ⟨o₂, -, hrun⟩ := bind_eq_ok.mp hrun
  obtain ⟨g₂, -, hrun⟩ := bind_eq_ok.mp hrun
  obtain ⟨final, hfinal, hrun⟩ := bind_eq_ok.mp hrun
  cases pure_eq_ok.mp hrun
  exact rules_of_referRoute hfinal hrules'

theorem normalText_of_tagRe (hA : AsciiPlain U) (h : tagRe new = true) : NormalText U new :=
  normalizeName_tag hA h

/-- The declared schema stays. -/
theorem schema_preserved (h : isDict (pdgOf (.obj fields)) = true) :
    (pdgOf (.obj (preservedFields old new outbounds fields))).get? "schema" =
      (pdgOf (.obj fields)).get? "schema" := by
  obtain ⟨pdg, hpdg, hpdg'⟩ := pdgOf_preserved old new outbounds h
  rw [hpdg, hpdg']
  exact get?_preservedMeta_ne (by simp) (by simp)

/-- The rewritten document migrates to the rebound one when the references are spelled out. -/
theorem Source.migrate_preserved_iff (h : Source U fields outbounds route schema kept groups m old)
    (hr : Retagging U old new) (hu : Unreserved old new) (hreject : NormalText U "REJECT")
    {outs gs rules : List Json} {m' : MihomoMeta} {route' : Dict String Json}
    (hrun : canonicalizeUserNames U kept groups m route = .ok (outs, gs, m', route'))
    (hrules : (Json.obj route).getD "rules" (.arr []) = .arr rules)
    (hpreserved : Source U (preservedFields old new outbounds fields)
      (outbounds.map (preservedOutbound old new)) (renamedRoute old new route) schema
      (kept.map (retag new)) (groups.map (renamedGroup old new)) m new)
    (hvalid : validate U (assembled fields (outs.map (retag new)) (gs.map (renamedGroup old new)) m'
      (renamedRoute old new route')) = .ok ()) :
    Schema.migrate U (.obj (preservedFields old new outbounds fields)) =
        .ok (assembled fields (outs.map (retag new)) (gs.map (renamedGroup old new)) m'
          (renamedRoute old new route')) ↔
      (∀ g ∈ groups, ∀ x ∈ (g.getD "proxies" (.arr [])).entries, Spelled U old x) ∧
        Spelled U old ((Json.obj route).getD "final" .null) ∧
          ∀ rule ∈ rules, Spelled U old (rule.getD "outbound" .null) := by
  rw [← canonicalize_renamed_iff hr hu hreject hrules hrun, hpreserved.migrate]
  constructor
  · intro hmigrate
    obtain ⟨⟨outs₁, gs₁, m₁, route₁⟩, hrun₁, hmigrate⟩ := bind_eq_ok.mp hmigrate
    obtain ⟨-, hmigrate⟩ := unit_bind_eq_ok.mp hmigrate
    have hsame := pure_eq_ok.mp hmigrate
    rw [assembled_preserved h.routeAt] at hsame
    have henv := @assembled_enveloped outs₁ gs₁ m₁ fields route₁
    rw [hsame] at henv
    obtain ⟨houts, hgs, hm, hroute⟩ := henv.unique assembled_enveloped
    rw [hrun₁, houts, hgs, hm, hroute]
  · intro hrun₁
    rw [hrun₁, ok_bind]
    simp only [assembled_preserved h.routeAt, hvalid, ok_bind]
    rfl

/-- Rebinding in the schema of the document commutes with `migrate` exactly when every reference to
the direct tag is spelled like the tag, or when there is nothing to rewrite. -/
theorem preserve_commutes_iff {new : Json} (hU : NfcClosed U) (hA : AsciiPlain U)
    (h : rebindDirect U model new = .ok result) :
    ∃ old, directTag model = .ok old ∧
      ((∃ preserved, rebindDirectPreserveSchema U model new = .ok preserved ∧
          (pdgOf preserved).get? "schema" = (pdgOf model).get? "schema" ∧
          migrate U preserved = .ok result) ↔
        new = .str old ∨ SpelledOut U model old) := by
  obtain ⟨migrated, hmigrate, hrest⟩ := bind_eq_ok.mp h
  obtain ⟨fields, outbounds, route, schema, kept, groups, m, old, rfl, hsource⟩ :=
    source_of_migrate hmigrate
  obtain ⟨fields', outs, gs, m', route', tags, parts, hrun, rfl, hassembled, hm⟩ :=
    hsource.migrated hU hmigrate
  refine ⟨old, hsource.directAt, ?_⟩
  rw [hm.direct, ok_bind] at hrest
  obtain ⟨name, hname, hresult⟩ := bind_eq_ok.mp hrest
  obtain ⟨rfl, htag⟩ := tag_cases hname
  clear hrest
  by_cases hne : name = old
  · -- the tag is there already: the document is returned as it is
    rw [if_pos hne] at hresult
    refine iff_of_true ⟨.obj fields, ?_, rfl, ?_⟩ (.inl (congrArg Json.str hne))
    · rw [rebindDirectPreserveSchema]
      simp only [hsource.directAt, hname, h, ok_bind]
      rw [if_pos hne.symm]
      rfl
    · rw [hmigrate, ← pure_eq_ok.mp hresult]
  · have hcases := h
    rw [rebindDirect_eq hm hmigrate htag hne, raiseIf_bind_eq_ok, raiseIf_bind_eq_ok, unit_bind_eq_ok,
      pure_eq_ok, reboundDocument, assembled_over hassembled] at hcases
    obtain ⟨hreserved, -, hvalid, hrebound⟩ := hcases
    have hfree := hm.valid.directFree
    have hfree' : name ∉ reservedTargets := by simpa using hreserved
    have hu : Unreserved old name := {
      oldAlias := fun hold => hfree (by simp [hold, reservedTargets])
      oldReject := fun hold => hfree (by simp [hold, reservedTargets])
      newReject := fun hnew => hfree' (by simp [hnew, reservedTargets]) }
    have hr : Retagging U old name := ⟨normalText_of_tagRe hA (tagRe_of_directTag hsource.directAt),
      normalText_of_tagRe hA htag, hne⟩
    have halias : NormalText U "DIRECT" := normalText_of_tagRe hA (by decide)
    have hreject : NormalText U "REJECT" := normalText_of_tagRe hA (by decide)
    obtain ⟨rules, hrules⟩ := rules_of_canonicalized hrun hm.valid
    have hpreserved := hsource.preserved hu htag (hsource.plain halias hrun hm.valid)
    -- both ways go through the migration of the preserved document
    have hiff := hsource.migrate_preserved_iff hr hu hreject hrun hrules hpreserved hvalid
    have hspelled := hsource.spelledOut_iff halias hu.oldAlias hrules (texts_of_canonicalized hrun)
    have hpreserve := @Source.preserve_iff U old name fields route outbounds kept groups result m schema
      hsource rules hrules h htag hne
    rw [hrebound] at hiff
    constructor
    · rintro ⟨preserved, hrun', -, hmigrated⟩
      obtain ⟨hcontainers, rfl, -⟩ := hpreserve.mp hrun'
      exact .inr (hspelled.mpr ⟨hcontainers, hiff.mp hmigrated⟩)
    · rintro (hsame | hspelledOut)
      · exact absurd (Json.str.inj hsame) hne
      · obtain ⟨hcontainers, hall⟩ := hspelled.mp hspelledOut
        have hmigrated := hiff.mpr hall
        exact ⟨_, hpreserve.mpr ⟨hcontainers, rfl, result, hmigrated⟩, schema_preserved hsource.pdgDict,
          hmigrated⟩

/-- A document of schema 1 with one outbound and a final target. -/
def directDocument (direct final : String) : Json :=
  .obj [
    ("outbounds", .arr [.obj [("type", .str "direct"), ("tag", .str direct)]]),
    ("route", .obj [("final", .str final)])]

/-- The same document in schema 3. -/
def directCanonical (direct final : String) : Json :=
  .obj [
    ("outbounds", .arr [.obj [("type", .str "direct"), ("tag", .str direct)]]),
    ("route", .obj [("final", .str final)]),
    ("_pdg", metaJson (.arr []) ⟨[], [], [], []⟩)]

theorem plainUnicode_ascii : AsciiPlain plainUnicode where
  nfc _ _ := rfl
  category _ _ _ := by
    show "Ll" ∉ ["Cs", "Zl", "Zp", "Cf"]
    decide

/-- The square on a document whose final target is the tag itself. -/
theorem preserve_commutes_direct :
    ∃ preserved, rebindDirectPreserveSchema plainUnicode (directDocument "JP" "JP") (.str "US") = .ok preserved ∧
      (pdgOf preserved).get? "schema" = (pdgOf (directDocument "JP" "JP")).get? "schema" ∧
      migrate plainUnicode preserved = .ok (directCanonical "US" "US") := by
  have hrebind : rebindDirect plainUnicode (directDocument "JP" "JP") (.str "US") =
      .ok (directCanonical "US" "US") := by rfl
  obtain ⟨old, hold, hiff⟩ := preserve_commutes_iff (fun _ _ _ => rfl) plainUnicode_ascii hrebind
  have hJP : directTag (directDocument "JP" "JP") = .ok "JP" := by rfl
  obtain rfl : "JP" = old := Except.ok.inj (hJP.symm.trans hold)
  refine hiff.mpr (.inr ⟨fun s hs _ => ?_, ?_, ?_, ?_⟩)
  · exact (Json.str.inj hs).symm
  · exact List.forall_mem_nil _
  · exact List.forall_mem_nil _
  · exact List.forall_mem_nil _

/-- With blanks around the tag, `rebind_direct` renames the final target and the other does not. -/
theorem preserve_spelling :
    rebindDirect plainUnicode (directDocument "JP" " JP ") (.str "US") = .ok (directCanonical "US" "US") ∧
      rebindDirectPreserveSchema plainUnicode (directDocument "JP" " JP ") (.str "US") =
        Py.raise (.text "route.final references an undefined target") := by
  exact ⟨rfl, rfl⟩

end ProxyGateway.Schema
