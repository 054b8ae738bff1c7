import ProxyGateway.Schema.Checks
import ProxyGateway.Schema.Validated

set_option autoImplicit false

/-!
# ProxyGateway.Schema.Agreement

The importer and the committer on canonical documents, the documents that `migrate` returns
unchanged. Both come down to the same checks (`normalizeModel_iff`, `vJsonModel_iff`), but for
two: an outbound whose `_pdg_mihomo` is null is metadata to the committer only, and the
importer counts the line feed of its own encoding.
-/

namespace ProxyGateway.Schema

variable {H : Host} {doc group value : Json} {outbounds groups : List Json} {m : MihomoMeta}
  {route : Dict String Json} {direct : String} {tags acc names : List String}
  {part : GroupPart} {parts : List GroupPart}

/-! ### Policy groups -/

theorem within_eq_true {ns : List String} {ε : Type} (h : value.str?.any (· ∈ ns) = true) :
    value.within (ε := ε) ns = .ok true := by
  cases value <;> simp_all [Json.within, Json.str?]

theorem groupSafe_iff :
    groupSafe group = .ok () ↔ isDict group = true ∧
      (validateSafeValue group 0 0).isNone = false ∧ validateGroupSchema group = .ok () := by
  rw [groupSafe, raiseIf_bind_eq_ok, safeAdvanced_eq, ← groupSchema_iff, Bool.or_eq_false_iff,
    Py.bind_eq_ok, and_assoc]
  simp

/-- On a group that `validate` lets through, the importer checks what the committer does. -/
theorem nativeGroup_iff (hfit : GroupFits H.unicode group part) (hnew : part.name ∉ acc) :
    nativeGroup H acc group = .ok names ↔ groupSafe group = .ok () ∧ acc ++ [part.name] = names := by
  have hname : group.getD "name" .null = .str part.name := getD_of_get? hfit.name
  rw [groupSafe_iff, nativeGroup, raiseIf_bind_eq_ok, hname]
  simp only [hfit.validName, hnew, within_eq_true hfit.type, hfit.proxies, hfit.uses, hfit.dict,
    Py.unit_bind_eq_ok, Py.ok_bind, Py.pure_eq_ok, isList]
  simp [and_assoc]

theorem nativeGroups_iff (hfits : List.Forall₂ (GroupFits H.unicode) groups parts)
    (hnodup : (acc ++ parts.map GroupPart.name).Nodup) :
    groups.foldlM (nativeGroup H) acc = .ok names ↔
      (∀ group ∈ groups, groupSafe group = .ok ()) ∧ acc ++ parts.map GroupPart.name = names := by
  induction hfits generalizing acc with
  | nil => simp
  | @cons group part groups parts hfit _ ih =>
      have hnew : part.name ∉ acc := by
        intro hmem
        have := List.disjoint_of_nodup_append hnodup hmem
        simp at this
      have hrest : (acc ++ [part.name] ++ parts.map GroupPart.name).Nodup := by
        simpa using hnodup
      rw [List.foldlM_cons, Py.bind_eq_ok]
      constructor
      · intro h
        obtain ⟨mid, hmid, h⟩ := h
        obtain ⟨hsafe, rfl⟩ := (nativeGroup_iff hfit hnew).mp hmid
        obtain ⟨hall, hnames⟩ := (ih hrest).mp h
        exact ⟨by simpa [hsafe] using hall, by simpa using hnames⟩
      · intro h
        obtain ⟨hall, hnames⟩ := h
        refine ⟨_, (nativeGroup_iff hfit hnew).mpr ⟨hall group (by simp), rfl⟩, ?_⟩
        refine (ih hrest).mpr ⟨fun g hg => hall g (List.mem_cons_of_mem group hg), ?_⟩
        simpa using hnames

theorem nativeMembers_eq {known providers : List String} (hfit : GroupFits H.unicode group part)
    (hproxies : ∀ p ∈ part.proxies, p ∈ known) (huses : ∀ u ∈ part.uses, u ∈ providers) :
    nativeMembers known providers names group =
      .ok (part.name, part.proxies.filter (fun p => p ∈ names)) := by
  have htexts : (part.proxies.map Json.str).filterMap Json.str? = part.proxies := by
    simp [List.filterMap_map, Function.comp_def, Json.str?]
  have hname : ((group.get? "name").bind Json.str?).getD "" = part.name := by
    simp [hfit.name, Json.str?]
  rw [nativeMembers, hfit.proxies, hfit.uses, hname]
  simp only [Json.entries, htexts]
  rw [raiseIf_bind_eq_ok, Py.pure_eq_ok]
  refine ⟨?_, rfl⟩
  simpa [Json.str?] using ⟨hproxies, huses⟩

theorem get?_groupGraph (ps : List GroupPart) (ns : List String) (name : String) :
    (Dict.get? (ps.map fun p => (p.name, p.proxies.filter (fun q => q ∈ ns))) name).getD [] =
      match ps.find? (·.name = name) with
      | some part => part.proxies.filter (fun q => q ∈ ns)
      | none => [] := by
  induction ps with
  | nil => rfl
  | cons p ps ih =>
      by_cases hp : p.name = name
      · simp [hp]
      · simp [Dict.get?_cons_ne hp, hp, ih]

/-! ### The Mihomo metadata -/

theorem proxyTags_eq (he : Enveloped doc outbounds groups m route)
    (hnamed : List.Forall₂ Named outbounds tags) :
    ∃ p, proxyTags doc = .ok (outboundTags (outbounds.filter p)) := by
  refine ⟨fun o => (o.get? "tag").any (fun t => t.str?.isSome) &&
    !(o.getD "type" .null).str?.any (· ∈ ["direct", "selector", "urltest"]), ?_⟩
  rw [proxyTags, outboundsOf_eq he, Py.filterM_eq_ok, Py.ok_bind, Py.pure_eq_ok]
  intro o ho
  obtain ⟨name, -, hname⟩ := exists_of_forall₂ hnamed ho
  simp [hname.tag, within_of_hashable hname.hashable, Json.str?]

theorem groupGraph_eq (ps : List GroupPart) (name : String) :
    (Dict.get? (ps.map fun p => (p.name, p.proxies.filter
      (fun q => q ∈ ps.map GroupPart.name))) name).getD [] = groupGraph ps name :=
  get?_groupGraph ps (ps.map GroupPart.name) name

theorem nativeMembers_mapM {known providers : List String}
    (hfits : List.Forall₂ (GroupFits H.unicode) groups parts)
    (hmembers : ∀ part ∈ parts, (∀ p ∈ part.proxies, p ∈ known) ∧ ∀ u ∈ part.uses, u ∈ providers) :
    groups.mapM (nativeMembers known providers names) =
      .ok (parts.map fun p => (p.name, p.proxies.filter (fun q => q ∈ names))) := by
  induction hfits with
  | nil => rfl
  | @cons group part groups parts hfit _ ih =>
      obtain ⟨hproxies, huses⟩ := hmembers part (by simp)
      have hrest := ih fun p hp => hmembers p (List.mem_cons_of_mem part hp)
      rw [List.mapM_cons, nativeMembers_eq hfit hproxies huses, hrest]
      rfl

/-- The members that `validate` knows, the importer knows too. -/
theorem known_members (hv : Valid H.unicode outbounds groups m route direct tags parts) :
    ∀ part ∈ parts,
      (∀ p ∈ part.proxies, p ∈ tags ++ parts.map GroupPart.name ++ ["DIRECT", "REJECT"]) ∧
        ∀ u ∈ part.uses, u ∈ m.proxyProviders.keys := by
  intro part hpart
  obtain ⟨hproxies, huses⟩ := validateMembers_cases (hv.members part hpart)
  refine ⟨fun p hp => ?_, huses⟩
  have hknown := hproxies p hp
  have htags := outboundTags_of_named hv.named
  simp only [List.mem_append, List.mem_singleton] at hknown
  rcases hknown with (htag | hgroup) | hreject
  · simp [← htags, outboundTags_filter htag]
  · simp [hgroup]
  · simp [hreject]

/-- The names of the groups are neither proxies nor reserved, and the group graph that the
importer builds is the one in which `validate` has found no cycle. -/
theorem nativeGraph_ok (hv : Valid H.unicode outbounds groups m route direct tags parts)
    (p : Json → Bool) :
    (parts.map GroupPart.name).any (· ∈ outboundTags (outbounds.filter p)) = false ∧
      (parts.map GroupPart.name).any (· ∈ reservedTargets ++ [direct]) = false ∧
      (groups.mapM (nativeMembers (tags ++ parts.map GroupPart.name ++ ["DIRECT", "REJECT"])
          m.proxyProviders.keys (parts.map GroupPart.name)) >>= fun graph =>
        Search.visitAll "proxy groups contain a dependency cycle"
          (fun name => (Dict.get? graph name).getD []) (graph.map Prod.fst)) = .ok () := by
  have hspace := List.nodup_append.mp (List.nodup_append.mp
    (List.nodup_append.mp hv.namespaced).1).1
  have htags : outboundTags outbounds = tags := outboundTags_of_named hv.named
  have hdirect : direct ∈ tags := by
    rw [← htags]
    exact outboundTags_filter (p := hasType "direct") (by
      rw [← directTags, hv.oneDirect]
      simp)
  refine ⟨?_, ?_, ?_⟩
  · rw [List.any_eq_false]
    intro name hname hmem
    rw [decide_eq_true_eq] at hmem
    exact hspace.2.2 name (htags ▸ outboundTags_filter hmem) name hname rfl
  · rw [List.any_eq_false]
    intro name hname hmem
    rw [decide_eq_true_eq, List.mem_append, List.mem_singleton] at hmem
    rcases hmem with hreserved | rfl
    · exact hv.unreserved name (by simp [hname]) hreserved
    · exact hspace.2.2 name hdirect name hname rfl
  · rw [nativeMembers_mapM hv.fits (known_members hv), Py.ok_bind]
    have hkeys : (parts.map fun p => (p.name, p.proxies.filter
        (fun q => q ∈ parts.map GroupPart.name))).map Prod.fst = parts.map GroupPart.name := by
      simp [List.map_map, Function.comp_def]
    simp only [groupGraph_eq, hkeys]
    exact (Search.visitAll_congr _ _).mp hv.acyclic

/-- The importer's own walk over a validated document comes down to the providers and to what
the groups hold. -/
theorem native_iff (he : Enveloped doc outbounds groups m route)
    (hv : Valid H.unicode outbounds groups m route direct tags parts) :
    validateNativeMihomoMetadata H doc m = .ok () ↔
      (∃ leaves, nativeProviders H m = .ok leaves ∧ sameSet leaves m.managedFiles.keys = true) ∧
        ∀ group ∈ groups, groupSafe group = .ok () := by
  have hlist : (orEmptyList (.arr groups)).items (ε := String) = .ok groups := by
    cases groups <;> rfl
  obtain ⟨p, hproxies⟩ := proxyTags_eq he hv.named
  have htags : outboundTags outbounds = tags := outboundTags_of_named hv.named
  have hnodup : (([] : List String) ++ parts.map GroupPart.name).Nodup :=
    (List.nodup_append.mp (List.nodup_append.mp (List.nodup_append.mp hv.namespaced).1).1).2.1
  obtain ⟨hapart, hfree, hgraph⟩ := nativeGraph_ok hv p
  have hdirect : [direct].any (· ∈ reservedTargets) = false := by simpa using hv.directFree
  rw [validateNativeMihomoMetadata, outboundsOf_eq he, getD_of_get? he.pdg,
    metaJson_policyGroups, hv.oneDirect, hlist, htags]
  simp only [Py.ok_bind, hproxies]
  rw [raiseIf_bind_eq_ok, Py.bind_eq_ok]
  constructor
  · intro h
    obtain ⟨-, leaves, hleaves, h⟩ := h
    rw [raiseIf_bind_eq_ok, Py.bind_eq_ok] at h
    obtain ⟨hsame, names, hnames, -⟩ := h
    exact ⟨⟨leaves, hleaves, by simpa using hsame⟩, ((nativeGroups_iff hv.fits hnodup).mp hnames).1⟩
  · intro h
    obtain ⟨⟨leaves, hleaves, hsame⟩, hsafe⟩ := h
    refine ⟨hdirect, leaves, hleaves, ?_⟩
    rw [raiseIf_bind_eq_ok, Py.bind_eq_ok]
    refine ⟨by simpa using hsame, _, (nativeGroups_iff hv.fits hnodup).mpr ⟨hsafe, rfl⟩, ?_⟩
    rw [List.nil_append, raiseIf_bind_eq_ok, raiseIf_bind_eq_ok]
    exact ⟨hapart, hfree, hgraph⟩

/-! ### What both gates check -/

/-- The checks that both gates make on a validated document; `sizes` are the lengths of the
embedded provider files. -/
structure Sound (H : Host) (outbounds groups : List Json) (m : MihomoMeta) (sizes : List Nat) :
    Prop where
  proxies : ∀ outbound ∈ outbounds, checkProxyMeta outbound = .ok ()
  advanced : advancedSafe m.advanced = .ok ()
  files : m.managedFiles.mapM (fun entry => managedFileSize H entry.1 entry.2) = .ok sizes
  closed : ∃ leaves, nativeProviders H m = .ok leaves ∧ sameSet leaves m.managedFiles.keys = true
  groups : ∀ group ∈ groups, groupSafe group = .ok ()

theorem advancedSafe_iff {advanced : Dict String Json} :
    advancedSafe advanced = .ok () ↔ advanced.keys.any (· ∈ pdgOwnedMihomo) = false ∧
      (∃ b, validateProxyAdvanced (.obj advanced) 0 0 = .ok b) ∧
      validateRuntimeTop advanced = .ok () := by
  have howned : ownedAdvanced = pdgOwnedMihomo := rfl
  rw [advancedSafe, raiseIf_eq_ok, validateProxyAdvanced_ok_iff, validateRuntimeTop,
    raiseIf_eq_ok, howned, topRuntimeAdvanced]
  simp only [Bool.or_eq_false_iff, and_assoc]

theorem normalizedField_obj {fields : Dict String Json} {key : String}
    (h : value.getD key .null = .obj fields) : normalizedField value key = .ok fields := by
  rw [normalizedField, h]
  cases fields <;> rfl

theorem normalizedMihomo_eq (he : Enveloped doc outbounds groups m route) :
    normalizedMihomo doc = .ok m := by
  have horEmpty : orEmpty m.toJson = m.toJson := rfl
  rw [normalizedMihomo, getD_of_get? he.pdg, metaJson_mihomo, horEmpty, raiseIf_bind_eq_ok,
    raiseIf_bind_eq_ok, raiseIf_bind_eq_ok]
  refine ⟨by simp [metaJson, isDict, sameKeys, Json.fields?, v3MetaFields], rfl,
    by simp [MihomoMeta.toJson, isDict, sameKeys, Json.fields?, v3MihomoFields], ?_⟩
  have hproxy : normalizedField m.toJson "proxy-providers" = .ok m.proxyProviders :=
    normalizedField_obj rfl
  have hrule : normalizedField m.toJson "rule-providers" = .ok m.ruleProviders :=
    normalizedField_obj rfl
  have hadvanced : normalizedField m.toJson "advanced" = .ok m.advanced := normalizedField_obj rfl
  have hmanaged : normalizedField m.toJson "managed-files" = .ok m.managedFiles :=
    normalizedField_obj rfl
  rw [hproxy, hrule, hadvanced, hmanaged]
  rfl

theorem metaShape_eq : metaShape (metaJson value m) = .ok m := by
  rw [metaShape, metaJson_mihomo, raiseIf_bind_eq_ok, raiseIf_bind_eq_ok, raiseIf_bind_eq_ok]
  exact ⟨by simp [metaJson, isDict, sameKeys, Json.fields?], rfl,
    by simp [MihomoMeta.toJson, sameKeys, Json.fields?], rfl⟩

/-- Writing the envelope back into a canonical document changes nothing. -/
theorem reassembled (he : Enveloped doc outbounds groups m route) :
    Json.obj (Dict.set (doc.fields?.getD []) "_pdg" (metaJson (.arr groups) m)) = doc := by
  cases doc with
  | obj fields =>
      have hpdg : Dict.get? fields "_pdg" = some (metaJson (.arr groups) m) := he.pdg
      simp only [Json.fields?, Option.getD_some, Dict.set_of_get? hpdg]
  | _ => simpa [isDict] using he.dict

/-! ### The importer -/

/-- The limits of a bundle that can be restored: those of the importer's own encoding. -/
def FitsBundle (size : Nat) (sizes : List Nat) : Prop :=
  size ≤ maxModelFile ∧ size + sizes.sum ≤ maxArchiveTotal

theorem normalizeModel_iff {result : Json} (hc : migrate H.unicode doc = .ok doc)
    (he : Enveloped doc outbounds groups m route)
    (hv : Valid H.unicode outbounds groups m route direct tags parts) :
    normalizeModel H doc = .ok result ↔
      doc = result ∧ ∃ sizes, Sound H outbounds groups m sizes ∧
        FitsBundle (modelBytesLength H doc) sizes := by
  have hmigrated : migrated H doc = .ok doc := by rw [migrated, hc]
  rw [normalizeModel, hmigrated, Py.ok_bind, outboundsOf_eq he, Py.unit_bind_eq_ok,
    Py.forM_eq_ok, normalizedMihomo_eq he, Py.ok_bind, raiseIf_bind_eq_ok, Py.bind_eq_ok]
  simp only [getD_of_get? he.pdg, metaJson_policyGroups, reassembled he, Py.unit_bind_eq_ok]
  constructor
  · intro h
    obtain ⟨hproxies, hkeys, b, hsafe, htop, h⟩ := h
    obtain ⟨sizes, hfiles, h⟩ := Py.bind_eq_ok.mp h
    rw [Py.unit_bind_eq_ok, native_iff he hv, raiseIf_bind_eq_ok, Py.pure_eq_ok] at h
    obtain ⟨⟨hclosed, hgroups⟩, hsize, rfl⟩ := h
    have hadvanced := advancedSafe_iff.mpr ⟨hkeys, ⟨b, hsafe⟩, htop⟩
    refine ⟨rfl, sizes, ⟨hproxies, hadvanced, hfiles, hclosed, hgroups⟩, ?_⟩
    rw [decide_eq_false_iff_not, not_or] at hsize
    exact ⟨Nat.not_lt.mp hsize.1, Nat.not_lt.mp hsize.2⟩
  · intro h
    obtain ⟨rfl, sizes, hsound, hfits⟩ := h
    obtain ⟨hkeys, ⟨b, hsafe⟩, htop⟩ := advancedSafe_iff.mp hsound.advanced
    refine ⟨hsound.proxies, hkeys, b, hsafe, htop, Py.bind_eq_ok.mpr ⟨sizes, hsound.files, ?_⟩⟩
    rw [Py.unit_bind_eq_ok, native_iff he hv, raiseIf_bind_eq_ok, Py.pure_eq_ok]
    refine ⟨⟨hsound.closed, hsound.groups⟩, ?_, rfl⟩
    rw [decide_eq_false_iff_not, not_or]
    exact ⟨Nat.not_lt.mpr hfits.1, Nat.not_lt.mpr hfits.2⟩

/-! ### The committer -/

theorem namespace_nil (hc : migrate H.unicode doc = .ok doc) :
    validateRulesetNamespace H.unicode doc (Dict.keys ([] : Dict String Json)) = .ok () := by
  simp [validateRulesetNamespace, modelNamespace, hc, raiseIf]

theorem rulesetsFit_nil (hc : migrate H.unicode doc = .ok doc)
    (he : Enveloped doc outbounds groups m route) (hnamed : List.Forall₂ Named outbounds tags) :
    rulesetsFit H doc [] = .ok () := by
  have hroutable : routableTags H.unicode doc =
      .ok (outboundTags (outbounds.filter isRoutable) ++ groupNames (policyGroups doc)) := by
    rw [routableTags, hc, Py.ok_bind, outboundsOf_eq he, Py.filterM_eq_ok, Py.ok_bind]
    · rfl
    intro o ho
    obtain ⟨name, -, hname⟩ := exists_of_forall₂ hnamed ho
    simp [hname.dict, within_of_hashable hname.hashable, isRoutable]
  rw [rulesetsFit, namespace_nil hc, hroutable]
  rfl

/-- The outbound has a null for its Mihomo metadata. -/
def HasNullMeta (outbounds : List Json) : Prop :=
  ∃ outbound ∈ outbounds, outbound.get? "_pdg_mihomo" = some .null

/-- The limits of the committer, on the bytes that it is handed. -/
def FitsTarget (size : Nat) (sizes : List Nat) : Prop :=
  size ≠ 0 ∧ size ≤ maxManagedModel ∧ size + sizes.sum ≤ maxManagedBundle

theorem closed_iff :
    (∃ proxy, m.proxyProviders.mapM
        (fun entry => providerClosed H m.managedFiles .proxy entry.1 entry.2) = .ok proxy ∧
      ∃ rule, m.ruleProviders.mapM
          (fun entry => providerClosed H m.managedFiles .rule entry.1 entry.2) = .ok rule ∧
        sameSet (proxy.flatten ++ rule.flatten) m.managedFiles.keys = true) ↔
    ∃ leaves, nativeProviders H m = .ok leaves ∧ sameSet leaves m.managedFiles.keys = true := by
  have hproxy : ∀ leaves, m.proxyProviders.mapM
      (fun entry => providerClosed H m.managedFiles .proxy entry.1 entry.2) = .ok leaves ↔
      m.proxyProviders.mapM (fun entry => nativeProvider H m .proxy entry.1 entry.2) =
        .ok leaves :=
    fun _ => Py.mapM_eq_ok_congr fun _ _ _ => providerClosed_iff
  have hrule : ∀ leaves, m.ruleProviders.mapM
      (fun entry => providerClosed H m.managedFiles .rule entry.1 entry.2) = .ok leaves ↔
      m.ruleProviders.mapM (fun entry => nativeProvider H m .rule entry.1 entry.2) = .ok leaves :=
    fun _ => Py.mapM_eq_ok_congr fun _ _ _ => providerClosed_iff
  simp only [hproxy, hrule, nativeProviders, Py.bind_eq_ok, Py.pure_eq_ok]
  constructor
  · intro h
    obtain ⟨proxy, hp, rule, hr, hsame⟩ := h
    exact ⟨_, ⟨proxy, hp, rule, hr, rfl⟩, hsame⟩
  · intro h
    obtain ⟨_, ⟨proxy, hp, rule, hr, rfl⟩, hsame⟩ := h
    exact ⟨proxy, hp, rule, hr, hsame⟩

theorem metaFits_iff {size : Nat} (hc : migrate H.unicode doc = .ok doc)
    (hvalid : validate H.unicode doc = .ok ()) (he : Enveloped doc outbounds groups m route)
    (hv : Valid H.unicode outbounds groups m route direct tags parts) :
    metaFits H [] ⟨doc, size⟩ (metaJson (.arr groups) m) = .ok () ↔
      advancedSafe m.advanced = .ok () ∧
      (∃ sizes, m.managedFiles.mapM (fun entry => managedFileSize H entry.1 entry.2) = .ok sizes ∧
        size + sizes.sum ≤ maxManagedBundle) ∧
      (∃ leaves, nativeProviders H m = .ok leaves ∧ sameSet leaves m.managedFiles.keys = true) ∧
      ∀ group ∈ groups, groupSafe group = .ok () := by
  have hfiles : ∀ sizes, m.managedFiles.mapM (fun entry => managedSize H entry.1 entry.2) =
      .ok sizes ↔ m.managedFiles.mapM (fun entry => managedFileSize H entry.1 entry.2) =
        .ok sizes :=
    fun _ => Py.mapM_eq_ok_congr fun _ _ _ => managedSize_iff
  have hchecked : checked H "config.json 的 policy-group/路由闭包不合法: "
      (validate H.unicode doc) = .ok () := by
    rw [hvalid]
    rfl
  rw [metaFits, metaShape_eq, Py.ok_bind, Py.unit_bind_eq_ok, Py.bind_eq_ok, ← closed_iff]
  refine and_congr_right fun _ => ?_
  constructor
  · intro h
    obtain ⟨sizes, hsizes, h⟩ := h
    rw [raiseIf_bind_eq_ok, Py.bind_eq_ok] at h
    obtain ⟨hsize, proxy, hproxy, h⟩ := h
    obtain ⟨rule, hrule, h⟩ := Py.bind_eq_ok.mp h
    rw [raiseIf_bind_eq_ok, metaJson_policyGroups] at h
    obtain ⟨hsame, h⟩ := h
    have hgroups := Py.forM_eq_ok.mp (Py.unit_bind_eq_ok.mp h).1
    exact ⟨⟨sizes, (hfiles sizes).mp hsizes, by simpa using hsize⟩,
      ⟨proxy, hproxy, rule, hrule, by simpa using hsame⟩, hgroups⟩
  · intro h
    obtain ⟨⟨sizes, hsizes, hsize⟩, ⟨proxy, hproxy, rule, hrule, hsame⟩, hgroups⟩ := h
    refine ⟨sizes, (hfiles sizes).mpr hsizes, ?_⟩
    rw [raiseIf_bind_eq_ok, Py.bind_eq_ok]
    refine ⟨by simpa using hsize, proxy, hproxy, Py.bind_eq_ok.mpr ⟨rule, hrule, ?_⟩⟩
    rw [raiseIf_bind_eq_ok, metaJson_policyGroups]
    refine ⟨by simpa using hsame, Py.unit_bind_eq_ok.mpr ⟨Py.forM_eq_ok.mpr hgroups, ?_⟩⟩
    exact Py.unit_bind_eq_ok.mpr ⟨hchecked, rulesetsFit_nil hc he hv.named⟩

theorem proxiesSafe_iff :
    (∀ outbound ∈ outbounds, proxyMetaSafe outbound = .ok ()) ↔
      ¬ HasNullMeta outbounds ∧ ∀ outbound ∈ outbounds, checkProxyMeta outbound = .ok () := by
  simp only [proxyMetaSafe_iff, HasNullMeta, not_exists, not_and]
  exact ⟨fun h => ⟨fun o ho => (h o ho).2, fun o ho => (h o ho).1⟩,
    fun h o ho => ⟨h.2 o ho, h.1 o ho⟩⟩

theorem vJsonModel_iff {size : Nat} (hc : migrate H.unicode doc = .ok doc)
    (hvalid : validate H.unicode doc = .ok ()) (he : Enveloped doc outbounds groups m route)
    (hv : Valid H.unicode outbounds groups m route direct tags parts) :
    vJsonModel H [] ⟨doc, size⟩ = .ok () ↔
      ¬ HasNullMeta outbounds ∧ ∃ sizes, Sound H outbounds groups m sizes ∧
        FitsTarget size sizes := by
  have hshape : (!isDict doc || (doc.get? "outbounds").isNone || (doc.get? "route").isNone) =
      false := by
    simp [he.dict, he.outbounds, he.route]
  have hpdg : metaJson (.arr groups) m ≠ .null := by simp [metaJson]
  rw [vJsonModel, raiseIf_bind_eq_ok, raiseIf_bind_eq_ok, getD_of_get? he.outbounds,
    Json.items_arr, Py.ok_bind, Py.unit_bind_eq_ok, Py.forM_eq_ok, proxiesSafe_iff]
  simp only [getD_of_get? he.pdg, hpdg, if_false]
  rw [metaFits_iff hc hvalid he hv]
  constructor
  · intro h
    obtain ⟨hsize, -, ⟨hnull, hproxies⟩, hadvanced, ⟨sizes, hfiles, hbundle⟩, hclosed, hgroups⟩ := h
    rw [decide_eq_false_iff_not, not_or] at hsize
    exact ⟨hnull, sizes, ⟨hproxies, hadvanced, hfiles, hclosed, hgroups⟩, hsize.1,
      Nat.not_lt.mp hsize.2, hbundle⟩
  · intro h
    obtain ⟨hnull, sizes, hsound, hpos, hmodel, hbundle⟩ := h
    refine ⟨?_, hshape, ⟨hnull, hsound.proxies⟩, hsound.advanced, ⟨sizes, hsound.files, hbundle⟩,
      hsound.closed, hsound.groups⟩
    rw [decide_eq_false_iff_not, not_or]
    exact ⟨hpos, Nat.not_lt.mpr hmodel⟩

/-! ### Both gates on a canonical document -/

/-- The length of what an embedded provider file decodes to. -/
def decodedSize (H : Host) (encoded : Json) : Nat :=
  match encoded.str?.bind H.b64decode with
  | some raw => raw.size
  | none => 0

/-- The embedded provider files of a document. -/
def embeddedFiles (doc : Json) : Dict String Json :=
  (((doc.getD "_pdg" .null).getD "mihomo" .null).getD "managed-files" .null).fields?.getD []

/-- The importer's encoding of the document, with its embedded files, is within the limits of
a bundle. -/
def Restorable (H : Host) (doc : Json) : Prop :=
  FitsBundle (modelBytesLength H doc) ((embeddedFiles doc).map fun entry => decodedSize H entry.2)

/-- How the Bot and the Web side encode a model. -/
def encodings (H : Host) : List (Json → ModelData) := [webModelBytes H, botModelBytes H]

theorem managedFileSize_eq {leaf : String} {n : Nat} (h : managedFileSize H leaf value = .ok n) :
    n = decodedSize H value := by
  rw [managedFileSize, raiseIf_bind_eq_ok] at h
  unfold decodedSize
  cases hraw : value.str?.bind H.b64decode with
  | none => simp [hraw] at h
  | some raw =>
      rw [hraw] at h
      obtain ⟨-, h⟩ := raiseIf_bind_eq_ok.mp h.2
      exact (Py.pure_eq_ok.mp h).symm

theorem sizes_eq {files : Dict String Json} {sizes : List Nat}
    (h : files.mapM (fun entry => managedFileSize H entry.1 entry.2) = .ok sizes) :
    sizes = files.map fun entry => decodedSize H entry.2 := by
  have hpairs := Py.mapM_forall₂ h
  clear h
  induction hpairs with
  | nil => rfl
  | cons hentry _ ih => rw [List.map_cons, ← managedFileSize_eq hentry, ← ih]

theorem dumps_pos (h : isDict doc = true) : 0 < (doc.dumps H.floatRepr 0).utf8ByteSize := by
  have hopen : "\x7b".utf8ByteSize = 1 := by decide
  cases doc with
  | obj kvs =>
      cases kvs with
      | nil =>
          have hempty : "\x7b\x7d".utf8ByteSize = 2 := by decide
          simp only [Json.dumps, hempty]
          omega
      | cons kv kvs =>
          simp only [Json.dumps, String.utf8ByteSize_append, hopen]
          omega
  | _ => simp [isDict] at h

/-- On a canonical document, whichever side has encoded it: what the committer accepts, the
importer accepts as far as the bundle can be restored, and what the importer accepts, the
committer accepts unless an outbound has a null for its Mihomo metadata. The encoding of the
Web side counts the importer's line feed already. -/
theorem gates_agree (H : Host) (doc : Json) (hc : migrate H.unicode doc = .ok doc)
    (bytes : Json → ModelData) (hb : bytes ∈ encodings H) :
    (vJsonModel H [] (bytes doc) = .ok () →
      ((∃ result, normalizeModel H doc = .ok result) ↔ Restorable H doc)) ∧
    (∀ result, normalizeModel H doc = .ok result →
      (vJsonModel H [] (bytes result) = .ok () ↔ ¬ HasNullMeta (outboundsOf doc))) ∧
    (vJsonModel H [] (webModelBytes H doc) = .ok () → Restorable H doc) := by
  obtain ⟨fields, route₀, -, -, -, -, -, outbounds, groups, m, route, -, hdoc, hvalid⟩ :=
    migrate_cases hc
  have he : Enveloped doc outbounds groups m route := hdoc ▸ assembled_enveloped
  obtain ⟨direct, tags, parts, hv⟩ := validate_cases he hvalid
  have hfiles : embeddedFiles doc = m.managedFiles := by
    rw [embeddedFiles, getD_of_get? he.pdg]
    rfl
  have hrestorable : ∀ sizes, Sound H outbounds groups m sizes →
      (Restorable H doc ↔ FitsBundle (modelBytesLength H doc) sizes) := by
    intro sizes hsound
    rw [Restorable, hfiles, ← sizes_eq hsound.files]
  have hcommit : ∀ size, vJsonModel H [] ⟨doc, size⟩ = .ok () ↔ ¬ HasNullMeta outbounds ∧
      ∃ sizes, Sound H outbounds groups m sizes ∧ FitsTarget size sizes :=
    fun size => vJsonModel_iff hc hvalid he hv
  have himport : ∀ result, normalizeModel H doc = .ok result ↔ doc = result ∧
      ∃ sizes, Sound H outbounds groups m sizes ∧ FitsBundle (modelBytesLength H doc) sizes :=
    fun result => normalizeModel_iff hc he hv
  -- the encodings differ by a line feed at most
  obtain ⟨size, hsize, hle, hpos⟩ : ∃ size, bytes doc = ⟨doc, size⟩ ∧
      size ≤ modelBytesLength H doc ∧ 0 < size := by
    simp only [encodings, List.mem_cons, List.not_mem_nil, or_false] at hb
    rcases hb with rfl | rfl
    · exact ⟨_, rfl, Nat.le_refl _, Nat.succ_pos _⟩
    · exact ⟨_, rfl, Nat.le_succ _, dumps_pos he.dict⟩
  refine ⟨fun h => ?_, fun result h => ?_, fun h => ?_⟩
  · rw [hsize, hcommit] at h
    obtain ⟨-, sizes, hsound, -⟩ := h
    rw [hrestorable sizes hsound]
    constructor
    · intro h
      obtain ⟨result, h⟩ := h
      obtain ⟨-, sizes', hsound', hfits⟩ := (himport result).mp h
      rwa [sizes_eq hsound.files, ← sizes_eq hsound'.files]
    · intro hfits
      exact ⟨doc, (himport doc).mpr ⟨rfl, sizes, hsound, hfits⟩⟩
  · obtain ⟨rfl, sizes, hsound, hfits⟩ := (himport result).mp h
    rw [hsize, hcommit, outboundsOf_eq he]
    refine ⟨fun h => h.1, fun hnull => ⟨hnull, sizes, hsound, hpos.ne', ?_, ?_⟩⟩
    · exact hle.trans hfits.1
    · exact (Nat.add_le_add_right hle _).trans hfits.2
  · obtain ⟨-, sizes, hsound, -, hmodel, hbundle⟩ := (hcommit _).mp h
    exact (hrestorable sizes hsound).mpr ⟨hmodel, hbundle⟩

/-! ### Two documents -/

/-- A host for plain texts, without embedded files. -/
def plainHost : Host where
  unicode := ⟨id, fun _ => "Ll", fun _ => none⟩
  b64decode _ := none
  sha256 _ := ""
  floatRepr _ := "0.0"
  faultText _ := ""

/-- A canonical document with a direct outbound and a proxy with the given fields. -/
def proxyDocument (extra : Dict String Json) : Json :=
  .obj [
    ("outbounds", .arr [
      .obj [("type", .str "direct"), ("tag", .str "JP")],
      .obj ([("type", .str "shadowsocks"), ("tag", .str "tokyo")] ++ extra)]),
    ("route", .obj [("final", .str "JP")]),
    ("_pdg", metaJson (.arr []) ⟨[], [], [], []⟩)]

/-- Both gates accept a plain proxy. -/
theorem gates_agree_plain :
    normalizeModel plainHost (proxyDocument []) = .ok (proxyDocument []) ∧
      vJsonModel plainHost [] (webModelBytes plainHost (proxyDocument [])) = .ok () := by
  have himport : normalizeModel plainHost (proxyDocument []) = .ok (proxyDocument []) := by
    decide +kernel
  have hnull : ¬ HasNullMeta (outboundsOf (proxyDocument [])) := by
    simp [HasNullMeta, outboundsOf, proxyDocument, Json.getD, Json.get?, Dict.get?_cons]
  exact ⟨himport, ((gates_agree plainHost (proxyDocument []) (by rfl) (webModelBytes plainHost)
    (by simp [encodings])).2.1 _ himport).mpr hnull⟩

/-- The importer takes a null for a proxy without Mihomo metadata; the committer refuses it. -/
theorem null_metadata_refused :
    migrate plainHost.unicode (proxyDocument [("_pdg_mihomo", .null)]) =
        .ok (proxyDocument [("_pdg_mihomo", .null)]) ∧
      normalizeModel plainHost (proxyDocument [("_pdg_mihomo", .null)]) =
        .ok (proxyDocument [("_pdg_mihomo", .null)]) ∧
      ∀ bytes ∈ encodings plainHost,
        vJsonModel plainHost [] (bytes (proxyDocument [("_pdg_mihomo", .null)])) =
          Py.raise "config.json 的 per-proxy Mihomo 扩展字段不安全" := by
  refine ⟨by rfl, by decide +kernel, fun bytes hb => ?_⟩
  simp only [encodings, List.mem_cons, List.not_mem_nil, or_false] at hb
  rcases hb with rfl | rfl
  · decide +kernel
  · decide +kernel

end ProxyGateway.Schema
