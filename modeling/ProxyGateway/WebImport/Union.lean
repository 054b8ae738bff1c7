import ProxyGateway.WebImport.Merge

set_option autoImplicit false

/-!
# ProxyGateway.WebImport.Union

What merge mode keeps. The slots of the result are those of the two models, filled from the side that
was chosen; providers, rules and embedded files are merged the same way, and normalizing the result
changes nothing of it (`mergeModel_union`).
-/

namespace ProxyGateway.WebImport

open Schema Json Py

variable {H : Schema.Host} {U : Unicode} {fields route : Dict String Json} {outbounds groups items : List Json} {m : MihomoMeta}
  {model result current incoming : Json} {resolutions : Dict String String} {name key kind : String} {p c n r : Parts}

/-! ### Normalized models -/

/-- The parts of a model that `normalize_model` returns as it is. -/
structure Normalized (H : Schema.Host) (p : Parts) : Prop where
  migrated : ∃ direct tags parts, Migrated H.unicode p.fields p.outbounds p.groups p.mihomo p.route direct tags parts
  sound : ∃ sizes, Sound H p.outbounds p.groups p.mihomo sizes

theorem Normalized.enveloped (h : Normalized H p) : Enveloped (.obj p.fields) p.outbounds p.groups p.mihomo p.route := by
  obtain ⟨direct, tags, parts, hm⟩ := h.migrated
  exact hm.enveloped

theorem Normalized.normal (h : Normalized H p) : NormalNames H.unicode p.outbounds p.groups p.mihomo p.route := by
  obtain ⟨direct, tags, parts, hm⟩ := h.migrated
  exact hm.normal

theorem Normalized.model_eq (h : Normalized H p) : p.model = .obj p.fields := assembled_self h.enveloped

/-- `normalize_model` depends on what `migrate` returns alone. -/
theorem normalizeModel_congr {model' : Json} (h : migrate H.unicode model' = migrate H.unicode model) :
    normalizeModel H model' = normalizeModel H model := by
  unfold normalizeModel migrated
  rw [h]

/-- What `normalize_model` returns. -/
theorem normalizeModel_cases (hU : NfcClosed H.unicode) (h : normalizeModel H model = .ok result) :
    migrate H.unicode model = .ok result ∧ ∃ p, result = p.model ∧ Normalized H p := by
  obtain ⟨middle, hmiddle, -⟩ := bind_eq_ok.mp h
  have hmigrate : migrate H.unicode model = .ok middle := by
    unfold migrated at hmiddle
    split at hmiddle
    · next hm => rw [hm, Except.ok.inj hmiddle]
    · cases hmiddle
    · split at hmiddle <;> cases hmiddle
  obtain ⟨fields, outbounds, groups, m, route, direct, tags, parts, rfl, hm⟩ := migrate_parts hU hmigrate
  have hself : normalizeModel H (.obj fields) = .ok result := by
    rw [normalizeModel_congr (hm.migrate.trans hmigrate.symm), h]
  obtain ⟨rfl, sizes, hsound, -⟩ := (normalizeModel_iff hm.migrate hm.enveloped hm.valid).mp hself
  have hp : Normalized H ⟨fields, outbounds, groups, m, route⟩ := ⟨⟨direct, tags, parts, hm⟩, sizes, hsound⟩
  exact ⟨hmigrate, _, hp.model_eq.symm, hp⟩

theorem partsOf_eq (h : Normalized H p) : partsOf p.model = .ok p := by
  have he := h.enveloped
  rw [h.model_eq]
  simp only [partsOf, getD_of_get? he.outbounds, getD_of_get? he.pdg, metaJson_policyGroups, normalizedMihomo_eq he,
    getD_of_get? he.route, ok_bind]
  rfl

/-- A model of normal names is not changed where it is migrated. -/
theorem migrate_enveloped (he : Enveloped (.obj fields) outbounds groups m route)
    (hn : NormalNames U outbounds groups m route) (h : migrate U (.obj fields) = .ok result) :
    result = .obj fields ∧ validate U (.obj fields) = .ok () := by
  rw [migrate_eq] at h
  obtain ⟨-, h⟩ := raiseIf_bind_eq_ok.mp h
  obtain ⟨-, h⟩ := unit_bind_eq_ok.mp h
  obtain ⟨whole, hwhole, h⟩ := bind_eq_ok.mp h
  obtain ⟨⟨direct, hdirect⟩, hany⟩ := canonicalized_declared_front he.declares hwhole
  rw [canonicalized_declared he.declares hdirect hany, hn.canonicalized, ok_bind] at hwhole
  have hself : whole = .obj fields := by
    rw [← assembled_self he]
    exact (pure_eq_ok.mp hwhole).symm
  rw [hself] at h
  obtain ⟨hvalid, h⟩ := unit_bind_eq_ok.mp h
  exact ⟨(pure_eq_ok.mp h).symm, hvalid⟩

/-- Normalizing parts of normal names changes nothing. -/
theorem normalizeModel_parts (hU : NfcClosed H.unicode)
    (hn : NormalNames H.unicode p.outbounds p.groups p.mihomo p.route) (h : normalizeModel H p.model = .ok result) :
    ∃ fields, Normalized H { p with fields := fields } ∧ result = Parts.model { p with fields := fields } := by
  obtain ⟨hmigrate, -⟩ := normalizeModel_cases hU h
  have he := @assembled_enveloped p.outbounds p.groups p.mihomo p.fields p.route
  obtain ⟨hself, hvalid⟩ := migrate_enveloped he hn hmigrate
  obtain ⟨direct, tags, parts, hm⟩ := migrated_of_validated he hn hvalid
  have hself' : normalizeModel H (assembled p.fields p.outbounds p.groups p.mihomo p.route) = .ok result := h
  obtain ⟨hsame, sizes, hsound, -⟩ := (normalizeModel_iff hm.migrate he hm.valid).mp hself'
  have hp : Normalized H { p with fields := _ } := ⟨⟨direct, tags, parts, hm⟩, sizes, hsound⟩
  exact ⟨_, hp, hsame.symm.trans hp.model_eq.symm⟩

/-! ### Slots -/

/-- What stands in the slot of a name: its outbound and its group. -/
def Parts.slot (p : Parts) (name : String) : Option Json × Option Json :=
  (p.outbounds.find? (outboundAt name), p.groups.find? (groupAt name))

theorem get?_keyed : (keyed key items).get? name = items.find? fun item => decide (item.get? key = some (.str name)) := by
  induction items with
  | nil => rfl
  | cons item items ih =>
      by_cases hitem : item.get? key = some (.str name)
      · simp [keyed, hitem, Json.str?]
      · rw [List.find?_cons_of_neg (by simpa using hitem), ← ih]
        unfold keyed
        cases htext : (item.get? key).bind Json.str? with
        | none => rw [List.filterMap_cons_none (by simp [htext])]
        | some name' =>
            rw [List.filterMap_cons_some (by rw [htext]; rfl), Dict.get?_cons_ne]
            rintro rfl
            obtain ⟨value, hvalue, hstr⟩ := Option.bind_eq_some_iff.mp htext
            cases value <;> simp_all [Json.str?]

theorem keys_keyed : Dict.keys (keyed key items) = items.filterMap fun item => (item.get? key).bind Json.str? := by
  simp only [keyed, Dict.keys, List.map_filterMap, Option.map_map]
  refine List.filterMap_congr fun item _ => ?_
  cases (item.get? key).bind Json.str? <;> rfl

/-- The names of a normalized model, with those of its providers, are given once. -/
theorem Normalized.nodup (h : Normalized H p) :
    (p.names ++ p.mihomo.proxyProviders.keys ++ p.mihomo.ruleProviders.keys).Nodup := by
  obtain ⟨direct, tags, parts, hm⟩ := h.migrated
  have hspace := hm.valid.namespaced
  rw [← outboundTags_of_named hm.valid.named, ← groupNames_of_fits hm.valid.fits] at hspace
  refine hspace.sublist ?_
  refine List.Sublist.append (List.Sublist.append (List.Sublist.append ?_ (List.Sublist.refl _)) (List.Sublist.refl _))
    (List.Sublist.refl _)
  exact List.filter_sublist.filterMap _

theorem Normalized.names_nodup (h : Normalized H p) : p.names.Nodup :=
  (List.nodup_append.mp (List.nodup_append.mp h.nodup).1).1

theorem Normalized.slots (h : Normalized H p) (name : String) :
    (p.outboundSlots.get? name, p.groupSlots.get? name) = p.slot name := by
  have hnames := List.nodup_append.mp h.names_nodup
  have houts : Dict.Uniq (keyed "tag" (p.outbounds.filter hasSlot)) := by
    rw [Dict.Uniq, keys_keyed]
    exact hnames.1
  have hgroups : Dict.Uniq (keyed "name" p.groups) := by
    rw [Dict.Uniq, keys_keyed]
    exact hnames.2.1
  rw [Parts.outboundSlots, Parts.groupSlots, houts.get?_update, hgroups.get?_update, get?_keyed, get?_keyed,
    List.find?_filter]
  simp only [Parts.slot, Bool.decide_and, decide_eq_true_eq, Bool.decide_eq_true, Dict.get?, Option.or_none]
  rfl

theorem find?_refilled {α : Type} {q : α → Bool} {xs : List α} {o : Option α} (h : ∀ x ∈ o, q x = true) :
    (xs.filter (!q ·) ++ o.toList).find? q = o := by
  rw [List.find?_append, List.find?_filter]
  have hnone : xs.find? (fun x => decide ((!q x) = true ∧ q x = true)) = none :=
    List.find?_eq_none.mpr fun x _ => by simp
  rw [hnone, Option.none_or]
  cases o with
  | none => rfl
  | some x => exact List.find?_cons_of_pos (h x rfl)

theorem find?_elsewhere {α : Type} {q q' : α → Bool} {xs : List α} {o : Option α} (h : ∀ x ∈ o, q' x = true)
    (hapart : ∀ x, q x = true → q' x = false) : (xs.filter (!q' ·) ++ o.toList).find? q = xs.find? q := by
  rw [List.find?_append, List.find?_filter]
  have hsame : (fun x => decide ((!q' x) = true ∧ q x = true)) = q := by
    funext x
    cases hq : q x with
    | true => simp [hapart x hq]
    | false => simp
  have hnone : o.toList.find? q = none := by
    refine List.find?_eq_none.mpr fun x hx hq => ?_
    exact absurd (h x (Option.mem_toList.mp hx)) (by simp [hapart x hq])
  rw [hsame, hnone, Option.or_none]

/-- Filling a slot changes no other. -/
theorem slot_fillSlot {name' : String} (hn : Normalized H n) :
    (fillSlot n name' p).slot name = if name' = name then n.slot name else p.slot name := by
  have hslot := hn.slots name'
  have hout : n.outboundSlots.get? name' = n.outbounds.find? (outboundAt name') := congrArg Prod.fst hslot
  have hgroup : n.groupSlots.get? name' = n.groups.find? (groupAt name') := congrArg Prod.snd hslot
  simp only [Parts.slot, fillSlot, hout, hgroup]
  have hfound : ∀ x ∈ n.outbounds.find? (outboundAt name'), outboundAt name' x = true := fun x hx =>
    List.find?_some hx
  have hfound' : ∀ x ∈ n.groups.find? (groupAt name'), groupAt name' x = true := fun x hx => List.find?_some hx
  split
  · next hsame =>
      subst hsame
      rw [find?_refilled hfound, find?_refilled hfound']
  · next hne =>
      have hapart : ∀ x, outboundAt name x = true → outboundAt name' x = false := by
        intro x hx
        simp only [outboundAt, Bool.and_eq_true, decide_eq_true_eq] at hx
        simp [outboundAt, hx.2, Ne.symm hne]
      have hapart' : ∀ x, groupAt name x = true → groupAt name' x = false := by
        intro x hx
        simp only [groupAt, decide_eq_true_eq] at hx
        simp [groupAt, hx, Ne.symm hne]
      rw [find?_elsewhere hfound hapart, find?_elsewhere hfound' hapart']

/-- Is the slot of the name kept? -/
def Kept (c : Parts) (resolutions : Dict String String) (name : String) : Prop :=
  name ∈ c.names ∧ choiceFor resolutions "name" name = "existing"

instance : Decidable (Kept c resolutions name) := inferInstanceAs (Decidable (_ ∧ _))

/-- A turn of the loop fills its own slot, unless it is kept. -/
theorem slot_fillTurn {name' : String} (hn : Normalized H n) : (fillTurn c n resolutions p name').slot name =
    if name' = name ∧ ¬ Kept c resolutions name then n.slot name else p.slot name := by
  unfold fillTurn
  split
  · next hkept =>
      rw [if_neg]
      rintro ⟨rfl, hnot⟩
      exact hnot hkept
  · next hkept =>
      rw [slot_fillSlot hn]
      refine if_congr ⟨fun hsame => ⟨hsame, hsame ▸ hkept⟩, And.left⟩ rfl rfl

/-- After the loop the slots of the incoming names are filled, but for those that are kept. -/
theorem slot_fillSlots (hn : Normalized H n) : (fillSlots c n resolutions p).slot name =
    if name ∈ n.names ∧ ¬ Kept c resolutions name then n.slot name else p.slot name := by
  have hrun : ∀ (names : List String) (p : Parts), (names.foldl (fillTurn c n resolutions) p).slot name =
      if name ∈ names ∧ ¬ Kept c resolutions name then n.slot name else p.slot name := by
    intro names
    induction names with
    | nil =>
        intro p
        simp
    | cons name' names ih =>
        intro p
        rw [List.foldl_cons, ih, slot_fillTurn hn]
        by_cases hkept : Kept c resolutions name
        · simp [hkept]
        · by_cases hmem : name ∈ names
          · simp [hmem, hkept]
          · by_cases hsame : name' = name
            · simp [hsame, hkept]
            · simp [hmem, hsame, Ne.symm hsame]
  rw [fillSlots, hrun]
  simp only [Parts.orderedNames, List.mem_eraseDups]

/-! ### Providers and files -/

/-- A provider comes from the incoming model, unless the current one has it and keeps it. -/
theorem get?_mergeProviders {cs ns : Dict String Json} (hn : ns.Uniq) :
    (mergeProviders resolutions kind cs ns).get? name =
      if name ∈ ns.keys ∧ ¬ (name ∈ cs.keys ∧ choiceFor resolutions kind name ≠ "incoming") then ns.get? name
      else cs.get? name := by
  induction ns generalizing cs with
  | nil => simp [mergeProviders]
  | cons entry ns ih =>
      obtain ⟨key, provider⟩ := entry
      obtain ⟨hfresh, hrest⟩ := List.nodup_cons.mp hn
      have hstep : mergeProviders resolutions kind cs ((key, provider) :: ns) =
          mergeProviders resolutions kind (if ¬ cs.contains key ∨ choiceFor resolutions kind key = "incoming" then
            cs.set key provider else cs) ns := rfl
      have hkeys : Dict.contains cs key = true ↔ key ∈ Dict.keys cs := Dict.get?_isSome_iff
      rw [hstep, ih hrest]
      by_cases hsame : key = name
      · subst hsame
        have hnone : key ∉ Dict.keys ns := hfresh
        rw [if_neg (fun h => hnone h.1)]
        by_cases hin : key ∈ Dict.keys cs <;> by_cases hchoice : choiceFor resolutions kind key = "incoming" <;>
          simp [hkeys, hin, hchoice]
      · have hset : ∀ (b : Prop) [Decidable b], Dict.get? (if b then cs.set key provider else cs) name = cs.get? name := by
          intro b _
          split
          · exact Dict.get?_set_ne hsame cs provider
          · rfl
        have hmem : ∀ (b : Prop) [Decidable b],
            name ∈ Dict.keys (if b then cs.set key provider else cs) ↔ name ∈ Dict.keys cs := by
          intro b _
          rw [← Dict.get?_isSome_iff, hset b, Dict.get?_isSome_iff]
        rw [hset, Dict.get?_cons_ne hsame]
        simp [hmem, Ne.symm hsame]

theorem mergeProviders_rebuilt {cs ns : Dict String Json} (hc : Rebuilt U cs) (hn : Rebuilt U ns) :
    Rebuilt U (mergeProviders resolutions kind cs ns) := by
  obtain ⟨-, hnames⟩ := hn
  unfold mergeProviders
  induction ns generalizing cs with
  | nil => exact hc
  | cons entry ns ih =>
      refine ih ?_ fun name hname => hnames name (List.mem_cons_of_mem _ hname)
      dsimp only
      split
      · refine ⟨hc.1.set _ _, fun name hname => ?_⟩
        rcases Dict.mem_keys_set.mp hname with rfl | hname
        · exact hnames _ List.mem_cons_self
        · exact hc.2 name hname
      · exact hc

/-- The provider is a local file with the leaf. -/
def FileOf (provider : Json) (leaf : String) : Prop :=
  provider.getD "type" (.str "http") = .str "file" ∧
    ∃ path, provider.getD "path" .null = .str path ∧ providerLeaf path = some leaf

theorem mem_nativeProvider {pk : ProviderKind} {provider : Json} {leaves : List String} {leaf : String}
    (h : nativeProvider H m pk name provider = .ok leaves) : leaf ∈ leaves ↔ FileOf provider leaf := by
  obtain ⟨-, h⟩ := raiseIf_bind_eq_ok.mp h
  obtain ⟨-, h⟩ := unit_bind_eq_ok.mp h
  obtain ⟨known, -, h⟩ := bind_eq_ok.mp h
  split at h
  · next path hpath =>
      obtain ⟨-, h⟩ := raiseIf_bind_eq_ok.mp h
      split at h
      · next leaf' hleaf =>
          split at h
          · next hfile =>
              obtain ⟨-, h⟩ := raiseIf_bind_eq_ok.mp h
              obtain ⟨-, h⟩ := raiseIf_bind_eq_ok.mp h
              rw [← pure_eq_ok.mp h, List.mem_singleton]
              constructor
              · rintro rfl
                exact ⟨hfile, path, hpath, hleaf⟩
              · rintro ⟨-, path', hpath', hleaf'⟩
                rw [hpath, Json.str.injEq] at hpath'
                subst hpath'
                exact (Option.some.inj (hleaf.symm.trans hleaf')).symm
          · next hfile =>
              obtain ⟨-, h⟩ := raiseIf_bind_eq_ok.mp h
              obtain ⟨-, h⟩ := raiseIf_bind_eq_ok.mp h
              obtain ⟨-, h⟩ := raiseIf_bind_eq_ok.mp h
              rw [← pure_eq_ok.mp h]
              exact ⟨fun hmem => absurd hmem List.not_mem_nil, fun hof => absurd hof.1 hfile⟩
      · cases h
  · cases h

/-- The embedded files of a normalized model are those of its providers. -/
theorem Normalized.files (h : Normalized H p) {leaf : String} : leaf ∈ p.mihomo.managedFiles.keys ↔
    ∃ entry ∈ p.mihomo.proxyProviders ++ p.mihomo.ruleProviders, FileOf entry.2 leaf := by
  obtain ⟨sizes, hsound⟩ := h.sound
  obtain ⟨leaves, hleaves, hsame⟩ := hsound.closed
  obtain ⟨proxy, hproxy, hleaves⟩ := bind_eq_ok.mp hleaves
  obtain ⟨rule, hrule, hleaves⟩ := bind_eq_ok.mp hleaves
  have hiff : leaf ∈ p.mihomo.managedFiles.keys ↔ leaf ∈ leaves := by
    simp only [sameSet, Bool.and_eq_true, List.all_eq_true, decide_eq_true_eq] at hsame
    exact ⟨hsame.2 leaf, hsame.1 leaf⟩
  have hkind : ∀ {pk : ProviderKind} {entries : Dict String Json} {found : List (List String)},
      entries.mapM (fun entry => nativeProvider H p.mihomo pk entry.1 entry.2) = .ok found →
      (leaf ∈ found.flatten ↔ ∃ entry ∈ entries, FileOf entry.2 leaf) := by
    intro pk entries found hfound
    have hpairs := mapM_forall₂ hfound
    rw [List.mem_flatten]
    constructor
    · rintro ⟨ls, hls, hleaf⟩
      obtain ⟨entry, hentry, hof⟩ := exists_of_forall₂ hpairs.flip hls
      exact ⟨entry, hentry, (mem_nativeProvider hof).mp hleaf⟩
    · rintro ⟨entry, hentry, hleaf⟩
      obtain ⟨ls, hls, hof⟩ := exists_of_forall₂ hpairs hentry
      exact ⟨ls, hls, (mem_nativeProvider hof).mpr hleaf⟩
  rw [hiff, ← pure_eq_ok.mp hleaves, List.mem_append, hkind hproxy, hkind hrule]
  simp only [List.mem_append, or_and_right, exists_or]

/-! ### The merged parts -/

/-- The rules of a route. -/
def ruleList (route : Dict String Json) : List Json :=
  match (Json.obj route).getD "rules" .null with
  | .arr rules => rules
  | _ => []

theorem ruleList_of_orEmpty {rules : List Json}
    (h : orEmptyList ((Json.obj route).getD "rules" .null) = .arr rules) : ruleList route = rules := by
  unfold ruleList
  cases hvalue : (Json.obj route).getD "rules" .null with
  | arr items =>
      rw [hvalue] at h
      cases items <;> exact Json.arr.inj h
  | _ =>
      rw [hvalue, orEmptyList] at h
      split at h
      · cases h
      · exact Json.arr.inj h

theorem mergeRules_eq_ok {rules : List Json} {cr nr : Dict String Json} (h : mergeRules cr nr = .ok rules) :
    rules = ruleList nr ++ ruleList cr := by
  unfold mergeRules at h
  simp only at h
  split at h
  · next xs hxs =>
      split at h
      · next ys hys =>
          rw [← pure_eq_ok.mp h, ruleList_of_orEmpty hxs, ruleList_of_orEmpty hys]
      · cases h
  · cases h

theorem ruleFixed_ruleList (h : EachFixed (RuleFixed U) (Dict.get? route "rules")) :
    ∀ rule ∈ ruleList route, RuleFixed U rule := by
  intro rule hrule
  unfold EachFixed at h
  simp only [ruleList, Json.getD, Json.get?] at hrule
  cases hvalue : (Dict.get? route "rules").getD .null with
  | arr items =>
      rw [hvalue] at h hrule
      exact h rule hrule
  | _ =>
      rw [hvalue] at hrule
      exact absurd hrule List.not_mem_nil

theorem get?_mergeFinal {key : String} (h : "final" ≠ key) {nr : Dict String Json} :
    Dict.get? (mergeFinal nr route) key = Dict.get? route key := by
  unfold mergeFinal
  simp only
  split
  · exact Dict.get?_set_ne h route _
  · rfl

/-- The merged route has normal references. -/
theorem routeFixed_merged {cr nr : Dict String Json} (hc : RouteFixed U cr) (hn : RouteFixed U nr) :
    RouteFixed U (mergeFinal nr (cr.set "rules" (.arr (ruleList nr ++ ruleList cr)))) where
  final := by
    unfold mergeFinal
    simp only
    split
    · intro s label hs
      rw [Dict.get?_set_self, Option.some.injEq] at hs
      refine hn.final s label ?_
      cases hget : Dict.get? nr "final" with
      | none => simp [Json.getD, Json.get?, hget] at hs
      | some value => simpa [Json.getD, Json.get?, hget] using hs
    · rw [Dict.get?_set_ne (by decide)]
      exact hc.final
  rules := by
    rw [get?_mergeFinal (by decide), Dict.get?_set_self]
    intro rule hrule
    rcases List.mem_append.mp hrule with hrule | hrule
    · exact ruleFixed_ruleList hn.rules rule hrule
    · exact ruleFixed_ruleList hc.rules rule hrule
  ruleSets := by
    rw [get?_mergeFinal (by decide), Dict.get?_set_ne (by decide)]
    exact hc.ruleSets

theorem mem_fillSlots (hn : Normalized H n) :
    (∀ o ∈ (fillSlots c n resolutions p).outbounds, o ∈ p.outbounds ∨ o ∈ n.outbounds) ∧
      ∀ g ∈ (fillSlots c n resolutions p).groups, g ∈ p.groups ∨ g ∈ n.groups := by
  unfold fillSlots
  generalize n.orderedNames = names
  induction names generalizing p with
  | nil => exact ⟨fun o ho => .inl ho, fun g hg => .inl hg⟩
  | cons name names ih =>
      rw [List.foldl_cons]
      obtain ⟨houts, hgroups⟩ := ih (p := fillTurn c n resolutions p name)
      have hslot := hn.slots name
      have hturn : (∀ o ∈ (fillTurn c n resolutions p name).outbounds, o ∈ p.outbounds ∨ o ∈ n.outbounds) ∧
          ∀ g ∈ (fillTurn c n resolutions p name).groups, g ∈ p.groups ∨ g ∈ n.groups := by
        unfold fillTurn
        split
        · exact ⟨fun o ho => .inl ho, fun g hg => .inl hg⟩
        · refine ⟨fun o ho => ?_, fun g hg => ?_⟩
          · rcases List.mem_append.mp ho with ho | ho
            · exact .inl (List.mem_of_mem_filter ho)
            · rw [show n.outboundSlots.get? name = _ from congrArg Prod.fst hslot, Option.mem_toList] at ho
              exact .inr (List.mem_of_find?_eq_some ho)
          · rcases List.mem_append.mp hg with hg | hg
            · exact .inl (List.mem_of_mem_filter hg)
            · rw [show n.groupSlots.get? name = _ from congrArg Prod.snd hslot, Option.mem_toList] at hg
              exact .inr (List.mem_of_find?_eq_some hg)
      exact ⟨fun o ho => (houts o ho).elim (hturn.1 o) .inr, fun g hg => (hgroups g hg).elim (hturn.2 g) .inr⟩

/-- Filling slots leaves the direct outbound. -/
theorem direct_fillSlots (hn : Normalized H n) :
    (fillSlots c n resolutions p).outbounds.filter (hasType "direct") = p.outbounds.filter (hasType "direct") := by
  unfold fillSlots
  generalize n.orderedNames = names
  induction names generalizing p with
  | nil => rfl
  | cons name names ih =>
      rw [List.foldl_cons, ih]
      unfold fillTurn
      split
      · rfl
      · have hslot : n.outboundSlots.get? name = _ := congrArg Prod.fst (hn.slots name)
        simp only [fillSlot, List.filter_append, List.filter_filter]
        have hnone : (n.outboundSlots.get? name).toList.filter (hasType "direct") = [] := by
          refine List.filter_eq_nil_iff.mpr fun o ho hdirect => ?_
          rw [hslot, Option.mem_toList] at ho
          have hat : outboundAt name o = true := List.find?_some ho
          simp [outboundAt, hasSlot, hdirect] at hat
        rw [hnone, List.append_nil]
        refine List.filter_congr fun o _ => ?_
        cases hdirect : hasType "direct" o <;> simp [outboundAt, hasSlot, hdirect]

/-- The merged parts have normal names. -/
theorem normalNames_merged (hc : Normalized H c) (hn : Normalized H n)
    (hproxy : m.proxyProviders =
      mergeProviders resolutions "proxy-provider" c.mihomo.proxyProviders n.mihomo.proxyProviders)
    (hrule : m.ruleProviders =
      mergeProviders resolutions "rule-provider" c.mihomo.ruleProviders n.mihomo.ruleProviders) :
    NormalNames H.unicode (fillSlots c n resolutions c).outbounds (fillSlots c n resolutions c).groups m
      (mergeFinal n.route (c.route.set "rules" (.arr (ruleList n.route ++ ruleList c.route)))) where
  outbounds o ho := ((mem_fillSlots hn).1 o ho).elim (hc.normal.outbounds o) (hn.normal.outbounds o)
  groups g hg := ((mem_fillSlots hn).2 g hg).elim (hc.normal.groups g) (hn.normal.groups g)
  proxyProviders := hproxy ▸ mergeProviders_rebuilt hc.normal.proxyProviders hn.normal.proxyProviders
  ruleProviders := hrule ▸ mergeProviders_rebuilt hc.normal.ruleProviders hn.normal.ruleProviders
  route := routeFixed_merged hc.normal.route hn.normal.route

/-! ### Merge mode -/

/-- What holds of the parts of the current model, the incoming one and the result. -/
structure Union (c n : Parts) (resolutions : Dict String String) (r : Parts) : Prop where
  names : ∀ name, name ∈ r.names ↔ name ∈ c.names ∨ name ∈ n.names
  proxyNames : ∀ name, name ∈ r.mihomo.proxyProviders.keys ↔
    name ∈ c.mihomo.proxyProviders.keys ∨ name ∈ n.mihomo.proxyProviders.keys
  ruleNames : ∀ name, name ∈ r.mihomo.ruleProviders.keys ↔
    name ∈ c.mihomo.ruleProviders.keys ∨ name ∈ n.mihomo.ruleProviders.keys
  once : (r.names ++ r.mihomo.proxyProviders.keys ++ r.mihomo.ruleProviders.keys).Nodup
  direct : r.outbounds.filter (hasType "direct") = c.outbounds.filter (hasType "direct")
  slots : ∀ name, r.slot name =
    if name ∈ n.names ∧ ¬ (name ∈ c.names ∧ choiceFor resolutions "name" name = "existing") then n.slot name
    else c.slot name
  proxyProviders : ∀ name, r.mihomo.proxyProviders.get? name =
    if name ∈ n.mihomo.proxyProviders.keys ∧ ¬ (name ∈ c.mihomo.proxyProviders.keys ∧
        choiceFor resolutions "proxy-provider" name ≠ "incoming") then n.mihomo.proxyProviders.get? name
    else c.mihomo.proxyProviders.get? name
  ruleProviders : ∀ name, r.mihomo.ruleProviders.get? name =
    if name ∈ n.mihomo.ruleProviders.keys ∧ ¬ (name ∈ c.mihomo.ruleProviders.keys ∧
        choiceFor resolutions "rule-provider" name ≠ "incoming") then n.mihomo.ruleProviders.get? name
    else c.mihomo.ruleProviders.get? name
  rules : ruleList r.route = ruleList n.route ++ ruleList c.route
  files : ∀ leaf, leaf ∈ r.mihomo.managedFiles.keys ↔
    ∃ entry ∈ r.mihomo.proxyProviders ++ r.mihomo.ruleProviders, FileOf entry.2 leaf

/-- A name is taken exactly if its slot is. -/
theorem mem_names_iff : name ∈ p.names ↔ p.slot name ≠ (none, none) := by
  have hfind : ∀ {q : Json → Bool} {xs : List Json}, xs.find? q ≠ none ↔ ∃ x ∈ xs, q x = true := by
    intro q xs
    rw [ne_eq, List.find?_eq_none]
    push Not
    rfl
  have htexts : ∀ {key : String} {xs : List Json}, name ∈ xs.filterMap (fun x => (x.get? key).bind Json.str?) ↔
      ∃ x ∈ xs, x.get? key = some (.str name) := by
    intro key xs
    rw [List.mem_filterMap]
    refine exists_congr fun x => and_congr_right fun _ => ?_
    constructor
    · intro h
      obtain ⟨value, hvalue, hstr⟩ := Option.bind_eq_some_iff.mp h
      cases value <;> simp_all [Json.str?]
    · intro h
      rw [h]
      rfl
  rw [Parts.names, List.mem_append, outboundTags, groupNames, htexts, htexts, Parts.slot, ne_eq, Prod.mk.injEq,
    not_and_or, ← ne_eq, ← ne_eq, hfind, hfind]
  simp only [List.mem_filter, outboundAt, groupAt, Bool.and_eq_true, decide_eq_true_eq, and_assoc]

theorem union_names {ns cs rs b : Prop} [Decidable (ns ∧ ¬ (cs ∧ b))] (h : rs ↔ if ns ∧ ¬ (cs ∧ b) then ns else cs) : rs ↔ cs ∨ ns := by
  rw [h]
  split
  · next hc => exact ⟨.inr, fun _ => hc.1⟩
  · next hc =>
      refine ⟨.inl, fun hor => ?_⟩
      by_contra hcs
      exact hc ⟨hor.resolve_left hcs, fun h => hcs h.1⟩

theorem keys_merged {cs ns rs : Dict String Json}
    (h : rs.get? name = if name ∈ ns.keys ∧ ¬ (name ∈ cs.keys ∧ choiceFor resolutions kind name ≠ "incoming") then
      ns.get? name else cs.get? name) : name ∈ rs.keys ↔ name ∈ cs.keys ∨ name ∈ ns.keys := by
  refine union_names ?_ (b := choiceFor resolutions kind name ≠ "incoming")
  rw [← Dict.get?_isSome_iff, h]
  split <;> rw [Dict.get?_isSome_iff]

theorem preparedModels_cases (hU : NfcClosed H.unicode)
    (h : preparedModels H current incoming = .ok (model, result)) :
    ∃ c n, model = Parts.model c ∧ result = Parts.model n ∧ Normalized H c ∧ Normalized H n := by
  obtain ⟨current', hcurrent, h⟩ := bind_eq_ok.mp h
  obtain ⟨incoming', hincoming, h⟩ := bind_eq_ok.mp h
  obtain ⟨bound, hbound, h⟩ := bind_eq_ok.mp h
  obtain ⟨rfl, rfl⟩ := Prod.mk.inj (pure_eq_ok.mp h)
  obtain ⟨-, c, rfl, hc⟩ := normalizeModel_cases hU hcurrent
  refine ⟨c, ?_⟩
  obtain ⟨-, n, rfl, hn⟩ := normalizeModel_cases hU hincoming
  obtain ⟨direct, -, hbound⟩ := bind_eq_ok.mp hbound
  obtain ⟨direct', -, hbound⟩ := bind_eq_ok.mp hbound
  dsimp only at hbound
  split at hbound
  · obtain rfl := pure_eq_ok.mp hbound
    exact ⟨n, rfl, rfl, hc, hn⟩
  · obtain ⟨-, hbound⟩ := raiseIf_bind_eq_ok.mp hbound
    obtain ⟨renamed, -, hbound⟩ := bind_eq_ok.mp hbound
    obtain ⟨-, n', rfl, hn'⟩ := normalizeModel_cases hU hbound
    exact ⟨n', rfl, rfl, hc, hn'⟩

/-- What merge mode puts in place holds the slots, providers, rules and files of both models. -/
theorem mergeModel_union (hU : NfcClosed H.unicode)
    (h : mergeModel H current incoming "merge" resolutions = .ok result) :
    ∃ c n r, preparedModels H current incoming = .ok (Parts.model c, Parts.model n) ∧ result = Parts.model r ∧
      Union c n resolutions r := by
  obtain ⟨⟨current', incoming'⟩, hprepared, h⟩ := bind_eq_ok.mp h
  obtain ⟨c, n, rfl, rfl, hc, hn⟩ := preparedModels_cases hU hprepared
  simp only [partsOf_eq hc, partsOf_eq hn, ok_bind] at h
  rw [if_neg (by decide)] at h
  obtain ⟨merged, hmerged, h⟩ := bind_eq_ok.mp h
  obtain ⟨rules, hrules, hmerged⟩ := bind_eq_ok.mp hmerged
  obtain rfl := mergeRules_eq_ok hrules
  rw [← pure_eq_ok.mp hmerged] at h
  obtain ⟨proxy, -, h⟩ := bind_eq_ok.mp h
  obtain ⟨rule, -, h⟩ := bind_eq_ok.mp h
  -- the merged parts have normal names, so that normalizing them changes nothing
  obtain ⟨fields, hr, rfl⟩ := normalizeModel_parts hU (normalNames_merged hc hn rfl rfl) h
  refine ⟨c, n, _, hprepared, rfl, ?_⟩
  have hslots : ∀ name, (fillSlots c n resolutions c).slot name = _ := fun name => slot_fillSlots hn
  have hproxy : ∀ name, (mergeProviders resolutions "proxy-provider" c.mihomo.proxyProviders
      n.mihomo.proxyProviders).get? name = _ := fun name => get?_mergeProviders hn.normal.proxyProviders.1
  have hrule : ∀ name, (mergeProviders resolutions "rule-provider" c.mihomo.ruleProviders
      n.mihomo.ruleProviders).get? name = _ := fun name => get?_mergeProviders hn.normal.ruleProviders.1
  exact {
    names := fun name => by
      refine union_names (mem_names_iff.trans ?_) (b := choiceFor resolutions "name" name = "existing")
      show (fillSlots c n resolutions c).slot name ≠ (none, none) ↔ _
      rw [slot_fillSlots hn]
      unfold Kept
      split <;> rw [← mem_names_iff]
    proxyNames := fun name => keys_merged (hproxy name)
    ruleNames := fun name => keys_merged (hrule name)
    once := hr.nodup
    direct := direct_fillSlots hn
    slots := hslots
    proxyProviders := hproxy
    ruleProviders := hrule
    rules := by
      simp only [ruleList, Json.getD, Json.get?, get?_mergeFinal (show "final" ≠ "rules" by decide),
        Dict.get?_set_self, Option.getD_some]
    files := fun leaf => hr.files }

/-- A model of a machine with a direct outbound, a proxy and a rule. -/
def machineModel (direct proxy target : String) : Json :=
  .obj [
    ("outbounds", .arr [
      .obj [("type", .str "direct"), ("tag", .str direct)],
      .obj [("type", .str "shadowsocks"), ("tag", .str proxy)]]),
    ("route", .obj [
      ("rules", .arr [.obj [("domain", .arr [.str "a.com"]), ("outbound", .str target)]]),
      ("final", .str direct)]),
    ("_pdg", metaJson (.arr []) ⟨[], [], [], []⟩)]

/-- The rules of a model. -/
def rulesOf (model : Json) : List Json := ruleList ((model.getD "route" .null).fields?.getD [])

/-- Two models of the same machine are merged. -/
theorem union_of_machines : ∃ result,
    mergeModel plainHost (machineModel "JP" "tokyo" "tokyo") (machineModel "JP" "osaka" "osaka") "merge" [] = .ok result ∧
    ∃ c n r, preparedModels plainHost (machineModel "JP" "tokyo" "tokyo") (machineModel "JP" "osaka" "osaka") =
        .ok (Parts.model c, Parts.model n) ∧ result = Parts.model r ∧ Union c n [] r := by
  have hok : (mergeModel plainHost (machineModel "JP" "tokyo" "tokyo") (machineModel "JP" "osaka" "osaka") "merge"
      []).toOption.isSome = true := by
    decide +kernel
  cases h : mergeModel plainHost (machineModel "JP" "tokyo" "tokyo") (machineModel "JP" "osaka" "osaka") "merge" [] with
  | error e =>
      rw [h] at hok
      cases hok
  | ok result => exact ⟨result, rfl, mergeModel_union (fun _ _ _ => rfl) h⟩

/-- The rule of another machine for its own direct outbound is not among the rules of the result. -/
theorem direct_rebound : ∃ result,
    mergeModel plainHost (machineModel "JP" "tokyo" "tokyo") (machineModel "HK" "osaka" "HK") "merge" [] = .ok result ∧
    rulesOf result ≠ rulesOf (machineModel "HK" "osaka" "HK") ++ rulesOf (machineModel "JP" "tokyo" "tokyo") := by
  have hrules : rulesOf <$> mergeModel plainHost (machineModel "JP" "tokyo" "tokyo") (machineModel "HK" "osaka" "HK")
      "merge" [] = .ok [.obj [("domain", .arr [.str "a.com"]), ("outbound", .str "JP")],
        .obj [("domain", .arr [.str "a.com"]), ("outbound", .str "tokyo")]] := by
    decide +kernel
  cases h : mergeModel plainHost (machineModel "JP" "tokyo" "tokyo") (machineModel "HK" "osaka" "HK") "merge" [] with
  | error e =>
      rw [h] at hrules
      cases hrules
  | ok result =>
      rw [h] at hrules
      refine ⟨result, rfl, ?_⟩
      rw [show rulesOf result = _ from Except.ok.inj hrules]
      decide +kernel

end ProxyGateway.WebImport
