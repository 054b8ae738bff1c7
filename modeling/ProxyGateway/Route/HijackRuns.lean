import ProxyGateway.Route.Hijack

set_option autoImplicit false

/-!
# ProxyGateway.Route.HijackRuns

Imports and whole runs. What an import proxies is what the incoming model proxies, and in
merge mode what the current one does (`needsAfter_result`): binding the incoming direct
outbound to the machine's moves no domain between proxied and direct. With that every
operation has its condition, and in a run every proxied domain is hijacked in every state
exactly if every step meets its condition (`run_hijacked_iff`).
-/

namespace ProxyGateway.Route

open Rule

variable {H : Host} {g g' : Gateway} {m m' : Model} {r r' : Rule} {o d : Json}

/-! ### Binding the direct outbound -/

theorem renameRule_domains (old new : String) (r : Rule) :
    (renameRule old new r).domains = r.domains := by
  unfold renameRule
  split
  · exact domains_set_outbound _
  · rfl

theorem rebindDirect_cases {new : String} (h : rebindDirect m new = .ok m') :
    ∃ old, m.directTag = some old ∧ ((old = new ∧ m' = m) ∨
      (old ≠ new ∧ new ∉ (m.outbounds.filter (fun o => o.tag ≠ old)).map Outbound.tag ∧
        new ∉ m.groups.map Group.name ∧
        m'.outbounds = m.outbounds.map
          (fun o => if o.type = "direct" then { o with tag := new } else o) ∧
        m'.rules = m.rules.map (renameRule old new))) := by
  unfold rebindDirect at h
  split at h
  · simp at h
  · next old hold =>
      refine ⟨old, hold, ?_⟩
      split at h
      · next he => exact .inl ⟨he, (Py.pure_eq_ok.mp h).symm⟩
      · next he =>
          split at h
          · simp at h
          · next hno =>
              rw [← Py.pure_eq_ok.mp h]
              exact .inr ⟨he, fun hm => hno (.inr (.inl hm)), fun hm => hno (.inr (.inr hm)),
                rfl, rfl⟩

theorem rebindDirect_directTag {new : String} (h : rebindDirect m new = .ok m')
    (hv : m.valid = true) : m'.directTag = some new := by
  obtain ⟨old, hold, ⟨he, rfl⟩ | ⟨-, -, -, hout, -⟩⟩ := rebindDirect_cases h
  · rw [hold, he]
  · obtain ⟨o, ho, hd, -, hf⟩ := exists_direct hv
    have hmap : ∀ xs : List Outbound, xs.find? (fun o => o.type = "direct") = some o →
        (xs.map (fun o => if o.type = "direct" then { o with tag := new } else o)).find?
          (fun o => o.type = "direct") = some { o with tag := new } := by
      intro xs hx
      induction xs with
      | nil => simp at hx
      | cons x xs ih =>
          by_cases hxd : x.type = "direct"
          · have hxo : x = o := by simpa [hxd] using hx
            subst hxo
            simp [hxd]
          · have hxs : xs.find? (fun o => o.type = "direct") = some o := by simpa [hxd] using hx
            simpa [hxd] using ih hxs
    rw [Model.directTag, hout, hmap _ hf]
    rfl

/-- The rules of a bound model proxy what the rules before did. -/
theorem rebindDirect_needs {new : String} (h : rebindDirect m new = .ok m')
    (hv : m.valid = true) {f : Rule → Rule}
    (hf : ∀ r, (f (renameRule (m.directTag.getD "") new r)).domains = (f r).domains) :
    NeedsAfter f m' d ↔ NeedsAfter f m d := by
  have hdt := rebindDirect_directTag h hv
  obtain ⟨old, hold, ⟨he, rfl⟩ | ⟨hne, hout, hgrp, -, hrules⟩⟩ := rebindDirect_cases h
  · exact Iff.rfl
  · rw [hold, Option.getD_some] at hf
    obtain ⟨-, -, -, htargets⟩ := valid_iff.mp hv
    -- no rule uses the new tag yet
    have hfresh : ∀ r ∈ m.rules, r.outbound ≠ .str new := by
      intro r hr he
      rcases htargets r hr with hn | ⟨t, ht, hrt⟩
      · rw [hn] at he
        cases he
      · rw [hrt] at he
        cases he
        rcases List.mem_append.mp ht with ht | ht
        · obtain ⟨o, ho, rfl⟩ := List.mem_map.mp ht
          exact hout (List.mem_map.mpr ⟨o, List.mem_filter.mpr
            ⟨List.mem_of_mem_filter ho, by simpa using Ne.symm hne⟩, rfl⟩)
        · exact hgrp ht
    have hprox : ∀ r ∈ m.rules, m'.proxied (renameRule old new r).outbound =
        m.proxied r.outbound := by
      intro r hr
      simp only [Model.proxied, hdt, hold, Option.map_some]
      unfold renameRule
      by_cases ho : r.outbound = .str old
      · have hset : Rule.outbound (r.set "outbound" (.str new)) = .str new := field_set_self _ _ _
        rw [if_pos ho, hset, ho]
        simp
      · simp [ho, hfresh r hr]
    unfold NeedsAfter
    rw [hrules]
    constructor
    · intro hn
      obtain ⟨r', hr', hp, hd⟩ := hn
      obtain ⟨r, hr, rfl⟩ := List.mem_map.mp hr'
      exact ⟨r, hr, (hprox r hr).symm.trans hp, hf r ▸ hd⟩
    · intro hn
      obtain ⟨r, hr, hp, hd⟩ := hn
      exact ⟨_, List.mem_map_of_mem hr, (hprox r hr).trans hp, (hf r).symm ▸ hd⟩

/-! ### Merging models -/

theorem validated_eq_ok (h : validated m = .ok m') : m' = m ∧ m.valid = true := by
  unfold validated at h
  split at h
  · next hv => exact ⟨(Except.ok.inj h).symm, hv⟩
  · simp at h

theorem mergeName_fixed (current incoming result : Model) (resolutions : Dict String Choice)
    (name : String) :
    (mergeName current incoming resolutions result name).rules = result.rules ∧
      (mergeName current incoming resolutions result name).directTag = result.directTag := by
  unfold mergeName
  split
  · exact ⟨rfl, rfl⟩
  · refine ⟨rfl, ?_⟩
    unfold Model.directTag
    have hnew : (((incoming.outbounds.filter (fun o => o.type ≠ "direct")).filter
        (fun o => o.tag = name)).getLast?.toList).filter (fun o => o.type = "direct") = [] := by
      refine List.filter_eq_nil_iff.mpr (fun x hx => ?_)
      have hx := List.mem_of_getLast? (Option.mem_toList.mp hx)
      have := (List.mem_filter.mp (List.mem_filter.mp hx).1).2
      simpa using this
    rw [← List.head?_filter, ← List.head?_filter, List.filter_append, hnew, List.append_nil,
      List.filter_filter]
    congr 2
    refine List.filter_congr (fun x _ => ?_)
    by_cases hx : x.type = "direct" <;> simp [hx]

theorem mergeNames_fixed (current incoming : Model) (resolutions : Dict String Choice)
    (names : List String) (result : Model) :
    (names.foldl (mergeName current incoming resolutions) result).rules = result.rules ∧
      (names.foldl (mergeName current incoming resolutions) result).directTag =
        result.directTag := by
  induction names generalizing result with
  | nil => exact ⟨rfl, rfl⟩
  | cons name names ih =>
      obtain ⟨hr, hd⟩ := mergeName_fixed current incoming result resolutions name
      obtain ⟨ihr, ihd⟩ := ih (mergeName current incoming resolutions result name)
      exact ⟨ihr.trans hr, ihd.trans hd⟩

theorem mergeModel_cases {current incoming : Model} {mode : Mode}
    {resolutions : Dict String Choice} (h : mergeModel current incoming mode resolutions = .ok m) :
    ∃ direct bound, current.directTag = some direct ∧ rebindDirect incoming direct = .ok bound ∧
      m.valid = true ∧ m.directTag = some direct ∧
      m.rules = bound.rules ++ if mode = .merge then current.rules else [] := by
  unfold mergeModel at h
  split at h
  · next direct machine hd hmach =>
      obtain ⟨bound, hb, h⟩ := Py.bind_eq_ok.mp h
      refine ⟨direct, bound, hd, hb, ?_⟩
      have hmachd : machine.type = "direct" := by simpa using List.find?_some hmach
      have hmacht : machine.tag = direct := by
        rw [Model.directTag, hmach] at hd
        exact Option.some.inj hd
      cases mode with
      | replace =>
          obtain ⟨rfl, hv⟩ := validated_eq_ok h
          refine ⟨hv, ?_, by simp⟩
          simp [Model.directTag, hmachd, hmacht]
      | merge =>
          obtain ⟨rfl, hv⟩ := validated_eq_ok h
          obtain ⟨hr, hdt⟩ := mergeNames_fixed current bound resolutions bound.orderedNames current
          refine ⟨hv, hdt.trans hd, ?_⟩
          simp only [if_true]
          rw [hr]
  · simp at h

/-- What a merged model proxies. -/
theorem needsAfter_merge {current incoming : Model} {mode : Mode}
    {resolutions : Dict String Choice} (h : mergeModel current incoming mode resolutions = .ok m)
    (hv : incoming.valid = true) {f : Rule → Rule}
    (hf : ∀ old new r, (f (renameRule old new r)).domains = (f r).domains) :
    NeedsAfter f m d ↔ NeedsAfter f incoming d ∨ (mode = .merge ∧ NeedsAfter f current d) := by
  obtain ⟨direct, bound, hc, hb, -, hdt, hrules⟩ := mergeModel_cases h
  rw [← rebindDirect_needs hb hv (hf _ _)]
  have hbdt := rebindDirect_directTag hb hv
  have hp : ∀ o, m.proxied o = bound.proxied o := fun o => proxied_congr (hdt.trans hbdt.symm)
  have hp' : ∀ o, m.proxied o = current.proxied o := fun o => proxied_congr (hdt.trans hc.symm)
  unfold NeedsAfter
  rw [hrules]
  cases mode with
  | replace =>
      simp only [reduceCtorEq, if_false, List.append_nil, false_and, or_false, hp]
  | merge =>
      simp only [if_true, true_and, List.mem_append, or_and_right, exists_or]
      simp only [← hp, ← hp']

/-! ### Replacing addresses -/

theorem get?_mapTextsFields (f : String → String) (kvs : List (String × Json)) (k : String) :
    Dict.get? (mapTextsFields f kvs) k = (Dict.get? kvs k).map (mapTexts f) := by
  induction kvs with
  | nil => rfl
  | cons p kvs ih =>
      obtain ⟨k', v⟩ := p
      by_cases hk : k' = k
      · simp [mapTextsFields, Dict.get?, hk]
      · simp [mapTextsFields, Dict.get?, hk, ih]

theorem field_mapTextsFields (f : String → String) (r : Rule) (k : String) :
    field (mapTextsFields f r) k = mapTexts f (r.field k) := by
  unfold field
  rw [get?_mapTextsFields]
  cases Dict.get? r k <;> simp [mapTexts]

/-- Replacing addresses does not look at the outbound to change the domains. -/
theorem mapTexts_renameRule_domains (f : String → String) (old new : String) (r : Rule) :
    Rule.domains (mapTextsFields f (renameRule old new r)) =
      Rule.domains (mapTextsFields f r) := by
  have hfield : ∀ k, k ≠ "outbound" → (renameRule old new r).field k = r.field k := by
    intro k hk
    unfold renameRule
    split
    · exact field_set_ne (Ne.symm hk) _ _
    · rfl
  simp only [domains, entries_listed, field_mapTextsFields]
  rw [hfield _ (by decide), hfield _ (by decide)]

theorem rebase_directTag (f : String → String) (m : Model) :
    (m.rebase f).directTag = m.directTag.map f := by
  have hmap : ∀ xs : List Outbound, (xs.map (fun o => { o with tag := f o.tag })).find?
      (fun o => o.type = "direct") =
        (xs.find? (fun o => o.type = "direct")).map (fun o => { o with tag := f o.tag }) := by
    intro xs
    induction xs with
    | nil => rfl
    | cons x xs ih =>
        by_cases hx : x.type = "direct"
        · simp [hx]
        · simpa [hx] using ih
  rw [Model.directTag, Model.rebase, hmap, Model.directTag, Option.map_map, Option.map_map]
  rfl

/-- Replacing addresses merges no two names of a model that is valid afterwards, so it
moves no rule between proxied and direct. -/
theorem rebase_needs {f : String → String} (hv : m.valid = true)
    (hv' : (m.rebase f).valid = true) :
    NeedsAfter id (m.rebase f) d ↔ NeedsAfter (mapTextsFields f) m d := by
  obtain ⟨x, hx, -, hdt, -⟩ := exists_direct hv
  obtain ⟨-, -, -, htargets⟩ := valid_iff.mp hv
  obtain ⟨-, hn', -⟩ := valid_iff.mp hv'
  have hnames : (m.rebase f).outbounds.map Outbound.tag ++ (m.rebase f).groups.map Group.name =
      (m.outbounds.map Outbound.tag ++ m.groups.map Group.name).map f := by
    simp [Model.rebase, Function.comp_def]
  rw [hnames] at hn'
  have hprox : ∀ r ∈ m.rules, (m.rebase f).proxied (Rule.outbound (mapTextsFields f r)) =
      m.proxied r.outbound := by
    intro r hr
    have ho : Rule.outbound (mapTextsFields f r) = mapTexts f r.outbound :=
      field_mapTextsFields f r "outbound"
    simp only [Model.proxied, ho, rebase_directTag, hdt, Option.map_some]
    rcases htargets r hr with hnull | ⟨t, ht, hrt⟩
    · simp [hnull, mapTexts]
    · have ht : t ∈ m.outbounds.map Outbound.tag ++ m.groups.map Group.name := by
        rcases List.mem_append.mp ht with ht | ht
        · obtain ⟨y, hy, rfl⟩ := List.mem_map.mp ht
          exact List.mem_append_left _ (List.mem_map_of_mem (List.mem_of_mem_filter hy))
        · exact List.mem_append_right _ ht
      have hxm : x.tag ∈ m.outbounds.map Outbound.tag ++ m.groups.map Group.name :=
        List.mem_append_left _ (List.mem_map_of_mem hx)
      have hinj : f t = f x.tag ↔ t = x.tag :=
        ⟨fun he => List.inj_on_of_nodup_map hn' ht hxm he, fun he => by rw [he]⟩
      simp [hrt, mapTexts, hinj]
  unfold NeedsAfter
  constructor
  · intro hn
    obtain ⟨r', hr', hp, hd⟩ := hn
    obtain ⟨r, hr, rfl⟩ := List.mem_map.mp hr'
    exact ⟨r, hr, (hprox r hr).symm.trans hp, hd⟩
  · intro hn
    obtain ⟨r, hr, hp, hd⟩ := hn
    exact ⟨_, List.mem_map_of_mem hr, (hprox r hr).trans hp, hd⟩

theorem needs_iff : Needs m d ↔ NeedsAfter id m d := by
  constructor
  · intro h
    obtain ⟨o, ⟨r, hr, ho, hd⟩, hp⟩ := h
    exact ⟨r, hr, ho ▸ hp, hd⟩
  · intro h
    obtain ⟨r, hr, hp, hd⟩ := h
    exact ⟨r.outbound, ⟨r, hr, rfl, hd⟩, hp⟩

/-! ### Imports -/

theorem applyImport_cases {I : Import} (h : applyImport I g = .ok g') :
    I.result g = .ok g'.model ∧ g'.hijack = I.hijack g := by
  unfold applyImport at h
  obtain ⟨m, hm, h⟩ := Py.bind_eq_ok.mp h
  split at h
  · next hb =>
      rw [← Py.pure_eq_ok.mp h]
      exact ⟨hm, by simp [Import.hijack, hb]⟩
  · rw [← Py.pure_eq_ok.mp h]
    exact ⟨hm, rfl⟩

theorem applyImport_hijacked {I : Import} (h : applyImport I g = .ok g') (hg : Hijacked g) :
    Hijacked g' ↔ ImportCovered I g := by
  obtain ⟨hm, hh⟩ := applyImport_cases h
  unfold Import.result at hm
  obtain ⟨merged, hmerge, hm⟩ := Py.bind_eq_ok.mp hm
  obtain ⟨direct, bound, hc, hb, hv, hdt, -⟩ := mergeModel_cases hmerge
  unfold Hijacked ImportCovered
  rw [hh]
  cases hbundle : I.bundle with
  | none =>
      rw [hbundle] at hm
      have hm := Py.pure_eq_ok.mp hm
      have hn : ∀ d, Needs g'.model d ↔ Needs I.model d ∨ (I.mode = .merge ∧ Needs g.model d) := by
        intro d
        rw [← hm, needs_iff, needs_iff, needs_iff]
        exact needsAfter_merge hmerge I.valid renameRule_domains
      have hl : I.hijack g = g.hijack := by simp [Import.hijack, hbundle]
      rw [hl]
      constructor
      · intro hall d hd
        exact hall d ((hn d).mpr (.inl hd))
      · intro hinc d hd
        rcases (hn d).mp hd with hd | ⟨-, hd⟩
        · exact hinc d hd
        · exact hg d hd
  | some b =>
      rw [hbundle, hc] at hm
      obtain ⟨rebased, hr, hm⟩ := Py.bind_eq_ok.mp hm
      obtain ⟨rfl, hvr⟩ := validated_eq_ok hr
      have hn : ∀ d, Needs g'.model d ↔ NeedsAfter (mapTextsFields b.rebased) I.model d ∨
          (I.mode = .merge ∧ NeedsAfter (mapTextsFields b.rebased) g.model d) := by
        intro d
        rw [needs_iff, rebindDirect_needs hm hvr (fun r => renameRule_domains _ _ r),
          rebase_needs hv hvr]
        exact needsAfter_merge hmerge I.valid (mapTexts_renameRule_domains b.rebased)
      constructor
      · intro hall d hd
        exact hall d ((hn d).mpr hd)
      · intro hinc d hd
        exact hinc d ((hn d).mp hd)

/-! ### Runs -/

/-- An operation whose transaction commits, with a result that the validator accepts. -/
def CommitsValid (H : Host) (g : Gateway) (op : Op) (g' : Gateway) : Prop :=
  op.run H g = .ok g' ∧ g'.model.valid = true

/-- One committed operation keeps every proxied domain hijacked exactly if its condition
holds. -/
theorem hijacked_iff_keeps {op : Op} (h : op.run H g = .ok g') (hg : Hijacked g)
    (hv : g.model.valid = true) : Hijacked g' ↔ KeepsHijacked H g op := by
  cases op with
  | rule op =>
      cases op with
      | addRule domain target => exact addRule_hijacked h hg
      | delRule domain => exact delRule_hijacked h
      | delRulesBulk domains => exact delRulesBulk_hijacked h
      | reassignRule idx target => exact reassignRule_hijacked h hg
      | patchRule old value => exact patchRule_hijacked h hg
      | setTgExit tag => exact iff_of_true (setTgExit_hijacked h hg) trivial
  | deleteExit tag => exact iff_of_true (deleteExit_hijacked h hg hv) trivial
  | deleteOutbound value => exact deleteOutbound_hijacked h hg hv
  | apply I => exact applyImport_hijacked h hg

/-- In a run of committed operations from a valid gateway whose proxied domains are
hijacked, they are hijacked after every step exactly if every step meets its condition. -/
theorem run_hijacked_iff (H : Host) (g : Gateway) (run : List (Op × Gateway))
    (hv : g.model.valid = true) (hg : Hijacked g) (hr : Runs.IsRun (CommitsValid H) g run) :
    Runs.Always Hijacked g run ↔ Runs.AllSteps (fun g op _ => KeepsHijacked H g op) g run := by
  rw [Runs.always_iff_allSteps hg]
  refine Runs.allSteps_iff (I := fun g => g.model.valid = true ∧ Hijacked g) hr ⟨hv, hg⟩ ?_ ?_
  · intro s op t hs hstep
    exact hijacked_iff_keeps hstep.1 hs.2 hs.1
  · intro s op t _ hstep ht
    exact ⟨hstep.2, ht⟩

/-- A host for texts in lower case. -/
def lowerHost : Host where
  lower s := s
  validName s := s != ""
  normalizeName s := some s
  managedRulesets _ := some []

/-- A gateway without rules. -/
def bareGateway : Gateway where
  model := {
    outbounds := [⟨"JP", "direct"⟩, ⟨"tokyo", "shadowsocks"⟩]
    groups := []
    final := "JP"
    rules := []
    ruleSets := [] }
  direct := []
  hijack := []
  rsMeta := []

/-- After `add_rule` of a domain. -/
def proxiedGateway : Gateway :=
  { bareGateway with
    model := { bareGateway.model with rules := [newRule "domain_suffix" "example.com" "tokyo"] }
    hijack := ["example.com"] }

/-- After `add_rule` of the same domain to `direct`. -/
def strandedGateway : Gateway :=
  { proxiedGateway with direct := ["example.com"], hijack := [] }

theorem bareGateway_hijacked : Hijacked bareGateway := by
  intro d hd
  obtain ⟨o, hl, -⟩ := hd
  exact absurd hl not_listed_nil

/-- Adding a domain for an exit keeps every proxied domain hijacked. -/
theorem run_hijacked_proxied :
    Runs.Always Hijacked bareGateway [(Op.rule (.addRule "example.com" "tokyo"), proxiedGateway)] := by
  have hadd : addRule lowerHost "example.com" "tokyo" bareGateway = .ok proxiedGateway := by rfl
  have hkeeps : KeepsHijacked lowerHost bareGateway (Op.rule (.addRule "example.com" "tokyo")) :=
    fun ht => absurd ht (by decide)
  exact (run_hijacked_iff lowerHost bareGateway
    [(Op.rule (.addRule "example.com" "tokyo"), proxiedGateway)] (by decide) bareGateway_hijacked
    ⟨⟨hadd, by decide⟩, trivial⟩).mpr ⟨hkeeps, trivial⟩

/-- `add_rule` to `direct` takes the domain off the hijack list and leaves its rule for the
exit in the model. -/
theorem stranded_rule :
    proxiedGateway.model.valid = true ∧ Hijacked proxiedGateway ∧
      Runs.IsRun (CommitsValid lowerHost) proxiedGateway
        [(Op.rule (.addRule "example.com" "direct"), strandedGateway)] ∧
      Needs strandedGateway.model (.str "example.com") ∧
      ¬ Runs.Always Hijacked proxiedGateway
        [(Op.rule (.addRule "example.com" "direct"), strandedGateway)] := by
  have hadd : addRule lowerHost "example.com" "direct" proxiedGateway = .ok strandedGateway := by
    rfl
  have hneeds : Needs strandedGateway.model (.str "example.com") :=
    ⟨.str "tokyo", ⟨_, List.mem_singleton.mpr rfl, by decide, by decide⟩, by decide⟩
  refine ⟨by decide, ?_, ⟨⟨hadd, by decide⟩, trivial⟩, hneeds, ?_⟩
  · intro d hd
    obtain ⟨o, ⟨r, hr, -, hd⟩, -⟩ := hd
    rw [List.mem_singleton.mp hr, mem_newRule_domains (.inl rfl)] at hd
    rw [hd]
    exact coveredBy_of_mem (by decide)
  · intro h
    obtain ⟨s, -, e, he, -⟩ := h.2 (.str "example.com") hneeds
    simp [strandedGateway] at he

end ProxyGateway.Route
