import ProxyGateway.Render.Mihomo
import ProxyGateway.Schema.Rebind

set_option autoImplicit false

/-!
# ProxyGateway.Render.Rebound

The direct tag is not to be seen in a rendered configuration: a model that was rebound renders like
the one before, and only the entries that were dropped name the new tag.
-/

namespace ProxyGateway.Render

open Schema Json Py

variable {S : Site} {old new : String} {block : List String} {fields route : Dict String Json}
  {available : List String}

/-! ### Targets -/

/-- Neither tag is empty. -/
structure Given (old new : String) : Prop where
  old : old ≠ ""
  new : new ≠ ""

theorem mapTarget_renamed {item : Json} (h : item ≠ .str new) :
    mapTarget ⟨[new], block⟩ (renamed old new item) = mapTarget ⟨[old], block⟩ item := by
  by_cases hold : item = .str old
  · subst hold
    rw [renamed_self]
    simp [mapTarget, within]
  · rw [renamed_of_ne hold]
    cases item with
    | str s =>
        have hs : s ≠ new := fun hs => h (by rw [hs])
        have hs' : s ≠ old := fun hs => hold (by rw [hs])
        simp [mapTarget, within, hs, hs']
    | _ => rfl

theorem truthy_renamed {item : Json} (hd : Given old new) :
    (renamed old new item).truthy = item.truthy := by
  by_cases hold : item = .str old
  · subst hold
    rw [renamed_self, truthy, truthy, bne_iff_ne.mpr hd.old, bne_iff_ne.mpr hd.new]
  · rw [renamed_of_ne hold]

theorem policyOf_renamed {item : Json} (hd : Given old new) (h : item ≠ .str new) :
    policyOf S ⟨[new], block⟩ (renamed old new item) = policyOf S ⟨[old], block⟩ item := by
  rw [policyOf, policyOf, truthy_renamed hd, mapTarget_renamed h]

/-! ### Rules -/

theorem getD_renameRule_ne {rule d : Json} {key : String} (h : "outbound" ≠ key) :
    (renameRule old new rule).getD key d = rule.getD key d := by
  cases rule with
  | obj fields => simp [renameRule, getD, get?, get?_renameField_ne h]
  | _ => rfl

theorem getD_renameRule {rule : Json} :
    (renameRule old new rule).getD "outbound" .null = renamed old new (rule.getD "outbound" .null) := by
  cases rule with
  | obj fields =>
      simp only [renameRule, getD, get?, get?_renameField]
      cases Dict.get? fields "outbound" with
      | none => rfl
      | some v => rfl
  | _ => rfl

/-- A rule that names no target is left as it is. -/
theorem renameRule_of_falsy {rule : Json} (new : String) (hd : Given old new)
    (h : (rule.getD "outbound" .null).truthy = false) : renameRule old new rule = rule := by
  cases rule with
  | obj fields =>
      have hne : Dict.get? fields "outbound" ≠ some (.str old) := by
        intro hget
        simp [getD, get?, hget, truthy, hd.old] at h
      rw [renameRule, renameField, if_neg hne]
  | _ => rfl

/-- An entry for a rule set that is not there. -/
theorem renameRule_entry {name out : Json} :
    renameRule old new (.obj [("rule_set", name), ("outbound", out)]) =
      .obj [("rule_set", name), ("outbound", renamed old new out)] := by
  have hget : Dict.get? [("rule_set", name), ("outbound", out)] "outbound" = some out := rfl
  by_cases h : out = .str old
  · rw [renameRule, renameField, hget, if_pos (congrArg some h), h, renamed_self]
    rfl
  · rw [renameRule, renameField, hget, if_neg (fun hsome => h (Option.some.inj hsome)),
      renamed_of_ne h]

/-- The lines of a rule stay, and a dropped entry is renamed like the rule. -/
theorem ruleLines_renamed {rule : Json} (hd : Given old new)
    (h : rule.getD "outbound" .null ≠ .str new) :
    ruleLines S ⟨[new], block⟩ available (renameRule old new rule) =
      (fun x => (x.1, x.2.map (renameRule old new))) <$> ruleLines S ⟨[old], block⟩ available rule := by
  have hsame : ∀ key d, "outbound" ≠ key → (renameRule old new rule).getD key d = rule.getD key d :=
    fun key d hne => getD_renameRule_ne hne
  unfold ruleLines
  rw [hsame "action" _ (by simp), hsame "ip_cidr" _ (by simp), hsame "rule_set" _ (by simp),
    hsame "domain_suffix" _ (by simp), hsame "domain" _ (by simp),
    hsame "domain_keyword" _ (by simp), getD_renameRule]
  simp only [truthy_renamed hd, mapTarget_renamed h]
  split
  · cases fieldLines S "IP-CIDR" (rule.getD "ip_cidr" (.arr [])) "REJECT,no-resolve" <;> rfl
  · split
    · next hfalsy =>
      have hkeep := renameRule_of_falsy new hd (by simpa using hfalsy)
      rw [hkeep]
      show _ = Except.ok ([], [renameRule old new rule])
      rw [hkeep]
      rfl
    · cases mapTarget ⟨[old], block⟩ (rule.getD "outbound" .null) with
      | error e => rfl
      | ok target =>
          simp only [ok_bind]
          split
          · next hname =>
            cases (rule.getD "rule_set" .null).within (ε := RenderError) available with
            | error e => rfl
            | ok known =>
                cases known with
                | true => rfl
                | false => exact congrArg (fun entry => Except.ok ([], [entry])) renameRule_entry.symm
          · cases fieldLines S "DOMAIN-SUFFIX" (rule.getD "domain_suffix" (.arr [])) (S.str target) with
            | error e => rfl
            | ok suffixes =>
                cases fieldLines S "DOMAIN" (rule.getD "domain" (.arr [])) (S.str target) with
                | error e => rfl
                | ok domains =>
                    cases fieldLines S "DOMAIN-KEYWORD" (rule.getD "domain_keyword" (.arr []))
                      (S.str target) <;> rfl

/-! ### The route -/

/-- What the renderer reads of a route, before and after. -/
theorem routeRules_renamed (old new : String) {rules : List Json}
    (h : (Json.obj route).getD "rules" (.arr []) = .arr rules) :
    routeRules (.obj route) = .ok rules ∧
      routeRules (.obj (renamedRoute old new route)) = .ok (rules.map (renameRule old new)) := by
  constructor
  · rw [routeRules, h, items_arr]
  · cases hget : Dict.get? route "rules" with
    | none =>
        have hrules : rules = [] := by simpa [getD, get?, hget] using h.symm
        have hget' : Dict.get? (renameField old new "final" route) "rules" = none := by
          rw [get?_renameField_ne (by simp), hget]
        simp only [renamedRoute, hget, routeRules, getD, get?, hget', hrules]
        rfl
    | some value =>
        have hvalue : value = .arr rules := by simpa [getD, get?, hget] using h
        have hget' : Dict.get? (renamedRoute old new route) "rules" =
            some (.arr (rules.map (renameRule old new))) := by
          simp only [renamedRoute, hget, hvalue, Dict.get?_set_self]
        rw [routeRules, getD_obj hget', items_arr]

theorem getD_final_renamed :
    (Json.obj (renamedRoute old new route)).getD "final" .null =
      renamed old new ((Json.obj route).getD "final" .null) := by
  have hfinal : Dict.get? (renamedRoute old new route) "final" =
      (Dict.get? route "final").map (renamed old new) := by
    unfold renamedRoute
    split
    · rw [Dict.get?_set_ne (by simp), get?_renameField]
    · rw [get?_renameField]
  simp only [getD, get?, hfinal]
  cases Dict.get? route "final" <;> rfl

/-- No target of the route is the new tag. -/
theorem targets_ne {routable : List String} (hroute : validateRoute routable (.obj route) = .ok ())
    (hnew : new ∉ routable) :
    (Json.obj route).getD "final" .null ≠ .str new ∧
      ∃ rules, (Json.obj route).getD "rules" (.arr []) = .arr rules ∧
        ∀ rule ∈ rules, rule.getD "outbound" .null ≠ .str new := by
  obtain ⟨⟨final, hfinal, hget⟩, rules, hrules, htargets⟩ := validateRoute_cases hroute
  constructor
  · rw [getD_obj hget]
    exact fun h => hnew (Json.str.inj h ▸ hfinal)
  · refine ⟨rules, hrules, fun rule hrule hout => ?_⟩
    rw [getD] at hout
    cases hvalue : rule.get? "outbound" with
    | none => simp [hvalue] at hout
    | some v =>
        rw [hvalue] at hout
        rcases (htargets rule hrule).2 v hvalue with rfl | ⟨target, htarget, rfl⟩
        · cases hout
        · exact hnew (Json.str.inj hout ▸ htarget)

/-- The lines of a route with its targets renamed. -/
theorem rulesFromRoute_renamed {routable : List String} (hd : Given old new)
    (hroute : validateRoute routable (.obj route) = .ok ()) (hnew : new ∉ routable) :
    rulesFromRoute S ⟨[new], block⟩ available (.obj (renamedRoute old new route)) =
      (fun x => (x.1, x.2.map (renameRule old new))) <$>
        rulesFromRoute S ⟨[old], block⟩ available (.obj route) := by
  obtain ⟨hfinal, rules, hrules, htargets⟩ := targets_ne hroute hnew
  obtain ⟨hread, hread'⟩ := routeRules_renamed old new hrules
  have hlines : (rules.map (renameRule old new)).mapM (ruleLines S ⟨[new], block⟩ available) =
      List.map (fun x => (x.1, x.2.map (renameRule old new))) <$>
        rules.mapM (ruleLines S ⟨[old], block⟩ available) :=
    mapM_map_eq fun rule hrule => ruleLines_renamed hd (htargets rule hrule)
  rw [rulesFromRoute, rulesFromRoute, hread, hread', ok_bind, ok_bind, hlines, getD_final_renamed,
    policyOf_renamed hd hfinal]
  cases rules.mapM (ruleLines S ⟨[old], block⟩ available) with
  | error e => rfl
  | ok parts =>
      cases policyOf S ⟨[old], block⟩ ((Json.obj route).getD "final" .null) with
      | error e => rfl
      | ok final =>
          refine congrArg Except.ok (Prod.ext ?_ ?_)
          · simp [Function.comp_def]
          · simp [Function.comp_def, List.map_flatten]

/-! ### Listeners -/

/-- The pin of a listener, and where it comes from. -/
theorem pinOf_renamed {tag : Json} {rules : List Json} (hd : Given old new) :
    pinOf tag (rules.map (renameRule old new)) = renamed old new <$> pinOf tag rules := by
  induction rules with
  | nil => rfl
  | cons rule rules ih =>
      rw [List.map_cons, pinOf, pinOf, getD_renameRule_ne (by simp), getD_renameRule,
        truthy_renamed hd, ih]
      generalize isIn tag _ = named
      cases named with
      | error e => rfl
      | ok named =>
          simp only [ok_bind]
          split <;> rfl

theorem pinOf_ne {tag pin : Json} {rules : List Json} (h : pinOf tag rules = .ok pin)
    (hrules : ∀ rule ∈ rules, rule.getD "outbound" .null ≠ .str new) : pin ≠ .str new := by
  induction rules with
  | nil =>
      cases h
      simp
  | cons rule rules ih =>
      obtain ⟨named, -, h⟩ := bind_eq_ok.mp h
      split at h
      · rw [pure_eq_ok] at h
        rw [← h]
        exact hrules rule (by simp)
      · exact ih h fun r hr => hrules r (List.mem_cons_of_mem _ hr)

theorem listenerOf_renamed {routable : List String} (hd : Given old new)
    (hroute : validateRoute routable (.obj route) = .ok ()) (hnew : new ∉ routable) :
    listenerOf S ⟨[new], block⟩ (.obj (renamedRoute old new route)) =
      listenerOf S ⟨[old], block⟩ (.obj route) := by
  funext inbound
  obtain ⟨hfinal, rules, hrules, htargets⟩ := targets_ne hroute hnew
  obtain ⟨hread, hread'⟩ := routeRules_renamed old new hrules
  unfold listenerOf
  cases attr inbound "type" with
  | error e => rfl
  | ok typ =>
      simp only [ok_bind, hread, hread', pinOf_renamed hd, getD_final_renamed]
      split
      · rfl
      · cases hpin : pinOf (if (inbound.getD "tag" .null).truthy = true then inbound.getD "tag" .null
            else .str "mixed-in") rules with
        | error e => rfl
        | ok pin =>
            have hpinNe := pinOf_ne hpin htargets
            show (policyOf S ⟨[new], block⟩ (if (renamed old new pin).truthy = true then
              renamed old new pin else _) >>= _) = _
            rw [truthy_renamed hd, ok_bind]
            cases htruthy : pin.truthy with
            | true =>
                simp only [if_true, policyOf_renamed hd hpinNe]
            | false =>
                simp only [Bool.false_eq_true, if_false, policyOf_renamed hd hfinal]

/-! ### Outbounds and groups -/

/-- A direct outbound adds nothing under either tag. -/
theorem renderOutbound_retag (o : Json) : renderOutbound S (retag new o) = renderOutbound S o := by
  by_cases h : hasType "direct" o = true
  · have hdirect : ∀ o', hasType "direct" o' = true → renderOutbound S o' = .ok ([], []) := by
      intro o' h'
      have htype : o'.getD "type" .null = .str "direct" := getD_of_get? (of_decide_eq_true h')
      rw [renderOutbound, htype]
      rfl
    rw [hdirect o h, hdirect _ (by rwa [hasType_retag])]
  · rw [retag_of_ne h]

theorem blockTags_retag {outbounds : List Json} :
    blockTags (outbounds.map (retag new)) = blockTags outbounds := by
  rw [blockTags, blockTags, List.filter_map, List.filterMap_map]
  have hfilter : outbounds.filter (hasType "block" ∘ retag new) = outbounds.filter (hasType "block") :=
    List.filter_congr fun o _ => hasType_retag o
  rw [hfilter]
  refine List.filterMap_congr fun o ho => ?_
  have hblock := (List.mem_filter.mp ho).2
  have hne : hasType "direct" o ≠ true := by
    intro h
    rw [hasType, decide_eq_true_eq] at hblock h
    rw [hblock] at h
    simp at h
  rw [Function.comp, retag_of_ne hne]

/-- The members are all that changes in what is kept of a group. -/
theorem runtimeGroup_members {xs : List Json} (ys : List Json)
    (hget : Dict.get? fields "proxies" = some (.arr xs)) :
    runtimeGroup (.obj (Dict.set fields "proxies" (.arr ys))) = .ok [] ∧
        runtimeGroup (.obj fields) = .ok [] ∨
      (∃ f, runtimeGroup (.obj (Dict.set fields "proxies" (.arr ys))) = .error f ∧
        runtimeGroup (.obj fields) = .error f) ∨
      ∃ out, runtimeGroup (.obj fields) = .ok out ∧ Dict.get? out "proxies" = some (.arr xs) ∧
        runtimeGroup (.obj (Dict.set fields "proxies" (.arr ys))) =
          .ok (Dict.set out "proxies" (.arr ys)) := by
  obtain ⟨out, hout⟩ : ∃ out, out = fields.filter (fun f => f.1 ∈ groupRuntimeFields) := ⟨_, rfl⟩
  have hset : (Dict.set fields "proxies" (.arr ys)).filter (fun f => f.1 ∈ groupRuntimeFields) =
      Dict.set out "proxies" (.arr ys) := by
    rw [hout]
    exact Dict.filter_set (fun k => k ∈ groupRuntimeFields) (by decide) fields _
  have hproxies : Dict.get? out "proxies" = some (.arr xs) := by
    rw [hout, ← hget]
    exact Dict.get?_filter (fun k => k ∈ groupRuntimeFields) (by decide) fields
  have htype : (Json.obj (Dict.set out "proxies" (.arr ys))).getD "type" .null =
      (Json.obj out).getD "type" .null := by
    simp [getD, get?, Dict.get?_set_ne]
  unfold runtimeGroup
  simp only [fields?, Option.getD_some, hset, ← hout, htype, Dict.get?_set_ne (show "proxies" ≠ "url" by simp)]
  cases ((Json.obj out).getD "type" .null).within (ε := RenderError) groupTypes with
  | error f => exact .inr (.inl ⟨f, rfl, rfl⟩)
  | ok known =>
      cases known with
      | false => exact .inl ⟨rfl, rfl⟩
      | true =>
          refine .inr (.inr ?_)
          cases Dict.get? out "url" with
          | none => exact ⟨out, rfl, hproxies, rfl⟩
          | some url =>
              simp only [ok_bind]
              by_cases hurl : url.str?.any httpUrlRe = true
              · exact ⟨out, by simp [hurl], hproxies, by simp [hurl]⟩
              · refine ⟨Dict.erase out "url", by simp [hurl], ?_, ?_⟩
                · rw [Dict.get?_erase_ne (by simp), hproxies]
                · have herase := Dict.filter_set (fun k => k ≠ "url") (by simp) out (a := "proxies")
                    (.arr ys)
                  rw [if_neg hurl]
                  exact congrArg Except.ok herase

theorem mapM_mapTarget_renamed {xs : List Json} (hnew : Json.str new ∉ xs) :
    (xs.map (renamed old new)).mapM (mapTarget ⟨[new], block⟩) = xs.mapM (mapTarget ⟨[old], block⟩) := by
  have hturn : ∀ x ∈ xs, mapTarget ⟨[new], block⟩ (renamed old new x) =
      id <$> mapTarget ⟨[old], block⟩ x := by
    intro x hx
    rw [id_map]
    exact mapTarget_renamed fun h => hnew (h ▸ hx)
  have hmap := mapM_map_eq hturn
  rw [hmap, List.map_id_fun, id_map]

/-- A group renders like the one before. -/
theorem renderGroup_renamed {group : Json} {xs : List Json} (hgroup : group.get? "proxies" = some (.arr xs))
    (hnew : Json.str new ∉ xs) :
    renderGroup ⟨[new], block⟩ (renamedGroup old new group) = renderGroup ⟨[old], block⟩ group := by
  cases group with
  | obj fields =>
      have hget : Dict.get? fields "proxies" = some (.arr xs) := hgroup
      have hshape : renamedGroup old new (.obj fields) =
          .obj (Dict.set fields "proxies" (.arr (xs.map (renamed old new)))) := by
        simp only [renamedGroup, getD_obj hget, Json.entries]
      rw [hshape]
      unfold renderGroup
      rcases runtimeGroup_members (xs.map (renamed old new)) hget with ⟨h', h⟩ | ⟨f, h', h⟩ |
        ⟨out, h, hout, h'⟩
      · rw [h, h']
        rfl
      · rw [h, h']
        rfl
      · have hempty : out ≠ [] := by
          intro hnil
          simp [hnil] at hout
        have hempty' : Dict.set out "proxies" (.arr (xs.map (renamed old new))) ≠ [] := by
          intro hnil
          have hself := Dict.get?_set_self out "proxies" (Json.arr (xs.map (renamed old new)))
          simp [hnil] at hself
        rw [h, h', ok_bind, ok_bind]
        simp only [List.isEmpty_eq_false_iff.mpr hempty, List.isEmpty_eq_false_iff.mpr hempty', hout,
          Dict.get?_set_self, Dict.set_set, mapM_mapTarget_renamed hnew]
  | _ => rfl

/-! ### The rendered document -/

variable {U : Unicode} {outbounds groups : List Json} {m : MihomoMeta} {tags : List String}
  {parts : List GroupPart}

/-- What rendering reports of a document that was rebound: the dropped entries are renamed. -/
def Rendering.renamed (old new : String) (r : Rendering) : Rendering :=
  { r with dropped := r.dropped.map (renameRule old new) }

/-- The groups of a document that was rebound. -/
theorem groups_rebound (hm : Migrated U fields outbounds groups m route old tags parts)
    (hreserved : new ∉ reservedTargets) (hfresh : new ∉ tags ++ parts.map GroupPart.name) :
    (groups.map (renamedGroup old new)).mapM (renderGroup ⟨[new], block⟩) =
      groups.mapM (renderGroup ⟨[old], block⟩) := by
  have hturn : ∀ g ∈ groups, renderGroup ⟨[new], block⟩ (renamedGroup old new g) =
      id <$> renderGroup ⟨[old], block⟩ g := by
    intro g hg
    obtain ⟨xs, hxs⟩ := hm.listed hg
    obtain ⟨part, hpart, hfit⟩ := exists_of_forall₂ hm.valid.fits hg
    have hmembers : xs = part.proxies.map Json.str := by
      have hproxies := hfit.proxies
      rw [getD_of_get? hxs] at hproxies
      exact Json.arr.inj hproxies
    rw [id_map]
    refine renderGroup_renamed hxs fun hmem => hm.valid.not_member hfresh hreserved hpart ?_
    rw [hmembers] at hmem
    simpa using hmem
  have hmap := mapM_map_eq hturn
  rw [hmap, List.map_id_fun, id_map]

/-- The parts of a document that was rebound. -/
theorem partsOf_rebound (hm : Migrated U fields outbounds groups m route old tags parts)
    {fields' : Dict String Json} {tags' : List String} {parts' : List GroupPart}
    (hm' : Migrated U fields' (outbounds.map (retag new)) (groups.map (renamedGroup old new)) m
      (renamedRoute old new route) new tags' parts')
    (hinbounds : (Json.obj fields').getD "inbounds" (.arr []) = (Json.obj fields).getD "inbounds" (.arr []))
    (hd : Given old new) (hreserved : new ∉ reservedTargets)
    (hfresh : new ∉ tags ++ parts.map GroupPart.name) :
    partsOf S available (.obj fields') =
      (fun p => { p with dropped := p.dropped.map (renameRule old new) }) <$>
        partsOf S available (.obj fields) := by
  have htags : machineTags outbounds = ⟨[old], blockTags outbounds⟩ := by
    rw [machineTags, hm.valid.oneDirect]
  have htags' : machineTags (outbounds.map (retag new)) = ⟨[new], blockTags outbounds⟩ := by
    rw [machineTags, hm'.valid.oneDirect, blockTags_retag]
  have hgroups : policyGroups (.obj fields) = groups := by
    rw [policyGroups, getD_of_get? hm.enveloped.pdg, metaJson_policyGroups]
  have hgroups' : policyGroups (.obj fields') = groups.map (renamedGroup old new) := by
    rw [policyGroups, getD_of_get? hm'.enveloped.pdg, metaJson_policyGroups]
  have hroute : (Json.obj fields).getD "route" .null = .obj route := getD_of_get? hm.enveloped.route
  have hroute' : (Json.obj fields').getD "route" .null = .obj (renamedRoute old new route) :=
    getD_of_get? hm'.enveloped.route
  have houtbounds : (outbounds.map (retag new)).mapM (renderOutbound S) =
      outbounds.mapM (renderOutbound S) := by
    rw [List.mapM_map]
    exact congrArg (fun f => outbounds.mapM f) (funext renderOutbound_retag)
  have hnew := hm.valid.not_routable hfresh
  have hlisteners : ∀ inbounds, mixedListeners S ⟨[new], blockTags outbounds⟩
      (.obj (renamedRoute old new route)) inbounds =
        mixedListeners S ⟨[old], blockTags outbounds⟩ (.obj route) inbounds := by
    intro inbounds
    rw [mixedListeners, mixedListeners, listenerOf_renamed hd hm.valid.routed hnew]
  rw [partsOf, partsOf, outboundsOf_eq hm.enveloped, outboundsOf_eq hm'.enveloped, htags, htags',
    hgroups, hgroups', hroute, hroute', hinbounds]
  simp only [houtbounds, groups_rebound hm hreserved hfresh, rulesFromRoute_renamed hd hm.valid.routed hnew,
    hlisteners]
  cases outbounds.mapM (renderOutbound S) with
  | error e => rfl
  | ok rendered =>
      cases groups.mapM (renderGroup ⟨[old], blockTags outbounds⟩) with
      | error e => rfl
      | ok shown =>
          cases rulesFromRoute S ⟨[old], blockTags outbounds⟩ available (.obj route) with
          | error e => rfl
          | ok lines =>
              cases mixedListeners S ⟨[old], blockTags outbounds⟩ (.obj route)
                ((Json.obj fields).getD "inbounds" (.arr [])) <;> rfl

theorem renderMigrated_rebound {kw : Keywords}
    (hm : Migrated U fields outbounds groups m route old tags parts)
    {fields' : Dict String Json} {tags' : List String} {parts' : List GroupPart}
    (hm' : Migrated U fields' (outbounds.map (retag new)) (groups.map (renamedGroup old new)) m
      (renamedRoute old new route) new tags' parts')
    (hinbounds : (Json.obj fields').getD "inbounds" (.arr []) = (Json.obj fields).getD "inbounds" (.arr []))
    (hd : Given old new) (hreserved : new ∉ reservedTargets)
    (hfresh : new ∉ tags ++ parts.map GroupPart.name) :
    renderMigrated S kw (.obj fields') = Rendering.renamed old new <$> renderMigrated S kw (.obj fields) := by
  have hmeta : ((Json.obj fields').getD "_pdg" .null).getD "mihomo" .null =
      ((Json.obj fields).getD "_pdg" .null).getD "mihomo" .null := by
    rw [getD_of_get? hm.enveloped.pdg, getD_of_get? hm'.enveloped.pdg, metaJson_mihomo, metaJson_mihomo]
  have hproviders : ∀ kind fieldName, importedProviders kind fieldName (.obj fields') =
      importedProviders kind fieldName (.obj fields) := by
    intro kind fieldName
    rw [importedProviders, importedProviders, hmeta]
  rw [renderMigrated, renderMigrated, hproviders, hproviders]
  cases importedProviders .proxy "proxy-providers" (.obj fields) with
  | error e => rfl
  | ok proxyProviders =>
      cases importedProviders .rule "rule-providers" (.obj fields) with
      | error e => rfl
      | ok ruleProviders =>
          simp only [ok_bind, partsOf_rebound hm hm' hinbounds hd hreserved hfresh, hmeta]
          cases partsOf S (Dict.keys ruleProviders ++ kw.rulesets.keys) (.obj fields) with
          | error e => rfl
          | ok parts =>
              -- the domains and the ports are inserted without a look at the dropped entries
              show (dataPlane kw >>= _) = Rendering.renamed old new <$> (dataPlane kw >>= _)
              cases dataPlane kw with
              | error e => rfl
              | ok plane =>
                  simp only [ok_bind, map_bind]
                  rfl

theorem given_of_tags (hold : tagRe old = true) (hnew : tagRe new = true) : Given old new := by
  have hnonempty : ∀ s : String, tagRe s = true → s ≠ "" := by
    rintro _ h rfl
    exact absurd h (by decide)
  exact ⟨hnonempty old hold, hnonempty new hnew⟩

theorem renamed_same (r : Rendering) : Rendering.renamed old old r = r := by
  have hrule : ∀ rule : Json, renameRule old old rule = rule := by
    intro rule
    cases rule with
    | obj fields =>
        rw [renameRule, renameField]
        split
        · next h => rw [Dict.set_of_get? h]
        · rfl
    | _ => rfl
  rw [Rendering.renamed, List.map_congr_left fun rule _ => hrule rule, List.map_id']

theorem getD_inbounds_rebound {fields' : Dict String Json}
    (hfields : reboundDocument fields outbounds groups m route old new = .obj fields') :
    (Json.obj fields').getD "inbounds" (.arr []) = (Json.obj fields).getD "inbounds" (.arr []) := by
  rw [← hfields, reboundDocument, assembled]
  simp [getD, get?, Dict.get?_set_ne]

/-- Rebinding is not seen in the configuration: only the dropped entries name the new tag. And it is
undone by rebinding to the old tag. -/
theorem rebind_invisible {model new result : Json} (hU : NfcClosed S.host.unicode)
    (hA : AsciiPlain S.host.unicode) (h : rebindDirect S.host.unicode model new = .ok result) :
    ∃ migrated old name, migrate S.host.unicode model = .ok migrated ∧ directTag migrated = .ok old ∧
      new = .str name ∧
      (∀ kw, singboxToMihomo S kw result = Rendering.renamed old name <$> singboxToMihomo S kw model) ∧
      rebindDirect S.host.unicode result (.str old) = .ok migrated := by
  obtain ⟨fields, outbounds, groups, m, route, old, tags, parts, hmigrate, hm, name, rfl, htag,
    hcases⟩ := rebindDirect_cases hU h
  have hback := rebindDirect_back hU hA hmigrate hm.direct h
  refine ⟨.obj fields, old, name, hmigrate, hm.direct, rfl, fun kw => ?_, hback⟩
  rcases hcases with ⟨rfl, rfl⟩ | ⟨hne, hreserved, hfresh, rfl, hvalid⟩
  · rw [singboxToMihomo, singboxToMihomo, hmigrate, hm.migrate, funext renamed_same, id_map']
  · obtain ⟨fields', direct', tags', parts', hfields', hm'⟩ := hm.rebound hU hA htag hvalid
    have hdirect' : direct' = name := direct_of_rebound hm'.valid.oneDirect
    subst hdirect'
    have hgiven := given_of_tags (tagRe_of_directTag hm.direct) htag
    have hfree : direct' ∉ tags ++ parts.map GroupPart.name := fun hmem => hfresh (by
      simp only [List.mem_append] at hmem ⊢
      exact .inl (.inl hmem))
    rw [singboxToMihomo, singboxToMihomo, hmigrate, hfields', hm'.migrate]
    exact renderMigrated_rebound hm hm' (getD_inbounds_rebound hfields') hgiven hreserved hfree

/-- A document whose rule set and final target are sent to the direct outbound. -/
def ruleSetDocument (direct : String) : Json :=
  .obj [
    ("outbounds", .arr [.obj [("type", .str "direct"), ("tag", .str direct)]]),
    ("route", .obj [("rules", .arr [.obj [("rule_set", .str "ads"), ("outbound", .str direct)]]),
      ("final", .str direct)]),
    ("_pdg", metaJson (.arr []) ⟨[], [], [], []⟩)]

theorem plainSite_nfcClosed : NfcClosed plainSite.host.unicode := fun _ _ _ => rfl

theorem plainSite_asciiPlain : AsciiPlain plainSite.host.unicode where
  nfc _ _ := rfl
  category _ _ _ := by
    show "Ll" ∉ ["Cs", "Zl", "Zp", "Cf"]
    decide

theorem rebindDirect_ruleSetDocument :
    rebindDirect plainSite.host.unicode (ruleSetDocument "JP") (.str "US") =
      .ok (ruleSetDocument "US") := by
  decide +kernel

/-- A document that is rebound. -/
theorem rebind_invisible_ruleSet :
    rebindDirect plainSite.host.unicode (ruleSetDocument "JP") (.str "US") =
        .ok (ruleSetDocument "US") ∧
      ∃ migrated old name, migrate plainSite.host.unicode (ruleSetDocument "JP") = .ok migrated ∧
        directTag migrated = .ok old ∧ Json.str "US" = .str name ∧
        (∀ kw, singboxToMihomo plainSite kw (ruleSetDocument "US") =
          Rendering.renamed old name <$> singboxToMihomo plainSite kw (ruleSetDocument "JP")) ∧
        rebindDirect plainSite.host.unicode (ruleSetDocument "US") (.str old) = .ok migrated :=
  ⟨rebindDirect_ruleSetDocument,
    rebind_invisible plainSite_nfcClosed plainSite_asciiPlain rebindDirect_ruleSetDocument⟩

/-- The dropped entry of a rule set that is not there shows the new tag. -/
theorem rebind_seen_in_dropped :
    rebindDirect plainSite.host.unicode (ruleSetDocument "JP") (.str "US") =
        .ok (ruleSetDocument "US") ∧
      singboxToMihomo plainSite {} (ruleSetDocument "US") ≠
        singboxToMihomo plainSite {} (ruleSetDocument "JP") := by
  refine ⟨rebindDirect_ruleSetDocument, fun h => ?_⟩
  have hdropped : Rendering.dropped <$> singboxToMihomo plainSite {} (ruleSetDocument "US") ≠
      Rendering.dropped <$> singboxToMihomo plainSite {} (ruleSetDocument "JP") := by
    decide +kernel
  exact hdropped (congrArg (Rendering.dropped <$> ·) h)

end ProxyGateway.Render
