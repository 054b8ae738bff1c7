import ProxyGateway.Exits.Closed
import ProxyGateway.Schema.Commute

set_option autoImplicit false

/-!
# ProxyGateway.Exits.Deletion

What a deletion commits: exactly the names that fall with the deleted one are gone, nothing refers
to them any more, and the rest of the document is as it was (`deletion_cascades`).
-/

namespace ProxyGateway.Exits

open Py Json Schema

variable {U : Unicode} {model result : Json} {fields route : Dict String Json}
  {outbounds groups groups' : List Json}
  {m : MihomoMeta} {direct fallback tag : String} {tags removed : List String} {parts : List GroupPart}
  {rsMeta rsMeta' : Dict String Json}

/-! ### A migrated document with its parts -/

/-- A document as `migrate` returns it, with the parts that `validate` reads. -/
structure Document (U : Unicode) (model : Json) (fields : Dict String Json) (outbounds groups : List Json)
    (m : MihomoMeta) (route : Dict String Json) (direct : String) (tags : List String)
    (parts : List GroupPart) : Prop where
  eq : model = .obj fields
  enveloped : Enveloped (.obj fields) outbounds groups m route
  normal : NormalNames U outbounds groups m route
  sound : SoundParts U outbounds groups m route tags parts
  anchor : directTag (.obj fields) = .ok direct
  unreserved : direct ∉ reservedTargets

theorem document_of_migrate (hU : NfcClosed U) (h : migrate U model = .ok model) :
    ∃ fields outbounds groups m route direct tags parts,
      Document U model fields outbounds groups m route direct tags parts := by
  obtain ⟨fields, outbounds, groups, m, route, _, _, _, rfl, hm⟩ := migrate_parts hU h
  obtain ⟨⟨direct, hdirect, hfree⟩, tags, parts, hs⟩ := (validate_iff hm.enveloped).mp hm.validated
  exact ⟨fields, outbounds, groups, m, route, direct, tags, parts, rfl, hm.enveloped, hm.normal, hs, hdirect, hfree⟩

section Document

variable (hd : Document U model fields outbounds groups m route direct tags parts)

include hd

theorem Document.outboundsOf_eq : outboundsOf model = outbounds := by
  rw [hd.eq, Schema.outboundsOf_eq hd.enveloped]

theorem Document.policyGroups_eq : policyGroups model = groups := by
  rw [hd.eq, policyGroups, getD_of_get? hd.enveloped.pdg, metaJson_policyGroups]

theorem Document.route_eq : model.getD "route" .null = .obj route := by
  rw [hd.eq, getD_of_get? hd.enveloped.route]

theorem Document.read : ∀ group ∈ groups, ∃ part ∈ parts, validateGroup U group = .ok part ∧
    GroupRead group part.name part.proxies part.uses := by
  intro group hgroup
  obtain ⟨part, hpart, hvalid⟩ := exists_of_forall₂ hd.sound.grouped hgroup
  exact ⟨part, hpart, hvalid, groupRead_of_normal (hd.normal.groups group hgroup) hvalid⟩

theorem Document.allRead : AllRead groups := fun group hgroup => by
  obtain ⟨part, -, -, hread⟩ := hd.read group hgroup
  exact ⟨_, _, _, hread⟩

theorem Document.groupNames_eq : groupNames groups = parts.map GroupPart.name :=
  groupNames_of_fits (hd.sound.grouped.imp fun _ _ => validateGroup_cases)

theorem Document.outboundTags_eq : outboundTags outbounds = tags :=
  outboundTags_of_named (hd.sound.tagged.imp fun _ _ => SoundOutbound.named)

/-- No name is both a tag and the name of a group. -/
theorem Document.apart {name : String} (htag : name ∈ tags) : name ∉ parts.map GroupPart.name := by
  obtain ⟨hnodup, -, -⟩ := validateNamespace_cases hd.sound.namespaced
  rw [List.append_assoc, List.append_assoc, List.nodup_append] at hnodup
  exact fun hname => hnodup.2.2 name htag name (List.mem_append_left _ hname) rfl

theorem Document.mem_tags {o : Json} (ho : o ∈ outbounds) {name : String} (h : o.get? "tag" = some (.str name)) :
    name ∈ tags := by
  rw [← hd.outboundTags_eq]
  exact mem_outboundTags.mpr ⟨o, ho, h⟩

theorem Document.direct_mem : direct ∈ tags := by
  have hdirect := directTag_cases hd.enveloped.outbounds hd.anchor
  have hmem : direct ∈ directTags outbounds := by simp [hdirect]
  rw [← hd.outboundTags_eq]
  exact outboundTags_filter hmem

/-- A tag is that of one outbound. -/
theorem Document.outbound_unique {o o' : Json} {name : String} (ho : o ∈ outbounds) (ho' : o' ∈ outbounds)
    (h : o.get? "tag" = some (.str name)) (h' : o'.get? "tag" = some (.str name)) : o = o' := by
  obtain ⟨hnodup, -, -⟩ := validateNamespace_cases hd.sound.namespaced
  rw [List.append_assoc, List.append_assoc] at hnodup
  have hpairs : List.Forall₂ (fun o name => (o.get? "tag").bind Json.str? = some name) outbounds tags :=
    hd.sound.tagged.imp fun _ _ => SoundOutbound.tag
  have htags : outbounds.map (fun o => (o.get? "tag").bind Json.str?) = tags.map some :=
    List.forall₂_eq_eq_eq ▸ List.forall₂_map_left_iff.mpr (List.forall₂_map_right_iff.mpr hpairs)
  have hmapped : (outbounds.map (fun o => (o.get? "tag").bind Json.str?)).Nodup := by
    rw [htags]
    exact (List.nodup_append.mp hnodup).1.map (Option.some_injective _)
  refine List.inj_on_of_nodup_map hmapped ho ho' ?_
  rw [h, h']

/-! ### What falls -/

/-- Only the deleted name and names of groups fall. -/
theorem Document.falls_cases {name : String} (h : Falls model tag name) :
    name = tag ∨ name ∈ parts.map GroupPart.name := by
  refine Cascade.Falls.least (T := fun a => a = tag ∨ a ∈ parts.map GroupPart.name)
    (fun a ha => .inl (List.mem_singleton.mp ha)) (fun group hgroup _ _ => .inr ?_) h
  rw [hd.policyGroups_eq] at hgroup
  obtain ⟨part, hpart, -, hread⟩ := hd.read group hgroup
  exact hread.groupName ▸ List.mem_map_of_mem hpart

/-- The names that fall are a removal. -/
theorem Document.removal (hremoved : ∀ name, name ∈ removed ↔ Falls model tag name) (hne : direct ≠ tag) :
    Removal direct parts removed where
  directLeft := by
    intro hmem
    rcases hd.falls_cases ((hremoved direct).mp hmem) with heq | hgroup
    · exact hne heq
    · exact hd.apart hd.direct_mem hgroup
  closed := by
    intro part hpart hleft
    obtain ⟨group, hgroup, hvalid⟩ := exists_of_forall₂ hd.sound.grouped.flip hpart
    have hread := groupRead_of_normal (hd.normal.groups group hgroup) hvalid
    by_contra hnone
    rw [not_or, not_not, not_not] at hnone
    refine hleft ((hremoved part.name).mpr ?_)
    have hfalls : Falls model tag (groupName group) := by
      refine .emptied (by rwa [hd.policyGroups_eq]) (fun member hmember => (hremoved member).mp ?_) ?_
      · rw [hread.groupMembers] at hmember
        by_contra hnot
        have hin : member ∈ part.proxies.filter (· ∉ removed) := List.mem_filter.mpr ⟨hmember, decide_eq_true hnot⟩
        rw [hnone.1] at hin
        cases hin
      · rw [hread.usesProvider, hnone.2]
        rfl
    rwa [hread.groupName] at hfalls

/-- What may be deleted is another name than the direct one. -/
theorem Document.direct_ne {ε : Type} {deletable : List String}
    (hdeletable : deletableTags (ε := ε) model = .ok deletable) (h : tag ∈ deletable) : direct ≠ tag := by
  rintro rfl
  have hfilter : outbounds.filterM (m := Py ε) (fun item => (item.getD "type" .null).within
      (proxyOutboundTypes ++ groupOutboundTypes)) =
        .ok (outbounds.filter (fun item => (item.getD "type" .null).str?.any
          (· ∈ proxyOutboundTypes ++ groupOutboundTypes))) := by
    refine filterM_eq_ok fun o ho => ?_
    obtain ⟨name, -, hsound⟩ := exists_of_forall₂ hd.sound.tagged ho
    exact within_of_hashable hsound.named.hashable
  rw [deletableTags, hd.outboundsOf_eq, hd.policyGroups_eq, hd.groupNames_eq, hfilter, ok_bind,
    pure_eq_ok] at hdeletable
  subst hdeletable
  rcases List.mem_append.mp h with htag | hgroup
  · -- the direct outbound is the only one with its tag, and has another type
    obtain ⟨o, ho, htag⟩ := mem_outboundTags.mp htag
    obtain ⟨ho, htype⟩ := List.mem_filter.mp ho
    have hdirect := directTag_cases hd.enveloped.outbounds hd.anchor
    have hmem : direct ∈ directTags outbounds := by simp [hdirect]
    obtain ⟨d, hdmem, hdtag⟩ := mem_outboundTags.mp hmem
    obtain ⟨hdmem, hdtype⟩ := List.mem_filter.mp hdmem
    have hsame : o = d := hd.outbound_unique ho hdmem htag hdtag
    subst hsame
    rw [getD_of_get? (of_decide_eq_true hdtype)] at htype
    revert htype
    decide
  · exact hd.apart hd.direct_mem hgroup

theorem Document.names_kept : groupNames (kept removed groups) =
    (parts.map GroupPart.name).filter (· ∉ removed) := by
  have hnames : ∀ group ∈ groups, (groupName ∘ pruned removed) group = groupName group := fun group hgroup =>
    groupName_pruned (hd.allRead group hgroup)
  rw [Exits.groupNames_eq (allRead_kept hd.allRead), kept, List.map_map, ← hd.groupNames_eq,
    Exits.groupNames_eq hd.allRead, List.filter_map]
  exact List.map_congr_left fun group hgroup => hnames group (List.mem_of_mem_filter hgroup)

/-- The groups that the cascade took out are those whose names fall. -/
theorem Document.mem_removedGroups {name : String} : name ∈ removedGroups groups (kept removed groups) ↔
    name ∈ parts.map GroupPart.name ∧ name ∈ removed := by
  rw [removedGroups, List.mem_filter, hd.names_kept, hd.groupNames_eq, decide_eq_true_eq, List.mem_filter,
    decide_eq_true_eq]
  tauto

/-! ### The candidate -/

theorem Document.candidate_eq (p : Json → Bool) : withGroups (withOutbounds model (outbounds.filter p)) groups' =
    .obj ((fields.set "outbounds" (.arr (outbounds.filter p))).set "_pdg" (metaJson (.arr groups') m)) := by
  have hpdg : (Json.obj (Dict.set fields "outbounds" (.arr (outbounds.filter p)))).getD "_pdg" .null =
      metaJson (.arr groups) m := by
    refine getD_obj ?_
    rw [Dict.get?_set_ne (by decide)]
    exact hd.enveloped.pdg
  rw [hd.eq, withOutbounds]
  unfold withGroups
  rw [hpdg]
  rfl

/-- The names that a rule of the candidate may have. -/
theorem Document.live_eq {ε : Type} (p : Json → Bool) :
    routableTagsUnchecked (ε := ε) (withGroups (withOutbounds model (outbounds.filter p)) (kept removed groups)) =
      .ok (outboundTags ((outbounds.filter p).filter isRoutable) ++ (partsLeft removed parts).map GroupPart.name) := by
  have hfilter : (outbounds.filter p).filterM (m := Py ε) (fun item =>
      if isDict item then (item.getD "type" .null).within routableOutboundTypes else .ok false) =
        .ok ((outbounds.filter p).filter isRoutable) := by
    refine filterM_eq_ok fun o ho => ?_
    obtain ⟨name, -, hsound⟩ := exists_of_forall₂ hd.sound.tagged (List.mem_of_mem_filter ho)
    rw [hsound.named.dict, if_pos rfl, within_of_hashable hsound.named.hashable]
    rfl
  have houtbounds : outboundsOf (.obj ((fields.set "outbounds" (.arr (outbounds.filter p))).set "_pdg"
      (metaJson (.arr (kept removed groups)) m))) = outbounds.filter p := by
    rw [outboundsOf, getD, get?, Dict.get?_set_ne (by decide), Dict.get?_set_self]
    rfl
  have hgroups : policyGroups (.obj ((fields.set "outbounds" (.arr (outbounds.filter p))).set "_pdg"
      (metaJson (.arr (kept removed groups)) m))) = kept removed groups := by
    have hpdg : (Json.obj ((fields.set "outbounds" (.arr (outbounds.filter p))).set "_pdg"
        (metaJson (.arr (kept removed groups)) m))).getD "_pdg" .null = metaJson (.arr (kept removed groups)) m :=
      getD_obj (Dict.get?_set_self _ _ _)
    rw [policyGroups, hpdg, metaJson_policyGroups]
  rw [routableTagsUnchecked, hd.candidate_eq, houtbounds, hgroups, hfilter, ok_bind, hd.names_kept, names_partsLeft]
  rfl

/-- Closing the references of the candidate. -/
theorem Document.closeReferences_eq {p : Json → Bool} (hp : Leaves removed outbounds p)
    (h : closeReferences (withGroups (withOutbounds model (outbounds.filter p)) (kept removed groups)) fallback =
      .ok result) :
    fallback ∈ outboundTags ((outbounds.filter p).filter isRoutable) ++ (partsLeft removed parts).map GroupPart.name ∧
      result = assembled fields (outbounds.filter p) (kept removed groups) m (redirectedRoute removed fallback route) := by
  have hroute : (Json.obj ((fields.set "outbounds" (.arr (outbounds.filter p))).set "_pdg"
      (metaJson (.arr (kept removed groups)) m))).getD "route" .null = .obj route := by
    refine getD_obj ?_
    rw [Dict.get?_set_ne (by decide), Dict.get?_set_ne (by decide)]
    exact hd.enveloped.route
  rw [closeReferences, hd.live_eq, ok_bind, hd.candidate_eq, hroute] at h
  simp only [fields?, Option.getD_some, redirectRoute_eq (fun _ => mem_live hp) hd.sound.routed, ok_bind] at h
  split at h
  · cases h
  · next hin =>
    rw [not_not] at hin
    exact ⟨hin, (pure_eq_ok.mp h).symm⟩

end Document

/-! ### The rulesets -/

/-- A ruleset whose target is gone, with the fallback. -/
def retargeted (removed : List String) (fallback : String) (entry : String × Json) : String × Json :=
  match entry.2 with
  | .obj info =>
      if (entry.2.getD "outbound" .null).str?.any (· ∈ removed) then
        (entry.1, .obj (Dict.set info "outbound" (.str fallback)))
      else entry
  | _ => entry

theorem retargeted_of_gone {key : String} (h : ((Json.obj fields).getD "outbound" .null).str?.any (· ∈ removed) = true) :
    retargeted removed fallback (key, .obj fields) = (key, .obj (Dict.set fields "outbound" (.str fallback))) :=
  if_pos h

theorem retargeted_of_left {key : String} (h : ¬((Json.obj fields).getD "outbound" .null).str?.any (· ∈ removed) = true) :
    retargeted removed fallback (key, .obj fields) = (key, .obj fields) :=
  if_neg h

theorem retargetRuleset_cases {ε : Type} {names : List String} {entry entry' : String × Json}
    (hnames : ∀ name, name ∈ names ↔ name ∈ removed)
    (h : retargetRuleset (ε := ε) names fallback entry = .ok entry') : entry' = retargeted removed fallback entry := by
  obtain ⟨key, info⟩ := entry
  cases info with
  | obj fields =>
      obtain ⟨isIn, hin, h⟩ := bind_eq_ok.mp h
      obtain rfl := within_str hin
      have hsame : ((Json.obj fields).getD "outbound" .null).str?.any (· ∈ names) =
          ((Json.obj fields).getD "outbound" .null).str?.any (· ∈ removed) := by
        simp only [hnames]
      rw [hsame] at h
      split at h
      · next hgone =>
        rw [retargeted_of_gone hgone]
        exact (pure_eq_ok.mp h).symm
      · next hleft =>
        rw [retargeted_of_left hleft]
        exact (pure_eq_ok.mp h).symm
  | _ => exact (pure_eq_ok.mp h).symm

theorem retargetRulesets_cases {ε : Type} {names : List String} (hnames : ∀ name, name ∈ names ↔ name ∈ removed)
    (h : rsMeta.mapM (retargetRuleset (ε := ε) names fallback) = .ok rsMeta') :
    rsMeta' = rsMeta.map (retargeted removed fallback) := by
  have hpairs : List.Forall₂ (fun entry entry' => retargeted removed fallback entry = entry') rsMeta rsMeta' :=
    (mapM_forall₂ h).imp fun _ _ hentry => (retargetRuleset_cases hnames hentry).symm
  exact (List.forall₂_eq_eq_eq ▸ List.forall₂_map_left_iff.mpr hpairs).symm

theorem target_retargeted {entry : String × Json} {name : String} (hfallback : fallback ∉ removed)
    (h : (retargeted removed fallback entry).2.get? "outbound" = some (.str name)) : name ∉ removed := by
  obtain ⟨key, info⟩ := entry
  cases info with
  | obj fields =>
      by_cases hgone : ((Json.obj fields).getD "outbound" .null).str?.any (· ∈ removed) = true
      · rw [retargeted_of_gone hgone, get?, Dict.get?_set_self] at h
        obtain rfl := Json.str.inj (Option.some.inj h)
        exact hfallback
      · rw [retargeted_of_left hgone] at h
        rw [getD, h] at hgone
        simpa [str?] using hgone
  | _ => cases h

/-! ### What is committed -/

/-- The rules of a document. -/
def rulesOf (model : Json) : List Json := ((model.getD "route" .null).getD "rules" (.arr [])).entries

/-- What a deletion commits when the names of `removed` are gone. -/
structure Deleted (U : Unicode) (model : Json) (rsMeta : Dict String Json) (removed : List String)
    (fallback : String) (result : Json) (rsMeta' : Dict String Json) : Prop where
  valid : migrate U result = .ok result ∧ validate U result = .ok ()
  live : fallback ∉ removed
  outbounds : outboundsOf result = (outboundsOf model).filter
    (fun o => !((o.get? "tag").bind Json.str?).any (· ∈ removed))
  groups : policyGroups result = kept removed (policyGroups model)
  rules : rulesOf result = (rulesOf model).map (redirected removed fallback)
  final : ∀ target, (model.getD "route" .null).get? "final" = some (.str target) →
    (result.getD "route" .null).get? "final" = some (.str (if target ∈ removed then fallback else target))
  rulesets : rsMeta' = rsMeta.map (retargeted removed fallback)
  /-- No group has a removed name or a member that was removed. -/
  groupsClosed : ∀ group ∈ policyGroups result, groupName group ∉ removed ∧
    ∀ member ∈ groupMembers group, member ∉ removed
  rulesClosed : ∀ rule ∈ rulesOf result, ∀ target, rule.get? "outbound" = some (.str target) → target ∉ removed
  finalClosed : ∃ target ∉ removed, (result.getD "route" .null).get? "final" = some (.str target)
  rulesetsClosed : ∀ entry ∈ rsMeta', ∀ target, entry.2.get? "outbound" = some (.str target) → target ∉ removed
  /-- The rest of the document is as it was. -/
  rest : ∀ key, key ∉ ["outbounds", "_pdg", "route"] → result.get? key = model.get? key
  metaRest : ∀ key, key ≠ "policy-groups" → (result.getD "_pdg" .null).get? key = (model.getD "_pdg" .null).get? key
  routeRest : ∀ key, key ∉ ["final", "rules"] →
    (result.getD "route" .null).get? key = (model.getD "route" .null).get? key

theorem groupMembers_kept {group : Json} (hread : AllRead groups) (h : group ∈ kept removed groups) :
    groupName group ∉ removed ∧ ∀ member ∈ groupMembers group, member ∉ removed := by
  obtain ⟨own, hown, rfl⟩ := List.mem_map.mp h
  obtain ⟨hmem, hleft⟩ := List.mem_filter.mp hown
  obtain ⟨name, members, uses, hone⟩ := hread own hmem
  constructor
  · rw [hone.pruned.groupName, ← hone.groupName]
    exact of_decide_eq_true hleft
  · intro member hmember
    rw [hone.pruned.groupMembers] at hmember
    exact of_decide_eq_true (List.mem_filter.mp hmember).2

theorem get?_metaJson_ne {v v' : Json} {key : String} (hkey : key ≠ "policy-groups") :
    (metaJson v m).get? key = (metaJson v' m).get? key := by
  simp [metaJson, get?, Dict.get?, Ne.symm hkey]

section Committed

variable {p : Json → Bool}

theorem get?_redirectedRoute {key : String} (hkey : key ∉ ["final", "rules"]) :
    Dict.get? (redirectedRoute removed fallback route) key = Dict.get? route key := by
  simp only [List.mem_cons, List.not_mem_nil, or_false, not_or] at hkey
  have hfinal : Dict.get? (redirectedFinal removed fallback route) key = Dict.get? route key :=
    get?_redirectedFinal (Ne.symm hkey.1)
  unfold redirectedRoute
  split
  · rw [Dict.get?_set_ne (Ne.symm hkey.2), hfinal]
  · exact hfinal

/-- The candidate is what a deletion commits. -/
theorem Document.deleted (hU : NfcClosed U) (hA : AsciiPlain U)
    (hd : Document U model fields outbounds groups m route direct tags parts)
    (hr : Removal direct parts removed) (hp : Leaves removed outbounds p)
    (hrulesets : rsMeta' = rsMeta.map (retargeted removed fallback))
    (h : closeReferences (withGroups (withOutbounds model (outbounds.filter p)) (kept removed groups)) fallback =
      .ok result) : Deleted U model rsMeta removed fallback result rsMeta' := by
  obtain ⟨hlive, rfl⟩ := hd.closeReferences_eq hp h
  -- what is left is put together into a document that `migrate` accepts
  have hresult := migrate_without hA hd.enveloped hd.normal hd.sound hd.anchor hd.unreserved hr hp hlive
  have henv' := @assembled_enveloped (outbounds.filter p) (kept removed groups) m fields
    (redirectedRoute removed fallback route)
  obtain ⟨⟨final, hfinal, hget⟩, rules, hrules, hall⟩ := validateRoute_cases hd.sound.routed
  have hroute := getD_of_get? (d := .null) henv'.route
  have hgroups : policyGroups (assembled fields (outbounds.filter p) (kept removed groups) m
      (redirectedRoute removed fallback route)) = kept removed groups := by
    rw [policyGroups, getD_of_get? henv'.pdg, metaJson_policyGroups]
  have hfallback : fallback ∉ removed := by
    rw [List.mem_append, mem_tags_left hp, names_partsLeft, List.mem_filter, decide_eq_true_eq] at hlive
    exact hlive.elim And.right And.right
  have hrules' : rulesOf (assembled fields (outbounds.filter p) (kept removed groups) m
      (redirectedRoute removed fallback route)) = rules.map (redirected removed fallback) := by
    rw [rulesOf, hroute, rules_redirected hrules]
    rfl
  have hfinal' : Dict.get? (redirectedRoute removed fallback route) "final" =
      some (.str (if final ∈ removed then fallback else final)) := final_redirected hget
  -- the fallback is live, so a replaced name is not gone again
  have hwithout : ∀ name, (if name ∈ removed then fallback else name) ∉ removed := fun name => by
    split
    · exact hfallback
    · assumption
  exact {
    valid := ⟨hresult, (migrate_idempotent hU hresult).2⟩
    live := hfallback
    outbounds := by
      rw [Schema.outboundsOf_eq henv', hd.outboundsOf_eq]
      refine List.filter_congr fun o ho => ?_
      obtain ⟨name, -, hsound⟩ := exists_of_forall₂ hd.sound.tagged ho
      rw [hp o ho name hsound.named.tag, hsound.tag, Option.any_some, decide_not]
    groups := by rw [hgroups, hd.policyGroups_eq]
    rules := by
      rw [hrules', rulesOf, hd.route_eq, hrules]
      rfl
    final := by
      intro target htarget
      rw [hd.route_eq, get?, hget] at htarget
      rw [hroute, ← Json.str.inj (Option.some.inj htarget)]
      exact hfinal'
    rulesets := hrulesets
    groupsClosed := by
      rw [hgroups]
      exact fun group hgroup => groupMembers_kept hd.allRead hgroup
    rulesClosed := by
      rw [hrules']
      intro rule hrule target htarget
      obtain ⟨own, hown, rfl⟩ := List.mem_map.mp hrule
      have hlive' := fun name (hname : name ∈ outboundTags (outbounds.filter isRoutable) ++ parts.map GroupPart.name) =>
        mem_live hp hname
      have htargets := targets_redirected hlive' hlive (hall own hown)
      rcases htargets.2 _ htarget with hnull | ⟨name, hname, hvalue⟩
      · cases hnull
      · obtain rfl := Json.str.inj hvalue
        rw [List.mem_append, mem_tags_left hp, names_partsLeft, List.mem_filter, decide_eq_true_eq] at hname
        exact hname.elim And.right And.right
    finalClosed := by
      rw [hroute]
      exact ⟨_, hwithout final, hfinal'⟩
    rulesetsClosed := by
      rw [hrulesets]
      intro entry hentry target htarget
      obtain ⟨own, -, rfl⟩ := List.mem_map.mp hentry
      exact target_retargeted hfallback htarget
    rest := by
      intro key hkey
      simp only [List.mem_cons, List.not_mem_nil, or_false, not_or] at hkey
      rw [hd.eq, assembled, get?, Dict.get?_set_ne (Ne.symm hkey.2.2), Dict.get?_set_ne (Ne.symm hkey.2.1),
        Dict.get?_set_ne (Ne.symm hkey.1)]
      rfl
    metaRest := by
      intro key hkey
      rw [getD_of_get? henv'.pdg, hd.eq, getD_of_get? hd.enveloped.pdg]
      exact get?_metaJson_ne hkey
    routeRest := by
      intro key hkey
      rw [hroute, hd.route_eq]
      exact get?_redirectedRoute hkey }

end Committed

/-! ### The operations -/

theorem deleteExit_cases (h : deleteExit tag model rsMeta = .ok (result, rsMeta')) :
    ∃ deletable, deletableTags (ε := Refusal) model = .ok deletable ∧ tag ∈ deletable ∧
      ∃ groups', mihomoGroupDelete (ε := Refusal) ((policyGroups model).length + 1) [tag] (policyGroups model) =
          .ok groups' ∧
        ∃ fallback, rsMeta.mapM (retargetRuleset (ε := Refusal) (tag :: removedGroups (policyGroups model) groups')
            fallback) = .ok rsMeta' ∧
          closeReferences (withGroups (withOutbounds model ((outboundsOf model).filter
            (fun o => o.getD "tag" .null ≠ .str tag))) groups') fallback = .ok result := by
  obtain ⟨deletable, hdeletable, h⟩ := bind_eq_ok.mp h
  refine ⟨deletable, hdeletable, ?_⟩
  split at h
  · cases h
  · next hin =>
    obtain ⟨groups', hgroups, h⟩ := bind_eq_ok.mp h
    obtain ⟨live, -, h⟩ := bind_eq_ok.mp h
    split at h
    · cases h
    · next fallback rest _ =>
      obtain ⟨metas, hmetas, h⟩ := bind_eq_ok.mp h
      obtain ⟨closed, hclosed, h⟩ := bind_eq_ok.mp h
      cases h
      exact ⟨not_not.mp hin, groups', hgroups, fallback, hmetas, hclosed⟩

theorem deleteGroup_cases (h : deleteGroup U tag model rsMeta = .ok (result, rsMeta')) :
    tag ∈ groupNames (policyGroups model) ∧
      ∃ groups', mihomoGroupDelete (ε := Refusal) ((policyGroups model).length + 1) [tag] (policyGroups model) =
          .ok groups' ∧
        ∃ fallback, rsMeta.mapM (retargetRuleset (ε := Refusal) (removedGroups (policyGroups model) groups')
            fallback) = .ok rsMeta' ∧
          closeReferences (withGroups model groups') fallback = .ok result := by
  unfold deleteGroup at h
  split at h
  · cases h
  · next hin =>
    obtain ⟨groups', hgroups, h⟩ := bind_eq_ok.mp h
    obtain ⟨live, -, h⟩ := bind_eq_ok.mp h
    split at h
    · cases h
    · next fallback rest _ =>
      obtain ⟨metas, hmetas, h⟩ := bind_eq_ok.mp h
      obtain ⟨closed, hclosed, h⟩ := bind_eq_ok.mp h
      cases h
      exact ⟨not_not.mp hin, groups', hgroups, fallback, hmetas, hclosed⟩

/-- Only which names are removed matters. -/
theorem kept_congr {removed' : List String} (h : ∀ name, name ∈ removed ↔ name ∈ removed') :
    kept removed groups = kept removed' groups := by
  have hpruned : pruned removed = pruned removed' := by
    funext group
    cases group <;> simp only [pruned, h]
  simp only [kept, hpruned, h]

section Document

variable (hd : Document U model fields outbounds groups m route direct tags parts)
  (hremoved : ∀ name, name ∈ removed ↔ Falls model tag name)

include hd hremoved

/-- A deleted exit leaves the other outbounds. -/
theorem Document.leaves_exit : Leaves removed outbounds (fun o => o.getD "tag" .null ≠ .str tag) := by
  intro o ho name hname
  have hvalue : o.getD "tag" .null = .str name := getD_of_get? hname
  by_cases hsame : name = tag
  · subst hsame
    have hfalls : name ∈ removed := (hremoved name).mpr (.start (List.mem_singleton_self name))
    simp [hvalue, hfalls]
  · have hleft : name ∉ removed := fun hin => by
      rcases hd.falls_cases ((hremoved name).mp hin) with heq | hgroup
      · exact hsame heq
      · exact hd.apart (hd.mem_tags ho hname) hgroup
    simp [hvalue, hsame, hleft]

/-- A deleted group leaves all the outbounds. -/
theorem Document.leaves_group (htag : tag ∈ parts.map GroupPart.name) : Leaves removed outbounds (fun _ => true) := by
  intro o ho name hname
  have hleft : name ∉ removed := fun hin => by
    have hown := hd.apart (hd.mem_tags ho hname)
    rcases hd.falls_cases ((hremoved name).mp hin) with rfl | hgroup
    · exact hown htag
    · exact hown hgroup
  rw [decide_eq_true hleft]

/-- Deleting a deletable exit or group of a migrated document. -/
theorem Document.deletion (hU : NfcClosed U) (hA : AsciiPlain U)
    (hgone : ∀ turns, groups.length < turns →
      mihomoGroupDelete (ε := Refusal) turns [tag] groups = .ok (kept removed groups))
    (h : deleteExit tag model rsMeta = .ok (result, rsMeta') ∨ deleteGroup U tag model rsMeta = .ok (result, rsMeta')) :
    ∃ fallback, Deleted U model rsMeta removed fallback result rsMeta' := by
  have hstart : tag ∈ removed := (hremoved tag).mpr (.start (List.mem_singleton_self tag))
  have hturns := hgone _ (Nat.lt_succ_self groups.length)
  rcases h with h | h
  · obtain ⟨deletable, hdeletable, hin, groups', hgroups, fallback, hmetas, hclosed⟩ := deleteExit_cases h
    rw [hd.policyGroups_eq] at hgroups hmetas
    rw [hd.outboundsOf_eq] at hclosed
    obtain rfl := Except.ok.inj (hturns.symm.trans hgroups)
    have hnames : ∀ name, name ∈ tag :: removedGroups groups (kept removed groups) ↔ name ∈ removed := by
      intro name
      rw [List.mem_cons, hd.mem_removedGroups]
      constructor
      · rintro (rfl | ⟨-, hname⟩)
        · exact hstart
        · exact hname
      · exact fun hname => (hd.falls_cases ((hremoved name).mp hname)).imp_right fun hgroup => ⟨hgroup, hname⟩
    exact ⟨fallback, hd.deleted hU hA (hd.removal hremoved (hd.direct_ne hdeletable hin)) (hd.leaves_exit hremoved)
      (retargetRulesets_cases hnames hmetas) hclosed⟩
  · obtain ⟨hin, groups', hgroups, fallback, hmetas, hclosed⟩ := deleteGroup_cases h
    rw [hd.policyGroups_eq] at hgroups hmetas hin
    rw [hd.groupNames_eq] at hin
    obtain rfl := Except.ok.inj (hturns.symm.trans hgroups)
    have hnames : ∀ name, name ∈ removedGroups groups (kept removed groups) ↔ name ∈ removed := by
      intro name
      rw [hd.mem_removedGroups, and_iff_right_iff_imp]
      intro hname
      rcases hd.falls_cases ((hremoved name).mp hname) with rfl | hgroup
      · exact hin
      · exact hgroup
    have hne : direct ≠ tag := by
      rintro rfl
      exact hd.apart hd.direct_mem hin
    have hall : withOutbounds model (outbounds.filter (fun _ => true)) = model := by
      rw [List.filter_true, hd.eq, withOutbounds, Dict.set_of_get? hd.enveloped.outbounds]
    rw [← hall] at hclosed
    exact ⟨fallback, hd.deleted hU hA (hd.removal hremoved hne) (hd.leaves_group hremoved hin)
      (retargetRulesets_cases hnames hmetas) hclosed⟩

end Document

/-- Deleting a name takes out exactly the least set that has it and every group whose members are all
in the set and that uses no provider, whatever the order of the groups, within a turn for each group;
what is committed is the rest of the document, with every reference to a removed name closed. -/
theorem deletion_cascades (hU : NfcClosed U) (hA : AsciiPlain U) (hmodel : migrate U model = .ok model) :
    ∃ removed, (∀ name, name ∈ removed ↔ Falls model tag name) ∧
      (∀ turns, (policyGroups model).length < turns →
        mihomoGroupDelete (ε := Refusal) turns [tag] (policyGroups model) = .ok (kept removed (policyGroups model))) ∧
      ∀ rsMeta result rsMeta', deleteExit tag model rsMeta = .ok (result, rsMeta') ∨
          deleteGroup U tag model rsMeta = .ok (result, rsMeta') →
        ∃ fallback, Deleted U model rsMeta removed fallback result rsMeta' := by
  obtain ⟨fields, outbounds, groups, m, route, direct, tags, parts, hd⟩ := document_of_migrate hU hmodel
  have hread := hd.allRead
  rw [← hd.policyGroups_eq] at hread
  have hcascade : ∀ turns, (policyGroups model).length < turns → ∃ removed,
      mihomoGroupDelete (ε := Refusal) turns [tag] (policyGroups model) = .ok (kept removed (policyGroups model)) ∧
        ∀ name, name ∈ removed ↔ Falls model tag name := fun turns => mihomoGroupDelete_eq hread
  obtain ⟨removed, -, hremoved⟩ := hcascade _ (Nat.lt_succ_self _)
  have hgone : ∀ turns, (policyGroups model).length < turns →
      mihomoGroupDelete (ε := Refusal) turns [tag] (policyGroups model) = .ok (kept removed (policyGroups model)) := by
    intro turns hturns
    obtain ⟨removed', hkept, hremoved'⟩ := hcascade turns hturns
    rw [hkept, kept_congr fun name => (hremoved' name).trans (hremoved name).symm]
  refine ⟨removed, hremoved, hgone, fun rsMeta result rsMeta' h => ?_⟩
  rw [hd.policyGroups_eq] at hgone
  exact hd.deletion hremoved hU hA hgone h

/-- A group that selects from its members. -/
def selectGroup (name : String) (members : List String) : Json :=
  .obj [("name", .str name), ("type", .str "select"), ("proxies", .arr (members.map Json.str)), ("use", .arr [])]

/-- A document with two proxies, these groups, and a target for the rule. -/
def groupedDocument (outbounds : List Json) (groups : List Json) (target : String) : Json :=
  .obj [
    ("outbounds", .arr (.obj [("type", .str "direct"), ("tag", .str "JP")] :: outbounds)),
    ("route", .obj [
      ("final", .str "JP"),
      ("rules", .arr [.obj [("domain_suffix", .arr [.str "example.com"]), ("outbound", .str target)]])]),
    ("_pdg", metaJson (.arr groups) ⟨[], [], [], []⟩)]

/-- With the proxy, the group falls that has no other member, and the rule that named it goes to the
first name that is left. -/
theorem deletion_cascades_sample :
    let shadowsocks (name : String) : Json := .obj [("type", .str "shadowsocks"), ("tag", .str name)]
    let model := groupedDocument [shadowsocks "A", shadowsocks "B"]
      [selectGroup "Outer" ["Inner", "B"], selectGroup "Inner" ["A"]] "Inner"
    let result := groupedDocument [shadowsocks "B"] [selectGroup "Outer" ["B"]] "JP"
    deleteExit "A" model [] = .ok (result, []) ∧
      ∃ removed, (∀ name, name ∈ removed ↔ Falls model "A" name) ∧
        ∃ fallback, Deleted plainUnicode model [] removed fallback result [] := by
  intro shadowsocks model result
  have hmodel : migrate plainUnicode model = .ok model := by rfl
  have hdelete : deleteExit "A" model [] = .ok (result, []) := by rfl
  have hcascades : ∃ removed, (∀ name, name ∈ removed ↔ Falls model "A" name) ∧ _ :=
    deletion_cascades (fun _ _ _ => rfl) plainUnicode_ascii hmodel
  obtain ⟨removed, hremoved, -, hdeleted⟩ := hcascades
  exact ⟨hdelete, removed, hremoved, hdeleted [] result [] (.inl hdelete)⟩

end ProxyGateway.Exits
