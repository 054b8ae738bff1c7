import ProxyGateway.Schema.Rebind

set_option autoImplicit false

/-!
# ProxyGateway.Schema.Revalidated

`validate` on a document in the canonical envelope, as an equivalence (`validate_iff`): each
outbound and each group is sound alone, the names are apart, and the references are closed. A
document that was edited is validated again by what the edit keeps of this.
-/

namespace ProxyGateway.Schema

open Py Json

variable {U : Unicode} {model outbound group : Json} {outbounds groups : List Json} {m : MihomoMeta}
  {route : Dict String Json} {seen seen' : List String × List String} {name : String}
  {parts : List GroupPart}

/-! ### Outbounds -/

/-- The outbound is let through alone, under this name. -/
def SoundOutbound (U : Unicode) (outbound : Json) (name : String) : Prop :=
  validateOutbound U ([], []) outbound = .ok ([name], if isRoutable outbound then [name] else [])

theorem validateOutbound_eq_ok : validateOutbound U seen outbound = .ok seen' ↔
    isDict outbound = true ∧ ∃ isProxy, (outbound.getD "type" .null).within (ε := ModelError) proxyOutboundTypes = .ok isProxy ∧
      ∃ name, (if isProxy then validateName U else tag) (outbound.getD "tag" .null) "outbound tag" = .ok name ∧
        name ∉ seen.1 ∧ (outbound.getD "type" .null).within (ε := ModelError) groupOutboundTypes = .ok false ∧
          seen' = (seen.1 ++ [name], if isRoutable outbound then seen.2 ++ [name] else seen.2) := by
  have hroutable : ∀ b, (outbound.getD "type" .null).within (ε := ModelError) routableOutboundTypes = .ok b →
      b = isRoutable outbound := fun b hb => within_str hb
  unfold validateOutbound
  simp only [bind_eq_ok, raiseIf_eq_ok, exists_const, pure_eq_ok, Bool.not_eq_false', decide_eq_false_iff_not]
  refine and_congr_right fun _ => exists_congr fun isProxy => and_congr_right fun hproxy =>
    exists_congr fun name => and_congr_right fun _ => and_congr_right fun _ => ?_
  constructor
  · rintro ⟨isGroup, hgroup, rfl, b, hb, rfl⟩
    rw [hroutable b hb]
    exact ⟨hgroup, rfl⟩
  · rintro ⟨hgroup, rfl⟩
    refine ⟨false, hgroup, rfl, isRoutable outbound, ?_, rfl⟩
    rw [within_of_hashable (within_hashable hproxy), isRoutable]

/-- What the outbounds before one have to do with it: their tags are others. -/
theorem validateOutbound_iff : validateOutbound U seen outbound = .ok seen' ↔
    ∃ name, SoundOutbound U outbound name ∧ name ∉ seen.1 ∧
      seen' = (seen.1 ++ [name], if isRoutable outbound then seen.2 ++ [name] else seen.2) := by
  rw [validateOutbound_eq_ok]
  constructor
  · rintro ⟨hdict, isProxy, hproxy, name, hname, hnew, hgroup, rfl⟩
    exact ⟨name, validateOutbound_eq_ok.mpr ⟨hdict, isProxy, hproxy, name, hname, by simp, hgroup, rfl⟩,
      hnew, rfl⟩
  · rintro ⟨name, hsound, hnew, rfl⟩
    obtain ⟨hdict, isProxy, hproxy, own, hown, -, hgroup, hseen⟩ := validateOutbound_eq_ok.mp hsound
    have hname : name = own := by
      have hfirst := congrArg Prod.fst hseen
      simpa using hfirst
    exact ⟨hdict, isProxy, hproxy, name, hname ▸ hown, hnew, hgroup, rfl⟩

theorem SoundOutbound.named (h : SoundOutbound U outbound name) : Named outbound name := by
  obtain ⟨own, hnamed, -, hseen⟩ := validateOutbound_cases h
  have hname : name = own := by
    have hfirst := congrArg Prod.fst hseen
    simpa using hfirst
  exact hname ▸ hnamed

theorem SoundOutbound.tag (h : SoundOutbound U outbound name) :
    (outbound.get? "tag").bind Json.str? = some name := by
  rw [h.named.tag]
  rfl

/-- The outbounds are let through when each is alone and their tags are apart. -/
theorem outbounds_iff : outbounds.foldlM (validateOutbound U) seen = .ok seen' ↔
    ∃ names, List.Forall₂ (SoundOutbound U) outbounds names ∧ names.Nodup ∧ (∀ n ∈ names, n ∉ seen.1) ∧
      seen' = (seen.1 ++ names, seen.2 ++ outboundTags (outbounds.filter isRoutable)) := by
  induction outbounds generalizing seen with
  | nil =>
      rw [List.foldlM_nil, pure_eq_ok]
      constructor
      · rintro rfl
        exact ⟨[], .nil, List.nodup_nil, by simp, by simp [outboundTags]⟩
      · rintro ⟨names, hnames, -, -, rfl⟩
        cases hnames
        simp [outboundTags]
  | cons outbound outbounds ih =>
      rw [List.foldlM_cons, bind_eq_ok]
      constructor
      · rintro ⟨mid, hmid, h⟩
        obtain ⟨name, hsound, hnew, rfl⟩ := validateOutbound_iff.mp hmid
        obtain ⟨names, hnames, hnodup, hfresh, rfl⟩ := ih.mp h
        have htag := hsound.tag
        refine ⟨name :: names, .cons hsound hnames, List.nodup_cons.mpr ⟨fun hmem => ?_, hnodup⟩, ?_, ?_⟩
        · exact hfresh name hmem (by simp)
        · exact List.forall_mem_cons.mpr ⟨hnew, fun n hn hmem => hfresh n hn (by simp [hmem])⟩
        · by_cases hr : isRoutable outbound = true <;> simp [hr, outboundTags, htag]
      · rintro ⟨names, hnames, hnodup, hfresh, rfl⟩
        cases hnames with
        | @cons _ name _ names hsound hnames =>
            have htag := hsound.tag
            obtain ⟨hnot, hnodup⟩ := List.nodup_cons.mp hnodup
            obtain ⟨hnew, hfresh⟩ := List.forall_mem_cons.mp hfresh
            refine ⟨_, validateOutbound_iff.mpr ⟨name, hsound, hnew, rfl⟩, ih.mpr ⟨names, hnames, hnodup, ?_, ?_⟩⟩
            · intro n hn hmem
              rcases List.mem_append.mp hmem with hmem | hmem
              · exact hfresh n hn hmem
              · exact hnot (List.mem_singleton.mp hmem ▸ hn)
            · by_cases hr : isRoutable outbound = true <;> simp [hr, outboundTags, htag]

/-! ### Groups -/

/-- The groups are let through when each is alone and their names are apart. -/
theorem groups_iff {seen : List GroupPart} : groups.foldlM (validateGroupIn U) seen = .ok parts ↔
    ∃ new, List.Forall₂ (fun group part => validateGroup U group = .ok part) groups new ∧
      (new.map GroupPart.name).Nodup ∧ (∀ part ∈ new, part.name ∉ seen.map GroupPart.name) ∧
      parts = seen ++ new := by
  induction groups generalizing seen with
  | nil =>
      rw [List.foldlM_nil, pure_eq_ok]
      constructor
      · rintro rfl
        exact ⟨[], .nil, List.nodup_nil, by simp, by simp⟩
      · rintro ⟨new, hnew, -, -, rfl⟩
        cases hnew
        simp
  | cons group groups ih =>
      have hturn : ∀ mid, validateGroupIn U seen group = .ok mid ↔ ∃ part, validateGroup U group = .ok part ∧
          part.name ∉ seen.map GroupPart.name ∧ mid = seen ++ [part] := by
        intro mid
        have hmem : ∀ part : GroupPart, seen.any (fun p => decide (p.name = part.name)) = false ↔
            part.name ∉ seen.map GroupPart.name := by
          simp [List.any_eq_false]
        simp only [validateGroupIn, bind_eq_ok, raiseIf_eq_ok, exists_const, pure_eq_ok, hmem,
          @eq_comm _ mid]
      rw [List.foldlM_cons, bind_eq_ok]
      constructor
      · rintro ⟨mid, hmid, h⟩
        obtain ⟨part, hpart, hfirst, rfl⟩ := (hturn mid).mp hmid
        obtain ⟨new, hnew, hnodup, hfresh, rfl⟩ := ih.mp h
        refine ⟨part :: new, .cons hpart hnew, List.nodup_cons.mpr ⟨fun hmem => ?_, hnodup⟩, ?_, by simp⟩
        · obtain ⟨other, hother, hsame⟩ := List.mem_map.mp hmem
          exact hfresh other hother (by simp [hsame])
        · refine List.forall_mem_cons.mpr ⟨hfirst, fun other hother hmem => hfresh other hother ?_⟩
          rw [List.map_append, List.mem_append]
          exact .inl hmem
      · rintro ⟨new, hnew, hnodup, hfresh, rfl⟩
        cases hnew with
        | @cons _ part _ new hpart hnew =>
            obtain ⟨hnot, hnodup⟩ := List.nodup_cons.mp hnodup
            obtain ⟨hfirst, hfresh⟩ := List.forall_mem_cons.mp hfresh
            refine ⟨_, (hturn _).mpr ⟨part, hpart, hfirst, rfl⟩, ih.mpr ⟨new, hnew, hnodup, ?_, by simp⟩⟩
            intro other hother hmem
            rw [List.map_append, List.mem_append] at hmem
            rcases hmem with hmem | hmem
            · exact hfresh other hother hmem
            · have hsame : other.name = part.name := by simpa using hmem
              exact hnot (hsame ▸ List.mem_map_of_mem hother)

/-! ### Route -/

/-- A rule of a route names no target, or one of these. -/
def Targets (routable : List String) (rule : Json) : Prop :=
  isDict rule = true ∧
    ∀ v, rule.get? "outbound" = some v → v = .null ∨ ∃ target ∈ routable, v = .str target

theorem validateRule_of {routable : List String} {rule : Json} (h : Targets routable rule) :
    validateRule routable rule = .ok () := by
  obtain ⟨hdict, htarget⟩ := h
  rw [validateRule, raiseIf_bind_eq_ok]
  refine ⟨by simpa using hdict, ?_⟩
  cases hget : rule.get? "outbound" with
  | none => simp [getD, hget]
  | some v =>
      rcases htarget v hget with rfl | ⟨target, hmem, rfl⟩
      · simp [getD, hget]
      · simp [getD, hget, within, hmem, raiseIf]

/-- The converse of `validateRoute_cases`. -/
theorem validateRoute_of {routable : List String} {final : String} {rules : List Json}
    (hfinal : Dict.get? route "final" = some (.str final)) (hmem : final ∈ routable)
    (hrules : (Json.obj route).getD "rules" (.arr []) = .arr rules) (hall : ∀ rule ∈ rules, Targets routable rule) :
    validateRoute routable (.obj route) = .ok () := by
  have hknown : (Json.str final).within (ε := ModelError) routable = .ok true := by simp [within, hmem]
  rw [validateRoute, getD_obj hfinal, hknown, hrules]
  exact forM_eq_ok.mpr fun rule hrule => validateRule_of (hall rule hrule)

/-! ### The whole document -/

/-- The parts of a validated document: the outbounds and groups are sound, the names apart, the
references closed. -/
structure SoundParts (U : Unicode) (outbounds groups : List Json) (m : MihomoMeta)
    (route : Dict String Json) (tags : List String) (parts : List GroupPart) : Prop where
  tagged : List.Forall₂ (SoundOutbound U) outbounds tags
  grouped : List.Forall₂ (fun group part => validateGroup U group = .ok part) groups parts
  namespaced : validateNamespace U tags (parts.map GroupPart.name) m.proxyProviders.keys
    m.ruleProviders.keys = .ok ()
  members : ∀ part ∈ parts, validateMembers (outboundTags (outbounds.filter isRoutable) ++
    parts.map GroupPart.name ++ ["REJECT"]) (blockTags outbounds) m.proxyProviders.keys part = .ok ()
  acyclic : Search.visitAll (.text "policy groups contain a dependency cycle" : ModelError)
    (groupGraph parts) (parts.map GroupPart.name) = .ok ()
  routed : validateRoute (outboundTags (outbounds.filter isRoutable) ++ parts.map GroupPart.name)
    (.obj route) = .ok ()

theorem envelope_iff (he : Enveloped model outbounds groups m route)
    {e : List Json × Json × Dict String Json × Dict String Json} : envelope model = .ok e ↔
      (∃ direct, directTag model = .ok direct ∧ direct ∉ reservedTargets) ∧
        e = (outbounds, .arr groups, m.proxyProviders, m.ruleProviders) := by
  constructor
  · intro h
    have hparts := envelope_cases he h
    rw [envelope, getD_of_get? he.outbounds] at h
    obtain ⟨direct, hdirect, h⟩ := bind_eq_ok.mp h
    obtain ⟨hfree, -⟩ := raiseIf_bind_eq_ok.mp h
    exact ⟨⟨direct, hdirect, of_decide_eq_false hfree⟩, hparts.1⟩
  · rintro ⟨⟨direct, hdirect, hfree⟩, rfl⟩
    have hfree' : decide (direct ∈ reservedTargets) = false := decide_eq_false hfree
    rw [envelope, getD_of_get? he.outbounds]
    simp only [hdirect, ok_bind, hfree', getD_of_get? he.pdg]
    rfl

theorem validate_iff (he : Enveloped model outbounds groups m route) : validate U model = .ok () ↔
    (∃ direct, directTag model = .ok direct ∧ direct ∉ reservedTargets) ∧
      ∃ tags parts, SoundParts U outbounds groups m route tags parts := by
  have hroute : model.getD "route" .null = .obj route := getD_of_get? he.route
  constructor
  · intro h
    obtain ⟨names, hnames, -⟩ := bind_eq_ok.mp h
    rw [validateNames] at hnames
    obtain ⟨e, henv, hnames⟩ := bind_eq_ok.mp hnames
    obtain ⟨hdirect, rfl⟩ := (envelope_iff he).mp henv
    obtain ⟨⟨tags, routable⟩, houts, hnames⟩ := bind_eq_ok.mp hnames
    obtain ⟨items, hitems, hnames⟩ := bind_eq_ok.mp hnames
    obtain rfl : groups = items := by simpa using hitems
    obtain ⟨parts, hparts, hnames⟩ := bind_eq_ok.mp hnames
    simp only [unit_bind_eq_ok] at hnames
    obtain ⟨hspace, hmembers, hacyclic, hrouted, -⟩ := hnames
    obtain ⟨tags', hsound, -, -, hseen⟩ := outbounds_iff.mp houts
    obtain ⟨new, hgroups, -, -, hnew⟩ := groups_iff.mp hparts
    obtain ⟨rfl, rfl⟩ := Prod.mk.inj hseen
    obtain rfl : parts = new := hnew
    rw [hroute] at hrouted
    exact ⟨hdirect, _, _, hsound, hgroups, hspace, forM_eq_ok.mp hmembers, hacyclic, hrouted⟩
  · rintro ⟨hdirect, tags, parts, hp⟩
    obtain ⟨hnodup, -, -⟩ := validateNamespace_cases hp.namespaced
    rw [List.append_assoc, List.append_assoc, List.nodup_append] at hnodup
    have htags : tags.Nodup := hnodup.1
    have hnames : (parts.map GroupPart.name).Nodup := (List.nodup_append.mp hnodup.2.1).1
    have henv := (envelope_iff he).mpr ⟨hdirect, rfl⟩
    have houts : outbounds.foldlM (validateOutbound U) ([], []) =
        .ok (tags, outboundTags (outbounds.filter isRoutable)) :=
      outbounds_iff.mpr ⟨tags, hp.tagged, htags, by simp, rfl⟩
    have hgroups : groups.foldlM (validateGroupIn U) [] = .ok parts :=
      groups_iff.mpr ⟨parts, hp.grouped, hnames, by simp, rfl⟩
    have hmembers := forM_eq_ok.mpr hp.members
    rw [validate, validateNames, henv]
    simp only [ok_bind, houts, items_arr, hgroups, hp.namespaced, hmembers, hp.acyclic, hroute, hp.routed]
    rfl

end ProxyGateway.Schema
