import ProxyGateway.Exits.Cascaded
import ProxyGateway.Schema.Revalidated

set_option autoImplicit false

/-!
# ProxyGateway.Exits.Closed

A migrated document without some of its names, whose references to them were closed, is a migrated
document again (`migrate_without`). The set of names must be closed: a group that is left has a
member or a provider.
-/

namespace ProxyGateway.Exits

open Py Json Schema

variable {U : Unicode} {fields route : Dict String Json} {outbounds groups : List Json} {m : MihomoMeta}
  {direct fallback : String} {tags removed : List String} {parts : List GroupPart} {group outbound : Json}
  {part : GroupPart}

/-! ### Groups -/

/-- A group as `validate` reads it, without the members that were removed. -/
def prunedPart (removed : List String) (part : GroupPart) : GroupPart :=
  { part with proxies := part.proxies.filter (· ∉ removed) }

/-- A group of a migrated document, as it is read. -/
theorem groupRead_of_normal (h : nameGroup U group = .ok group ∧ referGroup U group = .ok group)
    (hvalid : validateGroup U group = .ok part) : GroupRead group part.name part.proxies part.uses := by
  have hfit := validateGroup_cases hvalid
  have hdict := hfit.dict
  cases group with
  | obj fields =>
      obtain ⟨name, proxies, uses, -, -, hproxies, -, huses, -⟩ := group_normal h.1 h.2
      refine ⟨hfit.name, ?_, ?_⟩
      · rw [← hfit.proxies, getD_obj hproxies]
        exact hproxies
      · rw [← hfit.uses, getD_obj huses]
        exact huses
  | _ => simp [isDict] at hdict

theorem distinctTexts_str {names : List String} (h : names.Nodup) :
    distinctTexts (.arr (names.map Json.str)) = some names := by
  have htexts : (names.map Json.str).mapM Json.str? = some names := by
    induction names with
    | nil => rfl
    | cons name names ih => simp [List.mapM_cons, str?, ih (List.nodup_cons.mp h).2]
  simp [distinctTexts, htexts, h]

/-- A group that is left with a member or a provider is let through. -/
theorem validateGroup_pruned (hread : GroupRead group part.name part.proxies part.uses)
    (h : validateGroup U group = .ok part)
    (hleft : part.proxies.filter (· ∉ removed) ≠ [] ∨ part.uses ≠ []) :
    validateGroup U (pruned removed group) = .ok (prunedPart removed part) := by
  obtain ⟨fields, rfl⟩ := hread.obj
  have hfit := validateGroup_cases h
  have hshape : pruned removed (.obj fields) = .obj (Dict.set fields "proxies"
      (.arr ((part.proxies.filter (· ∉ removed)).map Json.str))) := by
    rw [pruned, hread.groupMembers]
  obtain ⟨fields', hfields'⟩ : ∃ fields', fields' = Dict.set fields "proxies"
      (.arr ((part.proxies.filter (· ∉ removed)).map Json.str)) := ⟨_, rfl⟩
  rw [hshape, ← hfields']
  -- only the members are others
  have hget : ∀ key, "proxies" ≠ key → (Json.obj fields').get? key = (Json.obj fields).get? key :=
    fun key hkey => hfields' ▸ Dict.get?_set_ne hkey _ _
  have hgetD : ∀ key d, "proxies" ≠ key → (Json.obj fields').getD key d = (Json.obj fields).getD key d :=
    fun key d hkey => by rw [getD, getD, hget key hkey]
  have hkeys : ∀ names, extraKeys fields' names = extraKeys fields names := fun names => by
    rw [hfields', extraKeys, extraKeys, Dict.keys_set, if_pos (Dict.mem_keys_of_get? hread.proxies)]
  have hproxies : distinctTexts ((Json.obj fields').getD "proxies" (.arr [])) =
      some (part.proxies.filter (· ∉ removed)) := by
    rw [hfields', getD, get?, Dict.get?_set_self]
    exact distinctTexts_str (hfit.distinct.filter _)
  have hprobe : ∀ name, validateProbe (.obj fields') name = validateProbe (.obj fields) name := fun name => by
    unfold validateProbe
    rw [hgetD "type" _ (by decide), hgetD "url" _ (by decide), hgetD "interval" _ (by decide)]
  unfold validateGroup at h ⊢
  simp only [bind_eq_ok, raiseIf_eq_ok, exists_const, pure_eq_ok, Bool.or_eq_false_iff] at h ⊢
  obtain ⟨hdict, name, hname, isKnown, hknown, hsupported, hmembers, hbools, done, hprobe', htolerance, isStrategy,
    hstrategy, hstrategy', rfl⟩ := h
  simp only [hgetD "name" _ (by decide), hgetD "type" _ (by decide), hgetD "use" _ (by decide), hproxies,
    hgetD "strategy" _ (by decide), hprobe, hget "tolerance" (by decide)]
  refine ⟨rfl, name, hname, isKnown, hknown, ⟨hsupported.1, ?_⟩, ?_, ?_, done, hprobe', htolerance, isStrategy,
    hstrategy, hstrategy', rfl⟩
  · have hsame : extraKeys ((Json.obj fields').fields?.getD []) = extraKeys ((Json.obj fields).fields?.getD []) :=
      funext hkeys
    rw [hsame]
    exact hsupported.2
  · refine ⟨⟨rfl, hmembers.1.2⟩, ?_⟩
    rw [Bool.and_eq_false_iff, decide_eq_false_iff_not, decide_eq_false_iff_not]
    refine hleft.imp (fun hproxies hnil => hproxies (Option.some.inj hnil)) fun huses hnil => huses ?_
    rw [hnil]
    rfl
  · simpa [hget] using hbools

/-- A group with other members that are normal forms. -/
theorem group_with_members {fields : Dict String Json} {items : List Json}
    (h : nameGroup U (.obj fields) = .ok (.obj fields) ∧ referGroup U (.obj fields) = .ok (.obj fields))
    (hitems : ∀ item ∈ items, memberOf U item = .ok item) :
    nameGroup U (.obj (Dict.set fields "proxies" (.arr items))) = .ok (.obj (Dict.set fields "proxies" (.arr items))) ∧
      referGroup U (.obj (Dict.set fields "proxies" (.arr items))) =
        .ok (.obj (Dict.set fields "proxies" (.arr items))) := by
  obtain ⟨name, proxies, uses, hname, hnormal, -, -, huses, hproviders⟩ := group_normal h.1 h.2
  obtain ⟨final, hfinal⟩ : ∃ final, final = Dict.set fields "proxies" (.arr items) := ⟨_, rfl⟩
  have hget : Dict.get? final "name" = some (.str name) := by
    rw [hfinal, Dict.get?_set_ne (by simp), hname]
  have hgetP : Dict.get? final "proxies" = some (.arr items) := by rw [hfinal, Dict.get?_set_self]
  have hgetU : Dict.get? final "use" = some (.arr uses) := by
    rw [hfinal, Dict.get?_set_ne (by simp), huses]
  rw [← hfinal]
  constructor
  · unfold nameGroup
    simp only [getD_obj hget, hnormal, ok_bind, Dict.set_of_get? hget]
    rfl
  · unfold referGroup
    simp only [membersOf_arr hgetP, membersOf_arr hgetU, ok_bind, hproviders]
    show (items.mapM (memberOf U) >>= _) = _
    rw [mapM_id hitems, ok_bind, Dict.set_of_get? hgetP, Dict.set_of_get? hgetU]
    rfl

theorem normal_pruned (hread : GroupRead group part.name part.proxies part.uses)
    (h : nameGroup U group = .ok group ∧ referGroup U group = .ok group) :
    nameGroup U (pruned removed group) = .ok (pruned removed group) ∧
      referGroup U (pruned removed group) = .ok (pruned removed group) := by
  obtain ⟨fields, rfl⟩ := hread.obj
  rw [pruned, hread.groupMembers]
  refine group_with_members h fun item hitem => ?_
  obtain ⟨member, hmember, rfl⟩ := List.mem_map.mp hitem
  obtain ⟨-, proxies, -, -, -, hproxies, hmembers, -, -⟩ := group_normal h.1 h.2
  have hsame : proxies = part.proxies.map Json.str := by
    have hget := hread.proxies
    rw [get?, hproxies] at hget
    exact Json.arr.inj (Option.some.inj hget)
  exact hmembers _ (hsame ▸ List.mem_map_of_mem (List.mem_of_mem_filter hmember))

/-! ### The parts that are left -/

/-- Names that may be removed: not the direct one, and a group that is left has a member or a
provider. -/
structure Removal (direct : String) (parts : List GroupPart) (removed : List String) : Prop where
  directLeft : direct ∉ removed
  closed : ∀ part ∈ parts, part.name ∉ removed → part.proxies.filter (· ∉ removed) ≠ [] ∨ part.uses ≠ []

def partsLeft (removed : List String) (parts : List GroupPart) : List GroupPart :=
  (parts.filter (fun part => decide (part.name ∉ removed))).map (prunedPart removed)

theorem names_partsLeft : (partsLeft removed parts).map GroupPart.name =
    (parts.map GroupPart.name).filter (· ∉ removed) := by
  rw [partsLeft, List.map_map, List.filter_map]
  rfl

theorem mem_groupGraph (hnodup : (parts.map GroupPart.name).Nodup) {a b : String} : b ∈ groupGraph parts a ↔
    ∃ part ∈ parts, part.name = a ∧ b ∈ part.proxies ∧ b ∈ parts.map GroupPart.name := by
  rw [groupGraph]
  cases hfind : parts.find? (·.name = a) with
  | none =>
      have hnone := List.find?_eq_none.mp hfind
      constructor
      · intro h
        cases h
      · rintro ⟨part, hpart, hname, -⟩
        exact absurd (decide_eq_true hname) (hnone part hpart)
  | some found =>
      have hname : found.name = a := by simpa using List.find?_some hfind
      have hmem := List.mem_of_find?_eq_some hfind
      simp only [List.mem_filter, decide_eq_true_eq]
      constructor
      · exact fun h => ⟨found, hmem, hname, h⟩
      · rintro ⟨part, hpart, hsame, h⟩
        rwa [List.inj_on_of_nodup_map hnodup hmem hpart (hname.trans hsame.symm)]

theorem nodup_partsLeft (hnodup : (parts.map GroupPart.name).Nodup) :
    ((partsLeft removed parts).map GroupPart.name).Nodup := by
  rw [names_partsLeft]
  exact hnodup.filter _

/-- Along the groups that are left one gets only where one got before. -/
theorem edge_partsLeft (hnodup : (parts.map GroupPart.name).Nodup) {a b : String}
    (h : Search.Edge (groupGraph (partsLeft removed parts)) a b) : Search.Edge (groupGraph parts) a b := by
  obtain ⟨part, hpart, hname, hmember, hleft⟩ := (mem_groupGraph (nodup_partsLeft hnodup)).mp h
  obtain ⟨own, hown, rfl⟩ := List.mem_map.mp hpart
  rw [names_partsLeft] at hleft
  exact (mem_groupGraph hnodup).mpr ⟨own, List.mem_of_mem_filter hown, hname, List.mem_of_mem_filter hmember,
    List.mem_of_mem_filter hleft⟩

theorem acyclic_partsLeft (hnodup : (parts.map GroupPart.name).Nodup)
    (h : Search.visitAll (.text "policy groups contain a dependency cycle" : ModelError)
      (groupGraph parts) (parts.map GroupPart.name) = .ok ()) :
    Search.visitAll (.text "policy groups contain a dependency cycle" : ModelError)
      (groupGraph (partsLeft removed parts)) ((partsLeft removed parts).map GroupPart.name) = .ok () := by
  refine Search.visitAll_of_acyclic (fun a _ b hb => ?_) fun a ha hcycle => ?_
  · obtain ⟨-, -, -, -, hleft⟩ := (mem_groupGraph (nodup_partsLeft hnodup)).mp hb
    exact hleft
  · have hbefore : a ∈ parts.map GroupPart.name := by
      rw [names_partsLeft] at ha
      exact List.mem_of_mem_filter ha
    exact Search.acyclic_of_visitAll h hbefore (Relation.TransGen.mono (fun _ _ => edge_partsLeft hnodup) _ _ hcycle)

/-! ### The route -/

/-- A rule whose target was removed gets the fallback. -/
def redirected (removed : List String) (fallback : String) (rule : Json) : Json :=
  match rule with
  | .obj fields =>
      if (rule.getD "outbound" .null).str?.any (· ∈ removed) then
        .obj (Dict.set fields "outbound" (.str fallback))
      else rule
  | _ => rule

/-- The route with its final target redirected. -/
def redirectedFinal (removed : List String) (fallback : String) (route : Dict String Json) : Dict String Json :=
  if ((Json.obj route).getD "final" .null).str?.any (· ∈ removed) then Dict.set route "final" (.str fallback)
  else route

/-- The route without the names that were removed. -/
def redirectedRoute (removed : List String) (fallback : String) (route : Dict String Json) : Dict String Json :=
  match Dict.get? (redirectedFinal removed fallback route) "rules" with
  | some (.arr rules) => Dict.set (redirectedFinal removed fallback route) "rules"
      (.arr (rules.map (redirected removed fallback)))
  | _ => redirectedFinal removed fallback route

section Route

variable {live routable : List String} {rule : Json} {ε : Type}

/-- A rule of a validated route, and whether its target was removed. -/
theorem redirectRule_eq (hlive : ∀ name ∈ routable, name ∈ live ↔ name ∉ removed)
    (hrule : Targets routable rule) :
    redirectRule (ε := ε) live fallback rule = .ok (redirected removed fallback rule) := by
  cases rule with
  | obj fields =>
      cases hget : (Json.obj fields).get? "outbound" with
      | none => simp [redirectRule, redirected, getD, hget, str?]
      | some v =>
          rcases hrule.2 v hget with rfl | ⟨target, htarget, rfl⟩
          · simp [redirectRule, redirected, getD, hget, str?]
          · have hin := hlive target htarget
            by_cases hgone : target ∈ removed
            · simp [redirectRule, redirected, getD, hget, str?, within, hgone, hin]
            · simp [redirectRule, redirected, getD, hget, str?, within, hgone, hin]
  | _ => rfl

theorem get?_redirectedFinal {key : String} (hkey : "final" ≠ key) :
    Dict.get? (redirectedFinal removed fallback route) key = Dict.get? route key := by
  unfold redirectedFinal
  split
  · exact Dict.get?_set_ne hkey _ _
  · rfl

/-- With the live names for the removed ones, the code redirects the same rules. -/
theorem redirectRoute_eq (hlive : ∀ name ∈ routable, name ∈ live ↔ name ∉ removed)
    (h : validateRoute routable (.obj route) = .ok ()) :
    redirectRoute (ε := ε) live fallback route = .ok (redirectedRoute removed fallback route) := by
  obtain ⟨⟨final, hfinal, hget⟩, rules, hrules, hall⟩ := validateRoute_cases h
  have hvalue : (Json.obj route).getD "final" .null = .str final := getD_obj hget
  have hstep : (if decide (final ∈ live) = true then route else Dict.set route "final" (.str fallback)) =
      redirectedFinal removed fallback route := by
    rw [redirectedFinal, hvalue, str?, Option.any_some]
    by_cases hgone : final ∈ removed
    · simp [hgone, hlive final hfinal]
    · simp [hgone, hlive final hfinal]
  have hrulesGet : Dict.get? (redirectedFinal removed fallback route) "rules" = Dict.get? route "rules" :=
    get?_redirectedFinal (by decide)
  unfold redirectRoute redirectedRoute
  rw [hvalue, within, ok_bind]
  simp only [hstep]
  cases hcase : Dict.get? (redirectedFinal removed fallback route) "rules" with
  | none => rfl
  | some value =>
      have heq : value = .arr rules := by
        rw [hrulesGet] at hcase
        rwa [getD, get?, hcase] at hrules
      subst heq
      have hmap : rules.mapM (redirectRule (ε := ε) live fallback) = .ok (rules.map (redirected removed fallback)) :=
        mapM_of_forall₂ (List.forall₂_map_right_iff.mpr (List.forall₂_same.mpr fun rule hrule =>
          redirectRule_eq hlive (hall rule hrule)))
      simp only [hmap, ok_bind]
      rfl

theorem rules_redirected {rules : List Json} (h : (Json.obj route).getD "rules" (.arr []) = .arr rules) :
    (Json.obj (redirectedRoute removed fallback route)).getD "rules" (.arr []) =
      .arr (rules.map (redirected removed fallback)) := by
  have hget : Dict.get? (redirectedFinal removed fallback route) "rules" = Dict.get? route "rules" :=
    get?_redirectedFinal (by decide)
  unfold redirectedRoute
  rw [hget]
  cases hcase : Dict.get? route "rules" with
  | none =>
      rw [getD, get?, hcase] at h
      rw [← Json.arr.inj h, getD, get?, hget, hcase]
      rfl
  | some value =>
      rw [getD, get?, hcase] at h
      have heq : value = .arr rules := h
      subst heq
      rw [getD, get?, Dict.get?_set_self]
      rfl

theorem final_redirected {final : String} (h : Dict.get? route "final" = some (.str final)) :
    Dict.get? (redirectedRoute removed fallback route) "final" =
      some (.str (if final ∈ removed then fallback else final)) := by
  have hfinal : Dict.get? (redirectedFinal removed fallback route) "final" =
      some (.str (if final ∈ removed then fallback else final)) := by
    rw [redirectedFinal, getD_obj h, str?, Option.any_some]
    by_cases hgone : final ∈ removed
    · simp [hgone]
    · simp [hgone, h]
  unfold redirectedRoute
  split
  · rw [Dict.get?_set_ne (by decide), hfinal]
  · exact hfinal

theorem targets_redirected (hlive : ∀ name ∈ routable, name ∈ live ↔ name ∉ removed) (hfallback : fallback ∈ live)
    (h : Targets routable rule) : Targets live (redirected removed fallback rule) := by
  cases rule with
  | obj fields =>
      by_cases hgone : ((Json.obj fields).getD "outbound" .null).str?.any (· ∈ removed) = true
      · rw [redirected, if_pos hgone]
        refine ⟨rfl, fun v hv => .inr ⟨fallback, hfallback, ?_⟩⟩
        rw [get?, Dict.get?_set_self] at hv
        exact (Option.some.inj hv).symm
      · rw [redirected, if_neg hgone]
        refine ⟨rfl, fun v hv => ?_⟩
        rcases h.2 v hv with rfl | ⟨target, htarget, rfl⟩
        · exact .inl rfl
        · rw [getD, hv] at hgone
          exact .inr ⟨target, (hlive target htarget).mpr (by simpa [str?] using hgone), rfl⟩
  | _ => cases h.1

theorem validateRoute_redirected (hlive : ∀ name ∈ routable, name ∈ live ↔ name ∉ removed)
    (hfallback : fallback ∈ live) (h : validateRoute routable (.obj route) = .ok ()) :
    validateRoute live (.obj (redirectedRoute removed fallback route)) = .ok () := by
  obtain ⟨⟨final, hfinal, hget⟩, rules, hrules, hall⟩ := validateRoute_cases h
  refine validateRoute_of (final_redirected hget) ?_ (rules_redirected hrules) ?_
  · split
    · exact hfallback
    · next hleft => exact (hlive final hfinal).mpr hleft
  · intro rule hrule
    obtain ⟨own, hown, rfl⟩ := List.mem_map.mp hrule
    exact targets_redirected hlive hfallback (hall own hown)

theorem fieldFixed_str (h : NormalText U fallback) : FieldFixed U (some (.str fallback)) := by
  intro s label hs
  cases hs
  exact h label

theorem ruleFixed_redirected (hfallback : NormalText U fallback) (h : RuleFixed U rule) :
    RuleFixed U (redirected removed fallback rule) := by
  cases rule with
  | obj fields =>
      obtain ⟨houtbound, hset⟩ := h fields rfl
      by_cases hgone : ((Json.obj fields).getD "outbound" .null).str?.any (· ∈ removed) = true
      · rw [redirected, if_pos hgone]
        rintro _ ⟨rfl⟩
        rw [Dict.get?_set_self, Dict.get?_set_ne (by decide)]
        exact ⟨fieldFixed_str hfallback, hset⟩
      · rw [redirected, if_neg hgone]
        exact h
  | _ => exact h

theorem routeFixed_redirected (hfallback : NormalText U fallback) (h : RouteFixed U route) :
    RouteFixed U (redirectedRoute removed fallback route) := by
  have hrest : ∀ key, "final" ≠ key →
      Dict.get? (redirectedFinal removed fallback route) key = Dict.get? route key :=
    fun key => get?_redirectedFinal
  have hfinal : FieldFixed U (Dict.get? (redirectedFinal removed fallback route) "final") := by
    unfold redirectedFinal
    split
    · rw [Dict.get?_set_self]
      exact fieldFixed_str hfallback
    · exact h.final
  have hrules := h.rules
  unfold redirectedRoute
  split
  · next rules hget =>
    rw [EachFixed, ← hrest "rules" (by decide), hget] at hrules
    constructor
    · rwa [Dict.get?_set_ne (by decide)]
    · rw [Dict.get?_set_self]
      intro rule hrule
      obtain ⟨own, hown, rfl⟩ := List.mem_map.mp hrule
      exact ruleFixed_redirected hfallback (hrules own hown)
    · rw [Dict.get?_set_ne (by decide), hrest "rule_set" (by decide)]
      exact h.ruleSets
  · constructor
    · exact hfinal
    · rw [hrest "rules" (by decide)]
      exact hrules
    · rw [hrest "rule_set" (by decide)]
      exact h.ruleSets

end Route

/-! ### The parts without some names -/

theorem validateMembers_iff {known blocks providers : List String} :
    validateMembers known blocks providers part = .ok () ↔
      (∀ p ∈ part.proxies, p ∈ known) ∧
        (part.proxies.filter (fun m => m = "REJECT" ∨ m ∈ blocks)).length ≤ 1 ∧ ∀ u ∈ part.uses, u ∈ providers := by
  rw [validateMembers, raiseIf_bind_eq_ok, raiseIf_bind_eq_ok, raiseIf_eq_ok]
  simp only [List.any_eq_false, decide_eq_true_eq, not_not, decide_eq_false_iff_not, Nat.not_lt, gt_iff_lt]

theorem validateNamespace_sublist {tags' names names' providers ruleProviders : List String}
    (htags : tags'.Sublist tags) (hnames : names'.Sublist names)
    (h : validateNamespace U tags names providers ruleProviders = .ok ()) :
    validateNamespace U tags' names' providers ruleProviders = .ok () := by
  have hsub : (tags' ++ names' ++ providers ++ ruleProviders).Sublist (tags ++ names ++ providers ++ ruleProviders) :=
    (((htags.append hnames).append (List.Sublist.refl _)).append (List.Sublist.refl _))
  rw [validateNamespace, unit_bind_eq_ok, raiseIf_bind_eq_ok, raiseIf_eq_ok] at h ⊢
  obtain ⟨hvalid, hnodup, hfree⟩ := h
  refine ⟨hvalid, ?_, ?_⟩
  · rw [decide_eq_false_iff_not, not_not] at hnodup ⊢
    exact hnodup.sublist hsub
  · rw [List.any_eq_false] at hfree ⊢
    exact fun name hname => hfree name (hsub.subset hname)

section Without

variable {p : Json → Bool}

/-- The outbounds that are left are those whose tag was not removed. -/
def Leaves (removed : List String) (outbounds : List Json) (p : Json → Bool) : Prop :=
  ∀ o ∈ outbounds, ∀ tag, o.get? "tag" = some (.str tag) → p o = decide (tag ∉ removed)

theorem mem_outboundTags {name : String} :
    name ∈ outboundTags outbounds ↔ ∃ o ∈ outbounds, o.get? "tag" = some (.str name) := by
  have hstr : ∀ v : Json, v.str? = some name ↔ v = .str name := by
    intro v
    cases v <;> simp [str?]
  simp only [outboundTags, List.mem_filterMap, Option.bind_eq_some_iff, hstr, exists_eq_right]

theorem mem_tags_left (hp : Leaves removed outbounds p) (q : Json → Bool) {name : String} :
    name ∈ outboundTags ((outbounds.filter p).filter q) ↔
      name ∈ outboundTags (outbounds.filter q) ∧ name ∉ removed := by
  simp only [mem_outboundTags, List.mem_filter]
  constructor
  · rintro ⟨o, ⟨⟨ho, hkept⟩, hq⟩, htag⟩
    rw [hp o ho name htag, decide_eq_true_eq] at hkept
    exact ⟨⟨o, ⟨ho, hq⟩, htag⟩, hkept⟩
  · rintro ⟨⟨o, ⟨ho, hq⟩, htag⟩, hleft⟩
    exact ⟨o, ⟨⟨ho, by rw [hp o ho name htag, decide_eq_true hleft]⟩, hq⟩, htag⟩

/-- The names that a rule may have, after the removal. -/
theorem mem_live (hp : Leaves removed outbounds p) {name : String}
    (h : name ∈ outboundTags (outbounds.filter isRoutable) ++ parts.map GroupPart.name) :
    name ∈ outboundTags ((outbounds.filter p).filter isRoutable) ++ (partsLeft removed parts).map GroupPart.name ↔
      name ∉ removed := by
  rw [List.mem_append] at h
  rw [List.mem_append, mem_tags_left hp, names_partsLeft, List.mem_filter, decide_eq_true_eq, ← or_and_right]
  exact and_iff_right h

theorem members_left (hp : Leaves removed outbounds p) {providers : List String}
    (h : validateMembers (outboundTags (outbounds.filter isRoutable) ++ parts.map GroupPart.name ++ ["REJECT"])
      (blockTags outbounds) providers part = .ok ()) :
    validateMembers (outboundTags ((outbounds.filter p).filter isRoutable) ++
      (partsLeft removed parts).map GroupPart.name ++ ["REJECT"]) (blockTags (outbounds.filter p)) providers
        (prunedPart removed part) = .ok () := by
  obtain ⟨hknown, hblocks, huses⟩ := validateMembers_iff.mp h
  refine validateMembers_iff.mpr ⟨fun member hmember => ?_, ?_, huses⟩
  · obtain ⟨hin, hleft⟩ := List.mem_filter.mp hmember
    rw [List.mem_append]
    rcases List.mem_append.mp (hknown member hin) with hname | hname
    · exact .inl ((mem_live hp hname).mpr (of_decide_eq_true hleft))
    · exact .inr hname
  · have hsub : blockTags (outbounds.filter p) ⊆ blockTags outbounds := fun tag htag =>
      ((mem_tags_left hp (hasType "block")).mp htag).1
    have hsublist : ((prunedPart removed part).proxies.filter (fun m => m = "REJECT" ∨ m ∈ blockTags (outbounds.filter p))).Sublist
        (part.proxies.filter (fun m => m = "REJECT" ∨ m ∈ blockTags outbounds)) := by
      refine ((List.filter_sublist).filter _).trans ?_
      refine List.monotone_filter_right part.proxies fun m hm => ?_
      simp only [decide_eq_true_eq] at hm ⊢
      exact hm.imp_right fun hblock => hsub hblock
    exact hsublist.length_le.trans hblocks

/-- A document without some names has sound parts again. -/
theorem soundParts_without (hs : SoundParts U outbounds groups m route tags parts)
    (hread : ∀ group ∈ groups, ∀ part, validateGroup U group = .ok part →
      GroupRead group part.name part.proxies part.uses)
    (hr : Removal direct parts removed) (hp : Leaves removed outbounds p)
    (hfallback : fallback ∈ outboundTags ((outbounds.filter p).filter isRoutable) ++
      (partsLeft removed parts).map GroupPart.name) :
    SoundParts U (outbounds.filter p) (kept removed groups) m (redirectedRoute removed fallback route)
      (tags.filter (· ∉ removed)) (partsLeft removed parts) where
  tagged := forall₂_filter hs.tagged fun o ho tag hsound => hp o ho tag hsound.named.tag
  grouped := by
    have hpairs := forall₂_filter (p := fun group => decide (groupName group ∉ removed))
      (q := fun part => decide (part.name ∉ removed)) hs.grouped fun group hgroup part hvalid => by
        rw [(hread group hgroup part hvalid).groupName]
    refine List.forall₂_map_left_iff.mpr (List.forall₂_map_right_iff.mpr ?_)
    refine (forall₂_mem hpairs).imp fun group part hpair => ?_
    obtain ⟨hgroup, hpart, hvalid⟩ := hpair
    obtain ⟨hown, hleft⟩ := List.mem_filter.mp hpart
    exact validateGroup_pruned (hread group (List.mem_of_mem_filter hgroup) part hvalid) hvalid
      (hr.closed part hown (of_decide_eq_true hleft))
  namespaced := by
    rw [names_partsLeft]
    exact validateNamespace_sublist List.filter_sublist List.filter_sublist hs.namespaced
  members := by
    intro part hpart
    obtain ⟨own, hown, rfl⟩ := List.mem_map.mp hpart
    exact members_left hp (hs.members own (List.mem_of_mem_filter hown))
  acyclic := by
    obtain ⟨hnodup, -, -⟩ := validateNamespace_cases hs.namespaced
    rw [List.append_assoc, List.append_assoc, List.nodup_append] at hnodup
    exact acyclic_partsLeft (List.nodup_append.mp hnodup.2.1).1 hs.acyclic
  routed := validateRoute_redirected (fun _ hname => mem_live hp hname) hfallback hs.routed

/-! ### The document without some names -/

/-- The name of an outbound is a normal form. -/
theorem normalText_of_sound {name : String} (hA : AsciiPlain U) (h : SoundOutbound U outbound name) :
    NormalText U name := by
  obtain ⟨-, isProxy, -, own, hname, -, -, hseen⟩ := validateOutbound_eq_ok.mp h
  have hsame : name = own := by
    have hfirst := congrArg Prod.fst hseen
    simpa using hfirst
  subst hsame
  intro label
  cases isProxy with
  | true =>
      obtain ⟨n, hn, hrest⟩ := bind_eq_ok.mp hname
      obtain ⟨hvalue, -⟩ := validateName_cases hname
      obtain ⟨-, hsame⟩ := raiseIf_bind_eq_ok.mp hrest
      rw [hvalue, pure_eq_ok.mp hsame] at hn
      exact normalizeName_label.mp hn
  | false => exact normalizeName_tag hA (tag_cases hname).2 label

/-- Every name that a rule may have is a normal form. -/
theorem normalText_of_routable {name : String} (hA : AsciiPlain U) (hn : NormalNames U outbounds groups m route)
    (hs : SoundParts U outbounds groups m route tags parts)
    (hname : name ∈ outboundTags (outbounds.filter isRoutable) ++ parts.map GroupPart.name) : NormalText U name := by
  rcases List.mem_append.mp hname with htag | hgroup
  · obtain ⟨o, ho, htag⟩ := mem_outboundTags.mp htag
    obtain ⟨own, -, hsound⟩ := exists_of_forall₂ hs.tagged (List.mem_of_mem_filter ho)
    have hsame : own = name := by
      have hown := hsound.named.tag
      rw [htag] at hown
      exact (Json.str.inj (Option.some.inj hown)).symm
    exact hsame ▸ normalText_of_sound hA hsound
  · obtain ⟨part, hpart, rfl⟩ := List.mem_map.mp hgroup
    obtain ⟨group, hgroup, hvalid⟩ := exists_of_forall₂ hs.grouped.flip hpart
    have hfit := validateGroup_cases hvalid
    obtain ⟨fields, rfl⟩ : ∃ fields, group = .obj fields := by
      have hdict := hfit.dict
      cases group with
      | obj fields => exact ⟨fields, rfl⟩
      | _ => cases hdict
    obtain ⟨name, -, -, hget, hnormal, -⟩ := group_normal (hn.groups _ hgroup).1 (hn.groups _ hgroup).2
    have hsame : name = part.name := by
      have hown : Dict.get? fields "name" = some (.str part.name) := hfit.name
      rw [hget] at hown
      exact Json.str.inj (Option.some.inj hown)
    exact fun label => normalizeName_label.mp (hsame ▸ hnormal)

theorem directTag_left (hp : Leaves removed outbounds p) (hleft : direct ∉ removed) {model model' : Json}
    (ho : model.get? "outbounds" = some (.arr outbounds))
    (ho' : model'.get? "outbounds" = some (.arr (outbounds.filter p))) (h : directTag model = .ok direct) :
    directTag model' = .ok direct := by
  have hfilter : (outbounds.filter p).filter (hasType "direct") = outbounds.filter (hasType "direct") := by
    rw [List.filter_filter]
    refine List.filter_congr fun o hin => ?_
    cases htype : hasType "direct" o with
    | false => rfl
    | true =>
        have htag : o.get? "tag" = some (.str direct) := by
          rw [directTag, getD_of_get? ho, items_arr, ok_bind] at h
          split at h
          · next outbound hone =>
            have hmem : o ∈ outbounds.filter (hasType "direct") := List.mem_filter.mpr ⟨hin, htype⟩
            rw [hone, List.mem_singleton] at hmem
            subst hmem
            exact get?_of_getD (tag_cases h).1 (by simp)
          · cases h
        rw [hp o hin direct htag, decide_eq_true hleft]
        rfl
  rw [directTag, getD_of_get? ho, items_arr, ok_bind] at h
  rw [directTag, getD_of_get? ho', items_arr, ok_bind, hfilter]
  exact h

/-- A migrated document without some of its names, with every reference to them closed, is migrated. -/
theorem migrate_without (hA : AsciiPlain U) (henv : Enveloped (.obj fields) outbounds groups m route)
    (hn : NormalNames U outbounds groups m route) (hs : SoundParts U outbounds groups m route tags parts)
    (hdirect : directTag (.obj fields) = .ok direct) (hfree : direct ∉ reservedTargets)
    (hr : Removal direct parts removed) (hp : Leaves removed outbounds p)
    (hfallback : fallback ∈ outboundTags ((outbounds.filter p).filter isRoutable) ++
      (partsLeft removed parts).map GroupPart.name) :
    migrate U (assembled fields (outbounds.filter p) (kept removed groups) m (redirectedRoute removed fallback route)) =
      .ok (assembled fields (outbounds.filter p) (kept removed groups) m (redirectedRoute removed fallback route)) := by
  have hread : ∀ group ∈ groups, ∀ part, validateGroup U group = .ok part →
      GroupRead group part.name part.proxies part.uses :=
    fun group hgroup part hvalid => groupRead_of_normal (hn.groups group hgroup) hvalid
  have henv' := @assembled_enveloped (outbounds.filter p) (kept removed groups) m fields
    (redirectedRoute removed fallback route)
  have hsound := soundParts_without hs hread hr hp hfallback
  have hdirect' := directTag_left hp hr.directLeft henv.outbounds henv'.outbounds hdirect
  have hvalid := (validate_iff henv').mpr ⟨⟨direct, hdirect', hfree⟩, _, _, hsound⟩
  have hroutable : fallback ∈ outboundTags (outbounds.filter isRoutable) ++ parts.map GroupPart.name := by
    rw [List.mem_append, mem_tags_left hp, names_partsLeft, List.mem_filter] at hfallback
    rw [List.mem_append]
    exact hfallback.imp And.left And.left
  have hnormal : NormalNames U (outbounds.filter p) (kept removed groups) m
      (redirectedRoute removed fallback route) := {
    outbounds := fun o ho => hn.outbounds o (List.mem_of_mem_filter ho)
    groups := by
      intro group hgroup
      obtain ⟨own, hown, rfl⟩ := List.mem_map.mp hgroup
      have hmem := List.mem_of_mem_filter hown
      obtain ⟨part, -, hvalid⟩ := exists_of_forall₂ hs.grouped hmem
      exact normal_pruned (hread own hmem part hvalid) (hn.groups own hmem)
    proxyProviders := hn.proxyProviders
    ruleProviders := hn.ruleProviders
    route := routeFixed_redirected (normalText_of_routable hA hn hs hroutable) hn.route }
  exact migrate_of_normal henv' hnormal hvalid

end Without

end ProxyGateway.Exits
