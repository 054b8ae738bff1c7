import ProxyGateway.Render.Routing
import ProxyGateway.Route.Hijack
import ProxyGateway.Route.Pin

set_option autoImplicit false

/-!
# ProxyGateway.Route.Unrelated

What the deletion of an exit by the Web leaves alone. `_delete_outbound` gives every rule that has
no routable outbound the new default exit, and so the rules that never had an outbound as well. The
rule against loops is one of them: with an outbound it is the first rule for that exit, `add_rule`
puts its domains there, and the renderer makes no line of them (`leavesAlone_iff`).
-/

namespace ProxyGateway.Route

open Rule

variable {H : Host} {S : Render.Site} {g g' : Gateway} {m : Model} {r r' : Rule} {rules : List Rule}
  {d t value : String}

/-! ### Lines for a domain -/

/-- The tags that the renderer looks targets up in. -/
def Model.machineTags (m : Model) : Render.MachineTags :=
  ⟨(m.outbounds.filter (fun o => o.type = "direct")).map Outbound.tag,
    (m.outbounds.filter (fun o => o.type = "block")).map Outbound.tag⟩

/-- The route of the model. -/
def Model.route (m : Model) : Json :=
  .obj [("rules", .arr (m.rules.map Json.obj)), ("final", .str m.final)]

/-- The line that sends a domain and its subdomains to a target. -/
def suffixLine (S : Render.Site) (d : String) (target : Json) : String :=
  "DOMAIN-SUFFIX" ++ "," ++ S.str (.str d) ++ "," ++ S.str target

/-- Wherever the rules can be rendered, a line sends the domain to the target. -/
def Shows (S : Render.Site) (m : Model) (d t : String) : Prop :=
  ∀ available lines dropped target,
    Render.rulesFromRoute S m.machineTags available m.route = .ok (lines, dropped) →
      Render.mapTarget m.machineTags (.str t) = .ok target → suffixLine S d target ∈ lines

/-- Each rule that `add_rule` would put a domain in shows its domains, or the domain is shown already. -/
def TakesVisibly (H : Host) (S : Render.Site) (m : Model) : Prop :=
  ∀ domain t, looseDomain (canonicalDomain H domain) = true → ¬ (t = "direct" ∨ t = "直连") →
    t ∈ m.exitTags → ∀ r r', m.rules.find? (takesDomain t) = some r →
      addSuffix (canonicalDomain H domain) r = .ok r' →
        r.plainAt "domain_suffix" = true ∨ Shows S m (canonicalDomain H domain) t

theorem rulesFromRoute_route {tags : Render.MachineTags} {available lines : List String} {dropped : List Json} :
    Render.rulesFromRoute S tags available m.route = .ok (lines, dropped) ↔
      ∃ parts final, m.rules.mapM (fun r => Render.ruleLines S tags available (.obj r)) = .ok parts ∧
        Render.policyOf S tags (.str m.final) = .ok final ∧
        lines = (parts.map Prod.fst).flatten ++ ["MATCH," ++ final] ∧ dropped = (parts.map Prod.snd).flatten := by
  have hrules : Render.routeRules m.route = .ok (m.rules.map Json.obj) := rfl
  have hfinal : m.route.getD "final" .null = .str m.final := rfl
  simp only [Render.rulesFromRoute, hrules, hfinal, Py.ok_bind, List.mapM_map]
  constructor
  · intro h
    obtain ⟨parts, hparts, h⟩ := Py.bind_eq_ok.mp h
    obtain ⟨final, hf, h⟩ := Py.bind_eq_ok.mp h
    obtain ⟨rfl, rfl⟩ := Prod.mk.inj (Py.pure_eq_ok.mp h)
    exact ⟨parts, final, hparts, hf, rfl, rfl⟩
  · rintro ⟨parts, final, hparts, hf, rfl, rfl⟩
    exact Py.bind_eq_ok.mpr ⟨parts, hparts, Py.bind_eq_ok.mpr ⟨final, hf, rfl⟩⟩

/-- The lines of a rule are among those of the route. -/
theorem mem_lines {tags : Render.MachineTags} {available lines : List String} {dropped : List Json} {line : String}
    (h : Render.rulesFromRoute S tags available m.route = .ok (lines, dropped)) (hr : r ∈ m.rules)
    (hline : ∀ part, Render.ruleLines S tags available (.obj r) = .ok part → line ∈ part.1) : line ∈ lines := by
  obtain ⟨parts, final, hparts, -, rfl, -⟩ := rulesFromRoute_route.mp h
  obtain ⟨part, hpart, hrp⟩ := exists_of_forall₂ (Py.mapM_forall₂ hparts) hr
  refine List.mem_append_left _ (List.mem_flatten.mpr ⟨part.1, List.mem_map_of_mem hpart, hline part hrp⟩)

/-- What a rule for a target says of the domains of its suffixes. -/
theorem suffixLine_mem {tags : Render.MachineTags} {available : List String} {part : List String × List Json}
    {target : Json} (h : Render.ruleLines S tags available (.obj r) = .ok part)
    (ht : takesDomain t r = true) (hne : t ≠ "") (haction : r.field "action" ≠ .str "reject")
    (hd : Json.str d ∈ (r.listed "domain_suffix").entries)
    (htarget : Render.mapTarget tags (.str t) = .ok target) : suffixLine S d target ∈ part.1 := by
  rw [takesDomain, Bool.and_eq_true, decide_eq_true_eq, Bool.not_eq_true'] at ht
  obtain ⟨hout, hset⟩ := ht
  have hset : Dict.get? r "rule_set" = none := by simpa [Dict.contains] using hset
  have hout : (Json.obj r).getD "outbound" .null = .str t := hout
  have haction : (Json.obj r).getD "action" .null ≠ .str "reject" := haction
  have hname : (Json.obj r).getD "rule_set" .null = .null := by
    simp [Json.getD, Json.get?, hset]
  have htruthy : Json.truthy (.str t) = true := by simpa [Json.truthy] using hne
  have hnull : Json.truthy .null = false := rfl
  simp only [Render.ruleLines, haction, if_false, hout, htruthy, Bool.not_true, Bool.false_eq_true,
    htarget, Py.ok_bind, hname, hnull] at h
  obtain ⟨suffixes, hs, h⟩ := Py.bind_eq_ok.mp h
  obtain ⟨domains, -, h⟩ := Py.bind_eq_ok.mp h
  obtain ⟨keywords, -, h⟩ := Py.bind_eq_ok.mp h
  rw [← Py.pure_eq_ok.mp h]
  obtain ⟨items, hitems, hs⟩ := Py.bind_eq_ok.mp hs
  rw [← Py.pure_eq_ok.mp hs, Json.items_eq_ok hitems]
  simp only [List.mem_append]
  exact .inl (.inl (List.mem_map.mpr ⟨_, hd, rfl⟩))

/-! ### The rule that takes a domain -/

/-- A rule that is not plain has the same lines after it has taken a domain. -/
theorem ruleLines_addSuffix (h : addSuffix d r = .ok r') (hr : r.plainAt "domain_suffix" = false) (tags : Render.MachineTags)
    (available : List String) :
    Render.ruleLines S tags available (.obj r') = Render.ruleLines S tags available (.obj r) := by
  by_cases ha : r.field "action" = .str "reject"
  · -- a reject action has the lines of its addresses only
    obtain ⟨v, rfl | rfl, -, -⟩ := addSuffix_cases h
    · rfl
    · have ha' : (Json.obj (Dict.set r "domain_suffix" v)).getD "action" .null = .str "reject" :=
        (field_set_ne (by decide) r v).trans ha
      have ha : (Json.obj r).getD "action" .null = .str "reject" := ha
      have hip : (Json.obj (Dict.set r "domain_suffix" v)).getD "ip_cidr" (.arr []) =
          (Json.obj r).getD "ip_cidr" (.arr []) := by
        simp [Json.getD, Json.get?, Dict.get?_set_ne (show "domain_suffix" ≠ "ip_cidr" by decide)]
      unfold Render.ruleLines
      rw [if_pos ha', if_pos ha, hip]
  · -- a text that holds the domain stays as it is
    rw [addSuffix_text h (by simpa [plainAt, ha] using hr)]

/-- Rules with the same lines show the same. -/
theorem shows_congr {m' : Model} {xs ys : List Rule} (hm : m.rules = xs ++ r :: ys)
    (hm' : m' = { m with rules := xs ++ r' :: ys })
    (hr : ∀ tags available, Render.ruleLines S tags available (.obj r') =
      Render.ruleLines S tags available (.obj r)) : Shows S m' d t ↔ Shows S m d t := by
  have hroute : ∀ tags available lines dropped,
      Render.rulesFromRoute S tags available m'.route = .ok (lines, dropped) ↔
        Render.rulesFromRoute S tags available m.route = .ok (lines, dropped) := by
    intro tags available lines dropped
    rw [rulesFromRoute_route, rulesFromRoute_route, hm', hm]
    simp only [List.mapM_append, List.mapM_cons, hr]
  have htags : m'.machineTags = m.machineTags := by rw [hm']; rfl
  simp only [Shows, hroute, htags]

/-- A rule that takes the domain visibly shows it. -/
theorem shows_of_mem (ht : takesDomain t r = true) (hne : t ≠ "") (ha : r.field "action" ≠ .str "reject")
    (hd : Json.str d ∈ (r.listed "domain_suffix").entries) (hr : r ∈ m.rules) : Shows S m d t := by
  intro available lines dropped target hlines htarget
  exact mem_lines hlines hr (fun part hpart => suffixLine_mem hpart ht hne ha hd htarget)

theorem addToRule_of_first {xs ys : List Rule} (hxs : ∀ x ∈ xs, takesDomain t x = false)
    (hr : takesDomain t r = true) (h : addSuffix d r = .ok r') :
    addToRule d t (xs ++ r :: ys) = .ok (some (xs ++ r' :: ys)) := by
  induction xs with
  | nil =>
      rw [List.nil_append, List.nil_append]
      unfold addToRule
      simp only [hr, if_true, h, Py.ok_bind]
      rfl
  | cons x xs ih =>
      obtain ⟨hx, hxs⟩ := List.forall_mem_cons.mp hxs
      rw [List.cons_append]
      unfold addToRule
      simp only [hx, Bool.false_eq_true, if_false, ih hxs, Py.ok_bind]
      rfl

theorem addRule_of_first {xs ys : List Rule} {domain : String} (hd : looseDomain (canonicalDomain H domain) = true)
    (ht : ¬ (t = "direct" ∨ t = "直连")) (hexit : t ∈ g.model.exitTags) (hrules : g.model.rules = xs ++ r :: ys)
    (hxs : ∀ x ∈ xs, takesDomain t x = false) (hr : takesDomain t r = true)
    (h : addSuffix (canonicalDomain H domain) r = .ok r') :
    addRule H domain t g = .ok { g with
      model := { g.model with rules := xs ++ r' :: ys }
      hijack := domainText (g.hijack ++ [canonicalDomain H domain]) } := by
  have hadd : addDomain (canonicalDomain H domain) t g.model.rules = .ok (xs ++ r' :: ys) := by
    rw [addDomain, hrules, addToRule_of_first hxs hr h]
    rfl
  simp only [addRule, hd, ht, hexit, hadd, Bool.not_true, Bool.false_eq_true, if_false, not_true_eq_false,
    Py.ok_bind]
  rfl

/-- What `add_rule` adds is shown exactly if the rules take their domains visibly. -/
theorem addRule_shows_iff (hn : "" ∉ g.model.exitTags) :
    (∀ domain t g', addRule H domain t g = .ok g' → ¬ (t = "direct" ∨ t = "直连") →
      Shows S g'.model (canonicalDomain H domain) t) ↔ TakesVisibly H S g.model := by
  constructor
  · intro h domain t hd ht hexit r r' hf hadd
    cases hplain : r.plainAt "domain_suffix" with
    | true => exact .inl rfl
    | false =>
        obtain ⟨hr, xs, ys, hrules, hxs⟩ := List.find?_eq_some_iff_append.mp hf
        have hxs : ∀ x ∈ xs, takesDomain t x = false := fun x hx => by simpa using hxs x hx
        have hshown := h domain t _ (addRule_of_first hd ht hexit hrules hxs hr hadd) ht
        exact .inr ((shows_congr hrules rfl (ruleLines_addSuffix hadd hplain)).mp hshown)
  · intro h domain t g' hadd ht
    obtain ⟨hd, ⟨hdirect, -⟩ | ⟨-, hexit, rules, hrules, rfl⟩⟩ := addRule_cases hadd
    · exact absurd hdirect ht
    · have hne : t ≠ "" := fun he => hn (he ▸ hexit)
      rcases addDomain_cases hrules with ⟨-, rfl⟩ | ⟨xs, r, ys, r', hsplit, hf, hsuffix, -, rfl⟩
      · -- a rule of its own shows the domain
        obtain ⟨xs, ys, -, hins⟩ :=
          insertFirst_split (newRule "domain_suffix" (canonicalDomain H domain) t) g.model.rules
        refine shows_of_mem (r := newRule "domain_suffix" (canonicalDomain H domain) t) ?_ hne ?_ ?_ ?_
        · simp [takesDomain, newRule, outbound, field, Dict.get?, Dict.contains]
        · simp [newRule, field, Dict.get?]
        · simp [newRule, listed, Json.entries]
        · rw [hins]
          simp
      · cases hplain : r.plainAt "domain_suffix" with
        | true =>
            have hr : takesDomain t r = true := (List.find?_eq_some_iff_append.mp hf).1
            rw [plainAt, Bool.and_eq_true, decide_eq_true_eq, Option.isNone_iff_eq_none] at hplain
            refine shows_of_mem (takesDomain_addSuffix hsuffix hr) hne ?_ (mem_addSuffix hsuffix hplain.2) (by simp)
            obtain ⟨v, rfl | rfl, -, -⟩ := addSuffix_cases hsuffix
            · exact hplain.1
            · rw [field_set_ne (by decide)]
              exact hplain.1
        | false =>
            have hshown := (h domain t hd ht hexit r r' hf hsuffix).resolve_left (by simp [hplain])
            exact (shows_congr hsplit rfl (ruleLines_addSuffix hsuffix hplain)).mpr hshown

/-! ### The deletion -/

/-- The names that were exits and are none any more. -/
def gone (m m' : Model) : List String := m.exitTags.filter (· ∉ m'.exitTags)

/-- Is it one of the names? -/
def refersTo (names : List String) (o : Json) : Bool := o.str?.any (· ∈ names)

/-- The rule, with the default exit in place of one of the names. -/
def redirected (names : List String) (final : String) (r : Rule) : Rule :=
  if refersTo names r.outbound then r.set "outbound" (.str final) else r

/-- The outbound of an entry of the metadata. -/
def metaOutbound (info : Dict String Json) : Json := (Dict.get? info "outbound").getD .null

/-- Only what refers to a name that is gone is given the new default exit, and what `add_rule` adds
to the result is shown. -/
structure LeavesAlone (H : Host) (S : Render.Site) (g g' : Gateway) : Prop where
  rules : g'.model.rules = g.model.rules.map (redirected (gone g.model g'.model) g'.model.final)
  rulesets : List.Forall₂ (fun entry entry' => entry' = entry ∨
    ∃ info, entry.2 = .obj info ∧ refersTo (gone g.model g'.model) (metaOutbound info) = true) g.rsMeta g'.rsMeta
  shown : ∀ domain t g'', addRule H domain t g' = .ok g'' → ¬ (t = "direct" ∨ t = "直连") →
    Shows S g''.model (canonicalDomain H domain) t

/-- The model without an exit, where only what refers to a name that is gone is redirected. -/
def Model.withoutExit (m : Model) (tag final : String) : Model :=
  { m.without tag with
    rules := m.rules.map (redirected (gone m (m.without tag)) final)
    final := final }

/-- Every rule has an outbound, every entry of the metadata names an exit, and the rules that
`add_rule` puts its domains in show them. -/
structure Harmless (H : Host) (S : Render.Site) (value : String) (g : Gateway) : Prop where
  rules : ∀ r ∈ g.model.rules, r.outbound ≠ .null
  rulesets : ∀ entry ∈ g.rsMeta, ∀ info, entry.2 = .obj info →
    ∃ t, metaOutbound info = .str t ∧ (t ∈ g.model.exitTags ∨ t = "direct")
  takers : ∀ tag final, H.normalizeName value = some tag → (g.model.without tag).finalAfter = some final →
    TakesVisibly H S (g.model.withoutExit tag final)

theorem refersTo_iff {names : List String} {o : Json} : refersTo names o = true ↔ ∃ t ∈ names, o = .str t := by
  cases o <;> simp [refersTo, Json.str?]

theorem mem_gone {m m' : Model} : t ∈ gone m m' ↔ t ∈ m.exitTags ∧ t ∉ m'.exitTags := by
  simp [gone]

theorem groupDelete_names (turns : Nat) (removed : List String) (groups : List Group) :
    ∀ name ∈ (groupDelete turns removed groups).map Group.name, name ∈ groups.map Group.name := by
  induction turns generalizing removed groups with
  | zero => exact fun _ h => h
  | succ turns ih =>
      have hkept : ∀ name ∈ ((groups.filter (fun x => x.name ∉ removed)).map
          (fun x => { x with proxies := x.proxies.filter (· ∉ removed) })).map Group.name,
          name ∈ groups.map Group.name := by
        intro name h
        obtain ⟨y, hy, rfl⟩ := List.mem_map.mp h
        obtain ⟨x, hx, rfl⟩ := List.mem_map.mp hy
        exact List.mem_map.mpr ⟨x, List.mem_of_mem_filter hx, rfl⟩
      intro name h
      unfold groupDelete at h
      simp only at h
      split at h
      · exact hkept name h
      · exact hkept name (ih _ _ name h)

/-- A model without an exit has no other exits. -/
theorem exitTags_without (m : Model) (tag : String) : ∀ t ∈ (m.without tag).exitTags, t ∈ m.exitTags := by
  intro t h
  rcases List.mem_append.mp h with h | h
  · obtain ⟨o, ho, rfl⟩ := List.mem_map.mp h
    obtain ⟨ho, htype⟩ := List.mem_filter.mp ho
    exact List.mem_append_left _
      (List.mem_map_of_mem (List.mem_filter.mpr ⟨List.mem_of_mem_filter ho, htype⟩))
  · exact List.mem_append_right _ (groupDelete_names _ _ _ t h)

theorem forall₂_eq_map {α β : Type} {f : α → β} {xs : List α} {ys : List β} :
    List.Forall₂ (fun x y => y = f x) xs ys ↔ ys = xs.map f := by
  induction xs generalizing ys with
  | nil => simp
  | cons x xs ih => cases ys <;> simp [ih]

section Deletion

variable {live : List String} {final : String}

/-- Only a rule without outbound is redirected where it is not to be. -/
theorem redirectUnroutable_iff {m' : Model} (hr : redirectUnroutable (m'.exitTags ++ ["direct"]) final r = .ok r')
    (hv : r.outbound = .null ∨ ∃ t ∈ m.exitTags, r.outbound = .str t)
    (hv' : r'.outbound = .null ∨ ∃ t ∈ m'.exitTags, r'.outbound = .str t) :
    r' = redirected (gone m m') final r ↔ r.outbound ≠ .null := by
  rcases redirectUnroutable_cases hr with ⟨⟨t, ht, ho⟩, rfl⟩ | ⟨hdead, rfl⟩
  · refine iff_of_true ?_ (by simp [ho])
    have hlive : t ∈ m'.exitTags := by
      rcases hv' with hnull | ⟨u, hu, hou⟩
      · simp [ho] at hnull
      · rw [ho, Json.str.injEq] at hou
        exact hou ▸ hu
    have hnot : refersTo (gone m m') r'.outbound = false := by
      simp [refersTo, ho, Json.str?, mem_gone, hlive]
    simp [redirected, hnot]
  · constructor
    · intro he hnull
      have hnot : refersTo (gone m m') r.outbound = false := by simp [refersTo, hnull, Json.str?]
      rw [redirected, hnot, if_neg (by simp)] at he
      have hset : outbound (Dict.set r "outbound" (.str final)) = .str final := field_set_self _ _ _
      rw [he, hnull] at hset
      cases hset
    · intro hnn
      obtain ⟨t, ht, ho⟩ := hv.resolve_left hnn
      have hgone : t ∈ gone m m' := mem_gone.mpr ⟨ht, fun hlive => hdead t (List.mem_append_left _ hlive) ho⟩
      rw [redirected, if_pos (refersTo_iff.mpr ⟨t, hgone, ho⟩)]

/-- Only an entry that names no exit and is not `direct` is changed where it is not to be. -/
theorem retargetEntry_iff {m' : Model} {entry entry' : String × Json} (hsub : ∀ t ∈ m'.exitTags, t ∈ m.exitTags)
    (hfinal : final ∈ m'.exitTags)
    (h : retargetEntry (unroutable (m'.exitTags ++ ["direct"])) final entry = .ok entry') :
    (entry' = entry ∨ ∃ info, entry.2 = .obj info ∧ refersTo (gone m m') (metaOutbound info) = true) ↔
      ∀ info, entry.2 = .obj info → ∃ t, metaOutbound info = .str t ∧ (t ∈ m.exitTags ∨ t = "direct") := by
  obtain ⟨name, value⟩ := entry
  cases value with
  | obj info =>
      simp only [retargetEntry] at h
      obtain ⟨b, hb, h⟩ := Py.bind_eq_ok.mp h
      obtain ⟨c, hc, hb⟩ := Py.bind_eq_ok.mp hb
      have hbc : b = !c := (Py.pure_eq_ok.mp hb).symm
      simp only [Json.obj.injEq, exists_eq_left', forall_eq']
      cases c with
      | true =>
          -- what names an exit stays
          rw [hbc, Bool.not_true, if_neg (by simp)] at h
          refine iff_of_true (.inl (Py.pure_eq_ok.mp h).symm) ?_
          cases ho : metaOutbound info with
          | str t =>
              rw [show (Dict.get? info "outbound").getD .null = .str t from ho] at hc
              have ht : t ∈ m'.exitTags ++ ["direct"] := by simpa [Json.within] using hc
              rcases List.mem_append.mp ht with ht | ht
              · exact ⟨t, rfl, .inl (hsub t ht)⟩
              · exact ⟨t, rfl, .inr (by simpa using ht)⟩
          | _ =>
              rw [show (Dict.get? info "outbound").getD .null = _ from ho] at hc
              simp [Json.within] at hc
      | false =>
          rw [hbc, Bool.not_false, if_pos rfl] at h
          have hdead : ∀ t ∈ m'.exitTags ++ ["direct"], metaOutbound info ≠ .str t := by
            intro t ht he
            rw [show (Dict.get? info "outbound").getD .null = .str t from he] at hc
            simp only [Json.within, Except.ok.injEq, decide_eq_false_iff_not] at hc
            exact hc ht
          have hne : entry' ≠ (name, .obj info) := by
            rw [← Py.pure_eq_ok.mp h]
            intro he
            have hinfo : Dict.set info "outbound" (.str final) = info := by simpa using he
            refine hdead final (List.mem_append_left _ hfinal) ?_
            rw [metaOutbound, ← hinfo, Dict.get?_set_self]
            rfl
          rw [or_iff_right hne, refersTo_iff]
          constructor
          · rintro ⟨t, ht, ho⟩
            exact ⟨t, ho, .inl (mem_gone.mp ht).1⟩
          · rintro ⟨t, ho, ht | rfl⟩
            · exact ⟨t, mem_gone.mpr ⟨ht, fun hl => hdead t (List.mem_append_left _ hl) ho⟩, ho⟩
            · exact absurd ho (hdead _ (by simp))
  | _ =>
      simp only [retargetEntry] at h
      exact iff_of_true (.inl (Py.pure_eq_ok.mp h).symm) (by simp)

end Deletion

/-- A deletion leaves the rest alone exactly if the state before it is such. -/
theorem leavesAlone_iff (h : deleteOutbound H value g = .ok g') (hv : g.model.valid = true)
    (hn : "" ∉ g.model.exitTags) (hv' : g'.model.valid = true) :
    LeavesAlone H S g g' ↔ Harmless H S value g := by
  obtain ⟨tag, final, rules, info, hname, -, hf, hr, hinfo, rfl⟩ := deleteOutbound_cases h
  obtain ⟨-, -, -, hout⟩ := valid_iff.mp hv
  obtain ⟨-, -, hfinal', hout'⟩ := valid_iff.mp hv'
  have hrules : rules = g.model.rules.map (redirected (gone g.model (g.model.without tag)) final) ↔
      ∀ r ∈ g.model.rules, r.outbound ≠ .null := by
    rw [← forall₂_eq_map]
    refine forall₂_iff_of (forall₂_mem (Py.mapM_forall₂ hr)) (fun r r' hrr => ?_)
    exact redirectUnroutable_iff hrr.2.2 (hout r hrr.1) (hout' r' hrr.2.1)
  have hsets := forall₂_iff_of (Py.mapM_forall₂ hinfo)
    (fun entry entry' => retargetEntry_iff (exitTags_without g.model tag) hfinal')
  have hn' : "" ∉ (g.model.without tag).exitTags := fun he => hn (exitTags_without g.model tag _ he)
  constructor
  · intro hl
    have hkept : rules = g.model.rules.map (redirected (gone g.model (g.model.without tag)) final) := hl.rules
    refine ⟨hrules.mp hkept, hsets.mp hl.rulesets, ?_⟩
    intro tag' final' hname' hf'
    rw [hname] at hname'
    cases hname'
    rw [hf] at hf'
    cases hf'
    rw [Model.withoutExit, ← hkept]
    exact (addRule_shows_iff hn').mp hl.shown
  · intro hc
    have hkept := hrules.mpr hc.rules
    have htakers := hc.takers tag final hname hf
    rw [Model.withoutExit, ← hkept] at htakers
    exact ⟨hkept, hsets.mpr hc.rulesets, (addRule_shows_iff hn').mpr htakers⟩

/-- Two exits next to the direct outbound. -/
def twoExits (rules : List Rule) : Gateway where
  model := {
    outbounds := [⟨"JP", "direct"⟩, ⟨"tokyo", "shadowsocks"⟩, ⟨"osaka", "shadowsocks"⟩]
    groups := []
    final := "osaka"
    rules := rules
    ruleSets := [] }
  direct := []
  hijack := []
  rsMeta := []

/-- `twoExits` without one of them. -/
def oneExit (rules : List Rule) : Gateway :=
  { twoExits rules with
    model := { (twoExits rules).model with outbounds := [⟨"JP", "direct"⟩, ⟨"osaka", "shadowsocks"⟩] } }

/-- The rule against loops. -/
def antiLoop : Rule := [("ip_cidr", .arr [.str "127.0.0.0/8"]), ("action", .str "reject")]

/-- The deletion of an exit with a rule of its own. -/
theorem leavesAlone_ownRule :
    LeavesAlone plainHost Render.plainSite (twoExits [newRule "domain_suffix" "example.com" "tokyo"])
      (oneExit [newRule "domain_suffix" "example.com" "osaka"]) := by
  refine (leavesAlone_iff (show deleteOutbound plainHost "tokyo" _ = .ok _ by rfl) (by decide) (by decide) (by decide)).mpr
    ⟨by decide, fun _ h => absurd h List.not_mem_nil, ?_⟩
  intro tag final hname hf domain t hloose hdirect hexit r r' hfirst hadd
  cases hname
  cases hf
  have hr := List.mem_of_find?_eq_some hfirst
  refine .inl ?_
  rw [List.mem_singleton.mp hr]
  decide

/-- The rule against loops gets an exit, and takes a domain that is not shown. -/
theorem antiLoop_redirected : ∃ g' g'', (twoExits [antiLoop]).model.valid = true ∧
    deleteOutbound plainHost "tokyo" (twoExits [antiLoop]) = .ok g' ∧ g'.model.valid = true ∧
    addRule plainHost "example.com" "osaka" g' = .ok g'' ∧
    ¬ Shows Render.plainSite g''.model "example.com" "osaka" ∧
    ¬ LeavesAlone plainHost Render.plainSite (twoExits [antiLoop]) g' := by
  refine ⟨oneExit [antiLoop ++ [("outbound", .str "osaka")]],
    { oneExit [antiLoop ++ [("outbound", .str "osaka"), ("domain_suffix", .arr [.str "example.com"])]] with
      hijack := ["example.com"] }, by decide, by rfl, by decide, by rfl, ?_, ?_⟩
  · intro h
    have := h [] _ _ (.str "osaka") rfl rfl
    revert this
    decide
  · intro h
    have := h.rules
    revert this
    decide

end ProxyGateway.Route
