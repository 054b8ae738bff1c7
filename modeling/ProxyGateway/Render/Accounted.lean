import ProxyGateway.Render.Mihomo

set_option autoImplicit false

/-!
# ProxyGateway.Render.Accounted

What of the route reaches the configuration. `_rules_from_route` reads a rule by its kind: a reject
action by its addresses, a rule for a ruleset by the name, any other by its domains. Matchers that are
not looked at for the kind leave no line, and the rule is not reported as dropped either
(`accounted_iff`).
-/

namespace ProxyGateway.Render

open Schema Json Py

variable {S : Site} {tags : MachineTags} {available : List String} {route inbounds rule : Json}
  {part : List String × List Json} {listeners : List (Json × String)}

/-! ### Match values -/

/-- The match values of a field: the elements of a list, or one value that is not empty. -/
def valuesOf : Json → List Json
  | .arr xs => xs
  | value => if value.truthy then [value] else []

/-- The kind of lines that a matcher is rendered as. -/
def kindOf : String → Option String
  | "ip_cidr" => some "IP-CIDR"
  | "domain_suffix" => some "DOMAIN-SUFFIX"
  | "domain" => some "DOMAIN"
  | "domain_keyword" => some "DOMAIN-KEYWORD"
  | "rule_set" => some "RULE-SET"
  | _ => none

def isReject (rule : Json) : Prop := rule.getD "action" .null = .str "reject"

instance : Decidable (isReject rule) := inferInstanceAs (Decidable (_ = _))

/-- The target of a rule. -/
def ruleTarget (S : Site) (tags : MachineTags) (rule : Json) : Py RenderError String := do
  if isReject rule then return "REJECT" else return S.str (← mapTarget tags (rule.getD "outbound" .null))

/-- What stands behind the match value in a line of the rule. -/
def lineTail (rule : Json) (target : String) : String :=
  if isReject rule then target ++ ",no-resolve" else target

/-- The line of a match value. -/
def lineOf (S : Site) (kind : String) (v : Json) (tail : String) : String := kind ++ "," ++ S.str v ++ "," ++ tail

/-- A match value of the rule has a line of the rule with its target, or one of a listener, or it is
among the dropped entries. -/
def Seen (S : Site) (listeners : List (Json × String)) (rule : Json) (part : List String × List Json)
    (target key : String) (v : Json) : Prop :=
  rule ∈ part.2 ∨
  (key = "rule_set" ∧ Json.obj [("rule_set", v), ("outbound", rule.getD "outbound" .null)] ∈ part.2) ∨
  (∃ kind, kindOf key = some kind ∧ lineOf S kind v (lineTail rule target) ∈ part.1) ∨
  (key = "inbound" ∧ ∃ l ∈ listeners, l.1.get? "name" = some v ∧ l.2 = lineOf S "IN-NAME" v target)

/-- Every match value is seen. -/
def AccountsFor (S : Site) (tags : MachineTags) (listeners : List (Json × String)) (rule : Json)
    (part : List String × List Json) : Prop :=
  ∀ key value, key ∉ ["action", "outbound"] → rule.get? key = some value → ∀ v ∈ valuesOf value,
    ∀ target, ruleTarget S tags rule = .ok target → Seen S listeners rule part target key v

/-! ### The condition -/

/-- The match value is, as a text, an element of its field. -/
def Spelled (S : Site) (value v : Json) : Prop := ∃ item ∈ value.entries, S.str item = S.str v

/-- The name of a mixed listener. -/
def listenerName (inbound : Json) : Json :=
  if (inbound.getD "tag" .null).truthy then inbound.getD "tag" .null else .str "mixed-in"

/-- A mixed inbound with a port has the name, and the first rule that names it and has an outbound, else
the final target, is for the target. -/
def ListensTo (S : Site) (tags : MachineTags) (route inbounds : Json) (v : Json) (target : String) : Prop :=
  ∃ inbound ∈ inbounds.entries, attr inbound "type" = .ok (.str "mixed") ∧
    (inbound.getD "listen_port" .null).truthy = true ∧ listenerName inbound = v ∧
      ∃ rules pin, routeRules route = .ok rules ∧ pinOf v rules = .ok pin ∧
        policyOf S tags (if pin.truthy then pin else route.getD "final" .null) = .ok target

/-- The rule is of a kind for which the matcher is looked at. -/
def LookedAt (S : Site) (rule : Json) (key : String) (value v : Json) : Prop :=
  if isReject rule then key = "ip_cidr" ∧ Spelled S value v
  else if (rule.getD "outbound" .null).truthy = false then True
  else if (rule.getD "rule_set" .null).truthy then key = "rule_set"
  else key ∈ ["domain_suffix", "domain", "domain_keyword"] ∧ Spelled S value v

/-- Every match value of the rule is looked at, or it is an inbound that listens and goes to the target of
the rule. -/
def Renders (S : Site) (tags : MachineTags) (route inbounds rule : Json) : Prop :=
  ∀ key value, key ∉ ["action", "outbound"] → rule.get? key = some value → ∀ v ∈ valuesOf value,
    LookedAt S rule key value v ∨ (key = "inbound" ∧ ∀ target, ruleTarget S tags rule = .ok target →
      ListensTo S tags route inbounds v target)

/-! ### Lines -/

/-- Lines of kinds without commas are the same for the same kind and value only. -/
theorem lineOf_inj {kind kind' tail : String} {v v' : Json} (hk : ',' ∉ kind.toList) (hk' : ',' ∉ kind'.toList) :
    lineOf S kind v tail = lineOf S kind' v' tail ↔ kind = kind' ∧ S.str v = S.str v' := by
  constructor
  · intro h
    have h := congrArg String.toList h
    simp only [lineOf, String.toList_append, List.append_assoc] at h
    have htake : ∀ (cs rest : List Char), ',' ∉ cs → (cs ++ (",".toList ++ rest)).takeWhile (· ≠ ',') = cs := by
      intro cs rest hcs
      rw [List.takeWhile_append_of_pos (fun c hc => by simpa using fun he : c = ',' => hcs (he ▸ hc))]
      simp
    have hkind := congrArg (List.takeWhile (· ≠ ',')) h
    rw [htake _ _ hk, htake _ _ hk'] at hkind
    have hkind := String.toList_injective hkind
    subst hkind
    refine ⟨rfl, String.toList_injective ?_⟩
    exact List.append_cancel_right (List.append_cancel_left (List.append_cancel_left h))
  · rintro ⟨rfl, h⟩
    simp [lineOf, h]

theorem kindOf_plain {key kind : String} (h : kindOf key = some kind) : ',' ∉ kind.toList := by
  unfold kindOf at h
  split at h <;> simp only [Option.some.injEq, reduceCtorEq] at h <;> subst h <;> decide

theorem fieldLines_eq_ok {kind tail : String} {value : Json} {lines : List String}
    (h : fieldLines S kind value tail = .ok lines) : lines = value.entries.map (fun v => lineOf S kind v tail) := by
  obtain ⟨items, hitems, h⟩ := bind_eq_ok.mp h
  rw [← Json.items_eq_ok hitems, ← pure_eq_ok.mp h]
  rfl

/-- What a rule adds, by its kind. -/
theorem ruleLines_cases (h : ruleLines S tags available rule = .ok part) :
    (isReject rule ∧ part = ((rule.getD "ip_cidr" (.arr [])).entries.map
      (fun v => lineOf S "IP-CIDR" v "REJECT,no-resolve"), [])) ∨
    (¬ isReject rule ∧ (rule.getD "outbound" .null).truthy = false ∧ part = ([], [rule])) ∨
    (¬ isReject rule ∧ (rule.getD "outbound" .null).truthy = true ∧ ∃ target,
      mapTarget tags (rule.getD "outbound" .null) = .ok target ∧
      (((rule.getD "rule_set" .null).truthy = true ∧ ∃ b, (rule.getD "rule_set" .null).within (ε := RenderError) available = .ok b ∧
          part = if b then ([lineOf S "RULE-SET" (rule.getD "rule_set" .null) (S.str target)], [])
            else ([], [.obj [("rule_set", rule.getD "rule_set" .null), ("outbound", rule.getD "outbound" .null)]])) ∨
        ((rule.getD "rule_set" .null).truthy = false ∧
          part = ((rule.getD "domain_suffix" (.arr [])).entries.map (fun v => lineOf S "DOMAIN-SUFFIX" v (S.str target)) ++
            (rule.getD "domain" (.arr [])).entries.map (fun v => lineOf S "DOMAIN" v (S.str target)) ++
            (rule.getD "domain_keyword" (.arr [])).entries.map
              (fun v => lineOf S "DOMAIN-KEYWORD" v (S.str target)), [])))) := by
  unfold ruleLines at h
  split at h
  · next ha =>
      obtain ⟨lines, hlines, h⟩ := bind_eq_ok.mp h
      rw [fieldLines_eq_ok hlines] at h
      exact .inl ⟨ha, (pure_eq_ok.mp h).symm⟩
  · next ha =>
      simp only at h
      split at h
      · next hout => exact .inr (.inl ⟨ha, by simpa using hout, (pure_eq_ok.mp h).symm⟩)
      · next hout =>
          obtain ⟨target, htarget, h⟩ := bind_eq_ok.mp h
          refine .inr (.inr ⟨ha, by simpa using hout, target, htarget, ?_⟩)
          split at h
          · next hname =>
              obtain ⟨b, hb, h⟩ := bind_eq_ok.mp h
              refine .inl ⟨hname, b, hb, ?_⟩
              cases b <;> exact (pure_eq_ok.mp h).symm
          · next hname =>
              obtain ⟨suffixes, hs, h⟩ := bind_eq_ok.mp h
              obtain ⟨domains, hd, h⟩ := bind_eq_ok.mp h
              obtain ⟨keywords, hk, h⟩ := bind_eq_ok.mp h
              rw [fieldLines_eq_ok hs, fieldLines_eq_ok hd, fieldLines_eq_ok hk] at h
              exact .inr ⟨by simpa using hname, (pure_eq_ok.mp h).symm⟩

theorem lineOf_tail {kind tail tail' : String} {v : Json} (h : lineOf S kind v tail = lineOf S kind v tail') :
    tail = tail' := by
  have h := congrArg String.toList h
  simp only [lineOf, String.toList_append, List.append_assoc] at h
  exact String.toList_injective (List.append_cancel_left (List.append_cancel_left
    (List.append_cancel_left (List.append_cancel_left h))))

/-- The listener of an inbound has its name, and the line of its name for its policy. -/
theorem listenerOf_cases {inbound : Json} {o : Option (Json × String)}
    (h : listenerOf S tags route inbound = .ok o) :
    (o = none ∧ ¬ (attr inbound "type" = .ok (.str "mixed") ∧ (inbound.getD "listen_port" .null).truthy = true)) ∨
      ∃ rules pin policy l, attr inbound "type" = .ok (.str "mixed") ∧
        (inbound.getD "listen_port" .null).truthy = true ∧ routeRules route = .ok rules ∧
        pinOf (listenerName inbound) rules = .ok pin ∧
        policyOf S tags (if pin.truthy then pin else route.getD "final" .null) = .ok policy ∧ o = some l ∧
        l.1.get? "name" = some (listenerName inbound) ∧ l.2 = lineOf S "IN-NAME" (listenerName inbound) policy := by
  obtain ⟨typ, htyp, h⟩ := bind_eq_ok.mp h
  simp only at h
  split at h
  · next hoff =>
      refine .inl ⟨(pure_eq_ok.mp h).symm, ?_⟩
      rintro ⟨hmixed, hport⟩
      rw [htyp, Except.ok.injEq] at hmixed
      simp [hmixed, hport] at hoff
  · next hon =>
      simp only [Bool.or_eq_true, decide_eq_true_eq, Bool.not_eq_true', not_or, not_not,
        Bool.not_eq_false] at hon
      obtain ⟨rules, hrules, h⟩ := bind_eq_ok.mp h
      obtain ⟨pin, hpin, h⟩ := bind_eq_ok.mp h
      obtain ⟨policy, hpolicy, h⟩ := bind_eq_ok.mp h
      exact .inr ⟨rules, pin, policy, _, hon.1 ▸ htyp, hon.2, hrules, hpin, hpolicy, (pure_eq_ok.mp h).symm, rfl, rfl⟩

/-- A listener with the name and the line for the target is there exactly if an inbound listens so. -/
theorem listens_iff {v : Json} {target : String} (h : mixedListeners S tags route inbounds = .ok listeners) :
    (∃ l ∈ listeners, l.1.get? "name" = some v ∧ l.2 = lineOf S "IN-NAME" v target) ↔
      ListensTo S tags route inbounds v target := by
  obtain ⟨items, hitems, h⟩ := bind_eq_ok.mp h
  obtain ⟨found, hfound, h⟩ := bind_eq_ok.mp h
  rw [Json.items_eq_ok hitems] at hfound
  have hpairs := mapM_forall₂ hfound
  rw [← pure_eq_ok.mp h]
  constructor
  · rintro ⟨l, hl, hname, hline⟩
    obtain ⟨o, ho, hol⟩ := List.mem_filterMap.mp hl
    obtain ⟨inbound, hinbound, hof⟩ := exists_of_forall₂ hpairs.flip ho
    rcases listenerOf_cases hof with ⟨rfl, -⟩ | ⟨rules, pin, policy, l', hmixed, hport, hrules, hpin, hpolicy, rfl, hname', hline'⟩
    · cases hol
    · cases hol
      have hv : listenerName inbound = v := Option.some.inj (hname'.symm.trans hname)
      subst hv
      rw [lineOf_tail (hline'.symm.trans hline)] at hpolicy
      exact ⟨inbound, hinbound, hmixed, hport, rfl, rules, pin, hrules, hpin, hpolicy⟩
  · rintro ⟨inbound, hinbound, hmixed, hport, rfl, rules', pin', hrules', hpin', hpolicy'⟩
    obtain ⟨o, ho, hof⟩ := exists_of_forall₂ hpairs hinbound
    rcases listenerOf_cases hof with ⟨-, hoff⟩ | ⟨rules, pin, policy, l, -, -, hrules, hpin, hpolicy, rfl, hname, hline⟩
    · exact absurd ⟨hmixed, hport⟩ hoff
    · rw [hrules, Except.ok.injEq] at hrules'
      subst hrules'
      rw [hpin, Except.ok.injEq] at hpin'
      subst hpin'
      rw [hpolicy, Except.ok.injEq] at hpolicy'
      subst hpolicy'
      exact ⟨l, List.mem_filterMap.mpr ⟨_, ho, rfl⟩, hname, hline⟩

/-! ### Single rules -/

theorem valuesOf_falsy {value : Json} (h : value.truthy = false) : valuesOf value = [] := by
  cases value with
  | arr xs => cases xs <;> simp_all [valuesOf, truthy]
  | _ => simp [valuesOf, h]

theorem getD_of_some {key : String} {value d : Json} (h : rule.get? key = some value) : rule.getD key d = value := by
  rw [getD, h]
  rfl

theorem kindOf_inj {key key' kind : String} (h : kindOf key = some kind) (h' : kindOf key' = some kind) :
    key = key' := by
  unfold kindOf at h h'
  split at h <;> simp only [Option.some.injEq, reduceCtorEq] at h <;> subst h <;>
    split at h' <;> simp_all

/-- A line of the kind of a matcher is among those of a field exactly if it is the field of the matcher and
the value is spelled there. -/
theorem mem_kindLines {key key' kind' tail : String} {value v d : Json} (hk' : kindOf key' = some kind')
    (hvalue : rule.get? key = some value) :
    (∃ kind, kindOf key = some kind ∧
        lineOf S kind v tail ∈ (rule.getD key' d).entries.map (fun v => lineOf S kind' v tail)) ↔
      key = key' ∧ Spelled S value v := by
  constructor
  · rintro ⟨kind, hk, hmem⟩
    obtain ⟨item, hitem, hline⟩ := List.mem_map.mp hmem
    obtain ⟨rfl, hstr⟩ := (lineOf_inj (kindOf_plain hk') (kindOf_plain hk)).mp hline
    obtain rfl := kindOf_inj hk hk'
    rw [getD_of_some hvalue] at hitem
    exact ⟨rfl, item, hitem, hstr⟩
  · rintro ⟨rfl, item, hitem, hstr⟩
    refine ⟨kind', hk', List.mem_map.mpr ⟨item, by rwa [getD_of_some hvalue], ?_⟩⟩
    exact (lineOf_inj (kindOf_plain hk') (kindOf_plain hk')).mpr ⟨rfl, hstr⟩

/-- The name of a ruleset is its only match value. -/
theorem valuesOf_name {names : List String} {name : Json} {b : Bool}
    (h : name.within (ε := RenderError) names = .ok b) (ht : name.truthy = true) : valuesOf name = [name] := by
  cases name with
  | arr xs => simp [within] at h
  | _ => simp [valuesOf, ht]

/-- The matchers of a rule are seen exactly if the rule is of a kind for which they are looked at. -/
theorem seen_iff {key target : String} {value v : Json} (h : ruleLines S tags available rule = .ok part)
    (hl : mixedListeners S tags route inbounds = .ok listeners) (hkey : key ∉ ["action", "outbound"])
    (hvalue : rule.get? key = some value) (hv : v ∈ valuesOf value) (ht : ruleTarget S tags rule = .ok target) :
    Seen S listeners rule part target key v ↔
      LookedAt S rule key value v ∨ (key = "inbound" ∧ ListensTo S tags route inbounds v target) := by
  rw [Seen, listens_iff hl, ← or_assoc, ← or_assoc]
  refine or_congr_left ?_
  -- a rule that rejects, a rule without an outbound, and one whose outbound is mapped
  rcases ruleLines_cases h with ⟨ha, rfl⟩ | ⟨ha, hout, rfl⟩ | ⟨ha, hout, out, hmap, hcase⟩
  · have htarget : target = "REJECT" := by
      rw [ruleTarget, if_pos ha] at ht
      exact (pure_eq_ok.mp ht).symm
    have htail : lineTail rule target = "REJECT,no-resolve" := by
      rw [lineTail, if_pos ha, htarget]
      rfl
    rw [LookedAt, if_pos ha, htail, mem_kindLines (show kindOf "ip_cidr" = _ from rfl) hvalue]
    simp
  · rw [LookedAt, if_neg ha, if_pos hout]
    simp
  · have htarget : target = S.str out := by
      rw [ruleTarget, if_neg ha, hmap] at ht
      exact (pure_eq_ok.mp ht).symm
    rw [LookedAt, if_neg ha, if_neg (by simp [hout]), lineTail, if_neg ha, htarget]
    rcases hcase with ⟨hname, b, hb, rfl⟩ | ⟨hname, rfl⟩
    · rw [if_pos hname]
      have hv' : key = "rule_set" → v = rule.getD "rule_set" .null := by
        rintro rfl
        rw [getD_of_some hvalue] at hb hname ⊢
        rw [valuesOf_name hb hname] at hv
        exact List.mem_singleton.mp hv
      cases b with
      | true =>
          simp only [if_true, List.not_mem_nil, and_false, or_false, false_or, List.mem_singleton]
          constructor
          · rintro ⟨kind, hk, hline⟩
            obtain ⟨rfl, -⟩ := (lineOf_inj (kindOf_plain hk) (by decide)).mp hline
            exact kindOf_inj hk rfl
          · intro he
            exact ⟨"RULE-SET", by rw [he]; rfl, by rw [hv' he]⟩
      | false =>
          simp only [Bool.false_eq_true, if_false, List.not_mem_nil, and_false, exists_false, or_false,
            List.mem_singleton]
          constructor
          · rintro (hrule | ⟨he, -⟩)
            · -- a rule that is nothing but the entry has no other matcher
              rw [hrule] at hvalue
              have hkeys := Dict.mem_keys_of_get? (show Dict.get? _ key = some value from hvalue)
              simp only [Dict.keys_cons, Dict.keys_nil, List.mem_cons, List.not_mem_nil, or_false] at hkeys hkey
              tauto
            · exact he
          · intro he
            exact .inr ⟨he, by rw [hv' he]⟩
    · rw [if_neg (by simp [hname])]
      simp only [List.not_mem_nil, and_false, or_false, false_or, List.mem_append, and_or_left, exists_or]
      rw [mem_kindLines (show kindOf "domain_suffix" = _ from rfl) hvalue,
        mem_kindLines (show kindOf "domain" = _ from rfl) hvalue,
        mem_kindLines (show kindOf "domain_keyword" = _ from rfl) hvalue]
      simp only [List.mem_cons, List.not_mem_nil, or_false]
      tauto

/-- A rule whose target cannot be told has no outbound, so that it is dropped. -/
theorem target_or_dropped (h : ruleLines S tags available rule = .ok part) :
    (∃ target, ruleTarget S tags rule = .ok target) ∨
      ∀ key value v, LookedAt S rule key value v := by
  rcases ruleLines_cases h with ⟨ha, -⟩ | ⟨ha, hout, -⟩ | ⟨ha, -, out, hmap, -⟩
  · refine .inl ⟨"REJECT", ?_⟩
    rw [ruleTarget, if_pos ha]
    rfl
  · refine .inr fun key value v => ?_
    rw [LookedAt, if_neg ha, if_pos hout]
    trivial
  · refine .inl ⟨S.str out, ?_⟩
    rw [ruleTarget, if_neg ha, hmap]
    rfl

theorem accountsFor_iff (h : ruleLines S tags available rule = .ok part)
    (hl : mixedListeners S tags route inbounds = .ok listeners) :
    AccountsFor S tags listeners rule part ↔ Renders S tags route inbounds rule := by
  constructor
  · intro hall key value hkey hvalue v hv
    rcases target_or_dropped h with ⟨target, ht⟩ | hlooked
    · refine ((seen_iff h hl hkey hvalue hv ht).mp (hall key value hkey hvalue v hv target ht)).imp_right ?_
      rintro ⟨hinbound, hlistens⟩
      refine ⟨hinbound, fun target' ht' => ?_⟩
      rw [ht, Except.ok.injEq] at ht'
      rwa [← ht']
    · exact .inl (hlooked key value v)
  · intro hall key value hkey hvalue v hv target ht
    exact (seen_iff h hl hkey hvalue hv ht).mpr
      ((hall key value hkey hvalue v hv).imp_right (And.imp_right fun hlistens => hlistens target ht))

/-! ### The configuration -/

/-- The rules of the document. -/
def routeOf (m : Json) : Json := m.getD "route" .null

/-- The lines of the rules stand in the configuration in the order of the rules, next to those of the
listeners; what was dropped is reported; and every match value of a rule is seen. -/
def Accounted (S : Site) (kw : Keywords) (m : Json) (rendering : Rendering) : Prop :=
  ∃ providers rules parts listeners lines, importedProviders .rule "rule-providers" m = .ok providers ∧
    routeRules (routeOf m) = .ok rules ∧
    rules.mapM (ruleLines S (machineTags (outboundsOf m)) (providers.keys ++ kw.rulesets.keys)) = .ok parts ∧
    mixedListeners S (machineTags (outboundsOf m)) (routeOf m) (m.getD "inbounds" (.arr [])) = .ok listeners ∧
    rendering.config.get? "rules" = some (.arr (lines.map Json.str)) ∧
    (parts.map Prod.fst).flatten.Sublist lines ∧ (∀ l ∈ listeners, l.2 ∈ lines) ∧
    rendering.dropped = (parts.map Prod.snd).flatten ∧
    List.Forall₂ (AccountsFor S (machineTags (outboundsOf m)) listeners) rules parts

theorem sublist_inserted (lines rules : List String) : rules.Sublist (inserted lines rules) := by
  unfold inserted
  nth_rewrite 1 [← List.takeWhile_append_dropWhile (p := isAntiLoop) (l := rules)]
  rw [List.append_assoc]
  exact List.Sublist.append (List.Sublist.refl _) (List.sublist_append_right _ _)

theorem get?_rules (kw : Keywords) (plane : DataPlane) (advanced : Json) (proxies groups listeners : List Json)
    (proxyProviders ruleProviders : Dict String Json) (rules : List String) :
    (configOf kw plane advanced proxies groups listeners proxyProviders ruleProviders rules).get? "rules" =
      some (.arr (rules.map Json.str)) := by
  have htop : Dict.get? (runtimeTopAdvanced advanced) "rules" = none := by
    refine Dict.get?_eq_none_iff.mpr fun hmem => ?_
    obtain ⟨f, hf, hname⟩ := List.mem_map.mp hmem
    have hallowed := (List.mem_filter.mp hf).2
    rw [hname] at hallowed
    exact absurd hallowed (by simp [topRuntimeFields])
  have hoptional : ∀ key value, key ≠ "rules" → Dict.get? (optional key value) "rules" = none := by
    intro key value hne
    unfold optional
    split <;> simp [Dict.get?, hne]
  simp only [configOf, Json.get?, Dict.get?_append]
  rw [Dict.get?_update_of_not_mem (by simp), htop, hoptional "secret" _ (by simp),
    hoptional "external-ui" _ (by simp), hoptional "external-ui-url" _ (by simp)]
  have hproxy : ∀ (b : Prop) [Decidable b] (key : String) (value : Json), key ≠ "rules" →
      Dict.get? (if b then [] else [(key, value)]) "rules" = none := by
    intro b _ key value hne
    split <;> simp [Dict.get?, hne]
  rw [hproxy _ "listeners" _ (by simp), hproxy _ "proxy-providers" _ (by simp),
    hproxy _ "rule-providers" _ (by simp)]
  cases plane.tproxy <;> simp [Dict.get?]

/-- A document is rendered without silent loss exactly if every match value of its rules is looked at for the
kind of its rule, or is an inbound that listens for the target of the rule. -/
theorem accounted_iff {kw : Keywords} {sb m : Json} {rendering : Rendering} (hm : migrate S.host.unicode sb = .ok m)
    (h : singboxToMihomo S kw sb = .ok rendering) :
    Accounted S kw m rendering ↔ ∀ rules, routeRules (routeOf m) = .ok rules → ∀ rule ∈ rules,
      Renders S (machineTags (outboundsOf m)) (routeOf m) (m.getD "inbounds" (.arr [])) rule := by
  rw [singboxToMihomo, hm] at h
  have h : renderMigrated S kw m = .ok rendering := h
  obtain ⟨proxyProviders, -, h⟩ := bind_eq_ok.mp h
  obtain ⟨providers, hproviders, h⟩ := bind_eq_ok.mp h
  obtain ⟨whole, hwhole, h⟩ := bind_eq_ok.mp h
  obtain ⟨plane, -, h⟩ := bind_eq_ok.mp h
  obtain ⟨generated, -, h⟩ := bind_eq_ok.mp h
  obtain ⟨rendered, -, hwhole⟩ := bind_eq_ok.mp hwhole
  obtain ⟨groups, -, hwhole⟩ := bind_eq_ok.mp hwhole
  obtain ⟨⟨lines, dropped⟩, hlines, hwhole⟩ := bind_eq_ok.mp hwhole
  obtain ⟨listeners, hlisteners, hwhole⟩ := bind_eq_ok.mp hwhole
  obtain ⟨rules, hrules, hlines⟩ := bind_eq_ok.mp hlines
  obtain ⟨parts, hparts, hlines⟩ := bind_eq_ok.mp hlines
  obtain ⟨final, -, hlines⟩ := bind_eq_ok.mp hlines
  obtain ⟨rfl, rfl⟩ := Prod.mk.inj (pure_eq_ok.mp hlines)
  rw [← pure_eq_ok.mp hwhole] at h
  rw [← pure_eq_ok.mp h]
  have hiff : List.Forall₂ (AccountsFor S (machineTags (outboundsOf m)) listeners) rules parts ↔
      ∀ rule ∈ rules, Renders S (machineTags (outboundsOf m)) (routeOf m) (m.getD "inbounds" (.arr [])) rule :=
    forall₂_iff_of (mapM_forall₂ hparts) fun rule part hpart => accountsFor_iff hpart hlisteners
  constructor
  · rintro ⟨providers', rules', parts', listeners', lines, hp', hr', hparts', hl', -, -, -, -, hall⟩ rules'' hr''
    rw [show routeRules (routeOf m) = _ from hrules, Except.ok.injEq] at hr' hr''
    subst hr'
    subst hr''
    rw [hproviders, Except.ok.injEq] at hp'
    subst hp'
    rw [show mixedListeners S _ (routeOf m) _ = _ from hlisteners, Except.ok.injEq] at hl'
    subst hl'
    rw [hparts, Except.ok.injEq] at hparts'
    subst hparts'
    exact hiff.mp hall
  · intro hall
    refine ⟨providers, rules, parts, listeners, _, hproviders, hrules, hparts, hlisteners, get?_rules .., ?_, ?_, rfl,
      hiff.mpr (hall rules hrules)⟩
    · exact (List.sublist_append_left _ _).trans (sublist_inserted _ _)
    · intro l hl
      have hmem : l.2 ∈ listeners.map Prod.snd := List.mem_map_of_mem hl
      simp [inserted, hmem]

/-- A document whose only outbound is the direct one. -/
def ruleDocument (rule : Json) : Json :=
  .obj [
    ("outbounds", .arr [.obj [("type", .str "direct"), ("tag", .str "JP")]]),
    ("route", .obj [("rules", .arr [rule]), ("final", .str "JP")]),
    ("_pdg", metaJson (.arr []) ⟨[], [], [], []⟩)]

/-- A rule for domains. -/
def domainRule : Json := .obj [("domain_suffix", .arr [.str "a.com"]), ("outbound", .str "JP")]

/-- A rule that sends addresses to an outbound. -/
def addressRule : Json := .obj [("ip_cidr", .arr [.str "192.0.2.0/24"]), ("outbound", .str "JP")]

theorem exists_rendering {sb : Json}
    (h : Rendering.dropped <$> singboxToMihomo plainSite {} sb = .ok []) :
    ∃ rendering, singboxToMihomo plainSite {} sb = .ok rendering ∧ rendering.dropped = [] := by
  cases hr : singboxToMihomo plainSite {} sb with
  | error e =>
      rw [hr] at h
      cases h
  | ok rendering =>
      rw [hr] at h
      exact ⟨rendering, rfl, Except.ok.inj h⟩

/-- A rule for domains is accounted for. -/
theorem accounted_domains : ∃ rendering, singboxToMihomo plainSite {} (ruleDocument domainRule) = .ok rendering ∧
    Accounted plainSite {} (ruleDocument domainRule) rendering := by
  have hm : migrate plainSite.host.unicode (ruleDocument domainRule) = .ok (ruleDocument domainRule) := by
    decide +kernel
  obtain ⟨rendering, hr, -⟩ := exists_rendering (show Rendering.dropped <$> singboxToMihomo plainSite {} (ruleDocument domainRule) = .ok [] by decide +kernel)
  refine ⟨rendering, hr, (accounted_iff hm hr).mpr fun rules hrules rule hrule => ?_⟩
  cases hrules
  rw [List.mem_singleton.mp hrule]
  intro key value hkey hvalue v hv
  have hkeys := Dict.mem_keys_of_get? (show Dict.get? _ key = some value from hvalue)
  simp only [Dict.keys_cons, Dict.keys_nil, List.mem_cons, List.not_mem_nil, or_false] at hkeys hkey
  obtain rfl : key = "domain_suffix" := by tauto
  cases hvalue
  exact .inl ⟨by simp, v, hv, rfl⟩

/-- The addresses of a rule with an outbound leave no line, and the rule is not among the dropped. -/
theorem addresses_lost : ∃ rendering,
    migrate plainSite.host.unicode (ruleDocument addressRule) = .ok (ruleDocument addressRule) ∧
    singboxToMihomo plainSite {} (ruleDocument addressRule) = .ok rendering ∧ rendering.dropped = [] ∧
    ¬ Accounted plainSite {} (ruleDocument addressRule) rendering := by
  obtain ⟨rendering, hr, hdropped⟩ := exists_rendering (show Rendering.dropped <$> singboxToMihomo plainSite {} (ruleDocument addressRule) = .ok [] by decide +kernel)
  refine ⟨rendering, by decide +kernel, hr, hdropped, ?_⟩
  rintro ⟨providers, rules, parts, listeners, lines, -, hrules, hparts, hlisteners, -, -, -, -, hall⟩
  cases hrules
  cases hall with
  | cons hfirst hrest =>
      cases hrest
      have hpart := mapM_forall₂ hparts
      cases hpart with
      | cons hpart _ =>
          have hlooked := (accountsFor_iff hpart hlisteners).mp hfirst "ip_cidr" _ (by simp) rfl (.str "192.0.2.0/24")
            (by simp [valuesOf])
          rcases hlooked with hlooked | ⟨hinbound, -⟩
          · exact absurd hlooked.1 (by simp)
          · exact absurd hinbound (by simp)

end ProxyGateway.Render
