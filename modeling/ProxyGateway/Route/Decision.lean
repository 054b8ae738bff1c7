import ProxyGateway.Route.Hijack

set_option autoImplicit false

/-!
# ProxyGateway.Route.Decision

Where a host goes: the first rule that catches it decides, else the final target. What a rule
catches is what the renderer makes lines of: a rule with a ruleset catches the members of the ruleset
and nothing else, a reject action catches no host, and other matchers than domains are not looked at.
-/

namespace ProxyGateway.Route

open Rule

/-- How the kernel compares a host with the entries of rules: the text of an entry that is no text,
the folding of the case, and the members of the rulesets. -/
structure Matching where
  textOf : Json → String
  fold : String → String
  inSet : Json → String → Bool

/-- The entry as it stands in a line. -/
def Matching.text (M : Matching) : Json → String
  | .str s => s
  | v => M.textOf v

/-- A kernel that folds ASCII and has no rulesets. -/
def plainMatching : Matching := ⟨fun _ => "", fun s => String.ofList (s.toList.map Char.toLower), fun _ _ => false⟩

section Matching

variable (M : Matching) (host : String)

/-- `DOMAIN-SUFFIX`. -/
def hitsSuffix (v : Json) : Bool := covers (M.fold (M.text v)) host

/-- `DOMAIN`. -/
def hitsDomain (v : Json) : Bool := decide (M.fold (M.text v) = host)

/-- `DOMAIN-KEYWORD`. -/
def hitsKeyword (v : Json) : Bool := decide ((M.fold (M.text v)).toList <:+: host.toList)

/-- Is the rule for the host by its domains? -/
def lists (r : Rule) : Bool :=
  (r.field "domain_suffix").entries.any (hitsSuffix M host) || (r.field "domain").entries.any (hitsDomain M host)

/-- Does the renderer make lines with a target of the rule? -/
def Rule.active (r : Rule) : Bool := decide (r.field "action" ≠ .str "reject") && r.outbound.truthy

/-- Does the rule catch the host? -/
def catches (r : Rule) : Bool :=
  r.active &&
    if (r.field "rule_set").truthy then M.inSet (r.field "rule_set") host
    else lists M host r || (r.field "domain_keyword").entries.any (hitsKeyword M host)

/-- The target of a host. -/
def decision (rules : List Rule) (final : Json) : Json :=
  match rules.find? (catches M host) with
  | some r => r.outbound
  | none => final

/-- The target of a host under a model. -/
def Model.target (m : Model) : Json := decision M host m.rules (.str m.final)

end Matching

variable {M : Matching} {host : String} {r r' : Rule} {rules rules' xs ys : List Rule} {final : Json}

/-! ### First matches -/

theorem decision_cons_of_catches (h : catches M host r = true) : decision M host (r :: rules) final = r.outbound := by
  simp [decision, h]

theorem decision_cons_of_not (h : catches M host r = false) :
    decision M host (r :: rules) final = decision M host rules final := by
  simp [decision, h]

/-- What the first rules catch they decide; the rest decides what they do not catch. -/
theorem decision_append : decision M host (xs ++ ys) final = decision M host xs (decision M host ys final) := by
  simp only [decision, List.find?_append]
  cases xs.find? (catches M host) <;> rfl

theorem decision_of_none (h : ∀ r ∈ rules, catches M host r = false) : decision M host rules final = final := by
  have hnone : rules.find? (catches M host) = none := List.find?_eq_none.mpr fun r hr => by simp [h r hr]
  rw [decision, hnone]

/-- Rules that catch nothing of a host may be left out. -/
theorem decision_filter {p : Rule → Bool} (h : ∀ r ∈ rules, p r = false → catches M host r = false) :
    decision M host (rules.filter p) final = decision M host rules final := by
  induction rules with
  | nil => rfl
  | cons r rules ih =>
      obtain ⟨hr, hrest⟩ := List.forall_mem_cons.mp h
      cases hp : p r with
      | true =>
          rw [List.filter_cons_of_pos hp]
          cases hc : catches M host r with
          | true => rw [decision_cons_of_catches hc, decision_cons_of_catches hc]
          | false => rw [decision_cons_of_not hc, decision_cons_of_not hc, ih hrest]
      | false =>
          rw [List.filter_cons_of_neg (by simp [hp]), decision_cons_of_not (hr hp), ih hrest]

/-- The first rule that catches the host has the index. -/
theorem find_of_findIdx {idx : Nat} (h : rules.findIdx? (catches M host) = some idx) (hr : rules[idx]? = some r) :
    rules.find? (catches M host) = some r := by
  obtain ⟨hlt, hcatches, hbefore⟩ := List.findIdx?_eq_some_iff_getElem.mp h
  rw [List.getElem?_eq_getElem hlt, Option.some.injEq] at hr
  subst hr
  exact List.find?_eq_some_iff_getElem.mpr ⟨hcatches, idx, hlt, rfl, fun j hj => by simpa using hbefore j hj⟩

theorem decision_eq_of_findIdx {idx : Nat} (h : rules.findIdx? (catches M host) = some idx)
    (hr : rules[idx]? = some r) : decision M host rules final = r.outbound := by
  rw [decision, find_of_findIdx h hr]

/-- Only these keys of a rule decide what it catches. -/
theorem catches_congr (h : ∀ key ∈ ["action", "outbound", "rule_set", "domain_suffix", "domain", "domain_keyword"],
    r'.field key = r.field key) : catches M host r' = catches M host r := by
  simp only [List.mem_cons, List.not_mem_nil, or_false, forall_eq_or_imp, forall_eq] at h
  obtain ⟨haction, houtbound, hset, hsuffix, hdomain, hkeyword⟩ := h
  simp only [catches, active, outbound, lists, haction, houtbound, hset, hsuffix, hdomain, hkeyword]

end ProxyGateway.Route
