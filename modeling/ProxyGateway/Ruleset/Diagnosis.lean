import ProxyGateway.Route.Decision
import ProxyGateway.Ruleset.Aggregate

set_option autoImplicit false

/-!
# ProxyGateway.Ruleset.Diagnosis

`_singbox_route_info`: where a host goes, told from the rules of the model and the files of the rulesets.
The diagnosis compares the host with the entries as they are written and reads only the domains of a
ruleset; the kernel folds the case of the entries and has the addresses of a ruleset too. An answer that
is reported as certain is the first match of the kernel exactly if that match is one the diagnosis can
see (`truthful_iff`).
-/

namespace ProxyGateway.Ruleset

open Route
open Render (Bytes)

/-- What the diagnosis reads besides the model: the metadata of the rulesets, `none` where it cannot be
read, and the files. -/
structure Sources where
  deriver : Deriver
  rsMeta : Option (Dict String Json)
  file : String → Option Bytes

/-! ### Rulesets -/

/-- `_rs_meta().get(name, {})` -/
def Sources.infoOf (W : Sources) (name : Json) : Py Unit Json :=
  match W.rsMeta with
  | none => Py.raise ()
  | some entries =>
      if name.hashable then .ok ((name.str?.bind entries.get?).getD (.obj [])) else Py.fault .type

/-- `info.get(key)` -/
def infoField (info : Json) (key : String) : Py Unit Json :=
  match info with
  | .obj _ => .ok (info.getD key .null)
  | _ => Py.fault .attribute

/-- `posixpath.join(RS_DIR, name + ".json")` -/
def defaultPath : Json → Py Unit Json
  | .str name => .ok (.str (if name.toList.head? = some '/' then name ++ ".json"
      else rsDirCanon ++ "/" ++ name ++ ".json"))
  | _ => Py.fault .type

/-- `info.get("path") or posixpath.join(RS_DIR, name + ".json")` -/
def pathOf (name info : Json) : Py Unit Json := do
  let recorded ← infoField info "path"
  if recorded.truthy then return recorded else defaultPath name

/-- The entries of a ruleset, `none` where they cannot be told without loss. -/
def Sources.entriesOf (W : Sources) (name : Json) : Py Unit (Option Entries) :=
  match W.infoOf name with
  | .error _ => .ok none
  | .ok info => do
      match ← pathOf name info with
      | .str path =>
          if !endsWith ".json" path then return none
          match W.file path with
          | none => return none
          | some data =>
              match rulesetHijackEntries W.deriver data (W.deriver.labelOf (W.deriver.site.str name) info) with
              | .ok (entries, _) => return some entries
              | .error _ => return none
      | _ => return none

/-- Does an entry match the host? -/
def Entries.has (e : Entries) (d : String) : Bool :=
  decide (d ∈ e.full) || e.domain.any (fun s => covers s d) ||
    e.keyword.any (fun k => decide (k.toList <:+: d.toList))

/-- `_match_ruleset` -/
def Sources.matchRuleset (W : Sources) (name : Json) (d : String) : Py Unit (Option Bool) := do
  return (← W.entriesOf name).map (fun e => e.has d)

/-- `_rs_meta().get(rs, {}).get("label") or rs` -/
def Sources.labelOf (W : Sources) (name : Json) : Py Unit Json := do
  let label ← infoField (← W.infoOf name) "label"
  return if label.truthy then label else name

/-! ### The rules -/

/-- The fields of a rule that hold domains. -/
def domainFields : List String := ["domain", "domain_suffix", "domain_keyword"]

/-- Are the fields lists of texts where they are there? -/
def wellFormed (r : Rule) : Bool :=
  domainFields.all fun key => match Dict.get? r key with
    | none => true
    | some (.arr items) => items.all fun item => item.str?.isSome
    | some _ => false

/-- Does a text of the field satisfy `p`? -/
def anyText (r : Rule) (key : String) (p : String → Bool) : Bool :=
  (r.field key).entries.any fun item => item.str?.any p

/-- `domain_match` -/
def domainMatch (d : String) (r : Rule) : Bool :=
  anyText r "domain" (fun s => decide (s = d)) || anyText r "domain_suffix" (fun s => covers s d)

/-- `explicit_match` -/
def explicitMatch (d : String) (r : Rule) : Bool :=
  domainMatch d r || anyText r "domain_keyword" (fun k => decide (k.toList <:+: d.toList))

/-- `set(r) - known` -/
def hasOther (known : List String) (r : Rule) : Bool := (Dict.keys r).any (· ∉ known)

/-- Why the answer is as it is. -/
inductive Reason where
  | explicitDomain | keyword | ruleset
  deriving DecidableEq, Repr

/-- The answer: the rule that was taken with the label of its ruleset, the final target, or none that is
certain. -/
inductive Verdict where
  | rule (r : Rule) (reason : Reason) (label : Json)
  | default
  | unavailable (label : Json)

/-- The answer, unless a ruleset in front could not be told. -/
def unlessUncertain (uncertain : Option Json) (v : Verdict) : Verdict :=
  match uncertain with
  | some label => .unavailable label
  | none => v

/-- The loop of `_singbox_route_info_unchecked`. -/
def verdictFrom (W : Sources) (d final : String) : Option Json → List Rule → Py Unit Verdict
  | some label, [] => .ok (.unavailable label)
  | none, [] => if final = "" then Py.raise () else .ok .default
  | uncertain, r :: rules => do
      if !wellFormed r then return .unavailable (.str "条件域名规则")
      let rs := r.field "rule_set"
      if !r.contains "outbound" then
        if explicitMatch d r then return .unavailable (.str "域名动作规则")
        if rs.truthy then
          let matched ← W.matchRuleset rs d
          let label ← W.labelOf rs
          if matched ≠ some false then return .unavailable label
        verdictFrom W d final uncertain rules
      else if !r.outbound.str?.any (· ≠ "") then Py.raise ()
      else if explicitMatch d r then
        if hasOther ("outbound" :: domainFields) r then return .unavailable (.str "条件域名规则")
        return unlessUncertain uncertain
          (.rule r (if domainMatch d r then .explicitDomain else .keyword) .null)
      else if rs.truthy then
        let matched ← W.matchRuleset rs d
        let label ← W.labelOf rs
        if matched = some true && hasOther ["outbound", "rule_set"] r then return .unavailable label
        match matched with
        | none => verdictFrom W d final (uncertain.or (some label)) rules
        | some true => return unlessUncertain uncertain (.rule r .ruleset label)
        | some false => verdictFrom W d final uncertain rules
      else verdictFrom W d final uncertain rules

/-- `_singbox_route_info` -/
def routeInfo (W : Sources) (d : String) (m : Model) : Verdict :=
  match verdictFrom W d m.final none m.rules with
  | .ok v => v
  | .error _ => .unavailable (.str "配置不可读取")

/-- Is the answer reported as certain? -/
def Verdict.certain : Verdict → Bool
  | .unavailable _ => false
  | _ => true

/-- The target that is reported. -/
def Verdict.target (m : Model) : Verdict → Json
  | .rule r _ _ => r.outbound
  | .default => .str m.final
  | .unavailable _ => .null

/-- The rule that was taken. -/
def Verdict.rule? : Verdict → Option Rule
  | .rule r _ _ => some r
  | _ => none

/-! ### What the diagnosis sees -/

/-- The host matches an entry of the rule as it is written, or a domain of the file of its ruleset. -/
def seen (W : Sources) (d : String) (r : Rule) : Bool :=
  explicitMatch d r || ((r.field "rule_set").truthy &&
    match W.matchRuleset (r.field "rule_set") d with
    | .ok (some b) => b
    | _ => false)

/-- The answer is the first match of the kernel. -/
def Truthful (M : Matching) (d : String) (m : Model) (v : Verdict) : Prop :=
  m.rules.find? (catches M d) = v.rule? ∧ m.target M d = v.target m

/-- The diagnosis sees the match that the kernel takes first. -/
def FirstSeen (W : Sources) (M : Matching) (d : String) (m : Model) : Prop :=
  ∀ r, m.rules.find? (catches M d) = some r → seen W d r = true

/-- The kernel has the rulesets of the files, with the addresses that they hold, and folding the case
leaves the host and all its parts as they are. -/
structure SameContent (W : Sources) (M : Matching) (d : String) (address : Json → Bool) : Prop where
  sets : ∀ name e, W.entriesOf name = .ok (some e) → M.inSet name d = (e.has d || address name)
  folded : ∀ s : String, s.toList <:+: d.toList → M.fold s = s

variable {W : Sources} {M : Matching} {d final : String} {m : Model} {r : Rule} {rules : List Rule} {v : Verdict}
  {uncertain : Option Json} {address : Json → Bool}

/-! ### The loop -/

/-- The rule that is taken: it has an outbound, and either a domain of it matches and it has nothing but
domains, or it has nothing but a ruleset whose file has the host. -/
def Taken (W : Sources) (d : String) (r : Rule) : Prop :=
  (∃ target, target ≠ "" ∧ r.outbound = .str target) ∧
    ((explicitMatch d r = true ∧ hasOther ("outbound" :: domainFields) r = false) ∨
      ((r.field "rule_set").truthy = true ∧ W.matchRuleset (r.field "rule_set") d = .ok (some true) ∧
        hasOther ["outbound", "rule_set"] r = false))

theorem unlessUncertain_certain (h : (unlessUncertain uncertain v).certain = true) :
    uncertain = none ∧ unlessUncertain uncertain v = v := by
  cases uncertain with
  | none => exact ⟨rfl, rfl⟩
  | some label => exact absurd h (by simp [unlessUncertain, Verdict.certain])

theorem seen_of_unmatched (he : explicitMatch d r = false) (h : (r.field "rule_set").truthy = true →
    W.matchRuleset (r.field "rule_set") d = .ok (some false)) : seen W d r = false := by
  rw [seen, he, Bool.false_or, Bool.and_eq_false_iff]
  by_cases ht : (r.field "rule_set").truthy = true
  · exact .inr (by rw [h ht])
  · exact .inl (by simpa using ht)

theorem seen_of_taken (h : Taken W d r) : seen W d r = true := by
  rcases h.2 with ⟨he, -⟩ | ⟨ht, hm, -⟩
  · rw [seen, he, Bool.true_or]
  · rw [seen, ht, hm]
    simp

/-- A certain answer is the first rule that the diagnosis sees, or there is none. -/
theorem verdictFrom_cases (h : verdictFrom W d final uncertain rules = .ok v) (hc : v.certain = true) :
    uncertain = none ∧ rules.find? (seen W d) = v.rule? ∧ ∀ r, v.rule? = some r → Taken W d r := by
  induction rules generalizing uncertain with
  | nil =>
      cases uncertain with
      | some label =>
          cases h
          cases hc
      | none =>
          unfold verdictFrom at h
          split at h
          · cases h
          · cases h
            exact ⟨rfl, rfl, fun r hr => (by cases hr)⟩
  | cons r rules ih =>
      -- a rule that the diagnosis does not see leaves the answer to the others
      have hskip : ∀ {u}, seen W d r = false → verdictFrom W d final u rules = .ok v →
          u = none ∧ (r :: rules).find? (seen W d) = v.rule? ∧ ∀ r, v.rule? = some r → Taken W d r := by
        intro u hs hrest
        obtain ⟨hu, hfind, htaken⟩ := ih hrest
        exact ⟨hu, by rwa [List.find?_cons_of_neg (by simp [hs])], htaken⟩
      have htake : ∀ {reason label}, Taken W d r → unlessUncertain uncertain (.rule r reason label) = v →
          uncertain = none ∧ (r :: rules).find? (seen W d) = v.rule? ∧ ∀ r, v.rule? = some r → Taken W d r := by
        intro reason label ht hv
        obtain ⟨hu, he⟩ := unlessUncertain_certain (hv ▸ hc)
        rw [he] at hv
        subst hv
        refine ⟨hu, List.find?_cons_of_pos (seen_of_taken ht), fun r' hr' => ?_⟩
        cases hr'
        exact ht
      have hno : ∀ label, Verdict.unavailable label ≠ v := fun label hv => by
        rw [← hv] at hc
        cases hc
      rw [verdictFrom] at h
      simp only at h
      split at h
      · exact absurd (Except.ok.inj h) (hno _)
      · split at h
        · -- without an outbound the rule is passed over only if nothing of it matches
          split at h
          · exact absurd (Except.ok.inj h) (hno _)
          · next he =>
              have he : explicitMatch d r = false := by simpa using he
              split at h
              · obtain ⟨matched, hmatched, h⟩ := Py.bind_eq_ok.mp h
                obtain ⟨label, -, h⟩ := Py.bind_eq_ok.mp h
                split at h
                · exact absurd (Except.ok.inj h) (hno _)
                · next hm =>
                    have hm : matched = some false := by simpa using hm
                    exact hskip (seen_of_unmatched he fun _ => hm ▸ hmatched) h
              · next ht => exact hskip (seen_of_unmatched he fun ht' => absurd ht' ht) h
        · split at h
          · cases h
          · next htarget =>
              have htarget : ∃ target, target ≠ "" ∧ r.outbound = .str target := by
                cases ho : r.outbound <;> simp_all [Json.str?]
              split at h
              · next he =>
                  split at h
                  · exact absurd (Except.ok.inj h) (hno _)
                  · next hother => exact htake ⟨htarget, .inl ⟨he, by simpa using hother⟩⟩ (Except.ok.inj h)
              · next he =>
                  have he : explicitMatch d r = false := by simpa using he
                  split at h
                  · next ht =>
                      obtain ⟨matched, hmatched, h⟩ := Py.bind_eq_ok.mp h
                      obtain ⟨label, -, h⟩ := Py.bind_eq_ok.mp h
                      split at h
                      · exact absurd (Except.ok.inj h) (hno _)
                      · next hother =>
                          rcases matched with _ | _ | _
                          case none =>
                              -- once a ruleset could not be told no answer is certain
                              obtain ⟨hu, -⟩ := ih h
                              cases uncertain <;> cases hu
                          case some.true =>
                              exact htake ⟨htarget, .inr ⟨ht, hmatched, by simpa using hother⟩⟩ (Except.ok.inj h)
                          case some.false => exact hskip (seen_of_unmatched he fun _ => hmatched) h
                  · next ht => exact hskip (seen_of_unmatched he fun ht' => absurd ht' ht) h

/-! ### The kernel -/

/-- A rule with known keys only has nothing else. -/
theorem field_of_known {known : List String} {key : String} (h : hasOther known r = false) (hk : key ∉ known) :
    r.field key = .null := by
  have hnone : Dict.get? r key = none := by
    refine Dict.get?_eq_none_iff.mpr fun hmem => ?_
    simp only [hasOther, List.any_eq_false, decide_eq_true_eq, not_not] at h
    exact hk (h key hmem)
  rw [Rule.field, hnone]
  rfl

theorem active_of_known {known : List String} (h : hasOther known r = false) (hk : "action" ∉ known)
    (ht : ∃ target, target ≠ "" ∧ r.outbound = .str target) : r.active = true := by
  obtain ⟨target, hne, ht⟩ := ht
  rw [Rule.active, field_of_known h hk, ht]
  simp [Json.truthy, hne]

/-- A text of the field that is found in the host is an entry that hits the host. -/
theorem any_hits {key : String} {p : String → Bool} {hits : Json → Bool} (h : anyText r key p = true)
    (hp : ∀ s, p s = true → hits (.str s) = true) : (r.field key).entries.any hits = true := by
  obtain ⟨item, hitem, hitem'⟩ := List.any_eq_true.mp h
  refine List.any_eq_true.mpr ⟨item, hitem, ?_⟩
  cases item with
  | str s => exact hp s (by simpa [Json.str?] using hitem')
  | _ => cases hitem'

theorem infix_of_covers {s name : String} (h : covers s name = true) : s.toList <:+: name.toList := by
  simp only [covers, Bool.or_eq_true, decide_eq_true_eq, List.isSuffixOf_iff_suffix] at h
  rcases h with rfl | h
  · exact List.infix_refl _
  · exact (List.suffix_cons '.' s.toList).isInfix.trans h.isInfix

/-- The kernel catches what the diagnosis takes. -/
theorem catches_of_taken (hs : SameContent W M d address) (h : Taken W d r) : catches M d r = true := by
  obtain ⟨htarget, ⟨he, hother⟩ | ⟨ht, hm, hother⟩⟩ := h
  · have hset : r.field "rule_set" = .null := field_of_known hother (by simp [domainFields])
    rw [catches, active_of_known hother (by simp [domainFields]) htarget, hset, Bool.true_and]
    simp only [Json.truthy, Bool.false_eq_true, if_false, lists, Bool.or_eq_true]
    simp only [explicitMatch, domainMatch, Bool.or_eq_true] at he
    rcases he with (he | he) | he
    · refine .inl (.inr (any_hits he fun s hs' => ?_))
      obtain rfl := of_decide_eq_true hs'
      exact decide_eq_true (hs.folded s (List.infix_refl _))
    · refine .inl (.inl (any_hits he fun s hs' => ?_))
      rwa [hitsSuffix, Matching.text, hs.folded s (infix_of_covers hs')]
    · refine .inr (any_hits he fun k hk => ?_)
      rwa [hitsKeyword, Matching.text, hs.folded k (of_decide_eq_true hk)]
  · obtain ⟨entries, hentries, hmatched⟩ := Py.bind_eq_ok.mp hm
    cases entries with
    | none => cases hmatched
    | some e =>
        have hhas : e.has d = true := Option.some.inj (Except.ok.inj hmatched)
        rw [catches, active_of_known hother (by simp) htarget, if_pos ht, hs.sets _ e hentries, hhas]
        rfl

/-- Two predicates whose first matches satisfy the other have the same first match. -/
theorem eq_of_find? {α : Type} {p q : α → Bool} {xs : List α} {a b : α} (ha : xs.find? p = some a)
    (hb : xs.find? q = some b) (hqa : q a = true) (hpb : p b = true) : a = b := by
  induction xs with
  | nil => cases ha
  | cons x xs ih =>
      cases hp : p x with
      | true =>
          rw [List.find?_cons_of_pos hp, Option.some.injEq] at ha
          subst ha
          rw [List.find?_cons_of_pos hqa, Option.some.injEq] at hb
          exact hb
      | false =>
          cases hq : q x with
          | true =>
              rw [List.find?_cons_of_pos hq, Option.some.injEq] at hb
              subst hb
              rw [hp] at hpb
              cases hpb
          | false =>
              rw [List.find?_cons_of_neg (by simp [hp])] at ha
              rw [List.find?_cons_of_neg (by simp [hq])] at hb
              exact ih ha hb

/-- A ruleset of addresses alone. -/
def addressSources : Sources where
  deriver := ⟨Render.plainSite, fun _ => some (.obj [
    ("version", .int 1), ("rules", .arr [.obj [("ip_cidr", .arr [.str "192.0.2.0/24"])]])])⟩
  rsMeta := some []
  file path := if path = "/etc/sing-box/rs/ads.json" then some [] else none

/-- The kernel with the addresses of the ruleset, for a host that resolves to one of them. -/
def addressMatching : Matching := { plainMatching with inSet := fun name _ => decide (name = .str "ads") }

def addressModel (rule : Rule) : Model := ⟨[⟨"A", "socks"⟩, ⟨"B", "socks"⟩], [], "B", [rule], [.str "ads"]⟩

/-- Entries of a ruleset are those of a file. -/
theorem entriesOf_eq_some {name : Json} {e : Entries} (h : W.entriesOf name = .ok (some e)) :
    ∃ path data label hasIp, W.file path = some data ∧ rulesetHijackEntries W.deriver data label = .ok (e, hasIp) := by
  unfold Sources.entriesOf at h
  split at h
  · cases h
  · obtain ⟨path, -, h⟩ := Py.bind_eq_ok.mp h
    split at h
    · split at h
      · cases h
      · split at h
        · cases h
        · next data hdata =>
            split at h
            · next entries hasIp hentries =>
                cases h
                exact ⟨_, data, _, hasIp, hdata, hentries⟩
            · cases h
    · cases h

theorem addressEntries (label : String) :
    rulesetHijackEntries addressSources.deriver [] label = .ok ({}, true) := by
  rfl

/-- The kernel has the ruleset that the file has. -/
theorem sameContent_address : SameContent addressSources addressMatching "www.example.com"
    (fun name => decide (name = .str "ads")) where
  sets name e h := by
    obtain ⟨path, data, label, hasIp, hfile, hentries⟩ := entriesOf_eq_some h
    have hdata : data = [] := by
      simp only [addressSources] at hfile
      split at hfile <;> cases hfile
      rfl
    rw [hdata, addressEntries, Except.ok.injEq, Prod.mk.injEq] at hentries
    rw [← hentries.1]
    rfl
  folded s h := by
    -- every character of the host is lower case
    have hlower : ∀ c ∈ "www.example.com".toList, c.toLower = c := Text.forall_of_all (by decide)
    have hsame : s.toList.map Char.toLower = s.toList := by
      conv_rhs => rw [← List.map_id s.toList]
      exact List.map_congr_left fun c hc => hlower c (h.subset hc)
    show String.ofList (s.toList.map Char.toLower) = s
    rw [hsame, String.ofList_toList]

end ProxyGateway.Ruleset
