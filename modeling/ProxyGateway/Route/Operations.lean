import ProxyGateway.Route.Rule

set_option autoImplicit false

/-!
# ProxyGateway.Route.Operations

The operations on single rules: `add_rule`, `del_rule`, `del_rules_bulk`, `reassign_rule`
(with the `set_ruleset_target` it hands ruleset rules to), `set_tg_exit` and the Web
`patch_rule`. Each maps a gateway to the one that its transaction commits, or refuses; a
fault inside a model callback is a refusal too, since `tx_apply` then commits nothing.
-/

namespace ProxyGateway.Route

/-- Why an operation changes nothing. -/
inductive Refusal where
  | badDomain | badTarget | unknownExit | nothingSelected | notFound | ruleChanged
  | ruleDisappeared | badMetadata | unknownRuleset | notExpandable | undeletable | noFallback
  | fallbackChanged | badImport
  deriving DecidableEq, Repr

/-- What the operations take from outside: the case mapping of texts, the name rules of
`pdgmodel`, and what `_managed_rulesets` makes of the metadata. -/
structure Host where
  lower : String → String
  validName : String → Bool
  normalizeName : String → Option String
  managedRulesets : Dict String Json → Option (Dict String String)

/-! ### Texts and domain files -/

/-- `domain.strip()`. -/
def strip (s : String) : String := String.ofList (Text.strip s.toList)

/-- `domain.strip().lstrip(".").lower()`. -/
def canonicalDomain (H : Host) (domain : String) : String :=
  H.lower (String.ofList ((strip domain).toList.dropWhile (· = '.')))

def isLowerAlnum (c : Char) : Bool := ('a' ≤ c && c ≤ 'z') || ('0' ≤ c && c ≤ '9')

/-- `^[a-z0-9.-]+$`. -/
def looseDomain (s : String) : Bool :=
  s != "" && s.toList.all (fun c => isLowerAlnum c || c = '.' || c = '-')

/-- A label of `_DOMAIN_RE`. -/
def domainLabel (cs : List Char) : Bool :=
  decide (1 ≤ cs.length ∧ cs.length ≤ 63) && cs.all (fun c => isLowerAlnum c || c = '-') &&
    cs.head? != some '-' && cs.getLast? != some '-'

/-- `_DOMAIN_RE`: labels separated by dots, the last one starting with a letter. -/
def domainRe (s : String) : Bool :=
  let labels := Text.splitAt '.' s.toList
  decide (s.length ≤ 253) && decide (2 ≤ labels.length) && labels.all domainLabel &&
    ((labels.getLast?.bind List.head?).any (fun c => 'a' ≤ c && c ≤ 'z'))

/-- The entries that `_direct_text` and `_hijack_text` write: `sorted(set(domains))`. -/
def domainText (domains : List String) : List String :=
  domains.dedup.insertionSort (· ≤ ·)

@[simp] theorem mem_domainText {d : String} {ds : List String} : d ∈ domainText ds ↔ d ∈ ds := by
  simp [domainText]

/-! ### Rule lists -/

/-- Put a rule first, behind a leading reject rule. -/
def insertFirst (r : Rule) : List Rule → List Rule
  | [] => [r]
  | x :: rules => if x.field "action" = .str "reject" then x :: r :: rules else r :: x :: rules

/-- The clean-up after a deletion. -/
def cleanUp (rules : List Rule) : List Rule := rules.filter Rule.keeps

/-- `domain in r.get("domain_suffix", [])`, and the same for `domain`. -/
def mentions (domain : String) (r : Rule) : Py Refusal Bool := do
  if ← (r.listed "domain_suffix").has domain then return true
  (r.listed "domain").has domain

/-- Does a rule name the domain? -/
def mentionedIn (domain : String) : List Rule → Py Refusal Bool
  | [] => return false
  | r :: rules => do
      if ← mentions domain r then return true
      mentionedIn domain rules

/-- `r[k] = [d for d in r[k] if d != domain]`. -/
def dropFrom (domain : String) (r : Rule) (key : String) : Py Refusal Rule := do
  let ds ← (r.field key).items
  return r.set key (.arr (ds.filter (fun d => d ≠ .str domain)))

/-! ### `add_rule` -/

/-- `add_rule` uses the first such rule. -/
def takesDomain (target : String) (r : Rule) : Bool :=
  decide (r.outbound = .str target) && !r.contains "rule_set"

/-- `r.setdefault("domain_suffix", [])`, then the domain at its end. -/
def addSuffix (domain : String) (r : Rule) : Py Refusal Rule := do
  let held := r.listed "domain_suffix"
  let r := if r.contains "domain_suffix" then r else r.set "domain_suffix" held
  if ← held.has domain then return r
  return r.set "domain_suffix" (← held.append domain)

/-- The first rule for the target takes the domain; `none` when there is no such rule. -/
def addToRule (domain target : String) : List Rule → Py Refusal (Option (List Rule))
  | [] => return none
  | r :: rules => do
      if takesDomain target r then return some ((← addSuffix domain r) :: rules)
      return (← addToRule domain target rules).map (r :: ·)

/-- The model callback of `add_rule`. -/
def addDomain (domain target : String) (rules : List Rule) : Py Refusal (List Rule) := do
  match ← addToRule domain target rules with
  | some rules' => return rules'
  | none =>
      return insertFirst [("domain_suffix", .arr [.str domain]), ("outbound", .str target)] rules

/-- `add_rule`. -/
def addRule (H : Host) (domain target : String) (g : Gateway) : Py Refusal Gateway := do
  let domain := canonicalDomain H domain
  if !looseDomain domain then Py.raise .badDomain
  if target = "direct" ∨ target = "直连" then
    return { g with
      direct := domainText (g.direct ++ [domain])
      hijack := domainText (g.hijack.filter (· ≠ domain)) }
  if target ∉ g.model.exitTags then Py.raise .unknownExit
  let rules ← addDomain domain target g.model.rules
  return { g with
    model := { g.model with rules := rules }
    hijack := domainText (g.hijack ++ [domain]) }

/-! ### `del_rule` and `del_rules_bulk` -/

/-- `if domain in r.get(k, [])`, drop it from there. -/
def strikeKey (domain : String) (r : Rule) (key : String) : Py Refusal Rule := do
  if ← (r.listed key).has domain then dropFrom domain r key
  else return r

/-- Strike a domain from one rule. -/
def strike (domain : String) (r : Rule) : Py Refusal Rule := do
  let r ← strikeKey domain r "domain_suffix"
  strikeKey domain r "domain"

/-- The model callback of `del_rule`. -/
def strikeAll (domain : String) (rules : List Rule) : Py Refusal (List Rule) := do
  return cleanUp (← rules.mapM (strike domain))

/-- `del_rule`. -/
def delRule (H : Host) (domain : String) (g : Gateway) : Py Refusal Gateway := do
  let domain := canonicalDomain H domain
  let files : Gateway := { g with
    direct := domainText (g.direct.filter (· ≠ domain))
    hijack := domainText (g.hijack.filter (· ≠ domain)) }
  if ← mentionedIn domain g.model.rules then
    let rules ← strikeAll domain g.model.rules
    return { files with model := { g.model with rules := rules } }
  if domain ∈ g.direct ∨ domain ∈ g.hijack then return files
  Py.raise .notFound

/-- `if r.get(k): r[k] = [d for d in r[k] if d not in domains]`. -/
def strikeKeySet (domains : List String) (r : Rule) (key : String) : Py Refusal Rule := do
  if (r.field key).truthy then
    let ds ← (r.field key).items
    let marks ← ds.mapM (Json.within domains)
    return r.set key (.arr (((ds.zip marks).filter (fun p => !p.2)).map Prod.fst))
  else return r

/-- Strike a set of domains from one rule. -/
def strikeSet (domains : List String) (r : Rule) : Py Refusal Rule := do
  let r ← strikeKeySet domains r "domain_suffix"
  strikeKeySet domains r "domain"

/-- The domains that `del_rules_bulk` works on. -/
def selected (H : Host) (domains : List String) : List String :=
  (domains.filter (fun d => strip d ≠ "")).map (fun d => H.lower (strip d))

/-- `del_rules_bulk`. -/
def delRulesBulk (H : Host) (domains : List String) (g : Gateway) : Py Refusal Gateway := do
  let domains := selected H domains
  if domains = [] then Py.raise .nothingSelected
  let rules ← g.model.rules.mapM (strikeSet domains)
  return { g with
    model := { g.model with rules := cleanUp rules }
    direct := domainText (g.direct.filter (· ∉ domains))
    hijack := domainText (g.hijack.filter (· ∉ domains)) }

/-! ### `reassign_rule` -/

/-- The position of `name` in `route.rule_set` or `route.rules`, or the default. -/
def positionOf {α : Type} (p : α → Bool) (xs : List α) (default : Nat) : Nat :=
  (xs.findIdx? p).getD default

/-- The place behind a leading reject rule. -/
def behindReject : List Rule → Nat
  | [] => 0
  | r :: _ => if r.field "action" = .str "reject" then 1 else 0

/-- Is it an entry of `route.rule_set` with this tag? -/
def ruleSetTagged (name : String) (item : Json) : Bool :=
  decide (item.get? "tag" = some (.str name))

/-- Is it a rule for this ruleset? -/
def usesRuleSet (name : String) (r : Rule) : Bool := decide (r.field "rule_set" = .str name)

/-- The rules that `set_ruleset_target` leaves: all rules for the ruleset go, and unless
its domains are to stay with the phone one rule takes the place of the first. -/
def retargetRules (name target : String) (rules : List Rule) : List Rule :=
  let rest := rules.filter (fun r => !usesRuleSet name r)
  if target = "direct" then rest
  else rest.insertIdx (min (positionOf (usesRuleSet name) rules (behindReject rules)) rest.length)
    [("rule_set", .str name), ("outbound", .str target)]

/-- The entries of `route.rule_set` that `set_ruleset_target` leaves. -/
def retargetSets (name leaf target : String) (sets : List Json) : List Json :=
  let rest := sets.filter (fun item => !ruleSetTagged name item)
  if target = "direct" then rest
  else rest.insertIdx (min (positionOf (ruleSetTagged name) sets sets.length) rest.length)
    (.obj [("tag", .str name), ("type", .str "local"),
      ("format", .str (if leaf.endsWith ".mrs" then "mrs" else "source")),
      ("path", .str ("/etc/sing-box/rs/" ++ leaf))])

/-- `set_ruleset_target`. -/
def setRulesetTarget (H : Host) (name : Json) (target : String) (g : Gateway) :
    Py Refusal Gateway := do
  if target ≠ "direct" ∧ target ∉ g.model.exitTags then Py.raise .unknownExit
  match H.managedRulesets g.rsMeta with
  | none => Py.raise .badMetadata
  | some managed =>
      if !name.hashable then Py.fault .type
      match name with
      | .str name =>
          match Dict.get? g.rsMeta name, Dict.get? managed name with
          | some (.obj info), some leaf =>
              let format := (Dict.get? info "format").getD .null
              if target = "direct" ∧ (leaf.endsWith ".json" = false ∨
                  format ∉ [.str "source", .str "text", .str ""]) then
                Py.raise .notExpandable
              return { g with
                model := { g.model with
                  rules := retargetRules name target g.model.rules
                  ruleSets := retargetSets name leaf target g.model.ruleSets }
                rsMeta := Dict.set g.rsMeta name (.obj (Dict.set info "outbound" (.str target))) }
          | _, _ => Py.raise .unknownRuleset
      | _ => Py.raise .unknownRuleset

/-- Does `_merge_domain_rules` consider the rule? -/
def mergeable (r : Rule) : Bool :=
  r.outbound.truthy && !r.contains "rule_set" && r.hasDomains

/-- `base[k] += [x for x in r[k] if x not in base[k]]`, if `r` has the key. -/
def absorbKey (r base : Rule) (key : String) : Py Refusal Rule := do
  if (r.field key).truthy then
    match base.listed key with
    | .arr held =>
        let ds ← (r.field key).items
        return base.set key (.arr (held ++ ds.filter (· ∉ held)))
    | _ => Py.fault .type
  else return base

/-- The rule for an exit takes over the domains of another rule for it. -/
def absorb (r base : Rule) : Py Refusal Rule := do
  let base ← absorbKey r base "domain_suffix"
  absorbKey r base "domain"

/-- The earlier rule for the exit of `r` absorbs it; `none` when there is none. -/
def absorbInto (r : Rule) : List Rule → Py Refusal (Option (List Rule))
  | [] => return none
  | base :: out => do
      if mergeable base && decide (base.outbound = r.outbound) then
        return some ((← absorb r base) :: out)
      return (← absorbInto r out).map (base :: ·)

/-- The loop of `_merge_domain_rules`; `out` holds the rules kept so far. -/
def mergeDomainRules (out : List Rule) : List Rule → Py Refusal (List Rule)
  | [] => return out
  | r :: rules => do
      if mergeable r then
        if !r.outbound.hashable then Py.fault .type
        match ← absorbInto r out with
        | some out' => mergeDomainRules out' rules
        | none => mergeDomainRules (out ++ [r]) rules
      else mergeDomainRules (out ++ [r]) rules

/-- `reassign_rule`. -/
def reassignRule (H : Host) (idx : Int) (target : String) (g : Gateway) :
    Py Refusal Gateway := do
  if idx < 0 then Py.raise .ruleChanged
  match g.model.rules[idx.toNat]? with
  | none => Py.raise .ruleChanged
  | some r =>
      if !r.contains "outbound" then Py.raise .ruleChanged
      if target ∉ g.model.exitTags then Py.raise .unknownExit
      if (r.field "rule_set").truthy then
        setRulesetTarget H (r.field "rule_set") target g
      else if r.outbound = .str target then return g
      else
        let rules ← mergeDomainRules []
          (g.model.rules.set idx.toNat (r.set "outbound" (.str target)))
        return { g with model := { g.model with rules := rules } }

/-! ### `set_tg_exit` -/

/-- `set_tg_exit`; the empty tag removes the pin. -/
def setTgExit (tag : String) (g : Gateway) : Py Refusal Gateway := do
  if tag ≠ "" ∧ tag ∉ g.model.exitTags then Py.raise .unknownExit
  let rest := g.model.rules.filter (fun r => !r.pinned)
  return { g with model := { g.model with
    rules := if tag = "" then rest
      else insertFirst [("inbound", .arr [.str "tg-proxy"]), ("outbound", .str tag)] rest } }

/-! ### `patch_rule` -/

/-- The names that Mihomo reserves. -/
def mihomoReserved : List String :=
  ["DIRECT", "REJECT", "REJECT-DROP", "PASS", "PASS-RULE", "COMPATIBLE", "GLOBAL"]

/-- The target of a Web request: `_string`, and `_tag` unless it is `direct`. -/
def webTarget (H : Host) (value : String) : Py Refusal String := do
  let target := strip value
  if target = "" ∨ 64 < target.length ∨ target.toList.any (fun c => c.toNat < 32 || c.toNat = 127)
  then Py.raise .badTarget
  if target = "direct" then return target
  match H.normalizeName target with
  | none => Py.raise .badTarget
  | some name => if name ∈ mihomoReserved then Py.raise .badTarget else return name

/-- The texts among the documents that are domains. -/
def domainTexts (xs : List Json) : List String := (xs.filterMap Json.str?).filter domainRe

/-- The domains of one rule that `_rule_items` shows. -/
def ruleItem (H : Host) (r : Rule) : Py Refusal (List String) := do
  if r.explicit && r.outbound.str?.any H.validName then
    let suffixes ← (r.listedOr "domain_suffix").items
    let exacts ← (r.listedOr "domain").items
    return domainTexts (suffixes ++ exacts)
  else return []

/-- The domains that `_rule_items` shows. -/
def ruleItems (H : Host) (g : Gateway) : Py Refusal (List String) := do
  return (← g.model.rules.mapM (ruleItem H)).flatten ++ g.direct.filter domainRe

/-- `if old in (rule.get(key) or [])`, drop it from there; was it there? -/
def patchKey (old : String) (r : Rule) (key : String) : Py Refusal (Rule × Bool) := do
  if ← (r.listedOr key).has old then return (← dropFrom old r key, true)
  else return (r, false)

/-- Drop the domain from one rule; was it there, and as an exact domain? -/
def patchOne (old : String) (r : Rule) : Py Refusal (Rule × Bool × Bool) := do
  let (r, inSuffix) ← patchKey old r "domain_suffix"
  let (r, inExact) ← patchKey old r "domain"
  return (r, inSuffix || inExact, inExact)

/-- `patch_rule` uses the first such rule. -/
def takesPatched (target key : String) (r : Rule) : Bool :=
  decide (r.outbound = .str target) && !(r.field "rule_set").truthy && r.field key ≠ .null

/-- The first rule for the target takes the domain under `key`; `none` without one. -/
def patchInto (old target key : String) : List Rule → Py Refusal (Option (List Rule))
  | [] => return none
  | r :: rules => do
      if takesPatched target key r then
        if ← (r.field key).has old then return some (r :: rules)
        return some (r.set key (← (r.field key).append old) :: rules)
      return (← patchInto old target key rules).map (r :: ·)

/-- The rules without the domain, whether it was there, and the key it goes back under. -/
def patchRules (old : String) (rules : List Rule) : Py Refusal (List Rule × Bool × String) := do
  let patched ← rules.mapM (patchOne old)
  return (cleanUp (patched.map Prod.fst), patched.any (fun p => p.2.1),
    if patched.any (fun p => p.2.2) then "domain" else "domain_suffix")

/-- `PDGControl.patch_rule`. -/
def patchRule (H : Host) (old value : String) (g : Gateway) : Py Refusal Gateway := do
  let old := canonicalDomain H old
  if !domainRe old then Py.raise .badDomain
  if old ∉ (← ruleItems H g) then Py.raise .notFound
  let target ← webTarget H value
  if target ≠ "direct" ∧ target ∉ g.model.exitTags then Py.raise .unknownExit
  let (rules, found, key) ← patchRules old g.model.rules
  if !found ∧ old ∉ g.direct then Py.raise .ruleDisappeared
  let direct := g.direct.filter (· ≠ old)
  let hijack := g.hijack.filter (· ≠ old)
  if target = "direct" then
    return { g with
      model := { g.model with rules := rules }
      direct := domainText (direct ++ [old])
      hijack := domainText hijack }
  let rules' ← patchInto old target key rules
  return { g with
    model := { g.model with
      rules := rules'.getD (insertFirst [(key, .arr [.str old]), ("outbound", .str target)] rules) }
    direct := domainText direct
    hijack := domainText (hijack ++ [old]) }

/-! ### The operations together -/

/-- An operation on rules. -/
inductive RuleOp where
  | addRule (domain target : String)
  | delRule (domain : String)
  | delRulesBulk (domains : List String)
  | reassignRule (idx : Int) (target : String)
  | patchRule (old value : String)
  | setTgExit (tag : String)
  deriving DecidableEq, Repr

/-- What the operation commits. -/
def RuleOp.run (H : Host) : RuleOp → Gateway → Py Refusal Gateway
  | .addRule domain target => Route.addRule H domain target
  | .delRule domain => Route.delRule H domain
  | .delRulesBulk domains => Route.delRulesBulk H domains
  | .reassignRule idx target => Route.reassignRule H idx target
  | .patchRule old value => Route.patchRule H old value
  | .setTgExit tag => Route.setTgExit tag

end ProxyGateway.Route
