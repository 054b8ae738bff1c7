import ProxyGateway.Lib.Dynamic
import ProxyGateway.Lib.Text

set_option autoImplicit false

/-!
# ProxyGateway.Route.Rule

Route rules and the gateway they belong to. A rule is a dictionary, and its kind shows
only in the keys that are present: a domain rule carries `domain_suffix` or `domain`, the
Telegram pin carries `inbound: ["tg-proxy"]`, a ruleset rule carries `rule_set`. All kinds
share one list, and nothing types the values.

The gateway holds the parts of the model that the rule and exit operations read or write,
with `custom_direct.txt` and `custom_hijack.txt` as the lists of their entries and
`rulesets.json` as a dictionary. Names in a loaded model are canonical, and
`normalize_model` leaves the route of such a model as it is.
-/

namespace ProxyGateway.Route

/-- A route rule. -/
abbrev Rule := Dict String Json

namespace Rule

/-- `r.get(key)`; an absent key reads as `None`. -/
def field (r : Rule) (key : String) : Json := (r.get? key).getD .null

/-- `r.get(key, [])`. -/
def listed (r : Rule) (key : String) : Json := (r.get? key).getD (.arr [])

/-- `r.get(key) or []`. -/
def listedOr (r : Rule) (key : String) : Json :=
  if (r.field key).truthy then r.field key else .arr []

/-- `r.get("outbound")`. -/
def outbound (r : Rule) : Json := r.field "outbound"

/-- Is it the rule that pins the Telegram inbound (`TG_INBOUND`)? -/
def pinned (r : Rule) : Bool := decide (r.field "inbound" = .arr [.str "tg-proxy"])

/-- Does the rule carry domains? -/
def hasDomains (r : Rule) : Bool :=
  (r.field "domain_suffix").truthy || (r.field "domain").truthy

/-- The domains of the rule. -/
def domains (r : Rule) : List Json :=
  (r.listed "domain_suffix").entries ++ (r.listed "domain").entries

/-- Is it an explicit rule, one with an exit and without ruleset? -/
def explicit (r : Rule) : Bool := r.contains "outbound" && !(r.field "rule_set").truthy

/-- Does the clean-up after a deletion leave the rule in? -/
def keeps (r : Rule) : Bool :=
  (r.field "action").truthy || !r.contains "outbound" || (r.field "rule_set").truthy ||
    r.hasDomains || (r.field "domain_keyword").truthy || (r.field "ip_cidr").truthy

end Rule

/-- An outbound: its tag and its type. -/
structure Outbound where
  tag : String
  type : String
  deriving DecidableEq, Repr

/-- A policy group: its name, its members and the providers it uses. -/
structure Group where
  name : String
  proxies : List String
  use : List String
  deriving DecidableEq, Repr

/-- The model. -/
structure Model where
  outbounds : List Outbound
  groups : List Group
  final : String
  rules : List Rule
  ruleSets : List Json
  deriving DecidableEq

/-- The model and the files that are committed together with it. -/
structure Gateway where
  model : Model
  direct : List String
  hijack : List String
  rsMeta : Dict String Json
  deriving DecidableEq

/-- `PROXY_OUTBOUND_TYPES`. -/
def proxyTypes : List String :=
  ["shadowsocks", "vmess", "trojan", "vless", "hysteria", "hysteria2", "tuic", "anytls",
    "shadowtls", "socks", "http"]

/-- `ROUTABLE_OUTBOUND_TYPES`. -/
def routableTypes : List String := proxyTypes ++ ["direct", "block"]

/-- `exit_tags`: the routable outbounds and the groups. -/
def Model.exitTags (m : Model) : List String :=
  (m.outbounds.filter (fun o => decide (o.type ∈ routableTypes))).map Outbound.tag ++
    m.groups.map Group.name

/-- The tag of the machine's direct outbound. -/
def Model.directTag (m : Model) : Option String :=
  (m.outbounds.find? (fun o => o.type = "direct")).map Outbound.tag

/-- `_tg_exit`: the exit of the first pin; `None` follows the default exit. -/
def tgExit (rules : List Rule) : Json :=
  match rules.find? Rule.pinned with
  | some r => r.outbound
  | none => .null

/-- `(domain, exit)` is a pair of the explicit domain rules. -/
def Pair (rules : List Rule) (domain exit : Json) : Prop :=
  ∃ r ∈ rules, r.explicit = true ∧ r.outbound = exit ∧ domain ∈ r.domains

/-- No pin carries domains. -/
def Apart (rules : List Rule) : Prop := ∀ r ∈ rules, r.pinned = true → r.hasDomains = false

/-! ### What a rule lists -/

theorem entries_eq_nil {v : Json} (h : v.truthy = false) : v.entries = [] := by
  by_contra hne
  simp [Json.truthy_of_entries hne] at h

theorem entries_listed (r : Rule) (key : String) :
    (r.listed key).entries = (r.field key).entries := by
  unfold Rule.listed Rule.field
  cases r.get? key <;> rfl

/-- A rule without domains has no domains to list. -/
theorem domains_eq_nil {r : Rule} (h : r.hasDomains = false) : r.domains = [] := by
  simp only [Rule.hasDomains, Bool.or_eq_false_iff] at h
  rw [Rule.domains, entries_listed, entries_listed, entries_eq_nil h.1, entries_eq_nil h.2,
    List.append_nil]

/-! ### Changing one key of a rule -/

namespace Rule

theorem field_set_ne {key k : String} (h : key ≠ k) (r : Rule) (v : Json) :
    field (r.set key v) k = r.field k := by
  simp [field, Dict.get?_set_ne h]

@[simp] theorem field_set_self (r : Rule) (key : String) (v : Json) :
    field (r.set key v) key = v := by
  simp [field]

theorem listed_set_ne {key k : String} (h : key ≠ k) (r : Rule) (v : Json) :
    listed (r.set key v) k = r.listed k := by
  simp [listed, Dict.get?_set_ne h]

@[simp] theorem listed_set_self (r : Rule) (key : String) (v : Json) :
    listed (r.set key v) key = v := by
  simp [listed]

theorem contains_set_ne {key k : String} (h : key ≠ k) (r : Rule) (v : Json) :
    Dict.contains (r.set key v) k = r.contains k := by
  simp [Dict.contains, Dict.get?_set_ne h]

/-- The keys that hold the domains of a rule. -/
def IsDomainKey (key : String) : Prop := key = "domain_suffix" ∨ key = "domain"

theorem IsDomainKey.ne_inbound {key : String} (h : IsDomainKey key) : key ≠ "inbound" := by
  rcases h with rfl | rfl <;> decide

/-- `r'` is `r` with other domains: no other key was touched, and the domain keys hold
something only where they did before. -/
structure Fewer (r r' : Rule) : Prop where
  field : ∀ k, ¬ IsDomainKey k → r'.field k = r.field k
  contains : ∀ k, ¬ IsDomainKey k → r'.contains k = r.contains k
  suffix : (r'.field "domain_suffix").truthy = true → (r.field "domain_suffix").truthy = true
  exact : (r'.field "domain").truthy = true → (r.field "domain").truthy = true

theorem Fewer.refl (r : Rule) : Fewer r r := ⟨fun _ _ => rfl, fun _ _ => rfl, id, id⟩

theorem Fewer.trans {r r' r'' : Rule} (h : Fewer r r') (h' : Fewer r' r'') : Fewer r r'' where
  field k hk := (h'.field k hk).trans (h.field k hk)
  contains k hk := (h'.contains k hk).trans (h.contains k hk)
  suffix ht := h.suffix (h'.suffix ht)
  exact ht := h.exact (h'.exact ht)

theorem fewer_set {key : String} (hk : IsDomainKey key) {r : Rule} {v : Json}
    (hv : v.truthy = true → (r.field key).truthy = true) : Fewer r (r.set key v) := by
  have hne : ∀ k, ¬ IsDomainKey k → key ≠ k := by
    intro k hk' he
    exact hk' (he ▸ hk)
  refine ⟨fun k h => field_set_ne (hne k h) r v, fun k h => contains_set_ne (hne k h) r v, ?_, ?_⟩
  · rcases hk with rfl | rfl
    · simpa using hv
    · intro h
      rwa [field_set_ne (by decide)] at h
  · rcases hk with rfl | rfl
    · intro h
      rwa [field_set_ne (by decide)] at h
    · simpa using hv

section Fewer

variable {r r' : Rule}

theorem Fewer.pinned_eq (h : Fewer r r') : r'.pinned = r.pinned := by
  simp only [pinned, h.field "inbound" (by simp [IsDomainKey])]

theorem Fewer.outbound_eq (h : Fewer r r') : r'.outbound = r.outbound :=
  h.field "outbound" (by simp [IsDomainKey])

theorem Fewer.hasDomains_eq_false (h : Fewer r r') (hr : r.hasDomains = false) :
    r'.hasDomains = false := by
  rw [hasDomains, Bool.or_eq_false_iff, Bool.eq_false_iff, Bool.eq_false_iff] at hr ⊢
  exact ⟨fun ht => hr.1 (h.suffix ht), fun ht => hr.2 (h.exact ht)⟩

/-- A rule without domains is left in by the clean-up before a deletion exactly if it is
left in after it. -/
theorem Fewer.keeps_eq (h : Fewer r r') (hr : r.hasDomains = false) : r'.keeps = r.keeps := by
  simp only [keeps, hr, h.hasDomains_eq_false hr, h.contains "outbound" (by simp [IsDomainKey]),
    h.field "action" (by simp [IsDomainKey]), h.field "rule_set" (by simp [IsDomainKey]),
    h.field "domain_keyword" (by simp [IsDomainKey]), h.field "ip_cidr" (by simp [IsDomainKey])]

end Fewer

end Rule

/-! ### The pin in force -/

/-- The exit that a rule names; without a rule, `None`. -/
def exitOf : Option Rule → Json
  | some r => r.outbound
  | none => .null

theorem tgExit_eq (rules : List Rule) : tgExit rules = exitOf (rules.find? Rule.pinned) := by
  unfold tgExit exitOf
  cases rules.find? Rule.pinned <;> rfl

@[simp] theorem tgExit_cons_of_not_pinned {r : Rule} (h : r.pinned = false) (rules : List Rule) :
    tgExit (r :: rules) = tgExit rules := by
  simp [tgExit, h]

@[simp] theorem tgExit_cons_of_pinned {r : Rule} (h : r.pinned = true) (rules : List Rule) :
    tgExit (r :: rules) = r.outbound := by
  simp [tgExit, h]

theorem apart_cons {r : Rule} {rules : List Rule} :
    Apart (r :: rules) ↔ (r.pinned = true → r.hasDomains = false) ∧ Apart rules := by
  simp [Apart]

theorem Apart.sublist {rules rules' : List Rule} (h : Apart rules) (hs : rules'.Sublist rules) :
    Apart rules' := fun r hr => h r (hs.subset hr)

/-- Putting a rule that is no pin anywhere changes nothing about the pins. -/
theorem tgExit_insert {r : Rule} (h : r.pinned = false) (xs ys : List Rule) :
    tgExit (xs ++ r :: ys) = tgExit (xs ++ ys) := by
  induction xs with
  | nil => simp [h]
  | cons x xs ih =>
      by_cases hx : x.pinned = true
      · simp [hx]
      · simp only [Bool.not_eq_true] at hx
        simp [hx, ih]

end ProxyGateway.Route
