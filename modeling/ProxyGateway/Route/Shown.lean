import ProxyGateway.Lib.Runs
import ProxyGateway.Route.Import
import ProxyGateway.Route.Reassigned

set_option autoImplicit false

/-!
# ProxyGateway.Route.Shown

Clients that edit a rule by its index. `reassign_rule` checks the index against the model it loads;
its transaction reads the model again, changes the rule at the index there, and commits if the model
still is what the transaction read. Nothing compares the two reads. So the rule that is changed is the
one that was shown exactly if the second read finds the matchers of the first at the index
(`hits_iff_undisturbed`), which no commit between the two reads may disturb (`hits_of_kept`).

The other operations find what they change by its name or domain in the model that they replace, and
are single steps here.
-/

namespace ProxyGateway.Route

open Rule

/-- A `reassign_rule` under way: the index and the target it was asked for, the model it loaded, and
the model that its transaction read. -/
structure Session where
  idx : Nat
  target : String
  loaded : Model
  base : Option Model

/-- The rule that was shown. -/
def Session.shown (x : Session) : Option Rule := x.loaded.rules[x.idx]?

/-- The gateway and what its clients have under way. -/
structure Bots (Client : Type) where
  gateway : Gateway
  sessions : Client → Option Session

/-- What clients do. -/
inductive Action (Client : Type) where
  | load (c : Client) (idx : Int) (target : String)
  | read (c : Client)
  | commit (c : Client)
  | leave (c : Client)
  | other (op : Op)

/-- The checks of `reassign_rule` on the model that it loaded, and that there is something to do. -/
def Proceeds (idx : Int) (target : String) (m : Model) : Prop :=
  0 ≤ idx ∧ ∃ r, m.rules[idx.toNat]? = some r ∧ r.contains "outbound" = true ∧ target ∈ m.exitTags ∧
    ((r.field "rule_set").truthy = true ∨ r.outbound ≠ .str target)

/-- What the transaction makes of the gateway. A rule for a ruleset is changed by the name of the
ruleset; an index that is not there raises. -/
def Session.Writes (H : Host) (x : Session) (g g' : Gateway) : Prop :=
  ∃ shown, x.shown = some shown ∧
    if (shown.field "rule_set").truthy then setRulesetTarget H (shown.field "rule_set") x.target g = .ok g'
    else ∃ r rules, g.model.rules[x.idx]? = some r ∧
      mergeDomainRules [] (g.model.rules.set x.idx (r.set "outbound" (.str x.target))) = .ok rules ∧
        g' = { g with model := { g.model with rules := rules } }

section Steps

variable {Client : Type} [DecidableEq Client]

/-- A client has this under way from now on. -/
def Bots.with (s : Bots Client) (c : Client) (x : Option Session) : Bots Client :=
  { s with sessions := Function.update s.sessions c x }

/-- The steps. A transaction commits only while the model is the one that it read. -/
def BotStep (H : Host) (s : Bots Client) : Action Client → Bots Client → Prop
  | .load c idx target, s' => s.sessions c = none ∧ Proceeds idx target s.gateway.model ∧
      s' = s.with c (some ⟨idx.toNat, target, s.gateway.model, none⟩)
  | .read c, s' => ∃ x, s.sessions c = some x ∧ x.base = none ∧
      s' = s.with c (some { x with base := some s.gateway.model })
  | .commit c, s' => ∃ x g', s.sessions c = some x ∧ x.base = some s.gateway.model ∧ x.Writes H s.gateway g' ∧
      s' = { s.with c none with gateway := g' }
  | .leave c, s' => s' = s.with c none
  | .other op, s' => ∃ g', op.run H s.gateway = .ok g' ∧ s' = { s with gateway := g' }

/-- Two rules have the same matchers: they differ in their outbound at most. -/
def SameMatchers (r r' : Rule) : Prop := ∀ key, key ≠ "outbound" → r.field key = r'.field key

/-- The rule at the index has the matchers of the rule that was shown. -/
def Session.Finds (x : Session) (m : Model) : Prop :=
  ∀ shown, x.shown = some shown → ∃ r, m.rules[x.idx]? = some r ∧ SameMatchers r shown

/-- Is the rule that was shown for a ruleset? -/
def Session.named (x : Session) : Bool := x.shown.any (fun r => (r.field "rule_set").truthy)

/-- What the transaction changed is what was shown: the rule at the index has its matchers; of a rule for
a ruleset, nothing but rules for this ruleset is gone. -/
def Session.Hits (x : Session) (g g' : Gateway) : Prop :=
  if x.named then ∀ shown, x.shown = some shown → ∀ r ∈ g.model.rules, r ∉ g'.model.rules →
    r.field "rule_set" = shown.field "rule_set"
  else x.Finds g.model

/-- A commit of a client changes the rule that it was shown. -/
def CommitHits (s : Bots Client) : Action Client → Bots Client → Prop
  | .commit c, s' => ∀ x, s.sessions c = some x → x.Hits s.gateway s'.gateway
  | _, _ => True

/-- The transaction of a client that commits has read, at the index, the matchers that were shown,
unless the rule is for a ruleset. -/
def Undisturbed (s : Bots Client) : Action Client → Bots Client → Prop
  | .commit c, _ => ∀ x, s.sessions c = some x → x.named = true ∨ ∃ b, x.base = some b ∧ x.Finds b
  | _, _ => True

variable {H : Host} {s s' : Bots Client} {run : List (Action Client × Bots Client)} {x : Session} {g g' : Gateway}

/-- A rule for a ruleset stays, unless it is for the one that gets a new target. -/
theorem writes_named (h : x.Writes H g g') (hn : x.named = true) : x.Hits g g' := by
  obtain ⟨shown, hshown, h⟩ := h
  have hset : (shown.field "rule_set").truthy = true := by simpa [Session.named, hshown] using hn
  rw [if_pos hset] at h
  obtain ⟨name, leaf, info, hname, -, rfl⟩ := setRulesetTarget_cases h
  rw [Session.Hits, if_pos hn]
  intro shown' hshown' r hr hgone
  rw [hshown] at hshown'
  cases hshown'
  rw [hname]
  by_contra hne
  refine hgone ?_
  have hrest : r ∈ g.model.rules.filter (fun r => !usesRuleSet name r) :=
    List.mem_filter.mpr ⟨hr, by simpa [usesRuleSet] using hne⟩
  show r ∈ retargetRules name x.target g.model.rules
  unfold retargetRules
  split
  · exact hrest
  · exact (List.mem_insertIdx (Nat.min_le_right _ _)).mpr (.inr hrest)

/-- A commit changes the rule that was shown exactly if its transaction has read it. -/
theorem commitHits_iff {a : Action Client} (h : BotStep H s a s') : CommitHits s a s' ↔ Undisturbed s a s' := by
  cases a with
  | commit c =>
      obtain ⟨x, g', hx, hbase, hw, rfl⟩ := h
      simp only [CommitHits, Undisturbed, hx, Option.some.injEq, forall_eq', hbase, exists_eq_left']
      cases hn : x.named with
      | true => exact iff_of_true (writes_named hw hn) (.inl rfl)
      | false => simp [Session.Hits, hn]
  | _ => exact Iff.rfl

theorem SameMatchers.trans {r r' r'' : Rule} (h : SameMatchers r r') (h' : SameMatchers r' r'') :
    SameMatchers r r'' := fun key hkey => (h key hkey).trans (h' key hkey)

/-- A step leaves the matchers at the index of every client whose transaction has not read the model yet. -/
def Kept (s s' : Bots Client) : Prop :=
  ∀ c x, s'.sessions c = some x → x.base = none → ∀ r, s.gateway.model.rules[x.idx]? = some r →
    ∃ r', s'.gateway.model.rules[x.idx]? = some r' ∧ SameMatchers r' r

/-- What a client works on has the matchers that were shown at its index. -/
def Shown (s : Bots Client) : Prop :=
  ∀ c x, s.sessions c = some x → x.Finds (x.base.getD s.gateway.model)

theorem finds_loaded (x : Session) : x.Finds x.loaded := fun shown h => ⟨shown, h, fun _ _ => rfl⟩

/-- A session that is put in place is looked after; the others are as before. -/
theorem shown_with {c : Client} {o : Option Session} (hs : Shown s)
    (ho : ∀ x, o = some x → x.Finds (x.base.getD s.gateway.model)) : Shown (s.with c o) := by
  intro d x hx
  by_cases hd : d = c
  · subst hd
    exact ho x (by simpa [Bots.with] using hx)
  · exact hs d x (by simpa [Bots.with, Function.update_of_ne hd] using hx)

omit [DecidableEq Client] in
/-- Another gateway that keeps what clients have loaded. -/
theorem shown_gateway (hs : Shown s) (hsessions : s'.sessions = s.sessions)
    (hkept : Kept s s') : Shown s' := by
  intro c x hx shown hshown
  have hx' : s.sessions c = some x := hsessions ▸ hx
  obtain ⟨r, hr, hsame⟩ := hs c x hx' shown hshown
  cases hb : x.base with
  | some b => exact ⟨r, by simpa [hb] using hr, hsame⟩
  | none =>
      obtain ⟨r', hr', hsame'⟩ := hkept c x hx hb r (by simpa [hb] using hr)
      exact ⟨r', hr', hsame'.trans hsame⟩

theorem shown_step {a : Action Client} (hs : Shown s) (h : BotStep H s a s') (hk : Kept s s') : Shown s' := by
  cases a with
  | load c idx target =>
      obtain ⟨-, -, rfl⟩ := h
      exact shown_with hs fun x hx => by
        cases hx
        exact finds_loaded _
  | read c =>
      obtain ⟨x, hx, hb, rfl⟩ := h
      exact shown_with hs fun y hy => by
        cases hy
        have hfinds := hs c x hx
        rwa [hb] at hfinds
  | commit c =>
      obtain ⟨x, g', hx, hb, -, rfl⟩ := h
      exact shown_gateway (shown_with (c := c) (o := none) hs fun y hy => nomatch hy) rfl hk
  | leave c =>
      cases h
      exact shown_with hs fun y hy => nomatch hy
  | other op =>
      obtain ⟨g', -, rfl⟩ := h
      exact shown_gateway hs rfl hk

/-- Where no commit disturbs a client between its two reads, every commit changes the rule that was
shown. -/
theorem hits_of_kept (hr : Runs.IsRun (BotStep H) s run) (hidle : ∀ c, s.sessions c = none)
    (hk : Runs.AllSteps (fun s _ s' => Kept s s') s run) : Runs.AllSteps CommitHits s run := by
  have hshown : Shown s := fun c x hx => absurd hx (by simp [hidle c])
  refine (Runs.run_of_inv (I := Shown) hr hshown hk fun s a s' hs hstep hkept => ?_).2
  refine ⟨shown_step hs hstep hkept, (commitHits_iff hstep).mpr ?_⟩
  cases a with
  | commit c =>
      obtain ⟨x, g', hx, hb, -, -⟩ := hstep
      intro y hy
      rw [hx] at hy
      cases hy
      exact .inr ⟨_, hb, by simpa [hb] using hs c x hx⟩
  | _ => trivial

end Steps

/-! ### Another commit in between -/

/-- Nothing under way. -/
def idle (g : Gateway) : Bots Bool := ⟨g, fun _ => none⟩

/-- The client `true` has loaded the model, asked for the second rule to go to `C`. -/
def loadedC (g : Gateway) : Session := ⟨1, "C", g.model, none⟩

end ProxyGateway.Route
