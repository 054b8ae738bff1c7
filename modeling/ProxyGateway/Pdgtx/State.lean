import ProxyGateway.Lib.Dict

set_option autoImplicit false

/-!
# ProxyGateway.Pdgtx.State

The vocabulary of the configuration transaction core (`deploy/bot/pdgtx.py`):
transaction states with their allowed edges, service units, service actions and
the expectations the actions imply.

Two state sets matter below. `gcTerminal` are the states in which everything is
settled and the materials are gone; `needsRecovery` are the states in which
production may already have been changed, so that the next write has to wait for
`recover`.
-/

namespace ProxyGateway.Pdgtx

/-- The states of a transaction (`PREPARING` … `ABORTED`). -/
inductive State where
  | preparing | validated | applying | observing | committed
  | rollingBack | rolledBack | rollbackFailed | aborted
  deriving DecidableEq, Repr

namespace State

/-- `GC_TERMINAL`: settled, materials cleaned. -/
def gcTerminal : State → Bool
  | .committed | .rolledBack | .aborted => true
  | _ => false

/-- `NEEDS_RECOVERY`: production may have been changed already. -/
def needsRecovery : State → Bool
  | .applying | .observing | .rollingBack | .rollbackFailed => true
  | _ => false

/-- The states `abort` may settle: nothing has touched production. -/
def unstarted : State → Bool
  | .preparing | .validated => true
  | _ => false

/-- `_ALLOWED`: the state edges of `Tx._set_state`. -/
def allowed : State → List State
  | .preparing => [.validated, .aborted]
  | .validated => [.applying, .aborted]
  | .applying => [.observing, .rollingBack]
  | .observing => [.committed, .rollingBack]
  | .rollingBack => [.rolledBack, .rollbackFailed]
  | .committed | .rolledBack | .rollbackFailed | .aborted => []

theorem not_needsRecovery_of_unstarted {s : State} (h : s.unstarted = true) :
    s.needsRecovery = false := by
  cases s <;> simp_all [unstarted, needsRecovery]

theorem not_gcTerminal_of_needsRecovery {s : State} (h : s.needsRecovery = true) :
    s.gcTerminal = false := by
  cases s <;> simp_all [gcTerminal, needsRecovery]

/-- Every state is unstarted, in need of recovery, or settled. -/
theorem unstarted_or_needsRecovery_or_gcTerminal (s : State) :
    s.unstarted = true ∨ s.needsRecovery = true ∨ s.gcTerminal = true := by
  cases s <;> simp [unstarted, needsRecovery, gcTerminal]

/-- No edge leaves a settled state. -/
theorem allowed_of_gcTerminal {s : State} (h : s.gcTerminal = true) : s.allowed = [] := by
  cases s <;> simp_all [gcTerminal, allowed]

end State

/-- `mode='normal'` / `mode='repair'`. -/
inductive Mode where
  | normal | repair
  deriving DecidableEq, Repr

/-! ### Service units and actions -/

/-- `_SERVICE_UNITS`. -/
inductive ServiceUnit where
  | mosdns | mihomo | pdgMitm | pdgBot | pdgProbe81
  deriving DecidableEq, Repr

namespace ServiceUnit

/-- The systemd unit name. -/
def name : ServiceUnit → String
  | .mosdns => "mosdns"
  | .mihomo => "mihomo"
  | .pdgMitm => "pdg-mitm"
  | .pdgBot => "pdg-bot"
  | .pdgProbe81 => "pdg-probe81"

/-- All units, by name: the order of every `sorted(...)` over units. -/
def all : List ServiceUnit := [.mihomo, .mosdns, .pdgBot, .pdgMitm, .pdgProbe81]

@[simp] theorem mem_all (u : ServiceUnit) : u ∈ all := by
  cases u <;> simp [all]

end ServiceUnit

/-- `sorted(set)` of a set of units given by its membership test. -/
def sortedUnits (p : ServiceUnit → Bool) : List ServiceUnit := ServiceUnit.all.filter p

@[simp] theorem mem_sortedUnits {p : ServiceUnit → Bool} {u : ServiceUnit} :
    u ∈ sortedUnits p ↔ p u = true := by
  simp [sortedUnits]

/-- The state a unit is expected in. -/
inductive Want where
  | active | inactive
  deriving DecidableEq, Repr

/-- A service action; `_ACTIONS` is the set `Action.whitelisted`. -/
inductive Action where
  | restart (u : ServiceUnit)
  | start (u : ServiceUnit)
  | stop (u : ServiceUnit)
  | daemonReload
  | nftApply
  | sysctlApply
  deriving DecidableEq, Repr

namespace Action

/-- `_ACTIONS`: any unit may be restarted, only `_STATE_UNITS` started or stopped. -/
def whitelisted : Action → Bool
  | .start u | .stop u => u == .pdgMitm
  | _ => true

/-- The unit an action names and the state it asks for. -/
def asks : Action → Option (ServiceUnit × Want)
  | .restart u | .start u => some (u, .active)
  | .stop u => some (u, .inactive)
  | _ => none

end Action

/-- `expected_states`: the expected final state of each unit named by an action;
a later action on the same unit overwrites an earlier one. -/
def expectedStates (actions : List Action) : Dict ServiceUnit Want :=
  actions.foldl (fun exp a => match a.asks with
    | some (u, want) => exp.set u want
    | none => exp) []

/-- The scan of `action_conflicts`, `seen` being what earlier actions asked for. -/
def actionConflictsFrom (seen : Dict ServiceUnit Want) : List Action → Bool
  | [] => false
  | a :: rest => match a.asks with
    | none => actionConflictsFrom seen rest
    | some (u, want) => match seen.get? u with
      | some earlier =>
          if earlier ≠ want then true else actionConflictsFrom (seen.set u want) rest
      | none => actionConflictsFrom (seen.set u want) rest

/-- `action_conflicts`: do two actions ask for opposite states of one unit? -/
def actionConflicts (actions : List Action) : Bool := actionConflictsFrom [] actions

/-- The units whose own activity is not part of the baseline: those with an
explicit `start:` or `stop:`. -/
def relaxUnits (actions : List Action) : List ServiceUnit :=
  (expectedStates actions).keys.filter
    (fun u => actions.contains (.start u) || actions.contains (.stop u))

end ProxyGateway.Pdgtx
