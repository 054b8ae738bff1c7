import ProxyGateway.Pdgtx.Commit

set_option autoImplicit false

/-!
# ProxyGateway.Pdgtx.Recover

`recover` and the commands of `pdgtx` that write: `new`, `stage`, `service`,
`guard`, `apply`, `abort`, `recover`. Each command is one process working on what
the earlier ones left on disk.

`recover` reads `meta.json` and the before-index first and takes the lock after;
`abort` takes no lock. Both keep working on the copy they have read.
-/

namespace ProxyGateway.Pdgtx

open Method

/-- A function without an object. -/
abbrev CallM (α : Type) := MethodOf Unit α

/-- `SCHEMA_VERSION`. -/
def schemaVersion : Nat := 1

/-! ### `recover` -/

/-- What `recover` reports. -/
inductive Recovered where
  /-- No such transaction, an incompatible schema, or no before-index. -/
  | unusable
  /-- The transaction is not in a state that needs recovery. -/
  | settled (s : State)
  /-- Materials could not be read or are damaged; nothing was changed. -/
  | materialErr (names : List Name)
  /-- Files changed outside the transaction; nothing was changed. -/
  | conflicts (names : List Name)
  /-- The restore ran, and every item succeeded or not. -/
  | restored (ok : Bool)
  deriving DecidableEq, Repr

/-- One entry of the plan: the target, its path, its record when it existed with the
data read back, and whether the path is there now. -/
structure PlanItem where
  name : Name
  path : Path
  restore : Option (BeforeRec × Bytes)
  exists' : Bool
  deriving DecidableEq, Repr

/-- The outcome of the precheck of one target. -/
inductive Check where
  | same | conflict | material | planned (item : PlanItem)
  deriving DecidableEq, Repr

/-- The digest a target should have before the transaction. -/
def beforeSha (saved : Option BeforeRec) : Option Digest :=
  (saved.filter BeforeRec.existed).map BeforeRec.sha256

/-- The precheck of one target whose path is known. -/
def precheckAt (H : Host) (T : Txid) (m : Meta) (bi : BeforeIndex) (force : Bool) (name : Name)
    (path : Path) : CallM Check := do
  let saved := bi.files.get? name
  let cur ← readTarget path
  if digestOf H cur = beforeSha saved then return .same
  else if !force && digestOf H cur != (m.intendedSha.get? name).getD none then return .conflict
  else match saved.filter BeforeRec.existed with
    | none => return .planned ⟨name, path, none, cur.isSome⟩
    | some r => do
        let data ← call (perform (.loadSub T .before r.file))
        match data with
        | none => return .material
        | some bytes =>
            if H.sha bytes = r.sha256 then return .planned ⟨name, path, some (r, bytes), cur.isSome⟩
            else return .material

/-- The precheck of one target: the path recorded at creation wins over today's. A name
outside the whitelist is a material error. -/
def precheckOne (H : Host) (T : Txid) (m : Meta) (bi : BeforeIndex) (force : Bool) (name : Name) :
    CallM Check :=
  (resolveTarget H name).outcome (fun r => match r with
    | .ok res => precheckAt H T m bi force name ((m.targetPaths.get? name).getD res.path)
    | .error .txError => return .material
    | .error e => raise e)

/-- The precheck of all targets. -/
def precheckAll (H : Host) (T : Txid) (m : Meta) (bi : BeforeIndex) (force : Bool) :
    List Name → CallM (List (Name × Check))
  | [] => ret []
  | name :: rest => do
      let c ← precheckOne H T m bi force name
      let more ← precheckAll H T m bi force rest
      return (name, c) :: more

/-- The names with a given outcome. -/
def withCheck (c : Check) (checks : List (Name × Check)) : List Name :=
  (checks.filter (fun p => p.2 == c)).map Prod.fst

/-- The plan. -/
def planOf (checks : List (Name × Check)) : List PlanItem :=
  checks.filterMap (fun p => match p.2 with
    | .planned item => some item
    | _ => none)

/-- Restore one entry of the plan: `true` when nothing failed. -/
def recoverOne (T : Txid) (item : PlanItem) : Proc Bool :=
  match item.restore with
  | some (rec, data) =>
      perform (.replaceTarget T item.path data rec.stat.mode (some (rec.stat.uid, rec.stat.gid)))
  | none => if item.exists' then perform (.unlinkTarget T item.path) else .ret true

/-- Restore the whole plan. -/
def recoverAll (T : Txid) : List PlanItem → Proc Bool
  | [] => .ret true
  | item :: rest => do
      let ok ← recoverOne T item
      let others ← recoverAll T rest
      return ok && others

/-- The material directories, without complaints. -/
def removeMaterials (T : Txid) : Proc Unit := do
  let _ ← rmtreeSub true T .candidate
  let _ ← rmtreeSub true T .before
  return ()

/-- The end of `recover`: the plan, the runtime state, the final state, the materials. -/
def recoverPlan (H : Host) (T : Txid) (m : Meta) (bi : BeforeIndex) (plan : List PlanItem) :
    CallM Recovered := do
  let files ← call (recoverAll T plan)
  let runtime ← call (restoreRuntime H bi)
  let ok := files && runtime
  must (perform (.storeMeta T { m with
    state := if ok then .rolledBack else .rollbackFailed, rollbackComplete := some ok }))
  call (if ok then removeMaterials T else .ret ())
  call (gc H)
  return .restored ok

/-- The part of `recover` under the lock: check everything, then restore. -/
def recoverLocked (H : Host) (T : Txid) (m : Meta) (bi : BeforeIndex) (force : Bool) :
    CallM Recovered := do
  let checks ← precheckAll H T m bi force m.targets
  if withCheck .material checks ≠ [] then return .materialErr (withCheck .material checks)
  else if withCheck .conflict checks ≠ [] ∧ force = false then
    return .conflicts (withCheck .conflict checks)
  else recoverPlan H T m bi (planOf checks)

/-- `recover`. -/
def recover (H : Host) (T : Txid) (force : Bool) : CallM Recovered := do
  let m ← call (perform (.loadMeta T))
  match m with
  | none => return .unusable
  | some m =>
      if m.schemaVersion ≠ schemaVersion then return .unusable
      else if m.state.needsRecovery = false then return .settled m.state
      else do
        let bi ← call (perform (.loadIndex T))
        match bi with
        | none => return .unusable
        | some bi => withLock (recoverLocked H T m bi force)

/-! ### The commands -/

/-- `Tx(source, op, mode)` with a txid no directory has yet. -/
def cliNew (H : Host) (T : Txid) (mode : Mode) : CallM Unit := do
  must (perform (.makeTx T))
  must (perform (.storeMeta T
    { txid := T, schemaVersion := schemaVersion, runnerSha256 := H.runnerSha, mode := mode,
      state := .preparing }))

/-- `--expect`: left out, `-`, or a digest. -/
inductive Expect where
  | omitted | absent | digest (d : Digest)
  deriving DecidableEq, Repr

/-- The digest to expect, given what was read. -/
def Expect.orRead (read : Option Digest) : Expect → Option Digest
  | .omitted => read
  | .absent => none
  | .digest d => some d

/-- `_cli_stage`; `data = none` is `--delete`. -/
def cliStage (H : Host) (T : Txid) (name : Name) (data : Option Bytes) (expect : Expect) :
    CallM Unit := do
  let m ← call (perform (.loadMeta T))
  match m with
  | none => ret ()
  | some m =>
      if m.state ≠ .preparing then ret ()
      else do
        let r ← resolveTarget H name
        let cur ← readTarget r.path
        let exp := expect.orRead (digestOf H cur)
        let leaf := candidateLeaf m.staged.length name
        storeCandidate T leaf data
        let entry : Staged := ⟨name, data.map (fun _ => leaf), exp, data.isNone⟩
        must (perform (.storeMeta T { m with staged := m.staged ++ [entry] }))

/-- `_cli_service`: the state is not looked at. -/
def cliService (T : Txid) (a : Action) : CallM Unit := do
  let m ← call (perform (.loadMeta T))
  match m with
  | none => ret ()
  | some m =>
      if a.whitelisted then do
        let actions := if m.stagedActions.contains a then m.stagedActions else m.stagedActions ++ [a]
        must (perform (.storeMeta T { m with stagedActions := actions }))
      else ret ()

/-- `_cli_guard`. -/
def cliGuard (T : Txid) (u : ServiceUnit) (want : Want) : CallM Unit := do
  let m ← call (perform (.loadMeta T))
  match m with
  | none => ret ()
  | some m =>
      if m.state ≠ .preparing then ret ()
      else do
        let guards := (m.stagedServiceGuards.getD []).set u want
        must (perform (.storeMeta T { m with stagedServiceGuards := some guards }))

/-- `[0-9a-f]{64}`. -/
def digestShaped (d : Digest) : Bool :=
  d.length == 64 && d.toList.all (fun c => c.isDigit || ('a' ≤ c && c ≤ 'f'))

/-- One entry of `_cli_rebuild_watches`. -/
def rebuildWatch (H : Host) (p : Name × WatchRec) : CallM (Name × Watch) := do
  let r ← resolveTarget H p.1
  require (p.2.sha256.all digestShaped) .txError
  require (!(p.2.absent && p.2.sha256.isSome)) .txError
  require (!(p.2.absent && !p.2.optional)) .txError
  return (p.1, ⟨r.path, p.2.sha256, p.2.absent, p.2.optional⟩)

/-- `_cli_rebuild_watches`. -/
def rebuildWatches (H : Host) : List (Name × WatchRec) → CallM (Dict Name Watch)
  | [] => ret []
  | p :: rest => do
      let w ← rebuildWatch H p
      let more ← rebuildWatches H rest
      return w :: more

/-- The candidate of a staged entry, read back. -/
def loadCandidate (T : Txid) (s : Staged) : CallM (Option Bytes) :=
  match s.candidate with
  | none => ret none
  | some leaf => do
      let data ← call (perform (.loadSub T .candidate leaf))
      match data with
      | some bytes => ret (some bytes)
      | none => raise .other

/-- One staged entry, turned back into a target. -/
def reloadTarget (H : Host) (T : Txid) (s : Staged) : CallM Target := do
  let r ← resolveTarget H s.target
  let data ← loadCandidate T s
  let cur ← readTarget r.path
  return { path := r.path, mode := r.mode, validators := r.validators, data := data,
           candidate := s.candidate, expect := s.expect, existed := cur.isSome }

/-- The targets of a transaction, from what was staged. -/
def reloadTargets (H : Host) (T : Txid) : List Staged → Dict Name Target → CallM (Dict Name Target)
  | [], acc => ret acc
  | s :: rest, acc => do
      let t ← reloadTarget H T s
      reloadTargets H T rest (acc.set s.target t)

/-- The object `_cli_apply` builds: in PREPARING, whatever state the meta has. -/
def applyTx (T : Txid) (m : Meta) (watches : Dict Name Watch) (targets : Dict Name Target) : Tx where
  txid := T
  mode := m.mode
  state := .preparing
  targets := targets
  watches := watches
  actions := m.stagedActions
  serviceGuards := (m.stagedServiceGuards.orElse (fun _ => m.serviceGuards)).getD []
  metaJson := m

/-- Run a method on a new object. -/
def withTx {α : Type} (t : Tx) (m : TxM α) : CallM α := fun _ =>
  (m t).bind (fun r => .ret (r.1, ()))

/-- `_cli_apply`. -/
def cliApply (H : Host) (T : Txid) (allowRunnerDrift : Bool) : CallM Unit := do
  let m ← call (perform (.loadMeta T))
  match m with
  | none => ret ()
  | some m =>
      if m.runnerSha256 ≠ "" ∧ m.runnerSha256 ≠ H.runnerSha ∧ allowRunnerDrift = false then ret ()
      else if m.schemaVersion ≠ schemaVersion then ret ()
      else do
        let watches ← rebuildWatches H m.watched
        let targets ← reloadTargets H T m.staged []
        let _ ← withTx (applyTx T m watches targets) (commit H)
        return ()

/-- `_cli_abort`: no lock is taken. -/
def cliAbort (T : Txid) : CallM Unit := do
  let m ← call (perform (.loadMeta T))
  match m with
  | none => ret ()
  | some m =>
      if m.state.unstarted then do
        must (perform (.storeMeta T { m with state := .aborted }))
        call (removeMaterials T)
      else ret ()

/-- `_cli_recover`. -/
def cliRecover (H : Host) (T : Txid) (force : Bool) : CallM Unit := do
  let _ ← recover H T force
  return ()

/-- A command line of `pdgtx` that writes. -/
inductive Cmd where
  | new (T : Txid) (mode : Mode)
  | stage (T : Txid) (name : Name) (data : Option Bytes) (expect : Expect)
  | service (T : Txid) (a : Action)
  | guard (T : Txid) (u : ServiceUnit) (want : Want)
  | apply (T : Txid) (allowRunnerDrift : Bool)
  | abort (T : Txid)
  | recover (T : Txid) (force : Bool)
  deriving DecidableEq, Repr

/-- `main`. -/
def Cmd.main (H : Host) : Cmd → CallM Unit
  | .new T mode => cliNew H T mode
  | .stage T name data expect => cliStage H T name data expect
  | .service T a => cliService T a
  | .guard T u want => cliGuard T u want
  | .apply T drift => cliApply H T drift
  | .abort T => cliAbort T
  | .recover T force => cliRecover H T force

/-- The process of a command. -/
def Cmd.process (H : Host) (c : Cmd) : Proc Unit := (c.main H ()).bind (fun _ => .ret ())

end ProxyGateway.Pdgtx
