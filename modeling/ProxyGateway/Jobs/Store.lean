import ProxyGateway.Jobs.Record

set_option autoImplicit false

/-!
# ProxyGateway.Jobs.Store

`JobStore`: what each method does in one critical section, while it holds the lock of the state
directory. A section leaves the records that it wrote even where it raises later.
-/

namespace ProxyGateway.Jobs

open Py

/-! ### Records on disk -/

/-- The records of the state directory, by job id. -/
abbrev Disk := Dict String Json

/-- `_read_record` -/
def readRecord (disk : Disk) (jobId : String) : Py JobError Job := do
  raiseIf (!jobIdRe jobId) (.invalid "invalid job id")
  match disk.get? jobId with
  | none => Py.raise (.notFound "job not found")
  | some record => validateRecord record jobId

/-- `_write_record` -/
def writeRecord (disk : Disk) (job : Job) : Py JobError Disk := do
  let _ ← validateRecord (.obj job.fields) job.id
  return disk.set job.id (.obj job.fields)

/-- `_record_ids` -/
def recordIds (disk : Disk) : List String := (disk.keys.filter jobIdRe).insertionSort (· ≥ ·)

/-! ### Reconciling -/

/-- What `systemctl is-active` answers. -/
inductive UnitState where
  | active | activating | deactivating | inactive | failed | unknown
  deriving DecidableEq, Repr

/-- What `_reconcile` of a record sees: the boot id, the clock for the age, the state of the unit, and
the clock for `finishedAt`. -/
structure Observation where
  bootId : BootId
  now : DateTime
  unitState : UnitState
  finish : DateTime

/-- `age`, in whole seconds; a time that is missing is arbitrarily old. -/
def age (now : DateTime) (job : Job) : Option Nat :=
  (if job.status = .running then job.startedAt else some job.createdAt).map (fun observed => now.seconds - observed.seconds)

/-- `age >= seconds` -/
def aged (now : DateTime) (job : Job) (seconds : Nat) : Bool := (age now job).all (fun age => seconds ≤ age)

/-- `interrupted` -/
def interrupted (seen : Observation) (job : Job) : Bool :=
  if job.bootId ≠ seen.bootId.text then true
  else if job.status = .running || aged seen.now job 60 then
    match seen.unitState with
    | .inactive | .failed => true
    | .unknown =>
        if job.status = .queued then aged seen.now job (5 * 60)
        else aged seen.now job (if job.kind = .softwareUpdate then 50 * 60 else 25 * 60)
    | .active | .activating | .deactivating => false
  else false

/-- The record with its last fields. -/
def Job.close (job : Job) (status : Status) (result : Result) (now : DateTime) : Job :=
  { job with status := status, finishedAt := some now, result := some result }

/-- `_reconcile` -/
def reconcile (disk : Disk) (seen : Observation) (job : Job) : Py JobError (Disk × Job) :=
  if job.status.active && interrupted seen job then do
    let job := job.close .interrupted .runnerInterrupted seen.finish
    return (← writeRecord disk job, job)
  else .ok (disk, job)

/-- A record is read and reconciled. -/
def settle (disk : Disk) (seen : Observation) (jobId : String) : Py JobError (Disk × Job) := do
  reconcile disk seen (← readRecord disk jobId)

/-- The records are settled one after the other; `_assert_idle_locked` stops at one that is active then. -/
def settleAll (idle : Bool) (seen : String → Observation) (disk : Disk) : List String → Disk × Py JobError (List Job)
  | [] => (disk, .ok [])
  | jobId :: jobIds =>
      match settle disk (seen jobId) jobId with
      | .error e => (disk, .error e)
      | .ok (disk, job) =>
          if idle && job.status.active then (disk, Py.raise (.busy "maintenance job already active"))
          else
            let (disk, jobs) := settleAll idle seen disk jobIds
            (disk, (job :: ·) <$> jobs)

/-- `_MAX_RECORDS` -/
def maxRecords : Nat := 50

/-- `_prune_terminal_locked`, for the records that were read. -/
def prune (disk : Disk) (jobs : List Job) : Disk :=
  ((jobs.filter (fun job => !job.status.active)).drop maxRecords).foldl (fun disk job => disk.erase job.id) disk

/-- `_assert_idle_locked`, and so the entry of `maintenance_guard`. -/
def assertIdle (seen : String → Observation) (disk : Disk) : Disk × Py JobError Unit :=
  match settleAll true seen disk (recordIds disk) with
  | (disk, .error e) => (disk, .error e)
  | (disk, .ok jobs) => (prune disk jobs, .ok ())

/-- `list` -/
def list (seen : String → Observation) (disk : Disk) : Disk × Py JobError (List Job) :=
  settleAll false seen disk ((recordIds disk).take maxRecords)

/-- `get` -/
def get (seen : Observation) (jobId : String) (disk : Disk) : Disk × Py JobError Job :=
  match settle disk seen jobId with
  | .error e => (disk, .error e)
  | .ok (disk, job) => (disk, .ok job)

/-! ### Starting a job -/

/-- The arguments of `start`. -/
structure Request where
  kind : Kind
  snapshotId : Option String
  importId : Option String

/-- `secrets.token_hex(6)` -/
structure Token where
  text : String
  shape : hasShape (List.replicate 12 isHex) text.toList = true

/-- What `start` sees while it holds the lock. -/
structure Submission where
  seen : String → Observation
  snapshots : List String
  clock : DateTime
  tokens : List Token
  createdAt : DateTime
  bootId : BootId

/-- The checks of `start` before it takes the lock. -/
def checkRequest (request : Request) : Py JobError Unit := do
  raiseIf (request.kind ≠ .rollback && request.snapshotId.isSome) (.invalid "unexpected snapshot id")
  if request.kind = .configImport then raiseIf (!request.importId.any importIdRe) (.invalid "invalid import id")
  else raiseIf request.importId.isSome (.invalid "unexpected import id")

/-- `resolve_snapshot_id` -/
def resolveSnapshotId (snapshots : List String) (snapshotId : String) : Py JobError String := do
  raiseIf (!snapshotIdRe snapshotId) (.invalid "invalid snapshot id")
  raiseIf (snapshotId ∉ snapshots) (.notFound "snapshot not found")
  return snapshotId

/-- A job id that `_new_job_id` tries. -/
def candidate (clock : DateTime) (token : Token) : String :=
  String.ofList (padded 4 clock.year ++ padded 2 clock.month ++ padded 2 clock.day ++
    ('t' :: (padded 2 clock.hour ++ padded 2 clock.minute ++ padded 2 clock.second)) ++ ['z', '-'] ++ token.text.toList)

/-- `_new_job_id` -/
def newJobId (disk : Disk) (clock : DateTime) (tokens : List Token) : Py JobError String :=
  match ((tokens.take 10).map (candidate clock)).find? (fun jobId => jobId ∉ disk.keys) with
  | some jobId => .ok jobId
  | none => Py.raise (.start "cannot allocate job id")

/-- The snapshot of a rollback is looked up while the lock is held. -/
def snapshotFor (request : Request) (snapshots : List String) : Py JobError (Option String) :=
  if request.kind = .rollback then some <$> resolveSnapshotId snapshots (request.snapshotId.getD "")
  else .ok request.snapshotId

/-- The record that `start` publishes. -/
def submit (request : Request) (given : Submission) (disk : Disk) : Py JobError (Disk × Job) := do
  let snapshotId ← snapshotFor request given.snapshots
  let jobId ← newJobId disk given.clock given.tokens
  let job : Job := ⟨jobId, request.kind, .queued, given.createdAt, given.bootId.text, snapshotId, request.importId, none, none, none⟩
  return (← writeRecord disk job, job)

/-- `start`, until it releases the lock. -/
def start (request : Request) (given : Submission) (disk : Disk) : Disk × Py JobError Job :=
  match checkRequest request with
  | .error e => (disk, .error e)
  | .ok () =>
      match assertIdle given.seen disk with
      | (disk, .error e) => (disk, .error e)
      | (disk, .ok ()) =>
          match submit request given disk with
          | .error e => (disk, .error e)
          | .ok (disk, job) => (disk, .ok job)

/-- The second section of `start`, where `systemd-run` failed: `refused` says that it returned and that
systemd does not know the unit. -/
def launchFailed (jobId : String) (refused : Bool) (now : DateTime) (disk : Disk) : Disk × Py JobError Job :=
  match (do
    let latest ← readRecord disk jobId
    if latest.status = .queued && refused then
      let latest := latest.close .failed .launcherFailed now
      return (← writeRecord disk latest, latest)
    else return (disk, latest) : Py JobError (Disk × Job)) with
  | .error e => (disk, .error e)
  | .ok (disk, job) => (disk, .ok job)

/-! ### Running a job -/

/-- The record of a job that runs. -/
def Job.begin (job : Job) (now : DateTime) : Job := { job with status := .running, startedAt := some now }

/-- The first section of `run`: is the operation to be executed? -/
def beginRun (jobId : String) (bootId : BootId) (now : DateTime) (disk : Disk) : Disk × Py JobError Bool :=
  match (do
    let job ← readRecord disk jobId
    raiseIf (job.status ≠ .queued) (.invalid "job is not queued")
    if job.bootId ≠ bootId.text then return (← writeRecord disk (job.close .interrupted .bootChanged now), false)
    else return (← writeRecord disk (job.begin now), true) :
      Py JobError (Disk × Bool)) with
  | .error e => (disk, .error e)
  | .ok (disk, runs) => (disk, .ok runs)

/-- How the operation ended: it returned `0`, it timed out, or anything else. -/
inductive Ending where
  | completed | timedOut | failed
  deriving DecidableEq, Repr

def Ending.status : Ending → Status
  | .completed => .succeeded
  | .timedOut | .failed => .failed

def Ending.result : Ending → Result
  | .completed => .completed
  | .timedOut => .operationTimedOut
  | .failed => .operationFailed

/-- The second section of `run`. -/
def finishRun (jobId : String) (ending : Ending) (now : DateTime) (disk : Disk) : Disk × Py JobError Unit :=
  match (do
    let latest ← readRecord disk jobId
    if latest.status.active then writeRecord disk (latest.close ending.status ending.result now)
    else return disk : Py JobError Disk) with
  | .error e => (disk, .error e)
  | .ok disk => (disk, .ok ())

/-! ### Reading only, and the legacy clean-up -/

/-- Every record, in the order of the directory listing. -/
def readAll (disk : Disk) : Py JobError (List Job) := (recordIds disk).mapM (readRecord disk)

/-- `can_release_import` -/
def canReleaseImport (importId : String) (disk : Disk) : Bool :=
  importIdRe importId &&
    match readAll disk with
    | .ok jobs => jobs.all (fun job => job.importId ≠ some importId)
    | .error _ => false

/-- The last section of `cleanup_config_import_for_legacy`: the records of the imports that were stopped
are removed, if they are still the same. -/
def removeImports (expected : List Job) (disk : Disk) : Disk × Py JobError Unit :=
  match (do
    let latest ← readAll disk
    raiseIf (latest.filter (fun job => job.kind = .configImport) ≠ expected)
      (.invalid "config-import records changed during cleanup") : Py JobError Unit) with
  | .error e => (disk, .error e)
  | .ok () => (expected.foldl (fun disk job => disk.erase job.id) disk, .ok ())

end ProxyGateway.Jobs
