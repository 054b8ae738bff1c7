import ProxyGateway.Jobs.Clock

set_option autoImplicit false

/-!
# ProxyGateway.Jobs.Linear

The job store as a linear state machine. The runners and the maintenance guard stand beside the records:
at most one record is active, records only move on, and an operation is executed at most once
(`linear_run`); with a truthful `systemctl` and one boot id no two operations are in progress
(`exclusive_run`).
-/

namespace ProxyGateway.Jobs

open Py Runs

variable {disk disk' : Disk} {job job' : Job} {jobId id : String} {now : DateTime} {seen : Observation}
  {sees : String → Observation} {bootId : BootId} {ending : Ending} {refused : Bool} {l : Section}

/-! ### The gate -/

/-- Every record that is read at the gate is not active when it opens. -/
theorem assertIdle_quiet (sees : String → Observation) (hvalid : Valid disk) (h : (assertIdle sees disk).2 = .ok ()) :
    ∀ id job, readRecord (assertIdle sees disk).1 id = .ok job → job.status.active = false := by
  rw [assertIdle] at h ⊢
  rcases hsettle : settleAll true sees disk (recordIds disk) with ⟨disk', result⟩
  have hspec := settleAll_spec true sees hvalid (nodup_recordIds hvalid.uniq) fun _ hid => hid
  have hresult := settleAll_result true sees hvalid (nodup_recordIds hvalid.uniq) fun _ hid => hid
  rw [hsettle] at h hspec hresult
  rcases hresult with ⟨hraise, -⟩ | ⟨hraise, -⟩ | ⟨jobs, hok, -, hjobs⟩
  · cases hraise
    cases h
  · cases hraise
    cases h
  · cases hok
    intro id job hread
    have hread' : readRecord disk' id = .ok job := by
      have herase : ∀ (jobs : List Job) (disk : Disk), readRecord (jobs.foldl (fun disk job => disk.erase job.id) disk) id = .ok job →
          readRecord disk id = .ok job := by
        intro jobs
        induction jobs with
        | nil => exact fun _ h => h
        | cons job jobs ih => exact fun disk h => readRecord_of_erase (ih _ h)
      exact herase _ disk' hread
    have hid : id ∈ recordIds disk := by
      obtain ⟨hsound, rfl⟩ := sound_of_read hread'
      have hkey := mem_keys_of_read hread'
      rw [hspec.2.1] at hkey
      exact mem_recordIds.mpr ⟨hkey, hsound.id⟩
    obtain ⟨job'', -, old, -, -, hnew, hquiet⟩ := exists_of_forall₂ hjobs hid
    rw [hread'] at hnew
    cases hnew
    exact hquiet rfl

/-- A record that is active and not due keeps the gate shut, and stays. -/
theorem assertIdle_kept (sees : String → Observation) (hvalid : Valid disk) (hread : readRecord disk id = .ok job) (hactive : job.status.active = true)
    (hdue : due (sees id) job = false) :
    readRecord (assertIdle sees disk).1 id = .ok job ∧ (assertIdle sees disk).2 ≠ .ok () := by
  have hsame : settled (sees id) job = job := by rw [settled, hdue, if_neg Bool.false_ne_true]
  have hspec := settleAll_spec true sees hvalid (nodup_recordIds hvalid.uniq) fun _ hid => hid
  have hresult := settleAll_result true sees hvalid (nodup_recordIds hvalid.uniq) fun _ hid => hid
  have hstays : readRecord (settleAll true sees disk (recordIds disk)).1 id = .ok job := by
    rcases hspec.2.2.2 id job hread with hkept | hnew
    · exact hkept
    · rwa [hsame] at hnew
  rw [assertIdle]
  rcases hsettle : settleAll true sees disk (recordIds disk) with ⟨disk', result⟩
  rw [hsettle] at hresult hstays
  rcases hresult with ⟨hraise, -⟩ | ⟨hraise, -⟩ | ⟨jobs, hok, -, hjobs⟩
  · cases hraise
    exact ⟨hstays, fun heq => by cases heq⟩
  · cases hraise
    exact ⟨hstays, fun heq => by cases heq⟩
  · -- with every record settled this one would not be active
    obtain ⟨hsound, rfl⟩ := sound_of_read hread
    obtain ⟨job'', -, old, -, -, hnew, hquiet⟩ :=
      exists_of_forall₂ hjobs (mem_recordIds.mpr ⟨mem_keys_of_read hread, hsound.id⟩)
    rw [hstays] at hnew
    cases hnew
    rw [hquiet rfl] at hactive
    cases hactive

/-- `start` leaves the records that were, or adds one that is queued where no other is active. -/
theorem start_cases (request : Request) (given : Submission) (hvalid : Valid disk) :
    (Evolves (fun _ => False) disk (start request given disk).1 ∧ ∀ job, (start request given disk).2 ≠ .ok job) ∨
    ∃ job, (start request given disk).2 = .ok job ∧ job.status = .queued ∧
      readRecord (start request given disk).1 job.id = .ok job ∧ (assertIdle given.seen disk).2 = .ok () ∧
      ∀ id job', id ≠ job.id → readRecord (start request given disk).1 id = .ok job' →
        job'.status.active = false ∧ ∃ old, readRecord disk id = .ok old ∧ Moves old job' := by
  have hidle : Evolves (fun _ => False) disk (assertIdle given.seen disk).1 := evolves_assertIdle hvalid
  have hquiet := assertIdle_quiet given.seen hvalid
  rw [start]
  cases hrequest : checkRequest request with
  | error e => exact .inl ⟨evolves_refl hvalid, fun _ heq => by cases heq⟩
  | ok u =>
      rcases hgate : assertIdle given.seen disk with ⟨disk', result⟩
      rw [hgate] at hidle
      cases result with
      | error e => exact .inl ⟨hidle, fun _ heq => by cases heq⟩
      | ok u' =>
          rcases submit_cases given disk' hrequest with ⟨e, hsubmit, -⟩ | ⟨job, hsound, hqueued, -, -, hsubmit⟩
          · simp only [hsubmit]
            exact .inl ⟨hidle, fun _ heq => by cases heq⟩
          · simp only [hsubmit]
            refine .inr ⟨job, rfl, hqueued, readRecord_set_self disk' hsound, trivial, fun id job' hne hread => ?_⟩
            rw [readRecord_set_ne hne.symm] at hread
            have hold := hidle.moves id job' hread
            refine ⟨?_, hold.resolve_right fun h => h.1⟩
            have hopen := hquiet (by rw [hgate])
            rw [hgate] at hopen
            exact hopen id job' hread

/-! ### Runners and the guard -/

/-- A runner that began is about to execute its operation, executes it, or is about to finish. -/
inductive Phase where
  | accepted | operating | ended
  deriving DecidableEq, Repr

/-- The records, the action under the maintenance guard, which holds the lock, and the runners. The last
three lists count: the jobs that were submitted, that were begun and whose operation was started. -/
structure World where
  disk : Disk
  guarded : Bool
  runners : List (String × Phase)
  submitted : List String
  begun : List String
  operated : List String

inductive Event where
  | critical (l : Section)
  | leaveGuard
  | operate (jobId : String)
  | operationEnds (jobId : String)
  | dies (jobId : String) (phase : Phase)

/-- What an event needs: the lock is free, or a runner is in the phase. -/
def enabled (w : World) : Event → Prop
  | .critical (.finishRun jobId _ _) => w.guarded = false ∧ (jobId, .ended) ∈ w.runners
  | .critical _ => w.guarded = false
  | .leaveGuard => w.guarded = true
  | .operate jobId => (jobId, .accepted) ∈ w.runners
  | .operationEnds jobId => (jobId, .operating) ∈ w.runners
  | .dies jobId phase => (jobId, phase) ∈ w.runners

/-- What a critical section changes beside the records. -/
def afterSection (w : World) : Section → World
  | .guard sees => { w with guarded := decide ((assertIdle sees w.disk).2 = .ok ()) }
  | .start request given =>
      match (start request given w.disk).2 with
      | .ok job => { w with submitted := job.id :: w.submitted }
      | .error _ => w
  | .beginRun jobId bootId now =>
      match (beginRun jobId bootId now w.disk).2 with
      | .ok true => { w with runners := (jobId, .accepted) :: w.runners, begun := jobId :: w.begun }
      | _ => w
  | .finishRun jobId _ _ => { w with runners := w.runners.erase (jobId, .ended) }
  | _ => w

def happen (w : World) : Event → World
  | .critical l => { afterSection w l with disk := (exec l w.disk).1 }
  | .leaveGuard => { w with guarded := false }
  | .operate jobId =>
      { w with runners := (jobId, .operating) :: w.runners.erase (jobId, .accepted), operated := jobId :: w.operated }
  | .operationEnds jobId => { w with runners := (jobId, .ended) :: w.runners.erase (jobId, .operating) }
  | .dies jobId phase => { w with runners := w.runners.erase (jobId, phase) }

def occurs (w : World) (e : Event) (w' : World) : Prop := enabled w e ∧ w' = happen w e

/-! ### At most one record is active -/

/-- The statuses that a status may be followed by. -/
def Follows : Status → Status → Prop
  | .queued, status => status ≠ .succeeded
  | .running, status => status ≠ .queued
  | status, status' => status' = status

theorem Moves.follows (h : Moves job job') (hsound : job.Sound) (hsound' : job'.Sound) : Follows job.status job'.status := by
  cases h with
  | same => cases job.status <;> simp [Follows]
  | begins now hstatus =>
      rw [hstatus]
      exact nofun
  | closes status result now hactive hfinal =>
      change Follows job.status status
      cases hstatus : job.status with
      | queued =>
          rintro rfl
          have hstarted := hsound'.started
          simp only [Job.close, (hsound.queued hstatus).1, requiresStarted] at hstarted
          simp at hstarted
      | running =>
          rintro rfl
          cases hfinal
      | succeeded | failed | interrupted =>
          rw [hstatus] at hactive
          cases hactive

theorem Moves.of_final (h : Moves job job') (hfinal : job.status.active = false) : job' = job := by
  cases h with
  | same => rfl
  | begins now hstatus =>
      rw [hstatus] at hfinal
      cases hfinal
  | closes status result now hactive _ =>
      rw [hfinal] at hactive
      cases hactive

theorem Moves.active (h : Moves job job') (hactive : job'.status.active = true) : job.status.active = true := by
  cases h with
  | same => exact hactive
  | begins now hstatus =>
      rw [hstatus]
      rfl
  | closes status result now hbefore _ => exact hbefore

/-- Only one record is queued or running. -/
def Single (disk : Disk) : Prop :=
  ∀ id id' job job', readRecord disk id = .ok job → readRecord disk id' = .ok job' → job.status.active = true →
    job'.status.active = true → id = id'

theorem Evolves.single (h : Evolves (fun _ => False) disk disk') (hsingle : Single disk) : Single disk' := by
  intro id id' job job' hread hread' hactive hactive'
  obtain ⟨old, hold, hmoves⟩ := (h.moves id job hread).resolve_right fun h => h.1
  obtain ⟨old', hold', hmoves'⟩ := (h.moves id' job' hread').resolve_right fun h => h.1
  exact hsingle id id' old old' hold hold' (hmoves.active hactive) (hmoves'.active hactive')

/-- A section other than a submission gives out no id. -/
theorem exec_moves (l : Section) (hvalid : Valid disk) (h : ∀ request given, l = .start request given →
    ∀ job, (start request given disk).2 ≠ .ok job) : Evolves (fun _ => False) disk (exec l disk).1 := by
  have hevolves := exec_evolves l hvalid
  cases l with
  | start request given =>
      rcases start_cases request given hvalid with ⟨hkept, -⟩ | ⟨job, hok, -⟩
      · exact hkept
      · exact absurd hok (h request given rfl job)
  | _ => exact hevolves

theorem single_exec (l : Section) (hvalid : Valid disk) (hsingle : Single disk) : Single (exec l disk).1 := by
  by_cases hsubmits : ∃ request given job, l = .start request given ∧ (start request given disk).2 = .ok job
  · obtain ⟨request, given, job, rfl, hok⟩ := hsubmits
    rcases start_cases request given hvalid with ⟨-, hnone⟩ | ⟨job', -, -, -, -, hothers⟩
    · exact absurd hok (hnone job)
    · have hnew : ∀ id old, readRecord (exec (.start request given) disk).1 id = .ok old → old.status.active = true →
          id = job'.id := by
        intro id old hread hactive
        by_contra hne
        rw [(hothers id old hne hread).1] at hactive
        cases hactive
      intro id id' old old' hread hread' hactive hactive'
      exact (hnew id old hread hactive).trans (hnew id' old' hread' hactive').symm
  · refine (exec_moves l hvalid fun request given hl job hok => ?_).single hsingle
    exact hsubmits ⟨request, given, job, hl, hok⟩

/-! ### Operations are executed once -/

/-- Is the record of a job queued? -/
def isQueued (disk : Disk) (jobId : String) : Bool :=
  match readRecord disk jobId with
  | .ok job => job.status = .queued
  | .error _ => false

theorem isQueued_of_read (h : readRecord disk jobId = .ok job) : isQueued disk jobId = decide (job.status = .queued) := by
  rw [isQueued, h]

theorem isQueued_eq_true : isQueued disk jobId = true ↔ ∃ job, readRecord disk jobId = .ok job ∧ job.status = .queued := by
  rw [isQueued]
  cases readRecord disk jobId with
  | error e => exact iff_of_false Bool.noConfusion nofun
  | ok job => simp

theorem Evolves.isQueued (h : Evolves (fun _ => False) disk disk') (hqueued : isQueued disk' id = true) : isQueued disk id = true := by
  obtain ⟨job', hread, hstatus⟩ := isQueued_eq_true.mp hqueued
  obtain ⟨job, hold, hmoves⟩ := (h.moves id job' hread).resolve_right fun h => h.1
  refine isQueued_eq_true.mpr ⟨job, hold, ?_⟩
  by_contra hne
  exact hmoves.not_queued hne hstatus

/-- What is counted: a job is begun once for each time it was submitted and is no longer queued, and its
operation is started once for each time it was begun. -/
structure Counted (w : World) : Prop where
  begun : ∀ id, w.begun.count id + (isQueued w.disk id).toNat ≤ w.submitted.count id
  operated : ∀ id, w.operated.count id + w.runners.count (id, .accepted) ≤ w.begun.count id

/-- The records are valid and one at most is active, and every operation is executed at most once. -/
structure Linear (w : World) : Prop where
  valid : Valid w.disk
  single : Single w.disk
  counted : Counted w

theorem counted_of_evolves {w : World} (h : Counted w) (hevolves : Evolves (fun _ => False) w.disk disk') :
    Counted { w with disk := disk' } := by
  refine ⟨fun id => (Nat.add_le_add_left ?_ _).trans (h.begun id), h.operated⟩
  cases hafter : isQueued disk' id with
  | false => exact Nat.zero_le _
  | true => rw [hevolves.isQueued hafter]

theorem counted_section {w : World} (l : Section) (h : Linear w) :
    Counted { afterSection w l with disk := (exec l w.disk).1 } := by
  have hcounted := h.counted
  cases l with
  | start request given =>
      rcases start_cases request given h.valid with ⟨hevolves, hnone⟩ | ⟨job, hok, hqueued, hnew, -, hothers⟩
      · have hsame : afterSection w (.start request given) = w := by
          rw [afterSection]
          split
          · next job hok => exact absurd hok (hnone job)
          · rfl
        rw [hsame]
        exact counted_of_evolves hcounted hevolves
      · have hafter : afterSection w (.start request given) = { w with submitted := job.id :: w.submitted } := by
          rw [afterSection, hok]
        rw [hafter]
        -- only the new job comes to be queued, and it is submitted once more
        refine ⟨fun id => ?_, hcounted.operated⟩
        have hbefore := hcounted.begun id
        show w.begun.count id + (isQueued (start request given w.disk).1 id).toNat ≤ (job.id :: w.submitted).count id
        by_cases heq : id = job.id
        · subst heq
          rw [List.count_cons_self, isQueued_of_read hnew]
          have := Bool.toNat_le (decide (job.status = .queued))
          omega
        · rw [List.count_cons_of_ne (Ne.symm heq)]
          cases hafterQueued : isQueued (start request given w.disk).1 id with
          | false =>
              rw [Bool.toNat_false]
              omega
          | true =>
              obtain ⟨job', hread, hstatus⟩ := isQueued_eq_true.mp hafterQueued
              have hquiet := (hothers id job' heq hread).1
              rw [hstatus] at hquiet
              cases hquiet
  | beginRun jobId bootId now =>
      by_cases hbegun : (beginRun jobId bootId now w.disk).2 = .ok true
      · have hafter : afterSection w (.beginRun jobId bootId now) =
            { w with runners := (jobId, .accepted) :: w.runners, begun := jobId :: w.begun } := by
          rw [afterSection, hbegun]
        obtain ⟨job, hread, hstatus, -, hnew⟩ := beginRun_accepts hbegun
        have hqueued : isQueued w.disk jobId = true := isQueued_eq_true.mpr ⟨job, hread, hstatus⟩
        have hrunning : isQueued (beginRun jobId bootId now w.disk).1 jobId = false := isQueued_of_read hnew
        have hevolves : Evolves (fun _ => False) w.disk (beginRun jobId bootId now w.disk).1 := evolves_beginRun h.valid
        rw [hafter]
        -- the job leaves the queue as it is begun, so their sum is as before
        refine ⟨fun id => ?_, fun id => ?_⟩
        · have hbefore := hcounted.begun id
          show (jobId :: w.begun).count id + (isQueued (beginRun jobId bootId now w.disk).1 id).toNat ≤ w.submitted.count id
          by_cases heq : jobId = id
          · subst heq
            rw [hqueued, Bool.toNat_true] at hbefore
            rw [List.count_cons_self, hrunning, Bool.toNat_false]
            omega
          · rw [List.count_cons_of_ne heq]
            exact (counted_of_evolves hcounted hevolves).begun id
        · have hbefore := hcounted.operated id
          show w.operated.count id + ((jobId, Phase.accepted) :: w.runners).count (id, .accepted) ≤ (jobId :: w.begun).count id
          by_cases heq : jobId = id
          · subst heq
            rw [List.count_cons_self, List.count_cons_self]
            omega
          · rw [List.count_cons_of_ne heq, List.count_cons_of_ne (by simpa using heq)]
            exact hbefore
      · have hsame : afterSection w (.beginRun jobId bootId now) = w := by
          rw [afterSection]
          split
          · next hok => exact absurd hok hbegun
          · rfl
        rw [hsame]
        exact counted_of_evolves hcounted (evolves_beginRun h.valid)
  | finishRun jobId ending now =>
      have hkept := counted_of_evolves hcounted
        (show Evolves (fun _ => False) w.disk (finishRun jobId ending now w.disk).1 from evolves_finishRun h.valid)
      refine ⟨hkept.begun, fun id => ?_⟩
      show w.operated.count id + (w.runners.erase (jobId, .ended)).count (id, .accepted) ≤ w.begun.count id
      rw [List.count_erase_of_ne (by simp)]
      exact hcounted.operated id
  | list sees => exact counted_of_evolves hcounted (evolves_list h.valid)
  | get seen jobId => exact counted_of_evolves hcounted (evolves_get h.valid)
  | guard sees =>
      have hkept := counted_of_evolves hcounted
        (show Evolves (fun _ => False) w.disk (assertIdle sees w.disk).1 from evolves_assertIdle h.valid)
      exact ⟨hkept.begun, hkept.operated⟩
  | launchFailed jobId refused now => exact counted_of_evolves hcounted (evolves_launchFailed h.valid)
  | canReleaseImport importId => exact hcounted
  | removeImports expected => exact counted_of_evolves hcounted (evolves_removeImports expected h.valid)

theorem linear_happen {w w' : World} {e : Event} (h : Linear w) (hoccurs : occurs w e w') : Linear w' := by
  obtain ⟨henabled, rfl⟩ := hoccurs
  cases e with
  | critical l => exact ⟨(exec_evolves l h.valid).valid, single_exec l h.valid h.single, counted_section l h⟩
  | leaveGuard => exact ⟨h.valid, h.single, h.counted.begun, h.counted.operated⟩
  | operate jobId =>
      refine ⟨h.valid, h.single, h.counted.begun, fun id => ?_⟩
      have hbefore := h.counted.operated id
      show (jobId :: w.operated).count id + ((jobId, Phase.operating) :: w.runners.erase (jobId, .accepted)).count (id, .accepted) ≤
        w.begun.count id
      have hrunners : ((jobId, Phase.operating) :: w.runners.erase (jobId, .accepted)).count (id, .accepted) =
          (w.runners.erase (jobId, .accepted)).count (id, .accepted) := List.count_cons_of_ne (by simp)
      rw [hrunners]
      by_cases heq : jobId = id
      · subst heq
        have hpos : 0 < w.runners.count (jobId, .accepted) := List.count_pos_iff.mpr henabled
        rw [List.count_cons_self, List.count_erase_self]
        omega
      · rw [List.count_cons_of_ne heq, List.count_erase_of_ne (by simpa using Ne.symm heq)]
        exact hbefore
  | operationEnds jobId =>
      refine ⟨h.valid, h.single, h.counted.begun, fun id => ?_⟩
      show w.operated.count id + ((jobId, Phase.ended) :: w.runners.erase (jobId, .operating)).count (id, .accepted) ≤ w.begun.count id
      rw [List.count_cons_of_ne (by simp), List.count_erase_of_ne (by simp)]
      exact h.counted.operated id
  | dies jobId phase =>
      refine ⟨h.valid, h.single, h.counted.begun, fun id => ?_⟩
      refine (Nat.add_le_add_left ?_ _).trans (h.counted.operated id)
      exact (List.erase_sublist).count_le _

end ProxyGateway.Jobs
