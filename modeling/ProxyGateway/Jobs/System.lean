import ProxyGateway.Jobs.Moves

set_option autoImplicit false

/-!
# ProxyGateway.Jobs.System

The job store as a system: one critical section after the other, in any order and by any process. Each
section keeps the disk valid and moves records as they may move (`exec_evolves`).
-/

namespace ProxyGateway.Jobs

open Py

/-- A critical section, with all that it is told and sees. -/
inductive Section where
  | list (sees : String → Observation)
  | get (seen : Observation) (jobId : String)
  | guard (sees : String → Observation)
  | start (request : Request) (given : Submission)
  | launchFailed (jobId : String) (refused : Bool) (now : DateTime)
  | beginRun (jobId : String) (bootId : BootId) (now : DateTime)
  | finishRun (jobId : String) (ending : Ending) (now : DateTime)
  | canReleaseImport (importId : String)
  | removeImports (expected : List Job)

/-- What a call raises. -/
def raised {α : Type} : Py JobError α → Option (Raised JobError)
  | .error e => some e
  | .ok _ => none

/-- The disk after a section, and what it raises. -/
def exec : Section → Disk → Disk × Option (Raised JobError)
  | .list sees, disk => ((list sees disk).1, raised (list sees disk).2)
  | .get seen jobId, disk => ((get seen jobId disk).1, raised (get seen jobId disk).2)
  | .guard sees, disk => ((assertIdle sees disk).1, raised (assertIdle sees disk).2)
  | .start request given, disk => ((start request given disk).1, raised (start request given disk).2)
  | .launchFailed jobId refused now, disk => ((launchFailed jobId refused now disk).1, raised (launchFailed jobId refused now disk).2)
  | .beginRun jobId bootId now, disk => ((beginRun jobId bootId now disk).1, raised (beginRun jobId bootId now disk).2)
  | .finishRun jobId ending now, disk => ((finishRun jobId ending now disk).1, raised (finishRun jobId ending now disk).2)
  | .canReleaseImport _, disk => (disk, none)
  | .removeImports expected, disk => ((removeImports expected disk).1, raised (removeImports expected disk).2)

/-- The disk, and the jobs whose operation is being executed. -/
structure System where
  disk : Disk
  running : List String

/-- The job ids that a submission may give out. -/
def Submission.candidates (given : Submission) : List String := given.tokens.map (candidate given.clock)

/-- An operation finishes once, and no new job gets the id of one that is being executed. -/
def allowed (s : System) : Section → Prop
  | .finishRun jobId _ _ => jobId ∈ s.running
  | .start _ given => ∀ jobId ∈ given.candidates, jobId ∉ s.running
  | _ => True

def next (s : System) (l : Section) : System :=
  { disk := (exec l s.disk).1
    running := match l with
      | .beginRun jobId bootId now =>
          match (beginRun jobId bootId now s.disk).2 with
          | .ok true => jobId :: s.running
          | _ => s.running
      | .finishRun jobId _ _ => s.running.erase jobId
      | _ => s.running }

def step (s : System) (l : Section) (t : System) : Prop := allowed s l ∧ t = next s l

/-! ### What the sections do to the records -/

variable {disk disk' disk'' : Disk} {job job' : Job} {jobId id : String} {now : DateTime} {seen : Observation}
  {sees : String → Observation} {fresh : String → Prop}

/-- The disk stays valid, and its records have moved or are new. -/
structure Evolves (fresh : String → Prop) (disk disk' : Disk) : Prop where
  valid : Valid disk'
  moves : ∀ id job', readRecord disk' id = .ok job' →
    (∃ job, readRecord disk id = .ok job ∧ Moves job job') ∨ fresh id ∧ job'.status = .queued

theorem evolves_refl (h : Valid disk) : Evolves fresh disk disk := ⟨h, fun _ job hjob => .inl ⟨job, hjob, .same job⟩⟩

theorem evolves_settleAll {idle : Bool} {ids : List String} (hvalid : Valid disk) (hnodup : ids.Nodup)
    (hids : ∀ id ∈ ids, id ∈ recordIds disk) : Evolves fresh disk (settleAll idle sees disk ids).1 := by
  obtain ⟨hvalid', hkeys, -, hread⟩ := settleAll_spec idle sees hvalid hnodup hids
  refine ⟨hvalid', fun id job' hjob' => .inl ?_⟩
  have hkey : id ∈ recordIds disk := by
    have hin := mem_keys_of_read hjob'
    rw [hkeys] at hin
    obtain ⟨hsound, rfl⟩ := sound_of_read hjob'
    exact mem_recordIds.mpr ⟨hin, hsound.id⟩
  obtain ⟨job, hjob⟩ := hvalid.read hkey
  refine ⟨job, hjob, ?_⟩
  rcases hread id job hjob with hsame | hnew
  · rw [hsame] at hjob'
    cases hjob'
    exact .same _
  · rw [hnew] at hjob'
    cases hjob'
    exact moves_settled (sees id) _

theorem readRecord_of_erase (h : readRecord (disk.erase jobId) id = .ok job) : readRecord disk id = .ok job := by
  have hne : jobId ≠ id := by
    rintro rfl
    exact Dict.get?_eq_none_iff.mp (Dict.get?_erase_self disk jobId) (mem_keys_of_read h)
  rwa [readRecord_congr (Dict.get?_erase_ne hne disk)] at h

/-- Removing records. -/
theorem evolves_eraseAll (jobs : List Job) (h : Evolves fresh disk disk') :
    Evolves fresh disk (jobs.foldl (fun disk job => disk.erase job.id) disk') := by
  induction jobs generalizing disk' with
  | nil => exact h
  | cons job jobs ih =>
      exact ih ⟨h.valid.erase job.id, fun id job' hjob' => h.moves id job' (readRecord_of_erase hjob')⟩

theorem evolves_assertIdle (hvalid : Valid disk) : Evolves fresh disk (assertIdle sees disk).1 := by
  have hsettle : Evolves fresh disk (settleAll true sees disk (recordIds disk)).1 :=
    evolves_settleAll hvalid (nodup_recordIds hvalid.uniq) fun _ h => h
  rw [assertIdle]
  split
  · next hresult =>
    rw [hresult] at hsettle
    exact hsettle
  · next jobs hresult =>
    rw [hresult] at hsettle
    exact evolves_eraseAll _ hsettle

theorem evolves_list (hvalid : Valid disk) : Evolves fresh disk (list sees disk).1 :=
  evolves_settleAll hvalid ((List.take_sublist _ _).nodup (nodup_recordIds hvalid.uniq)) fun _ hid => List.mem_of_mem_take hid

/-- One record is written, which moves. -/
theorem evolves_write (hvalid : Valid disk) (hread : readRecord disk id = .ok job) (hmoves : Moves job job')
    (hid : job'.id = job.id) (h : writeRecord disk job' = .ok disk') : Evolves fresh disk disk' := by
  have hsound : job'.Sound := by
    by_contra hnot
    rw [writeRecord_of_not_sound hnot] at h
    exact raise_ne_ok.mp h
  rw [writeRecord_of_sound disk hsound] at h
  cases h
  refine ⟨hvalid.set hsound, fun id' job'' hjob'' => .inl ?_⟩
  by_cases heq : job'.id = id'
  · subst heq
    rw [readRecord_set_self disk hsound] at hjob''
    cases hjob''
    obtain ⟨-, rfl⟩ := sound_of_read hread
    exact ⟨job, hid ▸ hread, hmoves⟩
  · rw [readRecord_set_ne heq] at hjob''
    exact ⟨job'', hjob'', .same job''⟩

theorem evolves_get (hvalid : Valid disk) : Evolves fresh disk (get seen jobId disk).1 := by
  rw [get]
  cases hread : readRecord disk jobId with
  | error e =>
      rw [settle, hread]
      exact evolves_refl hvalid
  | ok job =>
      cases hlate : late seen job with
      | true =>
          rw [settle_late hread hlate]
          exact evolves_refl hvalid
      | false =>
          obtain ⟨disk', hsettle, hself, -, hvalid', hother⟩ := settle_eq hread hlate
          rw [hsettle]
          refine ⟨hvalid' hvalid, fun id job' hjob' => .inl ?_⟩
          by_cases heq : id = jobId
          · subst heq
            rw [hself] at hjob'
            cases hjob'
            exact ⟨job, hread, moves_settled seen job⟩
          · exact ⟨job', (hother id heq).symm.trans hjob', .same job'⟩

/-! ### New jobs -/

theorem jobIdRe_candidate (clock : DateTime) (token : Token) : jobIdRe (candidate clock token) = true := by
  have hdate : hasShape (digits 8) (padded 4 clock.year ++ padded 2 clock.month ++ padded 2 clock.day) = true :=
    hasShape_append (hasShape_append (hasShape_padded 4 _) (hasShape_padded 2 _)) (hasShape_padded 2 _)
  have htime : hasShape (digits 6) (padded 2 clock.hour ++ padded 2 clock.minute ++ padded 2 clock.second) = true :=
    hasShape_append (hasShape_append (hasShape_padded 2 _) (hasShape_padded 2 _)) (hasShape_padded 2 _)
  have hmark : hasShape [only 't'] ['t'] = true := by decide
  have hend : hasShape [only 'z', only '-'] ['z', '-'] = true := by decide
  rw [jobIdRe, candidate, String.toList_ofList]
  have hall := hasShape_append (hasShape_append hdate (hasShape_append hmark htime)) (hasShape_append hend token.shape)
  simpa using hall

theorem newJobId_eq_ok {clock : DateTime} {tokens : List Token} (h : newJobId disk clock tokens = .ok jobId) :
    jobIdRe jobId = true ∧ jobId ∉ disk.keys ∧ jobId ∈ tokens.map (candidate clock) := by
  rw [newJobId] at h
  split at h
  · next found hfind =>
    cases h
    have hmem := List.mem_of_find?_eq_some hfind
    obtain ⟨token, htoken, rfl⟩ := List.mem_map.mp hmem
    exact ⟨jobIdRe_candidate clock token, by simpa using List.find?_some hfind,
      List.mem_map_of_mem (List.mem_of_mem_take htoken)⟩
  · exact (raise_ne_ok.mp h).elim

theorem snapshotFor_eq_ok {request : Request} {snapshots : List String} {snapshotId : Option String}
    (hrequest : checkRequest request = .ok ()) (h : snapshotFor request snapshots = .ok snapshotId) :
    only? (request.kind = .rollback) snapshotIdRe (snapshotId.map Json.str) = .ok snapshotId := by
  rw [snapshotFor] at h
  split at h
  · next hkind =>
    obtain ⟨s, hs, rfl⟩ := map_eq_ok.mp h
    rw [resolveSnapshotId] at hs
    simp only [raiseIf_bind_eq_ok, Bool.not_eq_false', pure_eq_ok] at hs
    obtain ⟨hre, -, rfl⟩ := hs
    simp [only?, hkind, textLike, hre]
  · next hkind =>
    cases h
    rw [checkRequest, raiseIf_bind_eq_ok] at hrequest
    have hnone : request.snapshotId = none := by simpa [hkind] using hrequest.1
    simp [hnone, only?, hkind]

theorem importFor {request : Request} (h : checkRequest request = .ok ()) :
    only? (request.kind = .configImport) importIdRe (request.importId.map Json.str) = .ok request.importId := by
  rw [checkRequest, raiseIf_bind_eq_ok] at h
  obtain ⟨-, h⟩ := h
  split at h
  · next hkind =>
    rw [raiseIf_eq_ok, Bool.not_eq_false', Option.any_eq_true_iff_get] at h
    obtain ⟨hsome, hre⟩ := h
    obtain ⟨s, hs⟩ := Option.isSome_iff_exists.mp hsome
    simp only [hs, Option.get_some] at hre
    simp [hs, only?, hkind, textLike, hre]
  · next hkind =>
    rw [raiseIf_eq_ok, Option.isSome_eq_false_iff, Option.isNone_iff_eq_none] at h
    simp [h, only?, hkind]

/-- What `submit` writes, if it finds a snapshot and an id. -/
theorem submit_cases {request : Request} (given : Submission) (disk : Disk) (hrequest : checkRequest request = .ok ()) :
    (∃ e, submit request given disk = .error e ∧ e ≠ .error invalidRecord) ∨
    ∃ job, job.Sound ∧ job.status = .queued ∧ job.id ∉ disk.keys ∧ job.id ∈ given.candidates ∧
      submit request given disk = .ok (disk.set job.id (.obj job.fields), job) := by
  rw [submit]
  cases hsnapshot : snapshotFor request given.snapshots with
  | error e =>
      refine .inl ⟨e, rfl, ?_⟩
      -- the lookup of a snapshot has errors of its own
      rintro rfl
      rw [snapshotFor] at hsnapshot
      split at hsnapshot
      · have hne : resolveSnapshotId given.snapshots (request.snapshotId.getD "") ≠ .error (.error invalidRecord) :=
          raiseIf_bind_ne (by decide) (raiseIf_bind_ne (by decide) nofun)
        cases hresolve : resolveSnapshotId given.snapshots (request.snapshotId.getD "") with
        | error e =>
            rw [hresolve] at hsnapshot hne
            exact hne (congrArg Except.error (Except.error.inj hsnapshot))
        | ok s =>
            rw [hresolve] at hsnapshot
            cases hsnapshot
      · cases hsnapshot
  | ok snapshotId =>
      cases hnew : newJobId disk given.clock given.tokens with
      | error e =>
          refine .inl ⟨e, rfl, ?_⟩
          rintro rfl
          rw [newJobId] at hnew
          split at hnew
          · cases hnew
          · cases hnew
      | ok jobId =>
          obtain ⟨hid, hfree, hmem⟩ := newJobId_eq_ok hnew
          have hsound : (⟨jobId, request.kind, .queued, given.createdAt, given.bootId.text, snapshotId, request.importId, none,
              none, none⟩ : Job).Sound :=
            { id := hid
              bootId := given.bootId.shape
              ordered := by simp [disordered]
              snapshotId := snapshotFor_eq_ok hrequest hsnapshot
              importId := importFor hrequest
              queued := fun _ => ⟨rfl, rfl, rfl⟩
              running := nofun
              final := nofun
              matched := rfl
              started := rfl }
          refine .inr ⟨_, hsound, rfl, hfree, hmem, ?_⟩
          have hwrite := writeRecord_of_sound disk hsound
          simp only [ok_bind, hwrite]
          rfl

/-! ### The sections that write one record -/

/-- One record is written, unless the check refuses it. -/
def written {α : Type} (disk : Disk) (job : Job) (result : α) : Disk × Py JobError α :=
  match writeRecord disk job with
  | .error e => (disk, .error e)
  | .ok disk => (disk, .ok result)

/-- The record that the first section of `run` writes. -/
def begun (bootId : BootId) (now : DateTime) (job : Job) : Job :=
  if job.bootId ≠ bootId.text then job.close .interrupted .bootChanged now else job.begin now

variable {bootId : BootId} {ending : Ending} {refused : Bool} {e : Raised JobError}

theorem beginRun_error (h : readRecord disk jobId = .error e) : beginRun jobId bootId now disk = (disk, .error e) := by
  rw [beginRun, h]
  rfl

theorem beginRun_not_queued (h : readRecord disk jobId = .ok job) (hstatus : job.status ≠ .queued) :
    beginRun jobId bootId now disk = (disk, Py.raise (.invalid "job is not queued")) := by
  rw [beginRun, h]
  simp only [ok_bind, raiseIf, decide_eq_true hstatus, if_true]
  rfl

theorem beginRun_queued (h : readRecord disk jobId = .ok job) (hstatus : job.status = .queued) :
    beginRun jobId bootId now disk = written disk (begun bootId now job) (decide (job.bootId = bootId.text)) := by
  rw [beginRun, h, begun, written]
  simp only [ok_bind, raiseIf, hstatus, ne_eq, not_true_eq_false, decide_false, Bool.false_eq_true, if_false]
  by_cases hboot : job.bootId = bootId.text
  · rw [if_neg (not_not.mpr hboot), if_neg (not_not.mpr hboot), decide_eq_true hboot]
    cases writeRecord disk (job.begin now) <;> rfl
  · rw [if_pos hboot, if_pos hboot, decide_eq_false hboot]
    cases writeRecord disk (job.close .interrupted .bootChanged now) <;> rfl

theorem finishRun_error (h : readRecord disk jobId = .error e) : finishRun jobId ending now disk = (disk, .error e) := by
  rw [finishRun, h]
  rfl

theorem finishRun_final (h : readRecord disk jobId = .ok job) (hstatus : job.status.active = false) :
    finishRun jobId ending now disk = (disk, .ok ()) := by
  rw [finishRun, h]
  simp only [ok_bind, hstatus, Bool.false_eq_true, if_false]
  rfl

theorem finishRun_active (h : readRecord disk jobId = .ok job) (hstatus : job.status.active = true) :
    finishRun jobId ending now disk = written disk (job.close ending.status ending.result now) () := by
  rw [finishRun, h, ok_bind, if_pos hstatus]
  unfold written
  cases writeRecord disk (job.close ending.status ending.result now) <;> rfl

theorem launchFailed_error (h : readRecord disk jobId = .error e) : launchFailed jobId refused now disk = (disk, .error e) := by
  rw [launchFailed, h]
  rfl

theorem launchFailed_kept (h : readRecord disk jobId = .ok job) (hstatus : (decide (job.status = .queued) && refused) = false) :
    launchFailed jobId refused now disk = (disk, .ok job) := by
  rw [launchFailed, h]
  simp only [ok_bind, hstatus, Bool.false_eq_true, if_false]
  rfl

theorem launchFailed_refused (h : readRecord disk jobId = .ok job)
    (hstatus : (decide (job.status = .queued) && refused) = true) : launchFailed jobId refused now disk =
      written disk (job.close .failed .launcherFailed now) (job.close .failed .launcherFailed now) := by
  rw [launchFailed, h, written]
  simp only [ok_bind, hstatus, if_true]
  cases writeRecord disk (job.close .failed .launcherFailed now) <;> rfl

theorem moves_begun (hstatus : job.status = .queued) : Moves job (begun bootId now job) := by
  rw [begun]
  split
  · exact .closes job _ _ now (by rw [hstatus]; rfl) rfl
  · exact .begins job now hstatus

theorem sound_begun (bootId : BootId) (now : DateTime) (h : job.Sound) (hstatus : job.status = .queued) :
    (begun bootId now job).Sound ↔ job.outdated now = false := by
  rw [begun]
  split
  · refine sound_close h (by rw [hstatus]; rfl) rfl rfl ?_
    rw [(h.queued hstatus).1]
    rfl
  · exact sound_begin h hstatus

/-- An operation that ended closes the record of a job that runs. -/
theorem sound_ending (ending : Ending) (now : DateTime) (h : job.Sound) (hstatus : job.status = .running) :
    (job.close ending.status ending.result now).Sound ↔ job.outdated now = false := by
  obtain ⟨started, hstarted⟩ := Option.ne_none_iff_exists'.mp (h.running hstatus).1
  refine sound_close h (by rw [hstatus]; rfl) (by cases ending <;> rfl) (by cases ending <;> rfl) ?_
  rw [hstarted]
  cases ending <;> rfl

theorem sound_refused (now : DateTime) (h : job.Sound) (hstatus : job.status = .queued) :
    (job.close .failed .launcherFailed now).Sound ↔ job.outdated now = false := by
  refine sound_close h (by rw [hstatus]; rfl) rfl rfl ?_
  rw [(h.queued hstatus).1]
  rfl

theorem evolves_written {α : Type} (hvalid : Valid disk) (hread : readRecord disk jobId = .ok job) (hmoves : Moves job job')
    (hid : job'.id = job.id) (result : α) : Evolves fresh disk (written disk job' result).1 := by
  rw [written]
  cases hwrite : writeRecord disk job' with
  | error e => exact evolves_refl hvalid
  | ok disk' => exact evolves_write hvalid hread hmoves hid hwrite

theorem evolves_beginRun (hvalid : Valid disk) : Evolves fresh disk (beginRun jobId bootId now disk).1 := by
  cases hread : readRecord disk jobId with
  | error e =>
      rw [beginRun_error hread]
      exact evolves_refl hvalid
  | ok job =>
      by_cases hstatus : job.status = .queued
      · rw [beginRun_queued hread hstatus]
        refine evolves_written hvalid hread (moves_begun hstatus) ?_ _
        rw [begun]
        split <;> rfl
      · rw [beginRun_not_queued hread hstatus]
        exact evolves_refl hvalid

theorem evolves_finishRun (hvalid : Valid disk) : Evolves fresh disk (finishRun jobId ending now disk).1 := by
  cases hread : readRecord disk jobId with
  | error e =>
      rw [finishRun_error hread]
      exact evolves_refl hvalid
  | ok job =>
      cases hstatus : job.status.active with
      | true =>
          rw [finishRun_active hread hstatus]
          exact evolves_written hvalid hread (.closes job _ _ now hstatus (by cases ending <;> rfl)) rfl ()
      | false =>
          rw [finishRun_final hread hstatus]
          exact evolves_refl hvalid

theorem evolves_launchFailed (hvalid : Valid disk) : Evolves fresh disk (launchFailed jobId refused now disk).1 := by
  cases hread : readRecord disk jobId with
  | error e =>
      rw [launchFailed_error hread]
      exact evolves_refl hvalid
  | ok job =>
      cases hstatus : decide (job.status = .queued) && refused with
      | true =>
          rw [launchFailed_refused hread hstatus]
          have hqueued : job.status = .queued := of_decide_eq_true (Bool.and_eq_true_iff.mp hstatus).1
          exact evolves_written hvalid hread (.closes job _ _ now (by rw [hqueued]; rfl) rfl) rfl _
      | false =>
          rw [launchFailed_kept hread hstatus]
          exact evolves_refl hvalid

theorem evolves_removeImports (expected : List Job) (hvalid : Valid disk) :
    Evolves fresh disk (removeImports expected disk).1 := by
  rw [removeImports]
  split
  · exact evolves_refl hvalid
  · exact evolves_eraseAll _ (evolves_refl hvalid)

theorem evolves_start (request : Request) (given : Submission) (hvalid : Valid disk) :
    Evolves (· ∈ given.candidates) disk (start request given disk).1 := by
  rw [start]
  cases hrequest : checkRequest request with
  | error e => exact evolves_refl hvalid
  | ok u =>
      have hidle : Evolves (· ∈ given.candidates) disk (assertIdle given.seen disk).1 := evolves_assertIdle hvalid
      cases hresult : assertIdle given.seen disk with
      | mk disk' result =>
          rw [hresult] at hidle
          cases result with
          | error e => exact hidle
          | ok u' =>
              rcases submit_cases given disk' hrequest with ⟨e, hsubmit, -⟩ | ⟨job, hsound, hqueued, -, hid, hsubmit⟩
              · simp only [hsubmit]
                exact hidle
              · simp only [hsubmit]
                refine ⟨hidle.valid.set hsound, fun id job' hjob' => ?_⟩
                by_cases heq : job.id = id
                · subst heq
                  rw [readRecord_set_self disk' hsound] at hjob'
                  cases hjob'
                  exact .inr ⟨hid, hqueued⟩
                · rw [readRecord_set_ne heq] at hjob'
                  exact hidle.moves id job' hjob'

/-- The ids that a section may give out. -/
def Section.issues : Section → String → Prop
  | .start _ given => (· ∈ given.candidates)
  | _ => fun _ => False

/-- Whatever a section does or raises, the disk stays valid and the records have moved or are new. -/
theorem exec_evolves (l : Section) (hvalid : Valid disk) : Evolves l.issues disk (exec l disk).1 := by
  cases l with
  | list sees => exact evolves_list hvalid
  | get seen jobId => exact evolves_get hvalid
  | guard sees => exact evolves_assertIdle hvalid
  | start request given => exact evolves_start request given hvalid
  | launchFailed jobId refused now => exact evolves_launchFailed hvalid
  | beginRun jobId bootId now => exact evolves_beginRun hvalid
  | finishRun jobId ending now => exact evolves_finishRun hvalid
  | canReleaseImport importId => exact evolves_refl hvalid
  | removeImports expected => exact evolves_removeImports expected hvalid

end ProxyGateway.Jobs
