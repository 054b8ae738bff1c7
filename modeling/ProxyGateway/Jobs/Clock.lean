import ProxyGateway.Jobs.System
import ProxyGateway.Lib.Runs

set_option autoImplicit false

/-!
# ProxyGateway.Jobs.Clock

Wall clocks that go backwards. A record is checked again whenever it is written, so that a section which
closes or begins a record raises exactly if its clock is behind the times of the record
(`completes_iff_behind`).
-/

namespace ProxyGateway.Jobs

open Py Runs

variable {disk : Disk} {job job' : Job} {jobId id : String} {now : DateTime} {seen : Observation}
  {sees : String → Observation} {bootId : BootId} {ending : Ending} {refused : Bool} {s t : System} {l : Section}

/-! ### The invariant -/

/-- The records are valid, and no job that is being executed is queued. -/
structure Inv (s : System) : Prop where
  valid : Valid s.disk
  begun : ∀ jobId ∈ s.running, ∀ job, readRecord s.disk jobId = .ok job → job.status ≠ .queued

theorem Moves.not_queued (h : Moves job job') (hstatus : job.status ≠ .queued) : job'.status ≠ .queued := by
  cases h with
  | same => exact hstatus
  | begins now => nofun
  | closes status result now hactive hfinal =>
      intro hqueued
      change status = .queued at hqueued
      rw [hqueued] at hfinal
      cases hfinal

/-- A record is written exactly if the clock is not behind. -/
theorem written_cases {α : Type} (disk : Disk) (result : α) (hsound : job'.Sound ↔ job.outdated now = false) (hid : job'.id = id) :
    (job.outdated now = true ∧ written disk job' result = (disk, Py.raise invalidRecord)) ∨
      job.outdated now = false ∧ ∃ disk', readRecord disk' id = .ok job' ∧ written disk job' result = (disk', .ok result) := by
  subst hid
  rw [written]
  cases houtdated : job.outdated now with
  | true =>
      have hnot : ¬job'.Sound := by
        rw [hsound, houtdated]
        exact Bool.noConfusion
      rw [writeRecord_of_not_sound hnot]
      exact .inl ⟨rfl, rfl⟩
  | false =>
      have hyes := hsound.mpr houtdated
      rw [writeRecord_of_sound disk hyes]
      exact .inr ⟨rfl, _, readRecord_set_self disk hyes, rfl⟩

/-- What the first section of `run` accepts was queued and runs. -/
theorem beginRun_accepts (h : (beginRun jobId bootId now disk).2 = .ok true) :
    (∃ job, readRecord disk jobId = .ok job ∧ job.status = .queued ∧ job.bootId = bootId.text ∧
      readRecord (beginRun jobId bootId now disk).1 jobId = .ok (job.begin now)) := by
  cases hread : readRecord disk jobId with
  | error e =>
      rw [beginRun_error hread] at h
      cases h
  | ok job =>
      by_cases hstatus : job.status = .queued
      · rw [beginRun_queued hread hstatus] at h ⊢
        obtain ⟨hjob, hid⟩ := sound_of_read hread
        have hbegunId : (begun bootId now job).id = jobId := by
          rw [begun]
          split <;> exact hid
        rcases written_cases disk (decide (job.bootId = bootId.text)) (sound_begun bootId now hjob hstatus) hbegunId with
          ⟨-, hraise⟩ | ⟨-, disk', hnew, hok⟩
        · rw [hraise] at h
          cases h
        · rw [hok] at h ⊢
          have hboot : job.bootId = bootId.text := of_decide_eq_true (Except.ok.inj h)
          rw [begun, if_neg (not_not.mpr hboot)] at hnew
          exact ⟨job, rfl, hstatus, hboot, hnew⟩
      · rw [beginRun_not_queued hread hstatus] at h
        exact (raise_ne_ok.mp h).elim

/-- What a section moves stays begun. -/
theorem begun_next (h : Inv s) (hallowed : allowed s l) {id : String} (hid : id ∈ s.running)
    (hread : readRecord (exec l s.disk).1 id = .ok job') : job'.status ≠ .queued := by
  rcases (exec_evolves l h.valid).moves id job' hread with ⟨job, hjob, hmoves⟩ | ⟨hissued, -⟩
  · exact hmoves.not_queued (h.begun id hid job hjob)
  · cases l with
    | start request given => exact absurd hid (hallowed id hissued)
    | _ => exact hissued.elim

theorem inv_next (h : Inv s) (hstep : step s l t) : Inv t := by
  obtain ⟨hallowed, rfl⟩ := hstep
  refine ⟨(exec_evolves l h.valid).valid, fun id hid job' hread => ?_⟩
  have hkept := fun hrunning => @begun_next _ _ _ h hallowed id hrunning hread
  cases l with
  | beginRun jobId bootId now =>
      dsimp only [next] at hid
      split at hid
      · next hbegun =>
        rcases List.mem_cons.mp hid with rfl | hid
        · obtain ⟨job, -, -, -, hnew⟩ := beginRun_accepts hbegun
          have hsame := hnew.symm.trans hread
          cases hsame
          exact fun heq => by cases heq
        · exact hkept hid
      · exact hkept hid
  | finishRun jobId ending now => exact hkept (List.mem_of_mem_erase hid)
  | _ => exact hkept hid

/-! ### The condition -/

/-- The clock that the section reads is behind the times of a record that it closes or begins. -/
def Behind (s : System) : Section → Prop
  | .list sees => ∃ id ∈ (recordIds s.disk).take maxRecords, ∃ job, readRecord s.disk id = .ok job ∧ late (sees id) job = true
  | .get seen jobId => ∃ job, readRecord s.disk jobId = .ok job ∧ late seen job = true
  | .guard sees => Blocked true sees s.disk (recordIds s.disk)
  | .start request given => checkRequest request = .ok () ∧ Blocked true given.seen s.disk (recordIds s.disk)
  | .launchFailed jobId refused now =>
      refused = true ∧ ∃ job, readRecord s.disk jobId = .ok job ∧ job.status = .queued ∧ job.outdated now = true
  | .beginRun jobId _ now => ∃ job, readRecord s.disk jobId = .ok job ∧ job.status = .queued ∧ job.outdated now = true
  | .finishRun jobId _ now =>
      ∃ job, readRecord s.disk jobId = .ok job ∧ job.status.active = true ∧ job.outdated now = true
  | .canReleaseImport _ | .removeImports _ => False

/-- The section raises no exception of an invalid record, and the records that it is about have moved. -/
def Completes (s : System) (l : Section) (t : System) : Prop :=
  (exec l s.disk).2 ≠ some (.error invalidRecord) ∧
    match l with
    | .list sees => (exec l s.disk).2 = none ∧ ∀ id ∈ (recordIds s.disk).take maxRecords, ∀ job,
        readRecord s.disk id = .ok job → readRecord t.disk id = .ok (settled (sees id) job)
    | .get seen jobId => ∀ job, readRecord s.disk jobId = .ok job →
        (exec l s.disk).2 = none ∧ readRecord t.disk jobId = .ok (settled seen job)
    | .launchFailed jobId refused _ => ∀ job, readRecord s.disk jobId = .ok job → job.status = .queued → refused = true →
        ∃ job', readRecord t.disk jobId = .ok job' ∧ job'.status = .failed
    | .beginRun jobId bootId _ => ∀ job, readRecord s.disk jobId = .ok job → job.status = .queued →
        ∃ job', readRecord t.disk jobId = .ok job' ∧
          job'.status = if job.bootId = bootId.text then .running else .interrupted
    | .finishRun jobId _ _ => ∀ job, readRecord s.disk jobId = .ok job →
        ∃ job', readRecord t.disk jobId = .ok job' ∧ job'.status.active = false
    | .guard _ | .start _ _ | .canReleaseImport _ | .removeImports _ => True

/-! ### Section by section -/

theorem readRecord_error_ne (hvalid : Valid disk) {e : Raised JobError} (h : readRecord disk id = .error e) :
    e ≠ .error invalidRecord := by
  rintro rfl
  cases hid : jobIdRe id with
  | false => simp [readRecord, raiseIf, hid, Py.raise, bind, Except.bind, invalidRecord] at h
  | true =>
      cases hget : disk.get? id with
      | none => simp [readRecord, raiseIf, hid, hget, Py.raise, bind, Except.bind, invalidRecord] at h
      | some record =>
          obtain ⟨job, hjob⟩ := hvalid.reads id (Dict.mem_keys_of_get? hget) hid
          rw [hjob] at h
          cases h

theorem completes_list (h : Inv s) : Completes s (.list sees) (next s (.list sees)) ↔ ¬Behind s (.list sees) := by
  have hnodup := (List.take_sublist maxRecords _).nodup (nodup_recordIds h.valid.uniq)
  have hids : ∀ id ∈ (recordIds s.disk).take maxRecords, id ∈ recordIds s.disk := fun _ => List.mem_of_mem_take
  rw [Behind, ← blocked_false]
  rcases settleAll_result false sees h.valid hnodup hids with
    ⟨hraise, hblocked⟩ | ⟨-, hidle, -⟩ | ⟨jobs, hok, hblocked, hjobs⟩
  · refine iff_of_false (fun hcompletes => hcompletes.1 ?_) (not_not.mpr hblocked)
    show raised (settleAll _ _ _ _).2 = _
    rw [hraise]
    rfl
  · cases hidle
  · have hnone : (exec (.list sees) s.disk).2 = none := by
      show raised (settleAll _ _ _ _).2 = _
      rw [hok]
      rfl
    refine iff_of_true ⟨by rw [hnone]; exact nofun, hnone, fun id hid job hread => ?_⟩ hblocked
    obtain ⟨job', -, old, hold, rfl, hnew, -⟩ := exists_of_forall₂ hjobs hid
    rw [hread] at hold
    cases hold
    exact hnew

theorem completes_get (h : Inv s) : Completes s (.get seen jobId) (next s (.get seen jobId)) ↔ ¬Behind s (.get seen jobId) := by
  rw [Behind]
  cases hread : readRecord s.disk jobId with
  | error e =>
      refine iff_of_true ⟨?_, fun job hjob => ?_⟩ fun hbehind => ?_
      · show raised (get _ _ _).2 ≠ _
        rw [get, settle, hread]
        exact fun heq => readRecord_error_ne h.valid hread (Option.some.inj heq)
      · rw [hread] at hjob
        cases hjob
      · obtain ⟨job, hjob, -⟩ := hbehind
        cases hjob
  | ok job =>
      cases hlate : late seen job with
      | true =>
          refine iff_of_false (fun hcompletes => hcompletes.1 ?_) (not_not.mpr ⟨job, rfl, hlate⟩)
          show raised (get _ _ _).2 = _
          rw [get, settle_late hread hlate]
          rfl
      | false =>
          obtain ⟨disk', hsettle, hself, -, -, -⟩ := settle_eq hread hlate
          have hget : get seen jobId s.disk = (disk', .ok (settled seen job)) := by rw [get, hsettle]
          have hnone : (exec (.get seen jobId) s.disk).2 = none := by
            show raised (get _ _ _).2 = _
            rw [hget]
            rfl
          refine iff_of_true ⟨by rw [hnone]; exact fun heq => (by cases heq), fun job' hjob' => ⟨hnone, ?_⟩⟩ fun hbehind => ?_
          · rw [hread] at hjob'
            cases hjob'
            show readRecord (get _ _ _).1 _ = _
            rw [hget]
            exact hself
          · obtain ⟨job', hjob', hlate'⟩ := hbehind
            cases hjob'
            rw [hlate] at hlate'
            cases hlate'

/-- The gate raises the exception of an invalid record only where it reaches a record that is late. -/
theorem assertIdle_raises (hvalid : Valid disk) :
    (assertIdle sees disk).2 = Py.raise invalidRecord ↔ Blocked true sees disk (recordIds disk) := by
  rw [assertIdle]
  rcases hsettle : settleAll true sees disk (recordIds disk) with ⟨disk', result⟩
  rcases settleAll_result true sees hvalid (nodup_recordIds hvalid.uniq) (fun _ hid => hid) with
    ⟨hraise, hblocked⟩ | ⟨hraise, -, hblocked⟩ | ⟨jobs, hok, hblocked, -⟩
  · rw [hsettle] at hraise
    cases hraise
    exact iff_of_true rfl hblocked
  · rw [hsettle] at hraise
    cases hraise
    refine iff_of_false (fun heq => ?_) hblocked
    simp [Py.raise, invalidRecord] at heq
  · rw [hsettle] at hok
    cases hok
    exact iff_of_false (fun heq => by cases heq) hblocked

theorem completes_guard (h : Inv s) : Completes s (.guard sees) (next s (.guard sees)) ↔ ¬Behind s (.guard sees) := by
  rw [Behind, ← assertIdle_raises h.valid, Completes, and_true]
  show raised (assertIdle sees s.disk).2 ≠ _ ↔ _
  cases (assertIdle sees s.disk).2 with
  | error e =>
      exact not_congr ⟨fun heq => by rw [Option.some.inj heq]; rfl, fun heq => by rw [Except.error.inj heq]; rfl⟩
  | ok u => exact iff_of_true nofun nofun

theorem completes_start (request : Request) (given : Submission) (h : Inv s) :
    Completes s (.start request given) (next s (.start request given)) ↔ ¬Behind s (.start request given) := by
  rw [Behind, ← assertIdle_raises h.valid, Completes, and_true]
  show raised (start request given s.disk).2 ≠ _ ↔ _
  rw [start]
  cases hrequest : checkRequest request with
  | error e =>
      refine iff_of_true (fun heq => ?_) (fun heq => by cases heq.1)
      obtain rfl := Option.some.inj heq
      refine absurd hrequest (raiseIf_bind_ne (by decide) ?_)
      split
      · exact raiseIf_ne (by decide)
      · exact raiseIf_ne (by decide)
  | ok u =>
      rw [eq_self_iff_true, true_and]
      cases hidle : assertIdle given.seen s.disk with
      | mk disk' result =>
          cases result with
          | error e =>
              exact not_congr ⟨fun heq => by rw [Option.some.inj heq]; rfl, fun heq => by rw [Except.error.inj heq]; rfl⟩
          | ok u' =>
              refine iff_of_true ?_ (fun heq => by cases heq)
              rcases submit_cases given disk' hrequest with ⟨e, hsubmit, hne⟩ | ⟨job, -, -, -, -, hsubmit⟩
              · simp only [hsubmit]
                exact fun heq => hne (Option.some.inj heq)
              · simp only [hsubmit]
                exact fun heq => by cases heq

theorem completes_launchFailed (h : Inv s) :
    Completes s (.launchFailed jobId refused now) (next s (.launchFailed jobId refused now)) ↔
      ¬Behind s (.launchFailed jobId refused now) := by
  rw [Behind, Completes]
  show (raised (launchFailed jobId refused now s.disk).2 ≠ _ ∧ ∀ job, _ → _ → _ → ∃ job',
    readRecord (launchFailed jobId refused now s.disk).1 jobId = _ ∧ _) ↔ _
  cases hread : readRecord s.disk jobId with
  | error e =>
      rw [launchFailed_error hread]
      exact iff_of_true ⟨fun heq => readRecord_error_ne h.valid hread (Option.some.inj heq), nofun⟩ fun hbehind =>
        nomatch hbehind.2.choose_spec.1
  | ok job =>
      cases hstatus : decide (job.status = .queued) && refused with
      | false =>
          rw [launchFailed_kept hread hstatus]
          have hnot : ∀ job', Except.ok job = (Except.ok job' : Py JobError Job) → job'.status = .queued → ¬refused = true := by
            intro job' heq hqueued hrefused
            cases heq
            rw [hqueued, hrefused] at hstatus
            cases hstatus
          refine iff_of_true ⟨nofun, fun job' heq hqueued hrefused => absurd hrefused (hnot job' heq hqueued)⟩ ?_
          rintro ⟨hrefused, job', heq, hqueued, -⟩
          exact hnot job' heq hqueued hrefused
      | true =>
          rw [launchFailed_refused hread hstatus]
          obtain ⟨hqueued, hrefused⟩ := Bool.and_eq_true_iff.mp hstatus
          have hqueued := of_decide_eq_true hqueued
          obtain ⟨hjob, hid⟩ := sound_of_read hread
          rcases written_cases s.disk (job.close .failed .launcherFailed now) (sound_refused now hjob hqueued) hid with
            ⟨houtdated, hraise⟩ | ⟨houtdated, disk', hnew, hok⟩
          · rw [hraise]
            exact iff_of_false (fun hcompletes => hcompletes.1 rfl) (not_not.mpr ⟨hrefused, job, rfl, hqueued, houtdated⟩)
          · rw [hok]
            refine iff_of_true ⟨nofun, fun _ _ _ _ => ⟨_, hnew, rfl⟩⟩ ?_
            rintro ⟨-, job', heq, -, hbehind⟩
            cases heq
            rw [houtdated] at hbehind
            cases hbehind

theorem completes_beginRun (h : Inv s) : Completes s (.beginRun jobId bootId now) (next s (.beginRun jobId bootId now)) ↔
    ¬Behind s (.beginRun jobId bootId now) := by
  rw [Behind, Completes]
  show (raised (beginRun jobId bootId now s.disk).2 ≠ _ ∧ ∀ job, _ → _ → ∃ job',
    readRecord (beginRun jobId bootId now s.disk).1 jobId = _ ∧ _) ↔ _
  cases hread : readRecord s.disk jobId with
  | error e =>
      rw [beginRun_error hread]
      refine iff_of_true ⟨fun heq => readRecord_error_ne h.valid hread (Option.some.inj heq), fun job hjob => by cases hjob⟩ ?_
      rintro ⟨job, hjob, -⟩
      cases hjob
  | ok job =>
      by_cases hstatus : job.status = .queued
      · rw [beginRun_queued hread hstatus]
        obtain ⟨hjob, hid⟩ := sound_of_read hread
        have hbegunId : (begun bootId now job).id = jobId := by
          rw [begun]
          split <;> exact hid
        -- the write fails exactly if the new time is before that of the record
        rcases written_cases s.disk (decide (job.bootId = bootId.text)) (sound_begun bootId now hjob hstatus) hbegunId with
          ⟨houtdated, hraise⟩ | ⟨houtdated, disk', hnew, hok⟩
        · rw [hraise]
          exact iff_of_false (fun hcompletes => hcompletes.1 rfl) (not_not.mpr ⟨job, rfl, hstatus, houtdated⟩)
        · rw [hok]
          refine iff_of_true ⟨(fun heq => by cases heq), fun job' heq _ => ⟨_, hnew, ?_⟩⟩ ?_
          · cases heq
            rw [begun]
            by_cases hboot : job.bootId = bootId.text
            · rw [if_neg (not_not.mpr hboot), if_pos hboot]
              rfl
            · rw [if_pos hboot, if_neg hboot]
              rfl
          · rintro ⟨job', heq, -, hbehind⟩
            cases heq
            rw [houtdated] at hbehind
            cases hbehind
      · rw [beginRun_not_queued hread hstatus]
        refine iff_of_true ⟨?_, fun job' heq hqueued => ?_⟩ ?_
        · intro heq
          simp [raised, Py.raise, invalidRecord] at heq
        · cases heq
          exact absurd hqueued hstatus
        · rintro ⟨job', heq, hqueued, -⟩
          cases heq
          exact hstatus hqueued

theorem completes_finishRun (h : Inv s) (hrunning : jobId ∈ s.running) :
    Completes s (.finishRun jobId ending now) (next s (.finishRun jobId ending now)) ↔
      ¬Behind s (.finishRun jobId ending now) := by
  rw [Behind, Completes]
  show (raised (finishRun jobId ending now s.disk).2 ≠ _ ∧ ∀ job, _ → ∃ job',
    readRecord (finishRun jobId ending now s.disk).1 jobId = _ ∧ _) ↔ _
  cases hread : readRecord s.disk jobId with
  | error e =>
      rw [finishRun_error hread]
      exact iff_of_true ⟨fun heq => readRecord_error_ne h.valid hread (Option.some.inj heq), nofun⟩ fun hbehind =>
        nomatch hbehind.choose_spec.1
  | ok job =>
      cases hactive : job.status.active with
      | false =>
          rw [finishRun_final hread hactive]
          refine iff_of_true ⟨nofun, fun job' heq => ⟨job, hread, hactive⟩⟩ ?_
          rintro ⟨job', heq, hactive', -⟩
          cases heq
          rw [hactive] at hactive'
          cases hactive'
      | true =>
          rw [finishRun_active hread hactive]
          obtain ⟨hjob, hid⟩ := sound_of_read hread
          -- the record was begun, so that it has the time its operation started
          have hstatus : job.status = .running := by
            have hbegun := h.begun jobId hrunning job hread
            cases hjobStatus : job.status with
            | queued => exact absurd hjobStatus hbegun
            | running => rfl
            | succeeded | failed | interrupted => rw [hjobStatus] at hactive; cases hactive
          rcases written_cases s.disk () (sound_ending ending now hjob hstatus) hid with
            ⟨houtdated, hraise⟩ | ⟨houtdated, disk', hnew, hok⟩
          · rw [hraise]
            exact iff_of_false (fun hcompletes => hcompletes.1 rfl) (not_not.mpr ⟨job, rfl, hactive, houtdated⟩)
          · rw [hok]
            refine iff_of_true ⟨nofun, fun _ _ => ⟨_, hnew, by cases ending <;> rfl⟩⟩ ?_
            rintro ⟨job', heq, -, hbehind⟩
            cases heq
            rw [houtdated] at hbehind
            cases hbehind

theorem completes_removeImports (expected : List Job) (h : Inv s) :
    Completes s (.removeImports expected) (next s (.removeImports expected)) ↔ ¬Behind s (.removeImports expected) := by
  have hreads : ∀ ids : List String, (∀ id ∈ ids, id ∈ recordIds s.disk) → ∃ jobs, ids.mapM (readRecord s.disk) = .ok jobs := by
    intro ids
    induction ids with
    | nil => exact fun _ => ⟨[], rfl⟩
    | cons id ids ih =>
        intro hids
        obtain ⟨job, hjob⟩ := h.valid.read (hids id List.mem_cons_self)
        obtain ⟨jobs, hjobs⟩ := ih fun id hid => hids id (List.mem_cons_of_mem _ hid)
        exact ⟨job :: jobs, by rw [List.mapM_cons, hjob, ok_bind, hjobs]; rfl⟩
  obtain ⟨latest, hlatest⟩ := hreads _ fun _ hid => hid
  refine iff_of_true ⟨?_, trivial⟩ id
  show raised (removeImports expected s.disk).2 ≠ _
  rw [removeImports, readAll, hlatest, ok_bind]
  cases hchanged : decide (latest.filter (fun job => job.kind = .configImport) ≠ expected) with
  | true => exact fun heq => by simp [raised, raiseIf, Py.raise, invalidRecord] at heq
  | false => exact fun heq => by cases heq

/-- A step completes exactly if its clock is not behind. -/
theorem completes_step (h : Inv s) (hstep : step s l t) : Completes s l t ↔ ¬Behind s l := by
  obtain ⟨hallowed, rfl⟩ := hstep
  cases l with
  | list sees => exact completes_list h
  | get seen jobId => exact completes_get h
  | guard sees => exact completes_guard h
  | start request given => exact completes_start request given h
  | launchFailed jobId refused now => exact completes_launchFailed h
  | beginRun jobId bootId now => exact completes_beginRun h
  | finishRun jobId ending now => exact completes_finishRun h hallowed
  | canReleaseImport importId => exact iff_of_true ⟨nofun, trivial⟩ id
  | removeImports expected => exact completes_removeImports expected h

/-- In every run from valid records, every section completes exactly if no section reads a clock that is
behind the times of a record which it closes or begins. -/
theorem completes_iff_behind (disk : Disk) (hvalid : Valid disk) (run : List (Section × System))
    (hrun : IsRun step ⟨disk, []⟩ run) :
    AllSteps Completes ⟨disk, []⟩ run ↔ AllSteps (fun s l _ => ¬Behind s l) ⟨disk, []⟩ run :=
  allSteps_iff hrun (I := Inv) ⟨hvalid, nofun⟩ (fun _ _ _ h hstep => completes_step h hstep)
    fun _ _ _ h hstep _ => inv_next h hstep

/-! ### A clock that was set back -/

/-- The day when the job is submitted. -/
def noon : DateTime := ⟨2026, 1, 2, 12, 0, 0, by decide⟩

/-- A minute earlier. -/
def earlier : DateTime := ⟨2026, 1, 2, 11, 59, 0, by decide⟩

def unknownBoot : BootId := ⟨"unknown", by decide⟩

/-- A job that was submitted at noon. -/
def submitted : Job :=
  ⟨"20260102t120000z-0123456789ab", .softwareUpdate, .queued, noon, "unknown", none, none, none, none, none⟩

theorem sound_submitted : submitted.Sound := by
  constructor <;> decide

def submittedDisk : Disk := Dict.set [] submitted.id (.obj submitted.fields)

theorem valid_submittedDisk : Valid submittedDisk :=
  @Valid.set [] _ ⟨List.nodup_nil, fun _ hin => nomatch hin⟩ sound_submitted

/-- The job is begun at noon. -/
theorem completes_iff_behind_submitted : AllSteps Completes ⟨submittedDisk, []⟩
    [(.beginRun submitted.id unknownBoot noon, next ⟨submittedDisk, []⟩ (.beginRun submitted.id unknownBoot noon))] := by
  have hrun : IsRun step ⟨submittedDisk, []⟩
      [(.beginRun submitted.id unknownBoot noon, next ⟨submittedDisk, []⟩ (.beginRun submitted.id unknownBoot noon))] :=
    ⟨⟨trivial, rfl⟩, trivial⟩
  refine (completes_iff_behind submittedDisk valid_submittedDisk _ hrun).mpr ⟨?_, trivial⟩
  rintro ⟨job, hread, -, houtdated⟩
  rw [show submittedDisk = Dict.set [] submitted.id (.obj submitted.fields) from rfl, readRecord_set_self [] sound_submitted] at hread
  cases hread
  exact absurd houtdated (by decide)

/-- With the clock set back before the job is begun, the run raises and the job stays queued. -/
theorem clock_set_back : Valid submittedDisk ∧
    IsRun step ⟨submittedDisk, []⟩ [(.beginRun submitted.id unknownBoot earlier, ⟨submittedDisk, []⟩)] ∧
    ¬AllSteps Completes ⟨submittedDisk, []⟩ [(.beginRun submitted.id unknownBoot earlier, ⟨submittedDisk, []⟩)] := by
  have hread : readRecord submittedDisk submitted.id = .ok submitted := readRecord_set_self [] sound_submitted
  have hraise : beginRun submitted.id unknownBoot earlier submittedDisk = (submittedDisk, Py.raise invalidRecord) := by
    rw [beginRun_queued hread rfl, written, writeRecord_of_not_sound]
    · rfl
    · rw [sound_begun unknownBoot earlier sound_submitted rfl]
      decide
  refine ⟨valid_submittedDisk, ⟨⟨trivial, ?_⟩, trivial⟩, fun hcompletes => hcompletes.1.1 ?_⟩
  · rw [next, exec, hraise]
    rfl
  · rw [exec, hraise]
    rfl

end ProxyGateway.Jobs
