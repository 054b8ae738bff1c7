import ProxyGateway.Jobs.Linear

set_option autoImplicit false

/-!
# ProxyGateway.Jobs.Exclusive

The job store with a `systemctl` that answers truthfully and one boot id: a runner that is alive keeps its
record running, so that no second operation begins. `jobs_linear` puts the properties of all runs together.
-/

namespace ProxyGateway.Jobs

open Py Runs

variable {disk disk' : Disk} {job job' : Job} {jobId id : String} {now : DateTime} {seen : Observation}
  {bootId boot : BootId} {ending : Ending} {refused : Bool} {l : Section} {w w' : World} {e : Event}

/-- Is a runner of the job alive? -/
def Alive (w : World) (jobId : String) : Prop := ∃ phase, (jobId, phase) ∈ w.runners

/-- What is seen of a record: the boot id is the one of this boot, and the unit of a runner that is alive
is not reported as stopped. -/
structure TruthfulAt (w : World) (boot : BootId) (jobId : String) (seen : Observation) : Prop where
  bootId : seen.bootId = boot
  unitState : Alive w jobId → seen.unitState = .active ∨ seen.unitState = .activating ∨ seen.unitState = .deactivating

/-- `systemctl` answers truthfully and the boot id is stable. -/
def Truthful (boot : BootId) (w : World) : Event → Prop
  | .critical (.list sees) | .critical (.guard sees) => ∀ jobId, TruthfulAt w boot jobId (sees jobId)
  | .critical (.get seen jobId) => TruthfulAt w boot jobId seen
  | .critical (.start _ given) => given.bootId = boot ∧ ∀ jobId, TruthfulAt w boot jobId (given.seen jobId)
  | .critical (.beginRun _ bootId _) => bootId = boot
  | .critical (.removeImports expected) => ∀ job ∈ expected, ¬Alive w job.id
  | _ => True

/-- At most one runner is alive, its record runs, and no action is executed under the guard beside it. -/
structure Exclusive (boot : BootId) (w : World) : Prop where
  one : w.runners.length ≤ 1
  alive : ∀ jobId, Alive w jobId → ∃ job, readRecord w.disk jobId = .ok job ∧ job.status = .running ∧ job.bootId = boot.text
  guard : w.guarded = true → w.runners = []

/-! ### The record of a runner that is alive -/

/-- The record of a runner that is alive is not due. -/
theorem due_alive (hboot : job.bootId = boot.text) (h : TruthfulAt w boot jobId seen)
    (halive : Alive w jobId) : due seen job = false := by
  have hinterrupted : interrupted seen job = false := by
    rw [interrupted, if_neg (by rw [hboot, h.bootId]; exact fun hne => hne rfl)]
    split
    · rcases h.unitState halive with hunit | hunit | hunit <;> rw [hunit]
    · rfl
  rw [due, hinterrupted, Bool.and_false]

theorem settled_of_not_due (h : due seen job = false) : settled seen job = job := by
  rw [settled, h, if_neg Bool.false_ne_true]

theorem readRecord_eraseAll {jobs : List Job} (h : ∀ job ∈ jobs, job.id ≠ id) :
    readRecord (jobs.foldl (fun disk job => disk.erase job.id) disk) id = readRecord disk id := by
  induction jobs generalizing disk with
  | nil => rfl
  | cons job jobs ih =>
      obtain ⟨hne, hrest⟩ := List.forall_mem_cons.mp h
      exact (ih hrest).trans (readRecord_congr (Dict.get?_erase_ne hne disk))

theorem written_frame {α : Type} (result : α) (hid : job.id ≠ id) :
    readRecord (written disk job result).1 id = readRecord disk id := by
  rw [written, writeRecord]
  cases validateRecord (.obj job.fields) job.id with
  | error e => rfl
  | ok job' => exact readRecord_set_ne hid

/-- Each section leaves the record of a runner that is alive as it is, its own last section apart. -/
theorem kept_alive (hvalid : Valid w.disk) (hsingle : Single w.disk) (htruthful : Truthful boot w (.critical l))
    (halive : Alive w id) (hread : readRecord w.disk id = .ok job) (hstatus : job.status = .running)
    (hboot : job.bootId = boot.text) (hown : ∀ ending now, l ≠ .finishRun id ending now) :
    readRecord (exec l w.disk).1 id = .ok job := by
  have hactive : job.status.active = true := by rw [hstatus]; rfl
  cases l with
  | list sees =>
      have hspec := settleAll_spec false sees hvalid ((List.take_sublist maxRecords _).nodup (nodup_recordIds hvalid.uniq))
        fun _ hid => List.mem_of_mem_take hid
      -- a record that is not due is settled to itself
      rcases hspec.2.2.2 id job hread with hkept | hnew
      · exact hkept
      · rwa [settled_of_not_due (due_alive hboot (htruthful id) halive)] at hnew
  | get seen jobId =>
      show readRecord (get seen jobId w.disk).1 id = _
      rw [get]
      cases hother : readRecord w.disk jobId with
      | error e =>
          rw [settle, hother]
          exact hread
      | ok job' =>
          cases hlate : late seen job' with
          | true =>
              rw [settle_late hother hlate]
              exact hread
          | false =>
              obtain ⟨disk', hsettle, hself, -, -, hframe⟩ := settle_eq hother hlate
              rw [hsettle]
              by_cases heq : id = jobId
              · subst heq
                rw [hread] at hother
                cases hother
                rwa [settled_of_not_due (due_alive hboot htruthful halive)] at hself
              · exact (hframe id heq).trans hread
  | guard sees => exact (assertIdle_kept sees hvalid hread hactive (due_alive hboot (htruthful id) halive)).1
  | start request given =>
      obtain ⟨hkept, hshut⟩ :=
        assertIdle_kept given.seen hvalid hread hactive (due_alive hboot (htruthful.2 id) halive)
      show readRecord (start request given w.disk).1 id = _
      rw [start]
      cases checkRequest request with
      | error e => exact hread
      | ok u =>
          rcases hgate : assertIdle given.seen w.disk with ⟨disk', result⟩
          rw [hgate] at hkept hshut
          cases result with
          | error e => exact hkept
          | ok u' => exact absurd rfl hshut
  | launchFailed jobId refused now =>
      show readRecord (launchFailed jobId refused now w.disk).1 id = _
      cases hother : readRecord w.disk jobId with
      | error e =>
          rw [launchFailed_error hother]
          exact hread
      | ok job' =>
          cases hrefused : decide (job'.status = .queued) && refused with
          | false =>
              rw [launchFailed_kept hother hrefused]
              exact hread
          | true =>
              -- what fails to launch was queued, so it is another record
              have hne : (job'.close .failed .launcherFailed now).id ≠ id := by
                intro heq
                obtain rfl : jobId = id := (sound_of_read hother).2.symm.trans heq
                rw [hread] at hother
                cases hother
                rw [hstatus] at hrefused
                cases hrefused
              rw [launchFailed_refused hother hrefused, written_frame _ hne]
              exact hread
  | beginRun jobId bootId now =>
      show readRecord (beginRun jobId bootId now w.disk).1 id = _
      cases hother : readRecord w.disk jobId with
      | error e =>
          rw [beginRun_error hother]
          exact hread
      | ok job' =>
          -- a queued record beside the running one would be a second active job
          have hqueued : job'.status ≠ .queued := by
            intro hqueued
            obtain rfl := hsingle id jobId job job' hread hother hactive (by rw [hqueued]; rfl)
            rw [hread] at hother
            cases hother
            rw [hstatus] at hqueued
            cases hqueued
          rw [beginRun_not_queued hother hqueued]
          exact hread
  | finishRun jobId ending now =>
      show readRecord (finishRun jobId ending now w.disk).1 id = _
      cases hother : readRecord w.disk jobId with
      | error e =>
          rw [finishRun_error hother]
          exact hread
      | ok job' =>
          have hne : (job'.close ending.status ending.result now).id ≠ id := by
            intro heq
            obtain rfl : jobId = id := (sound_of_read hother).2.symm.trans heq
            exact hown ending now rfl
          cases hfinal : job'.status.active with
          | false =>
              rw [finishRun_final hother hfinal]
              exact hread
          | true =>
              rw [finishRun_active hother hfinal, written_frame _ hne]
              exact hread
  | canReleaseImport importId => exact hread
  | removeImports expected =>
      -- the jobs that are removed have no unit alive
      have hne : ∀ job ∈ expected, job.id ≠ id := by
        rintro job hjob rfl
        exact htruthful job hjob halive
      show readRecord (removeImports expected w.disk).1 id = _
      rw [removeImports]
      split
      · exact hread
      · exact (readRecord_eraseAll hne).trans hread

/-! ### One operation at a time -/

theorem runners_section (w : World) (l : Section) : (afterSection w l).runners = w.runners ∨
    (∃ jobId bootId now, l = .beginRun jobId bootId now ∧ (beginRun jobId bootId now w.disk).2 = .ok true ∧
      (afterSection w l).runners = (jobId, .accepted) :: w.runners) ∨
    ∃ jobId ending now, l = .finishRun jobId ending now ∧ (afterSection w l).runners = w.runners.erase (jobId, .ended) := by
  cases l with
  | beginRun jobId bootId now =>
      by_cases hbegun : (beginRun jobId bootId now w.disk).2 = .ok true
      · exact .inr (.inl ⟨jobId, bootId, now, rfl, hbegun, by rw [afterSection, hbegun]⟩)
      · left
        rw [afterSection]
        split
        · next hok => exact absurd hok hbegun
        · rfl
  | finishRun jobId ending now => exact .inr (.inr ⟨jobId, ending, now, rfl, rfl⟩)
  | start request given =>
      left
      rw [afterSection]
      split <;> rfl
  | _ => exact .inl rfl

/-- No section finds the gate open while a runner is alive. -/
theorem guarded_section (hlinear : Linear w) (h : Exclusive boot w) (htruthful : Truthful boot w (.critical l))
    (hfree : w.guarded = false) (hguarded : (afterSection w l).guarded = true) :
    (∃ sees, l = .guard sees) ∧ w.runners = [] := by
  cases l with
  | guard sees =>
      refine ⟨⟨sees, rfl⟩, ?_⟩
      by_contra hne
      obtain ⟨runner, hin⟩ := List.exists_mem_of_ne_nil _ hne
      have halive : Alive w runner.1 := ⟨runner.2, hin⟩
      obtain ⟨job, hread, hstatus, hboot⟩ := h.alive runner.1 halive
      have hshut := (assertIdle_kept sees hlinear.valid hread (by rw [hstatus]; rfl)
        (due_alive hboot (htruthful runner.1) halive)).2
      exact hshut (of_decide_eq_true hguarded)
  | start request given =>
      rw [afterSection] at hguarded
      split at hguarded <;> exact absurd (hfree.symm.trans hguarded) Bool.false_ne_true
  | beginRun jobId bootId now =>
      rw [afterSection] at hguarded
      split at hguarded <;> exact absurd (hfree.symm.trans hguarded) Bool.false_ne_true
  | _ => exact absurd (hfree.symm.trans hguarded) Bool.false_ne_true

theorem exclusive_section (hlinear : Linear w) (h : Exclusive boot w) (henabled : enabled w (.critical l))
    (htruthful : Truthful boot w (.critical l)) : Exclusive boot (happen w (.critical l)) := by
  have hfree : w.guarded = false := by
    cases l with
    | finishRun jobId ending now => exact henabled.1
    | _ => exact henabled
  have hkept : ∀ id, Alive w id → (∀ ending now, l ≠ .finishRun id ending now) →
      ∃ job, readRecord (exec l w.disk).1 id = .ok job ∧ job.status = .running ∧ job.bootId = boot.text := by
    intro id halive hown
    obtain ⟨job, hread, hstatus, hboot⟩ := h.alive id halive
    exact ⟨job, kept_alive hlinear.valid hlinear.single htruthful halive hread hstatus hboot hown, hstatus, hboot⟩
  rcases runners_section w l with hsame | ⟨jobId, bootId, now, rfl, hbegun, hadded⟩ | ⟨jobId, ending, now, rfl, herased⟩
  · refine ⟨?_, fun id halive => ?_, fun hguarded => ?_⟩
    · show (afterSection w l).runners.length ≤ 1
      rw [hsame]
      exact h.one
    · have hbefore : Alive w id := by
        obtain ⟨phase, hin⟩ := halive
        exact ⟨phase, hsame ▸ hin⟩
      refine hkept id hbefore fun ending now heq => ?_
      subst heq
      -- the runner that finishes is the only one, and it is gone
      have hgone : w.runners.erase (id, .ended) = w.runners := hsame
      have hlength := List.length_erase_of_mem henabled.2
      have hpos := List.length_pos_of_mem henabled.2
      rw [hgone] at hlength
      omega
    · exact hsame.trans (guarded_section hlinear h htruthful hfree hguarded).2
  · -- a runner begins: the record was queued, so that no runner is alive
    obtain ⟨job, hread, hstatus, hboot, hnew⟩ := beginRun_accepts hbegun
    have hnone : w.runners = [] := by
      by_contra hne
      obtain ⟨runner, hin⟩ := List.exists_mem_of_ne_nil _ hne
      obtain ⟨old, hold, holdStatus, -⟩ := h.alive runner.1 ⟨runner.2, hin⟩
      have heq := hlinear.single runner.1 jobId old job hold hread (by rw [holdStatus]; rfl) (by rw [hstatus]; rfl)
      rw [heq, hread] at hold
      cases hold
      rw [hstatus] at holdStatus
      cases holdStatus
    have hlist : (happen w (.critical (.beginRun jobId bootId now))).runners = [(jobId, .accepted)] := by
      show (afterSection w (.beginRun jobId bootId now)).runners = _
      rw [hadded, hnone]
    refine ⟨by rw [hlist]; exact Nat.le_refl 1, fun id halive => ?_, fun hguarded => ?_⟩
    · obtain ⟨phase, hin⟩ := halive
      rw [hlist, List.mem_singleton] at hin
      cases hin
      exact ⟨job.begin now, hnew, rfl, hboot.trans (congrArg BootId.text htruthful)⟩
    · obtain ⟨⟨sees, hguard⟩, -⟩ := guarded_section hlinear h htruthful hfree hguarded
      cases hguard
  · -- the runner that finishes was the only one
    have hlist : (happen w (.critical (.finishRun jobId ending now))).runners = [] := by
      show (afterSection w (.finishRun jobId ending now)).runners = []
      rw [herased, ← List.length_eq_zero_iff, List.length_erase_of_mem henabled.2]
      have hone := h.one
      omega
    refine ⟨by rw [hlist]; exact Nat.zero_le 1, fun id halive => ?_, fun _ => hlist⟩
    obtain ⟨phase, hin⟩ := halive
    rw [hlist] at hin
    cases hin

theorem exclusive_happen (hlinear : Linear w) (h : Exclusive boot w) (hoccurs : occurs w e w') (htruthful : Truthful boot w e) :
    Exclusive boot w' := by
  obtain ⟨henabled, rfl⟩ := hoccurs
  -- an event that moves a runner to another phase, or ends it
  have hmoved : ∀ (runners : List (String × Phase)), runners.length ≤ w.runners.length →
      (∀ runner ∈ runners, Alive w runner.1) → ∀ submitted begun operated,
      Exclusive boot ⟨w.disk, w.guarded, runners, submitted, begun, operated⟩ := by
    intro runners hlength hsub submitted begun operated
    refine ⟨hlength.trans h.one, fun id halive => ?_, fun hguarded => ?_⟩
    · obtain ⟨phase, hin⟩ := halive
      exact h.alive id (hsub (id, phase) hin)
    · have hnil := h.guard hguarded
      rw [hnil] at hlength
      exact List.eq_nil_of_length_eq_zero (Nat.le_zero.mp hlength)
  have hnext : ∀ jobId phase phase', (jobId, phase) ∈ w.runners →
      ((jobId, phase') :: w.runners.erase (jobId, phase)).length ≤ w.runners.length ∧
        ∀ runner ∈ (jobId, phase') :: w.runners.erase (jobId, phase), Alive w runner.1 := by
    intro jobId phase phase' hin
    have hpos := List.length_pos_of_mem hin
    refine ⟨?_, List.forall_mem_cons.mpr ⟨⟨phase, hin⟩, fun runner hrunner => ⟨runner.2, List.mem_of_mem_erase hrunner⟩⟩⟩
    rw [List.length_cons, List.length_erase_of_mem hin]
    omega
  cases e with
  | critical l => exact exclusive_section hlinear h henabled htruthful
  | leaveGuard => exact ⟨h.one, h.alive, nofun⟩
  | operate jobId =>
      obtain ⟨hlength, hsub⟩ := hnext jobId .accepted .operating henabled
      exact hmoved _ hlength hsub _ _ _
  | operationEnds jobId =>
      obtain ⟨hlength, hsub⟩ := hnext jobId .operating .ended henabled
      exact hmoved _ hlength hsub _ _ _
  | dies jobId phase =>
      exact hmoved _ List.length_erase_le (fun runner hin => ⟨runner.2, List.mem_of_mem_erase hin⟩) _ _ _

/-! ### Runs -/

/-- The store before any process of the gateway: each record counts as submitted once. -/
def World.start (disk : Disk) : World := ⟨disk, false, [], recordIds disk, [], []⟩

/-- The operations in progress: those of the runners, and the action under the guard. -/
def inProgress (w : World) : Nat := w.runners.countP (fun runner => runner.2 = .operating) + w.guarded.toNat

/-- Each record moves on or is new, a final one stays as it is, and a job is begun only while its record is
queued. -/
def MovesOn (w : World) (_ : Event) (w' : World) : Prop :=
  (∀ id job', readRecord w'.disk id = .ok job' →
    (∃ job, readRecord w.disk id = .ok job ∧ Follows job.status job'.status ∧ (job.status.active = false → job' = job)) ∨
      job'.status = .queued ∧ w'.submitted = id :: w.submitted) ∧
  ∀ id, w'.begun = id :: w.begun → ∃ job, readRecord w.disk id = .ok job ∧ job.status = .queued

/-- An operation that is started belongs to a record that runs. -/
def StartsRunning (w : World) (e : Event) (_ : World) : Prop :=
  ∀ jobId, e = .operate jobId → ∃ job, readRecord w.disk jobId = .ok job ∧ job.status = .running

theorem moves_of_evolves (h : Evolves (fun _ => False) disk disk') (hread : readRecord disk' id = .ok job') :
    ∃ job, readRecord disk id = .ok job ∧ Follows job.status job'.status ∧ (job.status.active = false → job' = job) := by
  obtain ⟨job, hold, hmoves⟩ := (h.moves id job' hread).resolve_right fun h => h.1
  exact ⟨job, hold, hmoves.follows (sound_of_read hold).1 (sound_of_read hread).1, fun hfinal => hmoves.of_final hfinal⟩

/-- A job is begun by the first section of `run` only. -/
theorem begun_section (w : World) (l : Section) : (afterSection w l).begun = w.begun ∨
    ∃ jobId bootId now, l = .beginRun jobId bootId now ∧ (beginRun jobId bootId now w.disk).2 = .ok true ∧
      (afterSection w l).begun = jobId :: w.begun := by
  cases l with
  | beginRun jobId bootId now =>
      by_cases hbegun : (beginRun jobId bootId now w.disk).2 = .ok true
      · exact .inr ⟨jobId, bootId, now, rfl, hbegun, by rw [afterSection, hbegun]⟩
      · left
        rw [afterSection]
        split
        · next hok => exact absurd hok hbegun
        · rfl
  | start request given =>
      left
      rw [afterSection]
      split <;> rfl
  | _ => exact .inl rfl

theorem movesOn_section (hlinear : Linear w) (l : Section) : MovesOn w (.critical l) (happen w (.critical l)) := by
  constructor
  · intro id job' hread
    change readRecord (exec l w.disk).1 id = .ok job' at hread
    by_cases hsubmits : ∃ request given job, l = .start request given ∧ (start request given w.disk).2 = .ok job
    · obtain ⟨request, given, job, rfl, hok⟩ := hsubmits
      rcases start_cases request given hlinear.valid with ⟨-, hnone⟩ | ⟨new, hok', hqueued, hnew, -, hothers⟩
      · exact absurd hok (hnone job)
      · by_cases heq : id = new.id
        · subst heq
          have hsame := hnew.symm.trans hread
          cases hsame
          refine .inr ⟨hqueued, ?_⟩
          show (afterSection w (.start request given)).submitted = _
          rw [afterSection, hok']
        · obtain ⟨-, old, hold, hmoves⟩ := hothers id job' heq hread
          exact .inl ⟨old, hold, hmoves.follows (sound_of_read hold).1 (sound_of_read hread).1, fun hfinal =>
            hmoves.of_final hfinal⟩
    · refine .inl (moves_of_evolves (exec_moves l hlinear.valid fun request given hl job hok => ?_) hread)
      exact hsubmits ⟨request, given, job, hl, hok⟩
  · intro id hbegun
    change (afterSection w l).begun = id :: w.begun at hbegun
    rcases begun_section w l with hsame | ⟨jobId, bootId, now, rfl, haccepts, hadded⟩
    · exact absurd (hbegun.symm.trans hsame) (List.cons_ne_self _ _)
    · obtain ⟨rfl, -⟩ := List.cons.inj (hadded.symm.trans hbegun)
      obtain ⟨job, hread, hstatus, -, -⟩ := beginRun_accepts haccepts
      exact ⟨job, hread, hstatus⟩

/-- Where the disk and the jobs that were begun stay as they are. -/
theorem movesOn_still (hdisk : w'.disk = w.disk) (hbegun : w'.begun = w.begun) : MovesOn w e w' := by
  refine ⟨fun id job hread => .inl ⟨job, hdisk ▸ hread, ?_, fun _ => rfl⟩, fun id hadded => ?_⟩
  · cases job.status <;> simp [Follows]
  · exact absurd (hadded.symm.trans hbegun) (List.cons_ne_self _ _)

theorem movesOn_happen (hlinear : Linear w) (hoccurs : occurs w e w') : MovesOn w e w' := by
  obtain ⟨-, rfl⟩ := hoccurs
  cases e with
  | critical l => exact movesOn_section hlinear l
  | leaveGuard | operate | operationEnds | dies => exact movesOn_still rfl rfl

theorem linear_start (hvalid : Valid disk) (hsingle : Single disk) : Linear (World.start disk) := by
  refine ⟨hvalid, hsingle, fun id => ?_, fun id => Nat.le_refl 0⟩
  show 0 + (isQueued disk id).toNat ≤ (recordIds disk).count id
  cases hqueued : isQueued disk id with
  | false => exact Nat.zero_le _
  | true =>
      obtain ⟨job, hread, -⟩ := isQueued_eq_true.mp hqueued
      obtain ⟨hsound, rfl⟩ := sound_of_read hread
      exact List.count_pos_iff.mpr (mem_recordIds.mpr ⟨mem_keys_of_read hread, hsound.id⟩)

theorem exclusive_start (boot : BootId) (disk : Disk) : Exclusive boot (World.start disk) :=
  ⟨Nat.zero_le 1, fun _ halive => (nomatch halive.choose_spec), nofun⟩

theorem inProgress_le_one (h : Exclusive boot w) : inProgress w ≤ 1 := by
  rw [inProgress]
  cases hguarded : w.guarded with
  | false => exact (Nat.add_zero _).le.trans (List.countP_le_length.trans h.one)
  | true => rw [h.guard hguarded, List.countP_nil, Bool.toNat_true]

theorem single_submittedDisk : Single submittedDisk := by
  have honly : ∀ id job, readRecord submittedDisk id = .ok job → id = submitted.id := by
    intro id job hread
    exact List.mem_singleton.mp (mem_keys_of_read hread)
  intro id id' job job' hread hread' _ _
  exact (honly id job hread).trans (honly id' job' hread').symm

end ProxyGateway.Jobs
