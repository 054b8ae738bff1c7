import ProxyGateway.Jobs.Store

set_option autoImplicit false

/-!
# ProxyGateway.Jobs.Moves

What a section of the job store does to the records. A record stays, begins or is closed (`Moves`), and
which exception a section raises is decided by the records it has to close.
-/

namespace ProxyGateway.Jobs

open Py

variable {disk disk' : Disk} {job job' : Job} {jobId id : String} {now : DateTime} {seen : Observation}

/-! ### Reading what was written -/

theorem readRecord_of_get? {record : Json} (hid : jobIdRe id = true) (h : disk.get? id = some record) :
    readRecord disk id = validateRecord record id := by
  rw [readRecord, hid]
  simp only [Bool.not_true, raiseIf, Bool.false_eq_true, if_false, ok_bind, h]

theorem sound_of_read (h : readRecord disk id = .ok job) : job.Sound ∧ job.id = id := by
  rw [readRecord, raiseIf_bind_eq_ok] at h
  obtain ⟨-, h⟩ := h
  split at h
  · exact (raise_ne_ok.mp h).elim
  · exact sound_of_validate h

theorem readRecord_congr (h : disk'.get? id = disk.get? id) : readRecord disk' id = readRecord disk id := by
  rw [readRecord, readRecord, h]

theorem readRecord_set_self (disk : Disk) (h : job.Sound) : readRecord (disk.set job.id (.obj job.fields)) job.id = .ok job := by
  rw [readRecord_of_get? h.id (Dict.get?_set_self disk job.id _)]
  exact validateRecord_fields.mpr ⟨h, rfl⟩

theorem readRecord_set_ne {record : Json} (h : jobId ≠ id) : readRecord (disk.set jobId record) id = readRecord disk id :=
  readRecord_congr (Dict.get?_set_ne h disk record)

theorem writeRecord_of_sound (disk : Disk) (h : job.Sound) : writeRecord disk job = .ok (disk.set job.id (.obj job.fields)) := by
  rw [writeRecord, validateRecord_fields.mpr ⟨h, rfl⟩]
  rfl

theorem writeRecord_of_not_sound (h : ¬job.Sound) : writeRecord disk job = Py.raise invalidRecord := by
  rw [writeRecord]
  cases hcheck : validateRecord (.obj job.fields) job.id with
  | error e =>
      rw [refuses_validate job e hcheck]
      rfl
  | ok job' => exact absurd (validateRecord_fields.mp hcheck).1 h

/-! ### Closing and beginning -/

/-- The clock is behind the times of the record. -/
def Job.outdated (job : Job) (now : DateTime) : Bool :=
  now.before job.createdAt || job.startedAt.any (fun started => now.before started)

theorem Job.Sound.finishedAt_of_active (h : job.Sound) (hactive : job.status.active = true) : job.finishedAt = none := by
  cases hstatus : job.status with
  | queued => exact (h.queued hstatus).2.1
  | running => exact (h.running hstatus).2.1
  | succeeded | failed | interrupted => rw [hstatus] at hactive; cases hactive

theorem disordered_close (h : job.Sound) (hactive : job.status.active = true) :
    disordered job.createdAt job.startedAt (some now) = job.outdated now := by
  have hordered := h.ordered
  rw [h.finishedAt_of_active hactive] at hordered
  cases hstarted : job.startedAt with
  | none => simp [disordered, Job.outdated, hstarted]
  | some started =>
      rw [hstarted] at hordered
      simp only [disordered, Option.getD_some, Option.getD_none, DateTime.before_self, Bool.or_false] at hordered
      simp [disordered, Job.outdated, hstarted, hordered]

/-- A record is closed if the clock is not behind its times. -/
theorem sound_close {status : Status} {result : Result} (h : job.Sound) (hactive : job.status.active = true)
    (hfinal : status.active = false) (hmatched : mismatched status (some result) = false)
    (hstarted : (requiresStarted status (some result) && job.startedAt.isNone ||
      forbidsStarted (some result) && job.startedAt.isSome) = false) :
    (job.close status result now).Sound ↔ job.outdated now = false := by
  rw [← disordered_close h hactive]
  constructor
  · exact fun hsound => hsound.ordered
  · intro hordered
    exact
      { id := h.id
        bootId := h.bootId
        ordered := hordered
        snapshotId := h.snapshotId
        importId := h.importId
        queued := fun hstatus => by
          change status = .queued at hstatus
          rw [hstatus] at hfinal
          cases hfinal
        running := fun hstatus => by
          change status = .running at hstatus
          rw [hstatus] at hfinal
          cases hfinal
        final := fun _ => ⟨Option.some_ne_none now, Option.some_ne_none result⟩
        matched := hmatched
        started := hstarted }

theorem sound_begin (h : job.Sound) (hqueued : job.status = .queued) : (job.begin now).Sound ↔ job.outdated now = false := by
  obtain ⟨hstarted, hfinished, hresult⟩ := h.queued hqueued
  have houtdated : job.outdated now = now.before job.createdAt := by simp [Job.outdated, hstarted]
  have hdisordered : disordered job.createdAt (some now) job.finishedAt = now.before job.createdAt := by
    simp [disordered, hfinished]
  rw [houtdated, ← hdisordered]
  constructor
  · exact fun hsound => hsound.ordered
  · intro hordered
    exact
      { id := h.id
        bootId := h.bootId
        ordered := hordered
        snapshotId := h.snapshotId
        importId := h.importId
        queued := nofun
        running := fun _ => ⟨Option.some_ne_none now, hfinished, hresult⟩
        final := nofun
        matched := rfl
        started := by
          show (requiresStarted .running job.result && false || forbidsStarted job.result && true) = false
          rw [hresult]
          rfl }

/-- How a record may change. -/
inductive Moves : Job → Job → Prop
  | same (job : Job) : Moves job job
  | begins (job : Job) (now : DateTime) : job.status = .queued → Moves job (job.begin now)
  | closes (job : Job) (status : Status) (result : Result) (now : DateTime) :
      job.status.active = true → status.active = false → Moves job (job.close status result now)

/-! ### Disks -/

/-- Every record is valid. -/
structure Valid (disk : Disk) : Prop where
  uniq : disk.Uniq
  reads : ∀ jobId ∈ disk.keys, jobIdRe jobId = true → ∃ job, readRecord disk jobId = .ok job

theorem mem_recordIds : id ∈ recordIds disk ↔ id ∈ disk.keys ∧ jobIdRe id = true := by
  rw [recordIds, List.mem_insertionSort, List.mem_filter]

theorem nodup_recordIds (h : disk.Uniq) : (recordIds disk).Nodup :=
  (List.perm_insertionSort _ _).nodup_iff.mpr (h.filter _)

theorem Valid.read (h : Valid disk) (hid : id ∈ recordIds disk) : ∃ job, readRecord disk id = .ok job :=
  h.reads id (mem_recordIds.mp hid).1 (mem_recordIds.mp hid).2

theorem mem_keys_of_read (h : readRecord disk id = .ok job) : id ∈ disk.keys := by
  rw [readRecord, raiseIf_bind_eq_ok] at h
  obtain ⟨-, h⟩ := h
  split at h
  · exact (raise_ne_ok.mp h).elim
  · next record hget => exact Dict.mem_keys_of_get? hget

theorem Valid.set (h : Valid disk) (hsound : job.Sound) : Valid (disk.set job.id (.obj job.fields)) := by
  refine ⟨h.uniq.set _ _, fun jobId hkey hid => ?_⟩
  by_cases heq : job.id = jobId
  · subst heq
    exact ⟨job, readRecord_set_self disk hsound⟩
  · rw [readRecord_set_ne heq]
    exact h.reads jobId ((Dict.mem_keys_set.mp hkey).resolve_left (Ne.symm heq)) hid

theorem Valid.erase (h : Valid disk) (jobId : String) : Valid (disk.erase jobId) := by
  refine ⟨h.uniq.erase jobId, fun id hkey hid => ?_⟩
  have hne : jobId ≠ id := by
    rintro rfl
    exact Dict.get?_eq_none_iff.mp (Dict.get?_erase_self disk jobId) hkey
  have hget := Dict.get?_erase_ne hne disk
  obtain ⟨job, hjob⟩ := h.reads id (by rwa [← Dict.get?_isSome_iff, hget, Dict.get?_isSome_iff] at hkey) hid
  exact ⟨job, (readRecord_congr hget).trans hjob⟩

/-! ### Reconciling -/

/-- Is the record to be closed? -/
def due (seen : Observation) (job : Job) : Bool := job.status.active && interrupted seen job

/-- The record as it is after it was reconciled. -/
def settled (seen : Observation) (job : Job) : Job :=
  if due seen job then job.close .interrupted .runnerInterrupted seen.finish else job

/-- The record is to be closed and the clock is behind its times. -/
def late (seen : Observation) (job : Job) : Bool := due seen job && job.outdated seen.finish

theorem moves_settled (seen : Observation) (job : Job) : Moves job (settled seen job) := by
  rw [settled]
  split
  · next hdue =>
    rw [due, Bool.and_eq_true] at hdue
    exact .closes job _ _ _ hdue.1 rfl
  · exact .same job

theorem sound_settled (h : job.Sound) (hlate : late seen job = false) : (settled seen job).Sound := by
  rw [settled]
  split
  · next hdue =>
    rw [late, hdue, Bool.true_and] at hlate
    rw [due, Bool.and_eq_true] at hdue
    refine (sound_close h hdue.1 rfl rfl ?_).mpr hlate
    simp [requiresStarted, forbidsStarted]
  · exact h

theorem id_settled (seen : Observation) (job : Job) : (settled seen job).id = job.id := by
  rw [settled]
  split <;> rfl

theorem settle_of_due (hread : readRecord disk id = .ok job) (hdue : due seen job = true) : settle disk seen id =
    (fun disk => (disk, settled seen job)) <$> writeRecord disk (settled seen job) := by
  rw [settle, hread, ok_bind, reconcile, ← due, hdue, if_pos rfl, settled, hdue, if_pos rfl]
  show (writeRecord disk _ >>= fun disk => pure (disk, _)) = _
  rw [bind_pure_comp]

theorem settle_late (hread : readRecord disk id = .ok job) (hlate : late seen job = true) :
    settle disk seen id = Py.raise invalidRecord := by
  rw [late, Bool.and_eq_true] at hlate
  obtain ⟨hdue, houtdated⟩ := hlate
  have hactive : job.status.active = true := by
    rw [due, Bool.and_eq_true] at hdue
    exact hdue.1
  have hnot : ¬(settled seen job).Sound := by
    rw [settled, hdue, if_pos rfl,
      sound_close (sound_of_read hread).1 hactive rfl rfl (by simp [requiresStarted, forbidsStarted]), houtdated]
    exact Bool.noConfusion
  rw [settle_of_due hread hdue, writeRecord_of_not_sound hnot]
  rfl

/-- What a record that is not late is settled to. -/
theorem settle_eq (hread : readRecord disk id = .ok job) (hlate : late seen job = false) :
    ∃ disk', settle disk seen id = .ok (disk', settled seen job) ∧ readRecord disk' id = .ok (settled seen job) ∧
      disk'.keys = disk.keys ∧ (Valid disk → Valid disk') ∧ ∀ jobId, jobId ≠ id → readRecord disk' jobId = readRecord disk jobId := by
  have hsound := sound_settled (sound_of_read hread).1 hlate
  cases hdue : due seen job with
  | false =>
      have hsame : settled seen job = job := by rw [settled, hdue, if_neg Bool.false_ne_true]
      rw [hsame, settle, hread, ok_bind, reconcile, ← due, hdue, if_neg Bool.false_ne_true]
      exact ⟨disk, rfl, hread, rfl, fun h => h, fun _ _ => rfl⟩
  | true =>
      have hid : (settled seen job).id = id := (id_settled seen job).trans (sound_of_read hread).2
      have hwrite := writeRecord_of_sound disk hsound
      rw [hid] at hwrite
      rw [settle_of_due hread hdue, hwrite]
      refine ⟨disk.set id (.obj (settled seen job).fields), rfl, ?_, ?_, fun h => ?_, fun jobId hne => ?_⟩
      · have hself := readRecord_set_self disk hsound
        rwa [hid] at hself
      · rw [Dict.keys_set, if_pos (mem_keys_of_read hread)]
      · have hvalid := h.set hsound
        rwa [hid] at hvalid
      · exact readRecord_set_ne hne.symm

variable {idle : Bool} {sees : String → Observation} {ids : List String}

theorem settleAll_error {e : Raised JobError} (h : settle disk (sees id) id = .error e) :
    settleAll idle sees disk (id :: ids) = (disk, .error e) := by
  rw [settleAll, h]

theorem settleAll_busy (h : settle disk (sees id) id = .ok (disk', job)) (hbusy : (idle && job.status.active) = true) :
    settleAll idle sees disk (id :: ids) = (disk', Py.raise (.busy "maintenance job already active")) := by
  rw [settleAll, h]
  exact if_pos hbusy

theorem settleAll_cons (h : settle disk (sees id) id = .ok (disk', job)) (hbusy : (idle && job.status.active) = false) :
    settleAll idle sees disk (id :: ids) =
      ((settleAll idle sees disk' ids).1, (job :: ·) <$> (settleAll idle sees disk' ids).2) := by
  rw [settleAll, h]
  exact if_neg (by rw [hbusy]; exact Bool.false_ne_true)

/-- Settling record by record keeps the disk valid, and settles none or all of a record. -/
theorem settleAll_spec (idle : Bool) (sees : String → Observation) (hvalid : Valid disk) (hnodup : ids.Nodup) (hids : ∀ id ∈ ids, id ∈ recordIds disk) :
    Valid (settleAll idle sees disk ids).1 ∧ (settleAll idle sees disk ids).1.keys = disk.keys ∧
      (∀ id, id ∉ ids → readRecord (settleAll idle sees disk ids).1 id = readRecord disk id) ∧
      ∀ id job, readRecord disk id = .ok job → readRecord (settleAll idle sees disk ids).1 id = .ok job ∨
        readRecord (settleAll idle sees disk ids).1 id = .ok (settled (sees id) job) := by
  induction ids generalizing disk with
  | nil => exact ⟨hvalid, rfl, fun _ _ => rfl, fun _ _ h => .inl h⟩
  | cons jobId ids ih =>
      obtain ⟨job, hread⟩ := hvalid.read (hids jobId List.mem_cons_self)
      cases hlate : late (sees jobId) job with
      | true =>
          rw [settleAll_error (settle_late hread hlate)]
          exact ⟨hvalid, rfl, fun _ _ => rfl, fun _ _ h => .inl h⟩
      | false =>
          obtain ⟨disk', hsettle, hself, hkeys, hvalid', hother⟩ := settle_eq hread hlate
          have hhead : ∀ id job, readRecord disk id = .ok job →
              readRecord disk' id = .ok job ∨ id = jobId ∧ readRecord disk' id = .ok (settled (sees id) job) := by
            intro id job' hjob'
            by_cases heq : id = jobId
            · subst heq
              rw [hread] at hjob'
              cases hjob'
              exact .inr ⟨rfl, hself⟩
            · exact .inl ((hother id heq).trans hjob')
          cases hbusy : (idle && (settled (sees jobId) job).status.active) with
          | true =>
              rw [settleAll_busy hsettle hbusy]
              refine ⟨hvalid' hvalid, hkeys, fun id hid => ?_, fun id job' hjob' => ?_⟩
              · exact hother id fun heq => hid (heq ▸ List.mem_cons_self)
              · exact (hhead id job' hjob').imp_right fun h => h.2
          | false =>
              rw [settleAll_cons hsettle hbusy]
              have hrest : ∀ id ∈ ids, id ∈ recordIds disk' := by
                intro id hid
                rw [mem_recordIds, hkeys]
                exact mem_recordIds.mp (hids id (List.mem_cons_of_mem jobId hid))
              obtain ⟨hfresh, hnodup'⟩ := List.nodup_cons.mp hnodup
              obtain ⟨hvalidAll, hkeysAll, hotherAll, hreadAll⟩ := ih (hvalid' hvalid) hnodup' hrest
              refine ⟨hvalidAll, hkeysAll.trans hkeys, fun id hid => ?_, fun id job' hjob' => ?_⟩
              · rw [List.mem_cons, not_or] at hid
                exact (hotherAll id hid.2).trans (hother id hid.1)
              · rcases hhead id job' hjob' with hsame | ⟨rfl, hnew⟩
                · exact hreadAll id job' hsame
                · exact .inr ((hotherAll id hfresh).trans hnew)

theorem active_settled (seen : Observation) (job : Job) :
    (settled seen job).status.active = false ↔ (job.status.active = true → due seen job = true) := by
  rw [settled]
  split
  · next hdue => exact iff_of_true rfl fun _ => hdue
  · next hdue => rw [← Bool.not_eq_true, not_iff_comm, Classical.not_imp, and_iff_left hdue]

/-- A record that is late is reached. -/
def Blocked (idle : Bool) (sees : String → Observation) (disk : Disk) (ids : List String) : Prop :=
  ∃ front id rest job, ids = front ++ id :: rest ∧ readRecord disk id = .ok job ∧ late (sees id) job = true ∧
    (idle = true → ∀ before ∈ front, ∀ job, readRecord disk before = .ok job → job.status.active = true →
      due (sees before) job = true)

theorem blocked_cons (hread : readRecord disk id = .ok job) : Blocked idle sees disk (id :: ids) ↔
    late (sees id) job = true ∨ (idle && (settled (sees id) job).status.active) = false ∧ Blocked idle sees disk ids := by
  constructor
  · rintro ⟨front, jobId, rest, job', hsplit, hread', hlate, hfront⟩
    cases front with
    | nil =>
        cases hsplit
        rw [hread] at hread'
        cases hread'
        exact .inl hlate
    | cons first front =>
        cases hsplit
        refine .inr ⟨?_, front, jobId, rest, job', rfl, hread', hlate, fun hidle before hin => ?_⟩
        · cases idle with
          | false => rfl
          | true => exact (active_settled _ _).mpr (hfront rfl id List.mem_cons_self job hread)
        · exact hfront hidle before (List.mem_cons_of_mem id hin)
  · rintro (hlate | ⟨hquiet, front, jobId, rest, job', rfl, hread', hlate, hfront⟩)
    · exact ⟨[], id, ids, job, rfl, hread, hlate, fun _ _ hin => nomatch hin⟩
    · refine ⟨id :: front, jobId, rest, job', rfl, hread', hlate, fun hidle before hin job'' hjob'' => ?_⟩
      rcases List.mem_cons.mp hin with rfl | hin
      · rw [hread] at hjob''
        cases hjob''
        rw [hidle, Bool.true_and] at hquiet
        exact (active_settled _ _).mp hquiet
      · exact hfront hidle before hin job'' hjob''

theorem blocked_congr (idle : Bool) (sees : String → Observation) (h : ∀ id ∈ ids, readRecord disk' id = readRecord disk id) :
    Blocked idle sees disk' ids ↔ Blocked idle sees disk ids := by
  constructor
  · rintro ⟨front, id, rest, job, rfl, hread, hlate, hfront⟩
    refine ⟨front, id, rest, job, rfl, (h id (by simp)).symm.trans hread, hlate, fun hidle before hin job hjob => ?_⟩
    exact hfront hidle before hin job ((h before (List.mem_append_left _ hin)).trans hjob)
  · rintro ⟨front, id, rest, job, rfl, hread, hlate, hfront⟩
    refine ⟨front, id, rest, job, rfl, (h id (by simp)).trans hread, hlate, fun hidle before hin job hjob => ?_⟩
    exact hfront hidle before hin job ((h before (List.mem_append_left _ hin)).symm.trans hjob)

/-- Without the gate every record is reached. -/
theorem blocked_false : Blocked false sees disk ids ↔
    ∃ id ∈ ids, ∃ job, readRecord disk id = .ok job ∧ late (sees id) job = true := by
  constructor
  · rintro ⟨front, id, rest, job, rfl, hread, hlate, -⟩
    exact ⟨id, by simp, job, hread, hlate⟩
  · rintro ⟨id, hid, job, hread, hlate⟩
    obtain ⟨front, rest, rfl⟩ := List.append_of_mem hid
    exact ⟨front, id, rest, job, rfl, hread, hlate, nofun⟩

/-- A record that was settled, and is not active at the gate. -/
def Settles (idle : Bool) (sees : String → Observation) (disk disk' : Disk) (id : String) (job' : Job) : Prop :=
  ∃ job, readRecord disk id = .ok job ∧ job' = settled (sees id) job ∧ readRecord disk' id = .ok job' ∧
    (idle = true → job'.status.active = false)

/-- How settling ends: at a record that is late, at one that stays active, or with every record settled. -/
theorem settleAll_result (idle : Bool) (sees : String → Observation) (hvalid : Valid disk) (hnodup : ids.Nodup) (hids : ∀ id ∈ ids, id ∈ recordIds disk) :
    ((settleAll idle sees disk ids).2 = Py.raise invalidRecord ∧ Blocked idle sees disk ids) ∨
    ((settleAll idle sees disk ids).2 = Py.raise (.busy "maintenance job already active") ∧ idle = true ∧
      ¬Blocked idle sees disk ids) ∨
    ∃ jobs, (settleAll idle sees disk ids).2 = .ok jobs ∧ ¬Blocked idle sees disk ids ∧
      List.Forall₂ (Settles idle sees disk (settleAll idle sees disk ids).1) ids jobs := by
  -- on the ids; settling one record leaves those of the later ids as they are
  induction ids generalizing disk with
  | nil =>
      refine .inr (.inr ⟨[], rfl, ?_, .nil⟩)
      rintro ⟨front, id, rest, job, hsplit, -⟩
      cases front <;> cases hsplit
  | cons id ids ih =>
      obtain ⟨job, hread⟩ := hvalid.read (hids id List.mem_cons_self)
      rw [blocked_cons hread]
      cases hlate : late (sees id) job with
      | true =>
          rw [settleAll_error (settle_late hread hlate)]
          exact .inl ⟨rfl, .inl rfl⟩
      | false =>
          obtain ⟨disk', hsettle, hself, hkeys, hvalid', hother⟩ := settle_eq hread hlate
          cases hbusy : (idle && (settled (sees id) job).status.active) with
          | true =>
              rw [settleAll_busy hsettle hbusy]
              exact .inr (.inl ⟨rfl, (Bool.and_eq_true_iff.mp hbusy).1, by simp⟩)
          | false =>
              rw [settleAll_cons hsettle hbusy]
              obtain ⟨hfresh, hnodup'⟩ := List.nodup_cons.mp hnodup
              have hrest : ∀ id ∈ ids, id ∈ recordIds disk' := by
                intro id hid
                rw [mem_recordIds, hkeys]
                exact mem_recordIds.mp (hids id (List.mem_cons_of_mem _ hid))
              have hsame : ∀ id' ∈ ids, readRecord disk' id' = readRecord disk id' := fun id' hid' =>
                hother id' fun heq => hfresh (heq ▸ hid')
              have hblocked := blocked_congr idle sees hsame
              simp only [Bool.false_eq_true, false_or, true_and]
              rcases ih (hvalid' hvalid) hnodup' hrest with ⟨hraise, hlater⟩ | ⟨hraise, hidle, hlater⟩ | ⟨jobs, hok, hlater, hjobs⟩
              · exact .inl ⟨by rw [hraise]; rfl, hblocked.mp hlater⟩
              · exact .inr (.inl ⟨by rw [hraise]; rfl, hidle, fun h => hlater (hblocked.mpr h)⟩)
              · have hkept := (settleAll_spec idle sees (hvalid' hvalid) hnodup' hrest).2.2.1 id hfresh
                refine .inr (.inr ⟨settled (sees id) job :: jobs, by rw [hok]; rfl, fun h => hlater (hblocked.mpr h), ?_⟩)
                refine .cons ⟨job, hread, rfl, hkept.trans hself, fun hidle => ?_⟩ ((forall₂_mem hjobs).imp ?_)
                · rwa [hidle, Bool.true_and] at hbusy
                · intro id' job' hpair
                  obtain ⟨hid', -, old, hold, hsettled, hnew, hquiet⟩ := hpair
                  exact ⟨old, (hsame id' hid').symm.trans hold, hsettled, hnew, hquiet⟩

end ProxyGateway.Jobs
