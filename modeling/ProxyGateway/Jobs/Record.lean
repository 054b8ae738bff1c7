import ProxyGateway.Jobs.Stamp
import ProxyGateway.Lib.Dynamic

set_option autoImplicit false

/-!
# ProxyGateway.Jobs.Record

A job record and `_validate_record`. The record is kept with its texts decoded: `fields` is the object
that is written for it, and the check returns the record it has read. A record is accepted exactly if it
is `Sound` (`validateFields_fields`).
-/

namespace ProxyGateway.Jobs

open Py

/-- The exceptions of the job store. -/
inductive JobError where
  | invalid (text : String)
  | busy (text : String)
  | notFound (text : String)
  | start (text : String)
  deriving DecidableEq

inductive Kind where
  | rollback | softwareUpdate | configImport
  deriving DecidableEq, Repr

def Kind.name : Kind → String
  | .rollback => "rollback"
  | .softwareUpdate => "software-update"
  | .configImport => "config-import"

inductive Status where
  | queued | running | succeeded | failed | interrupted
  deriving DecidableEq, Repr

def Status.name : Status → String
  | .queued => "queued"
  | .running => "running"
  | .succeeded => "succeeded"
  | .failed => "failed"
  | .interrupted => "interrupted"

/-- `_ACTIVE` -/
def Status.active : Status → Bool
  | .queued | .running => true
  | _ => false

/-- `_RESULTS` -/
inductive Result where
  | runnerInterrupted | launcherFailed | bootChanged | operationFailed | completed | operationTimedOut
  deriving DecidableEq, Repr

def Result.name : Result → String
  | .runnerInterrupted => "runner_interrupted"
  | .launcherFailed => "launcher_failed"
  | .bootChanged => "boot_changed"
  | .operationFailed => "operation_failed"
  | .completed => "completed"
  | .operationTimedOut => "operation_timed_out"

structure Job where
  id : String
  kind : Kind
  status : Status
  createdAt : DateTime
  bootId : String
  snapshotId : Option String
  importId : Option String
  startedAt : Option DateTime
  finishedAt : Option DateTime
  result : Option Result
  deriving DecidableEq

/-! ### Texts -/

def isHex (c : Char) : Bool := c.isDigit || ('a' ≤ c && c ≤ 'f')

/-- `_JOB_ID_RE` -/
def jobIdRe (text : String) : Bool :=
  hasShape (digits 8 ++ (only 't' :: digits 6) ++ (only 'z' :: only '-' :: List.replicate 12 isHex)) text.toList

/-- `_SNAPSHOT_ID_RE` -/
def snapshotIdRe (text : String) : Bool :=
  hasShape (digits 8 ++ (only '-' :: digits 6)) text.toList ||
    hasShape (digits 8 ++ (only '-' :: digits 6) ++ (only '-' :: List.replicate 8 isHex)) text.toList

/-- `_IMPORT_ID_RE` -/
def importIdRe (text : String) : Bool :=
  hasShape ([only 'i', only 'm', only 'p', only '-'] ++ List.replicate 32 isHex) text.toList

/-- The texts that `_boot_id` returns. -/
def bootIdRe (text : String) : Bool :=
  text = "unknown" ||
    (32 ≤ text.toList.length && text.toList.length ≤ 40 && text.toList.all (fun c => isHex c || c = '-'))

/-- `_UTC_RE` -/
def utcRe (text : String) : Bool := hasShape utcShape text.toList

/-- What `_boot_id` returns. -/
structure BootId where
  text : String
  shape : bootIdRe text = true
  deriving DecidableEq

/-- The unit of a job, whose id has no capital letters. -/
def unitOf (jobId : String) : String := "pdg-web-job-" ++ jobId ++ ".service"

/-! ### The check -/

def invalidRecord : JobError := .invalid "invalid job record"

/-- `value not in {…}` raises, as does a value that has no hash. -/
def memberOf {α : Type} (names : List (String × α)) : Json → Py JobError α
  | .arr _ | .obj _ => Py.fault .type
  | .str s =>
      match names.lookup s with
      | some a => .ok a
      | none => Py.raise invalidRecord
  | _ => Py.raise invalidRecord

def kinds : List (String × Kind) := [.rollback, .softwareUpdate, .configImport].map (fun kind => (Kind.name kind, kind))

def statuses : List (String × Status) :=
  [.queued, .running, .succeeded, .failed, .interrupted].map (fun status => (Status.name status, status))

def results : List (String × Result) :=
  [.runnerInterrupted, .launcherFailed, .bootChanged, .operationFailed, .completed, .operationTimedOut].map
    (fun result => (Result.name result, result))

/-- A text that has the form. -/
def textLike (re : String → Bool) : Json → Py JobError String
  | .str s => if re s then .ok s else Py.raise invalidRecord
  | _ => Py.raise invalidRecord

/-- The time of a field. -/
def timeOf : Json → Py JobError DateTime
  | .str s =>
      match parseUtc s.toList with
      | some t => .ok t
      | none => Py.raise invalidRecord
  | _ => Py.raise invalidRecord

/-- A field that may be absent. -/
def optional {α : Type} (read : Json → Py JobError α) : Option Json → Py JobError (Option α)
  | some value => some <$> read value
  | none => .ok none

/-- A field that is there for one kind of job and for no other. -/
def only? (wanted : Bool) (re : String → Bool) : Option Json → Py JobError (Option String)
  | some value => if wanted then some <$> textLike re value else Py.raise invalidRecord
  | none => if wanted then Py.raise invalidRecord else .ok none

/-- Is one time before another one that came first? -/
def disordered (createdAt : DateTime) (startedAt finishedAt : Option DateTime) : Bool :=
  (startedAt.getD createdAt).before createdAt || (finishedAt.getD createdAt).before createdAt ||
    match startedAt, finishedAt with
    | some started, some finished => finished.before started
    | _, _ => false

/-- The status and the result do not go together. -/
def mismatched : Status → Option Result → Bool
  | .succeeded, result => result ≠ some .completed
  | .failed, result => result ∉ [some .launcherFailed, some .operationFailed, some .operationTimedOut]
  | .interrupted, result => result ∉ [some .runnerInterrupted, some .bootChanged]
  | _, _ => false

def requiresStarted (status : Status) (result : Option Result) : Bool :=
  status = .succeeded || result ∈ [some .operationFailed, some .operationTimedOut]

def forbidsStarted (result : Option Result) : Bool := result ∈ [some .launcherFailed, some .bootChanged]

def recordKeys : List String :=
  ["id", "kind", "status", "createdAt", "bootId", "unit", "snapshotId", "importId", "startedAt", "finishedAt", "result"]

def requiredKeys : List String := ["id", "kind", "status", "createdAt", "bootId", "unit"]

/-- The result of a record whose status is final. -/
def resultOf (status : Status) (finishedAt : Option DateTime) (value : Json) : Py JobError (Option Result) :=
  if status.active then .ok none
  else if finishedAt = none then Py.raise invalidRecord
  else some <$> memberOf results value

/-- `_validate_record` of an object, for a job id that has the form. -/
def validateFields (record : Dict String Json) (jobId : String) : Py JobError Job := do
  let get := fun key => (record.get? key).getD .null
  raiseIf (record.keys.any (fun key => key ∉ recordKeys)) invalidRecord
  raiseIf (requiredKeys.any (fun key => key ∉ record.keys) || get "id" ≠ .str jobId) invalidRecord
  let _ ← textLike utcRe (get "createdAt")
  let kind ← memberOf kinds (get "kind")
  let status ← memberOf statuses (get "status")
  raiseIf (get "unit" ≠ .str (unitOf jobId)) invalidRecord
  let bootId ← textLike bootIdRe (get "bootId")
  let createdAt ← timeOf (get "createdAt")
  let startedAt ← optional timeOf (record.get? "startedAt")
  let finishedAt ← optional timeOf (record.get? "finishedAt")
  raiseIf (disordered createdAt startedAt finishedAt) invalidRecord
  let snapshotId ← only? (kind = .rollback) snapshotIdRe (record.get? "snapshotId")
  let importId ← only? (kind = .configImport) importIdRe (record.get? "importId")
  raiseIf (status = .queued && (startedAt.isSome || finishedAt.isSome || record.contains "result")) invalidRecord
  raiseIf (status = .running && (startedAt.isNone || finishedAt.isSome || record.contains "result")) invalidRecord
  let result ← resultOf status finishedAt (get "result")
  raiseIf (mismatched status result) invalidRecord
  raiseIf (requiresStarted status result && startedAt.isNone || forbidsStarted result && startedAt.isSome) invalidRecord
  return ⟨jobId, kind, status, createdAt, bootId, snapshotId, importId, startedAt, finishedAt, result⟩

/-- `_validate_record` -/
def validateRecord (record : Json) (jobId : String) : Py JobError Job :=
  match record with
  | .obj record => if jobIdRe jobId then validateFields record jobId else Py.raise invalidRecord
  | _ => Py.raise invalidRecord

/-- The text of a time, as a value. -/
def timeJson (t : DateTime) : Json := .str (String.ofList t.text)

/-- The fields of a record, sorted by their names. -/
def Job.slots (job : Job) : Dict String (Option Json) :=
  [("bootId", some (Json.str job.bootId)), ("createdAt", some (timeJson job.createdAt)),
    ("finishedAt", job.finishedAt.map timeJson), ("id", some (.str job.id)), ("importId", job.importId.map Json.str),
    ("kind", some (.str job.kind.name)), ("result", job.result.map (fun result => .str result.name)),
    ("snapshotId", job.snapshotId.map Json.str), ("startedAt", job.startedAt.map timeJson),
    ("status", some (.str job.status.name)), ("unit", some (.str (unitOf job.id)))]

/-- The object that is written. -/
def Job.fields (job : Job) : Dict String Json :=
  job.slots.filterMap (fun entry => entry.2.map (fun value => (entry.1, value)))

/-! ### What is accepted -/

/-- What the check leaves of a record. -/
structure Job.Sound (job : Job) : Prop where
  id : jobIdRe job.id = true
  bootId : bootIdRe job.bootId = true
  ordered : disordered job.createdAt job.startedAt job.finishedAt = false
  snapshotId : only? (job.kind = .rollback) snapshotIdRe (job.snapshotId.map Json.str) = .ok job.snapshotId
  importId : only? (job.kind = .configImport) importIdRe (job.importId.map Json.str) = .ok job.importId
  queued : job.status = .queued → job.startedAt = none ∧ job.finishedAt = none ∧ job.result = none
  running : job.status = .running → job.startedAt ≠ none ∧ job.finishedAt = none ∧ job.result = none
  final : job.status.active = false → job.finishedAt ≠ none ∧ job.result ≠ none
  matched : mismatched job.status job.result = false
  started : (requiresStarted job.status job.result && job.startedAt.isNone ||
    forbidsStarted job.result && job.startedAt.isSome) = false

variable {record : Dict String Json} {job job' : Job} {jobId : String} {value : Option Json}

theorem optional_isSome {α : Type} {read : Json → Py JobError α} {a : Option α} (h : optional read value = .ok a) :
    a.isSome = value.isSome := by
  cases value with
  | none =>
      cases h
      rfl
  | some value =>
      obtain ⟨b, -, rfl⟩ := map_eq_ok.mp h
      rfl

theorem textLike_eq_ok {re : String → Bool} {value : Json} {s : String} (h : textLike re value = .ok s) :
    value = .str s ∧ re s = true := by
  cases value with
  | str t =>
      rw [textLike] at h
      split at h
      · next hre =>
        cases h
        exact ⟨rfl, hre⟩
      · exact (raise_ne_ok.mp h).elim
  | _ => exact (raise_ne_ok.mp h).elim

theorem only?_eq_ok {wanted : Bool} {re : String → Bool} {found : Option String} (h : only? wanted re value = .ok found) :
    value = found.map Json.str := by
  cases value with
  | none =>
      rw [only?] at h
      split at h
      · exact (raise_ne_ok.mp h).elim
      · cases h
        rfl
  | some value =>
      rw [only?] at h
      split at h
      · obtain ⟨s, hs, rfl⟩ := map_eq_ok.mp h
        rw [(textLike_eq_ok hs).1]
        rfl
      · exact (raise_ne_ok.mp h).elim

/-- A record that was read is sound. -/
theorem sound_of_validate {record : Json} (h : validateRecord record jobId = .ok job) : job.Sound ∧ job.id = jobId := by
  cases record with
  | obj record =>
      rw [validateRecord] at h
      split at h
      · next hid =>
        simp only [validateFields, raiseIf_bind_eq_ok] at h
        obtain ⟨-, -, h⟩ := h
        obtain ⟨-, -, h⟩ := bind_eq_ok.mp h
        obtain ⟨kind, -, h⟩ := bind_eq_ok.mp h
        obtain ⟨status, -, h⟩ := bind_eq_ok.mp h
        rw [raiseIf_bind_eq_ok] at h
        obtain ⟨-, h⟩ := h
        obtain ⟨bootId, hboot, h⟩ := bind_eq_ok.mp h
        obtain ⟨createdAt, -, h⟩ := bind_eq_ok.mp h
        obtain ⟨startedAt, -, h⟩ := bind_eq_ok.mp h
        obtain ⟨finishedAt, -, h⟩ := bind_eq_ok.mp h
        rw [raiseIf_bind_eq_ok] at h
        obtain ⟨hordered, h⟩ := h
        obtain ⟨snapshotId, hsnapshot, h⟩ := bind_eq_ok.mp h
        obtain ⟨importId, himport, h⟩ := bind_eq_ok.mp h
        simp only [raiseIf_bind_eq_ok] at h
        obtain ⟨hqueued, hrunning, h⟩ := h
        obtain ⟨result, hresult, h⟩ := bind_eq_ok.mp h
        simp only [raiseIf_bind_eq_ok] at h
        obtain ⟨hmatched, hstarted, h⟩ := h
        obtain rfl := pure_eq_ok.mp h
        -- an active record has no result, whatever the fields say of it
        have hactive : status.active = true → result = none := by
          intro hactive
          rw [resultOf, if_pos hactive] at hresult
          exact (Except.ok.inj hresult).symm
        refine ⟨⟨hid, (textLike_eq_ok hboot).2, hordered, only?_eq_ok hsnapshot ▸ hsnapshot, only?_eq_ok himport ▸ himport,
          ?_, ?_, ?_, hmatched, hstarted⟩, rfl⟩
        · rintro rfl
          simp only [decide_true, Bool.true_and, Bool.or_eq_false_iff, Option.isSome_eq_false_iff, Option.isNone_iff_eq_none] at hqueued
          exact ⟨hqueued.1.1, hqueued.1.2, hactive rfl⟩
        · rintro rfl
          simp only [decide_true, Bool.true_and, Bool.or_eq_false_iff, Option.isSome_eq_false_iff, Option.isNone_iff_eq_none,
            Option.isNone_eq_false_iff, Option.isSome_iff_ne_none] at hrunning
          exact ⟨hrunning.1.1, hrunning.1.2, hactive rfl⟩
        · intro hfinal
          simp only [resultOf, hfinal, Bool.false_eq_true, if_false] at hresult
          split at hresult
          · exact (raise_ne_ok.mp hresult).elim
          · next hfinished =>
            obtain ⟨r, -, rfl⟩ := map_eq_ok.mp hresult
            exact ⟨hfinished, Option.some_ne_none r⟩
      · exact (raise_ne_ok.mp h).elim
  | _ => exact (raise_ne_ok.mp h).elim

/-! ### What is written -/

theorem get?_fields (job : Job) (key : String) : job.fields.get? key = (job.slots.get? key).join := by
  have huniq : job.slots.Uniq := by
    show ["bootId", "createdAt", "finishedAt", "id", "importId", "kind", "result", "snapshotId", "startedAt", "status",
      "unit"].Nodup
    decide
  exact huniq.get?_filterMap (fun _ value => value) key

theorem recordKeys_fields (job : Job) : ∀ key ∈ job.fields.keys, key ∈ recordKeys := by
  have hslots : ∀ key ∈ job.slots.keys, key ∈ recordKeys := by
    show ∀ key ∈ ["bootId", "createdAt", "finishedAt", "id", "importId", "kind", "result", "snapshotId", "startedAt", "status",
      "unit"], key ∈ recordKeys
    decide
  intro key hkey
  obtain ⟨value, hvalue⟩ := Option.isSome_iff_exists.mp (Dict.get?_isSome_iff.mpr hkey)
  rw [get?_fields] at hvalue
  cases hget : job.slots.get? key with
  | none =>
      rw [hget] at hvalue
      cases hvalue
  | some slot => exact hslots key (Dict.mem_keys_of_get? hget)

theorem requiredKeys_fields (job : Job) : ∀ key ∈ requiredKeys, key ∈ job.fields.keys := by
  have hget : ∀ key ∈ requiredKeys, (job.fields.get? key).isSome = true := by
    simp only [requiredKeys, List.forall_mem_cons, get?_fields]
    exact ⟨rfl, rfl, rfl, rfl, rfl, rfl, List.forall_mem_nil _⟩
  exact fun key hkey => Dict.get?_isSome_iff.mp (hget key hkey)

theorem memberOf_kind (kind : Kind) : memberOf kinds (.str kind.name) = .ok kind := by
  cases kind <;> rfl

theorem memberOf_status (status : Status) : memberOf statuses (.str status.name) = .ok status := by
  cases status <;> rfl

theorem memberOf_result (result : Result) : memberOf results (.str result.name) = .ok result := by
  cases result <;> rfl

theorem timeOf_timeJson (t : DateTime) : timeOf (timeJson t) = .ok t := by
  show timeOf (.str (String.ofList t.text)) = .ok t
  rw [timeOf, String.toList_ofList, parseUtc_text]

theorem optional_timeJson (t : Option DateTime) : optional timeOf (t.map timeJson) = .ok t := by
  cases t with
  | none => rfl
  | some t =>
      rw [Option.map_some, optional, timeOf_timeJson]
      rfl

theorem textLike_timeJson (t : DateTime) : textLike utcRe (timeJson t) = .ok (String.ofList t.text) := by
  have hre : utcRe (String.ofList t.text) = true := by
    rw [utcRe, String.toList_ofList]
    exact hasShape_text t
  rw [timeJson, textLike, if_pos hre]

/-- The check reads the fields that were written. -/
theorem validateFields_fields (job : Job) : validateFields job.fields job.id = (do
    let bootId ← textLike bootIdRe (.str job.bootId)
    raiseIf (disordered job.createdAt job.startedAt job.finishedAt) invalidRecord
    let snapshotId ← only? (job.kind = .rollback) snapshotIdRe (job.snapshotId.map Json.str)
    let importId ← only? (job.kind = .configImport) importIdRe (job.importId.map Json.str)
    raiseIf (job.status = .queued && (job.startedAt.isSome || job.finishedAt.isSome || job.result.isSome)) invalidRecord
    raiseIf (job.status = .running && (job.startedAt.isNone || job.finishedAt.isSome || job.result.isSome)) invalidRecord
    let result ← resultOf job.status job.finishedAt ((job.result.map (fun result => Json.str result.name)).getD .null)
    raiseIf (mismatched job.status result) invalidRecord
    raiseIf (requiresStarted job.status result && job.startedAt.isNone || forbidsStarted result && job.startedAt.isSome)
      invalidRecord
    return ⟨job.id, job.kind, job.status, job.createdAt, bootId, snapshotId, importId, job.startedAt, job.finishedAt,
      result⟩) := by
  have hknown : job.fields.keys.any (fun key => key ∉ recordKeys) = false := by
    rw [List.any_eq_false]
    intro key hkey
    simpa using recordKeys_fields job key hkey
  have hrequired : requiredKeys.any (fun key => key ∉ job.fields.keys) = false := by
    rw [List.any_eq_false]
    intro key hkey
    simpa using requiredKeys_fields job key hkey
  have hresult : job.fields.contains "result" = job.result.isSome := by
    rw [Dict.contains, get?_fields]
    show (job.result.map _).isSome = _
    rw [Option.isSome_map]
  have hgets : job.fields.get? "bootId" = some (.str job.bootId) ∧ job.fields.get? "createdAt" = some (timeJson job.createdAt) ∧
      job.fields.get? "finishedAt" = job.finishedAt.map timeJson ∧ job.fields.get? "id" = some (.str job.id) ∧
      job.fields.get? "importId" = job.importId.map Json.str ∧ job.fields.get? "kind" = some (.str job.kind.name) ∧
      job.fields.get? "result" = job.result.map (fun result => .str result.name) ∧
      job.fields.get? "snapshotId" = job.snapshotId.map Json.str ∧ job.fields.get? "startedAt" = job.startedAt.map timeJson ∧
      job.fields.get? "status" = some (.str job.status.name) ∧ job.fields.get? "unit" = some (.str (unitOf job.id)) := by
    simp only [get?_fields]
    exact ⟨rfl, rfl, rfl, rfl, rfl, rfl, rfl, rfl, rfl, rfl, rfl⟩
  obtain ⟨hboot, hcreated, hfinished, hid, himport, hkind, hresultText, hsnapshot, hstarted, hstatus, hunit⟩ := hgets
  have hpass : raiseIf false invalidRecord = .ok () := rfl
  rw [validateFields]
  simp only [hknown, hrequired, hboot, hcreated, hfinished, hid, himport, hkind, hresultText, hsnapshot, hstarted, hstatus,
    hunit, hresult, Option.getD_some, textLike_timeJson, memberOf_kind, memberOf_status, timeOf_timeJson, optional_timeJson,
    ok_bind, ne_eq, not_true_eq_false, decide_false, Bool.or_false, hpass]

theorem only?_map_eq_ok {wanted : Bool} {re : String → Bool} {found found' : Option String}
    (h : only? wanted re (found.map Json.str) = .ok found') : found' = found := by
  have hmap := only?_eq_ok h
  cases found with
  | none => cases found' with
    | none => rfl
    | some s => cases hmap
  | some s => cases found' with
    | none => cases hmap
    | some t =>
        cases hmap
        rfl

theorem Job.Sound.result_of_active (h : job.Sound) (hactive : job.status.active = true) : job.result = none := by
  cases hstatus : job.status with
  | queued => exact (h.queued hstatus).2.2
  | running => exact (h.running hstatus).2.2
  | succeeded | failed | interrupted => rw [hstatus] at hactive; cases hactive

/-- A record can be written exactly if it is sound. -/
theorem validateRecord_fields : validateRecord (.obj job.fields) job.id = .ok job' ↔ job.Sound ∧ job' = job := by
  constructor
  · intro h
    obtain rfl : job' = job := by
      rw [validateRecord] at h
      split at h
      · rw [validateFields_fields] at h
        obtain ⟨bootId, hboot, h⟩ := bind_eq_ok.mp h
        rw [raiseIf_bind_eq_ok] at h
        obtain ⟨-, h⟩ := h
        obtain ⟨snapshotId, hsnapshot, h⟩ := bind_eq_ok.mp h
        obtain ⟨importId, himport, h⟩ := bind_eq_ok.mp h
        simp only [raiseIf_bind_eq_ok] at h
        obtain ⟨hqueued, hrunning, h⟩ := h
        obtain ⟨result, hresult, h⟩ := bind_eq_ok.mp h
        simp only [raiseIf_bind_eq_ok] at h
        obtain ⟨-, -, h⟩ := h
        obtain rfl := pure_eq_ok.mp h
        obtain rfl : job.bootId = bootId := by simpa using (textLike_eq_ok hboot).1
        have hsame : result = job.result := by
          -- an active record has no result by the checks before, a final one has the one that is read
          cases hactive : job.status.active with
          | true =>
              rw [resultOf, if_pos hactive] at hresult
              rw [← Except.ok.inj hresult]
              cases hstatus : job.status with
              | queued => simp_all
              | running => simp_all
              | succeeded | failed | interrupted => rw [hstatus] at hactive; cases hactive
          | false =>
              simp only [resultOf, hactive, Bool.false_eq_true, if_false] at hresult
              split at hresult
              · exact (raise_ne_ok.mp hresult).elim
              · obtain ⟨r, hr, rfl⟩ := map_eq_ok.mp hresult
                cases hresultText : job.result with
                | none =>
                    rw [hresultText] at hr
                    exact (raise_ne_ok.mp hr).elim
                | some r' =>
                    rw [hresultText, Option.map_some, Option.getD_some, memberOf_result] at hr
                    rw [Except.ok.inj hr]
        rw [only?_map_eq_ok hsnapshot, only?_map_eq_ok himport, hsame]
      · exact (raise_ne_ok.mp h).elim
    exact ⟨(sound_of_validate h).1, rfl⟩
  · rintro ⟨h, rfl⟩
    have hboot : textLike bootIdRe (.str job'.bootId) = .ok job'.bootId := if_pos h.bootId
    have hpass : raiseIf false invalidRecord = .ok () := rfl
    have hqueued : (decide (job'.status = .queued) && (job'.startedAt.isSome || job'.finishedAt.isSome || job'.result.isSome)) =
        false := by
      by_cases hstatus : job'.status = .queued
      · obtain ⟨hstarted, hfinished, hresult⟩ := h.queued hstatus
        simp [hstarted, hfinished, hresult]
      · simp [hstatus]
    have hrunning : (decide (job'.status = .running) && (job'.startedAt.isNone || job'.finishedAt.isSome || job'.result.isSome)) =
        false := by
      by_cases hstatus : job'.status = .running
      · obtain ⟨hstarted, hfinished, hresult⟩ := h.running hstatus
        simp [Option.isSome_iff_ne_none, hstarted, hfinished, hresult]
      · simp [hstatus]
    have hresult : resultOf job'.status job'.finishedAt ((job'.result.map (fun result => Json.str result.name)).getD .null) =
        .ok job'.result := by
      rw [resultOf]
      cases hactive : job'.status.active with
      | true =>
          rw [h.result_of_active hactive]
          rfl
      | false =>
          obtain ⟨hfinished, hsome⟩ := h.final hactive
          obtain ⟨r, hr⟩ := Option.ne_none_iff_exists'.mp hsome
          rw [if_neg Bool.false_ne_true, if_neg hfinished, hr, Option.map_some, Option.getD_some, memberOf_result]
          rfl
    rw [validateRecord, if_pos h.id, validateFields_fields]
    simp only [hboot, h.ordered, h.snapshotId, h.importId, hqueued, hrunning, hresult, h.matched, h.started, hpass, ok_bind]
    rfl

/-- `x` raises nothing but the exception of an invalid record. -/
def Refuses {α : Type} (x : Py JobError α) : Prop := ∀ e, x = .error e → e = .error invalidRecord

theorem Refuses.bind {α β : Type} {x : Py JobError α} {f : α → Py JobError β} (hx : Refuses x) (hf : ∀ a, Refuses (f a)) :
    Refuses (x >>= f) := by
  intro e h
  cases x with
  | error e' =>
      have heq : e' = e := Except.error.inj h
      exact heq ▸ hx e' rfl
  | ok a => exact hf a e h

theorem refuses_raise {α : Type} : Refuses (Py.raise invalidRecord : Py JobError α) := by
  intro e h
  cases h
  rfl

theorem refuses_ok {α : Type} (a : α) : Refuses (.ok a : Py JobError α) := fun _ h => nomatch h

theorem refuses_raiseIf (bad : Bool) : Refuses (raiseIf bad invalidRecord) := by
  cases bad
  · exact refuses_ok ()
  · exact refuses_raise

theorem Refuses.map {α β : Type} {x : Py JobError α} (hx : Refuses x) (f : α → β) : Refuses (f <$> x) := by
  intro e h
  cases x with
  | error e' =>
      have heq : e' = e := Except.error.inj h
      exact heq ▸ hx e' rfl
  | ok a => cases h

theorem refuses_textLike (re : String → Bool) (s : String) : Refuses (textLike re (.str s)) := by
  rw [textLike]
  split
  · exact refuses_ok s
  · exact refuses_raise

theorem refuses_only? (wanted : Bool) (re : String → Bool) (found : Option String) :
    Refuses (only? wanted re (found.map Json.str)) := by
  cases found with
  | none =>
      rw [Option.map_none, only?]
      split
      · exact refuses_raise
      · exact refuses_ok none
  | some s =>
      rw [Option.map_some, only?]
      split
      · exact (refuses_textLike re s).map some
      · exact refuses_raise

theorem refuses_resultOf (status : Status) (finishedAt : Option DateTime) (result : Option Result) :
    Refuses (resultOf status finishedAt ((result.map (fun result => Json.str result.name)).getD .null)) := by
  rw [resultOf]
  split
  · exact refuses_ok none
  · split
    · exact refuses_raise
    · cases result with
      | none => exact refuses_raise.map some
      | some result =>
          rw [Option.map_some, Option.getD_some, memberOf_result]
          exact (refuses_ok result).map some

theorem refuses_validate (job : Job) : Refuses (validateRecord (.obj job.fields) job.id) := by
  rw [validateRecord]
  split
  · rw [validateFields_fields]
    refine (refuses_textLike _ _).bind fun bootId => (refuses_raiseIf _).bind fun _ => ?_
    refine (refuses_only? _ _ _).bind fun snapshotId => (refuses_only? _ _ _).bind fun importId => ?_
    refine (refuses_raiseIf _).bind fun _ => (refuses_raiseIf _).bind fun _ => ?_
    refine (refuses_resultOf _ _ _).bind fun result => ?_
    exact (refuses_raiseIf _).bind fun _ => (refuses_raiseIf _).bind fun _ => refuses_ok _
  · exact refuses_raise

end ProxyGateway.Jobs
