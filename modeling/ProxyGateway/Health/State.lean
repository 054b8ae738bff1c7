import Std.Data.String.ToNat
import Mathlib.Algebra.Field.Rat
import Mathlib.Data.NNRat.Defs
import ProxyGateway.Schema.Names
import ProxyGateway.Schema.Shape

set_option autoImplicit false

/-!
# ProxyGateway.Health.State

The state file of `healthcheck.py`: for each recipient what was observed, what was confirmed to
be delivered, and the notification that is due. `_decode_state` reads it; `encode` is the value
that `_save_state` writes.
-/

namespace ProxyGateway.Health

/-! ### Values -/

/-- What `_problem_list` lets through. -/
def Fits (items : List String) : Prop := items.length ≤ 128 ∧ ∀ item ∈ items, item.length ≤ 16384

instance (items : List String) : Decidable (Fits items) := by
  unfold Fits
  infer_instance

/-- A list of problems that is let through. -/
abbrev Problems := { items : List String // Fits items }

/-- No problem. -/
def Problems.none : Problems := ⟨[], by simp [Fits]⟩

/-- A clock reading; the values are floating-point numbers. -/
abbrev Time := ℚ≥0

inductive Kind where
  | problem | recovery | resolved
  deriving DecidableEq, Repr

def Kind.name : Kind → String
  | .problem => "problem"
  | .recovery => "recovery"
  | .resolved => "resolved"

/-- A notification that is due; four attempts and more count the same. -/
structure Pending where
  kind : Kind
  problems : Problems
  attempts : Fin 5
  nextAttempt : Time
  deriving DecidableEq

/-- What is known of one recipient; `delivered` is `none` where it is unknown. -/
structure Row where
  observed : Problems
  delivered : Option Problems
  pending : Option Pending
  deriving DecidableEq

/-- The state; the recipients are looked up by `str(uid)`. -/
structure HealthState where
  problems : Problems
  recipients : Dict Nat Row

def schema : Int := 2

/-- `_new_recipient`. -/
def newRecipient (observed : Problems) (unknown : Bool) : Row :=
  ⟨observed, if unknown then none else some .none, none⟩

/-! ### Reading -/

/-- A `StateError`. -/
abbrev StateError := String

/-- `_problem_list`. -/
def problemList (value : Json) : Py StateError Problems :=
  match value with
  | .arr xs =>
      match xs.mapM Json.str? with
      | some items => if h : Fits items then .ok ⟨items, h⟩ else Py.raise "invalid problem list"
      | none => Py.raise "invalid problem list"
  | _ => Py.raise "invalid problem list"

/-- `_timestamp`. -/
def timestamp (value : Json) : Py StateError Time :=
  match value with
  | .int n => if 0 ≤ n then .ok n.toNat else Py.raise "invalid timestamp"
  | .float (.finite q) => if h : 0 ≤ q then .ok ⟨q, h⟩ else Py.raise "invalid timestamp"
  | _ => Py.raise "invalid timestamp"

/-- The kind that a text names. -/
def kindOf (value : Json) : Option Kind :=
  [Kind.problem, .recovery, .resolved].find? (fun kind => value = .str kind.name)

theorem attempts_lt {n : Int} (h : 0 ≤ n ∧ n ≤ 4) : n.toNat < 5 := by omega

/-- `type(value) is int` and `0 <= value <= 4`. -/
def attemptsOf (value : Json) : Option (Fin 5) :=
  match value with
  | .int n => if h : 0 ≤ n ∧ n ≤ 4 then some ⟨n.toNat, attempts_lt h⟩ else none
  | _ => none

/-- The pending notification in a row. -/
def decodePending (value : Json) : Py StateError (Option Pending) :=
  match value with
  | .null => .ok none
  | .obj _ => do
      let _ ← (value.getD "kind" .null).within ["problem", "recovery", "resolved"]
      match kindOf (value.getD "kind" .null), attemptsOf (value.getD "attempts" .null) with
      | some kind, some attempts => do
          let problems ← problemList (value.getD "problems" .null)
          let nextAttempt ← timestamp (value.getD "next_attempt" .null)
          return some ⟨kind, problems, attempts, nextAttempt⟩
      | _, _ => Py.raise "invalid pending notification"
  | _ => Py.raise "invalid pending notification"

/-- Do the three parts of a row fit together? -/
def consistent (row : Row) : Bool :=
  match row.pending with
  | none => row.delivered = some row.observed
  | some p => match p.kind with
    | .problem => row.observed ≠ .none && p.problems = row.observed && row.delivered ≠ some row.observed
    | .recovery => row.observed = .none && p.problems = .none &&
        row.delivered ≠ none && row.delivered ≠ some .none
    | .resolved => row.observed = .none && p.problems ≠ .none && row.delivered ≠ some p.problems

/-- One row. -/
def decodeRow (row : Json) : Py StateError Row := do
  raiseIf (!Schema.isDict row || ["observed", "delivered", "pending"].any
    (fun key => (row.get? key).isNone)) "invalid recipient"
  let observed ← problemList (row.getD "observed" .null)
  let delivered ← (if row.getD "delivered" .null = .null then .ok none
    else some <$> problemList (row.getD "delivered" .null))
  let pending ← decodePending (row.getD "pending" .null)
  let parsed : Row := ⟨observed, delivered, pending⟩
  raiseIf (!consistent parsed) "inconsistent recipient state"
  return parsed

/-- `str(uid)`. -/
def key (uid : Nat) : String := Nat.repr uid

/-- The entry of one recipient. -/
def decodeRecipient (rows : Dict String Json) (uid : Nat) : Py StateError (Nat × Row) :=
  match Dict.get? rows (key uid) with
  | none => .ok (uid, newRecipient .none false)
  | some row => do return (uid, ← decodeRow row)

/-- `_decode_state`. A state that was written before the schema knows the problems only. -/
def decodeState (value : Json) (recipients : List Nat) : Py StateError HealthState := do
  let .obj fields := value | Py.raise "invalid state"
  match Dict.get? fields "schema" with
  | none => do
      raiseIf (!Schema.sameKeys fields ["problems"]) "unknown legacy state"
      let previous ← problemList (value.getD "problems" .null)
      return ⟨previous, recipients.map (fun uid => (uid, newRecipient previous (previous ≠ .none)))⟩
  | some version => do
      let .obj rows := value.getD "recipients" .null | Py.raise "unsupported state schema"
      raiseIf (!version.isNumber schema) "unsupported state schema"
      let problems ← problemList (value.getD "problems" .null)
      let decoded ← recipients.mapM (decodeRecipient rows)
      return ⟨problems, decoded⟩

/-! ### Writing -/

def encodeProblems (problems : Problems) : Json := .arr (problems.val.map Json.str)

def encodePending (p : Pending) : Json :=
  .obj [("kind", .str p.kind.name), ("problems", encodeProblems p.problems),
    ("attempts", .int p.attempts.val), ("next_attempt", .float (.finite p.nextAttempt))]

def encodeRow (row : Row) : Json :=
  .obj [("observed", encodeProblems row.observed),
    ("delivered", (row.delivered.map encodeProblems).getD .null),
    ("pending", (row.pending.map encodePending).getD .null)]

/-- The value that is written. -/
def encode (state : HealthState) : Json :=
  .obj [("schema", .int schema), ("problems", encodeProblems state.problems),
    ("recipients", .obj (state.recipients.map (fun entry => (key entry.1, encodeRow entry.2))))]

/-! ### Reading back what was written -/

theorem problemList_encode (problems : Problems) :
    problemList (encodeProblems problems) = .ok problems := by
  have hitems : (problems.val.map Json.str).mapM Json.str? = some problems.val := by
    induction problems.val with
    | nil => rfl
    | cons item items ih => simp [List.mapM_cons, Json.str?, ih]
  simp [problemList, encodeProblems, hitems, problems.property]

theorem timestamp_encode (t : Time) : timestamp (.float (.finite t)) = .ok t := by
  have ht : (0 : ℚ) ≤ (t : ℚ) := t.property
  simp only [timestamp, dif_pos ht]
  rfl

theorem decodePending_encode (p : Pending) : decodePending (encodePending p) = .ok (some p) := by
  have hkind : kindOf (.str p.kind.name) = some p.kind := by cases p.kind <;> rfl
  have hattempts : attemptsOf (.int p.attempts.val) = some p.attempts := by
    have hle : (p.attempts.val : Int) ≤ 4 := by omega
    simp [attemptsOf, hle]
  simp [decodePending, encodePending, Json.getD, Json.get?, Dict.get?, Json.within, hkind, hattempts,
    problemList_encode, timestamp_encode]

theorem decodeRow_encode {row : Row} (h : consistent row = true) :
    decodeRow (encodeRow row) = .ok row := by
  have hpending : decodePending ((row.pending.map encodePending).getD .null) = .ok row.pending := by
    cases row.pending with
    | none => rfl
    | some p => exact decodePending_encode p
  have hdelivered : (if (row.delivered.map encodeProblems).getD .null = .null then
      (.ok none : Py StateError (Option Problems))
      else some <$> problemList ((row.delivered.map encodeProblems).getD .null)) = .ok row.delivered := by
    cases row.delivered with
    | none => rfl
    | some d =>
        have hne : encodeProblems d ≠ .null := by simp [encodeProblems]
        simp only [Option.map_some, Option.getD_some, if_neg hne, problemList_encode]
        rfl
  have hkeys : (["observed", "delivered", "pending"].any
      (fun key => ((encodeRow row).get? key).isNone)) = false := rfl
  have hdict : Schema.isDict (encodeRow row) = true := rfl
  have hget : (encodeRow row).getD "observed" .null = encodeProblems row.observed ∧
      (encodeRow row).getD "delivered" .null = (row.delivered.map encodeProblems).getD .null ∧
      (encodeRow row).getD "pending" .null = (row.pending.map encodePending).getD .null :=
    ⟨rfl, rfl, rfl⟩
  rw [decodeRow, hkeys, hdict, hget.1, hget.2.1, hget.2.2, problemList_encode, hpending]
  simp [raiseIf, hdelivered, h]

/-- A row is accepted where its parts fit together. -/
theorem decodeRow_consistent {row : Json} {parsed : Row} (h : decodeRow row = .ok parsed) :
    consistent parsed = true := by
  rw [decodeRow, raiseIf_bind_eq_ok] at h
  obtain ⟨observed, -, h⟩ := Py.bind_eq_ok.mp h.2
  obtain ⟨delivered, -, h⟩ := Py.bind_eq_ok.mp h
  obtain ⟨pending, -, h⟩ := Py.bind_eq_ok.mp h
  rw [raiseIf_bind_eq_ok] at h
  rw [← Py.pure_eq_ok.mp h.2]
  simpa using h.1

/-- What a state that was read knows of a recipient: a legacy state may leave open whether its
problems were delivered. -/
def Usable (row : Row) : Prop :=
  consistent row = true ∨ row.pending = none ∧ row.delivered = none ∧ row.observed ≠ .none

theorem usable_new (observed : Problems) : Usable (newRecipient observed (observed ≠ .none)) := by
  by_cases h : observed = .none
  · exact .inl (by simp [newRecipient, consistent, h])
  · exact .inr (by simp [newRecipient, h])

theorem decodeRecipient_eq_ok {rows : Dict String Json} {uid : Nat} {entry : Nat × Row}
    (h : decodeRecipient rows uid = .ok entry) : entry.1 = uid ∧ Usable entry.2 := by
  rw [decodeRecipient] at h
  cases hrow : Dict.get? rows (key uid) with
  | none =>
      rw [hrow] at h
      cases h
      exact ⟨rfl, .inl (by simp [newRecipient, consistent])⟩
  | some row =>
      rw [hrow] at h
      obtain ⟨parsed, hparsed, h⟩ := Py.bind_eq_ok.mp h
      rw [← Py.pure_eq_ok.mp h]
      exact ⟨rfl, .inl (decodeRow_consistent hparsed)⟩

/-- What reading a state does: its recipients are read one by one. -/
theorem decodeState_cases {value : Json} {recipients : List Nat} {state : HealthState}
    (h : decodeState value recipients = .ok state) :
    ∃ entry : Nat → Py StateError (Nat × Row),
      (∀ uids, decodeState value uids = HealthState.mk state.problems <$> uids.mapM entry) ∧
      ∀ uid row, entry uid = .ok row → row.1 = uid ∧ Usable row.2 := by
  cases value with
  | obj fields =>
      rw [decodeState] at h
      cases hschema : Dict.get? fields "schema" with
      | none =>
          simp only [hschema] at h
          rw [raiseIf_bind_eq_ok] at h
          obtain ⟨previous, hprevious, hstate⟩ := Py.bind_eq_ok.mp h.2
          refine ⟨fun uid => .ok (uid, newRecipient previous (previous ≠ .none)), fun uids => ?_, ?_⟩
          · have hproblems : state.problems = previous := by rw [← Py.pure_eq_ok.mp hstate]
            simp only [decodeState, hschema, h.1, hprevious, raiseIf, Py.ok_bind, hproblems]
            have hnew : uids.mapM (fun uid => (.ok (uid, newRecipient previous (previous ≠ .none)) :
                Py StateError (Nat × Row))) =
                .ok (uids.map (fun uid => (uid, newRecipient previous (previous ≠ .none)))) :=
              List.mapM_pure
            rw [hnew]
            rfl
          · intro uid row hrow
            cases hrow
            exact ⟨rfl, usable_new previous⟩
      | some version =>
          simp only [hschema] at h
          cases hrows : (Json.obj fields).getD "recipients" .null with
          | obj rows =>
              simp only [hrows] at h
              rw [raiseIf_bind_eq_ok] at h
              obtain ⟨problems, hproblems, hrest⟩ := Py.bind_eq_ok.mp h.2
              obtain ⟨decoded, -, hstate⟩ := Py.bind_eq_ok.mp hrest
              refine ⟨decodeRecipient rows, fun uids => ?_, fun uid row hrow =>
                decodeRecipient_eq_ok hrow⟩
              have hsame : state.problems = problems := by rw [← Py.pure_eq_ok.mp hstate]
              simp only [decodeState, hschema, hrows, h.1, hproblems, raiseIf, Py.ok_bind, hsame]
              rfl
          | _ => simp [hrows] at h
  | _ => simp [decodeState] at h

/-- The rows that were read are those of the recipients, in their order. -/
theorem decodeState_rows {value : Json} {recipients : List Nat} {state : HealthState}
    (h : decodeState value recipients = .ok state) :
    state.recipients.keys = recipients ∧ ∀ entry ∈ state.recipients, Usable entry.2 ∧
      decodeState value [entry.1] = .ok ⟨state.problems, [entry]⟩ := by
  obtain ⟨entry, hread, hentry⟩ := decodeState_cases h
  rw [hread, Py.map_eq_ok] at h
  obtain ⟨rows, hrows, hstate⟩ := h
  have hsame : state.recipients = rows := by rw [← hstate]
  have hall := Py.mapM_forall₂ hrows
  rw [hsame]
  clear hrows hsame hstate
  constructor
  · induction hall with
    | nil => rfl
    | cons hrow _ ih => simpa [Dict.keys, (hentry _ _ hrow).1] using ih
  · intro row hmem
    obtain ⟨uid, -, hrow⟩ := exists_of_forall₂ hall.flip hmem
    obtain ⟨huid, husable⟩ := hentry uid row hrow
    refine ⟨husable, ?_⟩
    rw [hread, huid]
    simp [List.mapM_cons, hrow]

theorem get?_encoded (rows : Dict Nat Row) (uid : Nat) :
    Dict.get? (rows.map (fun entry => (key entry.1, encodeRow entry.2))) (key uid) =
      (Dict.get? rows uid).map encodeRow := by
  induction rows with
  | nil => rfl
  | cons entry rows ih =>
      by_cases huid : entry.1 = uid
      · simp [Dict.get?, huid]
      · have hkey : key entry.1 ≠ key uid := fun hkey => huid (Nat.repr_injective hkey)
        simpa [Dict.get?, huid, hkey] using ih

/-- The row of a recipient; one that is not listed is new. -/
def HealthState.row (state : HealthState) (uid : Nat) : Row :=
  (Dict.get? state.recipients uid).getD (newRecipient .none false)

/-- A written state is read back for recipients whose rows are consistent. -/
theorem decodeState_encode {state : HealthState} {recipients : List Nat}
    (hrows : ∀ uid ∈ recipients, consistent (state.row uid) = true) :
    decodeState (encode state) recipients =
      .ok ⟨state.problems, recipients.map (fun uid => (uid, state.row uid))⟩ := by
  have hread : recipients.mapM (decodeRecipient
      (state.recipients.map (fun entry => (key entry.1, encodeRow entry.2)))) =
      .ok (recipients.map (fun uid => (uid, state.row uid))) := by
    apply Py.mapM_of_forall₂
    rw [List.forall₂_map_right_iff, List.forall₂_same]
    intro uid huid
    have hrow := hrows uid huid
    rw [decodeRecipient, get?_encoded]
    rw [HealthState.row] at hrow ⊢
    cases hget : Dict.get? state.recipients uid with
    | none => rfl
    | some row =>
        rw [hget, Option.getD_some] at hrow
        simp [decodeRow_encode hrow]
  have hschema : Json.isNumber schema (.int schema) = true := by decide
  simp [decodeState, encode, Dict.get?, Json.getD, Json.get?, hschema, problemList_encode, raiseIf,
    hread]

end ProxyGateway.Health
