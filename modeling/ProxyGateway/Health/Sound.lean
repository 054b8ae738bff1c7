import ProxyGateway.Health.Run

set_option autoImplicit false

/-!
# ProxyGateway.Health.Sound

What every history of health checks satisfies, wherever the checks were cut: a saved state is one
that the next check can read, nothing is confirmed without an acknowledged message, and a message
tells what is observed at the time it is sent.
-/

namespace ProxyGateway.Health

/-! ### What a history says -/

/-- What a file says of a recipient. -/
def rowOf (file : Option Json) (uid : Nat) : Row :=
  match file with
  | none => newRecipient .none false
  | some v => match decodeState v [uid] with
    | .ok state => state.row uid
    | .error _ => newRecipient .none false

/-- The file that a history leaves. -/
def lastSaved (initial : Option Json) : List Event → Option Json
  | [] => initial
  | .saved v :: _ => some v
  | _ :: log => lastSaved initial log

/-- The check that is going on: its recipients and what it observes. -/
def current : List Event → Option (List Nat × Problems)
  | [] => none
  | .began recipients problems :: _ => some (recipients, problems)
  | _ :: log => current log

/-- The last problems that were recorded as observed for a recipient. -/
def lastProblems (initial : Option Json) (uid : Nat) : List Event → Problems
  | [] => (rowOf initial uid).observed
  | .saved v :: log =>
      if (rowOf (some v) uid).observed = .none then lastProblems initial uid log
      else (rowOf (some v) uid).observed
  | _ :: log => lastProblems initial uid log

/-- The newest event is an acknowledged message to the recipient. -/
def Acknowledged (log : List Event) (uid : Nat) : Prop :=
  ∃ text, log.head? = some (.sent uid text true)

/-- The row of a recipient before and after a state is saved. -/
structure Succeeds (acknowledged : Prop) (problems : Problems) (before after : Row) : Prop where
  observes : after.observed = problems
  settled : after.pending = none → after.delivered = some after.observed
  delivers : after.delivered = before.delivered ∨
    acknowledged ∧ after.delivered = some after.observed
  keeps : ∀ p, before.pending = some p → before.observed = problems → acknowledged ∨
    ∃ q, after.pending = some q ∧ q.kind = p.kind ∧ q.problems = p.problems

/-- A state that may be saved after a history. -/
structure FitsSaved (initial : Option Json) (log : List Event) (recipients : List Nat)
    (problems : Problems) (value : Json) : Prop where
  accepted : ∃ state, decodeState value recipients = .ok state
  rows : ∀ uid ∈ recipients, Succeeds (Acknowledged log uid) problems
    (rowOf (lastSaved initial log) uid) (rowOf (some value) uid)
  resolved : ∀ uid p, (rowOf (some value) uid).pending = some p → p.kind = .resolved →
    p.problems = lastProblems initial uid (.saved value :: log)

/-- A notification that does not contradict what is observed now: `row` is the record of its
recipient, `last` the last problems observed for it. -/
def Truthful (problems : Problems) (row : Row) (last : Problems) (p : Pending) : Prop :=
  match p.kind with
  | .problem => problems ≠ .none ∧ p.problems = problems ∧ row.delivered ≠ some problems
  | .recovery => problems = .none ∧ ∃ delivered, row.delivered = some delivered ∧ delivered ≠ .none
  | .resolved => problems = .none ∧ p.problems = last ∧ last ≠ .none ∧ row.delivered ≠ some last

/-- A message that may be sent after a history. -/
structure FitsSent (initial : Option Json) (log : List Event) (recipients : List Nat)
    (problems : Problems) (uid : Nat) (text : String) : Prop where
  recipient : uid ∈ recipients
  pending : ∃ p, (rowOf (lastSaved initial log) uid).pending = some p ∧ text = message p ∧
    Truthful problems (rowOf (lastSaved initial log) uid) (lastProblems initial uid log) p

/-- An event that may follow a history. -/
def FitsEvent (initial : Option Json) (log : List Event) : Event → Prop
  | .began _ _ => True
  | .saved value => ∃ recipients problems, current log = some (recipients, problems) ∧
      FitsSaved initial log recipients problems value
  | .sent uid text _ => ∃ recipients problems, current log = some (recipients, problems) ∧
      FitsSent initial log recipients problems uid text

/-- A history each of whose events may follow those before it. -/
def Sound (initial : Option Json) : List Event → Prop
  | [] => True
  | e :: log => FitsEvent initial log e ∧ Sound initial log

/-! ### Rows that were read and written -/

theorem rowOf_encode {state : HealthState} {uid : Nat} (h : consistent (state.row uid) = true) :
    rowOf (some (encode state)) uid = state.row uid := by
  have hread : decodeState (encode state) [uid] = .ok ⟨state.problems, [(uid, state.row uid)]⟩ :=
    decodeState_encode (by simpa using h)
  rw [rowOf, hread]
  simp [HealthState.row]

theorem rowOf_of_decoded {value : Json} {recipients : List Nat} {state : HealthState}
    (h : decodeState value recipients = .ok state) {entry : Nat × Row}
    (hentry : entry ∈ state.recipients) : rowOf (some value) entry.1 = entry.2 := by
  rw [rowOf, ((decodeState_rows h).2 entry hentry).2]
  simp [HealthState.row, Dict.get?]

theorem row_of_mem {state : HealthState} (hnodup : state.recipients.keys.Nodup) {entry : Nat × Row}
    (hentry : entry ∈ state.recipients) : state.row entry.1 = entry.2 := by
  rw [HealthState.row, Dict.Uniq.get?_of_mem hnodup hentry]
  rfl

/-- A recipient without a row has nothing to be told. -/
theorem row_cases (state : HealthState) (uid : Nat) :
    state.row uid = newRecipient .none false ∨ (uid, state.row uid) ∈ state.recipients := by
  rw [HealthState.row]
  cases hget : Dict.get? state.recipients uid with
  | none => exact .inl rfl
  | some row => exact .inr (Dict.mem_of_get? hget)

theorem consistent_new : consistent (newRecipient .none false) = true := by
  simp [consistent, newRecipient]

theorem settled_of_consistent {row : Row} (h : consistent row = true) (hpending : row.pending = none) :
    row.delivered = some row.observed := by
  simpa [consistent, hpending] using h

/-! ### One observation -/

/-- The notification that a new observation calls for, by the cases of the record. -/
theorem nextPending_cases (row : Row) (problems : Problems) :
    (nextPending row problems = none ∧
      (problems ≠ .none → row.delivered = some problems) ∧
      (problems = .none → (row.observed = .none ∨ row.delivered = some row.observed) ∧
        (row.delivered = none ∨ row.delivered = some .none))) ∨
    (nextPending row problems = some (.problem, problems) ∧ problems ≠ .none ∧
      row.delivered ≠ some problems) ∨
    (nextPending row problems = some (.resolved, row.observed) ∧ problems = .none ∧
      row.observed ≠ .none ∧ row.delivered ≠ some row.observed) ∨
    (nextPending row problems = some (.recovery, .none) ∧ problems = .none ∧
      row.delivered ≠ none ∧ row.delivered ≠ some .none) := by
  unfold nextPending
  by_cases hproblems : problems = .none
  · by_cases hresolved : row.observed ≠ .none ∧ row.delivered ≠ some row.observed
    · simp [hproblems, hresolved]
    · by_cases hrecovery : row.delivered ≠ none ∧ row.delivered ≠ some .none
      · simp [hproblems, hresolved, hrecovery]
      · simp only [hproblems, hresolved, hrecovery, ne_eq, not_true_eq_false, if_false, true_and]
        exact .inl ⟨fun h => absurd h id, fun _ => ⟨by tauto, by tauto⟩⟩
  · by_cases hsame : row.delivered = some problems
    · simp [hproblems, hsame]
    · simp [hproblems, hsame]

/-- A renewed row is consistent: the only row whose delivery is open is one that had problems. -/
theorem renewed_consistent {row : Row} (h : Usable row) (problems : Problems) (now : Time)
    (hnew : row.pending = none ∨ row.observed ≠ problems) :
    consistent (renewed row problems now) = true := by
  unfold renewed
  rcases nextPending_cases row problems with ⟨hnext, hsome, hnone⟩ | ⟨hnext, h1, h2⟩ |
    ⟨hnext, rfl, h1, h2⟩ | ⟨hnext, rfl, h1, h2⟩
  · rw [hnext]
    by_cases hproblems : problems = .none
    · obtain ⟨hobserved, hdelivered⟩ := hnone hproblems
      rcases hdelivered with hopen | hdelivered
      · -- Nothing is known to be delivered, so the row had problems or a notification.
        have hquiet : row.observed = .none := by simpa [hopen] using hobserved
        have hpending : row.pending = none := hnew.resolve_right (by simp [hquiet, hproblems])
        rcases h with h | ⟨-, -, h⟩
        · rw [settled_of_consistent h hpending] at hopen
          cases hopen
        · exact absurd hquiet h
      · simp [consistent, hproblems, hdelivered]
    · simp [consistent, hsome hproblems]
  · simp [hnext, consistent, h1, h2]
  · simp [hnext, consistent, h1, h2]
  · simp [hnext, consistent, h1, h2]

theorem observe_delivered (host : Host) (problems : Problems) (now : Time) (row : Row) :
    (observe host problems now row).delivered = row.delivered := by
  unfold observe renewed
  repeat' split
  all_goals rfl

theorem observe_observed (host : Host) (problems : Problems) (now : Time) (row : Row) :
    (observe host problems now row).observed = problems := by
  unfold observe renewed
  split
  · split
    · next h => exact h
    · rfl
  · rfl

/-- A notification is kept while the observation stays the same. -/
theorem observe_same {row : Row} {p : Pending} (hp : row.pending = some p) (host : Host) (now : Time) :
    observe host row.observed now row =
      { row with pending := some { p with nextAttempt := min p.nextAttempt (host.plus now retryMax) } } := by
  simp [observe, hp]

theorem observe_new {row : Row} {problems : Problems} (h : row.pending = none ∨ row.observed ≠ problems)
    (host : Host) (now : Time) : observe host problems now row = renewed row problems now := by
  rw [observe]
  cases hp : row.pending with
  | none => rfl
  | some p => simp [h.resolve_left (by simp [hp])]

theorem observe_consistent {row : Row} (h : Usable row) (host : Host) (problems : Problems) (now : Time) :
    consistent (observe host problems now row) = true := by
  by_cases hnew : row.pending = none ∨ row.observed ≠ problems
  · rw [observe_new hnew]
    exact renewed_consistent h problems now hnew
  · rw [not_or, not_not] at hnew
    obtain ⟨p, hp⟩ := Option.ne_none_iff_exists'.mp hnew.1
    have hrow : consistent row = true := h.resolve_right (fun hopen => hnew.1 hopen.1)
    rw [← hnew.2, observe_same hp]
    simpa [consistent, hp] using hrow

/-- A `resolved` notification names the problems that were observed before, or was there already. -/
theorem observe_resolved {row : Row} {problems : Problems} {host : Host} {now : Time} {p : Pending}
    (hp : (observe host problems now row).pending = some p) (hkind : p.kind = .resolved) :
    (row.observed ≠ .none ∧ p.problems = row.observed) ∨
      ∃ q, row.pending = some q ∧ q.kind = .resolved ∧ q.problems = p.problems := by
  by_cases hnew : row.pending = none ∨ row.observed ≠ problems
  · rw [observe_new hnew, renewed] at hp
    rcases nextPending_cases row problems with ⟨hnext, -⟩ | ⟨hnext, -⟩ | ⟨hnext, -, hne, -⟩ | ⟨hnext, -⟩
    · simp [hnext] at hp
    · rw [hnext, Option.map_some, Option.some_inj] at hp
      simp [← hp] at hkind
    · rw [hnext, Option.map_some, Option.some_inj] at hp
      exact .inl ⟨hne, by rw [← hp]⟩
    · rw [hnext, Option.map_some, Option.some_inj] at hp
      simp [← hp] at hkind
  · rw [not_or, not_not] at hnew
    obtain ⟨q, hq⟩ := Option.ne_none_iff_exists'.mp hnew.1
    rw [← hnew.2, observe_same hq, Option.some_inj] at hp
    exact .inr ⟨q, hq, by rw [← hkind, ← hp], by rw [← hp]⟩

/-! ### One answer -/

theorem answered_observed (host : Host) (now : Time) (ok : Bool) (row : Row) :
    (answered host now ok row).observed = row.observed := by
  cases ok <;> rfl

theorem answered_consistent {row : Row} (h : consistent row = true) (host : Host) (now : Time) (ok : Bool) :
    consistent (answered host now ok row) = true := by
  cases ok with
  | true => simp [answered, consistent]
  | false =>
      cases hp : row.pending with
      | none => simpa [answered, consistent, hp] using h
      | some p => simpa [answered, consistent, hp] using h

/-- A notification that was not acknowledged stays. -/
theorem answered_pending {row : Row} {host : Host} {now : Time} {ok : Bool} {q : Pending}
    (hq : (answered host now ok row).pending = some q) :
    ok = false ∧ ∃ p, row.pending = some p ∧ q.kind = p.kind ∧ q.problems = p.problems := by
  cases ok with
  | true => simp [answered] at hq
  | false =>
      simp only [answered, Bool.false_eq_true, if_false, Option.map_eq_some_iff] at hq
      obtain ⟨p, hp, rfl⟩ := hq
      exact ⟨rfl, p, hp, rfl, rfl⟩

/-! ### The next state -/

theorem resolved_of_consistent {row : Row} {p : Pending} (h : consistent row = true)
    (hp : row.pending = some p) (hkind : p.kind = .resolved) :
    row.observed = .none ∧ p.problems ≠ .none ∧ row.delivered ≠ some p.problems := by
  simpa [consistent, hp, hkind, and_assoc] using h

/-- A consistent row's notification tells what is observed. -/
theorem truthful_of_consistent {row : Row} {p : Pending} (h : consistent row = true)
    (hp : row.pending = some p) {last : Problems} (hlast : p.kind = .resolved → p.problems = last) :
    Truthful row.observed row last p := by
  rw [Truthful]
  cases hkind : p.kind with
  | problem => simpa [consistent, hp, hkind, and_assoc] using h
  | recovery =>
      have hparts : (row.observed = .none ∧ p.problems = .none) ∧ row.delivered ≠ none ∧
          row.delivered ≠ some .none := by
        simpa [consistent, hp, hkind, and_assoc] using h
      obtain ⟨delivered, hdelivered⟩ := Option.ne_none_iff_exists'.mp hparts.2.1
      exact ⟨hparts.1.1, delivered, hdelivered, fun hne => hparts.2.2 (by rw [hdelivered, hne])⟩
  | resolved =>
      obtain ⟨hobserved, hproblems, hdelivered⟩ := resolved_of_consistent h hp hkind
      rw [hlast hkind] at hproblems hdelivered
      exact ⟨hobserved, hlast hkind, hproblems, hdelivered⟩

/-- What the last saved state observed is the last that was observed, if it is anything. -/
theorem lastProblems_eq {initial : Option Json} {uid : Nat} {log : List Event}
    (h : (rowOf (lastSaved initial log) uid).observed ≠ .none) :
    lastProblems initial uid log = (rowOf (lastSaved initial log) uid).observed := by
  induction log with
  | nil => rfl
  | cons e log ih =>
      cases e with
      | began recipients problems => exact ih h
      | saved value => exact if_neg h
      | sent uid text ok => exact ih h

variable {initial : Option Json} {log : List Event} {recipients : List Nat} {problems : Problems}
  {state : HealthState}

/-- A state in memory that may be saved. -/
structure Follows (initial : Option Json) (log : List Event) (recipients : List Nat)
    (problems : Problems) (state : HealthState) : Prop where
  keys : state.recipients.keys = recipients
  consistent : ∀ entry ∈ state.recipients, consistent entry.2 = true
  rows : ∀ entry ∈ state.recipients, Succeeds (Acknowledged log entry.1) problems
    (rowOf (lastSaved initial log) entry.1) entry.2
  resolved : ∀ entry ∈ state.recipients, ∀ p, entry.2.pending = some p → p.kind = .resolved →
    p.problems = lastProblems initial entry.1 log

theorem Follows.row_consistent (h : Follows initial log recipients problems state) (uid : Nat) :
    Health.consistent (state.row uid) = true := by
  rcases row_cases state uid with hnew | hmem
  · rw [hnew]
    exact consistent_new
  · exact h.consistent _ hmem

theorem Follows.fits (h : Follows initial log recipients problems state) (hnodup : recipients.Nodup) :
    FitsSaved initial log recipients problems (encode state) where
  accepted := ⟨_, decodeState_encode (fun uid _ => h.row_consistent uid)⟩
  rows := by
    intro uid huid
    rw [← h.keys] at huid hnodup
    obtain ⟨entry, hmem, rfl⟩ := List.mem_map.mp huid
    rw [rowOf_encode (h.row_consistent _), row_of_mem hnodup hmem]
    exact h.rows entry hmem
  resolved := by
    intro uid p hp hkind
    have hrow := h.row_consistent uid
    rw [rowOf_encode hrow] at hp
    have hquiet := (resolved_of_consistent hrow hp hkind).1
    rw [lastProblems, rowOf_encode hrow, if_pos hquiet]
    rcases row_cases state uid with hnew | hmem
    · simp [hnew, newRecipient] at hp
    · exact h.resolved _ hmem p hp hkind

/-- A state in memory that was saved last. -/
structure Stored (initial : Option Json) (log : List Event) (recipients : List Nat)
    (problems : Problems) (state : HealthState) : Prop where
  saved : lastSaved initial log = some (encode state)
  current : current log = some (recipients, problems)
  keys : state.recipients.keys = recipients
  consistent : ∀ entry ∈ state.recipients, consistent entry.2 = true
  observes : ∀ entry ∈ state.recipients, entry.2.observed = problems
  resolved : ∀ entry ∈ state.recipients, ∀ p, entry.2.pending = some p → p.kind = .resolved →
    p.problems = lastProblems initial entry.1 log

theorem Follows.stored (h : Follows initial log recipients problems state) (hnodup : recipients.Nodup)
    (hcurrent : current log = some (recipients, problems)) :
    Stored initial (.saved (encode state) :: log) recipients problems state where
  saved := rfl
  current := hcurrent
  keys := h.keys
  consistent := h.consistent
  observes := fun entry hentry => (h.rows entry hentry).observes
  resolved := by
    intro entry hentry p hp hkind
    refine (h.fits hnodup).resolved entry.1 p ?_ hkind
    rw [rowOf_encode (h.row_consistent _), row_of_mem (h.keys ▸ hnodup) hentry]
    exact hp

@[simp] theorem updateLegacyView_recipients (state : HealthState) :
    (updateLegacyView state).recipients = state.recipients := by
  unfold updateLegacyView
  split
  · next h => rw [h]
  · next h =>
    split
    · rfl
    · rfl

/-- The row of a recipient in a state that was saved last. -/
theorem Stored.rowOf_eq (h : Stored initial log recipients problems state) (hnodup : recipients.Nodup)
    {entry : Nat × Row} (hentry : entry ∈ state.recipients) :
    rowOf (lastSaved initial log) entry.1 = entry.2 := by
  have hrow : state.row entry.1 = entry.2 := row_of_mem (h.keys ▸ hnodup) hentry
  have hconsistent : Health.consistent (state.row entry.1) = true := by
    rw [hrow]
    exact h.consistent entry hentry
  rw [h.saved, rowOf_encode hconsistent, hrow]

/-- A row that is left as it is. -/
theorem succeeds_self {row : Row} (h : consistent row = true) (acknowledged : Prop) :
    Succeeds acknowledged row.observed row row where
  observes := rfl
  settled := settled_of_consistent h
  delivers := .inl rfl
  keeps := fun p hp _ => .inr ⟨p, hp, rfl, rfl⟩

theorem succeeds_answered {row : Row} (h : consistent row = true) (host : Host) (now : Time)
    {ok : Bool} {acknowledged : Prop} (hack : ok = true → acknowledged) :
    Succeeds acknowledged row.observed row (answered host now ok row) where
  observes := answered_observed host now ok row
  settled := settled_of_consistent (answered_consistent h host now ok)
  delivers := by
    cases ok with
    | true => exact .inr ⟨hack rfl, rfl⟩
    | false => exact .inl rfl
  keeps := by
    intro p hp _
    cases ok with
    | true => exact .inl (hack rfl)
    | false =>
        simp only [answered, hp]
        exact .inr ⟨_, rfl, rfl, rfl⟩

/-- A state whose rows are rewritten one by one may be saved where each row may. -/
theorem follows_map {f : Nat → Row → Row} (hkeys : state.recipients.keys = recipients)
    (hrows : ∀ entry ∈ state.recipients, consistent (f entry.1 entry.2) = true ∧
      Succeeds (Acknowledged log entry.1) problems (rowOf (lastSaved initial log) entry.1)
        (f entry.1 entry.2) ∧
      ∀ p, (f entry.1 entry.2).pending = some p → p.kind = .resolved →
        p.problems = lastProblems initial entry.1 log) :
    Follows initial log recipients problems (updateLegacyView { state with
      recipients := state.recipients.map (fun entry => (entry.1, f entry.1 entry.2)) }) where
  keys := by
    rw [updateLegacyView_recipients, ← hkeys, Dict.keys, Dict.keys, List.map_map]
    rfl
  consistent := by
    rw [updateLegacyView_recipients, List.forall_mem_map]
    exact fun entry hentry => (hrows entry hentry).1
  rows := by
    rw [updateLegacyView_recipients, List.forall_mem_map]
    exact fun entry hentry => (hrows entry hentry).2.1
  resolved := by
    rw [updateLegacyView_recipients, List.forall_mem_map]
    exact fun entry hentry => (hrows entry hentry).2.2

/-- After an answer the state may be saved. -/
theorem Stored.follows_receipt (h : Stored initial log recipients problems state) (hnodup : recipients.Nodup)
    (host : Host) (now : Time) (uid : Nat) (text : String) (ok : Bool) :
    Follows initial (.sent uid text ok :: log) recipients problems (receipt host now uid ok state) := by
  refine follows_map (f := fun other row => if other = uid then answered host now ok row else row)
    h.keys (fun entry hentry => ?_)
  have hrow := h.consistent entry hentry
  have hbefore : rowOf (lastSaved initial (.sent uid text ok :: log)) entry.1 = entry.2 :=
    h.rowOf_eq hnodup hentry
  rw [hbefore, ← h.observes entry hentry]
  by_cases huid : entry.1 = uid
  · simp only [if_pos huid]
    refine ⟨answered_consistent hrow host now ok, succeeds_answered hrow host now ?_, ?_⟩
    · intro hok
      exact ⟨text, by rw [huid, hok]; rfl⟩
    · intro q hq hkind
      obtain ⟨-, p, hp, hsame, hproblems⟩ := answered_pending hq
      rw [hproblems]
      exact h.resolved entry hentry p hp (hsame ▸ hkind)
  · simp only [if_neg huid]
    exact ⟨hrow, succeeds_self hrow _, h.resolved entry hentry⟩

/-- What a message that is due tells is true. -/
theorem Stored.fitsSent (h : Stored initial log recipients problems state) (hnodup : recipients.Nodup)
    {now : Time} {uid : Nat} {p : Pending} (hready : ready state now uid = some p) :
    FitsSent initial log recipients problems uid (message p) := by
  obtain ⟨row, hget, hfilter⟩ := Option.bind_eq_some_iff.mp hready
  have hp : row.pending = some p := (Option.filter_eq_some_iff.mp hfilter).1
  have hmem : (uid, row) ∈ state.recipients := Dict.mem_of_get? hget
  have hrow : rowOf (lastSaved initial log) uid = row := h.rowOf_eq hnodup hmem
  refine ⟨?_, p, by rw [hrow, hp], rfl, ?_⟩
  · rw [← h.keys]
    exact Dict.mem_keys_of_get? hget
  · rw [hrow, ← h.observes _ hmem]
    exact truthful_of_consistent (h.consistent _ hmem) hp (h.resolved _ hmem p hp)

/-! ### What the first state of a check is made of -/

/-- A state as it was loaded. -/
structure Loads (file : Option Json) (recipients : List Nat) (state : HealthState) : Prop where
  keys : state.recipients.keys = recipients
  rows : ∀ entry ∈ state.recipients, Usable entry.2 ∧ rowOf file entry.1 = entry.2

theorem loads_absent (recipients : List Nat) :
    Loads none recipients
      ⟨.none, recipients.map (fun uid => (uid, newRecipient .none false))⟩ where
  keys := by simp [Dict.keys, Function.comp_def]
  rows := by
    rw [List.forall_mem_map]
    exact fun uid _ => ⟨.inl consistent_new, rfl⟩

theorem loads_decoded {value : Json} (h : decodeState value recipients = .ok state) :
    Loads (some value) recipients state where
  keys := (decodeState_rows h).1
  rows := fun entry hentry => ⟨((decodeState_rows h).2 entry hentry).1, rowOf_of_decoded h hentry⟩

/-- The state before the first check names no notification. -/
theorem rowOf_legacy {initial : Option Json} (h : ∀ v, initial = some v → v.get? "schema" = none)
    (uid : Nat) : (rowOf initial uid).pending = none := by
  cases initial with
  | none => rfl
  | some v =>
      have hschema := h v rfl
      rw [rowOf]
      cases hread : decodeState v [uid] with
      | error e => rfl
      | ok state =>
          cases v with
          | obj fields =>
              have hget : Dict.get? fields "schema" = none := hschema
              simp only [decodeState, hget] at hread
              rw [raiseIf_bind_eq_ok] at hread
              obtain ⟨previous, -, hread⟩ := Py.bind_eq_ok.mp hread.2
              rw [← Py.pure_eq_ok.mp hread]
              simp [HealthState.row, newRecipient]
          | _ => simp [decodeState] at hread

/-- A `resolved` notification that is due names the last problems that were observed. -/
theorem resolved_of_sound (hlegacy : ∀ v, initial = some v → v.get? "schema" = none)
    (h : Sound initial log) {uid : Nat} {p : Pending}
    (hp : (rowOf (lastSaved initial log) uid).pending = some p) (hkind : p.kind = .resolved) :
    p.problems = lastProblems initial uid log := by
  induction log with
  | nil =>
      have hnone := rowOf_legacy hlegacy uid
      rw [lastSaved, hnone] at hp
      cases hp
  | cons e log ih =>
      cases e with
      | began recipients problems => exact ih h.2 hp
      | saved value =>
          obtain ⟨recipients, problems, -, hfits⟩ := h.1
          exact hfits.resolved uid p hp hkind
      | sent other text ok => exact ih h.2 hp

/-- The loaded state with the new observation may be saved. -/
theorem Loads.follows_observed (hlegacy : ∀ v, initial = some v → v.get? "schema" = none)
    (hsound : Sound initial log) (h : Loads (lastSaved initial log) recipients state) (host : Host)
    (problems : Problems) (now : Time) :
    Follows initial log recipients problems (observed host problems now state) := by
  refine follows_map (f := fun _ row => observe host problems now row) h.keys (fun entry hentry => ?_)
  obtain ⟨husable, hrow⟩ := h.rows entry hentry
  have hconsistent := observe_consistent husable host problems now
  refine ⟨hconsistent, ?_, fun p hp hkind => ?_⟩
  · rw [hrow]
    exact {
      observes := observe_observed host problems now entry.2
      settled := settled_of_consistent hconsistent
      delivers := .inl (observe_delivered host problems now entry.2)
      keeps := by
        rintro p hp rfl
        rw [observe_same hp]
        exact .inr ⟨_, rfl, rfl, rfl⟩ }
  · rcases observe_resolved hp hkind with ⟨hne, hproblems⟩ | ⟨q, hq, hresolved, hproblems⟩
    · rw [hproblems, ← hrow]
      rw [← hrow] at hne
      exact (lastProblems_eq hne).symm
    · rw [← hproblems]
      rw [← hrow] at hq
      exact resolved_of_sound hlegacy hsound hq hresolved

end ProxyGateway.Health
