import ProxyGateway.Health.State
import ProxyGateway.Lib.Prog

set_option autoImplicit false

/-!
# ProxyGateway.Health.Run

One health check: `_run` loads the state, records what was observed for each recipient, saves, and
then sends what is due, saving after every answer. The world of the runs is the state file and a
history of what happened, the newest event first.
-/

namespace ProxyGateway.Health

/-! ### Observing -/

def retryBase : Nat := 600

def retryMax : Nat := 3600

def maxStateBytes : Nat := 1024 * 1024

/-- What lies outside the module: the length of the encoded state, and the sum of a clock reading
and a number of seconds, which is rounded. -/
structure Host where
  size : Json → Nat
  plus : Time → Nat → Time

/-- The notification that a new observation calls for. -/
def nextPending (row : Row) (problems : Problems) : Option (Kind × Problems) :=
  if problems ≠ .none then
    if row.delivered = some problems then none else some (.problem, problems)
  else if row.observed ≠ .none ∧ row.delivered ≠ some row.observed then
    -- An alarm that was never confirmed is reported together with its end.
    some (.resolved, row.observed)
  else if row.delivered ≠ none ∧ row.delivered ≠ some .none then
    some (.recovery, .none)
  else none

/-- The row once `problems` are observed anew. -/
def renewed (row : Row) (problems : Problems) (now : Time) : Row :=
  { observed := problems
    delivered := row.delivered
    pending := (nextPending row problems).map (fun next => ⟨next.1, next.2, 0, now⟩) }

/-- `_observe`. -/
def observe (host : Host) (problems : Problems) (now : Time) (row : Row) : Row :=
  match row.pending with
  | some p =>
      if row.observed = problems then
        -- The clock may have been set back since.
        { row with pending := some { p with nextAttempt := min p.nextAttempt (host.plus now retryMax) } }
      else renewed row problems now
  | none => renewed row problems now

/-- `_update_legacy_view`. -/
def updateLegacyView (state : HealthState) : HealthState :=
  match state.recipients with
  | [] => state
  | first :: rest =>
      if (first :: rest).all (fun entry => entry.2.pending.isNone && entry.2.delivered = first.2.delivered)
      then { state with problems := first.2.delivered.getD state.problems }
      else state

/-! ### Sending -/

/-- The UTF-16 units of a character. -/
def units (c : Char) : Nat := if c.val < 0x10000 then 1 else 2

/-- The characters that fit into so many units. -/
def clip : Nat → List Char → List Char
  | _, [] => []
  | n, c :: cs => if units c ≤ n then c :: clip (n - units c) cs else []

def messageUnits : Nat := 3800

/-- The text before it is shortened. -/
def fullText (p : Pending) : String :=
  match p.kind with
  | .problem => "🚨 PrivDNS Gateway 异常\n" ++ "\n".intercalate p.problems.val ++
      "\n\n详情: sudo pdg doctor"
  | .resolved => "✅ PrivDNS Gateway 期间异常已恢复\n之前的异常提醒未确认送达：\n" ++
      "\n".intercalate p.problems.val
  | .recovery => "✅ PrivDNS Gateway 已恢复正常"

/-- `_message`. -/
def message (p : Pending) : String :=
  if messageUnits < ((fullText p).toList.map units).sum then
    String.ofList (clip messageUnits (fullText p).toList) ++ "\n…详情已截短，请运行 sudo pdg doctor"
  else fullText p

/-- `result.get("ok") is True`; there is no result where the transport raised. -/
def confirmed (reply : Option Json) : Bool :=
  match reply with
  | some (.obj fields) => Dict.get? fields "ok" = some (.bool true)
  | _ => false

/-- The row after an answer to its notification. -/
def answered (host : Host) (now : Time) (ok : Bool) (row : Row) : Row :=
  if ok then { row with delivered := some row.observed, pending := none }
  else
    { row with pending := row.pending.map (fun p =>
        let attempts : Fin 5 := ⟨min (p.attempts.val + 1) 4, by omega⟩
        { p with
          attempts := attempts
          nextAttempt := host.plus now (min retryMax (retryBase * 2 ^ (attempts.val - 1))) }) }

/-- The notification of a recipient that may be sent now. -/
def ready (state : HealthState) (now : Time) (uid : Nat) : Option Pending :=
  (Dict.get? state.recipients uid).bind (fun row =>
    row.pending.filter (fun p => p.nextAttempt ≤ now))

/-! ### Operations -/

/-- What happened: a check with its recipients and problems began, a state was saved, a text was
sent and acknowledged or not. -/
inductive Event where
  | began (recipients : List Nat) (problems : Problems)
  | saved (value : Json)
  | sent (uid : Nat) (text : String) (ok : Bool)

/-- The world of the runs. -/
structure World where
  file : Option Json
  log : List Event

/-- What reading the file gives. -/
inductive Loaded where
  | unavailable
  | absent
  | value (v : Json)

inductive Op where
  | load
  | save (value : Json)
  | post (uid : Nat) (text : String)

/-- What an operation answers: a saved state says whether the call returned. -/
def Op.Answer : Op → Type
  | .load => Loaded
  | .save _ => Bool
  | .post _ _ => Option Json

/-- Where a call fails: the saving of a state also after the file was replaced. -/
inductive Fail where
  | never | before | after
  deriving DecidableEq, Repr

/-- What the environment decides about one operation. -/
structure Choice where
  fail : Fail
  reply : Option Json

/-- One operation. -/
def exec : (op : Op) → Choice → World → op.Answer × World
  | .load, c, w =>
      (if c.fail ≠ .never then .unavailable
        else match w.file with
          | none => .absent
          | some v => .value v, w)
  | .save value, c, w =>
      (decide (c.fail = .never),
        if c.fail = .before then w else ⟨some value, .saved value :: w.log⟩)
  | .post uid text, c, w => (c.reply, { w with log := .sent uid text (confirmed c.reply) :: w.log })

abbrev Program (α : Type) := Prog Op Op.Answer α

/-- How a check ends: nothing is left to retry, something is, or the state cannot be used. -/
inductive Outcome where
  | done | unconfirmed | unusable
  deriving DecidableEq, Repr

/-! ### The check -/

def load : Program Loaded := Prog.perform Op.load

/-- The replacement of the state file. -/
def save (value : Json) : Program Bool := Prog.perform (Op.save value)

/-- `_notify`, without the judgement of the answer. -/
def post (uid : Nat) (text : String) : Program (Option Json) := Prog.perform (Op.post uid text)

/-- `_load_state`. -/
def loadState (recipients : List Nat) : Program (Option HealthState) :=
  load.bind (fun
    | .unavailable => .ret none
    | .absent => .ret (some ⟨.none, recipients.map (fun uid => (uid, newRecipient .none false))⟩)
    | .value v => .ret (decodeState v recipients).toOption)

/-- `_save_state`. -/
def saveState (host : Host) (state : HealthState) : Program Bool :=
  if maxStateBytes < host.size (encode state) then .ret false
  else save (encode state)

/-- The state after an answer to the notification of `uid`. -/
def receipt (host : Host) (now : Time) (uid : Nat) (ok : Bool) (state : HealthState) : HealthState :=
  updateLegacyView { state with
    recipients := state.recipients.map (fun entry =>
      (entry.1, if entry.1 = uid then answered host now ok entry.2 else entry.2)) }

/-- The loop of `_run` over the recipients. -/
def deliver (host : Host) (now : Time) : List Nat → Bool → HealthState → Program Outcome
  | [], failed, _ => .ret (if failed then .unconfirmed else .done)
  | uid :: rest, failed, state =>
      match ready state now uid with
      | none => deliver host now rest failed state
      | some p =>
          (post uid (message p)).bind (fun reply =>
            (saveState host (receipt host now uid (confirmed reply) state)).bind (fun ok =>
              if ok then
                deliver host now rest (failed || !confirmed reply)
                  (receipt host now uid (confirmed reply) state)
              else .ret .unusable))

/-- The loaded state with the new observation. -/
def observed (host : Host) (problems : Problems) (now : Time) (state : HealthState) : HealthState :=
  updateLegacyView { state with
    recipients := state.recipients.map (fun entry => (entry.1, observe host problems now entry.2)) }

/-- `_run`. -/
def run (host : Host) (recipients : List Nat) (problems : Problems) (now : Time) :
    Program Outcome :=
  (loadState recipients).bind (fun
    | none => .ret .unusable
    | some state =>
        (saveState host (observed host problems now state)).bind (fun ok =>
          if ok then deliver host now recipients false (observed host problems now state)
          else .ret .unusable))

/-! ### Sequences of runs -/

/-- One check from the world `w`, with the allowed recipients as `sorted(set(ALLOWED))`, cut after any
number of operations. -/
def checkFrom (host : Host) (allowed : List Nat) (problems : Problems) (now : Time)
    (choices : List Choice) (w : World) : World :=
  (Prog.run exec choices (run host (sortedSet allowed) problems now,
    { w with log := .began (sortedSet allowed) problems :: w.log })).2

/-- The state that was there before the first check: none, or one without a schema. -/
def legacy (previous : Problems) : Json := .obj [("problems", encodeProblems previous)]

/-- The worlds that checks lead to, one after the other: the lock keeps them apart. -/
inductive Reach (host : Host) (initial : Option Json) : World → Prop where
  | start : Reach host initial ⟨initial, []⟩
  | check {w : World} (h : Reach host initial w) (allowed : List Nat) (problems : Problems)
      (now : Time) (choices : List Choice) :
      Reach host initial (checkFrom host allowed problems now choices w)

end ProxyGateway.Health
