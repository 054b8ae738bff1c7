import ProxyGateway.Lib.Json
import ProxyGateway.Lib.Method
import ProxyGateway.Web.RateLimit

set_option autoImplicit false

/-!
# ProxyGateway.Web.Attempts

`_login` and `_export_config` as far as they reserve, release and clear: programs whose operations
are the sections under `_lock`, and calls outside of it whose result is up to the environment. Any
number of them run at the same time, one operation of one of them after the other.
-/

namespace ProxyGateway.Web

open Method

/-! ### Operations -/

/-- `MAX_PASSWORD_BYTES` -/
def maxPasswordBytes : Nat := 1024

/-- Something was raised. -/
inductive Exn where
  | raised
  deriving DecidableEq

/-- What `export_config` and the checks behind it come to. -/
inductive Export where
  | refused (status : Nat)
  | unusable
  | file
  deriving DecidableEq

/-- What a handler calls outside the lock. -/
inductive Outside where
  | verifyPreloginCsrf
  | readJson
  | verifyPassword (password : String)
  | renewSession
  | exportConfig (kind : String)
  | reply (status : Nat)

/-- What such a call returns, unless it raises. -/
abbrev Outside.Answer : Outside → Type
  | .verifyPreloginCsrf => Bool
  | .readJson => Option (Dict String Json)
  | .verifyPassword _ => Option Bool
  | .renewSession => Unit
  | .exportConfig _ => Export
  | .reply _ => Unit

inductive Op where
  | reserve (ip : String)
  | finish (ip : String) (failed : Bool)
  | clear (ip : String)
  | outside (call : Outside)

abbrev Op.Answer : Op → Type
  | .reserve _ => Bool
  | .finish _ _ => Unit
  | .clear _ => Unit
  | .outside call => Except Exn call.Answer

/-! ### The handlers -/

/-- A handler, with `attempt_finished`. -/
abbrev Handler (α : Type) : Type := Method Op Op.Answer Bool Exn α

/-- `reserve_login_attempt` -/
def reserve (ip : String) : Handler Bool := call (Prog.perform (Op.reserve ip))

/-- `finish_login_attempt`, and the assignment behind it. -/
def finish (ip : String) (failed : Bool) : Handler Unit := do
  call (Prog.perform (Op.finish ip failed))
  assign fun _ => true

/-- `clear_login_failures` -/
def clear (ip : String) : Handler Unit := call (Prog.perform (Op.clear ip))

/-- A call outside the lock. -/
def outside (o : Outside) : Handler o.Answer := fun finished => .op (.outside o) fun answer => .ret (answer, finished)

/-- `self._error` and `self._ok` -/
def reply (status : Nat) : Handler Unit := outside (.reply status)

/-- `try: body finally: last` -/
def tryFinally (body last : Handler Unit) : Handler Unit :=
  body.outcome fun result => last.bind fun _ => fun finished => .ret (result, finished)

/-- The password of a body with that key alone. -/
def passwordOf : Dict String Json → Option String
  | [("password", .str password)] => some password
  | _ => none

/-- The password that is verified. -/
def bounded (password : String) : String :=
  if 1 ≤ password.utf8ByteSize ∧ password.utf8ByteSize ≤ maxPasswordBytes then password else ""

/-- What is left to do for an attempt that no branch has finished. -/
def finishOpen (ip : String) : Handler Unit := do
  let finished ← self
  if finished then pure () else finish ip true

/-- The body of the `try` in `_login`. -/
def loginBody (ip : String) : Handler Unit := do
  match ← outside .readJson with
  | none => pure ()
  | some body =>
      match passwordOf body with
      | none => reply 401
      | some password =>
          match ← outside (.verifyPassword (bounded password)) with
          | none => do
              finish ip false
              reply 429
          | some valid => do
              finish ip (!valid)
              if valid then do
                clear ip
                outside .renewSession
                reply 200
              else reply 401

/-- `_login` -/
def login (ip : String) : Handler Unit := do
  if ← outside .verifyPreloginCsrf then
    if ← reserve ip then do
      assign fun _ => false
      tryFinally (loginBody ip) (finishOpen ip)
    else reply 429
  else reply 403

/-- The export behind a valid password. -/
def sendExport (kind : String) : Handler Unit := do
  match ← outside (.exportConfig kind) with
  | .refused status => reply status
  | .unusable => reply 500
  | .file => reply 200

/-- The body of the `try` in `_export_config`. -/
def exportBody (kind ip : String) : Handler Unit := do
  match ← outside .readJson with
  | none => pure ()
  | some body =>
      match passwordOf body with
      | none => do
          finish ip true
          reply 401
      | some password =>
          match ← outside (.verifyPassword (bounded password)) with
          | none => do
              finish ip false
              reply 429
          | some valid => do
              finish ip (!valid)
              if valid then do
                clear ip
                sendExport kind
              else reply 401

/-- `_export_config` -/
def exportConfig (kind ip : String) : Handler Unit := do
  if ← reserve ip then do
    assign fun _ => false
    tryFinally (exportBody kind ip) (finishOpen ip)
  else reply 429

/-! ### The service -/

variable {ι : Type}

/-- What has happened under the lock, for the statements. -/
inductive Event (ι : Type) where
  | reserved (i : ι) (ip : String)
  | finished (i : ι) (ip : String) (failed : Bool) (now : ℚ)
  | cleared (ip : String)

/-- The security state, the last reading of the clock, and what has happened. -/
structure Service (ι : Type) where
  security : SecurityState
  clock : ℚ
  log : List (Event ι)

/-- What the environment decides in a step: the reading of the clock, and the results of calls. -/
structure Choice where
  now : ℚ
  answer : (o : Outside) → Except Exn o.Answer

/-- An operation of the attempt `i`. -/
def exec (i : ι) : (e : Op) → Choice → Service ι → e.Answer × Service ι
  | .reserve ip, c, w =>
      let result := w.security.reserveLoginAttempt ip c.now
      (result.1, ⟨result.2, c.now, if result.1 then w.log ++ [.reserved i ip] else w.log⟩)
  | .finish ip failed, c, w =>
      ((), ⟨w.security.finishLoginAttempt ip failed c.now, c.now, w.log ++ [.finished i ip failed c.now]⟩)
  | .clear ip, _, w => ((), { w with security := w.security.clearLoginFailures ip, log := w.log ++ [.cleared ip] })
  | .outside o, c, w => (c.answer o, w)

/-- The clock does not go back from one section to the next. -/
def Monotone : Op → Choice → Service ι → Prop
  | .reserve _, c, w => w.clock ≤ c.now
  | .finish _ _, c, w => w.clock ≤ c.now
  | _, _, _ => True

/-- An attempt. -/
inductive Job where
  | login (ip : String)
  | exportConfig (kind ip : String)

/-- The process of an attempt. -/
def Job.process : Job → Prog Op Op.Answer (Except Exn Unit × Bool)
  | .login ip => Web.login ip false
  | .exportConfig kind ip => Web.exportConfig kind ip false

/-- All attempts, and the service. -/
abbrev Conf (ι : Type) := (ι → Prog Op Op.Answer (Except Exn Unit × Bool)) × Service ι

/-- The configurations reached in any interleaving, from a fresh state. -/
inductive Reach [DecidableEq ι] (jobs : ι → Job) (clock : ℚ) : Conf ι → Prop where
  | start : Reach jobs clock (fun i => (jobs i).process, ⟨.start, clock, []⟩)
  | step {s : Conf ι} (i : ι) (c : Choice) (h : Reach jobs clock s)
      (hclock : ∀ e k, s.1 i = .op e k → Monotone e c s.2) : Reach jobs clock (Pool.step exec i c s)

end ProxyGateway.Web
