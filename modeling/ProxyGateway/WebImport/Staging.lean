import ProxyGateway.Lib.Method
import ProxyGateway.Lib.Json

set_option autoImplicit false

/-!
# ProxyGateway.WebImport.Staging

The staging directory of the Web import: for every import id a record (`.json`), the
uploaded bytes (`.upload`) and, while an operation or an accepted import holds it, a
claim marker (`.claim`), and the atomic operations on them.

Clock readings and modification times are whatever the environment says: nothing
relates two of them. What a claim marker contains is never read by the code, so the
model keeps the process that created it instead. `Staging.log` is the history of what
happened to each import, newest event first; a removal carries its reason (`Why`), which
only the history uses.

The entries of the directory are regular files with one link. A listing is not atomic,
so it may name anything.
-/

namespace ProxyGateway.WebImport

/-- An import id, the stem of its files. -/
abbrev ImportId := String

/-- Uploaded bytes. -/
abbrev Bytes := List UInt8

/-- A process. -/
abbrev Pid := Nat

/-- The kind of an import. -/
inductive Kind where
  | pdg | mihomo | mosdns
  deriving DecidableEq, Repr

/-- How an import is applied. -/
inductive ApplyMode where
  | merge | replace
  deriving DecidableEq, Repr

/-- The side chosen for a conflict. -/
inductive Side where
  | incoming | existing
  deriving DecidableEq, Repr

/-- `record["apply"]`. -/
structure Apply where
  mode : ApplyMode
  conflicts : Dict String Side
  confirmed : Bool
  claimed : Bool
  claimedAt : Int
  deriving DecidableEq, Repr

/-- An entry of `record["conflicts"]`. -/
structure Conflict where
  conflictId : String
  kind : String
  name : String
  deriving DecidableEq, Repr

/-- `candidate["rulesetCollisions"]`. -/
structure Collisions where
  incomingPresent : Bool
  incoming : List String
  existing : List String
  incomingNames : List String
  existingNames : List String
  deriving DecidableEq, Repr

/-- A preview record, the fields that the claim protocol reads or writes. -/
structure Record where
  id : ImportId
  kind : Kind
  created : Int
  uploadSize : Nat
  uploadSha256 : String
  conflicts : List Conflict
  collisions : Option Collisions
  apply : Option Apply
  deriving DecidableEq, Repr

/-- The files of an import. -/
inductive Suffix where
  | json | upload | claim
  deriving DecidableEq, Repr

/-- Why a file is removed. `expired` and `collect` carry the clock reading on which the
decision was taken; `own` is the removal of a claim by the operation that made it. -/
inductive Why where
  | own | cancel | release | discard
  | expired (now : Rat)
  | collect (now : Rat)
  deriving DecidableEq

/-- What happened to an import. -/
inductive Event where
  /-- A claim marker was created. -/
  | claimed (X : ImportId)
  /-- A claim marker was renamed away by the janitor. -/
  | taken (X : ImportId)
  /-- The record was stored with an accepted claim. -/
  | prepared (X : ImportId) (claimedAt : Int)
  /-- The record was stored without claim. -/
  | released (X : ImportId)
  /-- A file was removed. -/
  | removed (why : Why) (X : ImportId) (s : Suffix)
  deriving DecidableEq

/-- The staging directory. A record is `none` when it does not parse. -/
structure Staging where
  json : ImportId → Option (Option Record × Rat)
  upload : ImportId → Option (Bytes × Rat)
  claim : ImportId → Option (Pid × Rat)
  log : List Event

namespace Staging

/-- The readable record of an import. -/
def record? (w : Staging) (X : ImportId) : Option Record := (w.json X).bind Prod.fst

/-- The modification time of a file that is there. -/
def mtime (w : Staging) (X : ImportId) : Suffix → Option Rat
  | .json => (w.json X).map Prod.snd
  | .upload => (w.upload X).map Prod.snd
  | .claim => (w.claim X).map Prod.snd

/-- Take a file away. -/
def erase (w : Staging) (X : ImportId) : Suffix → Staging
  | .json => { w with json := Function.update w.json X none }
  | .upload => { w with upload := Function.update w.upload X none }
  | .claim => { w with claim := Function.update w.claim X none }

/-- Record an event. -/
def note (w : Staging) (e : Event) : Staging := { w with log := e :: w.log }

/-- Create a claim marker. -/
def mark (w : Staging) (X : ImportId) (pid : Pid) (time : Rat) : Staging :=
  ({ w with claim := Function.update w.claim X (some (pid, time)) } : Staging).note (.claimed X)

/-- Replace the record. -/
def store (w : Staging) (X : ImportId) (r : Record) (time : Rat) : Staging :=
  ({ w with json := Function.update w.json X (some (some r, time)) } : Staging).note
    (match r.apply with
      | some a => .prepared X a.claimedAt
      | none => .released X)

/-- Remove a file. -/
def remove (w : Staging) (why : Why) (X : ImportId) (s : Suffix) : Staging :=
  (w.erase X s).note (.removed why X s)

end Staging

/-! ### Operations -/

/-- One atomic operation. -/
inductive Op where
  | clock
  | listdir
  | lexists (X : ImportId) (s : Suffix)
  | lstat (X : ImportId) (s : Suffix)
  | createExclusive (X : ImportId)
  | takeOver (X : ImportId)
  | unlinkStale
  | readJson (X : ImportId)
  | readUpload (X : ImportId)
  | storeJson (X : ImportId) (r : Record)
  | unlink (why : Why) (X : ImportId) (s : Suffix)
  | mergeable (r : Record) (mode : ApplyMode) (choices : Dict String Side) (names : List String)

/-- The answer of an exclusive creation: the file is new, was there, or the creation
failed (with or without leaving the file). -/
inductive Created where
  | created | existed | failed
  deriving DecidableEq, Repr

/-- Did an update succeed, as the caller sees it? -/
abbrev Done := Bool

/-- The answer of an operation. -/
def Op.Answer : Op → Type
  | .clock => Rat
  | .listdir => List String
  | .lexists .. => Bool
  | .lstat .. => Option Rat
  | .createExclusive _ => Created
  | .takeOver _ | .unlinkStale => Done
  | .readJson _ => Option Record
  | .readUpload _ => Option Bytes
  | .storeJson .. | .unlink .. => Done
  | .mergeable .. => Option String

/-- When an update fails. -/
inductive Fault where
  | none | before | after
  deriving DecidableEq, Repr

/-- What the environment decides about one operation: the clock reading or new
modification time, a listing, a fault, the answer of the merge check. -/
structure Choice where
  time : Rat := 0
  names : List String := []
  fault : Fault := .none
  refusal : Option String := none

/-- What an operation of process `pid` does. -/
def exec (pid : Pid) : (e : Op) → Choice → Staging → e.Answer × Staging
  | .clock, c, w => (c.time, w)
  | .listdir, c, w => (c.names, w)
  | .lexists X s, _, w => ((w.mtime X s).isSome, w)
  | .lstat X s, _, w => (w.mtime X s, w)
  | .createExclusive X, c, w =>
      match w.claim X, c.fault with
      | some _, _ => (.existed, w)
      | none, .none => (.created, w.mark X pid c.time)
      | none, .before => (.failed, w)
      | none, .after => (.failed, w.mark X pid c.time)
  | .takeOver X, c, w =>
      match w.claim X, c.fault with
      | some _, .none => (true, (w.erase X .claim).note (.taken X))
      | _, _ => (false, w)
  | .unlinkStale, c, w => (c.fault == .none, w)
  | .readJson X, _, w => (w.record? X, w)
  | .readUpload X, _, w => ((w.upload X).map Prod.fst, w)
  | .storeJson X r, c, w =>
      match c.fault with
      | .none => (true, w.store X r c.time)
      | _ => (false, w)
  | .unlink why X s, c, w =>
      if (w.mtime X s).isSome then
        match c.fault with
        | .none => (true, w.remove why X s)
        | _ => (false, w)
      else (true, w)
  | .mergeable .., c, w => (c.refusal, w)

/-! ### Methods -/

/-- The class of an exception. -/
inductive ErrorClass where
  | notFound | expired | conflict | invalid | os | type
  deriving DecidableEq, Repr

/-- An exception, with its text. -/
structure ImportError where
  cls : ErrorClass
  text : String
  deriving DecidableEq, Repr

/-- A program over these operations. -/
abbrev Proc (α : Type) := Prog Op Op.Answer α

/-- An operation that may raise. It has no object. -/
abbrev Call (α : Type) := Method Op Op.Answer Unit ImportError α

/-- Perform one operation. -/
abbrev perform (e : Op) : Call e.Answer := Method.call (Prog.perform e)

/-- `ImportNotFound("preview not found")`. -/
def notFound : ImportError := ⟨.notFound, "preview not found"⟩

/-- An `OSError`. -/
def osError : ImportError := ⟨.os, ""⟩

/-- `_write_file(path, record)`. -/
def storeRecord (X : ImportId) (r : Record) : Call Unit :=
  (perform (.storeJson X r)).bind (fun (done : Done) => if done then .ret () else .raise osError)

/-- `_safe_unlink(path)`: a file that is gone is no error. -/
def safeUnlink (why : Why) (X : ImportId) (s : Suffix) : Call Unit :=
  (perform (.lstat X s)).bind (fun (found : Option Rat) => match found with
    | none => .ret ()
    | some _ => (perform (.unlink why X s)).bind (fun (done : Done) =>
        if done then .ret () else .raise osError))

/-- `_safe_unlink(stale_claim)`. -/
def unlinkStale : Call Unit :=
  (perform .unlinkStale).bind (fun (done : Done) => if done then .ret () else .raise osError)

end ProxyGateway.WebImport
