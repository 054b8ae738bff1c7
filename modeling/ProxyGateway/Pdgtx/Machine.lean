import ProxyGateway.Lib.Prog
import ProxyGateway.Pdgtx.Target

set_option autoImplicit false

/-!
# ProxyGateway.Pdgtx.Machine

The world a transaction works in and the atomic operations on it.

* `World`: the production files, the transaction directories under `TX_ROOT`, the
  holder of the global lock, and a history `log` of the writes that matter for the
  state machine (which state was written to which `meta.json`, and on whose behalf
  a production file was replaced or deleted).
* `Op`: one file read, write (`atomic_write` is one: the new content appears with
  the final `os.replace`), unlink or directory operation, one lock operation, one
  command or probe.
* `Host`: what lies outside the module, namely the digest, the validators, text
  decoding and the process environment.

A `Choice` is what the environment decides about one operation: a write may fail
before the new content is in place or after it (the directory `fsync`), a command
returns any code and output, the lock file may be unusable. Reads of production
files do not fail other than by refusing links.
-/

namespace ProxyGateway.Pdgtx

/-- A transaction id, the name of its directory under `TX_ROOT`. -/
abbrev Txid := String

/-- A content digest, in hex. -/
abbrev Digest := String

/-- Permission bits and owner of a file. -/
structure Stat where
  mode : Nat
  uid : Nat
  gid : Nat
  deriving DecidableEq, Repr

/-- What a production path holds. `link` is a symbolic or hard link, which
`_read_target` refuses. -/
inductive Node where
  | absent
  | file (data : Bytes) (st : Stat)
  | link
  deriving DecidableEq, Repr

/-- The bytes of a plain file. -/
def Node.data? : Node → Option Bytes
  | .file data _ => some data
  | _ => none

/-! ### What is on disk for a transaction -/

/-- One target's entry of `before/index.json`. `file` and `stat` are there only when
the target existed. -/
structure BeforeRec where
  existed : Bool
  file : Leaf
  sha256 : Digest
  stat : Stat
  deriving DecidableEq, Repr

/-- A unit's runtime state before the transaction. -/
structure SvcRec where
  active : Bool
  activeState : String
  enabled : String
  nrestarts : String
  deriving DecidableEq, Repr

/-- `before/index.json`. -/
structure BeforeIndex where
  files : Dict Name BeforeRec := []
  services : Dict ServiceUnit SvcRec := []
  sysctl : Dict String String := []
  nftLoaded : Option Bool := none
  deriving DecidableEq, Repr

/-- A read-only dependency as `meta.json` records it. -/
structure WatchRec where
  sha256 : Option Digest
  absent : Bool
  optional : Bool
  deriving DecidableEq, Repr

/-- One `pdgtx stage` entry of `meta.json`. -/
structure Staged where
  target : Name
  candidate : Option Leaf
  expect : Option Digest
  delete : Bool
  deriving DecidableEq, Repr

/-- `meta.json`, the fields the transaction core reads back or decides on. -/
structure Meta where
  txid : Txid
  schemaVersion : Nat
  runnerSha256 : Digest
  mode : Mode
  state : State
  targets : List Name := []
  targetPaths : Dict Name Path := []
  services : List ServiceUnit := []
  staged : List Staged := []
  stagedActions : List Action := []
  stagedServiceGuards : Option (Dict ServiceUnit Want) := none
  serviceGuards : Option (Dict ServiceUnit Want) := none
  watched : Dict Name WatchRec := []
  intendedSha : Dict Name (Option Digest) := []
  applied : List Name := []
  errorClass : String := ""
  rollbackComplete : Option Bool := none
  deriving DecidableEq, Repr

/-- A transaction directory. `before` holds the saved images, `index` is
`before/index.json`. -/
structure TxDir where
  metaJson : Option Meta := none
  candidate : Option (Dict Leaf Bytes) := none
  before : Option (Dict Leaf Bytes) := none
  index : Option BeforeIndex := none
  deriving DecidableEq, Repr

/-- The two material directories. -/
inductive Sub where
  | candidate | before
  deriving DecidableEq, Repr

/-- The files of a material directory; `none` when the directory is not there. -/
def TxDir.sub (d : TxDir) : Sub → Option (Dict Leaf Bytes)
  | .candidate => d.candidate
  | .before => d.before

/-- Replace the files of a material directory. -/
def TxDir.setSub (d : TxDir) : Sub → Option (Dict Leaf Bytes) → TxDir
  | .candidate, v => { d with candidate := v }
  | .before, v => { d with before := v }

/-- An entry of a transaction directory, as a recursive removal meets it. -/
inductive Top where
  | metaJson | sub (s : Sub)
  deriving DecidableEq, Repr

/-! ### The world -/

/-- A process. -/
abbrev Pid := Nat

/-- One recorded write. -/
inductive Event where
  /-- A production file was replaced or deleted on behalf of a transaction. -/
  | touched (tx : Txid) (path : Path)
  /-- A state was written to a transaction's `meta.json`. -/
  | wrote (tx : Txid) (state : State)
  deriving DecidableEq, Repr

/-- The state shared by all processes; `log` is the history, newest event first. -/
structure World where
  files : Path → Node
  txs : Dict Txid TxDir
  lock : Option Pid
  log : List Event

namespace World

/-- The bytes at a production path. -/
def content (w : World) (p : Path) : Option Bytes := (w.files p).data?

/-- Put a node at a path. -/
def setFile (w : World) (p : Path) (n : Node) : World :=
  { w with files := Function.update w.files p n }

/-- The directory of a transaction, empty when it does not exist. -/
def dir (w : World) (T : Txid) : TxDir := (w.txs.get? T).getD {}

/-- Put a transaction directory. -/
def setDir (w : World) (T : Txid) (d : TxDir) : World := { w with txs := w.txs.set T d }

/-- Record an event. -/
def record (w : World) (e : Event) : World := { w with log := e :: w.log }

/-- The readable `meta.json` of a transaction. -/
def metaOf (w : World) (T : Txid) : Option Meta := (w.dir T).metaJson

/-- The state in a transaction's `meta.json`. -/
def stateOf (w : World) (T : Txid) : Option State := (w.metaOf T).map Meta.state

end World

/-! ### What lies outside the module -/

/-- The answer of a validator: it passes, it fails with a message, or it raises. -/
inductive Verdict where
  | pass | fail (err : String) | raised
  deriving DecidableEq, Repr

/-- A staged target in memory. -/
structure Target where
  path : Path
  mode : Nat
  validators : List String
  data : Option Bytes
  candidate : Option Leaf
  expect : Option Digest
  existed : Bool
  deriving DecidableEq, Repr

/-- What a deriver produced. -/
inductive Derived where
  | data (b : Bytes) | nothing | refused | raised
  deriving DecidableEq, Repr

/-- A deriver: a function of the staged data, which may also look at production. -/
abbrev Deriver := Dict Name (Option Bytes) → (Path → Node) → Derived

/-- Digest, validators, text decoding and the process environment. A validator sees
the candidate, all staged targets and production. -/
structure Host where
  sha : Bytes → Digest
  validate : String → Path → Bytes → Dict Name Target → (Path → Node) → Verdict
  decodeUtf8 : Bytes → Option (List Char)
  decodeReplace : Bytes → List Char
  certDirEnv : List Char
  noSymlink : String → Bool
  runnerSha : Digest
  nftBin : Option String
  keep : Nat

/-- A host on which every candidate is valid, with a digest that spells out the bytes. -/
def Host.plain : Host where
  sha := fun b => String.ofList (b.map (fun x => Char.ofNat (x.toNat + 48)))
  validate := fun _ _ _ _ _ => .pass
  decodeUtf8 := fun b => some (b.map (fun x => Char.ofNat x.toNat))
  decodeReplace := fun b => b.map (fun x => Char.ofNat x.toNat)
  certDirEnv := []
  noSymlink := fun _ => true
  runnerSha := "runner"
  nftBin := none
  keep := 20

/-! ### Operations -/

/-- One atomic operation. -/
inductive Op where
  | lock
  | unlock
  | readTarget (p : Path)
  | targetExists (p : Path)
  | replaceTarget (tx : Txid) (p : Path) (data : Bytes) (mode : Nat) (owner : Option (Nat × Nat))
  | unlinkTarget (tx : Txid) (p : Path)
  | makeTx (T : Txid)
  | listTx
  | loadMeta (T : Txid)
  | storeMeta (T : Txid) (m : Meta)
  | storeDiff (T : Txid)
  | storeSub (T : Txid) (s : Sub) (leaf : Leaf) (data : Bytes)
  | loadSub (T : Txid) (s : Sub) (leaf : Leaf)
  | storeIndex (T : Txid) (bi : BeforeIndex)
  | loadIndex (T : Txid)
  | listSub (T : Txid) (s : Sub)
  | unlinkSub (T : Txid) (s : Sub) (leaf : Leaf)
  | unlinkIndex (T : Txid)
  | rmdirSub (T : Txid) (s : Sub)
  | listTop (T : Txid)
  | unlinkMeta (T : Txid)
  | rmdirTx (T : Txid)
  | validate (validator : String) (p : Path) (data : Bytes) (targets : Dict Name Target)
  | derive (fn : Deriver) (staged : Dict Name (Option Bytes))
  | run (cmd : List String)
  | dnsAnswers
  | tcpListening (port : Nat)

/-- The answer of acquiring the lock. -/
inductive LockAnswer where
  | acquired | busy | unusable
  deriving DecidableEq, Repr

/-- Did a write, unlink or removal succeed, as the caller sees it? -/
abbrev Done := Bool

/-- The answer of an operation. -/
def Op.Answer : Op → Type
  | .lock => LockAnswer
  | .unlock => Unit
  | .readTarget _ => Node
  | .targetExists _ => Bool
  | .replaceTarget .. | .unlinkTarget .. => Done
  | .makeTx _ => Done
  | .listTx => List Txid
  | .loadMeta _ => Option Meta
  | .storeMeta .. | .storeDiff _ | .storeSub .. | .storeIndex .. => Done
  | .loadSub .. => Option Bytes
  | .loadIndex _ => Option BeforeIndex
  | .listSub .. => Option (List Leaf × Bool)
  | .unlinkSub .. | .unlinkIndex _ | .rmdirSub .. => Done
  | .listTop _ => List Top
  | .unlinkMeta _ | .rmdirTx _ => Done
  | .validate .. => Verdict
  | .derive .. => Derived
  | .run _ => Int × String
  | .dnsAnswers | .tcpListening _ => Bool

/-- When a write fails. -/
inductive Fault where
  | none | before | after
  deriving DecidableEq, Repr

/-- What the environment decides about one operation. -/
structure Choice where
  fault : Fault := .none
  output : Int × String := (0, "")
  yes : Bool := true
  order : List Top := [.sub .candidate, .sub .before, .metaJson]

/-- A program over these operations. -/
abbrev Proc (α : Type) := Prog Op Op.Answer α

/-- Perform one operation. -/
abbrev perform (e : Op) : Proc e.Answer := Prog.perform e

/-- An update that a fault can prevent, or let happen and still report failure. -/
def faulty (f : Fault) (w w' : World) : Done × World :=
  match f with
  | .none => (true, w')
  | .before => (false, w)
  | .after => (false, w')

/-- An update that also needs its object to be there. -/
def attempt (there : Bool) (f : Fault) (w w' : World) : Done × World :=
  if there then faulty f w w' else (false, w)

/-- Remove one file of a material directory. -/
def TxDir.eraseSub (d : TxDir) (s : Sub) (leaf : Leaf) : TxDir :=
  d.setSub s ((d.sub s).map (fun files => files.erase leaf))

/-- Is the material directory there and empty? -/
def TxDir.subEmpty (d : TxDir) (s : Sub) : Bool :=
  d.sub s == some [] && (s == .candidate || d.index.isNone)

/-- The world after `meta.json` was written. -/
def World.writeMeta (w : World) (T : Txid) (m : Meta) : World :=
  (w.setDir T { w.dir T with metaJson := some m }).record (.wrote T m.state)

/-- The world after a production file was replaced on behalf of `T`. -/
def World.touch (w : World) (T : Txid) (p : Path) (n : Node) : World :=
  (w.setFile p n).record (.touched T p)

/-- What an operation of process `pid` does. -/
def exec (H : Host) (pid : Pid) : (e : Op) → Choice → World → e.Answer × World
  | .lock, c, w =>
      if c.yes = false then (.unusable, w)
      else match w.lock with
        | none => (.acquired, { w with lock := some pid })
        | some _ => (.busy, w)
  | .unlock, _, w => ((), if w.lock = some pid then { w with lock := none } else w)
  | .readTarget p, _, w => (w.files p, w)
  | .targetExists p, _, w => (decide (w.files p ≠ .absent), w)
  | .replaceTarget T p data mode owner, c, w =>
      faulty c.fault w (w.touch T p (.file data
        ⟨mode, (owner.map Prod.fst).getD 0, (owner.map Prod.snd).getD 0⟩))
  | .unlinkTarget T p, c, w =>
      attempt (w.files p != .absent) c.fault w (w.touch T p .absent)
  | .makeTx T, c, w =>
      faulty c.fault w (w.setDir T
        { w.dir T with candidate := some (((w.dir T).candidate).getD []),
                       before := some (((w.dir T).before).getD []) })
  | .listTx, _, w => (w.txs.keys, w)
  | .loadMeta T, _, w => (w.metaOf T, w)
  | .storeMeta T m, c, w => faulty c.fault w (w.writeMeta T m)
  | .storeDiff _, c, w => faulty c.fault w w
  | .storeSub T s leaf data, c, w =>
      faulty c.fault w (w.setDir T
        ((w.dir T).setSub s (some ((((w.dir T).sub s).getD []).set leaf data))))
  | .loadSub T s leaf, _, w => (((w.dir T).sub s).bind (fun files => files.get? leaf), w)
  | .storeIndex T bi, c, w =>
      faulty c.fault w (w.setDir T
        { w.dir T with before := some (((w.dir T).before).getD []), index := some bi })
  | .loadIndex T, _, w => ((w.dir T).index, w)
  | .listSub T s, _, w =>
      (((w.dir T).sub s).map (fun files =>
        (files.keys, s == .before && (w.dir T).index.isSome)), w)
  | .unlinkSub T s leaf, c, w =>
      attempt (((w.dir T).sub s).bind (fun files => files.get? leaf)).isSome c.fault w
        (w.setDir T ((w.dir T).eraseSub s leaf))
  | .unlinkIndex T, c, w =>
      attempt (w.dir T).index.isSome c.fault w (w.setDir T { w.dir T with index := none })
  | .rmdirSub T s, c, w =>
      attempt ((w.dir T).subEmpty s) c.fault w (w.setDir T ((w.dir T).setSub s none))
  | .listTop _, c, w => (c.order, w)
  | .unlinkMeta T, c, w =>
      attempt (w.dir T).metaJson.isSome c.fault w (w.setDir T { w.dir T with metaJson := none })
  | .rmdirTx T, c, w =>
      attempt (w.txs.get? T == some {}) c.fault w { w with txs := w.txs.erase T }
  | .validate v p data targets, _, w => (H.validate v p data targets w.files, w)
  | .derive fn staged, _, w => (fn staged w.files, w)
  | .run _, c, w => (c.output, w)
  | .dnsAnswers, c, w => (c.yes, w)
  | .tcpListening _, c, w => (c.yes, w)

/-! ### Reading the world after an update -/

section Lemmas

variable (w : World) (T U : Txid) (d : TxDir) (m : Meta) (p q : Path) (n : Node) (e : Event)

@[simp] theorem World.dir_setDir_self : (w.setDir T d).dir T = d := by
  simp [World.dir, World.setDir]

theorem World.dir_setDir_ne {T U : Txid} (h : T ≠ U) : (w.setDir T d).dir U = w.dir U := by
  simp [World.dir, World.setDir, Dict.get?_set_ne h]

@[simp] theorem World.setDir_files : (w.setDir T d).files = w.files := rfl
@[simp] theorem World.setDir_lock : (w.setDir T d).lock = w.lock := rfl
@[simp] theorem World.setDir_log : (w.setDir T d).log = w.log := rfl
@[simp] theorem World.record_files : (w.record e).files = w.files := rfl
@[simp] theorem World.record_txs : (w.record e).txs = w.txs := rfl
@[simp] theorem World.record_lock : (w.record e).lock = w.lock := rfl
@[simp] theorem World.record_log : (w.record e).log = e :: w.log := rfl
@[simp] theorem World.record_dir : (w.record e).dir T = w.dir T := rfl
@[simp] theorem World.setFile_txs : (w.setFile p n).txs = w.txs := rfl
@[simp] theorem World.setFile_lock : (w.setFile p n).lock = w.lock := rfl
@[simp] theorem World.setFile_log : (w.setFile p n).log = w.log := rfl
@[simp] theorem World.setFile_dir : (w.setFile p n).dir T = w.dir T := rfl

@[simp] theorem World.touch_txs : (w.touch T p n).txs = w.txs := rfl
@[simp] theorem World.touch_lock : (w.touch T p n).lock = w.lock := rfl
@[simp] theorem World.touch_log : (w.touch T p n).log = .touched T p :: w.log := rfl
@[simp] theorem World.touch_dir : (w.touch T p n).dir U = w.dir U := rfl
@[simp] theorem World.touch_files :
    (w.touch T p n).files = Function.update w.files p n := rfl

@[simp] theorem World.writeMeta_files : (w.writeMeta T m).files = w.files := rfl
@[simp] theorem World.writeMeta_lock : (w.writeMeta T m).lock = w.lock := rfl
@[simp] theorem World.writeMeta_log : (w.writeMeta T m).log = .wrote T m.state :: w.log := rfl

@[simp] theorem World.writeMeta_dir_self :
    (w.writeMeta T m).dir T = { w.dir T with metaJson := some m } := by
  simp [World.writeMeta]

theorem World.writeMeta_dir_ne {T U : Txid} (h : T ≠ U) :
    (w.writeMeta T m).dir U = w.dir U := by
  simp [World.writeMeta, World.dir_setDir_ne _ _ h]

theorem World.touch_content : (w.touch T p n).content q = if q = p then n.data? else w.content q := by
  by_cases h : q = p
  · subst h
    simp [World.content]
  · simp [World.content, h]

/-- A faulty update leaves the old world or the new one. -/
theorem faulty_cases (f : Fault) (w w' : World) :
    ((faulty f w w').2 = w ∧ (faulty f w w').1 = false) ∨ (faulty f w w').2 = w' := by
  cases f <;> simp [faulty]

/-- A faulty update keeps what the update keeps. -/
theorem faulty_keeps {I : World → Prop} {w w' : World} (f : Fault) (h : I w) (h' : I w') :
    I (faulty f w w').2 := by
  rcases faulty_cases f w w' with ⟨he, _⟩ | he <;> rw [he] <;> assumption

theorem attempt_keeps {I : World → Prop} {w w' : World} (there : Bool) (f : Fault) (h : I w)
    (h' : I w') : I (attempt there f w w').2 := by
  unfold attempt
  split
  · exact faulty_keeps f h h'
  · exact h

end Lemmas

end ProxyGateway.Pdgtx
