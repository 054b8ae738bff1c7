import ProxyGateway.Lib.Method
import ProxyGateway.Pdgtx.Service
import Mathlib.Data.String.Basic

set_option autoImplicit false

/-!
# ProxyGateway.Pdgtx.Object

The transaction object `Tx` and the part of its life before `commit`: assembling
targets, read-only dependencies, derivers, actions and guards, saving `meta.json`,
and giving up.

* The object's fields are the source's attributes; `metaJson` is the in-memory
  `self.meta`, written out by `saveMeta` with the object's state in it.
* Exceptions are `Exn`: the three classes of the module, `_ApplyFailed`, and
  everything else.
* `warnings`, the audit log and all texts are left out. `_note_leftovers` keeps
  its effect on disk, one more save of `meta.json`.
-/

namespace ProxyGateway.Pdgtx

open Method

/-- What the methods raise: `TxBusy`, `TxRefused`, `TxError`, any other exception,
and the internal `_ApplyFailed`. -/
inductive Exn where
  | busy | refused | txError | other | applyFailed
  deriving DecidableEq, Repr

/-- A read-only dependency in memory. -/
structure Watch where
  path : Path
  sha256 : Option Digest
  absent : Bool
  optional : Bool
  deriving DecidableEq, Repr

/-- A transaction object. -/
structure Tx where
  txid : Txid
  mode : Mode
  state : State := .preparing
  targets : Dict Name Target := []
  watches : Dict Name Watch := []
  readSha : Dict Name (Option Digest) := []
  derivers : List (Name × Deriver) := []
  actions : List Action := []
  serviceGuards : Dict ServiceUnit Want := []
  metaJson : Meta
  before : Option BeforeIndex := none

/-- A method of an object with state `σ`, over the operations of a transaction. -/
abbrev MethodOf (σ α : Type) := Method Op Op.Answer σ Exn α

/-- A method of `Tx`. -/
abbrev TxM (α : Type) := MethodOf Tx α

variable {σ : Type}

/-- Raise unless the condition holds. -/
def require (b : Bool) (e : Exn) : MethodOf σ Unit := if b then ret () else raise e

/-- Perform a write and raise when it reports failure. -/
def must (p : Proc Done) : MethodOf σ Unit := do
  let ok ← call p
  require ok .other

/-! ### `meta.json` -/

/-- `_save_meta`. -/
def saveMeta : TxM Unit := do
  assign (fun t => { t with metaJson := { t.metaJson with state := t.state } })
  let t ← self
  must (perform (.storeMeta t.txid t.metaJson))

/-- `_set_state`: the state in memory changes first, then it is saved. -/
def setState (new : State) : TxM Unit := do
  let t ← self
  require (t.state.allowed.contains new) .txError
  assign (fun t => { t with state := new })
  saveMeta

/-! ### Resolving and reading targets -/

/-- `_read_target`: `none` when the path is absent; links are refused. -/
def readTarget (p : Path) : MethodOf σ (Option (Bytes × Stat)) := do
  let node ← call (perform (.readTarget p))
  match node with
  | .absent => ret none
  | .file data st => ret (some (data, st))
  | .link => raise .txError

/-- The digest of what was read. -/
def digestOf (H : Host) (cur : Option (Bytes × Stat)) : Option Digest :=
  cur.map (fun c => H.sha c.1)

/-- `_trusted_cert_dir`: the profile is read when it can be opened; text that is not
UTF-8 raises. -/
def readCertDir (H : Host) : MethodOf σ String := do
  let node ← call (perform (.readTarget profilePath))
  match node.data? with
  | none => ret (trustedCertDir H.certDirEnv H.noSymlink [])
  | some raw => match H.decodeUtf8 raw with
    | some text => ret (trustedCertDir H.certDirEnv H.noSymlink text)
    | none => raise .other

/-- The result of the whitelist, or `TxError`. -/
def resolved : Option Resolved → MethodOf σ Resolved
  | some r => ret r
  | none => raise .txError

/-- `resolve_target`: only the two certificate names look at the profile. -/
def resolveTarget (H : Host) (name : Name) : MethodOf σ Resolved :=
  if isCert name then do
    let dir ← readCertDir H
    resolved (resolveIn dir name)
  else resolved (resolveIn certDirDefault name)

/-! ### Assembling a transaction -/

/-- `read_for_update`. -/
def readForUpdate (H : Host) (name : Name) : TxM (Option Bytes) := do
  let r ← resolveTarget H name
  let cur ← readTarget r.path
  assign (fun t => { t with readSha := t.readSha.set name (digestOf H cur) })
  return cur.map Prod.fst

/-- `watch`. -/
def watch (H : Host) (name : Name) (optional : Bool) : TxM (Option Bytes) := do
  let t ← self
  require (t.state == .preparing) .txError
  let r ← resolveTarget H name
  let cur ← readTarget r.path
  require (cur.isSome || optional) .refused
  assign (fun t =>
    let watches := t.watches.set name ⟨r.path, digestOf H cur, cur.isNone, optional⟩
    { t with
      watches := watches
      metaJson := { t.metaJson with
        watched := watches.sorted.map (fun p =>
          (p.1, ⟨p.2.sha256, p.2.absent, p.2.optional⟩)) } })
  saveMeta
  return cur.map Prod.fst

/-- `"%02d-%s" % (idx, _safe_leaf(target))`. -/
def candidateLeaf (idx : Nat) (name : Name) : Leaf :=
  (if idx < 10 then "0" else "") ++ toString idx ++ "-" ++ safeLeaf name

/-- Write the candidate file, unless the target is to be deleted. -/
def storeCandidate (T : Txid) (leaf : Leaf) : Option Bytes → MethodOf σ Unit
  | some bytes => must (perform (.storeSub T .candidate leaf bytes))
  | none => ret ()

/-- `stage`; `expect = none` is the argument left out. -/
def stage (H : Host) (name : Name) (data : Option Bytes) (expect : Option (Option Digest)) :
    TxM Unit := do
  let t ← self
  require (t.state == .preparing) .txError
  let r ← resolveTarget H name
  let cur ← readTarget r.path
  let leaf := candidateLeaf t.targets.length name
  storeCandidate t.txid leaf data
  let exp := expect.getD ((t.readSha.get? name).getD (digestOf H cur))
  assign (fun t => { t with
    targets := t.targets.set name
      { path := r.path, mode := r.mode, validators := r.validators, data := data,
        candidate := data.map (fun _ => leaf), expect := exp, existed := cur.isSome }
    metaJson := { t.metaJson with targetPaths := t.metaJson.targetPaths.set name r.path } })

/-- `derive`: the name is resolved now, the deriver runs at commit. -/
def derive (H : Host) (name : Name) (fn : Deriver) : TxM Unit := do
  let _ ← resolveTarget H name
  assign (fun t => { t with derivers := t.derivers ++ [(name, fn)] })

/-- `service`. -/
def service (a : Action) : TxM Unit := do
  require a.whitelisted .txError
  let t ← self
  if t.actions.contains a then ret ()
  else do
    require (!actionConflicts (t.actions ++ [a])) .txError
    assign (fun t => { t with actions := t.actions ++ [a] })

/-- `guard_service`. -/
def guardService (u : ServiceUnit) (want : Want) : TxM Unit := do
  assign (fun t =>
    let guards := t.serviceGuards.set u want
    { t with serviceGuards := guards
             metaJson := { t.metaJson with serviceGuards := some guards } })
  saveMeta

/-- `stage_derived`. -/
def stageDerived (H : Host) (name : Name) (data : Bytes) : TxM Unit := do
  let r ← resolveTarget H name
  let cur ← readTarget r.path
  let t ← self
  let leaf := candidateLeaf t.targets.length name
  must (perform (.storeSub t.txid .candidate leaf data))
  assign (fun t => { t with
    targets := t.targets.set name
      { path := r.path, mode := r.mode, validators := r.validators, data := some data,
        candidate := some leaf, expect := (t.readSha.get? name).getD (digestOf H cur),
        existed := cur.isSome } })

/-! ### Cleaning up -/

/-- Remove files one after the other; without `ignoreErrors` the first failure stops. -/
def unlinkAll (ignoreErrors : Bool) (T : Txid) (s : Sub) : List Leaf → Proc Bool
  | [] => .ret true
  | leaf :: rest => do
      let ok ← perform (.unlinkSub T s leaf)
      if ok || ignoreErrors then do
        let others ← unlinkAll ignoreErrors T s rest
        return ok && others
      else return false

/-- Remove `before/index.json`, when the listing had it. -/
def unlinkIndexIf (T : Txid) (hasIndex : Bool) : Proc Bool :=
  if hasIndex then perform (.unlinkIndex T) else .ret true

/-- `shutil.rmtree` of a material directory; `none` when it is not there. -/
def rmtreeSub (ignoreErrors : Bool) (T : Txid) (s : Sub) : Proc (Option Bool) := do
  let listing ← perform (.listSub T s)
  match listing with
  | none => return none
  | some (leaves, hasIndex) => do
      let files ← unlinkAll ignoreErrors T s leaves
      if files || ignoreErrors then do
        let index ← unlinkIndexIf T hasIndex
        if index || ignoreErrors then do
          let gone ← perform (.rmdirSub T s)
          return some gone
        else return some false
      else return some false

/-- One directory of `_cleanup_materials`: returns it when it could not be removed. -/
def cleanupSub (T : Txid) (s : Sub) : Proc (List Sub) := do
  let r ← rmtreeSub false T s
  match r with
  | none => return []
  | some false => return [s]
  | some true => do
      let still ← perform (.listSub T s)
      return if still.isSome then [s] else []

/-- `_cleanup_materials`: nothing happens outside the settled states. -/
def cleanupMaterials : TxM (List Sub) := do
  let t ← self
  if t.state.gcTerminal then call (Prog.collect (cleanupSub t.txid) [.candidate, .before])
  else ret []

/-- `_note_leftovers`: save once more, whatever comes of it. -/
def noteLeftovers (left : List Sub) : TxM Unit :=
  if left.isEmpty then ret () else saveMeta.tryCatch (fun _ => ret ())

/-- `meta["error_class"] = meta.get("error_class") or cls`. -/
def noteError (cls : String) : TxM Unit :=
  assign (fun t => { t with metaJson := { t.metaJson with
    errorClass := if t.metaJson.errorClass = "" then cls else t.metaJson.errorClass } })

/-- `_abort`. -/
def abortWith (cls : String) : TxM Unit := do
  let t ← self
  if t.state.unstarted then do
    noteError cls
    assign (fun t => { t with state := .aborted })
    saveMeta
    let left ← cleanupMaterials
    noteLeftovers left
  else ret ()

/-- `abort_unstarted`: a failed save puts the state back and keeps the materials. -/
def abortUnstarted (cls : String) : TxM Bool := do
  let t ← self
  if t.state.unstarted then do
    noteError cls
    assign (fun t => { t with state := .aborted })
    saveMeta.outcome (fun r => match r with
      | .error _ => do
          assign (fun u => { u with state := t.state })
          return false
      | .ok _ => do
          let left ← cleanupMaterials
          noteLeftovers left
          return true)
  else return false

end ProxyGateway.Pdgtx
