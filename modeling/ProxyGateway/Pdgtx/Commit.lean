import ProxyGateway.Pdgtx.Object

set_option autoImplicit false

/-!
# ProxyGateway.Pdgtx.Commit

`Tx.commit`: the pipeline from the pending check to COMMITTED, with every exit the
source has.

```
pending → derive → non-empty / conflicts → guards → baseline → targets → watches →
validate → diff → VALIDATED → before-images → APPLYING → apply → actions →
OBSERVING → observe → COMMITTED
```

Everything before APPLYING leaves production alone and ends in an exception;
from APPLYING on, an exception ends in `rollback`.
-/

namespace ProxyGateway.Pdgtx

open Method

/-! ### Scanning and collecting other transactions -/

/-- One directory of `pending_recovery`. -/
def pendingOne (exclude : Txid) (d : Txid) : Proc (List Meta) := do
  let m ← perform (.loadMeta d)
  match m with
  | some m => return if m.state.needsRecovery && m.txid != exclude then [m] else []
  | none => return []

/-- `pending_recovery`: every transaction that needs recovery, save `exclude`. -/
def pendingRecovery (exclude : Txid) : Proc (List Meta) := do
  let names ← perform .listTx
  Prog.collect (pendingOne exclude) names

/-- One entry of `shutil.rmtree` on a transaction directory. -/
def rmtreeTop (T : Txid) : Top → Proc Unit
  | .metaJson => do
      let _ ← perform (.unlinkMeta T)
      return ()
  | .sub s => do
      let _ ← rmtreeSub true T s
      return ()

/-- `shutil.rmtree(p, ignore_errors=True)` on a transaction directory. -/
def rmtreeTx (T : Txid) : Proc Unit := do
  let order ← perform (.listTop T)
  Prog.each (rmtreeTop T) order
  let _ ← perform (.rmdirTx T)
  return ()

/-- Remove the `kept`-th settled directory if that is one too many. -/
def dropOld (keep kept : Nat) (d : Txid) : Proc Unit :=
  if kept > keep then rmtreeTx d else .ret ()

/-- The loop of `_gc`, `kept` settled directories having been kept so far. -/
def gcFrom (keep : Nat) : Nat → List Txid → Proc Unit
  | _, [] => .ret ()
  | kept, d :: rest => do
      let m ← perform (.loadMeta d)
      match m with
      | some m =>
          if m.state.gcTerminal then do
            dropOld keep (kept + 1) d
            gcFrom keep (kept + 1) rest
          else gcFrom keep kept rest
      | none => gcFrom keep kept rest

/-- `_gc`: newest first. -/
def gc (H : Host) : Proc Unit := do
  let names ← perform .listTx
  gcFrom H.keep 0 (names.insertionSort (fun a b => b ≤ a))

/-! ### Before APPLYING -/

/-- 0) No other transaction may need recovery. -/
def checkPending : TxM Unit := do
  let t ← self
  let pend ← call (pendingRecovery t.txid)
  require pend.isEmpty .refused

/-- One deriver of step 1; whatever goes wrong in it becomes a refusal. -/
def deriveOne (H : Host) (d : Name × Deriver) : TxM Unit := do
  let t ← self
  let out ← call (perform (.derive d.2 (t.targets.map (fun p => (p.1, p.2.data)))))
  match out with
  | .data bytes => stageDerived H d.1 bytes
  | .nothing | .refused | .raised => raise .refused

/-- 1) Run the derivers in order. -/
def deriveAll (H : Host) : TxM Unit := do
  let t ← self
  each (deriveOne H) t.derivers

/-- The services a transaction touches: those of its targets, of its actions and of
its guards. -/
def Tx.services (t : Tx) : List ServiceUnit :=
  sortedUnits (fun u =>
    t.targets.keys.any (fun n => targetService n == some u) ||
    t.actions.any (fun a => a.asks.map Prod.fst == some u) || t.serviceGuards.contains u)

/-- Non-empty, no conflicting actions; then services and targets go into the meta. -/
def scope : TxM Unit := do
  let t ← self
  require (!t.targets.isEmpty || !t.actions.isEmpty) .refused
  if actionConflicts t.actions then do
    assign (fun t => { t with metaJson := { t.metaJson with errorClass := "ACTION_CONFLICT" } })
    raise .refused
  else
    assign (fun t => { t with metaJson := { t.metaJson with
      services := t.services, targets := t.targets.sorted.map Prod.fst } })

/-- Refuse with `PRECONDITION_FAILED` unless the condition holds. -/
def precondition (b : Bool) : TxM Unit :=
  if b then ret () else do
    assign (fun t => { t with metaJson := { t.metaJson with errorClass := "PRECONDITION_FAILED" } })
    raise .refused

/-- The `ActiveState` a guard asks for. -/
def Want.name : Want → String
  | .active => "active"
  | .inactive => "inactive"

/-- 2) One guard. -/
def checkGuard (u : ServiceUnit) : TxM Unit := do
  let t ← self
  match t.serviceGuards.get? u with
  | none => ret ()
  | some want => do
      let (cur, ok) ← call (svcPropEx u "ActiveState")
      precondition (ok && trim cur != "" && trim cur == want.name)

/-- 2) All guards, by unit name. -/
def checkGuards : TxM Unit := do
  let t ← self
  each checkGuard (sortedUnits t.serviceGuards.contains)

/-- The baseline of the hard gates; in normal mode they have to be good. -/
def baseline : TxM (Dict Gate Bool) := do
  let t ← self
  let relax := relaxUnits t.actions
  let base ← call (healthSnapshot t.services relax)
  call (Prog.each (fun u => (svcActive u).bind (fun _ => .ret ())) relax)
  require (t.mode == .repair || base.all Prod.snd) .refused
  return base

/-- 3) One target still holds what it held when it was staged. -/
def checkTarget (H : Host) (p : Name × Target) : TxM Unit := do
  let cur ← readTarget p.2.path
  precondition (digestOf H cur == p.2.expect)

/-- 3b) One read-only dependency is unchanged. -/
def checkWatch (H : Host) (p : Name × Watch) : TxM Unit := do
  let cur ← readTarget p.2.path
  precondition (digestOf H cur == p.2.sha256)

/-- 3) and 3b). -/
def checkPreconditions (H : Host) : TxM Unit := do
  let t ← self
  each (checkTarget H) t.targets
  each (checkWatch H) t.watches.sorted

/-- 4) One validator of one candidate; its verdict is saved before it is acted on. -/
def validateOne (p : Path) (data : Bytes) (v : String) : TxM Unit := do
  let t ← self
  let verdict ← call (perform (.validate v p data t.targets))
  match verdict with
  | .raised => raise .other
  | .pass => saveMeta
  | .fail _ => do
      saveMeta
      raise .refused

/-- 4) One candidate; a deletion has nothing to validate. -/
def validateTarget (p : Name × Target) : TxM Unit :=
  match p.2.data with
  | none => ret ()
  | some data => each (validateOne p.2.path data) p.2.validators

/-- 4) All candidates. -/
def validateAll : TxM Unit := do
  let t ← self
  each validateTarget t.targets.sorted

/-- `_diff`, of which only the reads matter here, and `diff.txt`. -/
def writeDiff : TxM Unit := do
  let t ← self
  each (fun p : Name × Target => (readTarget p.2.path).bind (fun _ => ret ())) t.targets.sorted
  must (perform (.storeDiff t.txid))

/-! ### Before-images -/

/-- The files part of `_save_before`. -/
def saveFiles (H : Host) : List (Name × Target) → TxM (Dict Name BeforeRec)
  | [] => ret []
  | (name, t) :: rest => do
      let cur ← readTarget t.path
      match cur with
      | none => do
          let more ← saveFiles H rest
          return (name, ⟨false, "", "", ⟨0, 0, 0⟩⟩) :: more
      | some (data, st) => do
          let s ← self
          must (perform (.storeSub s.txid .before (safeLeaf name) data))
          let more ← saveFiles H rest
          return (name, ⟨true, safeLeaf name, H.sha data, st⟩) :: more

/-- The states in which no stable snapshot can be taken. -/
def transitional : List String := ["activating", "deactivating", "reloading"]

/-- The services part of `_save_before`. -/
def saveServices : List ServiceUnit → TxM (Dict ServiceUnit SvcRec)
  | [] => ret []
  | u :: rest => do
      let (en, enOk) ← call (svcPropEx u "UnitFileState")
      let (nr, nrOk) ← call (svcPropEx u "NRestarts")
      let (st, stOk) ← call (svcPropEx u "ActiveState")
      require (enOk && nrOk && stOk) .refused
      require (trim st != "") .refused
      require (!transitional.contains (trim st)) .refused
      let more ← saveServices rest
      return (u, ⟨trim st == "active", trim st, en, nr⟩) :: more

/-- The sysctl part of `_save_before`. -/
def saveSysctl (t : Tx) : Proc (Dict String String) :=
  if t.targets.contains "sysctl_tfo" || t.actions.contains .sysctlApply then do
    let (rc, out) ← run ["sysctl", "-n", "net.ipv4.tcp_fastopen"]
    return [("net.ipv4.tcp_fastopen", if rc = 0 then trim out else "")]
  else return []

/-- The firewall part of `_save_before`. -/
def saveNft (H : Host) (t : Tx) : Proc (Option Bool) :=
  if t.targets.contains "nftables_conf" || t.actions.contains .nftApply then
    match H.nftBin with
    | none => return some false
    | some exe => do
        let (rc, _) ← run [exe, "list", "table", "inet", "pdg"]
        return some (rc == 0)
  else return none

/-- What the transaction is about to write, by target. -/
def Tx.intended (H : Host) (t : Tx) : Dict Name (Option Digest) :=
  t.targets.map (fun p => (p.1, p.2.data.map H.sha))

/-- `_save_before`. -/
def saveBefore (H : Host) : TxM Unit := do
  let t ← self
  let files ← saveFiles H t.targets.sorted
  let services ← saveServices t.services
  let sysctl ← call (saveSysctl t)
  let nft ← call (saveNft H t)
  let bi : BeforeIndex := ⟨files, services, sysctl, nft⟩
  must (perform (.storeIndex t.txid bi))
  assign (fun t => { t with
    before := some bi, metaJson := { t.metaJson with intendedSha := t.intended H } })
  saveMeta

/-! ### From APPLYING on -/

/-- The record of a target in the before-index. -/
def Tx.beforeRec (t : Tx) (name : Name) : Option BeforeRec :=
  (t.before.bind (fun bi => bi.files.get? name)).filter BeforeRec.existed

/-- `_apply_one`. A deletion is carried out only when the target was there at staging
time; certificates get a fixed mode and owner, other files keep theirs. -/
def applyOne (p : Name × Target) : TxM Unit := do
  let t ← self
  match p.2.data with
  | none =>
      if p.2.existed then must (perform (.unlinkTarget t.txid p.2.path)) else ret ()
  | some data =>
      if isCert p.1 then
        must (perform (.replaceTarget t.txid p.2.path data p.2.mode (some (0, 0))))
      else
        match t.beforeRec p.1 with
        | some rec => must (perform (.replaceTarget t.txid p.2.path data rec.stat.mode
            (some (rec.stat.uid, rec.stat.gid))))
        | none => must (perform (.replaceTarget t.txid p.2.path data p.2.mode none))

/-- The services part of `_observe`. -/
def observeUnits (base : Dict Gate Bool) (exp : Dict ServiceUnit Want) :
    List ServiceUnit → Proc Bool
  | [] => .ret true
  | u :: rest => do
      let ok ← (if exp.get? u = some .inactive then svcInactiveStable u else svcStable u)
      if ok || ((exp.get? u).isNone && base.get? (.svc u) == some false) then
        observeUnits base exp rest
      else return false

/-- `_observe`: no unit named by an action misses its state, no gate that was good is
bad now. -/
def observe (base : Dict Gate Bool) : TxM Bool := do
  let t ← self
  let good ← call (observeUnits base (expectedStates t.actions) t.services)
  if good then do
    let after ← call (healthSnapshot t.services (relaxUnits t.actions))
    saveMeta
    return after.all (fun p => p.2 || base.get? p.1 == some false)
  else return false

/-- The protected part of step 6. -/
def applyAll (H : Host) (base : Dict Gate Bool) : TxM Unit := do
  let t ← self
  each applyOne t.targets.sorted
  assign (fun t => { t with metaJson := { t.metaJson with
    applied := t.targets.sorted.map Prod.fst } })
  saveMeta
  let ok ← call (doActions H t.actions)
  require ok .applyFailed
  setState .observing
  let good ← observe base
  require good .applyFailed

/-- One target of `_rollback`: `true` when nothing failed. -/
def restoreOne (T : Txid) (files : Dict Name BeforeRec) (p : Name × Target) : Proc Bool :=
  match (files.get? p.1).filter BeforeRec.existed with
  | some rec => do
      let data ← perform (.loadSub T .before rec.file)
      match data with
      | some data => perform (.replaceTarget T p.2.path data rec.stat.mode
          (some (rec.stat.uid, rec.stat.gid)))
      | none => return false
  | none => do
      let there : Bool ← perform (.targetExists p.2.path)
      if there then perform (.unlinkTarget T p.2.path) else return true

/-- The first loop of `_rollback`. -/
def restoreAll (T : Txid) (files : Dict Name BeforeRec) : List (Name × Target) → Proc Bool
  | [] => .ret true
  | p :: rest => do
      let ok ← restoreOne T files p
      let others ← restoreAll T files rest
      return ok && others

/-- The verification loop of `_rollback`. -/
def verifyAll (H : Host) (files : Dict Name BeforeRec) : List (Name × Target) → TxM Bool
  | [] => ret true
  | p :: rest => do
      let cur ← readTarget p.2.path
      let ok := match (files.get? p.1).filter BeforeRec.existed with
        | some rec => digestOf H cur == some rec.sha256
        | none => cur.isNone
      let others ← verifyAll H files rest
      return ok && others

/-- The end of a transaction whose materials may go: clean up, then collect. -/
def settle (H : Host) : TxM State := do
  let left ← cleanupMaterials
  noteLeftovers left
  call (gc H)
  let t ← self
  return t.state

/-- `_rollback`. -/
def rollback (H : Host) : TxM State := do
  assign (fun t => { t with metaJson := { t.metaJson with errorClass := "APPLY_FAILED" } })
  setState .rollingBack
  let t ← self
  let bi := t.before.getD {}
  let files ← call (restoreAll t.txid bi.files t.targets.sorted)
  let runtime ← call (restoreRuntime H bi)
  let verified ← verifyAll H bi.files t.targets.sorted
  assign (fun t => { t with metaJson := { t.metaJson with
    rollbackComplete := some (files && runtime && verified) } })
  if files && runtime && verified then do
    setState .rolledBack
    settle H
  else do
    setState .rollbackFailed
    return .rollbackFailed

/-- The end of a transaction that worked. -/
def finish (H : Host) : TxM State := do
  setState .committed
  saveMeta
  settle H

/-! ### `commit` -/

/-- Steps 0) to 4): everything that can refuse before a before-image is taken. -/
def preflight (H : Host) : TxM (Dict Gate Bool) := do
  checkPending
  deriveAll H
  scope
  checkGuards
  let base ← baseline
  checkPreconditions H
  validateAll
  writeDiff
  return base

/-- Step 5): any failure to save the before-images is a refusal. -/
def takeBefore (H : Host) : TxM Unit := do
  setState .validated
  (saveBefore H).tryCatch (fun _ => raise .refused)

/-- `_commit_locked`. -/
def commitLocked (H : Host) : TxM State := do
  let base ← preflight H
  takeBefore H
  setState .applying
  (applyAll H base).outcome (fun r => match r with
    | .ok _ => finish H
    | .error _ => rollback H)

/-- `with _Lock():`. -/
def withLock {σ α : Type} (m : MethodOf σ α) : MethodOf σ α := do
  let a ← call (perform .lock)
  match a with
  | .unusable => raise .refused
  | .busy => raise .busy
  | .acquired => m.outcome (fun r => do
      call (perform .unlock)
      match r with
      | .ok a => ret a
      | .error e => raise e)

/-- What `commit` does with an exception: `TxBusy` and `TxRefused` abort the
transaction first. -/
def commitFailed : Exn → TxM State
  | .busy => do
      abortWith "BUSY"
      raise .busy
  | .refused => do
      abortWith "REFUSED"
      raise .refused
  | e => raise e

/-- `commit`. -/
def commit (H : Host) : TxM State := (withLock (commitLocked H)).tryCatch commitFailed

end ProxyGateway.Pdgtx
