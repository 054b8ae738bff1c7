import ProxyGateway.Pdgtx.CommitSafe
import ProxyGateway.Pdgtx.RecoverSafe

set_option autoImplicit false

/-!
# ProxyGateway.Pdgtx.Forgotten

Half-applied transactions over sequences of commands.

A run is a list of commands, each of them one process that performs as many
operations as it has choices: it ends, or it is killed between two operations. What
must hold in every state reached is `Remembered`: a transaction that has changed
production and was neither committed nor restored needs recovery on disk, keeps its
before-images, and blocks the commits of all others.

`apply` builds its object in PREPARING whatever `meta.json` says, and leaves its own
transaction out of the pending check. Issued again for a half-applied transaction it
finds changed files, refuses and marks the transaction ABORTED (`apply_again_forgets`).
As long as no command does that, nothing is forgotten (`remembered_runAll`).
-/

namespace ProxyGateway.Pdgtx

open Method

/-! ### Runs of commands -/

/-- A command issued, with what the environment decides about each operation it gets to. -/
structure Issued where
  cmd : Cmd
  choices : List Choice

/-- Run a command until it ends or is killed. The lock goes with the process. -/
def runCmd (H : Host) (w : World) (i : Issued) : World :=
  { (Prog.run (exec H 0) i.choices (i.cmd.process H, w)).2 with lock := none }

/-- Run commands one after the other. -/
def runAll (H : Host) : World → List Issued → World
  | w, [] => w
  | w, i :: rest => runAll H (runCmd H w i) rest

/-- A property of every command in the world it is issued in. -/
def Along (H : Host) (Q : Cmd → World → Prop) : World → List Issued → Prop
  | _, [] => True
  | w, i :: rest => Q i.cmd w ∧ Along H Q (runCmd H w i) rest

/-- No transaction yet. -/
def World.fresh (files : Path → Node) : World := ⟨files, [], none, []⟩

/-- `new` draws an id no directory has. -/
def Cmd.Fresh : Cmd → World → Prop
  | .new T _, w => w.txs.get? T = none
  | _, _ => True

/-- `apply` is not issued for a half-applied transaction. -/
def Cmd.Untouched : Cmd → World → Prop
  | .apply T _, w => dirty (w.past T) = false
  | _, _ => True

/-- What a commit must not do: whatever the environment decides, it ends in `TxRefused`
or `TxBusy` with production as it was. When a write fails, the exception may be that of
saving ABORTED. -/
def Refused (H : Host) (pid : Pid) (t : Tx) (w : World) : Prop :=
  ∀ ch : Nat → Choice,
    (Prog.complete (exec H pid) ch (commit H t) w).2.files = w.files ∧
    ∃ e, (Prog.complete (exec H pid) ch (commit H t) w).1.1 = .error e ∧
      (e = .busy ∨ e = .refused ∨ ∃ n, (ch n).fault ≠ .none)

/-- Half-applied transactions are not forgotten. -/
def Remembered (H : Host) (w : World) : Prop :=
  ∀ T, dirty (w.past T) = true →
    (∃ m, w.metaOf T = some m ∧ m.state.needsRecovery = true) ∧ (w.dir T).Saved ∧
    ∀ (pid : Pid) (t : Tx), t.txid ≠ T → Refused H pid t w

/-! ### One command -/

section Commands

variable {H : Host} {pid : Pid} {F U : Txid} {w : World} {α : Type}

/-- A command alone, judged for `F` without regard to edges. -/
abbrev commanding (H : Host) (pid : Pid) (F : Txid) : Setting Op Op.Answer Choice World :=
  Setting.solo (exec H pid) (fun _ => True) (Permit F True Edge)

/-- What is judged among others holds of a process alone. -/
theorem sat_commanding {R : Role} {post : α → World → Prop} {p : Proc α}
    (hallow : ∀ e c v, R.allow e c v) (h : Prog.Sat (process H pid F True R) post p w) :
    Prog.Sat (commanding H pid F) post p w := by
  refine h.weaken rfl (fun e c v _ => hallow e c v) ?_ (fun e v hp => hp.1.mono R.legal)
  intro v v' hv
  cases hv
  exact (process H pid F True R).rely_refl v

/-- `m` is what `meta.json` holds. -/
def Known (F U : Txid) (m : Meta) (w : World) : Prop :=
  Inv F True w ∧ (U = F → lastState (w.past F) = some m.state ∧ m.txid = F)

theorem carried_known (m : Meta) : Carried H pid F True (owner U F) (Known F U m) where
  inv := fun _ h => h.1
  stable := by
    intro w w' h hr
    refine ⟨hr.1 h.1, fun hU => ?_⟩
    rw [rely_past hr hU]
    exact h.2 hU
  locked := fun _ _ _ _ => Or.inl trivial

/-- Reading `meta.json` of the own transaction. -/
theorem sat_loadMeta_known (hinv : Inv F True w) :
    Prog.Sat (committer H pid F U True) (fun x v => ∀ m, x = some m → Known F U m v)
      (perform (.loadMeta U)) w := by
  refine Prog.sat_perform (fun v hv =>
    ⟨⟨trivial, fun _ => Or.inl trivial, writes_of_quiet rfl v⟩, fun c _ u hu => ?_⟩)
  intro m hm
  have hinv' := hv.1 hinv
  refine (carried_known m).stable v u ⟨hinv', ?_⟩ hu
  rintro rfl
  exact hinv'.faithful m hm

/-- `meta.json` may be written again with its state unchanged. -/
theorem meets_must_same {σ : Type} {m m' : Meta} {s : σ} (hstate : m'.state = m.state)
    (hid : m'.txid = m.txid) (h : Known F U m w) :
    Meets (committer H pid F U True) (must (perform (.storeMeta U m')) : MethodOf σ Unit) s w
      (fun _ _ _ => True) := by
  unfold must
  refine meets_call_bind (M := fun _ _ => True) ?_ (fun ok _ _ => ?_)
  · refine Prog.sat_perform (fun v hv => ⟨⟨?_, fun _ => Or.inl trivial,
      writes_owner (fun hw => by simpa [Op.writesFor] using hw)⟩, fun _ _ _ _ => trivial⟩)
    obtain ⟨hinv, hknown⟩ := (carried_known m).stable w v h hv
    intro hU
    obtain ⟨hlast, htx⟩ := hknown hU
    refine ⟨hid.trans htx, fun hd => ?_, fun hneeds => ?_, Or.inl trivial⟩
    · obtain ⟨s', hs', hneeds⟩ := hinv.tracked hd
      rw [hlast] at hs'
      cases hs'
      rw [hstate]
      exact Or.inl hneeds
    · rw [hstate] at hneeds
      obtain ⟨m'', -, -, hsaved⟩ := hinv.hot ⟨m.state, hlast, hneeds⟩
      exact hsaved
  · cases ok with
    | true => exact meets_ret (fun _ _ => trivial)
    | false => exact meets_raise (fun _ _ => trivial)

theorem meets_true_ret {S : Setting Op Op.Answer Choice World} {σ : Type} (a : α) (s : σ) :
    Meets S (ret a : MethodOf σ α) s w (fun _ _ _ => True) := meets_ret (fun _ _ => trivial)

/-- `new`, with a fresh id. -/
theorem meets_cliNew {mode : Mode} {s : Unit} (hinv : Inv F True w)
    (hfresh : w.txs.get? U = none) :
    Meets (committer H pid F U True) (cliNew H U mode) s w (fun _ _ _ => True) := by
  let J : World → Prop := fun v => Inv F True v ∧ (U = F → dirty (v.past F) = false)
  have hJ : Carried H pid F True (owner U F) J :=
    { inv := fun _ h => h.1
      stable := fun v v' h hr => ⟨hr.1 h.1, fun hU => by rw [rely_past hr hU]; exact h.2 hU⟩
      locked := fun _ _ _ _ => Or.inl trivial }
  have hclean : U = F → dirty (w.past F) = false := by
    rintro rfl
    by_contra hd
    obtain ⟨m, hm, -, -⟩ := hinv.hot (hinv.tracked (by simpa using hd))
    simp [World.metaOf, World.dir, hfresh] at hm
  have hA : ∀ _ : Unit, Carried H pid F True (owner U F) J := fun _ => hJ
  unfold cliNew
  refine meets_bind (M := fun _ _ v => J v) ?_ ?_ (fun _ _ _ _ => meets_raise (fun _ _ => trivial))
  · unfold must
    refine meets_call_bind (sat_op hJ (e := .makeTx U) (fun _ _ => trivial)
      (fun _ _ => writes_owner (fun hw => by simpa [Op.writesFor] using hw)) ?_ ⟨hinv, hclean⟩)
      (fun ok v hv => keeps_require hA ok _ s v hv)
    intro v c hv
    refine ⟨inv_exec (e := .makeTx U) trivial hv.1 c, fun hU => ?_⟩
    rw [exec_past rfl]
    exact hv.2 hU
  · intro _ s v hv
    unfold must
    refine meets_call_bind (M := fun _ _ => True) ?_ (fun ok _ _ => ?_)
    · refine Prog.sat_perform (fun u hu => ⟨⟨?_, fun _ => Or.inl trivial,
        writes_owner (fun hw => by simpa [Op.writesFor] using hw)⟩, fun _ _ _ _ => trivial⟩)
      obtain ⟨-, hd⟩ := hJ.stable v u hv hu
      intro hU
      refine ⟨hU, fun h => ?_, fun h => Bool.noConfusion h, Or.inl trivial⟩
      rw [hd hU] at h
      exact Bool.noConfusion h
    · cases ok with
      | true => exact meets_true_ret _ _
      | false => exact meets_raise (fun _ _ => trivial)

/-- Writing a candidate keeps what is known. -/
theorem keeps_storeCandidate {σ : Type} (m : Meta) (leaf : Leaf) (data : Option Bytes) :
    Keeps (committer H pid F U True) (fun _ v => Known F U m v)
      (storeCandidate U leaf data : MethodOf σ Unit) := by
  have hA : ∀ _ : σ, Carried H pid F True (owner U F) (Known F U m) := fun _ => carried_known m
  cases data with
  | none => exact keeps_ret (stable_of hA) ()
  | some bytes =>
      unfold storeCandidate must
      refine Keeps.bind (stable_of hA) ?_ (fun ok => keeps_require hA _ _)
      refine keeps_call (fun s v hv => ?_)
      have hperm : ∀ u : World, Permit F True Advance (.storeSub U .candidate leaf bytes) u :=
        fun u _ hsub => by cases hsub
      refine (sat_op (carried_known m) (fun u _ => hperm u)
        (fun _ _ => writes_owner (fun hw => by simpa [Op.writesFor] using hw)) ?_ hv).mono
        (fun _ x hx y hy => (carried_known m).stable _ _ hx hy)
      intro u c hu
      refine ⟨inv_exec (hperm u).edge hu.1 c, fun hU => ?_⟩
      rw [exec_past rfl]
      exact hu.2 hU

theorem meets_cliStage {name : Name} {data : Option Bytes} {expect : Expect} {s : Unit}
    (hinv : Inv F True w) :
    Meets (committer H pid F U True) (cliStage H U name data expect) s w (fun _ _ _ => True) := by
  unfold cliStage
  refine meets_call_bind (sat_loadMeta_known hinv) (fun x v hx => ?_)
  cases x with
  | none => exact meets_true_ret _ _
  | some m =>
      have hA : ∀ _ : Unit, Carried H pid F True (owner U F) (Known F U m) :=
        fun _ => carried_known m
      have herr : ∀ (e : Exn) (s : Unit) (v : World), Known F U m v →
          Meets (committer H pid F U True) (raise e : CallM Unit) s v (fun _ _ _ => True) :=
        fun _ _ _ _ => meets_raise (fun _ _ => trivial)
      dsimp only
      split
      · exact meets_true_ret _ _
      · refine meets_bind (keeps_resolveTarget hA name s v (hx m rfl)) ?_ herr
        intro r s v hv
        refine meets_bind (keeps_readTarget hA r.path s v hv) ?_ herr
        intro cur s v hv
        refine meets_bind (keeps_storeCandidate m _ data s v hv) ?_ herr
        intro _ s v hv
        exact meets_must_same (m := m) rfl rfl hv

theorem meets_cliService {a : Action} {s : Unit} (hinv : Inv F True w) :
    Meets (committer H pid F U True) (cliService U a) s w (fun _ _ _ => True) := by
  unfold cliService
  refine meets_call_bind (sat_loadMeta_known hinv) (fun x v hx => ?_)
  cases x with
  | none => exact meets_true_ret _ _
  | some m =>
      dsimp only
      split
      · exact meets_must_same (m := m) rfl rfl (hx m rfl)
      · exact meets_true_ret _ _

theorem meets_cliGuard {u : ServiceUnit} {want : Want} {s : Unit} (hinv : Inv F True w) :
    Meets (committer H pid F U True) (cliGuard U u want) s w (fun _ _ _ => True) := by
  unfold cliGuard
  refine meets_call_bind (sat_loadMeta_known hinv) (fun x v hx => ?_)
  cases x with
  | none => exact meets_true_ret _ _
  | some m =>
      dsimp only
      split
      · exact meets_true_ret _ _
      · exact meets_must_same (m := m) rfl rfl (hx m rfl)

/-! ### `apply` -/

/-- What `apply` does before the commit only reads. -/
theorem keeps_rebuildWatches {J : World → Prop} (hJ : Carried H pid F True (owner U F) J)
    (recs : List (Name × WatchRec)) :
    Keeps (committer H pid F U True) (fun (_ : Unit) v => J v) (rebuildWatches H recs) := by
  have hA : ∀ _ : Unit, Carried H pid F True (owner U F) J := fun _ => hJ
  induction recs with
  | nil => exact keeps_ret (stable_of hA) _
  | cons p rest ih =>
      unfold rebuildWatches
      refine Keeps.bind (stable_of hA) ?_ (fun x =>
        ih.bind (stable_of hA) (fun _ => keeps_ret (stable_of hA) _))
      unfold rebuildWatch
      refine (keeps_resolveTarget hA p.1).bind (stable_of hA) (fun r => ?_)
      refine (keeps_require hA _ _).bind (stable_of hA) (fun _ => ?_)
      refine (keeps_require hA _ _).bind (stable_of hA) (fun _ => ?_)
      exact (keeps_require hA _ _).bind (stable_of hA) (fun _ => keeps_ret (stable_of hA) _)

theorem keeps_loadCandidate {J : World → Prop} (hJ : Carried H pid F True (owner U F) J)
    (T : Txid) (s : Staged) :
    Keeps (committer H pid F U True) (fun (_ : Unit) v => J v) (loadCandidate T s) := by
  have hA : ∀ _ : Unit, Carried H pid F True (owner U F) J := fun _ => hJ
  unfold loadCandidate
  cases s.candidate with
  | none => exact keeps_ret (stable_of hA) _
  | some leaf =>
      refine (keeps_quiet hA (Prog.only_perform rfl)).bind (stable_of hA) (fun data => ?_)
      cases data with
      | none => exact keeps_raise (stable_of hA) _
      | some bytes => exact keeps_ret (stable_of hA) _

theorem keeps_reloadTargets {J : World → Prop} (hJ : Carried H pid F True (owner U F) J)
    (T : Txid) (staged : List Staged) (acc : Dict Name Target) :
    Keeps (committer H pid F U True) (fun (_ : Unit) v => J v) (reloadTargets H T staged acc) := by
  have hA : ∀ _ : Unit, Carried H pid F True (owner U F) J := fun _ => hJ
  induction staged generalizing acc with
  | nil => exact keeps_ret (stable_of hA) _
  | cons s rest ih =>
      unfold reloadTargets
      refine Keeps.bind (stable_of hA) ?_ (fun t => ih _)
      unfold reloadTarget
      refine (keeps_resolveTarget hA s.target).bind (stable_of hA) (fun r => ?_)
      refine (keeps_loadCandidate hJ T s).bind (stable_of hA) (fun data => ?_)
      exact (keeps_readTarget hA r.path).bind (stable_of hA) (fun _ => keeps_ret (stable_of hA) _)

/-- `apply`, once its `meta.json` is read. -/
theorem meets_applyRest {m : Meta} {s : Unit} (hinv : Inv F True w) (hid : m.txid = U)
    (hclean : U = F → dirty (w.past F) = false) :
    Meets (committer H pid F U True)
      ((rebuildWatches H m.watched).bind (fun watches =>
        (reloadTargets H U m.staged []).bind (fun targets =>
          (withTx (applyTx U m watches targets) (commit H)).bind (fun _ => ret ()))))
      s w (fun _ _ _ => True) := by
  have hJ : Carried H pid F True (owner U F) (Unstarted F U True .preparing) :=
    carried_unstarted .preparing
  have hraise : ∀ (e : Exn) (s : Unit) (v : World), Unstarted F U True .preparing v →
      Meets (committer H pid F U True) (raise e : CallM Unit) s v (fun _ _ _ => True) :=
    fun _ _ _ _ => meets_raise (fun _ _ => trivial)
  have hstart : Unstarted F U True .preparing w :=
    ⟨hinv, rfl, fun hU => ⟨hclean hU, Or.inl trivial⟩⟩
  refine meets_bind (keeps_rebuildWatches hJ m.watched s w hstart) ?_ hraise
  intro watches s v hv
  refine meets_bind (keeps_reloadTargets hJ U m.staged [] s v hv) ?_ hraise
  intro targets s v hv
  refine meets_bind (M := fun _ _ _ => True) ?_ (fun _ _ _ _ => meets_true_ret _ _)
    (fun _ _ _ _ => meets_raise (fun _ _ => trivial))
  refine Prog.Sat.seq (meets_commit (s := applyTx U m watches targets) ⟨rfl, hid, hv⟩ rfl) ?_
  exact fun _ _ _ _ _ => trivial

/-- `apply` of a transaction that is not half-applied. -/
theorem meets_cliApply {drift : Bool} {s : Unit} (hinv : Inv F True w)
    (hid : ∀ m, w.metaOf U = some m → m.txid = U)
    (hclean : U = F → dirty (w.past F) = false) :
    Meets (commanding H pid F) (cliApply H U drift) s w (fun _ _ _ => True) := by
  have hret : ∀ v, Meets (commanding H pid F) (ret () : CallM Unit) s v (fun _ _ _ => True) :=
    fun v => meets_true_ret _ _
  unfold cliApply
  refine meets_call_bind (M := fun x v => v = w ∧ x = w.metaOf U) ?_ ?_
  · refine Prog.sat_perform (fun v hv => ⟨trivial, fun c _ u hu => ?_⟩)
    cases hv
    cases hu
    exact ⟨rfl, rfl⟩
  · rintro x v ⟨rfl, hx⟩
    cases x with
    | none => exact hret _
    | some m =>
        dsimp only
        split
        · exact hret _
        · split
          · exact hret _
          · exact sat_commanding (fun _ _ _ => trivial)
              (meets_applyRest hinv (hid m hx.symm) hclean)

/-! ### Every command -/

/-- A command with a fresh id, if it draws one, and no `apply` of a half-applied transaction
performs only permitted operations. -/
theorem sat_process {c : Cmd} (hinv : ∀ V, Inv V True w) (hfresh : c.Fresh w)
    (huntouched : c.Untouched w) :
    Prog.Sat (commanding H pid F) (fun _ _ => True) (c.process H) w := by
  have hmain : Meets (commanding H pid F) (c.main H) () w (fun _ _ _ => True) := by
    cases c with
    | new T mode =>
        exact sat_commanding (fun _ _ _ => trivial) (meets_cliNew (hinv F) hfresh)
    | stage T name data expect =>
        exact sat_commanding (fun _ _ _ => trivial) (meets_cliStage (U := T) (hinv F))
    | service T a =>
        exact sat_commanding (fun _ _ _ => trivial) (meets_cliService (U := T) (hinv F))
    | guard T u want =>
        exact sat_commanding (fun _ _ _ => trivial) (meets_cliGuard (U := T) (hinv F))
    | apply T drift =>
        refine meets_cliApply (hinv F) (fun m hm => ((hinv T).faithful m hm).2) ?_
        rintro rfl
        exact huntouched
    | abort T =>
        exact sat_commanding (fun _ _ _ => Or.inl trivial)
          (@meets_cliAbort _ _ _ T _ True _ _ (hinv F))
    | recover T force =>
        refine sat_commanding (R := restorer True pid T F) (fun _ _ _ => Or.inl trivial) ?_
        refine meets_bind (@meets_recover _ _ _ T _ True _ _ _ (hinv F))
          (fun _ _ _ _ => meets_true_ret _ _) (fun _ _ _ _ => meets_raise (fun _ _ => trivial))
  exact Prog.Sat.seq hmain (fun _ _ _ _ _ => trivial)

/-- **One command** keeps the invariant of every transaction. -/
theorem inv_runCmd {i : Issued} (hinv : ∀ V, Inv V True w) (hfresh : i.cmd.Fresh w)
    (huntouched : i.cmd.Untouched w) (V : Txid) : Inv V True (runCmd H w i) := by
  have hend : Inv V True (Prog.run (exec H 0) i.choices (i.cmd.process H, w)).2 :=
    (@sat_process H 0 V _ _ hinv hfresh huntouched).run_invariant
      (fun e c v hp h => inv_exec hp h c) (hinv V) i.choices (fun _ _ => trivial)
  exact hend.congr_dir rfl rfl

/-- **A run** keeps the invariant of every transaction. -/
theorem inv_runAll (run : List Issued) (hinv : ∀ V, Inv V True w)
    (hrun : Along H (fun c v => c.Fresh v ∧ c.Untouched v) w run) (V : Txid) :
    Inv V True (runAll H w run) := by
  induction run generalizing w with
  | nil => exact hinv V
  | cons i rest ih =>
      obtain ⟨⟨hfresh, huntouched⟩, hrest⟩ := hrun
      exact ih (inv_runCmd hinv hfresh huntouched) hrest

theorem inv_fresh (files : Path → Node) (V : Txid) : Inv V True (World.fresh files) where
  faithful := by simp [World.metaOf, World.dir, World.fresh]
  hot := by simp [World.Pending, World.past, World.fresh, history, lastState]
  tracked := by simp [World.past, World.fresh, history, dirty]
  legal := Or.inl trivial

end Commands

/-! ### The commits of other transactions -/

section Refusal

variable {H : Host} {pid : Pid} {ok : Choice → Prop} {w : World} {t : Tx} {α σ : Type}

/-- A process alone, permitted to do everything but write production. -/
abbrev harmless (H : Host) (pid : Pid) (ok : Choice → Prop) : Setting Op Op.Answer Choice World :=
  Setting.solo (exec H pid) ok (fun e _ => e.touches = false)

/-- Exceptions with which a commit refuses, or reports a write that failed. -/
def Excused (ok : Choice → Prop) (e : Exn) : Prop :=
  e = .busy ∨ e = .refused ∨ ∃ c, ok c ∧ c.fault ≠ .none

/-- Production is as in `w`, and an exception is excused. -/
def Unharmed (ok : Choice → Prop) (w : World) (r : Except Exn α) (v : World) : Prop :=
  v.files = w.files ∧ ∀ e, r = .error e → Excused ok e

/-- A program that writes no production leaves it as it is. -/
theorem sat_harmless {v : World} {p : Proc α} (hp : p.Only (fun e => e.touches = false))
    (h : v.files = w.files) :
    Prog.Sat (harmless H pid ok) (fun _ u => u.files = w.files) p v := by
  refine Prog.Only.sat_keeps hp ?_ ?_ h
  · rintro a b ha rfl
    exact ha
  · exact fun e he a ha => ⟨he, fun c _ => (exec_files he c).trans ha⟩

theorem removing_harmless {T : Txid} {p : Proc α} (hp : Removing T p) :
    p.Only (fun e => e.touches = false) := by
  induction p with
  | ret a => trivial
  | op e k ih =>
      refine ⟨?_, fun r => ih r (hp.2 r)⟩
      rcases hp.1 with he | he
      · cases e <;> simp_all [Op.quiet, Op.touches]
      · cases e <;> simp_all [Op.removes, Op.touches]

theorem meets_saveMeta_unharmed {s : Tx} {v : World} (h : v.files = w.files) :
    Meets (harmless H pid ok) saveMeta s v (fun r _ u => Unharmed ok w r u) := by
  unfold saveMeta
  refine meets_assign_bind ?_
  refine meets_self_bind ?_
  unfold must
  refine meets_call_bind (M := fun done u => u.files = w.files ∧
    (done = false → ∃ c, ok c ∧ c.fault ≠ .none)) ?_ ?_
  · refine Prog.sat_perform (fun u hu => ⟨rfl, fun c hc x hx => ?_⟩)
    cases hu
    cases hx
    refine ⟨(exec_files (by rfl) c).trans h, fun hdone => ⟨c, hc, fun hnone => ?_⟩⟩
    have hdone' : (faulty c.fault v (v.writeMeta s.txid s.saved.metaJson)).1 = false := hdone
    rw [hnone] at hdone'
    exact Bool.noConfusion hdone'
  · rintro done u ⟨hu, hfault⟩
    cases done with
    | true =>
        refine meets_ret (fun x hx => ?_)
        cases hx
        exact ⟨hu, fun e he => by cases he⟩
    | false =>
        refine meets_raise (fun x hx => ?_)
        cases hx
        exact ⟨hu, fun e _ => Or.inr (Or.inr (hfault rfl))⟩

/-- Giving up writes `meta.json` and cleans up. -/
theorem meets_abortWith_unharmed {cls : String} {s : Tx} {v : World} (h : v.files = w.files) :
    Meets (harmless H pid ok) (abortWith cls) s v (fun r _ u => Unharmed ok w r u) := by
  have hret : ∀ (s : Tx) (v : World), v.files = w.files →
      Meets (harmless H pid ok) (ret () : TxM Unit) s v (fun r _ u => Unharmed ok w r u) := by
    intro s v hv
    refine meets_ret (fun u hu => ?_)
    cases hu
    exact ⟨hv, fun e he => by cases he⟩
  have hraise : ∀ (e : Exn) (s : Tx) (v : World), Unharmed ok w (.error e : Except Exn Unit) v →
      Meets (harmless H pid ok) (raise e : TxM Unit) s v (fun r _ u => Unharmed ok w r u) := by
    intro e s v hv
    refine meets_raise (fun u hu => ?_)
    cases hu
    exact hv
  unfold abortWith
  refine meets_self_bind ?_
  split
  case isFalse => exact hret _ _ h
  unfold noteError
  refine meets_assign_bind ?_
  refine meets_assign_bind ?_
  refine meets_bind (meets_saveMeta_unharmed h) ?_ hraise
  intro _ s v hv
  refine meets_bind (M := fun r _ u => u.files = w.files ∧ ∀ e, r ≠ .error e) ?_ ?_
    (fun e _ _ hu => absurd rfl (hu.2 e))
  · unfold cleanupMaterials
    refine meets_self_bind ?_
    split
    · refine meets_call ((sat_harmless ?_ hv.1).mono ?_)
      · exact Prog.Only.collect (fun sub => removing_harmless (removing_cleanupSub _ sub)) _
      · rintro _ u hu x rfl
        exact ⟨hu, fun e he => by cases he⟩
    · refine meets_ret (fun u hu => ?_)
      cases hu
      exact ⟨hv.1, fun e he => by cases he⟩
  · intro left s u hu
    unfold noteLeftovers
    split
    · exact hret _ _ hu.1
    · refine meets_tryCatch (meets_saveMeta_unharmed hu.1) ?_ (fun _ s x hx => hret _ _ hx.1)
      exact fun _ s x hx => hret _ _ hx.1

/-- The scan finds a transaction that needs recovery. -/
theorem sat_pendingOne {T d : Txid} {m : Meta} (hm : w.metaOf T = some m)
    (hneeds : m.state.needsRecovery = true) {exclude : Txid} (hne : m.txid ≠ exclude) :
    Prog.Sat (harmless H pid ok) (fun pend v => v = w ∧ (d = T → pend ≠ []))
      (pendingOne exclude d) w := by
  refine Prog.Sat.seq (M := fun x v => v = w ∧ x = w.metaOf d) ?_ ?_
  · refine Prog.sat_perform (fun v hv => ⟨rfl, fun c _ u hu => ?_⟩)
    cases hv
    cases hu
    exact ⟨rfl, rfl⟩
  · rintro x v ⟨rfl, rfl⟩
    cases hd : v.metaOf d with
    | none =>
        rintro u rfl
        refine ⟨rfl, ?_⟩
        rintro rfl
        rw [hm] at hd
        cases hd
    | some m' =>
        rintro u rfl
        refine ⟨rfl, ?_⟩
        rintro rfl
        rw [hm] at hd
        cases hd
        simp [hneeds, hne]

/-- The scan of all directories. -/
theorem sat_pendingAll {T : Txid} {m : Meta} (hm : w.metaOf T = some m)
    (hneeds : m.state.needsRecovery = true) {exclude : Txid} (hne : m.txid ≠ exclude)
    (names : List Txid) :
    Prog.Sat (harmless H pid ok) (fun pend v => v = w ∧ (T ∈ names → pend ≠ []))
      (Prog.collect (pendingOne exclude) names) w := by
  induction names with
  | nil =>
      rintro v rfl
      exact ⟨rfl, fun h => by cases h⟩
  | cons d rest ih =>
      refine Prog.Sat.seq (sat_pendingOne hm hneeds hne) ?_
      rintro ys v ⟨rfl, hys⟩
      refine Prog.Sat.seq ih ?_
      rintro zs v ⟨rfl, hzs⟩
      rintro u rfl
      refine ⟨rfl, fun hmem hnil => ?_⟩
      obtain ⟨hy, hz⟩ := List.append_eq_nil_iff.1 hnil
      rcases List.mem_cons.1 hmem with h | h
      · exact hys h.symm hy
      · exact hzs h hz

theorem sat_pendingRecovery {T : Txid} {m : Meta} (hm : w.metaOf T = some m)
    (hneeds : m.state.needsRecovery = true) {exclude : Txid} (hne : m.txid ≠ exclude) :
    Prog.Sat (harmless H pid ok) (fun pend v => v = w ∧ pend ≠ [])
      (pendingRecovery exclude) w := by
  have hmem : T ∈ w.txs.keys := by
    rw [← Dict.get?_isSome_iff]
    cases hd : w.txs.get? T with
    | some d => rfl
    | none => simp [World.metaOf, World.dir, hd] at hm
  refine Prog.Sat.seq (M := fun names v => v = w ∧ names = w.txs.keys) ?_ ?_
  · refine Prog.sat_perform (fun v hv => ⟨rfl, fun c _ u hu => ?_⟩)
    cases hv
    cases hu
    exact ⟨rfl, rfl⟩
  · rintro names v ⟨rfl, rfl⟩
    refine (sat_pendingAll hm hneeds hne _).mono ?_
    rintro pend v ⟨rfl, hpend⟩
    exact ⟨rfl, hpend hmem⟩

/-- With such a transaction around, the part under the lock refuses at once. -/
theorem meets_commitLocked_refused {T : Txid} {m : Meta} (hm : w.metaOf T = some m)
    (hneeds : m.state.needsRecovery = true) (hne : m.txid ≠ t.txid) :
    Meets (harmless H pid ok) (commitLocked H) t w
      (fun r s v => r = .error .refused ∧ s = t ∧ v = w) := by
  have herr : ∀ {β : Type} (e : Exn) (s : Tx) (v : World),
      (e = .refused ∧ s = t ∧ v = w) → Meets (harmless H pid ok) (raise e : TxM β) s v
        (fun r s v => r = .error .refused ∧ s = t ∧ v = w) := by
    rintro β e s v ⟨rfl, rfl, rfl⟩
    refine meets_raise (fun u hu => ?_)
    cases hu
    exact ⟨rfl, rfl, rfl⟩
  have hpend : Meets (harmless H pid ok) checkPending t w
      (fun r s v => r = .error .refused ∧ s = t ∧ v = w) := by
    unfold checkPending
    refine meets_self_bind ?_
    refine meets_call_bind (sat_pendingRecovery hm hneeds hne) ?_
    rintro pend v ⟨rfl, hpend⟩
    have hempty : pend.isEmpty = false := by
      cases pend with
      | nil => exact absurd rfl hpend
      | cons x xs => rfl
    rw [hempty]
    exact herr _ _ _ ⟨rfl, rfl, rfl⟩
  have hpre : Meets (harmless H pid ok) (preflight H) t w
      (fun r s v => r = .error .refused ∧ s = t ∧ v = w) := by
    refine meets_bind hpend (fun _ _ _ h => by cases h.1) (fun e s v h => ?_)
    obtain ⟨he, hrest⟩ := h
    cases he
    exact herr _ _ _ ⟨rfl, hrest⟩
  refine meets_bind hpre (fun _ _ _ h => by cases h.1) (fun e s v h => ?_)
  obtain ⟨he, hrest⟩ := h
  cases he
  exact herr _ _ _ ⟨rfl, hrest⟩

/-- A commit that finds another transaction in need of recovery ends in an excused exception
and leaves production alone. -/
theorem meets_commit_refused {T : Txid} {m : Meta} (hm : w.metaOf T = some m)
    (hneeds : m.state.needsRecovery = true) (hne : m.txid ≠ t.txid) :
    Meets (harmless H pid ok) (commit H) t w
      (fun r _ v => v.files = w.files ∧ ∃ e, r = .error e ∧ Excused ok e) := by
  have hraise : ∀ {β : Type} (e : Exn) (s : Tx) (v : World), v.files = w.files → Excused ok e →
      Meets (harmless H pid ok) (raise e : TxM β) s v
        (fun r _ v => v.files = w.files ∧ ∃ e, r = .error e ∧ Excused ok e) := by
    intro β e s v hv he
    refine meets_raise (fun u hu => ?_)
    cases hu
    exact ⟨hv, e, rfl, he⟩
  have hfail : ∀ (cls : String) (e : Exn) (s : Tx) (v : World), v.files = w.files →
      Excused ok e → Meets (harmless H pid ok) ((abortWith cls).bind (fun _ => raise e) : TxM State)
        s v (fun r _ v => v.files = w.files ∧ ∃ e, r = .error e ∧ Excused ok e) :=
    fun cls e s v hv he => meets_bind (meets_abortWith_unharmed hv)
      (fun _ s u hu => hraise e s u hu.1 he) (fun e' s u hu => hraise e' s u hu.1 (hu.2 e' rfl))
  unfold commit
  refine meets_tryCatch (M := fun r _ v => v.files = w.files ∧
    (r = .error .busy ∨ r = .error .refused)) ?_ ?_ ?_
  · unfold withLock
    refine meets_call_bind (M := fun _ v => v.files = w.files ∧ v.metaOf T = some m) ?_ ?_
    · refine Prog.sat_perform (fun v hv => ⟨rfl, fun c _ u hu => ?_⟩)
      cases hv
      cases hu
      have hdir := (@exec_other T w H pid .lock rfl c).1
      refine ⟨exec_files rfl c, ?_⟩
      show (World.dir (exec H pid .lock c w).2 T).metaJson = some m
      rw [hdir]
      exact hm
    · rintro a v ⟨hv, hmv⟩
      have hstop : ∀ (e : Exn) (s : Tx) (u : World), u.files = w.files →
          (e = .busy ∨ e = .refused) → Meets (harmless H pid ok) (raise e : TxM State) s u
            (fun r _ x => x.files = w.files ∧ (r = .error .busy ∨ r = .error .refused)) := by
        intro e s u hu he
        refine meets_raise (fun x hx => ?_)
        cases hx
        exact ⟨hu, he.imp (fun h => by rw [h]) (fun h => by rw [h])⟩
      cases a with
      | unusable => exact hstop _ _ _ hv (Or.inr rfl)
      | busy => exact hstop _ _ _ hv (Or.inl rfl)
      | acquired =>
          -- the check for pending recoveries finds `T` and refuses
          refine meets_outcome (meets_commitLocked_refused hmv hneeds hne) ?_
          rintro r s u ⟨rfl, rfl, rfl⟩
          refine meets_call_bind (M := fun _ x => x.files = w.files) ?_
            (fun _ x hx => hstop _ _ _ hx (Or.inr rfl))
          refine Prog.sat_perform (fun x hx => ⟨rfl, fun c _ y hy => ?_⟩)
          cases hx
          cases hy
          exact (@exec_files _ H pid _ rfl c).trans hv
  · rintro a s v ⟨-, h | h⟩ <;> cases h
  · rintro e s v ⟨hv, h | h⟩
    · cases h
      exact hfail _ _ s v hv (Or.inl rfl)
    · cases h
      exact hfail _ _ s v hv (Or.inr (Or.inl rfl))

/-- Where the invariant holds nothing half-applied is forgotten. -/
theorem remembered_of_inv (hinv : ∀ V, Inv V True w) : Remembered H w := by
  intro T hdirty
  obtain ⟨m, hm, hneeds, hsaved⟩ := (hinv T).hot ((hinv T).tracked hdirty)
  refine ⟨⟨m, hm, hneeds⟩, hsaved, fun pid t ht ch => ?_⟩
  have hne : m.txid ≠ t.txid := by
    rw [((hinv T).faithful m hm).2]
    exact ht.symm
  have hmeets : Meets (harmless H pid (fun c => ∃ n, ch n = c)) (commit H) t w
      (fun r _ v => v.files = w.files ∧ ∃ e, r = .error e ∧ Excused (fun c => ∃ n, ch n = c) e) :=
    meets_commit_refused hm hneeds hne
  obtain ⟨hfiles, e, he, hexc⟩ := hmeets.complete ch (fun n => ⟨n, rfl⟩)
  refine ⟨hfiles, e, he, ?_⟩
  rcases hexc with h | h | ⟨c, ⟨n, rfl⟩, hfault⟩
  · exact Or.inl h
  · exact Or.inr (Or.inl h)
  · exact Or.inr (Or.inr ⟨n, hfault⟩)

end Refusal

/-! ### Runs -/

/-- **Half-applied transactions are not forgotten**, in any run in which `new` draws fresh ids
and `apply` is never issued for a half-applied transaction. -/
theorem remembered_runAll (H : Host) (files : Path → Node) (run : List Issued)
    (hrun : Along H (fun c w => c.Fresh w ∧ c.Untouched w) (World.fresh files) run) :
    Remembered H (runAll H (World.fresh files) run) :=
  remembered_of_inv (fun V => inv_runAll run (inv_fresh files) hrun V)

/-- Two targets are staged, and `apply` is killed after it has replaced one of them. -/
def killedApply : List Issued :=
  [⟨.new "T" .normal, List.replicate 10 {}⟩,
   ⟨.stage "T" "dot_marker" (some [1]) .omitted, List.replicate 10 {}⟩,
   ⟨.stage "T" "unit:a.service" (some [2]) .omitted, List.replicate 10 {}⟩,
   ⟨.apply "T" false, List.replicate 24 {}⟩]

theorem killedApply_remembered :
    dirty ((runAll Host.plain (World.fresh (fun _ => .absent)) killedApply).past "T") = true ∧
      Remembered Host.plain (runAll Host.plain (World.fresh (fun _ => .absent)) killedApply) :=
  ⟨by decide +kernel, remembered_runAll Host.plain (fun _ => .absent) killedApply
    ⟨⟨rfl, trivial⟩, ⟨trivial, trivial⟩, ⟨trivial, trivial⟩,
      ⟨trivial, by unfold Cmd.Untouched; decide +kernel⟩, trivial⟩⟩

/-- Without the condition on `apply`, a transaction is forgotten: `apply` issued again leaves
it half-applied and ABORTED. -/
theorem apply_again_forgets :
    ¬ ∀ (H : Host) (files : Path → Node) (run : List Issued),
      Along H Cmd.Fresh (World.fresh files) run → Remembered H (runAll H (World.fresh files) run) := by
  intro h
  let appliedAgain := killedApply ++ [⟨.apply "T" false, List.replicate 60 {}⟩]
  have hfresh : Along Host.plain Cmd.Fresh (World.fresh (fun _ => .absent)) appliedAgain :=
    ⟨rfl, trivial, trivial, trivial, trivial, trivial⟩
  have hdirty : dirty
      ((runAll Host.plain (World.fresh (fun _ => .absent)) appliedAgain).past "T") = true := by
    decide +kernel
  have haborted :
      (runAll Host.plain (World.fresh (fun _ => .absent)) appliedAgain).stateOf "T" =
        some .aborted := by
    decide +kernel
  obtain ⟨⟨m, hm, hneeds⟩, -, -⟩ := h _ _ _ hfresh "T" hdirty
  rw [World.stateOf, hm] at haborted
  cases m with
  | mk =>
    cases haborted
    exact Bool.noConfusion hneeds

end ProxyGateway.Pdgtx
