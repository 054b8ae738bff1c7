import ProxyGateway.Pdgtx.CommitSafe
import ProxyGateway.Pdgtx.RecoverSafe

set_option autoImplicit false

/-!
# ProxyGateway.Pdgtx.Interleaving

One transaction `T` under concurrency: its commit, any number of `recover` and `abort`
processes for it, and commits of other transactions, one operation at a time in any
order, every process liable to be killed.

`recover` and `abort` decide on a `meta.json` they have read before anything keeps it
from changing. When `recover` gets the lock after the commit has finished, it takes a
committed file away again (`late_recover_undoes`). Finished transactions stay finished,
and edges are respected, in every interleaving that is `Timely`: `recover` gets the lock
while `T` still needs recovery, and `abort` writes while `T` is unstarted and its commit
is not running (`finished_stays_finished`).
-/

namespace ProxyGateway.Pdgtx

open Method

/-- What a process does. -/
inductive Job where
  | commit (t : Tx)
  | recover
  | abort

/-- The process of a job, for the transaction `T`. -/
def Job.process (H : Host) (T : Txid) : Job → Proc Unit
  | .commit t => (Pdgtx.commit H t).bind (fun _ => .ret ())
  | .recover => (Pdgtx.recover H T false ()).bind (fun _ => .ret ())
  | .abort => (cliAbort T ()).bind (fun _ => .ret ())

/-- All processes, and the world they share. -/
abbrev Conf := (Pid → Proc Unit) × World

/-- The processes before their first operation. -/
def startAll (H : Host) (T : Txid) (jobs : Pid → Option Job) (i : Pid) : Proc Unit :=
  match jobs i with
  | some job => job.process H T
  | none => .ret ()

/-- A process is killed; its lock is released. -/
def kill (i : Pid) (s : Conf) : Conf :=
  (Function.update s.1 i (.ret ()),
    { s.2 with lock := if s.2.lock = some i then none else s.2.lock })

/-- The configurations reached by steps that satisfy `Q`, and by kills. -/
inductive Reach (H : Host) (T : Txid) (jobs : Pid → Option Job) (w : World)
    (Q : Pid → Choice → Conf → Prop) : Conf → Prop where
  | start : Reach H T jobs w Q (startAll H T jobs, w)
  | step {s : Conf} (i : Pid) (c : Choice) (h : Reach H T jobs w Q s) (hq : Q i c s) :
      Reach H T jobs w Q (Pool.step (exec H) i c s)
  | kill {s : Conf} (i : Pid) (h : Reach H T jobs w Q s) : Reach H T jobs w Q (kill i s)

/-- `T` is assembled and saved, and each commit works on an object of its own that was
just assembled; only one of them works on `T`. -/
structure Ready (T : Txid) (jobs : Pid → Option Job) (w : World) : Prop where
  saved : ∃ m, w.metaOf T = some m ∧ m.txid = T ∧ m.state = .preparing
  begun : w.past T ≠ []
  unstarted : ∀ e ∈ w.past T, e = .wrote T .preparing
  commits : ∀ i t, jobs i = some (.commit t) → t.state = .preparing ∧ t.metaJson.txid = t.txid
  single : ∀ i j t u, jobs i = some (.commit t) → jobs j = some (.commit u) →
    t.txid = T → u.txid = T → i = j

/-- No commit of `T` is running. -/
def Over (T : Txid) (jobs : Pid → Option Job) (ps : Pid → Proc Unit) : Prop :=
  ∀ j t, jobs j = some (.commit t) → t.txid = T → ps j = .ret ()

/-- The next step of `recover` does not get the lock of a transaction that no longer needs
recovery, and that of `abort` does not write unless the transaction is unstarted and its
commit is not running. -/
def Timely (T : Txid) (jobs : Pid → Option Job) (i : Pid) (c : Choice) (s : Conf) : Prop :=
  ∀ e k, s.1 i = .op e k → match jobs i with
    | some .recover => e = .lock → c.yes = true → s.2.lock = none → s.2.Pending T
    | some .abort => ∀ m, e = .storeMeta T m →
        (∃ st, lastState (s.2.past T) = some st ∧ st.unstarted = true) ∧ Over T jobs s.1
    | _ => True

/-- The edges a job may take. -/
def Job.edges : Option Job → State → State → Prop
  | some .recover => Edge
  | _ => Advance

/-- Nothing was rewritten on behalf of `T` since its end, and every state written follows
the edges of `_ALLOWED`, those of `recover` included. -/
def Respected (T : Txid) (jobs : Pid → Option Job) (Q : Pid → Choice → Conf → Prop)
    (s : Conf) : Prop :=
  Legal (s.2.past T) ∧ ∀ i c m k, Q i c s → s.1 i = .op (.storeMeta T m) k →
    ∀ st, lastState (s.2.past T) = some st → Job.edges (jobs i) st m.state

/-! ### The judgement of each process -/

section Pool

variable {H : Host} {T : Txid} {jobs : Pid → Option Job} {w : World}

/-- A process that does nothing. -/
def idle : Role where
  own := fun _ => False
  locks := fun _ => False
  allow := fun _ _ _ => True
  edges := Advance
  legal := fun _ _ => Advance.edge
  writes := fun _ _ => False

/-- The role of a process. -/
def roleOf (T : Txid) (jobs : Pid → Option Job) (i : Pid) : Role :=
  match jobs i with
  | some (.commit t) => owner t.txid T
  | some .recover => restorer False i T T
  | some .abort => aborter False T T
  | none => idle

/-- The setting of a process. -/
abbrev settingOf (H : Host) (T : Txid) (jobs : Pid → Option Job) (i : Pid) :
    Setting Op Op.Answer Choice World :=
  process H i T False (roleOf T jobs i)

theorem Ready.lastState (h : Ready T jobs w) : lastState (w.past T) = some .preparing := by
  cases hp : w.past T with
  | nil => exact absurd hp h.begun
  | cons e l =>
      rw [h.unstarted e (by simp [hp])]
      rfl

theorem dirty_of_unstarted {l : List Event} (h : ∀ e ∈ l, e = .wrote T .preparing) :
    dirty l = false ∧ Legal l := by
  induction l with
  | nil => exact ⟨rfl, trivial⟩
  | cons e l ih =>
      obtain ⟨hd, hl⟩ := ih (fun x hx => h x (by simp [hx]))
      rw [h e (by simp)]
      refine ⟨by simpa [dirty] using hd, ?_, hl⟩
      intro s hs
      cases l with
      | nil => cases hs
      | cons e' l' =>
          rw [h e' (by simp)] at hs
          cases hs
          exact (Advance.refl _).edge

theorem Ready.inv (h : Ready T jobs w) : Inv T False w := by
  obtain ⟨hd, hl⟩ := dirty_of_unstarted h.unstarted
  obtain ⟨m, hm, hid, hst⟩ := h.saved
  have hpend : ¬ w.Pending T := not_pending_of_last h.lastState rfl
  refine ⟨?_, fun hp => absurd hp hpend, ?_, Or.inr hl⟩
  · intro m' hm'
    rw [hm] at hm'
    cases hm'
    exact ⟨by rw [h.lastState, hst], hid⟩
  · intro hdirty
    rw [hd] at hdirty
    exact Bool.noConfusion hdirty

/-- At the start every process is judged. -/
theorem Ready.sat (h : Ready T jobs w) (i : Pid) :
    Prog.Sat (settingOf H T jobs i) (fun _ _ => True) (startAll H T jobs i) w := by
  unfold settingOf roleOf startAll
  cases hj : jobs i with
  | none => exact fun _ _ => trivial
  | some job =>
      cases job with
      | commit t =>
          obtain ⟨hst, hid⟩ := h.commits i t hj
          have huns : Unstarted T t.txid False t.state w := by
            refine ⟨h.inv, by rw [hst]; rfl, fun _ => ?_⟩
            rw [hst]
            exact ⟨(dirty_of_unstarted h.unstarted).1, Or.inr h.lastState⟩
          exact Prog.Sat.seq (meets_commit ⟨rfl, hid, huns⟩ hst) (fun _ _ _ _ _ => trivial)
      | recover =>
          exact Prog.Sat.seq (@meets_recover _ _ _ _ _ False _ _ _ h.inv) (fun _ _ _ _ _ => trivial)
      | abort =>
          exact Prog.Sat.seq (@meets_cliAbort _ _ _ _ _ False _ _ h.inv) (fun _ _ _ _ _ => trivial)

/-! ### One step -/

/-- Who writes nothing for `T`, or only removes, leaves its past alone, and its directory
unless it is settled. -/
theorem frame_of_removes {pid : Pid} {E : State → State → Prop} {e : Op}
    (hp : Permit T False E e w) (h : e.writesFor T = true → e.removes T = true) (c : Choice) :
    (exec H pid e c w).2.past T = w.past T ∧
      (¬ w.Settled T → (exec H pid e c w).2.dir T = w.dir T) := by
  by_cases hw : e.writesFor T = true
  · have hrem := h hw
    refine ⟨by rw [World.past, (exec_removes hrem c w).1, World.past], fun hn => absurd ?_ hn⟩
    cases e with
    | unlinkSub U s leaf | unlinkIndex U | rmdirSub U s | unlinkMeta U | rmdirTx U =>
        exact hp (by simpa [Op.removes] using hrem)
    | _ => simp [Op.removes] at hrem
  · obtain ⟨hdir, hpast⟩ := @exec_other _ _ H pid _ (Op.writesFor_eq_false hw) c
    exact ⟨hpast, fun _ => hdir⟩

/-- **The processes do not disturb each other**: while `j` depends on `T`, a timely step of
another process writes nothing for `T`. -/
theorem not_writes {ps : Pid → Proc Unit} {i j : Pid} {c : Choice} {e : Op}
    {k : e.Answer → Proc Unit} {post : Pid → Unit → World → Prop}
    (hsingle : ∀ i j t u, jobs i = some (.commit t) → jobs j = some (.commit u) →
      t.txid = T → u.txid = T → i = j)
    (hij : j ≠ i) (hstep : ps i = .op e k) (htimely : Timely T jobs i c (ps, w))
    (hlive : ps j ≠ .ret ()) (hsat : ∀ x, Prog.Sat (settingOf H T jobs x) (post x) (ps x) w)
    (hown : (roleOf T jobs j).own w) : ¬ (roleOf T jobs i).writes e w := by
  intro hwrites
  -- a commit of `T` that is still running holds the lock while `T` needs recovery
  have hholds : ∀ x t, jobs x = some (.commit t) → t.txid = T → ps x ≠ .ret () →
      w.Pending T → w.lock = some x := by
    intro x t hx ht hrun hpend
    cases hp : ps x with
    | ret u => exact absurd hp hrun
    | op e' k' =>
        have hx' := hsat x
        rw [hp] at hx'
        have hpx := hx'.permit (c := c) (by simp [settingOf, process, roleOf, hx, owner])
        refine (hpx.2.1 ?_).resolve_left id hpend
        simpa [roleOf, hx, owner] using ht
  have hmove := htimely e k hstep
  have hrun : ps i ≠ .ret () := by
    rw [hstep]
    exact fun h => by cases h
  cases hj : jobs j with
  | none => simp [roleOf, hj, idle] at hown
  | some job =>
    cases job with
    | abort => simp [roleOf, hj, aborter] at hown
    | commit t =>
        have ht : t.txid = T := by simpa [roleOf, hj, owner] using hown
        cases hi : jobs i with
        | none => simp [roleOf, hi, idle] at hwrites
        | some job' =>
          cases job' with
          | commit u =>
              have hu : u.txid = T := by simpa [roleOf, hi, owner] using hwrites
              exact hij (hsingle j i t u hj hi ht hu)
          | recover =>
              obtain ⟨-, h | ⟨hlock, hpend⟩⟩ : T = T ∧ (False ∨ (w.lock = some i ∧ w.Pending T)) := by
                simpa [roleOf, hi, restorer] using hwrites
              · exact h
              · rw [hholds j t hj ht hlive hpend] at hlock
                exact hij (Option.some.inj hlock)
          | abort =>
              obtain ⟨-, m, hm⟩ : T = T ∧ ∃ m, e = .storeMeta T m := by
                simpa [roleOf, hi, aborter] using hwrites
              rw [hi] at hmove
              exact hlive ((hmove m hm).2 j t hj ht)
    | recover =>
        obtain ⟨-, h | ⟨hlock, hpend⟩⟩ : T = T ∧ (False ∨ (w.lock = some j ∧ w.Pending T)) := by
          simpa [roleOf, hj, restorer] using hown
        · exact h
        cases hi : jobs i with
        | none => simp [roleOf, hi, idle] at hwrites
        | some job' =>
          cases job' with
          | commit u =>
              have hu : u.txid = T := by simpa [roleOf, hi, owner] using hwrites
              rw [hholds i u hi hu hrun hpend] at hlock
              exact hij (Option.some.inj hlock).symm
          | recover =>
              obtain ⟨-, h | ⟨hlock', -⟩⟩ : T = T ∧ (False ∨ (w.lock = some i ∧ w.Pending T)) := by
                simpa [roleOf, hi, restorer] using hwrites
              · exact h
              · rw [hlock'] at hlock
                exact hij (Option.some.inj hlock).symm
          | abort =>
              obtain ⟨-, m, hm⟩ : T = T ∧ ∃ m, e = .storeMeta T m := by
                simpa [roleOf, hi, aborter] using hwrites
              rw [hi] at hmove
              obtain ⟨⟨st, hst, huns⟩, -⟩ := hmove m hm
              exact not_pending_of_last hst (State.not_needsRecovery_of_unstarted huns) hpend

/-- What a process depends on is still there when nothing was written for `T`. -/
theorem own_of_frame {j : Pid} {w' : World} (hown : (roleOf T jobs j).own w)
    (hpast : w'.past T = w.past T) (hlock : w.lock = some j → w'.lock = some j) :
    (roleOf T jobs j).own w' := by
  cases hj : jobs j with
  | none => simp [roleOf, hj, idle] at hown
  | some job =>
    cases job with
    | commit t => simpa [roleOf, hj, owner] using hown
    | abort => simp [roleOf, hj, aborter] at hown
    | recover =>
        obtain ⟨-, h | ⟨hl, hpend⟩⟩ : T = T ∧ (False ∨ (w.lock = some j ∧ w.Pending T)) := by
          simpa [roleOf, hj, restorer] using hown
        · exact h.elim
        · simpa [roleOf, hj, restorer, World.Pending, hpast] using ⟨hlock hl, hpend⟩

/-- A timely step is one the others rely on. -/
theorem sat_others {ps : Pid → Proc Unit} {i j : Pid} {c : Choice} {e : Op}
    {k : e.Answer → Proc Unit}
    (hsingle : ∀ i j t u, jobs i = some (.commit t) → jobs j = some (.commit u) →
      t.txid = T → u.txid = T → i = j)
    (hij : j ≠ i) (hstep : ps i = .op e k) (htimely : Timely T jobs i c (ps, w))
    (hsat : ∀ x, Prog.Sat (settingOf H T jobs x) (fun _ _ => True) (ps x) w)
    (hperm : (settingOf H T jobs i).permit e w) :
    Prog.Sat (settingOf H T jobs j) (fun _ _ => True) (ps j) (exec H i e c w).2 := by
  by_cases hlive : ps j = .ret ()
  · rw [hlive]
    exact fun _ _ => trivial
  · have hp := hperm.1.mono (roleOf T jobs i).legal
    refine (hsat j).stable ⟨fun h => inv_exec hp h c, fun h => exec_lock_other hij h c,
      fun h => settled_exec hp h c, fun hown => ?_⟩
    have hnot := not_writes hsingle hij hstep htimely hlive hsat hown
    obtain ⟨hpast, hdir⟩ := @frame_of_removes H _ _ i _ _ hp
      (fun hw => (hperm.2.2 hw).resolve_right hnot) c
    exact ⟨own_of_frame hown hpast (fun h => exec_lock_other hij h c), hpast, hdir⟩

/-- A timely step is one the judgement considers. -/
theorem allow_of_timely {i : Pid} {c : Choice} {s : Conf} (h : Timely T jobs i c s) :
    ∀ e k, s.1 i = .op e k → (settingOf H T jobs i).allow e c s.2 := by
  intro e k hstep
  have hmove := h e k hstep
  unfold settingOf process roleOf
  cases hi : jobs i with
  | none => trivial
  | some job =>
    rw [hi] at hmove
    cases job with
    | commit t => trivial
    | recover => exact Or.inr (fun _ => hmove)
    | abort => exact Or.inr (fun _ m hm => (hmove m hm).1)

/-! ### Runs -/

/-- **Every reachable configuration**: the invariant of `T` holds, and every process is
judged. -/
theorem reach_inv {s : Conf} (hready : Ready T jobs w) (h : Reach H T jobs w (Timely T jobs) s) :
    Inv T False s.2 ∧
      ∀ j, Prog.Sat (settingOf H T jobs j) (fun _ _ => True) (s.1 j) s.2 := by
  induction h with
  | start => exact ⟨hready.inv, hready.sat⟩
  | @step s i c h hq ih =>
      obtain ⟨hinv, hsat⟩ := ih
      refine ⟨?_, Pool.sat_step hsat (allow_of_timely hq) ?_⟩
      · cases hp : s.1 i with
        | ret u =>
            have hsame : (Pool.step (exec H) i c s).2 = s.2 := by
              simp [Pool.step, hp, Prog.step]
            rw [hsame]
            exact hinv
        | op e k =>
            have hi := hsat i
            rw [hp] at hi
            have hperm := (hi.permit (allow_of_timely hq e k hp)).1
            have hworld : (Pool.step (exec H) i c s).2 = (exec H i e c s.2).2 := by
              simp [Pool.step, hp, Prog.step]
            rw [hworld]
            exact inv_exec (hperm.mono (roleOf T jobs i).legal) hinv c
      · exact fun j hij e k hp hperm => sat_others hready.single hij hp hq hsat hperm
  | @kill s i h ih =>
      obtain ⟨hinv, hsat⟩ := ih
      have hdir : (kill i s).2.dir T = s.2.dir T := rfl
      refine ⟨hinv.congr_dir hdir rfl, fun j => ?_⟩
      by_cases hij : j = i
      · subst hij
        simp only [kill, Function.update_self]
        exact fun _ _ => trivial
      · simp only [kill, Function.update_of_ne hij]
        have hlock : s.2.lock = some j → (kill i s).2.lock = some j := by
          intro hl
          have hne : ¬ some j = some i := fun h => hij (Option.some.inj h)
          simp [kill, hl, hne]
        exact (hsat j).stable ⟨fun h => h.congr_dir hdir rfl, hlock, id,
          fun hown => ⟨own_of_frame hown rfl hlock, rfl, fun _ => rfl⟩⟩

/-- A write of `meta.json` that a process is about to make follows the edges of its job. -/
theorem edges_of_sat {s : Conf} {i : Pid} {c : Choice} {m : Meta} {k : Done → Proc Unit}
    (hsat : Prog.Sat (settingOf H T jobs i) (fun _ _ => True) (s.1 i) s.2)
    (hq : Timely T jobs i c s) (hp : s.1 i = .op (.storeMeta T m) k) {st : State}
    (hst : lastState (s.2.past T) = some st) : Job.edges (jobs i) st m.state := by
  have hallow := allow_of_timely (H := H) hq (.storeMeta T m) k hp
  rw [hp] at hsat
  have hedge := ((hsat.permit hallow).1 rfl).2.2.2.resolve_left id st hst
  cases hi : jobs i with
  | none => simpa [roleOf, hi, idle, Job.edges] using hedge
  | some job =>
    cases job with
    | commit t => simpa [roleOf, hi, owner, Job.edges] using hedge
    | recover => simpa [roleOf, hi, restorer, Job.edges] using hedge
    | abort => simpa [roleOf, hi, aborter, Job.edges] using hedge

end Pool

/-! ### A late `recover` -/

/-- Let the listed processes take one step each, in this order, with no fault. -/
def runSteps (H : Host) (steps : List Pid) (s : Conf) : Conf :=
  steps.foldl (fun s i => Pool.step (exec H) i {} s) s

theorem reach_runSteps {H : Host} {T : Txid} {jobs : Pid → Option Job} {w : World}
    {Q : Pid → Choice → Conf → Prop} (steps : List Pid) {s : Conf}
    (hQ : ∀ i ∈ steps, ∀ s, Q i {} s) (h : Reach H T jobs w Q s) :
    Reach H T jobs w Q (runSteps H steps s) := by
  induction steps generalizing s with
  | nil => exact h
  | cons i rest ih =>
      exact ih (fun x hx => hQ x (by simp [hx])) (h.step i {} (hQ i (by simp) s))

/-- A transaction that creates one file. -/
def createsUnit : Tx where
  txid := "T"
  mode := .normal
  targets := [("unit:a.service",
    { path := "/etc/systemd/system/a.service", mode := 0o644, validators := [], data := some [2],
      candidate := some "00-unit_a.service", expect := none, existed := false })]
  metaJson := { txid := "T", schemaVersion := schemaVersion, runnerSha256 := "runner",
                mode := .normal, state := .preparing }

/-- The world in which it has been assembled. -/
def assembled : World :=
  World.writeMeta ⟨fun _ => .absent, [("T", { candidate := some [], before := some [] })], none, []⟩
    "T" createsUnit.metaJson

/-- Process 1 commits it, process 2 recovers it. -/
def commitAndRecover : Pid → Option Job
  | 1 => some (.commit createsUnit)
  | 2 => some .recover
  | _ => none

theorem ready_assembled : Ready "T" commitAndRecover assembled where
  saved := ⟨createsUnit.metaJson, by decide, rfl, rfl⟩
  begun := by decide
  unstarted := by decide
  commits := by
    intro i t hi
    unfold commitAndRecover at hi
    split at hi <;> cases hi
    exact ⟨rfl, rfl⟩
  single := by
    intro i j t u hi hj _ _
    unfold commitAndRecover at hi hj
    split at hi <;> cases hi
    split at hj <;> cases hj
    rfl

/-- What was touched last was not settled. -/
theorem Legal.not_settled {l : List Event} {T : Txid} {p : Path} {st : State} (h : Legal l)
    (hhead : l.head? = some (.touched T p)) (hlast : lastState l = some st) :
    st.gcTerminal = false := by
  cases l with
  | nil => cases hhead
  | cons e l =>
      cases hhead
      exact h.1 st hlast

/-- `recover` reads `meta.json` and the index while the commit is at work, and gets the lock
when that is done. -/
def lateRecover : Conf :=
  runSteps Host.plain
    (List.replicate 12 1 ++ List.replicate 2 2 ++ List.replicate 40 1 ++ List.replicate 3 2)
    (startAll Host.plain "T" commitAndRecover, assembled)

end ProxyGateway.Pdgtx
