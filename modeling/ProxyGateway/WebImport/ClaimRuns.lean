import ProxyGateway.WebImport.ClaimSafe

set_option autoImplicit false

/-!
# ProxyGateway.WebImport.ClaimRuns

Any number of processes on the staging directory, each performing one of `prepare_apply`,
`release_claim`, `discard`, `cancel` and `_gc` on any import, one operation at a time in
any order, with any clock readings and faults, each liable to be killed.

The history stays orderly in every run in which nobody takes a claim marker away from an
operation that is still running (`undisturbed`): `release_claim` and `discard` remove it
without holding it, and `_gc` takes it over once its clock says that it is two hours old.
Two runs show what happens otherwise: after two hours `_gc` collects an accepted import
(`accepted_import_collected`), and a `discard` that meets a running `prepare_apply` is
followed by a prepared import.
-/

namespace ProxyGateway.WebImport

open Method

/-- What a process does. -/
inductive Job where
  | prepareApply (X : ImportId) (body : Json)
  | releaseClaim (X : ImportId)
  | discard (X : ImportId)
  | cancel (X : ImportId)
  | gc

/-- How a process ended. -/
inductive Ending where
  | done | raised (e : ImportError) | killed
  deriving DecidableEq

/-- A call as a process. -/
def toProcess {α : Type} (m : Call α) : Proc Ending :=
  (m ()).bind (fun r => .ret (match r.1 with
    | .ok _ => .done
    | .error e => .raised e))

/-- The process of a job. -/
def Job.process (H : Host) : Job → Proc Ending
  | .prepareApply X body => toProcess (WebImport.prepareApply H X body)
  | .releaseClaim X => toProcess (WebImport.releaseClaim H X)
  | .discard X => toProcess (WebImport.discard X)
  | .cancel X => toProcess (WebImport.cancel H X)
  | .gc => toProcess WebImport.gc

/-- All processes, and the directory they share. -/
abbrev Conf := (Pid → Proc Ending) × Staging

/-- The processes before their first operation. -/
def startAll (H : Host) (jobs : Pid → Option Job) (i : Pid) : Proc Ending :=
  match jobs i with
  | some job => job.process H
  | none => .ret .killed

/-- A process is killed; its marker stays. -/
def kill (i : Pid) (s : Conf) : Conf := (Function.update s.1 i (.ret .killed), s.2)

/-- The configurations reached by steps that satisfy `Q`, and by kills. -/
inductive Reach (H : Host) (jobs : Pid → Option Job) (w : Staging) (Q : Pid → Conf → Bool) :
    Conf → Prop where
  | start : Reach H jobs w Q (startAll H jobs, w)
  | step {s : Conf} (i : Pid) (c : Choice) (h : Reach H jobs w Q s) (hq : Q i s = true) :
      Reach H jobs w Q (Pool.step exec i c s)
  | kill {s : Conf} (i : Pid) (h : Reach H jobs w Q s) : Reach H jobs w Q (kill i s)

/-- The import whose marker or upload the next operation takes away without holding it. -/
def disturbed : Proc Ending → Option ImportId
  | .op (.takeOver X) _ => some X
  | .op (.unlink why X s) _ => if !why.locked && s != .json then some X else none
  | _ => none

/-- The next operation of `i` takes nothing away from an operation that is running. -/
def undisturbed (i : Pid) (s : Conf) : Bool :=
  match disturbed (s.1 i) with
  | none => true
  | some X =>
      match s.2.claim X with
      | none => true
      | some (j, _) => j == i || (s.1 j).returned.isSome

/-- What an ended process says about its import. -/
def Reported (job : Option Job) (w : Staging) : Prop :=
  match job with
  | some (.prepareApply X _) => Prepared X w
  | some (.cancel X) | some (.discard X) => w.upload X = none
  | _ => True

section Pool

variable {H : Host} {jobs : Pid → Option Job} {w : Staging} {i : Pid}

/-- The judgement of a process: when it is done, its report is true. -/
def Judged (jobs : Pid → Option Job) (i : Pid) (p : Proc Ending) (w : Staging) : Prop :=
  Prog.Sat (setting i) (fun r w => r = .done → Reported (jobs i) w) p w

theorem judged_toProcess {α : Type} {m : Call α} {K : Except ImportError α → Staging → Prop}
    (h : Spec i Inv m K) (hw : Inv w)
    (hK : ∀ a w', K (.ok a) w' → ∀ w'', Rely i w' w'' → Reported (jobs i) w'') :
    Judged jobs i (toProcess m) w := by
  refine Prog.Sat.seq (h w hw) ?_
  intro (r, u) v hv v' hr
  cases r with
  | ok a => exact fun _ => hK a v hv v' hr
  | error e => exact fun hd => by cases hd

/-- At the start every process is judged. -/
theorem judged_start (hw : Inv w) (i : Pid) : Judged jobs i (startAll H jobs i) w := by
  have hgone : ∀ (X : ImportId) (w' : Staging), w'.upload X = none →
      ∀ w'', Rely i w' w'' → w''.upload X = none := fun X w' h w'' hr => hr.gone X h
  unfold startAll
  cases hj : jobs i with
  | none => exact fun _ _ hd => by cases hd
  | some job =>
      cases job with
      | prepareApply X body =>
          refine judged_toProcess spec_prepareApply hw (fun a w' h w'' hr => ?_)
          rw [hj]
          exact (stable_prepared w' w'' ⟨h.1, h.2 a rfl⟩ hr).2
      | releaseClaim X =>
          refine judged_toProcess spec_releaseClaim hw (fun _ _ _ _ _ => ?_)
          rw [hj]
          trivial
      | discard X =>
          refine judged_toProcess spec_discard hw (fun _ w' h w'' hr => ?_)
          rw [hj]
          exact hgone X w' (h.2 rfl) w'' hr
      | cancel X =>
          refine judged_toProcess spec_cancel hw (fun _ w' h w'' hr => ?_)
          rw [hj]
          exact hgone X w' (h.2 rfl) w'' hr
      | gc =>
          refine judged_toProcess spec_gc hw (fun _ _ _ _ _ => ?_)
          rw [hj]
          trivial

/-- What no operation undoes: the history grows, and an upload does not come back. -/
structure Later (w w' : Staging) : Prop where
  log : w.log <:+ w'.log
  gone : ∀ X, w.upload X = none → w'.upload X = none

theorem later_exec (i : Pid) (e : Op) (c : Choice) (w : Staging) : Later w (exec i e c w).2 := by
  rcases exec_cases i e c w with he | ⟨X, rfl, _, he⟩ | ⟨X, rfl, he⟩ | ⟨X, r, rfl, he⟩ |
    ⟨why, X, s, rfl, he⟩ <;> rw [he]
  · exact ⟨List.suffix_refl _, fun _ h => h⟩
  · exact ⟨List.suffix_cons _ _, fun _ h => h⟩
  · exact ⟨List.suffix_cons _ _, fun _ h => h⟩
  · exact ⟨List.suffix_cons _ _, fun _ h => h⟩
  · refine ⟨by rw [Staging.remove_log]; exact List.suffix_cons _ _, fun Y hY => ?_⟩
    rw [Staging.remove_upload]
    split
    · rfl
    · exact hY

theorem Reported.later {job : Option Job} {w w' : Staging} (h : Reported job w)
    (hl : Later w w') : Reported job w' := by
  unfold Reported at *
  split
  · obtain ⟨t, ht⟩ := h
    exact ⟨t, hl.log.subset ht⟩
  · exact hl.gone _ h
  · exact hl.gone _ h
  · trivial

/-- The next operation disturbs only what `disturbed` says. -/
theorem disturbed_of_disturbs {e : Op} {k : e.Answer → Proc Ending} {X : ImportId}
    (h : e.disturbs X) : disturbed (.op e k) = some X := by
  cases e with
  | takeOver Y => simpa [Op.disturbs, disturbed] using h
  | unlink why Y s =>
      obtain ⟨rfl, hl, hs⟩ := h
      simp [disturbed, hl, hs]
  | _ => cases h

/-- **One step**: what is judged stays judged, and the invariant is kept. -/
theorem judged_step {ps : Pid → Proc Ending} (hinv : Inv w) (hsat : ∀ j, Judged jobs j (ps j) w)
    (hq : undisturbed i (ps, w) = true) (c : Choice) :
    Inv (Pool.step exec i c (ps, w)).2 ∧
      ∀ j, Judged jobs j ((Pool.step exec i c (ps, w)).1 j) (Pool.step exec i c (ps, w)).2 := by
  refine ⟨?_, Pool.sat_step (S := setting) hsat (fun _ _ _ => trivial) ?_⟩
  · cases hp : ps i with
    | ret r => simpa [Pool.step, hp, Prog.step] using hinv
    | op e k =>
        have hi := hsat i
        rw [hp] at hi
        have hperm : Permit i e w := Prog.Sat.permit (c := c) hi trivial
        simpa [Pool.step, hp, Prog.step] using inv_exec hinv hperm c
  · intro j hj e k hp hperm
    cases hret : ps j with
    | ret r =>
        -- what an ended process said stays true, whoever moves
        have hj' := hsat j
        rw [hret] at hj'
        intro w' hr hd
        have hnow : Reported (jobs j) w := hj' w (Rely.refl j w) hd
        exact (hnow.later (later_exec i e c w)).later ⟨hr.log, hr.gone⟩
    | op e' k' =>
        refine Prog.Sat.stable (hret ▸ hsat j) ?_
        refine rely_exec hinv hperm hj (fun X hX hown => ?_) c
        obtain ⟨t, ht⟩ := hown
        simp only [undisturbed, hp, disturbed_of_disturbs hX, ht, hret, Prog.returned_op,
          Option.isSome_none, Bool.or_false, beq_iff_eq] at hq
        exact hj hq

theorem judged_reach (hlog : w.log = []) {s : Conf} (h : Reach H jobs w undisturbed s) :
    Inv s.2 ∧ ∀ j, Judged jobs j (s.1 j) s.2 := by
  induction h with
  | start =>
      have hinv : Inv w := by
        refine ⟨?_, ?_, ?_, ?_⟩ <;> rw [hlog]
        · trivial
        · exact fun X t ht => by cases ht
        · exact fun X hX => by cases hX
        · exact fun X why hmem => by cases hmem
      exact ⟨hinv, judged_start hinv⟩
  | step i c _ hq ih => exact judged_step ih.1 ih.2 hq c
  | @kill s i _ ih =>
      refine ⟨ih.1, fun j => ?_⟩
      by_cases hj : j = i
      · subst hj
        simp only [kill, Function.update_self]
        exact fun _ _ hd => by cases hd
      · simpa [kill, hj] using ih.2 j

end Pool

/-- **The claim protocol is safe.** In every run of any number of processes in which nobody
takes a marker away from a running operation, the history is orderly: a marker is made
where there is none; an import is prepared only while no accepted claim of it stands and
its upload was never removed; an accepted import is not cancelled, and collected only when
two hours have passed since its claim. And a process that is done tells the truth: a
prepared import is in the history, a cancelled or discarded one has lost its upload for
good. -/
theorem claims_are_safe (H : Host) (jobs : Pid → Option Job) (w : Staging) (hlog : w.log = [])
    (s : Conf) (h : Reach H jobs w undisturbed s) :
    Orderly s.2.log ∧ ∀ i, s.1 i = .ret .done → Reported (jobs i) s.2 := by
  obtain ⟨hinv, hjudged⟩ := judged_reach hlog h
  refine ⟨hinv.orderly, fun i hi => ?_⟩
  have hj := hjudged i
  rw [hi] at hj
  exact hj s.2 (Rely.refl i s.2) rfl

/-! ### Runs -/

/-- Perform the given steps. -/
def runFrom : List (Pid × Choice) → Conf → Conf
  | [], s => s
  | p :: l, s => runFrom l (Pool.step exec p.1 p.2 s)

/-- Do all the given steps satisfy `Q`? -/
def runs (Q : Pid → Conf → Bool) : List (Pid × Choice) → Conf → Bool
  | [], _ => true
  | p :: l, s => Q p.1 s && runs Q l (Pool.step exec p.1 p.2 s)

theorem Reach.runFrom {H : Host} {jobs : Pid → Option Job} {w : Staging} {Q : Pid → Conf → Bool}
    {s : Conf} (h : Reach H jobs w Q s) (l : List (Pid × Choice)) (hl : runs Q l s = true) :
    Reach H jobs w Q (runFrom l s) := by
  induction l generalizing s with
  | nil => exact h
  | cons p l ih =>
      simp only [runs, Bool.and_eq_true] at hl
      exact ih (h.step p.1 p.2 hl.1) hl.2

/-- A host whose digest spells out the bytes. -/
def Host.plain : Host where
  sha := fun b => String.ofList (b.map (fun x => Char.ofNat (x.toNat + 48)))
  validName := fun _ => true

/-- An import id. -/
def anImport : ImportId := "imp-0123456789abcdef0123456789abcdef"

/-- The directory with one previewed import. -/
def staged : Staging where
  json := Function.update (fun _ => none) anImport (some (some
    { id := anImport, kind := .mihomo, created := 0, uploadSize := 1, uploadSha256 := "1",
      conflicts := [], collisions := none, apply := none }, 0))
  upload := Function.update (fun _ => none) anImport (some ([1], 0))
  claim := fun _ => none
  log := []

/-- A confirmation without choices. -/
def confirmed : Json := .obj [("confirm", .bool true)]

/-- Process 0 prepares the import, 1 cancels it, 2 is the janitor, 3 discards it. -/
def fourJobs : Pid → Option Job
  | 0 => some (.prepareApply anImport confirmed)
  | 1 => some (.cancel anImport)
  | 2 => some .gc
  | 3 => some (.discard anImport)
  | _ => none

/-- `n` operations of process `i`, at the given clock reading. -/
def steps (i : Pid) (time : Rat) (n : Nat) : List (Pid × Choice) :=
  List.replicate n (i, { time := time, names := [anImport ++ ".json"] })

/-- The janitor starts, a cancellation meets the preparation, and the time to collect the
preview has not come. -/
def racedRun : Conf :=
  runFrom (steps 0 10 1 ++ steps 2 3000 2 ++ steps 1 11 1 ++ steps 0 12 5 ++ steps 2 3000 4)
    (startAll .plain fourJobs, staged)

theorem racedRun_orderly : Orderly racedRun.2.log ∧
    ∀ i, racedRun.1 i = .ret .done → Reported (fourJobs i) racedRun.2 :=
  claims_are_safe .plain fourJobs staged rfl racedRun
    (Reach.start.runFrom _ (by decide +kernel))

/-- Is nothing of an import removed while its accepted claim stands, but by `discard`? -/
def kept : List Event → Bool
  | [] => true
  | .removed .cancel X s :: l | .removed (.expired _) X s :: l | .removed (.collect _) X s :: l =>
      (s == .claim || (standing l X).isNone) && kept l
  | _ :: l => kept l

/-- The import is prepared; hours later the janitor comes. -/
def expiredRun : Conf :=
  runFrom (steps 0 10 6 ++ steps 2 20000 18) (startAll .plain fourJobs, staged)

/-- The preparation has checked everything when the import is discarded; then it writes. -/
def discardedRun : Conf :=
  runFrom (steps 0 10 5 ++ steps 3 11 6 ++ steps 0 12 1) (startAll .plain fourJobs, staged)

/-- The janitor collects an accepted import whose claim was neither released nor discarded,
and without `undisturbed` a discarded import is prepared afterwards. -/
theorem accepted_import_collected :
    (∃ s, Reach .plain fourJobs staged undisturbed s ∧ kept s.2.log = false) ∧
    (∃ s, Reach .plain fourJobs staged (fun _ _ => true) s ∧ ¬ Orderly s.2.log) := by
  refine ⟨⟨expiredRun, Reach.start.runFrom _ (by decide +kernel), by decide +kernel⟩,
    ⟨discardedRun, Reach.start.runFrom _ (by decide +kernel), ?_⟩⟩
  have hlog : discardedRun.2.log = [.prepared anImport 10, .removed .discard anImport .claim,
      .removed .discard anImport .upload, .removed .discard anImport .json,
      .claimed anImport] := by decide +kernel
  rw [hlog]
  intro h
  exact h.1.2 .discard (by simp)

end ProxyGateway.WebImport
