import Mathlib.Logic.Relation
import Mathlib.Logic.Function.Basic

set_option autoImplicit false

/-!
# ProxyGateway.Lib.Prog

**Interaction programs**: sequential code seen as the atomic operations it
performs on a shared world. A program is a tree (`Prog`): it has returned, or it
performs one operation and continues with the operation's answer. Everything
between two operations is pure, so the tree has exactly the points at which the
process can be killed or another process can get in.

What an operation does is not part of the program. A `Setting` fixes it: how an
operation acts on the world under a *choice* of the environment (a fault, an
answer from outside), what the other processes may do between two operations
(`rely`), which operations the program may perform in which world (`permit`), and
which steps are considered at all (`allow`).

`Prog.Sat` is the resulting judgement: whatever the others do within the rely,
the program performs only permitted operations, and the postcondition holds where
it returns. Its rules follow the program text (`bind`, `each`, weakening), and it
is what every kind of run preserves:

* `Prog.run`: one process, cut after any number of operations (a crash);
* `Prog.complete`: one process run to its end;
* `Pool.step`: any number of processes, one operation of one of them at a time.
-/

namespace ProxyGateway

/-- A program performing operations `e : E`, answered in `R e`, returning an `α`. -/
inductive Prog (E : Type) (R : E → Type) (α : Type) where
  | ret (a : α)
  | op (e : E) (k : R e → Prog E R α)

namespace Prog

variable {E : Type} {R : E → Type} {C W α β : Type}

/-- Sequencing. -/
def bind : Prog E R α → (α → Prog E R β) → Prog E R β
  | .ret a, f => f a
  | .op e k, f => .op e (fun r => (k r).bind f)

instance : Monad (Prog E R) where
  pure := .ret
  bind := bind

@[simp] theorem pure_eq (a : α) : (pure a : Prog E R α) = .ret a := rfl

@[simp] theorem bind_eq (p : Prog E R α) (f : α → Prog E R β) : p >>= f = p.bind f := rfl

@[simp] theorem ret_bind (a : α) (f : α → Prog E R β) : (Prog.ret a).bind f = f a := rfl

@[simp] theorem op_bind (e : E) (k : R e → Prog E R α) (f : α → Prog E R β) :
    (Prog.op e k).bind f = .op e (fun r => (k r).bind f) := rfl

/-- Perform one operation and return its answer. -/
def perform (e : E) : Prog E R (R e) := .op e .ret

/-- Has the program returned? -/
def returned : Prog E R α → Option α
  | .ret a => some a
  | .op _ _ => none

@[simp] theorem returned_ret (a : α) : (Prog.ret a : Prog E R α).returned = some a := rfl

@[simp] theorem returned_op (e : E) (k : R e → Prog E R α) : (Prog.op e k).returned = none := rfl

theorem eq_ret_of_returned {p : Prog E R α} {a : α} (h : p.returned = some a) : p = .ret a := by
  cases p with
  | ret b => simpa using h
  | op e k => simp at h

/-! ### Running -/

/-- One operation under the choice `c`; a returned program stays as it is. -/
def step (exec : (e : E) → C → W → R e × W) (c : C) : Prog E R α × W → Prog E R α × W
  | (.ret a, w) => (.ret a, w)
  | (.op e k, w) => (k (exec e c w).1, (exec e c w).2)

/-- At most as many operations as there are choices: a run that is cut there. -/
def run (exec : (e : E) → C → W → R e × W) : List C → Prog E R α × W → Prog E R α × W
  | [], s => s
  | c :: cs, s => run exec cs (step exec c s)

@[simp] theorem run_nil (exec : (e : E) → C → W → R e × W) (s : Prog E R α × W) :
    run exec [] s = s := rfl

theorem run_cons (exec : (e : E) → C → W → R e × W) (c : C) (cs : List C)
    (s : Prog E R α × W) : run exec (c :: cs) s = run exec cs (step exec c s) := rfl

@[simp] theorem run_ret (exec : (e : E) → C → W → R e × W) (cs : List C) (a : α) (w : W) :
    run exec cs (.ret a, w) = (.ret a, w) := by
  induction cs with
  | nil => rfl
  | cons c cs ih => exact ih

/-- The run to the end, under a stream of choices. Every branch of the tree is
finite, so there is always an end. -/
def complete (exec : (e : E) → C → W → R e × W) : (Nat → C) → Prog E R α → W → α × W
  | _, .ret a, w => (a, w)
  | ch, .op e k, w =>
      complete exec (fun n => ch (n + 1)) (k (exec e (ch 0) w).1) (exec e (ch 0) w).2

theorem run_append (exec : (e : E) → C → W → R e × W) (cs ds : List C) (s : Prog E R α × W) :
    run exec (cs ++ ds) s = run exec ds (run exec cs s) := by
  induction cs generalizing s with
  | nil => rfl
  | cons c cs ih => exact ih _

/-- The run to the end is the run under enough choices of the stream. -/
theorem exists_run_eq_complete (exec : (e : E) → C → W → R e × W) (p : Prog E R α) (ch : Nat → C)
    (w : W) : ∃ cs : List C, (∀ c ∈ cs, ∃ n, ch n = c) ∧
      run exec cs (p, w) = (.ret (complete exec ch p w).1, (complete exec ch p w).2) := by
  induction p generalizing ch w with
  | ret a => exact ⟨[], by simp, rfl⟩
  | op e k ih =>
      obtain ⟨cs, hmem, hcs⟩ := ih _ (fun n => ch (n + 1)) (exec e (ch 0) w).2
      refine ⟨ch 0 :: cs, ?_, hcs⟩
      intro c hc
      rcases List.mem_cons.1 hc with rfl | hc
      · exact ⟨0, rfl⟩
      · obtain ⟨n, hn⟩ := hmem c hc
        exact ⟨n + 1, hn⟩

end Prog

/-! ### The judgement -/

/-- What a program is judged in: the meaning of operations, which steps are
considered, what others may do in between (`rely`, a preorder), and which
operations are permitted. -/
structure Setting (E : Type) (R : E → Type) (C W : Type) where
  exec : (e : E) → C → W → R e × W
  allow : E → C → W → Prop
  rely : W → W → Prop
  permit : E → W → Prop
  rely_refl : ∀ w, rely w w
  rely_trans : ∀ {a b c}, rely a b → rely b c → rely a c

namespace Setting

variable {E : Type} {R : E → Type} {C W : Type}

/-- A process alone in the world: nothing happens between its steps. `ok` says which
choices of the environment are considered. -/
def solo (exec : (e : E) → C → W → R e × W) (ok : C → Prop) (permit : E → W → Prop) :
    Setting E R C W where
  exec := exec
  allow := fun _ c _ => ok c
  rely := Eq
  permit := permit
  rely_refl := fun _ => rfl
  rely_trans := fun h h' => h.trans h'

end Setting

namespace Prog

variable {E : Type} {R : E → Type} {C W α β : Type} {S S' : Setting E R C W}

/-- Every step considered from `w` is a permitted one, and `post` holds on return. -/
def Sat (S : Setting E R C W) (post : α → W → Prop) : Prog E R α → W → Prop
  | .ret a, w => ∀ w', S.rely w w' → post a w'
  | .op e k, w => ∀ w', S.rely w w' → ∀ c, S.allow e c w' →
      S.permit e w' ∧ Sat S post (k (S.exec e c w').1) (S.exec e c w').2

theorem sat_ret_iff {post : α → W → Prop} {a : α} {w : W} :
    Sat S post (.ret a) w ↔ ∀ w', S.rely w w' → post a w' := Iff.rfl

theorem sat_op_iff {post : α → W → Prop} {e : E} {k : R e → Prog E R α} {w : W} :
    Sat S post (.op e k) w ↔ ∀ w', S.rely w w' → ∀ c, S.allow e c w' →
      S.permit e w' ∧ Sat S post (k (S.exec e c w').1) (S.exec e c w').2 := Iff.rfl

/-- The judgement survives what the others do. -/
theorem Sat.stable {post : α → W → Prop} {p : Prog E R α} {w w' : W}
    (h : Sat S post p w) (hr : S.rely w w') : Sat S post p w' := by
  cases p with
  | ret a => exact fun v hv => h v (S.rely_trans hr hv)
  | op e k => exact fun v hv => h v (S.rely_trans hr hv)

theorem Sat.mono {P P' : α → W → Prop} {p : Prog E R α} {w : W}
    (h : Sat S P p w) (himp : ∀ a w, P a w → P' a w) : Sat S P' p w := by
  induction p generalizing w with
  | ret a => exact fun v hv => himp _ _ (h v hv)
  | op e k ih => exact fun v hv c hc => ⟨(h v hv c hc).1, ih _ (h v hv c hc).2⟩

/-- Two judgements of one program hold together. -/
theorem Sat.and {P Q : α → W → Prop} {p : Prog E R α} {w : W} (h : Sat S P p w)
    (h' : Sat S Q p w) : Sat S (fun a w => P a w ∧ Q a w) p w := by
  induction p generalizing w with
  | ret a => exact fun v hv => ⟨h v hv, h' v hv⟩
  | op e k ih => exact fun v hv c hc => ⟨(h v hv c hc).1, ih _ (h v hv c hc).2 (h' v hv c hc).2⟩

/-- A judgement carries over to a setting with the same operations, fewer
environment steps, fewer steps considered and more operations permitted. -/
theorem Sat.weaken {post : α → W → Prop} {p : Prog E R α} {w : W} (h : Sat S post p w)
    (hexec : S'.exec = S.exec) (hallow : ∀ e c w, S'.allow e c w → S.allow e c w)
    (hrely : ∀ w w', S'.rely w w' → S.rely w w')
    (hpermit : ∀ e w, S.permit e w → S'.permit e w) : Sat S' post p w := by
  induction p generalizing w with
  | ret a => exact fun v hv => h v (hrely _ _ hv)
  | op e k ih =>
      intro v hv c hc
      have hstep := h v (hrely _ _ hv) c (hallow _ _ _ hc)
      rw [hexec]
      exact ⟨hpermit _ _ hstep.1, ih _ hstep.2⟩

theorem Sat.bind {post : β → W → Prop} {p : Prog E R α} {f : α → Prog E R β} {w : W}
    (h : Sat S (fun a w => Sat S post (f a) w) p w) : Sat S post (p.bind f) w := by
  induction p generalizing w with
  | ret a => exact h w (S.rely_refl w)
  | op e k ih => exact fun v hv c hc => ⟨(h v hv c hc).1, ih _ (h v hv c hc).2⟩

/-- A program judged for `M`, continued by programs judged from `M`. -/
theorem Sat.seq {M : α → W → Prop} {post : β → W → Prop} {p : Prog E R α}
    {f : α → Prog E R β} {w : W} (h : Sat S M p w)
    (hf : ∀ a w, M a w → Sat S post (f a) w) : Sat S post (p.bind f) w :=
  Sat.bind (h.mono hf)

theorem sat_perform_considered {e : E} {post : R e → W → Prop} {w : W}
    (h : ∀ w', S.rely w w' → ∀ c, S.allow e c w' → S.permit e w' ∧
      ∀ w'', S.rely (S.exec e c w').2 w'' → post (S.exec e c w').1 w'') :
    Sat S post (perform e) w := h

/-- An operation that is permitted whether or not it is considered. -/
theorem sat_perform {e : E} {post : R e → W → Prop} {w : W}
    (h : ∀ w', S.rely w w' → S.permit e w' ∧ ∀ c, S.allow e c w' →
      ∀ w'', S.rely (S.exec e c w').2 w'' → post (S.exec e c w').1 w'') :
    Sat S post (perform e) w :=
  sat_perform_considered (fun w' hw c hc => ⟨(h w' hw).1, (h w' hw).2 c hc⟩)

/-- What one step of a judged program keeps. -/
theorem Sat.step {post : α → W → Prop} {p : Prog E R α} {w : W} {c : C} (h : Sat S post p w)
    (hallow : ∀ e k, p = .op e k → S.allow e c w) :
    Sat S post (Prog.step S.exec c (p, w)).1 (Prog.step S.exec c (p, w)).2 := by
  cases p with
  | ret a => exact h
  | op e k => exact (h w (S.rely_refl w) c (hallow e k rfl)).2

/-- The considered step a judged program is about to take is permitted. -/
theorem Sat.permit {post : α → W → Prop} {e : E} {k : R e → Prog E R α} {w : W} {c : C}
    (h : Sat S post (.op e k) w) (hallow : S.allow e c w) : S.permit e w :=
  (h w (S.rely_refl w) c hallow).1

/-- A program alone stays judged wherever its run is cut. -/
theorem Sat.run {exec : (e : E) → C → W → R e × W} {ok : C → Prop} {permit : E → W → Prop}
    {post : α → W → Prop} {p : Prog E R α} {w : W} (h : Sat (Setting.solo exec ok permit) post p w)
    (cs : List C) (hcs : ∀ c ∈ cs, ok c) :
    Sat (Setting.solo exec ok permit) post (Prog.run exec cs (p, w)).1
      (Prog.run exec cs (p, w)).2 := by
  induction cs generalizing p w with
  | nil => exact h
  | cons c cs ih =>
      have hstep := h.step (c := c) (fun _ _ _ => hcs c (by simp))
      exact ih hstep (fun d hd => hcs d (by simp [hd]))

/-- A run that returned ends where the postcondition holds. -/
theorem Sat.run_returned {exec : (e : E) → C → W → R e × W} {ok : C → Prop}
    {permit : E → W → Prop} {post : α → W → Prop} {p : Prog E R α} {w : W}
    (h : Sat (Setting.solo exec ok permit) post p w) {cs : List C} (hcs : ∀ c ∈ cs, ok c) {a : α}
    {w' : W} (hrun : Prog.run exec cs (p, w) = (.ret a, w')) : post a w' := by
  have hend := h.run cs hcs
  rw [hrun] at hend
  exact hend w' rfl

/-- The run to the end of a judged program satisfies the postcondition. -/
theorem Sat.complete {exec : (e : E) → C → W → R e × W} {ok : C → Prop} {permit : E → W → Prop}
    {post : α → W → Prop} {p : Prog E R α} {w : W} (h : Sat (Setting.solo exec ok permit) post p w)
    (ch : Nat → C) (hch : ∀ n, ok (ch n)) :
    post (Prog.complete exec ch p w).1 (Prog.complete exec ch p w).2 := by
  obtain ⟨cs, hmem, hcs⟩ := exists_run_eq_complete exec p ch w
  refine h.run_returned ?_ hcs
  intro c hc
  obtain ⟨n, rfl⟩ := hmem c hc
  exact hch n

/-- An invariant that every permitted operation keeps holds wherever the run is cut. -/
theorem Sat.run_invariant {exec : (e : E) → C → W → R e × W} {ok : C → Prop}
    {permit : E → W → Prop} {I : W → Prop} {post : α → W → Prop} {p : Prog E R α} {w : W}
    (h : Sat (Setting.solo exec ok permit) post p w)
    (hkeep : ∀ e c w, permit e w → I w → I (exec e c w).2) (hI : I w) (cs : List C)
    (hcs : ∀ c ∈ cs, ok c) : I (Prog.run exec cs (p, w)).2 := by
  induction cs generalizing p w with
  | nil => exact hI
  | cons c cs ih =>
      have hcs' : ∀ d ∈ cs, ok d := fun d hd => hcs d (by simp [hd])
      cases p with
      | ret a => simpa using hI
      | op e k =>
          have hc : ok c := hcs c (by simp)
          have hperm : permit e w := h.permit (c := c) hc
          exact ih (h w rfl c hc).2 (hkeep e c w hperm hI) hcs'

/-! ### Loops -/

/-- Run `f` on every element, in order. -/
def each {ι : Type} (f : ι → Prog E R Unit) : List ι → Prog E R Unit
  | [] => .ret ()
  | x :: xs => (f x).bind (fun _ => each f xs)

/-- The loop rule: `I` holds of the elements done so far. -/
theorem sat_each {ι : Type} {f : ι → Prog E R Unit} {I : List ι → W → Prop}
    (hstable : ∀ done w w', I done w → S.rely w w' → I done w')
    (hbody : ∀ done x w, I done w → Sat S (fun _ w => I (done ++ [x]) w) (f x) w) :
    ∀ (xs : List ι) (done : List ι) (w : W), I done w →
      Sat S (fun _ w => I (done ++ xs) w) (each f xs) w := by
  intro xs
  induction xs with
  | nil =>
      intro done w hI v hv
      simpa using hstable _ _ _ hI hv
  | cons x xs ih =>
      intro done w hI
      refine Sat.seq (hbody done x w hI) ?_
      intro _ v hv
      simpa using ih (done ++ [x]) v hv

/-- Run `f` on every element, in order, and concatenate what it returns. -/
def collect {ι β : Type} (f : ι → Prog E R (List β)) : List ι → Prog E R (List β)
  | [] => .ret []
  | x :: xs => (f x).bind (fun ys => (collect f xs).bind (fun zs => .ret (ys ++ zs)))

/-! ### What a program returns -/

/-- The program returns `a` under some answers. -/
inductive Yields : Prog E R α → α → Prop where
  | ret (a : α) : Yields (.ret a) a
  | op {e : E} {k : R e → Prog E R α} {a : α} (r : R e) (h : Yields (k r) a) : Yields (.op e k) a

theorem yields_ret_iff {a b : α} : Yields (.ret a : Prog E R α) b ↔ b = a := by
  constructor
  · intro h
    cases h
    rfl
  · intro h
    rw [h]
    exact .ret a

theorem yields_bind_iff {p : Prog E R α} {f : α → Prog E R β} {b : β} :
    Yields (p.bind f) b ↔ ∃ a, Yields p a ∧ Yields (f a) b := by
  induction p with
  | ret a => simp [yields_ret_iff]
  | op e k ih =>
      constructor
      · intro h
        cases h with
        | op r h =>
            obtain ⟨a, ha, hb⟩ := (ih r).mp h
            exact ⟨a, .op r ha, hb⟩
      · intro ⟨a, ha, hb⟩
        cases ha with
        | op r ha => exact .op r ((ih r).mpr ⟨a, ha, hb⟩)

/-- A run to the end returns what the program yields. -/
theorem yields_complete (exec : (e : E) → C → W → R e × W) (p : Prog E R α) (ch : Nat → C) (w : W) :
    Yields p (complete exec ch p w).1 := by
  induction p generalizing ch w with
  | ret a => exact .ret a
  | op e k ih => exact .op _ (ih _ _ _)

/-- Where every operation has an answer, every program yields something. -/
theorem exists_yields (hanswer : ∀ e, Nonempty (R e)) (p : Prog E R α) : ∃ a, Yields p a := by
  induction p with
  | ret a => exact ⟨a, .ret a⟩
  | op e k ih =>
      obtain ⟨r⟩ := hanswer e
      obtain ⟨a, ha⟩ := ih r
      exact ⟨a, .op r ha⟩

/-! ### Programs restricted to some operations -/

/-- Only operations satisfying `P` occur. -/
def Only (P : E → Prop) : Prog E R α → Prop
  | .ret _ => True
  | .op e k => P e ∧ ∀ r, Only P (k r)

@[simp] theorem only_ret {P : E → Prop} (a : α) : Only P (.ret a : Prog E R α) := trivial

theorem only_true (p : Prog E R α) : Only (fun _ => True) p := by
  induction p with
  | ret a => trivial
  | op e k ih => exact ⟨trivial, ih⟩

theorem only_perform {P : E → Prop} {e : E} (h : P e) : Only P (perform e : Prog E R (R e)) :=
  ⟨h, fun _ => trivial⟩

theorem Only.mono {P P' : E → Prop} {p : Prog E R α} (h : Only P p) (hP : ∀ e, P e → P' e) :
    Only P' p := by
  induction p with
  | ret a => trivial
  | op e k ih => exact ⟨hP e h.1, fun r => ih r (h.2 r)⟩

theorem Only.bind {P : E → Prop} {p : Prog E R α} {f : α → Prog E R β} (h : Only P p)
    (hf : ∀ a, Only P (f a)) : Only P (p.bind f) := by
  induction p with
  | ret a => exact hf a
  | op e k ih => exact ⟨h.1, fun r => ih r (h.2 r)⟩

theorem Only.collect {ι β : Type} {P : E → Prop} {f : ι → Prog E R (List β)}
    (hf : ∀ x, Only P (f x)) (xs : List ι) : Only P (collect f xs) := by
  induction xs with
  | nil => trivial
  | cons x xs ih => exact (hf x).bind (fun _ => ih.bind (fun _ => trivial))

/-- A program of operations each of which is permitted while `I` holds and keeps it. -/
theorem Only.sat_keeps {P : E → Prop} {I : W → Prop} {p : Prog E R α} (h : Only P p)
    (hstable : ∀ w w', I w → S.rely w w' → I w')
    (hstep : ∀ e, P e → ∀ w, I w → S.permit e w ∧ ∀ c, S.allow e c w → I (S.exec e c w).2)
    {w : W} (hI : I w) : Sat S (fun _ w => I w) p w := by
  induction p generalizing w with
  | ret a => exact fun v hv => hstable _ _ hI hv
  | op e k ih =>
      intro v hv c hc
      obtain ⟨hp, hk⟩ := hstep e h.1 v (hstable _ _ hI hv)
      exact ⟨hp, ih _ (h.2 _) (hk c hc)⟩

/-- A program of operations that leave the world alone, permitted while `I` holds:
afterwards only the others have moved, and `I` still holds. -/
theorem Only.sat {P : E → Prop} {I : W → Prop} {p : Prog E R α} (h : Only P p)
    (hsame : ∀ e, P e → ∀ c w, (S.exec e c w).2 = w)
    (hstable : ∀ w w', I w → S.rely w w' → I w') (hpermit : ∀ e w, P e → I w → S.permit e w)
    {w : W} (hI : I w) : Sat S (fun _ w' => S.rely w w' ∧ I w') p w := by
  suffices hgen : ∀ v, S.rely w v → I v → Sat S (fun _ w' => S.rely w w' ∧ I w') p v from
    hgen w (S.rely_refl w) hI
  induction p with
  | ret a => exact fun v hv hI' u hu => ⟨S.rely_trans hv hu, hstable _ _ hI' hu⟩
  | op e k ih =>
      intro v hv hI' u hu c _
      have hIu := hstable _ _ hI' hu
      refine ⟨hpermit e u h.1 hIu, ?_⟩
      rw [hsame e h.1 c u]
      exact ih _ (h.2 _) u (S.rely_trans hv hu) hIu

end Prog

/-! ### Pools of processes -/

namespace Pool

variable {ι E : Type} {R : E → Type} {C W α : Type} [DecidableEq ι]

/-- Process `i` performs one operation; the others do not move. -/
def step (exec : ι → (e : E) → C → W → R e × W) (i : ι) (c : C)
    (s : (ι → Prog E R α) × W) : (ι → Prog E R α) × W :=
  (Function.update s.1 i (Prog.step (exec i) c (s.1 i, s.2)).1,
    (Prog.step (exec i) c (s.1 i, s.2)).2)

/-- When `i` performs an operation it may and every other judged process stays
judged after it, all processes stay judged. -/
theorem sat_step {S : ι → Setting E R C W} {post : ι → α → W → Prop}
    {ps : ι → Prog E R α} {w : W} {i : ι} {c : C}
    (hsat : ∀ j, Prog.Sat (S j) (post j) (ps j) w)
    (hallow : ∀ e k, ps i = .op e k → (S i).allow e c w)
    (hothers : ∀ j, j ≠ i → ∀ e k, ps i = .op e k → (S i).permit e w →
      Prog.Sat (S j) (post j) (ps j) ((S i).exec e c w).2) :
    ∀ j, Prog.Sat (S j) (post j) ((step (fun j => (S j).exec) i c (ps, w)).1 j)
        (step (fun j => (S j).exec) i c (ps, w)).2 := by
  intro j
  have hown := (hsat i).step hallow
  by_cases hj : j = i
  · subst hj
    simpa [step] using hown
  · have hsame : (step (fun j => (S j).exec) i c (ps, w)).1 j = ps j := by
      simp [step, hj]
    rw [hsame]
    cases hp : ps i with
    | ret a => simpa [step, hp, Prog.step] using hsat j
    | op e k =>
        have hi := hsat i
        rw [hp] at hi
        have hperm := hi.permit (hallow e k hp)
        simpa [step, hp, Prog.step] using hothers j hj e k hp hperm

end Pool

end ProxyGateway
