set_option autoImplicit false

/-!
# ProxyGateway.Lib.Runs

Runs of a system whose steps carry a label: a list of labels with the state after each.
A property of single steps is asked of every step of a run (`AllSteps`), and two such
properties agree on whole runs when they agree on every step that starts in a state
satisfying an invariant which the first of them carries on (`allSteps_iff`).
-/

namespace ProxyGateway

namespace Runs

variable {σ ℓ : Type} {step : σ → ℓ → σ → Prop}

/-- The list is a run from `s`. -/
def IsRun (step : σ → ℓ → σ → Prop) : σ → List (ℓ × σ) → Prop
  | _, [] => True
  | s, (l, t) :: rest => step s l t ∧ IsRun step t rest

/-- Every step of the run satisfies `P`. -/
def AllSteps (P : σ → ℓ → σ → Prop) : σ → List (ℓ × σ) → Prop
  | _, [] => True
  | s, (l, t) :: rest => P s l t ∧ AllSteps P t rest

/-- Every state of the run satisfies `I`. -/
def Always (I : σ → Prop) : σ → List (ℓ × σ) → Prop
  | s, [] => I s
  | s, (_, t) :: rest => I s ∧ Always I t rest

/-- An invariant of the first state holds in every state if it holds after every step. -/
theorem always_iff_allSteps {I : σ → Prop} {s : σ} {run : List (ℓ × σ)} (hs : I s) :
    Always I s run ↔ AllSteps (fun _ _ t => I t) s run := by
  induction run generalizing s with
  | nil => exact iff_of_true hs trivial
  | cons a run ih =>
      constructor
      · intro h
        have ha : I a.2 := by
          cases run with
          | nil => exact h.2
          | cons b run => exact h.2.1
        exact ⟨ha, (ih ha).mp h.2⟩
      · intro h
        exact ⟨hs, (ih h.1).mpr h.2⟩

/-- Agreement on the steps that start in `I` is agreement on the runs that start there. -/
theorem allSteps_iff {I : σ → Prop} {P Q : σ → ℓ → σ → Prop} {s : σ} {run : List (ℓ × σ)}
    (hr : IsRun step s run) (hs : I s)
    (hPQ : ∀ s l t, I s → step s l t → (P s l t ↔ Q s l t))
    (hP : ∀ s l t, I s → step s l t → P s l t → I t) :
    AllSteps P s run ↔ AllSteps Q s run := by
  induction run generalizing s with
  | nil => exact Iff.rfl
  | cons a run ih =>
      constructor
      · intro h
        have hI := hP _ _ _ hs hr.1 h.1
        exact ⟨(hPQ _ _ _ hs hr.1).mp h.1, (ih hr.2 hI).mp h.2⟩
      · intro h
        have ha := (hPQ _ _ _ hs hr.1).mpr h.1
        exact ⟨ha, (ih hr.2 (hP _ _ _ hs hr.1 ha)).mpr h.2⟩

theorem Always.mono {I J : σ → Prop} {s : σ} {run : List (ℓ × σ)} (h : Always I s run) (hIJ : ∀ s, I s → J s) :
    Always J s run := by
  induction run generalizing s with
  | nil => exact hIJ s h
  | cons a run ih => exact ⟨hIJ s h.1, ih h.2⟩

theorem allSteps_true (s : σ) (run : List (ℓ × σ)) : AllSteps (fun _ _ _ => True) s run := by
  induction run generalizing s with
  | nil => trivial
  | cons a run ih => exact ⟨trivial, ih a.2⟩

/-- An invariant that each step keeps while it does `P`, in a run whose steps satisfy `Q`. -/
theorem run_of_inv {I : σ → Prop} {P Q : σ → ℓ → σ → Prop} {s : σ} {run : List (ℓ × σ)} (hr : IsRun step s run) (hs : I s)
    (hQ : AllSteps Q s run) (h : ∀ s l t, I s → step s l t → Q s l t → I t ∧ P s l t) :
    Always I s run ∧ AllSteps P s run := by
  induction run generalizing s with
  | nil => exact ⟨hs, trivial⟩
  | cons a run ih =>
      obtain ⟨hI, hP⟩ := h _ _ _ hs hr.1 hQ.1
      obtain ⟨halways, hsteps⟩ := ih hr.2 hI hQ.2
      exact ⟨⟨hs, halways⟩, hP, hsteps⟩

end Runs

end ProxyGateway
