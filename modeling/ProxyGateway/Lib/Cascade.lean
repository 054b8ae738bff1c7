import Mathlib.Data.List.Basic
import Mathlib.Tactic.Common

set_option autoImplicit false

/-!
# ProxyGateway.Lib.Cascade

Removing names from a list of things that refer to each other by name. A thing falls with the
names when all its members have fallen and nothing else holds it; what falls is the least such set
(`Falls.least`). Taking the emptied things out again and again finds exactly that set, with no
more turns than there are things (`mem_cascade_iff`).
-/

namespace ProxyGateway.Cascade

variable {γ α : Type} {name : γ → α} {members : γ → List α} {held : γ → Bool} {things : List γ}
  {start removed : List α} {a : α}

/-- What falls with the names of `start`. -/
inductive Falls (name : γ → α) (members : γ → List α) (held : γ → Bool) (things : List γ)
    (start : List α) : α → Prop
  | start {a : α} (h : a ∈ start) : Falls name members held things start a
  | emptied {g : γ} (hg : g ∈ things) (hmembers : ∀ m ∈ members g, Falls name members held things start m)
      (hheld : held g = false) : Falls name members held things start (name g)

/-- What falls is in every set that has the start and is closed. -/
theorem Falls.least {T : α → Prop} (hstart : ∀ a ∈ start, T a)
    (hclosed : ∀ g ∈ things, (∀ m ∈ members g, T m) → held g = false → T (name g))
    (h : Falls name members held things start a) : T a := by
  induction h with
  | start h => exact hstart _ h
  | emptied hg _ hheld ih => exact hclosed _ hg ih hheld

variable [DecidableEq α]

/-- The names of the things that are emptied when these names are gone. -/
def emptied (name : γ → α) (members : γ → List α) (held : γ → Bool) (things : List γ)
    (removed : List α) : List α :=
  (things.filter (fun g => decide (name g ∉ removed) && (members g).all (· ∈ removed) && !held g)).map name

theorem mem_emptied : a ∈ emptied name members held things removed ↔
    ∃ g ∈ things, name g = a ∧ name g ∉ removed ∧ (∀ m ∈ members g, m ∈ removed) ∧ held g = false := by
  simp only [emptied, List.mem_map, List.mem_filter, Bool.and_eq_true, decide_eq_true_eq, List.all_eq_true,
    Bool.not_eq_true', and_assoc]
  exact exists_congr fun g => and_congr_right fun _ => by tauto

/-- The names that are gone in the end. -/
def cascade (name : γ → α) (members : γ → List α) (held : γ → Bool) (things : List γ) :
    Nat → List α → List α
  | 0, removed => removed
  | turns + 1, removed =>
      if emptied name members held things removed = [] then removed
      else cascade name members held things turns
        (removed ++ emptied name members held things removed)

theorem subset_cascade {turns : Nat} : removed ⊆ cascade name members held things turns removed := by
  induction turns generalizing removed with
  | zero => exact List.Subset.refl _
  | succ turns ih =>
      rw [cascade]
      split
      · exact List.Subset.refl _
      · exact fun a ha => ih (List.mem_append_left _ ha)

/-- Only what falls is taken out. -/
theorem falls_of_mem_cascade {turns : Nat} (hremoved : ∀ a ∈ removed, Falls name members held things start a)
    (h : a ∈ cascade name members held things turns removed) : Falls name members held things start a := by
  induction turns generalizing removed with
  | zero => exact hremoved a h
  | succ turns ih =>
      rw [cascade] at h
      split at h
      · exact hremoved a h
      · refine ih (fun b hb => ?_) h
        rcases List.mem_append.mp hb with hb | hb
        · exact hremoved b hb
        · obtain ⟨g, hg, rfl, -, hmembers, hheld⟩ := mem_emptied.mp hb
          exact .emptied hg (fun m hm => hremoved m (hmembers m hm)) hheld

/-- The things that are still there. -/
def remaining (name : γ → α) (things : List γ) (removed : List α) : List γ :=
  things.filter (fun g => decide (name g ∉ removed))

/-- Each turn but the last takes a thing out. -/
theorem remaining_lt (h : emptied name members held things removed ≠ []) :
    (remaining name things (removed ++ emptied name members held things removed)).length <
      (remaining name things removed).length := by
  obtain ⟨a, ha⟩ := List.exists_mem_of_ne_nil _ h
  obtain ⟨g, hg, hname, hnot, -, -⟩ := mem_emptied.mp ha
  have hsub : remaining name things (removed ++ emptied name members held things removed) =
      (remaining name things removed).filter
        (fun g => decide (name g ∉ emptied name members held things removed)) := by
    rw [remaining, remaining, List.filter_filter]
    refine List.filter_congr fun g _ => ?_
    simp [List.mem_append, not_or, Bool.and_comm]
  rw [hsub]
  refine List.length_filter_lt_length_iff_exists.mpr ⟨g, ?_, ?_⟩
  · simpa [remaining] using ⟨hg, hnot⟩
  · simpa [hname] using ha

/-- With enough turns nothing is left to empty. -/
theorem emptied_cascade {turns : Nat} (hturns : (remaining name things removed).length < turns) :
    emptied name members held things (cascade name members held things turns removed) = [] := by
  induction turns generalizing removed with
  | zero => omega
  | succ turns ih =>
      rw [cascade]
      split
      · next h => exact h
      · next h =>
        have hlt := remaining_lt h
        exact ih (by omega)

/-- The cascade takes out exactly what falls. -/
theorem mem_cascade_iff {turns : Nat} (hturns : things.length < turns) :
    a ∈ cascade name members held things turns start ↔ Falls name members held things start a := by
  constructor
  · exact falls_of_mem_cascade fun a ha => .start ha
  · have hlength : (remaining name things start).length < turns :=
      Nat.lt_of_le_of_lt (List.length_filter_le _ _) hturns
    have hdone : emptied name members held things (cascade name members held things turns start) = [] :=
      emptied_cascade hlength
    refine Falls.least (fun a ha => subset_cascade ha) fun g hg hmembers hheld => ?_
    by_contra hnot
    have hmem : name g ∈ emptied name members held things (cascade name members held things turns start) :=
      mem_emptied.mpr ⟨g, hg, rfl, hnot, hmembers, hheld⟩
    rw [hdone] at hmem
    cases hmem

end ProxyGateway.Cascade
