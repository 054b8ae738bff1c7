import Mathlib.Order.Defs.LinearOrder
import Mathlib.Order.Compare
import Mathlib.Order.Lattice
import Mathlib.Data.List.Basic

set_option autoImplicit false

/-!
# ProxyGateway.Lib.Champion

A search for the highest of a list that keeps the best so far, and stops at an element that is as
high as the best so far.

* `Leads key xs best`: `best` is higher than every other element of `xs`;
* `Tied key seen xs`: some element of `xs` is as high as the highest in front of it, where `seen`
  stands in front of `xs`.

The search ends well exactly where there is no such tie (`search_cases`).
-/

namespace ProxyGateway.Champion

variable {α κ : Type} [LinearOrder κ] {key : α → κ} {seen xs : List α} {best x : α}

/-- What is left of the search, with the best so far. -/
def search (key : α → κ) : List α → Option α → Except (α × α) (Option α)
  | [], best => .ok best
  | x :: xs, none => search key xs (some x)
  | x :: xs, some best =>
      match compare (key x) (key best) with
      | .gt => search key xs (some x)
      | .eq => .error (best, x)
      | .lt => search key xs (some best)

/-- Strictly the highest. -/
def Leads (key : α → κ) (xs : List α) (best : α) : Prop := best ∈ xs ∧ ∀ x ∈ xs, x = best ∨ key x < key best

/-- As high as the highest in front of it. -/
def Ties (key : α → κ) (front : List α) (x : α) : Prop := (∃ y ∈ front, key y = key x) ∧ ∀ y ∈ front, key y ≤ key x

/-- There is an element of this kind behind `seen`. -/
def Tied (key : α → κ) (seen xs : List α) : Prop := ∃ front x back, xs = front ++ x :: back ∧ Ties key (seen ++ front) x

theorem tied_nil : ¬ Tied key seen [] := fun ⟨_, _, _, h, _⟩ => List.append_ne_nil_of_right_ne_nil _ (List.cons_ne_nil _ _) h.symm

theorem tied_cons_iff : Tied key seen (x :: xs) ↔ Ties key seen x ∨ Tied key (seen ++ [x]) xs := by
  constructor
  · rintro ⟨front, y, back, heq, hties⟩
    cases front with
    | nil =>
        obtain ⟨rfl, -⟩ := List.cons.inj heq
        exact .inl (by rwa [List.append_nil] at hties)
    | cons z front =>
        obtain ⟨rfl, rfl⟩ := List.cons.inj heq
        exact .inr ⟨front, y, back, rfl, by rwa [List.append_assoc]⟩
  · rintro (hties | ⟨front, y, back, rfl, hties⟩)
    · exact ⟨[], x, xs, rfl, by rwa [List.append_nil]⟩
    · exact ⟨x :: front, y, back, rfl, by rwa [List.append_assoc] at hties⟩

/-- The highest ties with itself, and is as high as what ties with it. -/
theorem Leads.ties_iff (h : Leads key seen best) : Ties key seen x ↔ key best = key x := by
  constructor
  · rintro ⟨⟨y, hy, heq⟩, hle⟩
    refine le_antisymm (hle best h.1) (heq ▸ ?_)
    rcases h.2 y hy with rfl | hlt
    · exact le_rfl
    · exact hlt.le
  · intro heq
    refine ⟨⟨best, h.1, heq⟩, fun y hy => heq ▸ ?_⟩
    rcases h.2 y hy with rfl | hlt
    · exact le_rfl
    · exact hlt.le

/-- One more that is higher. -/
theorem Leads.above (h : Leads key seen best) (hlt : key best < key x) : Leads key (seen ++ [x]) x := by
  refine ⟨List.mem_append_right _ (List.mem_singleton.mpr rfl), fun y hy => ?_⟩
  rcases List.mem_append.mp hy with hy | hy
  · refine .inr ?_
    rcases h.2 y hy with rfl | hbelow
    · exact hlt
    · exact hbelow.trans hlt
  · exact .inl (List.mem_singleton.mp hy)

/-- One more that is lower. -/
theorem Leads.below (h : Leads key seen best) (hlt : key x < key best) : Leads key (seen ++ [x]) best := by
  refine ⟨List.mem_append_left _ h.1, fun y hy => ?_⟩
  rcases List.mem_append.mp hy with hy | hy
  · exact h.2 y hy
  · exact .inr (List.mem_singleton.mp hy ▸ hlt)

/-- From the best so far: the search finds the highest, unless there is a tie on the way. -/
theorem search_cases (h : Leads key seen best) (xs : List α) :
    (∃ b, search key xs (some best) = .ok (some b) ∧ Leads key (seen ++ xs) b ∧ ¬ Tied key seen xs) ∨
    (∃ e, search key xs (some best) = .error e ∧ Tied key seen xs) := by
  induction xs generalizing seen best with
  | nil => exact .inl ⟨best, rfl, by rwa [List.append_nil], tied_nil⟩
  | cons x xs ih =>
      rw [search, tied_cons_iff, h.ties_iff]
      rcases lt_trichotomy (key x) (key best) with hlt | heq | hgt
      · rw [compare_lt_iff_lt.mpr hlt]
        have hrest := ih (h.below hlt)
        rw [List.append_assoc] at hrest
        simpa [hlt.ne'] using hrest
      · rw [compare_eq_iff_eq.mpr heq]
        exact .inr ⟨_, rfl, .inl heq.symm⟩
      · rw [compare_gt_iff_gt.mpr hgt]
        have hrest := ih (h.above hgt)
        rw [List.append_assoc] at hrest
        simpa [hgt.ne] using hrest

/-- From the start. -/
theorem search_start (key : α → κ) (x : α) (xs : List α) :
    (∃ b, search key (x :: xs) none = .ok (some b) ∧ Leads key (x :: xs) b ∧ ¬ Tied key [] (x :: xs)) ∨
    (∃ e, search key (x :: xs) none = .error e ∧ Tied key [] (x :: xs)) := by
  have hfirst : Leads key [x] x := ⟨List.mem_singleton.mpr rfl, fun y hy => .inl (List.mem_singleton.mp hy)⟩
  have hnone : ¬ Ties key [] x := by
    rintro ⟨⟨_, hy, _⟩, _⟩
    cases hy
  have hrest := search_cases hfirst xs
  rw [tied_cons_iff]
  simpa [search, hnone] using hrest

end ProxyGateway.Champion
