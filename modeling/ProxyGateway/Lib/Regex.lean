import Mathlib.Computability.RegularExpressions
import ProxyGateway.Lib.Lines

set_option autoImplicit false

/-!
# ProxyGateway.Lib.Regex

Regular expressions as programs write them, over the regular expressions of the library: character
classes, `e+` and `e?`, and which texts they match.
-/

namespace ProxyGateway.Regex

open RegularExpression
open Text (joinWith)

variable {e : RegularExpression Char} {cs : List Char} {x : List Char}

/-- `[cs]` -/
def oneOf : List Char → RegularExpression Char
  | [] => 0
  | c :: cs => char c + oneOf cs

/-- `e+` -/
def many (e : RegularExpression Char) : RegularExpression Char := e * star e

/-- `e?` -/
def optional (e : RegularExpression Char) : RegularExpression Char := 1 + e

/-- `e(sep e)*` -/
def separated (sep : Char) (e : RegularExpression Char) : RegularExpression Char := e * star (char sep * e)

theorem mem_char {c : Char} : x ∈ (char c).matches' ↔ x = [c] := Iff.rfl

theorem mem_mul {e₁ e₂ : RegularExpression Char} :
    x ∈ (e₁ * e₂).matches' ↔ ∃ y ∈ e₁.matches', ∃ z ∈ e₂.matches', y ++ z = x := by
  rw [matches'_mul, Language.mem_mul]

theorem mem_add {e₁ e₂ : RegularExpression Char} :
    x ∈ (e₁ + e₂).matches' ↔ x ∈ e₁.matches' ∨ x ∈ e₂.matches' := by
  rw [matches'_add, Language.mem_add]

theorem mem_star : x ∈ (star e).matches' ↔ ∃ parts : List (List Char), x = parts.flatten ∧ ∀ y ∈ parts, y ∈ e.matches' := by
  rw [matches'_star, Language.mem_kstar]

theorem mem_oneOf : x ∈ (oneOf cs).matches' ↔ ∃ c ∈ cs, x = [c] := by
  induction cs with
  | nil =>
      rw [oneOf, matches'_zero]
      simp
  | cons c cs ih =>
      rw [oneOf, mem_add, mem_char, ih]
      simp

theorem mem_optional : x ∈ (optional e).matches' ↔ x = [] ∨ x ∈ e.matches' := by
  rw [optional, mem_add, matches'_epsilon, Language.mem_one]

theorem mem_star_oneOf : x ∈ (star (oneOf cs)).matches' ↔ ∀ c ∈ x, c ∈ cs := by
  rw [mem_star]
  constructor
  · rintro ⟨parts, rfl, hparts⟩ c hc
    obtain ⟨part, hpart, hc⟩ := List.mem_flatten.mp hc
    obtain ⟨d, hd, rfl⟩ := mem_oneOf.mp (hparts part hpart)
    rw [List.mem_singleton.mp hc]
    exact hd
  · intro h
    refine ⟨x.map ([·]), ?_, fun y hy => ?_⟩
    · rw [← List.flatMap_def, List.flatMap_singleton']
    · obtain ⟨c, hc, rfl⟩ := List.mem_map.mp hy
      exact mem_oneOf.mpr ⟨c, h c hc, rfl⟩

theorem mem_many_oneOf : x ∈ (many (oneOf cs)).matches' ↔ x ≠ [] ∧ ∀ c ∈ x, c ∈ cs := by
  rw [many, mem_mul]
  constructor
  · rintro ⟨first, hfirst, rest, hrest, rfl⟩
    obtain ⟨c, hc, rfl⟩ := mem_oneOf.mp hfirst
    rw [mem_star_oneOf] at hrest
    exact ⟨List.cons_ne_nil c rest, List.forall_mem_cons.mpr ⟨hc, hrest⟩⟩
  · rintro ⟨hne, h⟩
    obtain ⟨c, rest, rfl⟩ := List.exists_cons_of_ne_nil hne
    obtain ⟨hc, hrest⟩ := List.forall_mem_cons.mp h
    exact ⟨[c], mem_oneOf.mpr ⟨c, hc, rfl⟩, rest, mem_star_oneOf.mpr hrest, rfl⟩

theorem joinWith_eq_flatten (sep : Char) (first : List Char) (pieces : List (List Char)) :
    joinWith sep (first :: pieces) = first ++ (pieces.map (sep :: ·)).flatten := by
  induction pieces generalizing first with
  | nil => exact (List.append_nil first).symm
  | cons next pieces ih =>
      rw [Text.joinWith_cons, ih next]
      rfl

theorem mem_separated {sep : Char} : x ∈ (separated sep e).matches' ↔
    ∃ pieces : List (List Char), pieces ≠ [] ∧ (∀ piece ∈ pieces, piece ∈ e.matches') ∧ x = joinWith sep pieces := by
  rw [separated, mem_mul]
  constructor
  · rintro ⟨first, hfirst, rest, hrest, rfl⟩
    obtain ⟨parts, rfl, hparts⟩ := mem_star.mp hrest
    have hpieces : ∃ pieces : List (List Char), parts = pieces.map (sep :: ·) ∧ ∀ piece ∈ pieces, piece ∈ e.matches' := by
      clear hrest
      induction parts with
      | nil => exact ⟨[], rfl, List.forall_mem_nil _⟩
      | cons part parts ih =>
          obtain ⟨hpart, hparts⟩ := List.forall_mem_cons.mp hparts
          obtain ⟨pieces, rfl, hpieces⟩ := ih hparts
          obtain ⟨dot, hdot, piece, hpiece, rfl⟩ := mem_mul.mp hpart
          rw [mem_char.mp hdot]
          exact ⟨piece :: pieces, rfl, List.forall_mem_cons.mpr ⟨hpiece, hpieces⟩⟩
    obtain ⟨pieces, rfl, hpieces⟩ := hpieces
    exact ⟨first :: pieces, List.cons_ne_nil _ _, List.forall_mem_cons.mpr ⟨hfirst, hpieces⟩,
      (joinWith_eq_flatten sep first pieces).symm⟩
  · rintro ⟨pieces, hne, h, rfl⟩
    obtain ⟨first, pieces, rfl⟩ := List.exists_cons_of_ne_nil hne
    obtain ⟨hfirst, hpieces⟩ := List.forall_mem_cons.mp h
    refine ⟨first, hfirst, (pieces.map (sep :: ·)).flatten, ?_, (joinWith_eq_flatten sep first pieces).symm⟩
    refine mem_star.mpr ⟨_, rfl, fun part hpart => ?_⟩
    obtain ⟨piece, hpiece, rfl⟩ := List.mem_map.mp hpart
    exact mem_mul.mpr ⟨[sep], rfl, piece, hpieces piece hpiece, rfl⟩

end ProxyGateway.Regex
