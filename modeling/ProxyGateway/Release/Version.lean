import Mathlib.Data.Char
import Mathlib.Data.List.Lex
import Mathlib.Data.Prod.Lex
import Mathlib.Data.Sum.Order
import Mathlib.Order.WithBot
import ProxyGateway.Release.Tags

set_option autoImplicit false

/-!
# ProxyGateway.Release.Version

Versions as SemVer 2.0 has them, and their precedence. `_pdg_release_semver_parse` accepts their
texts and no others (`parse_text`, `exists_version`).
-/

namespace ProxyGateway.Release

open Regex
open Text (splitAt joinWith)
open RegularExpression (char star)

/-! ### Versions -/

/-- A number without leading zeros. -/
structure Number where
  text : List Char
  nonempty : text ≠ []
  digits : ∀ c ∈ text, c ∈ digits
  canonical : text = ['0'] ∨ text.head? ≠ some '0'

/-- The number. -/
def Number.value (n : Number) : Nat := Nat.ofDigitChars 10 n.text 0

/-- Text with a character that is no digit. -/
structure Word where
  text : List Char
  chars : ∀ c ∈ text, c ∈ identifierChars
  letter : ∃ c ∈ text, c ∉ digits

/-- An identifier of a pre-release. -/
inductive Identifier where
  | number (n : Number)
  | word (w : Word)

def Identifier.text : Identifier → List Char
  | .number n => n.text
  | .word w => w.text

/-- Numbers are lower than words, and compared as numbers. -/
def Identifier.rank : Identifier → ℕ ⊕ₗ List Char
  | .number n => toLex (.inl n.value)
  | .word w => toLex (.inr w.text)

/-- An identifier of the build. -/
structure BuildIdentifier where
  text : List Char
  nonempty : text ≠ []
  chars : ∀ c ∈ text, c ∈ identifierChars

structure Version where
  major : Number
  minor : Number
  patch : Number
  pre : List Identifier
  build : List BuildIdentifier

/-- Identifiers behind their sign, if there are any. -/
def marked (sign : Char) (identifiers : List (List Char)) : List Char :=
  if identifiers = [] then [] else sign :: joinWith '.' identifiers

/-- The core of the text. -/
def Version.core (v : Version) : List Char := joinWith '.' [v.major.text, v.minor.text, v.patch.text]

/-- The text of the tag. -/
def Version.text (v : Version) : List Char :=
  'v' :: (v.core ++ marked '-' (v.pre.map Identifier.text) ++ marked '+' (v.build.map BuildIdentifier.text))

/-- What decides on the precedence: the core, then the pre-release, where a version without one is
the highest. -/
abbrev Precedence := ℕ ×ₗ ℕ ×ₗ ℕ ×ₗ WithTop (List (ℕ ⊕ₗ List Char))

def Version.precedence (v : Version) : Precedence :=
  toLex (v.major.value, toLex (v.minor.value, toLex (v.patch.value,
    if v.pre = [] then ⊤ else (v.pre.map Identifier.rank : List (ℕ ⊕ₗ List Char)))))

variable {x value : List Char} {a b : List Char} {sep sign : Char} {pieces : List (List Char)}

/-! ### The pattern -/

/-- Text of an identifier. -/
def IsIdentifier (x : List Char) : Prop := x ≠ [] ∧ ∀ c ∈ x, c ∈ identifierChars

theorem mem_numberPattern : x ∈ numberPattern.matches' ↔ ∃ n : Number, n.text = x := by
  rw [numberPattern, mem_add, mem_char, mem_mul]
  constructor
  · rintro (rfl | ⟨first, hfirst, rest, hrest, rfl⟩)
    · exact ⟨⟨['0'], List.cons_ne_nil _ _, Text.forall_of_all (by decide), .inl rfl⟩, rfl⟩
    · obtain ⟨c, hc, rfl⟩ := mem_oneOf.mp hfirst
      rw [mem_star_oneOf] at hrest
      have hdigit : ∀ c ∈ nonzeroDigits, c ∈ digits ∧ c ≠ '0' := Text.forall_of_all (by decide)
      refine ⟨⟨c :: rest, List.cons_ne_nil _ _, List.forall_mem_cons.mpr ⟨(hdigit c hc).1, hrest⟩, .inr ?_⟩, rfl⟩
      exact fun heq => (hdigit c hc).2 (Option.some.inj heq)
  · rintro ⟨n, rfl⟩
    rcases n.canonical with hzero | hhead
    · exact .inl hzero
    · obtain ⟨c, rest, htext⟩ := List.exists_cons_of_ne_nil n.nonempty
      have hdigits := n.digits
      rw [htext] at hhead hdigits ⊢
      obtain ⟨hc, hrest⟩ := List.forall_mem_cons.mp hdigits
      have hnonzero : ∀ c ∈ digits, c ≠ '0' → c ∈ nonzeroDigits := Text.forall_of_all (by decide)
      have hne : c ≠ '0' := fun heq => hhead (congrArg some heq)
      exact .inr ⟨[c], mem_oneOf.mpr ⟨c, hnonzero c hc hne, rfl⟩, rest, mem_star_oneOf.mpr hrest, rfl⟩

/-- An optional part of the pattern. -/
theorem mem_optional_identifiers : x ∈ (optional (char sign * identifiersPattern)).matches' ↔
    ∃ pieces, (∀ piece ∈ pieces, IsIdentifier piece) ∧ x = marked sign pieces := by
  rw [mem_optional, mem_mul, identifiersPattern]
  constructor
  · rintro (rfl | ⟨first, hfirst, rest, hrest, rfl⟩)
    · exact ⟨[], List.forall_mem_nil _, rfl⟩
    · obtain ⟨pieces, hne, hpieces, rfl⟩ := mem_separated.mp hrest
      refine ⟨pieces, fun piece hpiece => mem_many_oneOf.mp (hpieces piece hpiece), ?_⟩
      rw [mem_char.mp hfirst, marked, if_neg hne]
      rfl
  · rintro ⟨pieces, hpieces, rfl⟩
    by_cases hne : pieces = []
    · exact .inl (if_pos hne)
    · refine .inr ⟨[sign], rfl, joinWith '.' pieces, mem_separated.mpr ⟨pieces, hne, fun piece hpiece => ?_, rfl⟩, ?_⟩
      · exact mem_many_oneOf.mpr (hpieces piece hpiece)
      · rw [marked, if_neg hne]
        rfl

/-- A text with the parts of a tag. -/
def tagText (major minor patch : Number) (pre build : List (List Char)) : List Char :=
  'v' :: (joinWith '.' [major.text, minor.text, patch.text] ++ marked '-' pre ++ marked '+' build)

theorem mem_tagPattern : value ∈ tagPattern.matches' ↔ ∃ major minor patch pre build,
    (∀ piece ∈ pre, IsIdentifier piece) ∧ (∀ piece ∈ build, IsIdentifier piece) ∧
    value = tagText major minor patch pre build := by
  constructor
  · intro h
    obtain ⟨_, hv, _, hcore, rfl⟩ := mem_mul.mp h
    obtain ⟨_, hmajor, _, hdots, rfl⟩ := mem_mul.mp hcore
    obtain ⟨_, hdot, _, hnumbers, rfl⟩ := mem_mul.mp hdots
    obtain ⟨_, hminor, _, hlast, rfl⟩ := mem_mul.mp hnumbers
    obtain ⟨_, hdot', _, hrest, rfl⟩ := mem_mul.mp hlast
    obtain ⟨_, hpatch, _, hmarked, rfl⟩ := mem_mul.mp hrest
    obtain ⟨_, hpre, _, hbuild, rfl⟩ := mem_mul.mp hmarked
    obtain ⟨major, rfl⟩ := mem_numberPattern.mp hmajor
    obtain ⟨minor, rfl⟩ := mem_numberPattern.mp hminor
    obtain ⟨patch, rfl⟩ := mem_numberPattern.mp hpatch
    obtain ⟨pre, hpres, rfl⟩ := mem_optional_identifiers.mp hpre
    obtain ⟨build, hbuilds, rfl⟩ := mem_optional_identifiers.mp hbuild
    refine ⟨major, minor, patch, pre, build, hpres, hbuilds, ?_⟩
    rw [mem_char.mp hv, mem_char.mp hdot, mem_char.mp hdot']
    simp [tagText, joinWith]
  · rintro ⟨major, minor, patch, pre, build, hpre, hbuild, rfl⟩
    refine mem_mul.mpr ⟨['v'], rfl, _, mem_mul.mpr ⟨major.text, mem_numberPattern.mpr ⟨major, rfl⟩, _,
      mem_mul.mpr ⟨['.'], rfl, _, mem_mul.mpr ⟨minor.text, mem_numberPattern.mpr ⟨minor, rfl⟩, _,
      mem_mul.mpr ⟨['.'], rfl, _, mem_mul.mpr ⟨patch.text, mem_numberPattern.mpr ⟨patch, rfl⟩, _,
      mem_mul.mpr ⟨_, mem_optional_identifiers.mpr ⟨pre, hpre, rfl⟩, _,
      mem_optional_identifiers.mpr ⟨build, hbuild, rfl⟩, rfl⟩, rfl⟩, rfl⟩, rfl⟩, rfl⟩, rfl⟩, ?_⟩
    simp [tagText, joinWith]

/-! ### The parts of a tag -/

theorem upTo_append (h : sep ∉ a) (b : List Char) : upTo sep (a ++ sep :: b) = a := by
  have hkeep : ∀ c ∈ a, decide (c ≠ sep) = true := fun c hc => decide_eq_true fun heq => h (heq ▸ hc)
  rw [upTo, List.takeWhile_append_of_pos hkeep, List.takeWhile_cons_of_neg (by simp), List.append_nil]

theorem behind_append (h : sep ∉ a) (b : List Char) : behind sep (a ++ sep :: b) = b := by
  have hkeep : ∀ c ∈ a, decide (c ≠ sep) = true := fun c hc => decide_eq_true fun heq => h (heq ▸ hc)
  rw [behind, List.dropWhile_append_of_pos hkeep, List.dropWhile_cons_of_neg (by simp)]
  rfl

/-- Take a marked part off the end. -/
theorem unmark (h : sign ∉ a) (pieces : List (List Char)) :
    (if sign ∈ a ++ marked sign pieces then upTo sign (a ++ marked sign pieces) else a ++ marked sign pieces) = a ∧
    (if sign ∈ a ++ marked sign pieces then behind sign (a ++ marked sign pieces) else []) = joinWith '.' pieces := by
  by_cases hne : pieces = []
  · rw [hne, marked, if_pos rfl, List.append_nil, if_neg h, if_neg h]
    exact ⟨rfl, rfl⟩
  · have hin : sign ∈ a ++ sign :: joinWith '.' pieces := List.mem_append_right _ List.mem_cons_self
    rw [marked, if_neg hne, if_pos hin, if_pos hin]
    exact ⟨upTo_append h _, behind_append h _⟩

theorem not_mem_joinWith {c : Char} (hsep : c ≠ sep) (h : ∀ piece ∈ pieces, c ∉ piece) : c ∉ joinWith sep pieces := by
  intro hin
  rcases Text.mem_of_mem_joinWith hin with heq | ⟨piece, hpiece, hc⟩
  · exact hsep heq
  · exact h piece hpiece hc

theorem not_mem_marked {c : Char} (hsign : c ≠ sign) (hdot : c ≠ '.') (h : ∀ piece ∈ pieces, c ∉ piece) :
    c ∉ marked sign pieces := by
  unfold marked
  split
  · exact List.not_mem_nil
  · rw [List.mem_cons, not_or]
    exact ⟨hsign, not_mem_joinWith hdot h⟩

theorem joinWith_ne_nil (hne : pieces ≠ []) (h : ∀ piece ∈ pieces, IsIdentifier piece) : joinWith sep pieces ≠ [] := by
  obtain ⟨first, rest, rfl⟩ := List.exists_cons_of_ne_nil hne
  rw [joinWith_eq_flatten]
  exact List.append_ne_nil_of_left_ne_nil (h first List.mem_cons_self).1 _

/-- The parse of a text with the parts of a tag. -/
theorem parse_tagText (major minor patch : Number) {pre build : List (List Char)}
    (hpre : ∀ piece ∈ pre, IsIdentifier piece) (hbuild : ∀ piece ∈ build, IsIdentifier piece) :
    releaseSemverParse (tagText major minor patch pre build) =
      if pre.any hasLeadingZero then none
      else some ⟨joinWith '.' [major.text, minor.text, patch.text], joinWith '.' pre, joinWith '.' build⟩ := by
  have hmatch : tagPattern.rmatch (tagText major minor patch pre build) = true :=
    (RegularExpression.rmatch_iff_matches' _ _).mpr (mem_tagPattern.mpr ⟨major, minor, patch, pre, build, hpre, hbuild, rfl⟩)
  have hcore : ∀ c, c ∉ digits → c ≠ '.' → c ∉ joinWith '.' [major.text, minor.text, patch.text] := by
    intro c hc hdot
    refine not_mem_joinWith hdot fun piece hpiece hin => hc ?_
    simp only [List.mem_cons, List.not_mem_nil, or_false] at hpiece
    rcases hpiece with rfl | rfl | rfl
    · exact major.digits c hin
    · exact minor.digits c hin
    · exact patch.digits c hin
  have hplus : '+' ∉ joinWith '.' [major.text, minor.text, patch.text] ++ marked '-' pre := by
    rw [List.mem_append, not_or]
    refine ⟨hcore '+' (by decide) (by decide), not_mem_marked (by decide) (by decide) fun piece hpiece hin => ?_⟩
    exact absurd ((hpre piece hpiece).2 '+' hin) (by decide)
  have hminus := hcore '-' (by decide) (by decide)
  obtain ⟨hfront, hback⟩ := unmark hplus build
  obtain ⟨hnumbers, hidentifiers⟩ := unmark hminus pre
  have htail : (if (tagText major minor patch pre build).head? = some 'v' then (tagText major minor patch pre build).drop 1
      else tagText major minor patch pre build) =
      joinWith '.' [major.text, minor.text, patch.text] ++ marked '-' pre ++ marked '+' build := if_pos rfl
  have hpieces : (joinWith '.' pre ≠ [] ∧ (splitAt '.' (joinWith '.' pre)).any hasLeadingZero = true) ↔
      pre.any hasLeadingZero = true := by
    by_cases hne : pre = []
    · rw [hne]
      simp [joinWith]
    · have hsplit : splitAt '.' (joinWith '.' pre) = pre := Text.splitAt_joinWith hne fun piece hpiece hin =>
        absurd ((hpre piece hpiece).2 '.' hin) (by decide)
      rw [hsplit]
      exact and_iff_right (joinWith_ne_nil hne hpre)
  unfold releaseSemverParse
  rw [if_pos hmatch]
  dsimp only
  rw [htail, hfront, hback, hnumbers, hidentifiers]
  simp only [hpieces]

/-! ### Identifiers -/

theorem isNumeric_iff : isNumeric x = true ↔ x ≠ [] ∧ ∀ c ∈ x, c ∈ digits := by
  simp [isNumeric]

theorem isNumeric_number (n : Number) : isNumeric n.text = true := isNumeric_iff.mpr ⟨n.nonempty, n.digits⟩

theorem isNumeric_word (w : Word) : isNumeric w.text = false := by
  refine Bool.eq_false_iff.mpr fun h => ?_
  obtain ⟨c, hc, hletter⟩ := w.letter
  exact hletter ((isNumeric_iff.mp h).2 c hc)

theorem isIdentifier_text (ident : Identifier) : IsIdentifier ident.text := by
  cases ident with
  | number n =>
      have hsub : ∀ c ∈ digits, c ∈ identifierChars := Text.forall_of_all (by decide)
      exact ⟨n.nonempty, fun c hc => hsub c (n.digits c hc)⟩
  | word w =>
      obtain ⟨c, hc, -⟩ := w.letter
      exact ⟨List.ne_nil_of_mem hc, w.chars⟩

/-- The identifiers of a pre-release are the pieces that the loop lets pass. -/
theorem exists_identifier (h : IsIdentifier x) : (∃ ident : Identifier, ident.text = x) ↔ hasLeadingZero x = false := by
  constructor
  · rintro ⟨ident, rfl⟩
    cases ident with
    | number n =>
        rcases n.canonical with hzero | hhead
        · simp [Identifier.text, hasLeadingZero, hzero]
        · simp [Identifier.text, hasLeadingZero, hhead]
    | word w => simp [Identifier.text, hasLeadingZero, isNumeric_word]
  · intro hleading
    by_cases hnumeric : isNumeric x = true
    · refine ⟨.number ⟨x, h.1, (isNumeric_iff.mp hnumeric).2, ?_⟩, rfl⟩
      by_cases hzero : x = ['0']
      · exact .inl hzero
      · refine .inr fun hhead => ?_
        simp [hasLeadingZero, hnumeric, hzero, hhead] at hleading
    · refine ⟨.word ⟨x, h.2, ?_⟩, rfl⟩
      by_contra hnone
      refine hnumeric (isNumeric_iff.mpr ⟨h.1, fun c hc => ?_⟩)
      by_contra hletter
      exact hnone ⟨c, hc, hletter⟩

/-- Every text that is accepted is the text of a version. -/
theorem exists_version (h : releaseSemverValid value = true) : ∃ v : Version, v.text = value := by
  rw [releaseSemverValid] at h
  have hmatch : value ∈ tagPattern.matches' := by
    unfold releaseSemverParse at h
    split at h
    next hmatch => exact (RegularExpression.rmatch_iff_matches' _ _).mp hmatch
    · cases h
  obtain ⟨major, minor, patch, pre, build, hpre, hbuild, rfl⟩ := mem_tagPattern.mp hmatch
  rw [parse_tagText major minor patch hpre hbuild] at h
  have hpieces : ∀ piece ∈ pre, hasLeadingZero piece = false := by
    split at h
    · cases h
    next hnone => simpa using hnone
  have hidentifiers : ∃ identifiers : List Identifier, identifiers.map Identifier.text = pre := by
    clear h hmatch
    induction pre with
    | nil => exact ⟨[], rfl⟩
    | cons piece pre ih =>
        obtain ⟨hpiece, hrest⟩ := List.forall_mem_cons.mp hpre
        obtain ⟨hleading, hothers⟩ := List.forall_mem_cons.mp hpieces
        obtain ⟨ident, hident⟩ := (exists_identifier hpiece).mpr hleading
        obtain ⟨identifiers, hidentifiers⟩ := ih hrest hothers
        exact ⟨ident :: identifiers, by rw [List.map_cons, hident, hidentifiers]⟩
  obtain ⟨identifiers, rfl⟩ := hidentifiers
  have hbuilds : ∃ builds : List BuildIdentifier, builds.map BuildIdentifier.text = build := by
    refine ⟨build.attach.map fun b => ⟨b.1, (hbuild b.1 b.2).1, (hbuild b.1 b.2).2⟩, ?_⟩
    rw [List.map_map]
    exact List.attach_map_subtype_val build
  obtain ⟨builds, rfl⟩ := hbuilds
  exact ⟨⟨major, minor, patch, identifiers, builds⟩, rfl⟩

/-- The text of a version is accepted, and taken apart into its parts. -/
theorem parse_text (v : Version) : releaseSemverParse v.text =
    some ⟨v.core, joinWith '.' (v.pre.map Identifier.text), joinWith '.' (v.build.map BuildIdentifier.text)⟩ := by
  have hpre : ∀ piece ∈ v.pre.map Identifier.text, IsIdentifier piece := by
    intro piece hpiece
    obtain ⟨ident, -, rfl⟩ := List.mem_map.mp hpiece
    exact isIdentifier_text ident
  have hbuild : ∀ piece ∈ v.build.map BuildIdentifier.text, IsIdentifier piece := by
    intro piece hpiece
    obtain ⟨ident, -, rfl⟩ := List.mem_map.mp hpiece
    exact ⟨ident.nonempty, ident.chars⟩
  have hnone : ¬ (v.pre.map Identifier.text).any hasLeadingZero = true := by
    rw [List.any_map, List.any_eq_true]
    rintro ⟨ident, -, hleading⟩
    rw [Function.comp_apply, (exists_identifier (isIdentifier_text ident)).mp ⟨ident, rfl⟩] at hleading
    cases hleading
  exact (parse_tagText v.major v.minor v.patch hpre hbuild).trans (if_neg hnone)

/-- The accepted texts are the texts of versions. -/
theorem valid_iff : releaseSemverValid value = true ↔ ∃ v : Version, v.text = value :=
  ⟨exists_version, fun ⟨v, hv⟩ => by rw [← hv, releaseSemverValid, parse_text]; rfl⟩

end ProxyGateway.Release
