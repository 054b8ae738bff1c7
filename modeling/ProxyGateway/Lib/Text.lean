import Mathlib.Algebra.GroupWithZero.Nat
import Mathlib.Data.List.DropRight

set_option autoImplicit false

/-!
# ProxyGateway.Lib.Text

Text operations in the conventions of the gateway's language, on lists of
characters: which characters count as blank, stripping, splitting at a
separator, joining, and normalizing a path. They are plain structural
definitions, so that a closed instance evaluates.
-/

namespace ProxyGateway.Text

/-- A property of the characters of a fixed text is checked one after the other. -/
theorem forall_of_all {p : Char → Prop} [DecidablePred p] {cs : List Char} (h : cs.all (fun c => decide (p c)) = true) :
    ∀ c ∈ cs, p c := fun c hc => of_decide_eq_true (List.all_eq_true.mp h c hc)

/-- `str.isspace` on one character. -/
def isSpace (c : Char) : Bool :=
  let n := c.toNat
  (9 ≤ n && n ≤ 13) || (28 ≤ n && n ≤ 32) || n == 0x85 || n == 0xA0 || n == 0x1680 ||
    (0x2000 ≤ n && n ≤ 0x200A) || n == 0x2028 || n == 0x2029 || n == 0x202F || n == 0x205F ||
    n == 0x3000

/-- Drop the characters satisfying `p` from both ends. -/
def stripBy (p : Char → Bool) (cs : List Char) : List Char :=
  ((cs.dropWhile p).reverse.dropWhile p).reverse

/-- `s.strip()`. -/
def strip (cs : List Char) : List Char := stripBy isSpace cs

theorem stripBy_eq (p : Char → Bool) (cs : List Char) :
    stripBy p cs = (cs.dropWhile p).rdropWhile p := rfl

/-- What is left is a part of the text. -/
theorem stripBy_infix (p : Char → Bool) (cs : List Char) : stripBy p cs <:+: cs := by
  rw [stripBy_eq]
  exact (List.rdropWhile_prefix p _).isInfix.trans (List.dropWhile_suffix p).isInfix

/-- Stripping once is enough. -/
theorem stripBy_stripBy (p : Char → Bool) (cs : List Char) :
    stripBy p (stripBy p cs) = stripBy p cs := by
  have hhead : ((cs.dropWhile p).rdropWhile p).dropWhile p = (cs.dropWhile p).rdropWhile p := by
    rw [List.dropWhile_eq_self_iff]
    intro hlen
    have hprefix := List.rdropWhile_prefix p (l := cs.dropWhile p)
    rw [List.IsPrefix.getElem hprefix hlen]
    exact List.dropWhile_get_zero_not p cs (Nat.lt_of_lt_of_le hlen hprefix.length_le)
  rw [stripBy_eq p (stripBy p cs), stripBy_eq, hhead, List.rdropWhile_idempotent]

/-- `s.split(sep)` for a one-character separator: always at least one piece. -/
def splitAt (sep : Char) : List Char → List (List Char)
  | [] => [[]]
  | c :: cs =>
      if c = sep then [] :: splitAt sep cs
      else match splitAt sep cs with
        | [] => [[c]]
        | piece :: pieces => (c :: piece) :: pieces

theorem splitAt_ne_nil (sep : Char) (cs : List Char) : splitAt sep cs ≠ [] := by
  cases cs with
  | nil => simp [splitAt]
  | cons c cs =>
      unfold splitAt
      split
      · simp
      · split <;> simp

/-- No piece has the separator. -/
theorem not_mem_of_mem_splitAt {sep : Char} {cs piece : List Char} (h : piece ∈ splitAt sep cs) : sep ∉ piece := by
  induction cs generalizing piece with
  | nil =>
      rw [splitAt, List.mem_singleton] at h
      simp [h]
  | cons c cs ih =>
      unfold splitAt at h
      split at h
      · rcases List.mem_cons.mp h with rfl | h
        · simp
        · exact ih h
      · next hc =>
        split at h
        · next hnil => exact absurd hnil (splitAt_ne_nil sep cs)
        · next first pieces hsplit =>
          rcases List.mem_cons.mp h with rfl | h
          · rw [List.mem_cons, not_or]
            exact ⟨fun he => hc he.symm, ih (hsplit ▸ List.mem_cons_self)⟩
          · exact ih (hsplit ▸ List.mem_cons_of_mem _ h)

/-- The text in front of the first separator is the first piece. -/
theorem splitAt_append {sep : Char} {cs : List Char} (h : sep ∉ cs) (rest : List Char) :
    splitAt sep (cs ++ sep :: rest) = cs :: splitAt sep rest := by
  induction cs with
  | nil => simp [splitAt]
  | cons c cs ih =>
      rw [List.mem_cons, not_or] at h
      rw [List.cons_append, splitAt, if_neg (Ne.symm h.1), ih h.2]

/-- `sep.join(pieces)` for a one-character separator. -/
def joinWith (sep : Char) : List (List Char) → List Char
  | [] => []
  | [piece] => piece
  | piece :: pieces => piece ++ sep :: joinWith sep pieces

/-- The text after the first occurrence of `sep`, if there is one. -/
def afterFirst (sep : Char) : List Char → Option (List Char)
  | [] => none
  | c :: cs => if c = sep then some cs else afterFirst sep cs

/-- Lines of a text opened with universal newlines. A `"\r\n"` shows up as an
extra blank line here. -/
def lines (cs : List Char) : List (List Char) :=
  (splitAt '\n' cs).flatMap (splitAt '\r')

/-- The component loop of `os.path.normpath`; `acc` holds the kept components,
last one first. -/
def normComponents (rooted : Bool) (acc : List (List Char)) : List (List Char) → List (List Char)
  | [] => acc.reverse
  | comp :: comps =>
      if comp = [] ∨ comp = ['.'] then normComponents rooted acc comps
      else if comp ≠ ['.', '.'] ∨ (rooted = false ∧ acc = []) ∨ acc.head? = some ['.', '.'] then
        normComponents rooted (comp :: acc) comps
      else normComponents rooted acc.tail comps

/-- `os.path.normpath`. -/
def normpath (path : List Char) : List Char :=
  let rooted := path.head? == some '/'
  let slashes :=
    if ['/', '/'].isPrefixOf path && !(['/', '/', '/'].isPrefixOf path) then ['/', '/']
    else if rooted then ['/'] else []
  match slashes ++ joinWith '/' (normComponents rooted [] (splitAt '/' path)) with
  | [] => ['.']
  | cs => cs

end ProxyGateway.Text
