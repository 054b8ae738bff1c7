import ProxyGateway.Lib.Lines

set_option autoImplicit false

/-!
# ProxyGateway.Lib.Pattern

Backtracking patterns in the conventions of the gateway's language. A pattern gives all the places where
it can end, the preferred one first, so that what `re.match` takes is the first of them.
-/

namespace ProxyGateway

open Text (isSpace)

/-- A pattern. Of two branches the first one is preferred, and of the repetitions the longest one. -/
inductive Pattern where
  | empty
  | text (cs : List Char)
  | many (p : Char → Bool) (least : Nat)
  | boundary
  | lineStart
  | lineStop
  | stop
  | seq (a b : Pattern)
  | either (a b : Pattern)
  | group (a : Pattern)

namespace Pattern

/-- A place in a text: what stands in front of it, last character first, what is left, and the groups that
were read on the way. -/
structure Spot where
  before : List Char
  rest : List Char
  groups : List (List Char)

def Spot.start (cs : List Char) : Spot := ⟨[], cs, []⟩

def Spot.advance (s : Spot) (n : Nat) : Spot := ⟨(s.rest.take n).reverse ++ s.before, s.rest.drop n, s.groups⟩

/-- `\b`; `word` are the characters of `\w`. -/
def Spot.atBoundary (word : Char → Bool) (s : Spot) : Bool := s.before.head?.any word != s.rest.head?.any word

/-- Where the pattern can end, the preferred place first. -/
def runs (word : Char → Bool) : Pattern → Spot → List Spot
  | .empty, s => [s]
  | .text cs, s => if cs.isPrefixOf s.rest then [s.advance cs.length] else []
  | .many p least, s =>
      (((List.range ((s.rest.takeWhile p).length + 1)).reverse).filter (least ≤ ·)).map s.advance
  | .boundary, s => if s.atBoundary word then [s] else []
  | .lineStart, s => if s.before.head?.all (· = '\n') then [s] else []
  | .lineStop, s => if s.rest.head?.all (· = '\n') then [s] else []
  | .stop, s => if s.rest = [] ∨ s.rest = ['\n'] then [s] else []
  | .seq a b, s => (runs word a s).flatMap (runs word b)
  | .either a b, s => runs word a s ++ runs word b s
  | .group a, s => (runs word a s).map fun t =>
      { t with groups := t.groups ++ [s.rest.take (s.rest.length - t.rest.length)] }

/-- `re.match` -/
def matchStart (word : Char → Bool) (a : Pattern) (cs : List Char) : Option Spot := (runs word a (.start cs)).head?

/-- `re.fullmatch` -/
def fullMatch (word : Char → Bool) (a : Pattern) (cs : List Char) : Bool := (runs word a (.start cs)).any (·.rest = [])

/-- `re.search` from a place on: the text that the match begins, and its end. -/
def searchFrom (word : Char → Bool) (a : Pattern) (before : List Char) : List Char → Option (List Char × Spot)
  | [] => (runs word a ⟨before, [], []⟩).head?.map ([], ·)
  | c :: cs =>
      match (runs word a ⟨before, c :: cs, []⟩).head? with
      | some t => some (c :: cs, t)
      | none => searchFrom word a (c :: before) cs

/-- `re.search` -/
def search (word : Char → Bool) (a : Pattern) (cs : List Char) : Option (List Char × Spot) := searchFrom word a [] cs

/-- The matches in the rest, where `skip` characters belong to the last one. -/
def findFrom (word : Char → Bool) (a : Pattern) : Nat → List Char → List Char → List Spot
  | _, _, [] => []
  | skip + 1, before, c :: cs => findFrom word a skip (c :: before) cs
  | 0, before, c :: cs =>
      match (runs word a ⟨before, c :: cs, []⟩).head? with
      | some t => t :: findFrom word a (cs.length - t.rest.length) (c :: before) cs
      | none => findFrom word a 0 (c :: before) cs

/-- `re.findall` for a pattern that takes a character. -/
def findAll (word : Char → Bool) (a : Pattern) (cs : List Char) : List Spot := findFrom word a 0 [] cs

/-! ### Patterns as they are written -/

/-- One pattern after the other. -/
def all : List Pattern → Pattern
  | [] => .empty
  | a :: as => .seq a (all as)

/-- A pattern of fixed characters. -/
def lit (s : String) : Pattern := .text s.toList

/-- `\s*` -/
def blank : Pattern := .many isSpace 0

/-- `\s+` -/
def blanks : Pattern := .many isSpace 1

/-- `\S+` -/
def solid : Pattern := .many (fun c => !isSpace c) 1

/-- `a?` -/
def optional (a : Pattern) : Pattern := .either a .empty

/-! ### What a pattern takes -/

variable {word : Char → Bool} {s t : Spot} {a b : Pattern} {cs : List Char}

@[simp] theorem mem_runs_empty : t ∈ runs word .empty s ↔ t = s := List.mem_singleton

@[simp] theorem mem_runs_seq : t ∈ runs word (.seq a b) s ↔ ∃ u ∈ runs word a s, t ∈ runs word b u := List.mem_flatMap

theorem advance_append (s : Spot) {xs ys : List Char} (h : s.rest = xs ++ ys) :
    s.advance xs.length = ⟨xs.reverse ++ s.before, ys, s.groups⟩ := by
  rw [Spot.advance, h, List.take_left, List.drop_left]

theorem mem_runs_text : t ∈ runs word (.text cs) s ↔
    ∃ ys, s.rest = cs ++ ys ∧ t = ⟨cs.reverse ++ s.before, ys, s.groups⟩ := by
  rw [runs]
  split
  next h =>
    obtain ⟨ys, hys⟩ := List.isPrefixOf_iff_prefix.mp h
    rw [List.mem_singleton, advance_append s hys.symm]
    constructor
    · rintro rfl
      exact ⟨ys, hys.symm, rfl⟩
    · rintro ⟨zs, hzs, rfl⟩
      rw [List.append_cancel_left (hys.trans hzs)]
  next h =>
    refine iff_of_false List.not_mem_nil ?_
    rintro ⟨ys, hys, -⟩
    exact h (List.isPrefixOf_iff_prefix.mpr ⟨ys, hys.symm⟩)

theorem mem_runs_many {p : Char → Bool} {least : Nat} : t ∈ runs word (.many p least) s ↔
    ∃ xs ys, s.rest = xs ++ ys ∧ (∀ c ∈ xs, p c = true) ∧ least ≤ xs.length ∧
      t = ⟨xs.reverse ++ s.before, ys, s.groups⟩ := by
  simp only [runs, List.mem_map, List.mem_filter, List.mem_reverse, List.mem_range, decide_eq_true_eq]
  constructor
  · rintro ⟨n, ⟨hn, hleast⟩, rfl⟩
    have hfront := List.takeWhile_prefix p (l := s.rest)
    have hlength : (s.rest.take n).length = n := by
      rw [List.length_take]
      exact Nat.min_eq_left ((Nat.le_of_lt_succ hn).trans hfront.length_le)
    refine ⟨s.rest.take n, s.rest.drop n, (List.take_append_drop n s.rest).symm, fun c hc => ?_, by omega, rfl⟩
    have hpart : s.rest.take n <+: s.rest.takeWhile p :=
      List.prefix_of_prefix_length_le (List.take_prefix n s.rest) hfront (by omega)
    exact List.mem_takeWhile_imp (hpart.subset hc)
  · rintro ⟨xs, ys, hrest, hxs, hleast, rfl⟩
    refine ⟨xs.length, ⟨?_, hleast⟩, advance_append s hrest⟩
    rw [hrest, List.takeWhile_append_of_pos hxs, List.length_append]
    omega

theorem mem_runs_group : t ∈ runs word (.group a) s ↔
    ∃ u ∈ runs word a s, t = { u with groups := u.groups ++ [s.rest.take (s.rest.length - u.rest.length)] } := by
  rw [runs, List.mem_map]
  exact exists_congr fun u => and_congr_right fun _ => eq_comm

theorem mem_runs_optional : t ∈ runs word (Pattern.optional a) s ↔ t ∈ runs word a s ∨ t = s := by
  rw [Pattern.optional, runs, List.mem_append, mem_runs_empty]

/-- At the end of the text. -/
theorem mem_runs_stop (h : s.rest = []) : s ∈ runs word .stop s := by
  rw [runs, if_pos (.inl h)]
  exact List.mem_singleton_self _

/-- There is a match if the pattern can end at all. -/
theorem matchStart_isSome : (matchStart word a cs).isSome = true ↔ ∃ t, t ∈ runs word a (.start cs) := by
  rw [matchStart, List.isSome_head?]
  exact ⟨fun h => List.exists_mem_of_ne_nil _ h, fun ⟨t, ht⟩ => List.ne_nil_of_mem ht⟩

theorem searchFrom_isSome {before : List Char} (h : (searchFrom word a before cs).isSome = true) :
    ∃ pre post, cs = pre ++ post ∧ ∃ t, t ∈ runs word a ⟨pre.reverse ++ before, post, []⟩ := by
  induction cs generalizing before with
  | nil =>
      rw [searchFrom, Option.isSome_map, List.isSome_head?] at h
      exact ⟨[], [], rfl, List.exists_mem_of_ne_nil _ h⟩
  | cons c cs ih =>
      rw [searchFrom] at h
      split at h
      next t ht => exact ⟨[], c :: cs, rfl, t, List.mem_of_mem_head? ht⟩
      · obtain ⟨pre, post, rfl, t, ht⟩ := ih h
        exact ⟨c :: pre, post, rfl, t, by simpa using ht⟩

/-- What is found begins somewhere in the text. -/
theorem exists_of_search (h : (search word a cs).isSome = true) :
    ∃ pre post, cs = pre ++ post ∧ ∃ t, t ∈ runs word a ⟨pre.reverse, post, []⟩ := by
  obtain ⟨pre, post, hcs, ht⟩ := searchFrom_isSome h
  exact ⟨pre, post, hcs, by rwa [List.append_nil] at ht⟩

theorem mem_of_matchStart (h : matchStart word a cs = some t) : t ∈ runs word a (.start cs) :=
  List.mem_of_mem_head? h

end Pattern

end ProxyGateway
