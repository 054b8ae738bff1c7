import ProxyGateway.Lib.Lines

set_option autoImplicit false

/-!
# ProxyGateway.Lib.Pieces

Splitting a text at a piece, counting the piece and replacing it. What is replaced is put between the pieces of the split
(`intercalate_splitOn`), so that a text stays as it is exactly if the piece does not occur
(`replace_eq_self_iff`), and only the pieces of the split are kept whatever is put in (`intercalate_inj`).
-/

namespace ProxyGateway.Text

variable {old new : List Char} {cs x y : List Char} {xs ys : List (List Char)}

/-- The pieces of the rest where `skip` characters belong to an occurrence. -/
def splitOnFrom (old : List Char) : Nat → List Char → List (List Char)
  | _, [] => [[]]
  | skip + 1, _ :: cs => splitOnFrom old skip cs
  | 0, c :: cs =>
      if old.isPrefixOf (c :: cs) then [] :: splitOnFrom old (old.length - 1) cs
      else match splitOnFrom old 0 cs with
        | [] => [[c]]
        | piece :: pieces => (c :: piece) :: pieces

/-- `text.split(old)` for an `old` that is not empty. -/
def splitOn (old cs : List Char) : List (List Char) := splitOnFrom old 0 cs

theorem splitOnFrom_ne_nil (old : List Char) (skip : Nat) (cs : List Char) : splitOnFrom old skip cs ≠ [] := by
  induction cs generalizing skip with
  | nil => cases skip <;> exact List.cons_ne_nil _ _
  | cons c cs ih =>
      cases skip with
      | succ skip => exact ih skip
      | zero =>
          rw [splitOnFrom]
          split
          · exact List.cons_ne_nil _ _
          · split <;> exact List.cons_ne_nil _ _

theorem intercalate_splitOnFrom (old new : List Char) (skip : Nat) (cs : List Char) :
    new.intercalate (splitOnFrom old skip cs) = replaceFrom old new skip cs := by
  induction cs generalizing skip with
  | nil => cases skip <;> exact List.intercalate_singleton
  | cons c cs ih =>
      cases skip with
      | succ skip => exact ih skip
      | zero =>
          rw [splitOnFrom, replaceFrom]
          split
          · rw [List.intercalate_cons_of_ne_nil (splitOnFrom_ne_nil _ _ _), ih, List.nil_append]
          · have hrest := ih 0
            cases hsplit : splitOnFrom old 0 cs with
            | nil => exact (splitOnFrom_ne_nil _ _ _ hsplit).elim
            | cons piece pieces =>
                rw [hsplit] at hrest
                rw [List.intercalate_cons_cons_left, hrest]

/-- What replaces the piece stands between the pieces of the split. -/
theorem intercalate_splitOn (old new cs : List Char) : new.intercalate (splitOn old cs) = replace old new cs :=
  intercalate_splitOnFrom old new 0 cs

theorem replaceFrom_self (hold : old ≠ []) (skip : Nat) (cs : List Char) : replaceFrom old old skip cs = cs.drop skip := by
  induction cs generalizing skip with
  | nil => cases skip <;> rfl
  | cons c cs ih =>
      cases skip with
      | succ skip => exact ih skip
      | zero =>
          rw [replaceFrom]
          split
          next hprefix =>
            obtain ⟨rest, hrest⟩ := List.isPrefixOf_iff_prefix.mp hprefix
            obtain ⟨o, old', rfl⟩ := List.exists_cons_of_ne_nil hold
            obtain ⟨rfl, rfl⟩ := List.cons.inj hrest
            rw [ih, List.length_cons, Nat.add_sub_cancel]
            exact congrArg (o :: old' ++ ·) List.drop_left
          · rw [ih]
            rfl

/-- A piece that is replaced by itself. -/
theorem replace_self (hold : old ≠ []) (cs : List Char) : replace old old cs = cs := replaceFrom_self hold 0 cs

/-- A text in which the piece occurs has more than one piece. -/
theorem splitOn_of_infix (hold : old ≠ []) (h : old <:+: cs) : ∃ x y xs, splitOn old cs = x :: y :: xs := by
  induction cs with
  | nil => exact (hold (List.infix_nil.mp h)).elim
  | cons c cs ih =>
      rw [splitOn, splitOnFrom]
      split
      · obtain ⟨x, xs, hrest⟩ := List.exists_cons_of_ne_nil (splitOnFrom_ne_nil old (old.length - 1) cs)
        exact ⟨[], x, xs, by rw [hrest]⟩
      next hfront =>
        have hrest : old <:+: cs := (List.infix_cons_iff.mp h).resolve_left fun hprefix =>
          hfront (List.isPrefixOf_iff_prefix.mpr hprefix)
        obtain ⟨x, y, xs, hsplit⟩ := ih hrest
        rw [splitOn] at hsplit
        exact ⟨c :: x, y, xs, by rw [hsplit]⟩

theorem length_intercalate (sep x : List Char) (xs : List (List Char)) :
    (sep.intercalate (x :: xs)).length = ((x :: xs).map List.length).sum + xs.length * sep.length := by
  induction xs generalizing x with
  | nil => simp
  | cons y xs ih =>
      rw [List.intercalate_cons_cons, List.length_append, List.length_append, ih,
        List.length_cons, Nat.succ_mul]
      simp only [List.map_cons, List.sum_cons]
      omega

/-- Exactly a text without the piece stays as it is. -/
theorem replace_eq_self_iff (hold : old ≠ []) (hne : old ≠ new) : replace old new cs = cs ↔ ¬old <:+: cs := by
  refine ⟨fun hsame hin => hne ?_, fun hfree => replace_eq_self hfree new⟩
  obtain ⟨x, y, xs, hsplit⟩ := splitOn_of_infix hold hin
  have hkept := intercalate_splitOn old old cs
  have hput := intercalate_splitOn old new cs
  rw [replace_self hold, hsplit] at hkept
  rw [hsame, hsplit] at hput
  have hlength : old.length = new.length := by
    have hsum := congrArg List.length (hkept.trans hput.symm)
    rw [length_intercalate, length_intercalate] at hsum
    exact Nat.eq_of_mul_eq_mul_left (Nat.succ_pos xs.length) (Nat.add_left_cancel hsum)
  rw [List.intercalate_cons_cons, List.append_assoc] at hkept hput
  have htail := List.append_cancel_left (hkept.trans hput.symm)
  exact (List.append_inj htail hlength).1

/-! ### The pieces are determined by what is put between them -/

/-- Two characters that are not the piece. -/
theorem exists_two_chars (old : List Char) : ∃ c d : Char, c ≠ d ∧ [c] ≠ old ∧ [d] ≠ old := by
  by_cases ha : ['a'] = old
  · exact ⟨'b', 'c', by decide, by rw [← ha]; decide, by rw [← ha]; decide⟩
  · by_cases hb : ['b'] = old
    · exact ⟨'a', 'c', by decide, ha, by rw [← hb]; decide⟩
    · exact ⟨'a', 'b', by decide, ha, hb⟩

/-- What is read in the first piece. -/
theorem getElem?_intercalate {sep : List Char} {i : Nat} (h : i < x.length) (xs : List (List Char)) :
    (sep.intercalate (x :: xs))[i]? = x[i]? := by
  cases xs with
  | nil => rw [List.intercalate_singleton]
  | cons y xs => rw [List.intercalate_cons_cons, List.append_assoc, List.getElem?_append_left h]

/-- A piece that another one follows is no shorter than the one in its place: behind it stands what is put in. -/
theorem not_shorter (hxs : xs ≠ []) (hlength : x.length < y.length) :
    ¬∀ c : Char, [c] ≠ old → [c].intercalate (x :: xs) = [c].intercalate (y :: ys) := by
  intro hall
  have hread : ∀ c, [c] ≠ old → y[x.length]? = some c := by
    intro c hc
    rw [← getElem?_intercalate hlength ys, ← hall c hc, List.intercalate_cons_of_ne_nil hxs]
    simp
  obtain ⟨c, d, hne, hc, hd⟩ := exists_two_chars old
  exact hne (Option.some.inj ((hread c hc).symm.trans (hread d hd)))

/-- One piece alone is not the same as several. -/
theorem not_alone (hxs : xs ≠ []) : ¬∀ c : Char, [c] ≠ old → [c].intercalate (x :: xs) = [c].intercalate [y] := by
  intro hall
  obtain ⟨c, -, -, hc, -⟩ := exists_two_chars old
  refine not_shorter hxs ?_ hall
  have hlength := congrArg List.length (hall c hc)
  rw [List.intercalate_cons_of_ne_nil hxs, List.intercalate_singleton, List.length_append, List.length_append,
    List.length_singleton] at hlength
  omega

/-- Two lists of pieces between which the same texts come out. -/
theorem intercalate_inj (hxs : xs ≠ []) (hys : ys ≠ []) (hold : old.intercalate xs = old.intercalate ys)
    (hall : ∀ c : Char, [c] ≠ old → [c].intercalate xs = [c].intercalate ys) : xs = ys := by
  induction xs generalizing ys with
  | nil => exact (hxs rfl).elim
  | cons x xs ih =>
      obtain ⟨y, ys, rfl⟩ := List.exists_cons_of_ne_nil hys
      by_cases hx : xs = []
      · subst hx
        by_cases hy : ys = []
        · subst hy
          rw [List.intercalate_singleton, List.intercalate_singleton] at hold
          rw [hold]
        · exact (not_alone hy fun c hc => (hall c hc).symm).elim
      · by_cases hy : ys = []
        · subst hy
          exact (not_alone hx hall).elim
        · have hlength : x.length = y.length := by
            refine Nat.le_antisymm (Nat.le_of_not_lt fun hlt => ?_) (Nat.le_of_not_lt fun hlt => ?_)
            · exact not_shorter hy hlt fun c hc => (hall c hc).symm
            · exact not_shorter hx hlt hall
          have hsplit : ∀ sep : List Char, sep.intercalate (x :: xs) = sep.intercalate (y :: ys) →
              x = y ∧ sep.intercalate xs = sep.intercalate ys := by
            intro sep heq
            rw [List.intercalate_cons_of_ne_nil hx, List.intercalate_cons_of_ne_nil hy, List.append_assoc,
              List.append_assoc] at heq
            obtain ⟨hfront, hback⟩ := List.append_inj heq hlength
            exact ⟨hfront, List.append_cancel_left hback⟩
          rw [(hsplit old hold).1, ih hx hy (hsplit old hold).2 fun c hc => (hsplit [c] (hall c hc)).2]

/-! ### Counting -/

/-- The occurrences in the rest where `skip` characters belong to one. -/
def countFrom (old : List Char) : Nat → List Char → Nat
  | _, [] => 0
  | skip + 1, _ :: cs => countFrom old skip cs
  | 0, c :: cs => if old.isPrefixOf (c :: cs) then countFrom old (old.length - 1) cs + 1 else countFrom old 0 cs

/-- `text.count(old)` for an `old` that is not empty. -/
def count (old cs : List Char) : Nat := countFrom old 0 cs

/-- What does not occur is not counted. -/
theorem count_eq_zero (h : ¬old <:+: cs) : count old cs = 0 := by
  induction cs with
  | nil => rfl
  | cons c cs ih =>
      have hfront : ¬old.isPrefixOf (c :: cs) = true := fun hprefix =>
        h (List.isPrefixOf_iff_prefix.mp hprefix).isInfix
      rw [count, countFrom, if_neg hfront]
      exact ih fun hin => h (hin.trans (List.suffix_cons c cs).isInfix)

/-- A piece in front of the end of a line is in the line. -/
theorem isPrefixOf_line (hfree : '\n' ∉ old) (cs rest : List Char) :
    old.isPrefixOf (cs ++ '\n' :: rest) = old.isPrefixOf cs := by
  induction old generalizing cs with
  | nil => rfl
  | cons o old ih =>
      rw [List.mem_cons, not_or] at hfree
      cases cs with
      | nil => simp [List.isPrefixOf, Ne.symm hfree.1]
      | cons c cs => simp [List.isPrefixOf, ih hfree.2 cs]

theorem countFrom_line (hold : old ≠ []) (hfree : '\n' ∉ old) {skip : Nat} (hskip : skip ≤ cs.length) (rest : List Char) :
    countFrom old skip (cs ++ '\n' :: rest) = countFrom old skip cs + count old rest := by
  induction cs generalizing skip with
  | nil =>
      obtain rfl := Nat.le_zero.mp hskip
      have hfront : ¬old.isPrefixOf ('\n' :: rest) = true := by
        have hline : old.isPrefixOf ('\n' :: rest) = old.isPrefixOf [] := isPrefixOf_line hfree [] rest
        rw [hline, List.isPrefixOf_iff_prefix, List.prefix_nil]
        exact hold
      simp only [List.nil_append, countFrom, if_neg hfront, Nat.zero_add]
      rfl
  | cons c cs ih =>
      cases skip with
      | succ skip => exact ih (Nat.le_of_succ_le_succ hskip)
      | zero =>
          have hline : old.isPrefixOf (c :: (cs ++ '\n' :: rest)) = old.isPrefixOf (c :: cs) :=
            isPrefixOf_line hfree (c :: cs) rest
          rw [List.cons_append, countFrom, countFrom, hline]
          split
          next hprefix =>
            have hshort := (List.isPrefixOf_iff_prefix.mp hprefix).length_le
            rw [List.length_cons] at hshort
            rw [ih (by omega)]
            omega
          · exact ih (Nat.zero_le _)

/-- What has no end of a line in it is counted line by line. -/
theorem count_flatMap (hold : old ≠ []) (hfree : '\n' ∉ old) (lines : List (List Char)) :
    count old (lines.flatMap (· ++ ['\n'])) = (lines.map (count old)).sum := by
  induction lines with
  | nil => rfl
  | cons line lines ih =>
      rw [List.flatMap_cons, List.append_assoc, List.singleton_append, count, countFrom_line hold hfree (Nat.zero_le _), ih]
      rfl

/-- What occurs is counted. -/
theorem count_pos (hold : old ≠ []) (h : old <:+: cs) : 0 < count old cs := by
  induction cs with
  | nil => exact (hold (List.infix_nil.mp h)).elim
  | cons c cs ih =>
      rw [count, countFrom]
      split
      · exact Nat.succ_pos _
      next hfront =>
        exact ih ((List.infix_cons_iff.mp h).resolve_left fun hprefix => hfront (List.isPrefixOf_iff_prefix.mpr hprefix))

/-! ### Texts in which the line feed alone ends a line -/

/-- The lines are what stands between the line feeds, but for nothing behind the last one. -/
theorem splitAt_of_flat (h : ∀ c ∈ cs, isLineBreak c = true → c = '\n') :
    splitAt '\n' cs = splitlines cs ∧ (splitlines cs).getLast? ≠ some [] ∨ splitAt '\n' cs = splitlines cs ++ [[]] := by
  induction cs with
  | nil => exact .inr rfl
  | cons c cs ih =>
      obtain ⟨hc, hcs⟩ := List.forall_mem_cons.mp h
      have hne := splitAt_ne_nil '\n' cs
      have hreturn : ¬(c = '\r' ∧ cs.head? = some '\n') := by
        rintro ⟨rfl, -⟩
        revert hc
        decide
      rw [splitAt, splitlines, if_neg hreturn]
      by_cases hfeed : c = '\n'
      · -- the line ends here
        subst hfeed
        rw [if_pos rfl, if_pos (by decide)]
        rcases ih hcs with ⟨hsame, hlast⟩ | hmore
        · refine .inl ⟨by rw [hsame], ?_⟩
          obtain ⟨line, lines, hlines⟩ := List.exists_cons_of_ne_nil (hsame ▸ hne)
          rwa [hlines, List.getLast?_cons_cons, ← hlines]
        · exact .inr (by rw [hmore, List.cons_append])
      · rw [if_neg hfeed, if_neg (fun hbreak => hfeed (hc hbreak))]
        rcases ih hcs with ⟨hsame, hlast⟩ | hmore
        · rw [← hsame] at hlast ⊢
          obtain ⟨line, lines, hlines⟩ := List.exists_cons_of_ne_nil hne
          rw [hlines] at hlast ⊢
          refine .inl ⟨rfl, ?_⟩
          cases lines with
          | nil => simp
          | cons next lines => rwa [List.getLast?_cons_cons] at hlast ⊢
        · rw [hmore]
          cases hlines : splitlines cs with
          | nil => exact .inl ⟨rfl, by simp⟩
          | cons line lines => exact .inr rfl

theorem joinWith_splitAt (sep : Char) (cs : List Char) : joinWith sep (splitAt sep cs) = cs := by
  induction cs with
  | nil => rfl
  | cons c cs ih =>
      obtain ⟨piece, pieces, hpieces⟩ := List.exists_cons_of_ne_nil (splitAt_ne_nil sep cs)
      rw [splitAt]
      split
      next heq => rw [hpieces, joinWith_cons, ← hpieces, ih, heq, List.nil_append]
      · rw [hpieces] at ih ⊢
        cases pieces with
        | nil => exact congrArg (c :: ·) ih
        | cons next pieces =>
            rw [joinWith_cons] at ih ⊢
            exact congrArg (c :: ·) ih

theorem splitAt_append_sep (sep : Char) (front rest : List Char) :
    splitAt sep (front ++ sep :: rest) = splitAt sep front ++ splitAt sep rest := by
  induction front with
  | nil => simp [splitAt]
  | cons c front ih =>
      rw [List.cons_append, splitAt, splitAt, ih]
      split
      · rfl
      · obtain ⟨piece, pieces, hpieces⟩ := List.exists_cons_of_ne_nil (splitAt_ne_nil sep front)
        rw [hpieces]
        rfl

theorem head?_splitAt (sep : Char) (cs : List Char) : (splitAt sep cs).head? = some (cs.takeWhile (· != sep)) := by
  induction cs with
  | nil => rfl
  | cons c cs ih =>
      obtain ⟨piece, pieces, hpieces⟩ := List.exists_cons_of_ne_nil (splitAt_ne_nil sep cs)
      rw [hpieces, List.head?_cons, Option.some_inj] at ih
      rw [splitAt, List.takeWhile_cons]
      split
      next heq => simp [heq]
      next hne => simp [hpieces, hne, ih]

/-- The line that begins at the start of the text or behind a line feed. -/
theorem line_mem_splitAt {sep : Char} {front rest : List Char} (h : front = [] ∨ front.getLast? = some sep) :
    rest.takeWhile (· != sep) ∈ splitAt sep (front ++ rest) := by
  have hfirst := List.mem_of_mem_head? (head?_splitAt sep rest)
  rcases h with rfl | h
  · exact hfirst
  · obtain ⟨pre, rfl⟩ := List.getLast?_eq_some_iff.mp h
    rw [List.append_assoc, List.singleton_append, splitAt_append_sep]
    exact List.mem_append_right _ hfirst

/-- Lines, each one closed. -/
def unlines (lines : List (List Char)) : List Char := lines.flatMap (· ++ ['\n'])

theorem joinWith_unlines (sep : Char) (lines : List (List Char)) :
    joinWith sep (lines ++ [[]]) = lines.flatMap (· ++ [sep]) := by
  induction lines with
  | nil => rfl
  | cons line lines ih =>
      obtain ⟨next, more, hmore⟩ := List.exists_cons_of_ne_nil (List.append_ne_nil_of_right_ne_nil lines (List.cons_ne_nil [] []))
      rw [List.cons_append, hmore, joinWith_cons, ← hmore, ih, List.flatMap_cons, List.append_assoc, List.singleton_append]

/-- A text is its lines, but that the last one need not be closed. -/
theorem unlines_splitlines (h : ∀ c ∈ cs, isLineBreak c = true → c = '\n') :
    unlines (splitlines cs) = cs ∨ unlines (splitlines cs) = cs ++ ['\n'] := by
  have hjoin := joinWith_splitAt '\n' cs
  rcases splitAt_of_flat h with ⟨hsame, -⟩ | hmore
  · right
    rw [hsame] at hjoin
    rw [unlines, ← joinWith_concat (hsame ▸ splitAt_ne_nil _ _), hjoin]
  · left
    rw [hmore, joinWith_unlines] at hjoin
    exact hjoin

/-- What has no end of a line in it is counted line by line. -/
theorem count_of_flat (hold : old ≠ []) (hfree : '\n' ∉ old) (h : ∀ c ∈ cs, isLineBreak c = true → c = '\n') :
    count old cs = ((splitlines cs).map (count old)).sum := by
  have hlines := count_flatMap hold hfree (splitlines cs)
  rcases unlines_splitlines h with heq | heq
  · rwa [← unlines, heq] at hlines
  · rw [← unlines, heq, count, countFrom_line hold hfree (Nat.zero_le _)] at hlines
    exact hlines

end ProxyGateway.Text
