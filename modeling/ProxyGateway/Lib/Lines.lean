import ProxyGateway.Lib.Text

set_option autoImplicit false

/-!
# ProxyGateway.Lib.Lines

Lines of a text, and replacing a piece of it, in the conventions of the gateway's language: what
separates lines, and occurrences that do not overlap, from left to right.
-/

namespace ProxyGateway.Text

/-! ### Lines -/

/-- The characters at which `str.splitlines` ends a line. -/
def isLineBreak (c : Char) : Bool :=
  let n := c.toNat
  (10 ≤ n && n ≤ 13) || (28 ≤ n && n ≤ 30) || n == 0x85 || n == 0x2028 || n == 0x2029

/-- `text.splitlines()`; `"\r\n"` ends one line. -/
def splitlines : List Char → List (List Char)
  | [] => []
  | c :: cs =>
      if c = '\r' ∧ cs.head? = some '\n' then splitlines cs
      else if isLineBreak c then [] :: splitlines cs
      else match splitlines cs with
        | [] => [[c]]
        | line :: lines => (c :: line) :: lines

theorem space_of_all {cs : List Char} (h : cs.all (fun c => !isSpace c) = true) : ∀ c ∈ cs, isSpace c = false := by
  simpa using h

theorem isSpace_of_isLineBreak {c : Char} (h : isLineBreak c = true) : isSpace c = true := by
  simp only [isLineBreak, isSpace, Bool.or_eq_true, Bool.and_eq_true, decide_eq_true_eq, beq_iff_eq] at h ⊢
  omega

/-- A line that ends in a line feed is the first one. -/
theorem splitlines_append {line : List Char} (h : ∀ c ∈ line, isLineBreak c = false) (rest : List Char) :
    splitlines (line ++ '\n' :: rest) = line :: splitlines rest := by
  induction line with
  | nil => simp [splitlines, isLineBreak]
  | cons c line ih =>
      obtain ⟨hc, hline⟩ := List.forall_mem_cons.mp h
      have hne : c ≠ '\r' := by
        rintro rfl
        revert hc
        decide
      rw [List.cons_append, splitlines, if_neg (fun hboth => hne hboth.1), if_neg (by simp [hc]), ih hline]

/-- Lines that are written are read back. -/
theorem splitlines_flatMap {lines : List (List Char)} (h : ∀ line ∈ lines, ∀ c ∈ line, isLineBreak c = false) :
    splitlines (lines.flatMap (· ++ ['\n'])) = lines := by
  induction lines with
  | nil => rfl
  | cons line lines ih =>
      obtain ⟨hline, hlines⟩ := List.forall_mem_cons.mp h
      rw [List.flatMap_cons, List.append_assoc, List.singleton_append, splitlines_append hline, ih hlines]

/-- No line has a line break in it. -/
theorem isLineBreak_of_mem_splitlines {cs line : List Char} (h : line ∈ splitlines cs) {c : Char} (hc : c ∈ line) :
    isLineBreak c = false := by
  induction cs generalizing line with
  | nil => cases h
  | cons c' cs ih =>
      rw [splitlines] at h
      split at h
      · exact ih h hc
      · split at h
        · rcases List.mem_cons.mp h with rfl | h
          · cases hc
          · exact ih h hc
        · next hbreak =>
          have hfree : isLineBreak c' = false := by simpa using hbreak
          split at h
          · obtain rfl := List.mem_singleton.mp h
            obtain rfl := List.mem_singleton.mp hc
            exact hfree
          · next first rest hsplit =>
            rcases List.mem_cons.mp h with rfl | h
            · rcases List.mem_cons.mp hc with rfl | hc
              · exact hfree
              · exact ih (hsplit ▸ List.mem_cons_self) hc
            · exact ih (hsplit ▸ List.mem_cons_of_mem _ h) hc

theorem splitAt_of_not_mem {sep : Char} {cs : List Char} (h : sep ∉ cs) : splitAt sep cs = [cs] := by
  induction cs with
  | nil => rfl
  | cons c cs ih =>
      rw [List.mem_cons, not_or] at h
      rw [splitAt, if_neg (Ne.symm h.1), ih h.2]

/-- Each character other than the separator is in a piece. -/
theorem exists_mem_splitAt {sep c : Char} {cs : List Char} (hc : c ∈ cs) (hne : c ≠ sep) :
    ∃ piece ∈ splitAt sep cs, c ∈ piece := by
  induction cs with
  | nil => cases hc
  | cons x cs ih =>
      rw [splitAt]
      split
      next heq =>
        rcases List.mem_cons.mp hc with rfl | hc
        · exact (hne heq).elim
        · obtain ⟨piece, hpiece, hin⟩ := ih hc
          exact ⟨piece, List.mem_cons_of_mem _ hpiece, hin⟩
      · cases hsplit : splitAt sep cs with
        | nil => exact (splitAt_ne_nil sep cs hsplit).elim
        | cons first pieces =>
            rcases List.mem_cons.mp hc with rfl | hc
            · exact ⟨c :: first, List.mem_cons_self, List.mem_cons_self⟩
            · obtain ⟨piece, hpiece, hin⟩ := ih hc
              rw [hsplit] at hpiece
              rcases List.mem_cons.mp hpiece with rfl | hpiece
              · exact ⟨x :: piece, List.mem_cons_self, List.mem_cons_of_mem _ hin⟩
              · exact ⟨piece, List.mem_cons_of_mem _ hpiece, hin⟩

/-- Lines that are written are the pieces between the line feeds. -/
theorem splitAt_flatMap {lines : List (List Char)} (h : ∀ line ∈ lines, '\n' ∉ line) :
    splitAt '\n' (lines.flatMap (· ++ ['\n'])) = lines ++ [[]] := by
  induction lines with
  | nil => rfl
  | cons line lines ih =>
      obtain ⟨hline, hlines⟩ := List.forall_mem_cons.mp h
      rw [List.flatMap_cons, List.append_assoc, List.singleton_append, splitAt_append hline, ih hlines, List.cons_append]

theorem joinWith_cons (sep : Char) (piece next : List Char) (pieces : List (List Char)) :
    joinWith sep (piece :: next :: pieces) = piece ++ sep :: joinWith sep (next :: pieces) := rfl

/-- Lines that are joined and closed. -/
theorem joinWith_concat {sep : Char} {pieces : List (List Char)} (hne : pieces ≠ []) :
    joinWith sep pieces ++ [sep] = pieces.flatMap (· ++ [sep]) := by
  induction pieces with
  | nil => exact absurd rfl hne
  | cons piece pieces ih =>
      cases pieces with
      | nil => simp [joinWith]
      | cons next pieces =>
          rw [joinWith_cons, List.append_assoc, List.cons_append, ih (List.cons_ne_nil _ _), List.flatMap_cons]
          simp

/-- Pieces that are joined are split again. -/
theorem splitAt_joinWith {sep : Char} {pieces : List (List Char)} (hne : pieces ≠ []) (h : ∀ piece ∈ pieces, sep ∉ piece) :
    splitAt sep (joinWith sep pieces) = pieces := by
  induction pieces with
  | nil => exact absurd rfl hne
  | cons piece pieces ih =>
      obtain ⟨hpiece, hpieces⟩ := List.forall_mem_cons.mp h
      cases pieces with
      | nil => exact splitAt_of_not_mem hpiece
      | cons next pieces => rw [joinWith_cons, splitAt_append hpiece, ih (List.cons_ne_nil _ _) hpieces]

theorem mem_of_mem_joinWith {sep c : Char} {pieces : List (List Char)} (h : c ∈ joinWith sep pieces) :
    c = sep ∨ ∃ piece ∈ pieces, c ∈ piece := by
  induction pieces with
  | nil => cases h
  | cons piece pieces ih =>
      cases pieces with
      | nil => exact .inr ⟨piece, List.mem_cons_self, h⟩
      | cons next pieces =>
          rw [joinWith_cons, List.mem_append, List.mem_cons] at h
          rcases h with h | rfl | h
          · exact .inr ⟨piece, List.mem_cons_self, h⟩
          · exact .inl rfl
          · exact (ih h).imp_right fun ⟨piece, hin, hc⟩ => ⟨piece, List.mem_cons_of_mem _ hin, hc⟩

/-! ### Blanks -/

theorem dropWhile_isSpace {cs : List Char} (h : ∀ c ∈ cs, isSpace c = false) : cs.dropWhile isSpace = cs := by
  cases cs with
  | nil => rfl
  | cons c cs => rw [List.dropWhile_cons, h c List.mem_cons_self, if_neg Bool.false_ne_true]

/-- A text without blanks. -/
theorem strip_eq_self {cs : List Char} (h : ∀ c ∈ cs, isSpace c = false) : strip cs = cs := by
  rw [strip, stripBy_eq, dropWhile_isSpace h]
  refine List.rdropWhile_eq_self_iff.mpr fun hne => ?_
  rw [h _ (List.getLast_mem hne)]
  exact Bool.false_ne_true

/-- A blank text. -/
theorem strip_eq_nil {cs : List Char} (h : ∀ c ∈ cs, isSpace c = true) : strip cs = [] := by
  rw [strip, stripBy_eq, List.dropWhile_eq_nil_iff.mpr h]
  rfl

/-- What is stripped off the end stands behind the last character that is no blank. -/
theorem rdropWhile_append {p : Char → Bool} {c : Char} (hc : p c = false) (front rest : List Char) :
    (front ++ c :: rest).rdropWhile p = front ++ c :: rest.rdropWhile p := by
  induction rest using List.reverseRecOn with
  | nil => rw [List.rdropWhile_concat_neg p _ _ (by simp [hc]), List.rdropWhile_nil]
  | append_singleton rest last ih =>
      have hassoc : front ++ c :: (rest ++ [last]) = (front ++ c :: rest) ++ [last] := by simp
      by_cases hlast : p last = true
      · rw [hassoc, List.rdropWhile_concat_pos p _ _ hlast, List.rdropWhile_concat_pos p _ _ hlast, ih]
      · rw [hassoc, List.rdropWhile_concat_neg p _ _ hlast, List.rdropWhile_concat_neg p _ _ hlast]
        simp

theorem mem_of_mem_strip {cs : List Char} {c : Char} (h : c ∈ strip cs) : c ∈ cs := by
  have hpart := stripBy_infix isSpace cs
  exact hpart.subset h

/-! ### Replacing -/

/-- The rest of `text.replace(old, new)` where `skip` characters belong to an occurrence. -/
def replaceFrom (old new : List Char) : Nat → List Char → List Char
  | _, [] => []
  | skip + 1, _ :: cs => replaceFrom old new skip cs
  | 0, c :: cs =>
      if old.isPrefixOf (c :: cs) then new ++ replaceFrom old new (old.length - 1) cs
      else c :: replaceFrom old new 0 cs

/-- `text.replace(old, new)` for an `old` that is not empty. -/
def replace (old new : List Char) (cs : List Char) : List Char := replaceFrom old new 0 cs

theorem replaceFrom_drop (old new : List Char) (skip : Nat) (cs : List Char) :
    replaceFrom old new skip cs = replace old new (cs.drop skip) := by
  induction skip generalizing cs with
  | zero => rfl
  | succ skip ih =>
      cases cs with
      | nil => rfl
      | cons c cs => exact ih cs

/-- An occurrence at the front is replaced. -/
theorem replace_append {old : List Char} (hold : old ≠ []) (new cs : List Char) :
    replace old new (old ++ cs) = new ++ replace old new cs := by
  obtain ⟨c, old', rfl⟩ := List.exists_cons_of_ne_nil hold
  have hprefix : (c :: old').isPrefixOf (c :: old' ++ cs) = true := List.isPrefixOf_iff_prefix.mpr (List.prefix_append _ _)
  rw [List.cons_append] at hprefix ⊢
  rw [replace, replaceFrom, if_pos hprefix, replaceFrom_drop, List.length_cons, Nat.add_sub_cancel, List.drop_left]

theorem replace_cons {old : List Char} {c : Char} {cs : List Char} (h : old.isPrefixOf (c :: cs) = false) (new : List Char) :
    replace old new (c :: cs) = c :: replace old new cs := by
  rw [replace, replaceFrom, if_neg (by simp [h])]
  rfl

/-- A text without the piece stays as it is. -/
theorem replace_eq_self {old cs : List Char} (h : ¬old <:+: cs) (new : List Char) : replace old new cs = cs := by
  induction cs with
  | nil => rfl
  | cons c cs ih =>
      have hfront : old.isPrefixOf (c :: cs) = false := by
        rw [Bool.eq_false_iff]
        intro hprefix
        exact h (List.isPrefixOf_iff_prefix.mp hprefix).isInfix
      have hrest : ¬old <:+: cs := fun hin => h (hin.trans (List.suffix_cons c cs).isInfix)
      rw [replace_cons hfront, ih hrest]

/-- What is taken out leaves characters of the text only. -/
theorem mem_of_mem_replace_nil {old cs : List Char} {c : Char} (h : c ∈ replace old [] cs) : c ∈ cs := by
  have hall : ∀ cs skip, c ∈ replaceFrom old [] skip cs → c ∈ cs := by
    intro cs
    induction cs with
    | nil => intro skip hin; cases skip <;> exact hin
    | cons c' cs ih =>
        intro skip hin
        cases skip with
        | succ skip => exact List.mem_cons_of_mem _ (ih skip hin)
        | zero =>
            rw [replaceFrom] at hin
            split at hin
            · exact List.mem_cons_of_mem _ (ih _ hin)
            · rcases List.mem_cons.mp hin with rfl | hin
              · exact List.mem_cons_self
              · exact List.mem_cons_of_mem _ (ih 0 hin)
  exact hall cs 0 h

end ProxyGateway.Text
