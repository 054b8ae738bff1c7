import ProxyGateway.Firewall.Owned

set_option autoImplicit false

/-!
# ProxyGateway.Firewall.Spliced

The merge on a layout: the lines of others stay, in front of the block and behind it, and the result has a
layout again, in which the table is the gateway's own.
-/

namespace ProxyGateway.Firewall

open Text Pattern
open Profile (FirewallMode)

variable {word : Char → Bool} {items : List (Item word)} {cs : List Char}

/-! ### The merge on layouts -/

/-- What a merge keeps in front of the block. -/
def front (items : List (Item word)) : List (Item word) :=
  (items.takeWhile (fun item => !item.isOurs)).rdropWhile Item.isBlank

/-- What it keeps behind the block. -/
def back (items : List (Item word)) : List (Item word) :=
  (others (items.dropWhile (fun item => !item.isOurs))).dropWhile Item.isBlank

/-- The empty line beside the block. -/
def gap (items : List (Item word)) : List (Item word) := if items.isEmpty then [] else [.empty word]

/-- The block in its place. -/
def woven (block items : List (Item word)) : List (Item word) :=
  front items ++ gap (front items) ++ block ++ gap (back items) ++ back items

/-- The text of a layout, as it is written. -/
def textOf (items : List (Item word)) : List Char := written (joinWith '\n' (linesOf items))

/-- The layout with its last line closed. -/
def settled (items : List (Item word)) : List (Item word) :=
  if (linesOf items).getLast? = some [] then items else items ++ [.empty word]

theorem not_ours_of_mem_front {item : Item word} (h : item ∈ front items) : item.isOurs = false := by
  have hmem := (List.rdropWhile_prefix _ _).subset h
  simpa using List.mem_takeWhile_imp hmem

theorem not_ours_of_mem_others {item : Item word} (h : item ∈ others items) : item.isOurs = false := by
  simpa using (List.mem_filter.mp h).2

theorem not_ours_of_mem_back {item : Item word} (h : item ∈ back items) : item.isOurs = false :=
  not_ours_of_mem_others ((List.dropWhile_suffix _).subset h)

theorem mem_gap {item : Item word} (h : item ∈ gap items) : item = .empty word := by
  rw [gap] at h
  split at h
  · cases h
  · exact List.mem_singleton.mp h

theorem linesOf_eq_nil : linesOf items = [] ↔ items = [] := by
  cases items with
  | nil => exact iff_of_true rfl rfl
  | cons item items =>
      have hne : item.lines ≠ [] := by cases item <;> exact List.cons_ne_nil _ _
      simp [hne]

theorem linesOf_gap (items : List (Item word)) : linesOf (gap items) = if linesOf items = [] then [] else [[]] := by
  simp only [gap, linesOf_eq_nil, List.isEmpty_iff]
  split <;> rfl

theorem linesOf_woven (block items : List (Item word)) :
    linesOf (woven block items) = weave (linesOf block) (linesOf (front items)) (linesOf (back items)) := by
  rw [woven, weave, linesOf_append, linesOf_append, linesOf_append, linesOf_append, linesOf_gap, linesOf_gap]

/-! #### What is written is laid out -/

theorem not_mem_of_flat {row : Line} (h : Flat row) : '\n' ∉ row := fun hmem => by
  have hnot := h '\n' hmem
  revert hnot
  decide

theorem getLast?_joinWith {row : Line} (hrow : row ≠ []) (rows : List Line) :
    (joinWith '\n' (rows ++ [row])).getLast? = row.getLast? := by
  induction rows with
  | nil => rfl
  | cons next rows ih =>
      obtain ⟨other, more, hmore⟩ := List.exists_cons_of_ne_nil (List.append_ne_nil_of_right_ne_nil rows (List.cons_ne_nil row []))
      rw [List.cons_append, hmore, joinWith_cons, ← hmore, List.getLast?_append_of_ne_nil _ (List.cons_ne_nil _ _)]
      have hne : joinWith '\n' (rows ++ [row]) ≠ [] := fun hnil => by
        rw [hnil] at ih
        exact hrow (List.getLast?_eq_none_iff.mp ih.symm)
      rw [← ih, ← List.singleton_append, List.getLast?_append_of_ne_nil _ hne]

/-- Lines whose last one is not closed yet. -/
theorem written_open {rows : List Line} (hflat : ∀ row ∈ rows, Flat row) (hne : rows ≠ []) (hlast : rows.getLast? ≠ some []) :
    written (joinWith '\n' rows) = unlines rows := by
  rw [written, if_neg, joinWith_concat hne]
  · rfl
  · rcases List.eq_nil_or_concat rows with rfl | ⟨front, row, rfl⟩
    · exact absurd rfl hne
    · rw [List.concat_eq_append, List.getLast?_concat, ne_eq, Option.some_inj] at hlast
      rw [List.concat_eq_append, getLast?_joinWith hlast]
      intro hfeed
      have hrow := hflat row (by simp)
      exact not_mem_of_flat hrow (List.mem_of_getLast? hfeed)

/-- Lines behind which nothing stands. -/
theorem written_closed {rows : List Line} (hne : rows ≠ []) : written (joinWith '\n' (rows ++ [[]])) = unlines rows := by
  rw [joinWith_unlines, written, if_pos]
  · rfl
  · rcases List.eq_nil_or_concat rows with rfl | ⟨front, row, rfl⟩
    · exact absurd rfl hne
    · rw [List.concat_eq_append, List.flatMap_append, List.flatMap_singleton, ← List.append_assoc, List.getLast?_concat]

/-- What is written of a layout has this layout, closed. -/
theorem laidOut_textOf (hnot : linesOf items ≠ [[]]) (hne : items ≠ []) :
    LaidOut (textOf items) (settled items) ∧ textOf items = textOf (settled items) := by
  have hrows (rows : List Line) (hflat : ∀ row ∈ rows, Flat row) :
      (∀ c ∈ unlines rows, isLineBreak c = true → c = '\n') ∧ splitAt '\n' (unlines rows) = rows ++ [[]] := by
    refine ⟨fun c hc hbreak => ?_, splitAt_flatMap fun row hrow => not_mem_of_flat (hflat row hrow)⟩
    obtain ⟨row, hrow, hc⟩ := List.mem_flatMap.mp hc
    rcases List.mem_append.mp hc with hc | hc
    · rw [hflat row hrow c hc] at hbreak
      cases hbreak
    · exact List.mem_singleton.mp hc
  have hlines : linesOf items ≠ [] := fun hnil => hne (linesOf_eq_nil.mp hnil)
  rw [settled]
  split
  next hlast =>
    rcases List.eq_nil_or_concat (linesOf items) with hnil | ⟨rows, row, hconcat⟩
    · exact absurd hnil hlines
    · rw [List.concat_eq_append] at hconcat
      rw [hconcat, List.getLast?_concat, Option.some_inj] at hlast
      subst hlast
      have hne : rows ≠ [] := by
        rintro rfl
        exact hnot hconcat
      have hflat : ∀ row ∈ rows, Flat row := fun row hrow =>
        flat_linesOf (hconcat ▸ List.mem_append_left _ hrow)
      obtain ⟨hfree, hsplit⟩ := hrows rows hflat
      rw [textOf, hconcat, written_closed hne]
      exact ⟨⟨hfree, by rw [hsplit, hconcat]⟩, rfl⟩
  next hlast =>
    obtain ⟨hfree, hsplit⟩ := hrows (linesOf items) fun row hrow => flat_linesOf hrow
    have hmore : linesOf (items ++ [.empty word]) = linesOf items ++ [[]] := by rw [linesOf_append]; rfl
    have htext : textOf items = unlines (linesOf items) := written_open (fun row hrow => flat_linesOf hrow) hlines hlast
    refine ⟨⟨by rwa [htext], by rw [htext, hsplit, hmore]⟩, ?_⟩
    rw [htext, textOf, hmore, written_closed hlines]

/-! #### A block that is put in -/

/-- A rendered block: marks, the table, and empty lines. -/
structure Rendering (word : Char → Bool) where
  text : List Char
  mode : FirewallMode
  items : List (Item word)
  laidOut : LaidOut text items
  first : ∃ item rest, items = item :: rest ∧ item.isOurs = true
  last : (linesOf items).getLast? ≠ some []
  own : ∀ item ∈ items, item.isOurs = true ∨ item.isBlank = true
  owned : targetStatus word text = .owned mode

variable {item : Item word} {pre rest : List (Item word)}

theorem front_of (hpre : ∀ other ∈ pre, other.isOurs = false) (hours : item.isOurs = true) (rest : List (Item word)) :
    front (pre ++ item :: rest) = pre.rdropWhile Item.isBlank := by
  rw [front, List.takeWhile_append_of_pos (fun other hother => by rw [hpre other hother]; rfl), List.takeWhile_cons, hours]
  simp

theorem back_of (hpre : ∀ other ∈ pre, other.isOurs = false) (hours : item.isOurs = true) (rest : List (Item word)) :
    back (pre ++ item :: rest) = (others rest).dropWhile Item.isBlank := by
  rw [back, List.dropWhile_append_of_pos (fun other hother => by rw [hpre other hother]; rfl), List.dropWhile_cons, hours]
  simp [others, hours]

theorem isBlank_empty : (Item.empty word).isBlank = true := rfl

theorem others_append (items more : List (Item word)) : others (items ++ more) = others items ++ others more :=
  List.filter_append _ _

theorem others_eq_self (h : ∀ item ∈ items, item.isOurs = false) : others items = items :=
  List.filter_eq_self.mpr fun item hitem => by rw [h item hitem]; rfl

theorem blank_others (r : Rendering word) : ∀ item ∈ others r.items, item.isBlank = true := by
  intro item hitem
  obtain ⟨hmem, hours⟩ := List.mem_filter.mp hitem
  exact (r.own item hmem).resolve_left (by simpa using hours)

theorem not_ours_gap {items : List (Item word)} : ∀ item ∈ gap items, item.isOurs = false := fun item hitem => by
  rw [mem_gap hitem]
  rfl

/-- What a merge leaves in front of the block it puts in. -/
theorem front_woven (r : Rendering word) (items more : List (Item word)) : front (woven r.items items ++ more) = front items := by
  obtain ⟨first, rest, hfirst, hours⟩ := r.first
  have hpre : ∀ other ∈ front items ++ gap (front items), other.isOurs = false := by
    intro other hother
    rcases List.mem_append.mp hother with hother | hother
    · exact not_ours_of_mem_front hother
    · exact not_ours_gap other hother
  have hshape : woven r.items items ++ more =
      (front items ++ gap (front items)) ++ first :: (rest ++ gap (back items) ++ back items ++ more) := by
    rw [woven, hfirst]
    simp
  rw [hshape, front_of hpre hours, gap]
  split
  next hnil =>
    rw [List.append_nil]
    exact List.rdropWhile_idempotent _ _
  · rw [List.rdropWhile_concat_pos _ _ _ isBlank_empty]
    exact List.rdropWhile_idempotent _ _

/-- What it leaves behind it. -/
theorem back_woven (r : Rendering word) (items more : List (Item word)) (hmore : ∀ item ∈ more, item.isOurs = false) :
    back (woven r.items items ++ more) = (back items ++ more).dropWhile Item.isBlank := by
  obtain ⟨first, rest, hfirst, hours⟩ := r.first
  have hpre : ∀ other ∈ front items ++ gap (front items), other.isOurs = false := by
    intro other hother
    rcases List.mem_append.mp hother with hother | hother
    · exact not_ours_of_mem_front hother
    · exact not_ours_gap other hother
  have hshape : woven r.items items ++ more =
      (front items ++ gap (front items)) ++ first :: (rest ++ gap (back items) ++ (back items ++ more)) := by
    rw [woven, hfirst]
    simp
  have hrest : ∀ item ∈ others rest, item.isBlank = true := by
    intro item hitem
    refine blank_others r item ?_
    rw [hfirst, others, List.filter_cons_of_neg (by simp [hours])]
    exact hitem
  have hback : ∀ item ∈ back items ++ more, item.isOurs = false := by
    intro item hitem
    rcases List.mem_append.mp hitem with hitem | hitem
    · exact not_ours_of_mem_back hitem
    · exact hmore item hitem
  rw [hshape, back_of hpre hours, others_append, others_append, others_eq_self not_ours_gap, others_eq_self hback,
    List.append_assoc, List.dropWhile_append_of_pos hrest, List.dropWhile_append_of_pos]
  intro item hitem
  rw [mem_gap hitem]
  rfl

/-- The lines of others that are not blank. -/
def foreignLines (items : List (Item word)) : List Line := (linesOf (others items)).filter (fun row => !isBlank row)

theorem foreignLines_append (items more : List (Item word)) :
    foreignLines (items ++ more) = foreignLines items ++ foreignLines more := by
  rw [foreignLines, others_append, linesOf_append, List.filter_append]
  rfl

theorem foreignLines_blank (h : ∀ item ∈ others items, item.isBlank = true) : foreignLines items = [] := by
  refine List.filter_eq_nil_iff.mpr fun row hrow => ?_
  obtain ⟨item, hitem, hrow⟩ := List.mem_flatMap.mp hrow
  obtain ⟨only, hlines, hblank, -⟩ := Item.lines_of_only (h item hitem)
  rw [hlines] at hrow
  rw [List.mem_singleton.mp hrow, hblank]
  decide

theorem foreignLines_gap (items : List (Item word)) : foreignLines (gap items) = [] :=
  foreignLines_blank fun item hitem => by
    rw [mem_gap (List.mem_of_mem_filter hitem)]
    rfl

theorem filter_rdropWhile {α : Type} {p q : α → Bool} (h : ∀ x, p x = true → q x = false) (xs : List α) :
    (xs.rdropWhile p).filter q = xs.filter q := by
  induction xs using List.reverseRecOn with
  | nil => rfl
  | append_singleton xs x ih =>
      by_cases hx : p x = true
      · rw [List.rdropWhile_concat_pos _ _ _ hx, ih, List.filter_append]
        simp [h x hx]
      · rw [List.rdropWhile_concat_neg _ _ _ hx]

theorem filter_dropWhile {α : Type} {p q : α → Bool} (h : ∀ x, p x = true → q x = false) (xs : List α) :
    (xs.dropWhile p).filter q = xs.filter q := by
  induction xs with
  | nil => rfl
  | cons x xs ih =>
      rw [List.dropWhile_cons]
      split
      next hx => rw [ih, List.filter_cons_of_neg (by simp [h x hx])]
      · rfl

theorem not_isBlank_iff (row : Line) (h : isBlank row = true) : (!isBlank row) = false := by rw [h]; rfl

theorem foreignLines_front (items : List (Item word)) :
    foreignLines (front items) = foreignLines (items.takeWhile (fun item => !item.isOurs)) := by
  have htake : ∀ item ∈ items.takeWhile (fun item => !item.isOurs), item.isOurs = false := fun item hitem => by
    simpa using List.mem_takeWhile_imp hitem
  rw [foreignLines, others_eq_self (fun item => not_ours_of_mem_front), front, ← rdropWhile_linesOf (fun _ h => h) htake,
    filter_rdropWhile not_isBlank_iff, foreignLines, others_eq_self htake]

theorem foreignLines_back (items : List (Item word)) :
    foreignLines (back items) = foreignLines (items.dropWhile (fun item => !item.isOurs)) := by
  have hothers : ∀ item ∈ others (items.dropWhile (fun item => !item.isOurs)), item.isOurs = false :=
    fun item => not_ours_of_mem_others
  rw [foreignLines, others_eq_self (fun item => not_ours_of_mem_back), back, ← dropWhile_linesOf (fun _ h => h) hothers,
    filter_dropWhile not_isBlank_iff, foreignLines]

/-- Nothing of others is lost or moved, but for blank lines. -/
theorem foreignLines_woven (r : Rendering word) (items : List (Item word)) :
    foreignLines (woven r.items items) = foreignLines items := by
  rw [woven, foreignLines_append, foreignLines_append, foreignLines_append, foreignLines_append, foreignLines_gap,
    foreignLines_gap, foreignLines_blank (blank_others r), foreignLines_front, foreignLines_back, List.append_nil,
    List.append_nil, List.append_nil, ← foreignLines_append, List.takeWhile_append_dropWhile]

/-! #### The merge -/

theorem filter_blank {p : Line → Bool} (hp : ∀ row, isBlank row = true → p row = false) (rows : List Line) :
    rows.filter p = (rows.filter (fun row => !isBlank row)).filter p := by
  rw [List.filter_filter]
  refine List.filter_congr fun row _ => ?_
  cases hblank : isBlank row with
  | true => simp [hp row hblank]
  | false => simp

/-- Whether a `flush ruleset` stops the merge does not depend on blank lines. -/
theorem checkFlush_blank (live : Option (List Char)) {rows : List Line} :
    checkFlush word live rows = .ok () ↔ checkFlush word live (rows.filter (fun row => !isBlank row)) = .ok () := by
  have hflush : ∀ row, isBlank row = true → fits word flushRuleset row = false := fun row h => fits_blank h (by decide)
  have htables : tablesIn word rows = tablesIn word (rows.filter (fun row => !isBlank row)) := by
    have hother : ∀ row, isBlank row = true → fits word otherTable row = false := fun row h => fits_blank h (by decide)
    rw [tablesIn, tablesIn, ← filter_blank hother]
  have hok (rows : List Line) : checkFlush word live rows = .ok () ↔
      rows.filter (fits word flushRuleset) = [] ∨
        ((live.map liveTables).getD []).filter (fun table => !(ours :: tablesIn word rows).contains table) = [] := by
    rw [checkFlush]
    cases hfind : rows.findIdx? (fits word flushRuleset) with
    | none =>
        rw [List.findIdx?_eq_none_iff] at hfind
        exact iff_of_true rfl (.inl (List.filter_eq_nil_iff.mpr fun row hrow => by simp [hfind row hrow]))
    | some i =>
        have hne : rows.filter (fits word flushRuleset) ≠ [] := by
          rw [List.findIdx?_eq_some_iff_getElem] at hfind
          obtain ⟨hi, hfits, -⟩ := hfind
          exact List.ne_nil_of_mem (List.mem_filter.mpr ⟨List.getElem_mem hi, hfits⟩)
        simp only [hne, false_or]
        split <;> simp_all
  rw [hok, hok, ← htables, ← filter_blank hflush]

/-- A merge is let through: no `flush ruleset` would take a table that is running only. -/
def Passes (live : Option (List Char)) (items : List (Item word)) : Prop :=
  checkFlush word live (foreignLines items) = .ok ()

theorem removeFrom_laidOut (h : LaidOut cs items) (hours : items.any Item.isOurs = true) :
    removeFrom word ⟨[], none⟩ 0 none (splitAt '\n' cs) =
      .ok ⟨linesOf (others items), some (linesOf (items.takeWhile (fun item => !item.isOurs))).length⟩ := by
  have hremove : removeFrom word ⟨[], none⟩ 0 none (linesOf items ++ []) =
      removeFrom word (items.foldl Kept.past ⟨[], none⟩) (0 + (linesOf items).length) none [] :=
    removeFrom_layout items []
  have hkept : items.foldl Kept.past ⟨[], none⟩ =
      ⟨linesOf (others items), some (linesOf (items.takeWhile (fun item => !item.isOurs))).length⟩ := by
    have hkeep : (items.foldl Kept.past ⟨[], none⟩).keep = linesOf (others items) := past_keep items ⟨[], none⟩
    have hhit := past_firstHit items []
    rw [if_pos hours, List.length_nil, Nat.zero_add] at hhit
    cases hfold : items.foldl Kept.past ⟨[], none⟩ with
    | mk keep firstHit =>
        rw [hfold] at hkeep hhit
        exact congr (congrArg Kept.mk hkeep) hhit
  rw [h.pieces, ← List.append_nil (linesOf items), hremove, hkept, removeFrom]

/-- The lines of a text that is joined from lines; of no lines there is an empty one. -/
theorem splitAt_join (items : List (Item word)) :
    splitAt '\n' (joinWith '\n' (linesOf items)) = if linesOf items = [] then [[]] else linesOf items := by
  split
  next hnil => rw [hnil]; rfl
  next hne => exact splitAt_joinWith hne fun row hrow => not_mem_of_flat (flat_linesOf hrow)

theorem joinWith_append {xs ys : List Line} (hxs : xs ≠ []) (hys : ys ≠ []) :
    joinWith '\n' (xs ++ ys) = joinWith '\n' xs ++ '\n' :: joinWith '\n' ys := by
  induction xs with
  | nil => exact absurd rfl hxs
  | cons x xs ih =>
      cases xs with
      | nil =>
          obtain ⟨y, ys, rfl⟩ := List.exists_cons_of_ne_nil hys
          rfl
      | cons next xs =>
          have hmore := ih (List.cons_ne_nil _ _)
          rw [List.cons_append] at hmore
          rw [List.cons_append, List.cons_append, joinWith_cons, hmore, joinWith_cons, List.append_assoc, List.cons_append]

theorem linesOf_rendering (r : Rendering word) : linesOf r.items ≠ [] ∧ joinWith '\n' (linesOf r.items) = r.text := by
  constructor
  · obtain ⟨first, rest, hfirst, -⟩ := r.first
    rw [ne_eq, linesOf_eq_nil, hfirst]
    exact List.cons_ne_nil _ _
  · rw [← r.laidOut.pieces, joinWith_splitAt]

theorem removeOwned_absent (h : targetStatus word cs = .absent) (allowLegacy : Bool) :
    removeOwned word cs allowLegacy = .ok (cs, none) := by
  simp only [removeOwned, h, reduceCtorEq, false_and, if_false, if_true]
  rfl

theorem removeOwned_laidOut (h : LaidOut cs items) (hours : items.any Item.isOurs = true) {allowLegacy : Bool}
    (hlegacy : targetStatus word cs = .legacyStock → allowLegacy = true) (hforeign : targetStatus word cs ≠ .foreign)
    (habsent : targetStatus word cs ≠ .absent) : removeOwned word cs allowLegacy =
      .ok (joinWith '\n' (linesOf (others items)), some (linesOf (items.takeWhile (fun item => !item.isOurs))).length) := by
  have hallowed : ¬(targetStatus word cs = .legacyStock ∧ allowLegacy = false) := by
    rintro ⟨hstatus, hfalse⟩
    rw [hlegacy hstatus] at hfalse
    cases hfalse
  simp only [removeOwned, hallowed, hforeign, habsent, if_false, removeFrom_laidOut h hours]
  rfl

theorem mergeBlock_none {live : Option (List Char)} {text removed : List Char}
    (h : removeOwned word cs true = .ok (removed, none)) (hflush : checkFlush word live (splitAt '\n' removed) = .ok ()) :
    mergeBlock word live text cs = .ok (written (joinWith '\n' ((splitAt '\n' removed).rdropWhile isBlank) ++
      (if (splitAt '\n' removed).rdropWhile isBlank = [] then [] else ['\n', '\n']) ++ text)) := by
  rw [mergeBlock, h]
  show (checkFlush word live (splitAt '\n' removed) >>= _) = _
  rw [hflush]
  rfl

theorem mergeBlock_some {live : Option (List Char)} {text removed : List Char} {n : Nat}
    (h : removeOwned word cs true = .ok (removed, some n)) (hflush : checkFlush word live (splitAt '\n' removed) = .ok ()) :
    mergeBlock word live text cs = .ok (written (joinWith '\n' (weave (splitAt '\n' text)
      (((splitAt '\n' removed).take n).rdropWhile isBlank) (((splitAt '\n' removed).drop n).dropWhile isBlank)))) := by
  rw [mergeBlock, h]
  show (checkFlush word live (splitAt '\n' removed) >>= _) = _
  rw [hflush]
  rfl

theorem targetStatus_of_no_block (h : pdgBlocks word cs = []) :
    targetStatus word cs = .absent ∨ targetStatus word cs = .foreign := by
  have hlegacy : legacyStockPdgStatus word cs = false := by rw [legacyStockPdgStatus, h]
  have hstatus : pdgTableStatus word cs = .foreign ∨ pdgTableStatus word cs = .absent := by
    rw [pdgTableStatus, h]
    exact ite_eq_or_eq _ _ _
  rcases hstatus with hstatus | hstatus
  · right
    rw [targetStatus, hstatus, hlegacy]
    rfl
  · rw [targetStatus, hstatus]
    exact (ite_eq_or_eq _ _ _).symm

/-- Both sides of the first hit, in the lines that are kept. -/
theorem sides_of_hit (items : List (Item word)) :
    let keep := splitAt '\n' (joinWith '\n' (linesOf (others items)))
    let n := (linesOf (items.takeWhile (fun item => !item.isOurs))).length
    (keep.take n).rdropWhile isBlank = linesOf (front items) ∧ (keep.drop n).dropWhile isBlank = linesOf (back items) := by
  have htake : ∀ item ∈ items.takeWhile (fun item => !item.isOurs), item.isOurs = false := fun item hitem => by
    simpa using List.mem_takeWhile_imp hitem
  have hothers : others items = items.takeWhile (fun item => !item.isOurs) ++
      others (items.dropWhile (fun item => !item.isOurs)) := by
    calc others items = others (items.takeWhile (fun item => !item.isOurs) ++
          items.dropWhile (fun item => !item.isOurs)) := by rw [List.takeWhile_append_dropWhile]
      _ = _ := by rw [others_append, others_eq_self htake]
  have hlines : linesOf (others items) = linesOf (items.takeWhile (fun item => !item.isOurs)) ++
      linesOf (others (items.dropWhile (fun item => !item.isOurs))) := by rw [hothers, linesOf_append]
  have hfront : (linesOf (items.takeWhile (fun item => !item.isOurs))).rdropWhile isBlank = linesOf (front items) :=
    rdropWhile_linesOf (fun _ h => h) htake
  have hback : (linesOf (others (items.dropWhile (fun item => !item.isOurs)))).dropWhile isBlank = linesOf (back items) :=
    dropWhile_linesOf (fun _ h => h) fun item => not_ours_of_mem_others
  show ((splitAt '\n' (joinWith '\n' (linesOf (others items)))).take _).rdropWhile isBlank = _ ∧ _
  rw [splitAt_join]
  split
  next hnil =>
    -- nothing is kept, and an empty line is what is left of that
    rw [hlines, List.append_eq_nil_iff] at hnil
    rw [hnil.1, List.rdropWhile_nil] at hfront
    rw [hnil.2, List.dropWhile_nil] at hback
    rw [hnil.1, ← hfront, ← hback]
    exact ⟨rfl, rfl⟩
  · rw [hlines, List.take_left, List.drop_left]
    exact ⟨hfront, hback⟩

theorem passes_iff {live : Option (List Char)} : Passes live items ↔
    checkFlush word live (splitAt '\n' (joinWith '\n' (linesOf (others items)))) = .ok () := by
  rw [Passes, foreignLines, ← checkFlush_blank, splitAt_join]
  split
  next hnil =>
    have hempty : checkFlush word live [[]] = .ok () ↔ checkFlush word live [] = .ok () := checkFlush_blank live
    rw [hnil, hempty]
  · exact Iff.rfl

theorem none_ours (h : LaidOut cs items) (habsent : targetStatus word cs = .absent) : ∀ item ∈ items, item.isOurs = false := by
  obtain ⟨lined, hlined, hsame⟩ := h.lined
  have hfilter := none_ours_of_absent hlined habsent
  rw [hsame, List.filter_eq_nil_iff] at hfilter
  simpa using hfilter

theorem some_ours (h : LaidOut cs items) (habsent : targetStatus word cs ≠ .absent)
    (hforeign : targetStatus word cs ≠ .foreign) : items.any Item.isOurs = true := by
  obtain ⟨lined, hlined, hsame⟩ := h.lined
  by_contra hnone
  have hfilter : lined.filter Item.isOurs = [] := by
    rw [hsame, List.filter_eq_nil_iff]
    simpa using hnone
  have hblocks := pdgBlocks_eq hlined
  rw [hfilter, List.flatMap_nil, List.filter_nil] at hblocks
  exact (targetStatus_of_no_block hblocks).elim habsent hforeign

/-- What is left when the gateway's own is taken out. -/
theorem removeOwned_kept (h : LaidOut cs items) {allowLegacy : Bool}
    (hlegacy : targetStatus word cs = .legacyStock → allowLegacy = true) (hforeign : targetStatus word cs ≠ .foreign) :
    ∃ hit, removeOwned word cs allowLegacy = .ok (joinWith '\n' (linesOf (others items)), hit) := by
  by_cases habsent : targetStatus word cs = .absent
  · rw [others_eq_self (none_ours h habsent), ← h.pieces, joinWith_splitAt]
    exact ⟨none, removeOwned_absent habsent allowLegacy⟩
  · exact ⟨_, removeOwned_laidOut h (some_ours h habsent hforeign) hlegacy hforeign habsent⟩

/-- The merge puts the block into the layout. -/
theorem mergeBlock_laidOut (r : Rendering word) {live : Option (List Char)} (h : LaidOut cs items)
    (hstatus : targetStatus word cs ≠ .foreign) (hpasses : Passes live items) :
    mergeBlock word live r.text cs = .ok (textOf (woven r.items items)) := by
  have hflush := passes_iff.mp hpasses
  obtain ⟨hne, htext⟩ := linesOf_rendering r
  by_cases habsent : targetStatus word cs = .absent
  · -- nothing is taken out, and the block goes to the end
    have hnone := none_ours h habsent
    have htake : items.takeWhile (fun item => !item.isOurs) = items :=
      List.takeWhile_eq_self_iff.mpr fun item hitem => by rw [hnone item hitem]; rfl
    have hdrop : items.dropWhile (fun item => !item.isOurs) = [] :=
      List.dropWhile_eq_nil_iff.mpr fun item hitem => by rw [hnone item hitem]; rfl
    have hback : back items = [] := by
      rw [back, hdrop]
      rfl
    have hfront : (splitAt '\n' cs).rdropWhile isBlank = linesOf (front items) := by
      rw [h.pieces, rdropWhile_linesOf (fun _ h => h) hnone, front, htake]
    rw [others_eq_self hnone, ← h.pieces, joinWith_splitAt] at hflush
    rw [mergeBlock_none (removeOwned_absent habsent true) hflush, hfront, textOf, linesOf_woven, hback, linesOf_nil, weave,
      if_pos rfl, List.append_nil, List.append_nil]
    congr 2
    split
    next hnil => rw [hnil, List.nil_append, List.nil_append, htext]; rfl
    next hhead =>
      rw [List.append_assoc, List.append_assoc (linesOf (front items)),
        joinWith_append hhead (List.append_ne_nil_of_right_ne_nil _ hne), joinWith_append (List.cons_ne_nil _ _) hne, htext]
      rfl
  · -- the block takes the place of the first hit
    obtain ⟨hhead, htail⟩ := sides_of_hit items
    rw [mergeBlock_some (removeOwned_laidOut h (some_ours h habsent hstatus) (fun _ => rfl) hstatus habsent) hflush, hhead,
      htail, r.laidOut.pieces, textOf, linesOf_woven]

end ProxyGateway.Firewall
