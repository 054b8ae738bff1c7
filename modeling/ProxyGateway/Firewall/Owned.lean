import Mathlib.Algebra.BigOperators.Group.List.Basic
import ProxyGateway.Firewall.Layout

set_option autoImplicit false

/-!
# ProxyGateway.Firewall.Owned

Texts that have a layout, and whose the table in them is. Blank lines are lines of their own, and only what
belongs to the gateway decides (`targetStatus_of_same`).
-/

namespace ProxyGateway.Firewall

open Text Pattern
open Profile (FirewallMode)

variable {word : Char → Bool} {line head : Line} {lines body : List Line} {items block : List (Item word)} {cs : List Char}

/-! ### Blank lines -/

theorem isBlank_iff : isBlank line = true ↔ Blanks line := by
  rw [isBlank, decide_eq_true_eq]
  refine ⟨fun h c hc => ?_, strip_eq_nil⟩
  by_contra hspace
  have hmem := mem_strip (by simpa using hspace) hc
  rw [h] at hmem
  cases hmem

theorem not_isBlank {c : Char} (hmem : c ∈ line) (hc : isSpace c = false) : isBlank line = false := by
  rw [Bool.eq_false_iff, ne_eq, isBlank_iff]
  exact fun h => not_mem_of_blanks hc h hmem

theorem net_blank (h : isBlank line = true) : net line = 0 := by
  have hfree {c : Char} (hc : isSpace c = false) : c ∉ stripNoise line := fun hmem =>
    not_mem_of_blanks hc (isBlank_iff.mp h) (mem_stripNoise hmem)
  rw [net, List.count_eq_zero.mpr (hfree (by decide)), List.count_eq_zero.mpr (hfree (by decide))]
  rfl

/-- A pattern that begins with a word fits no blank line. -/
theorem fits_blank {a : Pattern} {c : Char} {w : List Char} (h : isBlank line = true) (hc : isSpace c = false) :
    fits word (.seq blank (.seq (.text (c :: w)) a)) line = false := by
  rw [Bool.eq_false_iff, ne_eq, fits_iff]
  simp only [Spot.start, mem_runs_seq, mem_runs_blank, mem_runs_text]
  rintro ⟨t, _, ⟨w₁, x, rfl, -, rfl⟩, _, ⟨y, rfl, rfl⟩, -⟩
  rw [not_isBlank (by simp) hc] at h
  cases h

theorem fits_opening_blank (h : isBlank line = true) : fits word opening line = false := fits_blank h (by decide)

theorem isMark_blank (h : isBlank line = true) : isMark word line = false := by
  have hstrip : strip line = [] := of_decide_eq_true h
  have hdecl : fits word decl line = false := fits_blank h (by decide)
  have hdeletion : fits word deletion line = false := fits_blank h (by decide)
  rw [isMark, hstrip, hdecl, hdeletion]
  rfl

theorem untouched_blank (hflat : Flat line) (h : isBlank line = true) : Untouched word line where
  flat := hflat
  mark := isMark_blank h
  closed := fits_opening_blank h
  whole := fits_blank h (by decide)
  banner := fun hin => by
    rw [not_isBlank (hin.subset List.mem_cons_self) (by decide)] at h
    cases h
  oldBanner := fun hin => by
    rw [not_isBlank (hin.subset List.mem_cons_self) (by decide)] at h
    cases h

theorem tableName_blank (h : isBlank line = true) : tableName word (stripNoise line) = none := by
  cases hname : tableName word (stripNoise line) with
  | none => rfl
  | some name =>
      rw [not_isBlank (mem_stripNoise (mem_of_tableName hname)) (by decide)] at h
      cases h

/-- An empty line. -/
def Item.empty (word : Char → Bool) : Item word :=
  .line [] (untouched_blank (fun c hc => by cases hc) rfl) (tableName_blank rfl)

/-- Is it a line of its own, and one that `p` holds of? -/
def Item.only (p : Line → Bool) : Item word → Bool
  | .line row _ _ => p row
  | .table _ _ _ _ _ _ | .mark _ _ _ | .ours _ _ _ _ _ _ => false

abbrev Item.isBlank (item : Item word) : Bool := item.only Firewall.isBlank

/-- Braces that come out even from some depth on do so in a line that is not blank. -/
theorem evens_last {d : Int} (hd : 0 < d) (h : evens d (lines ++ [line]) = true) : isBlank line = false := by
  induction lines generalizing d with
  | nil =>
      rw [List.nil_append, evens] at h
      rw [Bool.eq_false_iff]
      intro hblank
      rw [net_blank hblank, Int.add_zero, if_neg (by omega)] at h
      cases h
  | cons next lines ih =>
      rw [List.cons_append, evens] at h
      split at h
      · simp at h
      · exact ih (by omega) h

/-- The first and the last line of a table are not blank. -/
theorem table_edges (hbrace : '{' ∈ stripNoise head) (h : evens 0 (head :: body) = true) :
    isBlank head = false ∧ isBlank ((head :: body).getLast (List.cons_ne_nil _ _)) = false := by
  have hhead := not_isBlank (mem_stripNoise hbrace) (by decide)
  refine ⟨hhead, ?_⟩
  rcases List.eq_nil_or_concat body with rfl | ⟨front, last, rfl⟩
  · exact hhead
  · rw [List.concat_eq_append] at h ⊢
    rw [evens, Int.zero_add] at h
    split at h
    · simp at h
    · have hlast := evens_last (by omega) h
      simpa using hlast

/-- A kind of blank lines. -/
def BlankKind (p : Line → Bool) : Prop := ∀ row, p row = true → isBlank row = true

variable {p : Line → Bool}

/-- An item of others begins and ends with a line that is not blank, if it is not a blank line itself. -/
theorem Item.edges {item : Item word} (hp : BlankKind p) (hours : item.isOurs = false) (hnot : item.only p = false) :
    ∃ first last front back, item.lines = first :: back ∧ item.lines = front ++ [last] ∧ p first = false ∧ p last = false := by
  have hother {row : Line} (h : Firewall.isBlank row = false) : p row = false := by
    rw [Bool.eq_false_iff]
    intro hrow
    rw [hp row hrow] at h
    cases h
  cases item with
  | line row h hname => exact ⟨row, row, [], [], rfl, rfl, hnot, hnot⟩
  | table name head body hname h heven =>
      obtain ⟨hfirst, hlast⟩ := table_edges (mem_of_tableName hname) heven
      exact ⟨head, _, (head :: body).dropLast, body, rfl, (List.dropLast_append_getLast _).symm, hother hfirst, hother hlast⟩
  | mark row h hflat => cases hours
  | ours head body hmark hname heven hflat => cases hours

theorem Item.lines_of_only {item : Item word} (h : item.only p = true) :
    ∃ row, item.lines = [row] ∧ p row = true ∧ item.isOurs = false := by
  cases item with
  | line row hrow hname => exact ⟨row, rfl, h, rfl⟩
  | table name head body hname _ heven => cases h
  | mark row _ hflat => cases h
  | ours head body hmark hname heven hflat => cases h

/-- Blank lines in front are blank items. -/
theorem dropWhile_linesOf (hp : BlankKind p) (h : ∀ item ∈ items, item.isOurs = false) :
    (linesOf items).dropWhile p = linesOf (items.dropWhile (Item.only p)) := by
  induction items with
  | nil => rfl
  | cons item items ih =>
      obtain ⟨hitem, hitems⟩ := List.forall_mem_cons.mp h
      rw [linesOf_cons, List.dropWhile_cons]
      cases honly : item.only p with
      | true =>
          obtain ⟨row, hrow, hrowp, -⟩ := Item.lines_of_only honly
          rw [hrow, List.singleton_append, List.dropWhile_cons, if_pos hrowp, if_pos rfl, ih hitems]
      | false =>
          obtain ⟨first, last, front, back, hfirst, -, hne, -⟩ := Item.edges hp hitem honly
          rw [hfirst, List.cons_append, List.dropWhile_cons, if_neg (by simp [hne]), if_neg Bool.false_ne_true,
            linesOf_cons, hfirst, List.cons_append]

/-- Blank lines at the end are blank items. -/
theorem rdropWhile_linesOf (hp : BlankKind p) (h : ∀ item ∈ items, item.isOurs = false) :
    (linesOf items).rdropWhile p = linesOf (items.rdropWhile (Item.only p)) := by
  induction items using List.reverseRecOn with
  | nil => rfl
  | append_singleton items item ih =>
      have hitem := h item (List.mem_append_right _ (List.mem_singleton_self _))
      have hitems := ih fun other hother => h other (List.mem_append_left _ hother)
      rw [linesOf_append, linesOf_cons, linesOf_nil, List.append_nil]
      cases honly : item.only p with
      | true =>
          obtain ⟨row, hrow, hrowp, -⟩ := Item.lines_of_only honly
          rw [hrow, List.rdropWhile_concat_pos _ _ _ hrowp, List.rdropWhile_concat_pos _ _ _ honly, hitems]
      | false =>
          obtain ⟨first, last, front, back, -, hlast, -, hne⟩ := Item.edges hp hitem honly
          rw [hlast, ← List.append_assoc, List.rdropWhile_concat_neg _ _ _ (by simp [hne]),
            List.rdropWhile_concat_neg _ _ _ (by simp [honly]), linesOf_append, linesOf_cons, linesOf_nil, List.append_nil,
            hlast, List.append_assoc]

/-! ### Texts that have a layout -/

/-- The lines of the text are those of the layout. -/
structure Lined (cs : List Char) (items : List (Item word)) : Prop where
  flat : ∀ c ∈ cs, isLineBreak c = true → c = '\n'
  lines : splitlines cs = linesOf items

/-- The text is what stands in the layout, with a line feed between two lines. -/
structure LaidOut (cs : List Char) (items : List (Item word)) : Prop where
  flat : ∀ c ∈ cs, isLineBreak c = true → c = '\n'
  pieces : splitAt '\n' cs = linesOf items

/-- What the gateway has does not end in an empty line. -/
theorem Item.lines_ours {item : Item word} (hours : item.isOurs = true) : item.lines.getLast? ≠ some [] := by
  cases item with
  | line row h hname => cases hours
  | table name head body hname h heven => cases hours
  | mark row h hflat =>
      intro hlast
      obtain rfl : row = [] := Option.some.inj hlast
      rw [isMark_blank rfl] at h
      cases h
  | ours head body hmark hname heven hflat =>
      obtain ⟨-, hne⟩ := table_edges (mem_of_tableName hname) heven
      intro hlast
      rw [Item.lines, List.getLast?_eq_getLast_of_ne_nil (List.cons_ne_nil _ _), Option.some_inj] at hlast
      rw [hlast] at hne
      cases hne

/-- Nothing behind the last line feed is no line. -/
theorem LaidOut.lined (h : LaidOut cs items) : ∃ front, Lined cs front ∧ front.filter Item.isOurs = items.filter Item.isOurs := by
  rcases splitAt_of_flat h.flat with ⟨hsame, -⟩ | hmore
  · exact ⟨items, ⟨h.flat, by rw [← hsame, h.pieces]⟩, rfl⟩
  · rw [h.pieces] at hmore
    rcases List.eq_nil_or_concat items with rfl | ⟨front, last, rfl⟩
    · exact absurd hmore.symm (List.append_ne_nil_of_right_ne_nil _ (List.cons_ne_nil _ _))
    · rw [List.concat_eq_append, linesOf_append, linesOf_cons, linesOf_nil, List.append_nil] at hmore
      have hlast : last.lines.getLast? = some [] := by
        have hne : last.lines ≠ [] := by cases last <;> exact List.cons_ne_nil _ _
        have hall := congrArg List.getLast? hmore
        rwa [List.getLast?_append_of_ne_nil _ hne, List.getLast?_concat] at hall
      have hours : last.isOurs = false := by
        rw [Bool.eq_false_iff]
        exact fun hours => Item.lines_ours hours hlast
      have hblank : last.isBlank = true := by
        by_contra hne
        obtain ⟨_, row, front, _, -, hrow, -, hnot⟩ := Item.edges (fun _ h => h) hours (by simpa using hne)
        rw [hrow, List.getLast?_concat] at hlast
        obtain rfl := Option.some.inj hlast
        cases hnot
      obtain ⟨row, hrow, -, -⟩ := Item.lines_of_only hblank
      rw [hrow] at hlast hmore
      obtain rfl := Option.some.inj hlast
      refine ⟨front, ⟨h.flat, (List.append_cancel_right hmore).symm⟩, ?_⟩
      rw [List.concat_eq_append, List.filter_append, List.filter_cons, hours, if_neg Bool.false_ne_true, List.filter_nil,
        List.append_nil]

/-- What is counted in the lines of others, which have nothing of it, need not be looked at. -/
theorem sum_of_ours {f : Line → Nat} (h : ∀ line, Untouched word line → f line = 0) (items : List (Item word)) :
    ((linesOf items).map f).sum = ((linesOf (items.filter Item.isOurs)).map f).sum := by
  induction items with
  | nil => rfl
  | cons item items ih =>
      rw [linesOf_cons, List.map_append, List.sum_append, ih, List.filter_cons]
      cases hours : item.isOurs with
      | true => rw [if_pos rfl, linesOf_cons, List.map_append, List.sum_append]
      | false =>
          have hzero : (item.lines.map f).sum = 0 :=
            List.sum_eq_zero fun n hn => by
              obtain ⟨line, hline, rfl⟩ := List.mem_map.mp hn
              exact h line (Item.untouched hours line hline)
          rw [hzero, Nat.zero_add, if_neg Bool.false_ne_true]

theorem bannerCount_eq (h : Lined cs items) :
    bannerCount cs = ((linesOf (items.filter Item.isOurs)).map bannerCount).sum := by
  have hcount {old : Line} (hold : old ≠ []) (hfree : '\n' ∉ old) := count_of_flat hold hfree h.flat
  rw [← sum_of_ours (fun line hline => ?_), bannerCount, hcount (by decide) (by decide), hcount (by decide) (by decide),
    h.lines, ← List.sum_map_add]
  · rfl
  · rw [bannerCount, count_eq_zero hline.banner, count_eq_zero hline.oldBanner]

theorem countP_eq_sum (p : Line → Bool) (lines : List Line) : lines.countP p = (lines.map fun line => (p line).toNat).sum := by
  induction lines with
  | nil => rfl
  | cons line lines ih =>
      rw [List.countP_cons, ih, List.map_cons, List.sum_cons, Nat.add_comm]
      cases p line <;> rfl

theorem lineCount_eq {a : Pattern} (h : Lined cs items) (ha : ∀ line, Untouched word line → fits word a line = false) :
    lineCount word a cs = ((linesOf (items.filter Item.isOurs)).map fun line => (fits word a line).toNat).sum := by
  rw [← sum_of_ours (fun line hline => by rw [ha line hline]; rfl), lineCount, h.lines, countP_eq_sum]

theorem Untouched.decl (h : Untouched word line) : fits word decl line = false := by
  have hmark := h.mark
  simp only [isMark, Bool.or_eq_false_iff] at hmark
  exact hmark.1.2

theorem Untouched.deletion (h : Untouched word line) : fits word deletion line = false := by
  have hmark := h.mark
  simp only [isMark, Bool.or_eq_false_iff] at hmark
  exact hmark.2

theorem pdgBlocks_eq (h : Lined cs items) :
    pdgBlocks word cs = ((items.filter Item.isOurs).flatMap Item.blocks).filter (·.name = ours) := by
  have hblocks := blocksFrom_layout items []
  rw [List.append_nil, blocksFrom, List.append_nil] at hblocks
  rw [pdgBlocks, tableBlocks, namedBlocks, h.lines, hblocks, blocks_others]

theorem pdgTableStatus_owned {mode : FirewallMode} (h : pdgTableStatus word cs = .owned mode) :
    ∃ b, pdgBlocks word cs = [b] ∧ validateOwnedBlock word b.text = some mode := by
  rw [pdgTableStatus] at h
  split at h
  · split at h <;> cases h
  next b hb =>
    split at h
    next mode' hmode =>
      cases h
      exact ⟨b, hb, hmode⟩
    · cases h
  · cases h

theorem targetStatus_owned {mode : FirewallMode} (h : targetStatus word cs = .owned mode) :
    pdgTableStatus word cs = .owned mode ∧ bannerCount cs ≤ 1 ∧ lineCount word decl cs ≤ 1 ∧
      lineCount word deletion cs ≤ 1 := by
  rw [targetStatus] at h
  split at h
  · split at h <;> cases h
  · split at h <;> cases h
  next mode' hmode =>
    split at h
    · cases h
    next hcounts =>
      cases h
      simp only [not_or, Nat.not_lt] at hcounts
      exact ⟨hmode, hcounts.1, hcounts.2.1, hcounts.2.2.1⟩

/-- What belongs to the gateway decides whether the table is owned, whatever stands around it. -/
theorem targetStatus_of_same {own : List (Item word)} {text : List Char} {mode : FirewallMode} (h : Lined cs items)
    (htext : Lined text own) (hsame : items.filter Item.isOurs = own.filter Item.isOurs)
    (howned : targetStatus word text = .owned mode) : targetStatus word cs = .owned mode := by
  obtain ⟨hstatus, hbanner, hdecl, hdeletion⟩ := targetStatus_owned howned
  obtain ⟨b, hb, hmode⟩ := pdgTableStatus_owned hstatus
  have hblocks : pdgBlocks word cs = [b] := by rw [pdgBlocks_eq h, hsame, ← pdgBlocks_eq htext, hb]
  have hagain : pdgTableStatus word cs = .owned mode := by
    rw [pdgTableStatus, hblocks]
    simp only [hmode]
  rw [bannerCount_eq htext, ← hsame, ← bannerCount_eq h] at hbanner
  rw [lineCount_eq htext fun _ => Untouched.decl, ← hsame, ← lineCount_eq h fun _ => Untouched.decl] at hdecl
  rw [lineCount_eq htext fun _ => Untouched.deletion, ← hsame, ← lineCount_eq h fun _ => Untouched.deletion] at hdeletion
  rw [targetStatus, hagain, hblocks]
  simp only [List.length_singleton, ne_eq, not_true_eq_false, or_false]
  exact if_neg (by omega)

/-- Where there is nothing of the gateway's to the merge, there is none in the layout. -/
theorem none_ours_of_absent (h : Lined cs items) (habsent : targetStatus word cs = .absent) :
    items.filter Item.isOurs = [] := by
  rw [targetStatus] at habsent
  split at habsent
  case h_2 => split at habsent <;> cases habsent
  case h_3 => split at habsent <;> cases habsent
  split at habsent
  · cases habsent
  next hcounts =>
    simp only [not_or, ne_eq, not_not] at hcounts
    obtain ⟨hbanner, hdecl, hdeletion, hblocks⟩ := hcounts
    rw [bannerCount_eq h] at hbanner
    rw [lineCount_eq h fun _ => Untouched.decl] at hdecl
    rw [lineCount_eq h fun _ => Untouched.deletion] at hdeletion
    rw [pdgBlocks_eq h, List.length_eq_zero_iff] at hblocks
    -- an item of the gateway's would be counted: a table as a block, a mark in one of the three counts
    by_contra hne
    obtain ⟨item, hitem⟩ := List.exists_mem_of_ne_nil _ hne
    have hzero {f : Line → Nat} (hsum : ((linesOf (items.filter Item.isOurs)).map f).sum = 0) (line : Line)
        (hline : line ∈ item.lines) : f line = 0 :=
      List.sum_eq_zero_iff_forall_eq_nat.mp hsum _ (List.mem_map_of_mem (List.mem_flatMap.mpr ⟨item, hitem, hline⟩))
    obtain ⟨-, hours⟩ := List.mem_filter.mp hitem
    cases item with
    | line row hrow hname => cases hours
    | table name head body hname hrows heven => cases hours
    | ours head body hmark hname heven hflat =>
        have hin : (⟨ours, head :: body, 0, true⟩ : Block) ∈
            ((items.filter Item.isOurs).flatMap Item.blocks).filter (·.name = ours) :=
          List.mem_filter.mpr ⟨List.mem_flatMap.mpr ⟨_, hitem, List.mem_singleton_self _⟩, by simp⟩
        rw [hblocks] at hin
        cases hin
    | mark row hmark hflat =>
        have hrow : row ∈ (Item.mark row hmark hflat).lines := List.mem_singleton_self _
        have hcount {old : Line} (hold : old ≠ []) (heq : strip row = old) : 0 < count old row :=
          count_pos hold (heq ▸ stripBy_infix isSpace row)
        have hbanners := hzero hbanner row hrow
        rw [bannerCount, Nat.add_eq_zero_iff] at hbanners
        simp only [isMark, Bool.or_eq_true, decide_eq_true_eq] at hmark
        obtain ((hmark | hmark) | hmark) | hmark := hmark
        · exact absurd hbanners.1 (hcount (by decide) hmark).ne'
        · exact absurd hbanners.2 (hcount (by decide) hmark).ne'
        · have hnone := hzero hdecl row hrow
          rw [hmark] at hnone
          cases hnone
        · have hnone := hzero hdeletion row hrow
          rw [hmark] at hnone
          cases hnone

end ProxyGateway.Firewall
