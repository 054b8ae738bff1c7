import ProxyGateway.Firewall.Spliced

set_option autoImplicit false

/-!
# ProxyGateway.Firewall.Runs

Runs of merges and removals on one configuration. Whatever is merged, in whatever mode, and taken out
again, the lines of others stay, the table is the gateway's own or there is none, and no later step is
refused for what an earlier one wrote.
-/

namespace ProxyGateway.Firewall

open Text Pattern
open Profile (FirewallMode)

variable {word : Char → Bool} {items : List (Item word)} {cs u : List Char}

/-! ### Nothing of the gateway's -/

/-- A configuration of others only has no table of the gateway's. -/
theorem targetStatus_of_none (h : LaidOut cs items) (hnone : items.filter Item.isOurs = []) :
    targetStatus word cs = .absent := by
  obtain ⟨lined, hlined, hsame⟩ := h.lined
  rw [hnone] at hsame
  have hblocks : pdgBlocks word cs = [] := by rw [pdgBlocks_eq hlined, hsame]; rfl
  have hbanner : bannerCount cs = 0 := by rw [bannerCount_eq hlined, hsame]; rfl
  have hdecl : lineCount word decl cs = 0 := by rw [lineCount_eq hlined fun _ => Untouched.decl, hsame]; rfl
  have hdeletion : lineCount word deletion cs = 0 := by
    rw [lineCount_eq hlined fun _ => Untouched.deletion, hsame]
    rfl
  have hfound : found word pdgDecl cs = false := by
    rw [Bool.eq_false_iff]
    intro hfound
    -- the line in which a declaration begins would not be one of others
    obtain ⟨line, hline, hfits⟩ := line_of_pdgDecl hfound
    rw [h.pieces] at hline
    obtain ⟨item, hitem, hline⟩ := List.mem_flatMap.mp hline
    have hours : item.isOurs = false := by simpa using List.filter_eq_nil_iff.mp hnone item hitem
    have huntouched := Item.untouched hours line hline
    rw [huntouched.whole, huntouched.decl, huntouched.closed] at hfits
    simp at hfits
  have hstatus : pdgTableStatus word cs = .absent := by
    rw [pdgTableStatus, hblocks]
    simp only [hfound]
    rfl
  rw [targetStatus, hstatus, hblocks, hbanner, hdecl, hdeletion]
  rfl

theorem filter_others (items : List (Item word)) : (others items).filter Item.isOurs = [] :=
  List.filter_eq_nil_iff.mpr fun item hitem => by simp [not_ours_of_mem_others hitem]

/-! ### One merge -/

/-- A block goes in exactly if the table there is not foreign and no running table is lost. -/
theorem mergeBlock_accepted_iff (r : Rendering word) {live : Option (List Char)} (h : LaidOut cs items) :
    (∃ u, mergeBlock word live r.text cs = .ok u) ↔ targetStatus word cs ≠ .foreign ∧ Passes live items := by
  constructor
  · rintro ⟨u, hu⟩
    have hstatus : targetStatus word cs ≠ .foreign := by
      intro hforeign
      rw [mergeBlock, removeOwned] at hu
      simp only [hforeign, reduceCtorEq, false_and, if_false, if_true] at hu
      cases hu
    obtain ⟨hit, hkept⟩ := removeOwned_kept h (fun _ => rfl : _ → true = true) hstatus
    rw [mergeBlock, hkept] at hu
    refine ⟨hstatus, passes_iff.mpr ?_⟩
    change (checkFlush word live (splitAt '\n' (joinWith '\n' (linesOf (others items)))) >>= _) = _ at hu
    cases hflush : checkFlush word live (splitAt '\n' (joinWith '\n' (linesOf (others items)))) with
    | ok _ => rfl
    | error e =>
        rw [hflush] at hu
        cases hu
  · rintro ⟨hstatus, hpasses⟩
    exact ⟨_, mergeBlock_laidOut r h hstatus hpasses⟩

theorem filter_settled (items : List (Item word)) : (settled items).filter Item.isOurs = items.filter Item.isOurs := by
  rw [settled]
  split
  · rfl
  · rw [List.filter_append]
    exact List.append_nil _

theorem foreignLines_settled (items : List (Item word)) : foreignLines (settled items) = foreignLines items := by
  rw [settled]
  split
  · rfl
  · rw [foreignLines_append]
    exact List.append_nil _

theorem filter_woven (r : Rendering word) (items : List (Item word)) :
    (woven r.items items).filter Item.isOurs = r.items.filter Item.isOurs := by
  have hnone {more : List (Item word)} (h : ∀ item ∈ more, item.isOurs = false) : more.filter Item.isOurs = [] :=
    List.filter_eq_nil_iff.mpr fun item hitem => by simp [h item hitem]
  rw [woven, List.filter_append, List.filter_append, List.filter_append, List.filter_append,
    hnone fun item => not_ours_of_mem_front, hnone fun item => not_ours_of_mem_back, hnone not_ours_gap, hnone not_ours_gap,
    List.append_nil, List.append_nil]
  rfl

theorem woven_lines (r : Rendering word) (items : List (Item word)) : linesOf (woven r.items items) ≠ [[]] := by
  obtain ⟨first, rest, hfirst, hours⟩ := r.first
  intro hall
  have hmem : first ∈ woven r.items items := by
    rw [woven, hfirst]
    simp
  have hrows : ∀ row ∈ first.lines, row = [] := fun row hrow => by
    have hin : row ∈ linesOf (woven r.items items) := List.mem_flatMap.mpr ⟨first, hmem, hrow⟩
    rw [hall] at hin
    exact List.mem_singleton.mp hin
  have hne : first.lines ≠ [] := by cases first <;> exact List.cons_ne_nil _ _
  refine Item.lines_ours hours ?_
  rw [List.getLast?_eq_getLast_of_ne_nil hne, hrows _ (List.getLast_mem hne)]

/-- What a merge writes has a layout, in which the table is the gateway's own and nothing of others is lost. -/
theorem merged (r : Rendering word) (items : List (Item word)) :
    LaidOut (textOf (woven r.items items)) (settled (woven r.items items)) ∧
      targetStatus word (textOf (woven r.items items)) = .owned r.mode ∧
      foreignLines (settled (woven r.items items)) = foreignLines items := by
  have hne : woven r.items items ≠ [] := by
    obtain ⟨first, rest, hfirst, -⟩ := r.first
    rw [woven, hfirst]
    simp
  obtain ⟨hlaid, -⟩ := laidOut_textOf (woven_lines r items) hne
  obtain ⟨lined, hlined, hsame⟩ := hlaid.lined
  obtain ⟨own, hown, hsame'⟩ := r.laidOut.lined
  refine ⟨hlaid, targetStatus_of_same hlined hown ?_ r.owned, ?_⟩
  · rw [hsame, hsame', filter_settled, filter_woven]
  · rw [foreignLines_settled, foreignLines_woven]

/-! ### One removal -/

/-- An empty line. -/
def isEmptyLine (line : Line) : Bool := line.isEmpty

/-- What a removal leaves. -/
def cleared (items : List (Item word)) : List (Item word) :=
  let kept := (others items).rdropWhile (Item.only isEmptyLine)
  if kept.isEmpty then [.empty word, .empty word] else settled kept

theorem blankKind_empty : BlankKind isEmptyLine := fun row h => by
  rw [isEmptyLine, List.isEmpty_iff] at h
  rw [h]
  rfl

/-- Line feeds at the end are empty lines. -/
theorem rdropWhile_join {rows : List Line} (hflat : ∀ row ∈ rows, Flat row) :
    (joinWith '\n' rows).rdropWhile (· = '\n') = joinWith '\n' (rows.rdropWhile isEmptyLine) := by
  induction rows using List.reverseRecOn with
  | nil => rfl
  | append_singleton rows row ih =>
      have hrows := ih fun other hother => hflat other (List.mem_append_left _ hother)
      by_cases hrow : row = []
      · subst hrow
        rw [List.rdropWhile_concat_pos _ _ _ (show isEmptyLine [] = true from rfl), ← hrows]
        rcases List.eq_nil_or_concat rows with rfl | ⟨front, last, rfl⟩
        · rfl
        · have hne : front.concat last ≠ [] := by simp
          rw [joinWith_append hne (List.cons_ne_nil _ _), show joinWith '\n' [[]] = [] from rfl]
          exact List.rdropWhile_concat_pos _ _ _ (by simp)
      · have hlast := getLast?_joinWith hrow rows
        rw [List.rdropWhile_concat_neg _ _ _ (by simpa [isEmptyLine] using hrow)]
        refine List.rdropWhile_eq_self_iff.mpr fun hne => ?_
        rw [List.getLast?_eq_getLast_of_ne_nil hne] at hlast
        have hin := List.mem_of_getLast? hlast.symm
        have hfree := not_mem_of_flat (hflat row (by simp))
        rw [decide_eq_true_eq]
        intro heq
        rw [heq] at hin
        exact hfree hin

/-- The removal leaves the lines of others, and no table of the gateway's. -/
theorem removeTable_laidOut (h : LaidOut cs items) (hlegacy : targetStatus word cs ≠ .legacyStock)
    (hforeign : targetStatus word cs ≠ .foreign) : ∃ u, removeTable word cs = .ok u ∧ LaidOut u (cleared items) ∧
      targetStatus word u = .absent ∧ foreignLines (cleared items) = foreignLines items := by
  have hothers : ∀ item ∈ others items, item.isOurs = false := fun item => not_ours_of_mem_others
  have hkept : ∀ item ∈ (others items).rdropWhile (Item.only isEmptyLine), item.isOurs = false := fun item hitem =>
    hothers item ((List.rdropWhile_prefix _ _).subset hitem)
  have hempty : ∀ item ∈ [Item.empty word, .empty word], item.isOurs = false := by
    intro item hitem
    rcases List.mem_cons.mp hitem with rfl | hitem
    · rfl
    · rw [List.mem_singleton.mp hitem]
      rfl
  obtain ⟨hit, hremoved⟩ := removeOwned_kept h (fun hstatus => absurd hstatus hlegacy : _ → false = true) hforeign
  have hrun : removeTable word cs = .ok (textOf ((others items).rdropWhile (Item.only isEmptyLine))) := by
    rw [removeTable, hremoved]
    show Except.ok (written ((joinWith '\n' (linesOf (others items))).rdropWhile (· = '\n'))) = _
    rw [rdropWhile_join fun row hrow => flat_linesOf hrow, rdropWhile_linesOf blankKind_empty hothers]
    rfl
  have hforeignLines : foreignLines ((others items).rdropWhile (Item.only isEmptyLine)) = foreignLines items := by
    rw [foreignLines, others_eq_self hkept, ← rdropWhile_linesOf blankKind_empty hothers, filter_rdropWhile]
    · rfl
    · intro row hrow
      rw [blankKind_empty row hrow]
      rfl
  have hdone {u : List Char} (hu : LaidOut u (cleared items)) (hnone : (cleared items).filter Item.isOurs = []) :
      targetStatus word u = .absent := targetStatus_of_none hu hnone
  refine ⟨_, hrun, ?_⟩
  by_cases hnil : (others items).rdropWhile (Item.only isEmptyLine) = []
  · -- nothing but empty lines is left, and one of them is written
    have hcleared : cleared items = [.empty word, .empty word] := by
      rw [cleared, hnil]
      rfl
    have hlaid : LaidOut (textOf ([] : List (Item word))) (cleared items) := by
      rw [hcleared]
      exact ⟨fun c hc _ => List.mem_singleton.mp hc, rfl⟩
    rw [hnil] at hforeignLines ⊢
    refine ⟨hlaid, hdone hlaid ?_, ?_⟩
    · rw [hcleared]
      rfl
    · rw [hcleared, ← hforeignLines]
      rfl
  · have hcleared : cleared items = settled ((others items).rdropWhile (Item.only isEmptyLine)) := by
      rw [cleared]
      exact if_neg (by simpa using hnil)
    have hlines : linesOf ((others items).rdropWhile (Item.only isEmptyLine)) ≠ [[]] := by
      rw [← rdropWhile_linesOf blankKind_empty hothers]
      intro heq
      have hlast := List.rdropWhile_last_not isEmptyLine (linesOf (others items)) (by rw [heq]; exact List.cons_ne_nil _ _)
      simp [heq, isEmptyLine] at hlast
    obtain ⟨hlaid, -⟩ := laidOut_textOf hlines hnil
    rw [← hcleared] at hlaid
    refine ⟨hlaid, hdone hlaid ?_, ?_⟩
    · rw [hcleared, filter_settled]
      exact List.filter_eq_nil_iff.mpr fun item hitem => by simp [hkept item hitem]
    · rw [hcleared, foreignLines_settled, hforeignLines]

/-! ### Runs -/

/-- A merge of a block that is rendered from its source. -/
structure Merge (word : Char → Bool) where
  site : Site
  explicit : List Char
  source : List Char
  rendering : Rendering word
  rendered : renderBlock word site explicit source = .ok rendering.text

/-- A call of the program. -/
inductive Op (word : Char → Bool) where
  | merge (m : Merge word)
  | remove

def Op.run : Op word → List Char → Except Refusal (List Char)
  | .merge m, cs => replaceTable word m.site m.explicit m.source cs
  | .remove, cs => removeTable word cs

/-- Whose the table is after it. -/
def Op.leaves : Op word → TargetStatus
  | .merge m => .owned m.rendering.mode
  | .remove => .absent

/-- One call after the other, each on what the one before has written. -/
def runAll (ops : List (Op word)) (cs : List Char) : Except Refusal (List Char) := ops.foldlM (fun cs op => op.run cs) cs

/-- A configuration in which the lines of others are `rows`. -/
def Holds (word : Char → Bool) (rows : List Line) (cs : List Char) : Prop :=
  ∃ items : List (Item word), LaidOut cs items ∧ foreignLines items = rows

variable {rows : List Line}

theorem replaceTable_eq (m : Merge word) (cs : List Char) :
    replaceTable word m.site m.explicit m.source cs = mergeBlock word m.site.live m.rendering.text cs := by
  rw [replaceTable, m.rendered]
  rfl

/-- A merge is accepted unless the table there is foreign, or a `flush ruleset` would take a running table. -/
theorem merge_accepted_iff (m : Merge word) (h : Holds word rows cs) :
    (∃ u, (Op.merge m).run cs = .ok u) ↔
      targetStatus word cs ≠ .foreign ∧ checkFlush word m.site.live rows = .ok () := by
  obtain ⟨items, hlaid, rfl⟩ := h
  rw [Op.run, replaceTable_eq]
  exact mergeBlock_accepted_iff m.rendering hlaid

/-- A removal is accepted unless the table there is foreign, or the one of old. -/
theorem remove_accepted_iff (h : Holds word rows cs) : (∃ u, (Op.remove : Op word).run cs = .ok u) ↔
    targetStatus word cs ≠ .foreign ∧ targetStatus word cs ≠ .legacyStock := by
  obtain ⟨items, hlaid, rfl⟩ := h
  constructor
  · rintro ⟨u, hu⟩
    have hu : removeTable word cs = .ok u := hu
    constructor <;> intro hstatus <;> rw [removeTable, removeOwned] at hu <;>
      simp only [hstatus, reduceCtorEq, and_self, false_and, if_false, if_true] at hu <;> cases hu
  · rintro ⟨hforeign, hlegacy⟩
    obtain ⟨u, hu, -⟩ := removeTable_laidOut hlaid hlegacy hforeign
    exact ⟨u, hu⟩

/-- A step keeps the lines of others, and says whose the table is. -/
theorem holds_run {op : Op word} (h : Holds word rows cs) (hrun : op.run cs = .ok u) :
    Holds word rows u ∧ targetStatus word u = op.leaves := by
  cases op with
  | merge m =>
      obtain ⟨hstatus, hpasses⟩ := (merge_accepted_iff m h).mp ⟨u, hrun⟩
      obtain ⟨items, hlaid, rfl⟩ := h
      rw [Op.run, replaceTable_eq, mergeBlock_laidOut m.rendering hlaid hstatus hpasses] at hrun
      obtain rfl := Except.ok.inj hrun
      obtain ⟨hmerged, howned, hlines⟩ := merged m.rendering items
      exact ⟨⟨_, hmerged, hlines⟩, howned⟩
  | remove =>
      obtain ⟨hforeign, hlegacy⟩ := (remove_accepted_iff h).mp ⟨u, hrun⟩
      obtain ⟨items, hlaid, rfl⟩ := h
      obtain ⟨v, hv, hremoved, habsent, hlines⟩ := removeTable_laidOut hlaid hlegacy hforeign
      obtain rfl : v = u := Except.ok.inj (hv.symm.trans hrun)
      exact ⟨⟨_, hremoved, hlines⟩, habsent⟩

theorem runAll_concat {ops : List (Op word)} {op : Op word} :
    runAll (ops ++ [op]) cs = .ok u ↔ ∃ v, runAll ops cs = .ok v ∧ op.run v = .ok u := by
  rw [runAll, List.foldlM_append]
  show (runAll ops cs >>= fun v => op.run v >>= pure) = .ok u ↔ _
  cases runAll ops cs with
  | error e => simp [bind, Except.bind]
  | ok v =>
      show (op.run v >>= pure) = .ok u ↔ _
      rw [bind_pure]
      simp

theorem holds_runAll {ops : List (Op word)} (h : Holds word rows cs) (hrun : runAll ops cs = .ok u) : Holds word rows u := by
  induction ops using List.reverseRecOn generalizing u with
  | nil =>
      obtain rfl : cs = u := Except.ok.inj hrun
      exact h
  | append_singleton ops op ih =>
      obtain ⟨v, hv, hu⟩ := runAll_concat.mp hrun
      exact (holds_run (ih hv) hu).1

/-- `\w` in ASCII. -/
def asciiWord (c : Char) : Bool := c.isAlphanum || c = '_'

/-- A table with a set of ports for each kind of traffic, and no input chain. -/
def smallTable : List Line := [
  "table inet pdg \x7b".toList,
  "comment \"".toList ++ ownerPrefix.toList ++ "external\"".toList,
  "set ".toList ++ "pdg_tls_tcp_ports".toList ++ " \x7b".toList,
  "type ".toList ++ "inet_service;".toList ++ " elements = 1".toList,
  "\x7d".toList,
  "set ".toList ++ "pdg_http_tcp_ports".toList ++ " \x7b".toList,
  "type ".toList ++ "inet_service;".toList ++ " elements = 2".toList,
  "\x7d".toList,
  "chain ".toList ++ "prerouting".toList ++ " \x7b".toList,
  "type nat hook ".toList ++ "prerouting".toList,
  "ip saddr ".toList ++ "@pdg_tls_tcp_ports".toList ++ " redirect to :7893".toList,
  "ip saddr ".toList ++ "@pdg_http_tcp_ports".toList ++ " redirect to :7893".toList,
  "\x7d".toList,
  "\x7d".toList]

def smallBlock : List Char := joinWith '\n' (banner :: smallTable)

/-- A template of it, whose input chain is left out. -/
def smallTemplate : List Char := joinWith '\n' (smallTable.dropLast ++ [managedBegin, managedEnd, "\x7d".toList])

-- one evaluation of the lines for all of it
theorem smallTable_rendered :
    splitAt '\n' smallBlock = banner :: smallTable ∧ evens 0 smallTable = true ∧
      smallTable.all (fun line => line.all fun c => decide (isLineBreak c = false)) = true ∧
      targetStatus asciiWord smallBlock = .owned .external ∧
      renderBlock asciiWord ⟨.absent, [], none⟩ "external".toList smallTemplate = .ok smallBlock := by
  decide +kernel

def smallRendering : Rendering asciiWord where
  text := smallBlock
  mode := .external
  items := [.mark banner (by decide +kernel) (Text.forall_of_all (by decide +kernel)),
    .ours "table inet pdg \x7b".toList smallTable.tail (by decide +kernel) (by decide +kernel) smallTable_rendered.2.1
      (fun line hline => Text.forall_of_all (List.all_eq_true.mp smallTable_rendered.2.2.1 line hline))]
  laidOut := ⟨Text.forall_of_all (by decide +kernel), smallTable_rendered.1⟩
  first := ⟨_, _, rfl, rfl⟩
  last := by decide +kernel
  own := fun item hitem => by
    rcases List.mem_cons.mp hitem with rfl | hitem
    · exact .inl rfl
    · rw [List.mem_singleton.mp hitem]
      exact .inl rfl
  owned := smallTable_rendered.2.2.2.1

def smallMerge : Merge asciiWord where
  site := ⟨.absent, [], none⟩
  explicit := "external".toList
  source := smallTemplate
  rendering := smallRendering
  rendered := smallTable_rendered.2.2.2.2

/-- A rule of others. -/
def otherRule : Line := "add rule inet filter input accept".toList

theorem holds_otherRule : Holds asciiWord [otherRule] otherRule :=
  ⟨[.line otherRule ⟨Text.forall_of_all (by decide +kernel), by decide +kernel, by decide +kernel, by decide +kernel,
    by decide +kernel, by decide +kernel⟩ (by decide +kernel)],
    ⟨Text.forall_of_all (by decide +kernel), by decide +kernel⟩, by decide +kernel⟩

theorem smallMerge_accepted : ∃ u, (Op.merge smallMerge).run otherRule = .ok u :=
  (merge_accepted_iff smallMerge holds_otherRule).mpr ⟨by decide +kernel, by decide +kernel⟩

theorem dropWhile_back (items : List (Item word)) : (back items).dropWhile Item.isBlank = back items :=
  List.dropWhile_idempotent _ _

/-- What another merge would write does not depend on the merge before it. -/
theorem textOf_woven_settled (r r' : Rendering word) (items : List (Item word)) :
    textOf (woven r.items (settled (woven r'.items items))) = textOf (woven r.items items) := by
  by_cases hlast : (linesOf (woven r'.items items)).getLast? = some []
  · have hsettled : settled (woven r'.items items) = woven r'.items items ++ [] := by
      rw [settled, if_pos hlast, List.append_nil]
    have hback := back_woven r' items [] (fun item hitem => by cases hitem)
    rw [List.append_nil (back items), dropWhile_back] at hback
    rw [hsettled, textOf, textOf, linesOf_woven, linesOf_woven, front_woven, hback]
  · have hsettled : settled (woven r'.items items) = woven r'.items items ++ [.empty word] := if_neg hlast
    have hmore : ∀ item ∈ [Item.empty word], item.isOurs = false := fun item hitem => by
      rw [List.mem_singleton.mp hitem]
      rfl
    have hback := back_woven r' items [.empty word] hmore
    rw [hsettled, textOf, textOf, linesOf_woven, linesOf_woven, front_woven, hback]
    by_cases hnil : back items = []
    · rw [hnil]
      rfl
    · -- the last line is that of the back, and it is not closed in `items`
      have hdrop : (back items ++ [Item.empty word]).dropWhile Item.isBlank = back items ++ [Item.empty word] := by
        obtain ⟨first, rest, hcons⟩ := List.exists_cons_of_ne_nil hnil
        have hfirst := dropWhile_back items
        rw [hcons, List.dropWhile_cons] at hfirst
        rw [hcons, List.cons_append, List.dropWhile_cons]
        split at hfirst
        · have hlength := congrArg List.length hfirst
          have hle := (List.dropWhile_suffix Item.isBlank (l := rest)).length_le
          rw [List.length_cons] at hlength
          omega
        next hblank => rw [if_neg hblank]
      have hlines : linesOf (back items) ≠ [] := fun h => hnil (linesOf_eq_nil.mp h)
      have hopen (r : Rendering word) : (linesOf (woven r.items items)).getLast? = (linesOf (back items)).getLast? := by
        rw [linesOf_woven, weave, List.getLast?_append_of_ne_nil _ hlines]
      rw [hopen] at hlast
      rw [hdrop, linesOf_append, ← linesOf_woven r.items items]
      have hwoven : weave (linesOf r.items) (linesOf (front items)) (linesOf (back items) ++ linesOf [Item.empty word]) =
          linesOf (woven r.items items) ++ [[]] := by
        rw [linesOf_woven, weave, weave, if_neg hlines, if_neg (List.append_ne_nil_of_left_ne_nil hlines _)]
        simp [Item.empty, Item.lines]
      have hne : linesOf (woven r.items items) ≠ [] := fun h => by
        rw [linesOf_woven, weave] at h
        exact hlines (List.append_eq_nil_iff.mp h).2
      rw [hwoven, written_closed hne, written_open (fun row hrow => flat_linesOf hrow) hne]
      rwa [hopen]

end ProxyGateway.Firewall
