import ProxyGateway.Firewall.Patterns

set_option autoImplicit false

/-!
# ProxyGateway.Firewall.Layout

A configuration as a sequence of what stands in it: lines of their own, tables of others, and what belongs
to the table of the gateway. On a layout the scanner of blocks and the removal loop, which read it line by
line, each with a depth of its own, see the same things (`blocksFrom_layout`, `removeFrom_layout`).
-/

namespace ProxyGateway.Firewall

open Text Pattern

/-! ### Layouts -/

/-- No character but the line feed ends a line of the text. -/
def Flat (line : Line) : Prop := ∀ c ∈ line, isLineBreak c = false

/-- From the depth `d` on the braces come out even at the last of the lines, and not before. -/
def evens (d : Int) : List Line → Bool
  | [] => false
  | line :: lines => if d + net line ≤ 0 then d + net line = 0 && lines.isEmpty else evens (d + net line) lines

/-- A line that nothing of the gateway's is in. -/
structure Untouched (word : Char → Bool) (line : Line) : Prop where
  flat : Flat line
  mark : isMark word line = false
  closed : fits word opening line = false
  whole : fits word torn line = false
  banner : ¬banner <:+: line
  oldBanner : ¬oldBanner <:+: line

/-- What stands in a configuration. -/
inductive Item (word : Char → Bool) where
  | line (row : Line) (h : Untouched word row) (hname : tableName word (stripNoise row) = none)
  | table (name : List Char) (head : Line) (body : List Line) (hname : tableName word (stripNoise head) = some name)
      (h : ∀ line ∈ head :: body, Untouched word line) (heven : evens 0 (head :: body) = true)
  | mark (row : Line) (h : isMark word row = true) (hflat : Flat row)
  | ours (head : Line) (body : List Line) (hmark : isMark word head = false)
      (hname : tableName word (stripNoise head) = some ours) (heven : evens 0 (head :: body) = true)
      (hflat : ∀ line ∈ head :: body, Flat line)

variable {word : Char → Bool}

def Item.lines : Item word → List Line
  | .line row _ _ | .mark row _ _ => [row]
  | .table _ head body _ _ _ | .ours head body _ _ _ _ => head :: body

/-- Does it belong to the gateway? -/
def Item.isOurs : Item word → Bool
  | .line _ _ _ | .table _ _ _ _ _ _ => false
  | .mark _ _ _ | .ours _ _ _ _ _ _ => true

/-- The blocks that the scanner finds in it. -/
def Item.blocks : Item word → List Block
  | .line _ _ _ | .mark _ _ _ => []
  | .table name head body _ _ _ => [⟨name, head :: body, 0, true⟩]
  | .ours head body _ _ _ _ => [⟨Firewall.ours, head :: body, 0, true⟩]

/-- The lines of a layout. -/
def linesOf (items : List (Item word)) : List Line := items.flatMap Item.lines

/-- What belongs to others. -/
def others (items : List (Item word)) : List (Item word) := items.filter (fun item => !item.isOurs)

@[simp] theorem linesOf_nil : linesOf ([] : List (Item word)) = [] := rfl

@[simp] theorem linesOf_cons (item : Item word) (items : List (Item word)) :
    linesOf (item :: items) = item.lines ++ linesOf items := List.flatMap_cons

@[simp] theorem linesOf_append (items more : List (Item word)) : linesOf (items ++ more) = linesOf items ++ linesOf more :=
  List.flatMap_append

theorem Item.flat (item : Item word) : ∀ line ∈ item.lines, Flat line := by
  intro line hline
  cases item with
  | line row h hname => rw [List.mem_singleton.mp hline]; exact h.flat
  | table name head body hname h heven => exact (h line hline).flat
  | mark row h hflat => rw [List.mem_singleton.mp hline]; exact hflat
  | ours head body hmark hname heven hflat => exact hflat line hline

theorem flat_linesOf {items : List (Item word)} {line : Line} (h : line ∈ linesOf items) : Flat line := by
  obtain ⟨item, -, hline⟩ := List.mem_flatMap.mp h
  exact item.flat line hline

theorem Item.untouched {item : Item word} (hours : item.isOurs = false) : ∀ line ∈ item.lines, Untouched word line := by
  intro line hline
  cases item with
  | line row h hname => rw [List.mem_singleton.mp hline]; exact h
  | table name head body hname h heven => exact h line hline
  | mark row h hflat => cases hours
  | ours head body hmark hname heven hflat => cases hours

/-! ### The scanner on a layout -/

variable {name : List Char} {line head : Line} {lines body rest : List Line} {items : List (Item word)}

theorem blocksFrom_feed (opens : Line → Option (List Char)) (b : Block) (line : Line) (rest : List Line) :
    blocksFrom opens (some b) (line :: rest) =
      if (b.feed line).closed then
        if (b.feed line).depth = 0 then b.feed line :: blocksFrom opens none rest
        else [{ b.feed line with lines := (b.feed line).lines ++ rest }]
      else blocksFrom opens (some (b.feed line)) rest := by
  rw [blocksFrom]
  rfl

/-- A declaration that is being read ends where its braces come out even. -/
theorem blocksFrom_evens {opens : Line → Option (List Char)} {b : Block} (hopened : b.opened = true)
    (h : evens b.depth body = true) (rest : List Line) :
    blocksFrom opens (some b) (body ++ rest) = ⟨b.name, b.lines ++ body, 0, true⟩ :: blocksFrom opens none rest := by
  induction body generalizing b with
  | nil => cases h
  | cons line body ih =>
      have hfed : b.feed line = ⟨b.name, b.lines ++ [line], b.depth + net line, true⟩ := by
        rw [Block.feed, hopened, Bool.true_or]
      rw [evens] at h
      rw [List.cons_append, blocksFrom_feed, hfed]
      simp only [Block.closed, Bool.true_and, decide_eq_true_eq]
      by_cases hend : b.depth + net line ≤ 0
      · rw [if_pos hend, Bool.and_eq_true, decide_eq_true_eq, List.isEmpty_iff] at h
        obtain ⟨hzero, rfl⟩ := h
        rw [if_pos hend, if_pos hzero, hzero, List.nil_append]
      · rw [if_neg hend] at h
        rw [if_neg hend, ih rfl h, List.append_assoc, List.singleton_append]

/-- One declaration, from its first line. -/
theorem blocksFrom_block {opens : Line → Option (List Char)} (hname : opens (stripNoise head) = some name)
    (hbrace : '{' ∈ stripNoise head) (h : evens 0 (head :: body) = true) (rest : List Line) :
    blocksFrom opens none (head :: body ++ rest) = ⟨name, head :: body, 0, true⟩ :: blocksFrom opens none rest := by
  have hstart : blocksFrom opens none (head :: (body ++ rest)) =
      blocksFrom opens (some (Block.start name)) (head :: (body ++ rest)) := by
    rw [blocksFrom_feed, blocksFrom, hname]
    rfl
  have hfed : (Block.start name).feed head = ⟨name, [head], net head, true⟩ := by
    rw [Block.feed, List.contains_iff_mem.mpr hbrace, Bool.or_true, Block.start, List.nil_append, Int.zero_add]
  rw [evens, Int.zero_add] at h
  rw [List.cons_append, hstart, blocksFrom_feed, hfed]
  simp only [Block.closed, Bool.true_and, decide_eq_true_eq]
  by_cases hend : net head ≤ 0
  · rw [if_pos hend, Bool.and_eq_true, decide_eq_true_eq, List.isEmpty_iff] at h
    obtain ⟨hzero, rfl⟩ := h
    rw [if_pos hend, if_pos hzero, hzero, List.nil_append]
  · rw [if_neg hend] at h
    rw [if_neg hend, blocksFrom_evens rfl h, List.singleton_append]

theorem blocksFrom_skip {opens : Line → Option (List Char)} (hname : opens (stripNoise line) = none) (rest : List Line) :
    blocksFrom opens none (line :: rest) = blocksFrom opens none rest := by
  rw [blocksFrom, hname]
  rfl

/-- The scanner finds the tables of a layout, one after the other. -/
theorem blocksFrom_layout (items : List (Item word)) (rest : List Line) :
    blocksFrom (tableName word) none (linesOf items ++ rest) =
      items.flatMap Item.blocks ++ blocksFrom (tableName word) none rest := by
  induction items with
  | nil => rfl
  | cons item items ih =>
      rw [linesOf_cons, List.flatMap_cons, List.append_assoc, List.append_assoc, ← ih]
      cases item with
      | line row h hname => exact blocksFrom_skip hname _
      | table name head body hname h heven => exact blocksFrom_block hname (mem_of_tableName hname) heven _
      | mark row h hflat => exact blocksFrom_skip (tableName_of_isMark h) _
      | ours head body hmark hname heven hflat => exact blocksFrom_block hname (mem_of_tableName hname) heven _

/-- None of the tables of others is taken for the gateway's. -/
theorem blocks_of_other {item : Item word} (hours : item.isOurs = false) : item.blocks.filter (·.name = ours) = [] := by
  cases item with
  | line row h hname => rfl
  | table name head body hname huntouched heven =>
      have hne : name ≠ ours := by
        rintro rfl
        have hclosed := (huntouched head List.mem_cons_self).closed
        rw [opening_of_tableName hname] at hclosed
        cases hclosed
      exact List.filter_eq_nil_iff.mpr fun b hb => by simpa [List.mem_singleton.mp hb] using hne
  | mark row h hflat => cases hours
  | ours head body hmark hname heven hflat => cases hours

theorem blocks_others (items : List (Item word)) :
    (items.flatMap Item.blocks).filter (·.name = ours) =
      ((items.filter Item.isOurs).flatMap Item.blocks).filter (·.name = ours) := by
  induction items with
  | nil => rfl
  | cons item items ih =>
      rw [List.flatMap_cons, List.filter_append, ih, List.filter_cons]
      cases hours : item.isOurs with
      | false => rw [blocks_of_other hours, if_neg Bool.false_ne_true, List.nil_append]
      | true => rw [if_pos rfl, List.flatMap_cons, List.filter_append]

/-! ### The removal on a layout -/

/-- What the removal has kept and hit after an item. -/
def Kept.past (k : Kept) (item : Item word) : Kept :=
  if item.isOurs then k.hit else { k with keep := k.keep ++ item.lines }

theorem removeFrom_evens {k : Kept} {i start : Nat} {d : Int} (h : evens d body = true) (rest : List Line) :
    removeFrom word k i (some (start, d)) (body ++ rest) = removeFrom word k (i + body.length) none rest := by
  induction body generalizing i d with
  | nil => cases h
  | cons line body ih =>
      rw [evens] at h
      rw [List.cons_append, removeFrom]
      by_cases hend : d + net line ≤ 0
      · rw [if_pos hend, Bool.and_eq_true, decide_eq_true_eq, List.isEmpty_iff] at h
        obtain ⟨hzero, rfl⟩ := h
        rw [if_pos hend, if_pos hzero]
        rfl
      · rw [if_neg hend] at h
        rw [if_neg hend, ih h, List.length_cons, Nat.add_assoc, Nat.add_comm 1]

theorem removeFrom_ours {k : Kept} {i : Nat} (hmark : isMark word head = false) (hopening : fits word opening head = true)
    (h : evens 0 (head :: body) = true) (rest : List Line) :
    removeFrom word k i none (head :: body ++ rest) = removeFrom word k.hit (i + (head :: body).length) none rest := by
  rw [evens, Int.zero_add] at h
  rw [List.cons_append, removeFrom, if_neg (by simp [hmark]), if_pos hopening]
  by_cases hend : net head ≤ 0
  · rw [if_pos hend, Bool.and_eq_true, decide_eq_true_eq, List.isEmpty_iff] at h
    obtain ⟨hzero, rfl⟩ := h
    rw [if_pos hend, if_pos hzero]
    rfl
  · rw [if_neg hend] at h
    rw [if_neg hend, removeFrom_evens h, List.length_cons, Nat.add_assoc, Nat.add_comm 1]

theorem removeFrom_untouched {k : Kept} {i : Nat} (h : ∀ line ∈ lines, Untouched word line) (rest : List Line) :
    removeFrom word k i none (lines ++ rest) =
      removeFrom word { k with keep := k.keep ++ lines } (i + lines.length) none rest := by
  induction lines generalizing k i with
  | nil => simp
  | cons line lines ih =>
      obtain ⟨hline, hlines⟩ := List.forall_mem_cons.mp h
      rw [List.cons_append, removeFrom, if_neg (by simp [hline.mark]), if_neg (by simp [hline.closed]), ih hlines]
      simp only [List.append_assoc, List.singleton_append, List.length_cons, Nat.add_assoc, Nat.add_comm 1]

/-- The removal goes through a layout item by item. -/
theorem removeFrom_layout {k : Kept} {i : Nat} (items : List (Item word)) (rest : List Line) :
    removeFrom word k i none (linesOf items ++ rest) =
      removeFrom word (items.foldl Kept.past k) (i + (linesOf items).length) none rest := by
  induction items generalizing k i with
  | nil => rfl
  | cons item items ih =>
      have hitem : removeFrom word k i none (item.lines ++ (linesOf items ++ rest)) =
          removeFrom word (k.past item) (i + item.lines.length) none (linesOf items ++ rest) := by
        cases item with
        | line row h hname =>
            exact removeFrom_untouched (fun line hline => by rw [List.mem_singleton.mp hline]; exact h) _
        | table name head body hname h heven => exact removeFrom_untouched h _
        | mark row h hflat =>
            show removeFrom word k i none (row :: _) = _
            rw [removeFrom, if_pos h]
            rfl
        | ours head body hmark hname heven hflat => exact removeFrom_ours hmark (opening_of_tableName hname) heven _
      rw [linesOf_cons, List.append_assoc, hitem, ih, List.foldl_cons, List.length_append, Nat.add_assoc]

theorem past_keep (items : List (Item word)) (k : Kept) :
    (items.foldl Kept.past k).keep = k.keep ++ linesOf (others items) := by
  induction items generalizing k with
  | nil => exact (List.append_nil _).symm
  | cons item items ih =>
      have hothers : others (item :: items) = if item.isOurs then others items else item :: others items := by
        rw [others, List.filter_cons]
        cases item.isOurs <;> rfl
      rw [List.foldl_cons, ih, hothers, Kept.past]
      split
      · rfl
      · rw [linesOf_cons, List.append_assoc]

theorem past_hit {k : Kept} (h : k.firstHit.isSome = true) (items : List (Item word)) :
    (items.foldl Kept.past k).firstHit = k.firstHit := by
  induction items generalizing k with
  | nil => rfl
  | cons item items ih =>
      have hpast : (k.past item).firstHit = k.firstHit := by
        rw [Kept.past]
        split
        · obtain ⟨n, hn⟩ := Option.isSome_iff_exists.mp h
          rw [Kept.hit, hn]
          rfl
        · rfl
      rw [List.foldl_cons, ih (by rw [hpast]; exact h), hpast]

/-- The first hit is behind the lines in front of the first item of the gateway. -/
theorem past_firstHit (items : List (Item word)) (kept : List Line) :
    (items.foldl Kept.past ⟨kept, none⟩).firstHit =
      if items.any Item.isOurs then some (kept.length + (linesOf (items.takeWhile (fun item => !item.isOurs))).length)
      else none := by
  induction items generalizing kept with
  | nil => rfl
  | cons item items ih =>
      rw [List.foldl_cons, Kept.past, List.any_cons, List.takeWhile_cons]
      cases hours : item.isOurs with
      | true =>
          rw [if_pos rfl, past_hit rfl]
          rfl
      | false =>
          rw [if_neg Bool.false_ne_true, ih, Bool.false_or]
          simp only [Bool.not_false, if_true, linesOf_cons, List.length_append, Nat.add_assoc]

end ProxyGateway.Firewall
