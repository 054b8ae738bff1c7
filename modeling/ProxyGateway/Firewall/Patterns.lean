import ProxyGateway.Firewall.Merge

set_option autoImplicit false

/-!
# ProxyGateway.Firewall.Patterns

What the patterns of the scanner and of the merge find in a line. The two look for the table `inet pdg` in
different ways, the merge in the line as it is and the scanner in what is left without comments and strings;
what the scanner takes for that table, the merge does too (`opening_of_tableName`).
-/

namespace ProxyGateway.Firewall

open Text Pattern

variable {word : Char → Bool} {line : Line}

/-! ### Lines without their noise -/

theorem mem_hideQuoted {c : Char} {inside : Bool} (h : c ∈ hideQuoted inside line) : c ∈ line := by
  induction line generalizing inside with
  | nil => cases inside <;> cases h
  | cons x line ih =>
      cases inside with
      | true => exact List.mem_cons_of_mem _ (ih h)
      | false =>
          rw [hideQuoted] at h
          split at h
          next hquote =>
            rcases List.mem_cons.mp h with rfl | h
            · exact hquote.1 ▸ List.mem_cons_self
            · rcases List.mem_cons.mp h with rfl | h
              · exact hquote.1 ▸ List.mem_cons_self
              · exact List.mem_cons_of_mem _ (ih h)
          · rcases List.mem_cons.mp h with rfl | h
            · exact List.mem_cons_self
            · exact List.mem_cons_of_mem _ (ih h)

theorem mem_stripNoise {c : Char} (h : c ∈ stripNoise line) : c ∈ line :=
  mem_hideQuoted ((List.takeWhile_prefix _).subset h)

/-- What is read without quotes in front stands there. -/
theorem exists_of_stripNoise {front rest : Line} (hquote : '"' ∉ front) (h : stripNoise line = front ++ rest) :
    ∃ rest', line = front ++ rest' := by
  induction front generalizing line with
  | nil => exact ⟨line, rfl⟩
  | cons c front ih =>
      rw [List.mem_cons, not_or] at hquote
      cases line with
      | nil => cases h
      | cons x line =>
          rw [stripNoise, hideQuoted] at h
          split at h
          next hx =>
            -- a quoted string would begin the clean line with its quote
            rw [List.takeWhile_cons] at h
            split at h
            · exact (hquote.1 (List.cons.inj h).1).elim
            · cases h
          next =>
            rw [List.takeWhile_cons] at h
            split at h
            · obtain ⟨rfl, hrest⟩ := List.cons.inj h
              obtain ⟨rest', rfl⟩ := ih hquote.2 hrest
              exact ⟨rest', rfl⟩
            · cases h

/-! ### What the patterns find -/

theorem fits_iff {a : Pattern} : fits word a line = true ↔ ∃ t, t ∈ runs word a (.start line) := matchStart_isSome

/-- Blanks. -/
def Blanks (cs : List Char) : Prop := ∀ c ∈ cs, isSpace c = true

theorem mem_runs_blank {s t : Spot} : t ∈ runs word blank s ↔
    ∃ xs ys, s.rest = xs ++ ys ∧ Blanks xs ∧ t = ⟨xs.reverse ++ s.before, ys, s.groups⟩ := by
  rw [blank, mem_runs_many]
  simp [Blanks]

theorem mem_runs_blanks {s t : Spot} : t ∈ runs word blanks s ↔
    ∃ xs ys, s.rest = xs ++ ys ∧ Blanks xs ∧ xs ≠ [] ∧ t = ⟨xs.reverse ++ s.before, ys, s.groups⟩ := by
  rw [blanks, mem_runs_many]
  simp [Blanks, Nat.one_le_iff_ne_zero]

/-- No blanks. -/
def Solid (cs : List Char) : Prop := ∀ c ∈ cs, isSpace c = false

theorem mem_runs_solid {s t : Spot} : t ∈ runs word (.group solid) s ↔
    ∃ xs ys, s.rest = xs ++ ys ∧ Solid xs ∧ xs ≠ [] ∧ t = ⟨xs.reverse ++ s.before, ys, s.groups ++ [xs]⟩ := by
  rw [mem_runs_group]
  simp only [solid, mem_runs_many]
  constructor
  · rintro ⟨u, ⟨xs, ys, hrest, hsolid, hne, rfl⟩, rfl⟩
    refine ⟨xs, ys, hrest, by simpa [Solid] using hsolid, List.length_pos_iff.mp hne, ?_⟩
    simp [hrest]
  · rintro ⟨xs, ys, hrest, hsolid, hne, rfl⟩
    refine ⟨_, ⟨xs, ys, hrest, by simpa [Solid] using hsolid, List.length_pos_iff.mpr hne, rfl⟩, ?_⟩
    simp [hrest]

theorem mem_runs_lit {w : String} {s t : Spot} : t ∈ runs word (lit w) s ↔
    ∃ ys, s.rest = w.toList ++ ys ∧ t = ⟨w.toList.reverse ++ s.before, ys, s.groups⟩ := mem_runs_text

/-- `table inet pdg`, behind the blanks `w₁` and with `w₂` and `w₃` between the words. -/
def declared (w₁ w₂ w₃ : List Char) : List Char :=
  w₁ ++ ("table".toList ++ (w₂ ++ ("inet".toList ++ (w₃ ++ "pdg".toList))))

structure Spaced (w₁ w₂ w₃ : List Char) : Prop where
  first : Blanks w₁
  second : Blanks w₂ ∧ w₂ ≠ []
  third : Blanks w₃ ∧ w₃ ≠ []

theorem mem_runs_pdgTable {rest : List Pattern} {before : List Char} {t : Spot} :
    t ∈ runs word (pdgTable rest) ⟨before, line, []⟩ ↔ ∃ w₁ w₂ w₃ ys, Spaced w₁ w₂ w₃ ∧
      line = declared w₁ w₂ w₃ ++ ys ∧ t ∈ runs word (all rest) ⟨(declared w₁ w₂ w₃).reverse ++ before, ys, []⟩ := by
  simp only [pdgTable, all, List.cons_append, List.nil_append, mem_runs_seq, mem_runs_blank, mem_runs_blanks, mem_runs_lit]
  constructor
  · rintro ⟨_, ⟨w₁, x₁, h₁, hw₁, rfl⟩, _, ⟨x₂, h₂, rfl⟩, _, ⟨w₂, x₃, h₃, hw₂, hne₂, rfl⟩, _, ⟨x₄, h₄, rfl⟩, _,
      ⟨w₃, x₅, h₅, hw₃, hne₃, rfl⟩, _, ⟨x₆, h₆, rfl⟩, ht⟩
    refine ⟨w₁, w₂, w₃, x₆, ⟨hw₁, ⟨hw₂, hne₂⟩, hw₃, hne₃⟩, ?_, ?_⟩
    · simp_all [declared]
    · simpa [declared] using ht
  · rintro ⟨w₁, w₂, w₃, ys, hspaced, rfl, ht⟩
    refine ⟨_, ⟨w₁, _, ?_, hspaced.first, rfl⟩, _, ⟨_, rfl, rfl⟩, _, ⟨w₂, _, rfl, hspaced.second.1, hspaced.second.2, rfl⟩,
      _, ⟨_, rfl, rfl⟩, _, ⟨w₃, _, rfl, hspaced.third.1, hspaced.third.2, rfl⟩, _, ⟨ys, rfl, rfl⟩, ?_⟩
    · simp [declared]
    · simpa [declared] using ht

theorem fits_opening : fits word opening line = true ↔
    ∃ w₁ w₂ w₃ w₄ ys, Spaced w₁ w₂ w₃ ∧ Blanks w₄ ∧ line = declared w₁ w₂ w₃ ++ (w₄ ++ '{' :: ys) := by
  rw [fits_iff, opening]
  simp only [Spot.start, mem_runs_pdgTable, all, mem_runs_seq, mem_runs_blank, mem_runs_text, mem_runs_empty]
  constructor
  · rintro ⟨t, w₁, w₂, w₃, ys, hspaced, hline, _, ⟨w₄, zs, hys, hw₄, rfl⟩, _, ⟨rest, hrest, rfl⟩, rfl⟩
    exact ⟨w₁, w₂, w₃, w₄, rest, hspaced, hw₄, by simp_all⟩
  · rintro ⟨w₁, w₂, w₃, w₄, ys, hspaced, hw₄, hline⟩
    exact ⟨_, w₁, w₂, w₃, _, hspaced, hline, _, ⟨w₄, _, rfl, hw₄, rfl⟩, _, ⟨ys, rfl, rfl⟩, rfl⟩

theorem fits_decl : fits word decl line = true ↔
    ∃ w₁ w₂ w₃ ys, Spaced w₁ w₂ w₃ ∧ Blanks ys ∧ line = declared w₁ w₂ w₃ ++ ys := by
  rw [fits_iff, decl]
  simp only [Spot.start, mem_runs_pdgTable, all, mem_runs_seq, mem_runs_blank, mem_runs_empty]
  constructor
  · rintro ⟨t, w₁, w₂, w₃, ys, hspaced, hline, _, ⟨w₄, zs, hys, hw₄, rfl⟩, _, hstop, rfl⟩
    refine ⟨w₁, w₂, w₃, ys, hspaced, ?_, hline⟩
    rw [runs] at hstop
    split at hstop
    next hrest =>
      rcases hrest with rfl | rfl
      · rwa [hys, List.append_nil]
      · rw [hys]
        intro c hc
        rcases List.mem_append.mp hc with hc | hc
        · exact hw₄ c hc
        · rw [List.mem_singleton.mp hc]
          decide
    · cases hstop
  · rintro ⟨w₁, w₂, w₃, ys, hspaced, hys, hline⟩
    let last : Spot := ⟨ys.reverse ++ ((declared w₁ w₂ w₃).reverse ++ []), [], []⟩
    have hstop : last ∈ runs word .stop last := mem_runs_stop rfl
    exact ⟨_, w₁, w₂, w₃, ys, hspaced, hline, _, ⟨ys, [], (List.append_nil ys).symm, hys, rfl⟩, _, hstop, rfl⟩

theorem not_mem_of_blanks {c : Char} {cs : List Char} (hc : isSpace c = false) (h : Blanks cs) : c ∉ cs := by
  intro hmem
  rw [h c hmem] at hc
  cases hc

theorem fits_deletion (h : fits word deletion line = true) : '{' ∉ line := by
  rw [fits_iff, deletion] at h
  simp only [Spot.start, all, mem_runs_seq, mem_runs_blank, mem_runs_blanks, mem_runs_lit, mem_runs_empty] at h
  obtain ⟨t, _, ⟨w₁, x₁, rfl, hw₁, rfl⟩, _, ⟨x₂, rfl, rfl⟩, _, ⟨w₂, x₃, rfl, hw₂, -, rfl⟩, _, ⟨x₄, rfl, rfl⟩, _,
    ⟨w₃, x₅, rfl, hw₃, -, rfl⟩, _, ⟨x₆, rfl, rfl⟩, _, ⟨w₄, x₇, rfl, hw₄, -, rfl⟩, _, ⟨x₈, rfl, rfl⟩, _,
    ⟨w₅, x₉, rfl, hw₅, rfl⟩, _, hstop, rfl⟩ := h
  have hend : '{' ∉ x₉ := by
    rw [runs] at hstop
    split at hstop
    next hrest => rcases hrest with rfl | rfl <;> decide
    · cases hstop
  have hbrace {ws : List Char} (hws : Blanks ws) : '{' ∉ ws := not_mem_of_blanks (by decide) hws
  simp [hbrace hw₁, hbrace hw₂, hbrace hw₃, hbrace hw₄, hbrace hw₅, hend]

/-- Only blanks are stripped off. -/
theorem mem_strip {c : Char} {cs : List Char} (hc : isSpace c = false) (h : c ∈ cs) : c ∈ strip cs := by
  have hdrop {p : Char → Bool} {xs : List Char} (hp : p c = false) (hmem : c ∈ xs) : c ∈ xs.dropWhile p := by
    rw [← List.takeWhile_append_dropWhile (p := p) (l := xs), List.mem_append] at hmem
    rcases hmem with hmem | hmem
    · rw [List.mem_takeWhile_imp hmem] at hp
      cases hp
    · exact hmem
  rw [strip, stripBy, List.mem_reverse]
  exact hdrop hc (List.mem_reverse.mpr (hdrop hc h))

/-- What belongs to the gateway on a line of its own opens nothing. -/
theorem not_mem_of_isMark (h : isMark word line = true) : '{' ∉ line := by
  have hstrip {banner : Line} (hbrace : '{' ∉ banner) (heq : strip line = banner) : '{' ∉ line := by
    intro hmem
    exact hbrace (heq ▸ mem_strip (by decide) hmem)
  simp only [isMark, Bool.or_eq_true, decide_eq_true_eq] at h
  obtain ((h | h) | h) | h := h
  · exact hstrip (by decide) h
  · exact hstrip (by decide) h
  · obtain ⟨w₁, w₂, w₃, ys, hspaced, hys, rfl⟩ := fits_decl.mp h
    have hbrace {ws : List Char} (hws : Blanks ws) : '{' ∉ ws := not_mem_of_blanks (by decide) hws
    simp [declared, hbrace hspaced.first, hbrace hspaced.second.1, hbrace hspaced.third.1, hbrace hys]
  · exact fits_deletion h

/-- A line that opens a table. -/
structure Opens (clean : Line) (w₁ w₂ g₁ w₃ g₂ w₄ ys : List Char) : Prop where
  first : Blanks w₁
  second : Blanks w₂ ∧ w₂ ≠ []
  family : Solid g₁ ∧ g₁ ≠ []
  third : Blanks w₃ ∧ w₃ ≠ []
  name : Solid g₂ ∧ g₂ ≠ []
  fourth : Blanks w₄
  line : clean = w₁ ++ ("table".toList ++ (w₂ ++ (g₁ ++ (w₃ ++ (g₂ ++ (w₄ ++ '{' :: ys))))))

theorem mem_runs_tableOpening {t : Spot} : t ∈ runs word tableOpening (.start line) ↔
    ∃ w₁ w₂ family w₃ name w₄ ys, Opens line w₁ w₂ family w₃ name w₄ ys ∧ t.groups = [family, name] ∧
      t = ⟨(w₁ ++ ("table".toList ++ (w₂ ++ (family ++ (w₃ ++ (name ++ (w₄ ++ ['{']))))))).reverse, ys, [family, name]⟩ := by
  simp only [tableOpening, Spot.start, all, mem_runs_seq, mem_runs_blank, mem_runs_blanks, mem_runs_lit, mem_runs_solid,
    mem_runs_text, mem_runs_empty]
  constructor
  · rintro ⟨_, ⟨w₁, x₁, rfl, hw₁, rfl⟩, _, ⟨x₂, rfl, rfl⟩, _, ⟨w₂, x₃, rfl, hw₂, hne₂, rfl⟩, _, ⟨g₁, x₄, rfl, hg₁, hneg₁, rfl⟩,
      _, ⟨w₃, x₅, rfl, hw₃, hne₃, rfl⟩, _, ⟨g₂, x₆, rfl, hg₂, hneg₂, rfl⟩, _, ⟨w₄, x₇, rfl, hw₄, rfl⟩, _, ⟨x₈, rfl, rfl⟩, rfl⟩
    exact ⟨w₁, w₂, g₁, w₃, g₂, w₄, x₈, ⟨hw₁, ⟨hw₂, hne₂⟩, ⟨hg₁, hneg₁⟩, ⟨hw₃, hne₃⟩, ⟨hg₂, hneg₂⟩, hw₄, rfl⟩, rfl, by simp⟩
  · rintro ⟨w₁, w₂, g₁, w₃, g₂, w₄, ys, h, -, rfl⟩
    refine ⟨_, ⟨w₁, _, h.line, h.first, rfl⟩, _, ⟨_, rfl, rfl⟩, _, ⟨w₂, _, rfl, h.second.1, h.second.2, rfl⟩,
      _, ⟨g₁, _, rfl, h.family.1, h.family.2, rfl⟩, _, ⟨w₃, _, rfl, h.third.1, h.third.2, rfl⟩,
      _, ⟨g₂, _, rfl, h.name.1, h.name.2, rfl⟩, _, ⟨w₄, _, rfl, h.fourth, rfl⟩, _, ⟨ys, rfl, rfl⟩, ?_⟩
    simp

theorem tableName_eq_some {name : List Char} (h : tableName word line = some name) :
    ∃ w₁ w₂ family w₃ table w₄ ys, Opens line w₁ w₂ family w₃ table w₄ ys ∧ name = family ++ ' ' :: table := by
  rw [tableName, Option.map_eq_some_iff] at h
  obtain ⟨t, ht, rfl⟩ := h
  obtain ⟨w₁, w₂, family, w₃, table, w₄, ys, hopens, hgroups, -⟩ := mem_runs_tableOpening.mp (mem_of_matchStart ht)
  exact ⟨w₁, w₂, family, w₃, table, w₄, ys, hopens, by rw [hgroups]; rfl⟩

theorem mem_of_tableName {name : List Char} (h : tableName word line = some name) : '{' ∈ line := by
  obtain ⟨w₁, w₂, family, w₃, table, w₄, ys, hopens, -⟩ := tableName_eq_some h
  rw [hopens.line]
  simp

theorem tableName_of_isMark (h : isMark word line = true) : tableName word (stripNoise line) = none := by
  cases hname : tableName word (stripNoise line) with
  | none => rfl
  | some name => exact (not_mem_of_isMark h (mem_stripNoise (mem_of_tableName hname))).elim

/-- A table that the scanner takes for the gateway's begins as the gateway's does. -/
theorem opening_of_tableName (h : tableName word (stripNoise line) = some ours) : fits word opening line = true := by
  obtain ⟨w₁, w₂, family, w₃, table, w₄, ys, hopens, hname⟩ := tableName_eq_some h
  have hfamily : family = "inet".toList ∧ table = "pdg".toList := by
    have hspace : ' ' ∉ family := fun hmem => by
      have hnot := hopens.family.1 ' ' hmem
      revert hnot
      decide
    have hsplit : splitAt ' ' (family ++ ' ' :: table) = family :: splitAt ' ' table := splitAt_append hspace table
    have htable : ' ' ∉ table := fun hmem => by
      have hnot := hopens.name.1 ' ' hmem
      revert hnot
      decide
    rw [← hname, splitAt_of_not_mem htable] at hsplit
    have hours : splitAt ' ' ours = ["inet".toList, "pdg".toList] := by decide
    rw [hours] at hsplit
    exact ⟨(List.cons.inj hsplit).1.symm, (List.cons.inj (List.cons.inj hsplit).2).1.symm⟩
  obtain ⟨rfl, rfl⟩ := hfamily
  have hquote : '"' ∉ declared w₁ w₂ w₃ ++ (w₄ ++ ['{']) := by
    have hblanks {ws : List Char} (hws : Blanks ws) : '"' ∉ ws := not_mem_of_blanks (by decide) hws
    simp [declared, hblanks hopens.first, hblanks hopens.second.1, hblanks hopens.third.1, hblanks hopens.fourth]
  have hclean : stripNoise line = declared w₁ w₂ w₃ ++ (w₄ ++ ['{']) ++ ys := by
    rw [hopens.line]
    simp [declared]
  obtain ⟨rest, hline⟩ := exists_of_stripNoise hquote hclean
  refine fits_opening.mpr ⟨w₁, w₂, w₃, w₄, rest, ⟨hopens.first, hopens.second, hopens.third⟩, hopens.fourth, ?_⟩
  rw [hline]
  simp

/-! ### Declarations over several lines -/

/-- A declaration of the table that goes on in the next line. -/
def torn : Pattern := all [blank, lit "table", optional (.seq blanks (lit "inet")), blank, .stop]

theorem fits_torn {w₁ w₂ : List Char} (hw₁ : Blanks w₁) (hw₂ : Blanks w₂) :
    fits word torn (w₁ ++ ("table".toList ++ w₂)) = true := by
  rw [fits_iff, torn]
  simp only [Spot.start, all, mem_runs_optional, mem_runs_seq, mem_runs_blank, mem_runs_lit, mem_runs_empty]
  let last : Spot := ⟨w₂.reverse ++ ("table".toList.reverse ++ (w₁.reverse ++ [])), [], []⟩
  have hstop : last ∈ runs word .stop last := mem_runs_stop rfl
  exact ⟨_, _, ⟨w₁, _, rfl, hw₁, rfl⟩, _, ⟨_, rfl, rfl⟩, _, .inr rfl, _, ⟨w₂, [], (List.append_nil w₂).symm, hw₂, rfl⟩, _,
    hstop, rfl⟩

theorem fits_torn_inet {w₁ w₂ w₃ : List Char} (hw₁ : Blanks w₁) (hw₂ : Blanks w₂ ∧ w₂ ≠ []) (hw₃ : Blanks w₃) :
    fits word torn (w₁ ++ ("table".toList ++ (w₂ ++ ("inet".toList ++ w₃)))) = true := by
  rw [fits_iff, torn]
  simp only [Spot.start, all, mem_runs_optional, mem_runs_seq, mem_runs_blank, mem_runs_blanks, mem_runs_lit,
    mem_runs_empty]
  let last : Spot := ⟨w₃.reverse ++ ("inet".toList.reverse ++ (w₂.reverse ++ ("table".toList.reverse ++ (w₁.reverse ++ [])))),
    [], []⟩
  have hstop : last ∈ runs word .stop last := mem_runs_stop rfl
  exact ⟨_, _, ⟨w₁, _, rfl, hw₁, rfl⟩, _, ⟨_, rfl, rfl⟩, _, .inl ⟨_, ⟨w₂, _, rfl, hw₂.1, hw₂.2, rfl⟩, _, rfl, rfl⟩, _,
    ⟨w₃, [], (List.append_nil w₃).symm, hw₃, rfl⟩, _, hstop, rfl⟩

/-- The part of a text that is in its first line. -/
theorem takeWhile_feed (xs ys : List Char) : (xs ++ ys).takeWhile (· != '\n') =
    if '\n' ∈ xs then xs.takeWhile (· != '\n') else xs ++ ys.takeWhile (· != '\n') := by
  rw [List.takeWhile_append]
  by_cases hmem : '\n' ∈ xs
  · have hshort : (xs.takeWhile (· != '\n')).length ≠ xs.length := fun hlength => by
      have hall := (List.takeWhile_prefix (· != '\n') (l := xs)).eq_of_length hlength
      have hfeed := List.mem_takeWhile_imp (hall.symm ▸ hmem)
      revert hfeed
      decide
    rw [if_neg hshort, if_pos hmem]
  · have hself : xs.takeWhile (· != '\n') = xs := List.takeWhile_eq_self_iff.mpr fun c hc => by
      rw [bne_iff_ne]
      rintro rfl
      exact hmem hc
    rw [hself, if_pos rfl, if_neg hmem]

theorem blanks_takeWhile {ws : List Char} (h : Blanks ws) : Blanks (ws.takeWhile (· != '\n')) :=
  fun c hc => h c ((List.takeWhile_prefix _).subset hc)

/-- A declaration somewhere in a text, over however many lines, is found in the line it begins in. -/
theorem line_of_pdgDecl {cs : List Char} (h : found word pdgDecl cs = true) :
    ∃ line ∈ splitAt '\n' cs, fits word torn line = true ∨ fits word decl line = true ∨ fits word opening line = true := by
  obtain ⟨pre, post, rfl, t, ht⟩ := exists_of_search h
  obtain ⟨s, hs, ht⟩ : ∃ s ∈ runs word .lineStart ⟨pre.reverse, post, []⟩,
      t ∈ runs word (pdgTable [Pattern.optional (.seq blank (.text ['{'])), blank, .lineStop]) s := mem_runs_seq.mp ht
  have hstart : s = ⟨pre.reverse, post, []⟩ ∧ (pre = [] ∨ pre.getLast? = some '\n') := by
    rw [runs] at hs
    split at hs
    next hfeed =>
      refine ⟨List.mem_singleton.mp hs, ?_⟩
      rw [List.head?_reverse] at hfeed
      cases hlast : pre.getLast? with
      | none => exact .inl (List.getLast?_eq_none_iff.mp hlast)
      | some c =>
          rw [hlast] at hfeed
          exact .inr (congrArg some (of_decide_eq_true hfeed))
    · cases hs
  obtain ⟨rfl, hpre⟩ := hstart
  obtain ⟨w₁, w₂, w₃, ys, hspaced, rfl, htail⟩ := mem_runs_pdgTable.mp ht
  -- the line in which the word `table` stands
  obtain ⟨wa, wb, rfl, hwa, hwb⟩ : ∃ wa wb, w₁ = wa ++ wb ∧ (pre ++ wa = [] ∨ (pre ++ wa).getLast? = some '\n') ∧ '\n' ∉ wb := by
    by_cases hmem : '\n' ∈ w₁
    · obtain ⟨later, before, hsplit, hlater⟩ := List.eq_append_cons_of_mem (List.mem_reverse.mpr hmem)
      have hw₁ : w₁ = before.reverse ++ ['\n'] ++ later.reverse := by
        rw [← List.reverse_reverse w₁, hsplit]
        simp
      refine ⟨before.reverse ++ ['\n'], later.reverse, hw₁, .inr ?_, by simpa using hlater⟩
      rw [← List.append_assoc, List.getLast?_concat]
    · exact ⟨[], w₁, rfl, by rwa [List.append_nil], hmem⟩
  have hblank : Blanks wb := fun c hc => hspaced.first c (List.mem_append_right _ hc)
  have hword {w : String} (hw : '\n' ∉ w.toList) (xs : List Char) :
      (w.toList ++ xs).takeWhile (· != '\n') = w.toList ++ xs.takeWhile (· != '\n') := by rw [takeWhile_feed, if_neg hw]
  have hline : wb ++ ("table".toList ++ (w₂ ++ ("inet".toList ++ (w₃ ++ ("pdg".toList ++ ys))))).takeWhile (· != '\n') ∈
      splitAt '\n' (pre ++ (declared (wa ++ wb) w₂ w₃ ++ ys)) := by
    have hmem : (wb ++ ("table".toList ++ (w₂ ++ ("inet".toList ++ (w₃ ++ ("pdg".toList ++ ys)))))).takeWhile (· != '\n') ∈
        splitAt '\n' (pre ++ wa ++ (wb ++ ("table".toList ++ (w₂ ++ ("inet".toList ++ (w₃ ++ ("pdg".toList ++ ys))))))) :=
      line_mem_splitAt hwa
    rw [takeWhile_feed, if_neg hwb] at hmem
    simpa [declared] using hmem
  refine ⟨_, hline, ?_⟩
  rw [hword (by decide), takeWhile_feed w₂]
  split
  · exact .inl (fits_torn hblank (blanks_takeWhile hspaced.second.1))
  · rw [hword (by decide), takeWhile_feed w₃]
    split
    · exact .inl (fits_torn_inet hblank hspaced.second (blanks_takeWhile hspaced.third.1))
    · have hspaced' : Spaced wb w₂ w₃ := ⟨hblank, hspaced.second, hspaced.third⟩
      rw [hword (by decide)]
      right
      -- what follows the name in its line
      simp only [all, mem_runs_seq, mem_runs_optional, mem_runs_blank, mem_runs_text, mem_runs_empty] at htail
      obtain ⟨u, hu, _, ⟨w₅, x₅, hx₅, hw₅, rfl⟩, _, hstop, -⟩ := htail
      rcases hu with ⟨_, ⟨w₄, x₄, rfl, hw₄, rfl⟩, x, rfl, rfl⟩ | rfl
      · rw [takeWhile_feed w₄]
        split
        · exact .inl (fits_decl.mpr ⟨wb, w₂, w₃, _, hspaced', blanks_takeWhile hw₄, by simp [declared]⟩)
        · refine .inr (fits_opening.mpr ⟨wb, w₂, w₃, w₄, x.takeWhile (· != '\n'), hspaced', hw₄, ?_⟩)
          simp [declared]
      · left
        have hx₅' : x₅.takeWhile (· != '\n') = [] := by
          rw [runs] at hstop
          split at hstop
          next hfeed =>
            cases x₅ with
            | nil => rfl
            | cons c x₅ => rw [List.takeWhile_cons, if_neg (by simpa using hfeed)]
          · cases hstop
        have hys : Blanks (ys.takeWhile (· != '\n')) := by
          rw [show ys = w₅ ++ x₅ from hx₅, takeWhile_feed]
          split
          · exact blanks_takeWhile hw₅
          · rwa [hx₅', List.append_nil]
        exact fits_decl.mpr ⟨wb, w₂, w₃, _, hspaced', hys, by simp [declared]⟩

end ProxyGateway.Firewall
