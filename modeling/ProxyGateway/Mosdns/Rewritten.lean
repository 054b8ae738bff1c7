import ProxyGateway.Mosdns.DomainFile

set_option autoImplicit false

/-!
# ProxyGateway.Mosdns.Rewritten

Reading a domain file and writing it back with a domain more or less. The reader keeps the text of a
line and forgets its kind, and the writers write domains only: what MosDNS reads afterwards is what it
read before exactly if it took each line for the domain that the reader takes it for
(`rewritten_iff`).
-/

namespace ProxyGateway.Mosdns

open Text

variable {M : Matcher} {text line : List Char} {header d : String} {domains : List String}

/-! ### What is written -/

/-- A text that MosDNS takes for a pattern, up to a comment. -/
def Solid (d : String) : Prop := (∀ c ∈ uncommented d.toList, isSpace c = false) ∧ '\n' ∉ d.toList

theorem uncommented_append {cs : List Char} (h : '#' ∉ cs) (cs' : List Char) :
    uncommented (cs ++ cs') = cs ++ uncommented cs' := by
  rw [uncommented, List.takeWhile_append_of_pos]
  · rfl
  · intro c hc
    rw [decide_eq_true_eq]
    rintro rfl
    exact h hc

theorem uncommented_eq_self {cs : List Char} (h : '#' ∉ cs) : uncommented cs = cs := by
  have happend := uncommented_append h []
  rw [List.append_nil] at happend
  exact happend.trans (List.append_nil cs)

theorem not_mem_uncommented (cs : List Char) : '#' ∉ uncommented cs := by
  intro hin
  have hne := List.mem_takeWhile_imp hin
  simp at hne

theorem head_solid (k : Kind) : '#' ∉ k.head ∧ '\n' ∉ k.head ∧ ∀ c ∈ k.head, isSpace c = false := by
  cases k <;> exact ⟨by decide, by decide, space_of_all (by decide)⟩

theorem entry_domainLine (h : Solid d) : M.entry (domainLine d) = some (M.domain d) := by
  have hcut : uncommented (domainLine d) = Kind.domain.head ++ uncommented d.toList :=
    uncommented_append (head_solid .domain).1 _
  have hstrip : strip (Kind.domain.head ++ uncommented d.toList) = Kind.domain.head ++ uncommented d.toList := by
    refine strip_eq_self fun c hc => ?_
    rcases List.mem_append.mp hc with hc | hc
    · exact (head_solid .domain).2.2 c hc
    · exact h.1 c hc
  rw [M.comment, hcut, hstrip, M.typed .domain _ (not_mem_uncommented _) h.1]
  rfl

theorem newline_domainLine (h : Solid d) : '\n' ∉ domainLine d := by
  rw [domainLine, List.mem_append, not_or]
  exact ⟨(head_solid .domain).2.1, h.2⟩

theorem entry_comment {cs : List Char} (h : cs.head? = some '#') : M.entry cs = none := by
  obtain ⟨rest, rfl⟩ := List.head?_eq_some_iff.mp h
  rw [M.comment, uncommented, List.takeWhile_cons_of_neg (by decide)]
  exact M.blank

/-- The entries of a file that is written. -/
theorem mem_entries_domainFile (hheader : header.toList.head? = some '#' ∧ '\n' ∉ header.toList)
    (hsolid : ∀ d ∈ domains, Solid d) {e : Kind × List Char} :
    e ∈ M.entries (domainFile header domains) ↔ ∃ d ∈ domains, M.domain d = e := by
  have hlines : ∀ line ∈ header.toList :: (Route.domainText domains).map domainLine, '\n' ∉ line := by
    refine List.forall_mem_cons.mpr ⟨hheader.2, fun line hline => ?_⟩
    obtain ⟨d, hd, rfl⟩ := List.mem_map.mp hline
    exact newline_domainLine (hsolid d (Route.mem_domainText.mp hd))
  rw [Matcher.entries, domainFile, splitAt_flatMap hlines, List.mem_filterMap]
  constructor
  · rintro ⟨line, hline, he⟩
    rcases List.mem_append.mp hline with hline | hline
    · rcases List.mem_cons.mp hline with rfl | hline
      · rw [entry_comment hheader.1] at he
        cases he
      · obtain ⟨d, hd, rfl⟩ := List.mem_map.mp hline
        rw [Route.mem_domainText] at hd
        rw [entry_domainLine (hsolid d hd), Option.some.injEq] at he
        exact ⟨d, hd, he⟩
    · obtain rfl := List.mem_singleton.mp hline
      rw [M.blank] at he
      cases he
  · rintro ⟨d, hd, rfl⟩
    refine ⟨domainLine d, ?_, entry_domainLine (hsolid d hd)⟩
    exact List.mem_append_left _ (List.mem_cons_of_mem _ (List.mem_map_of_mem (Route.mem_domainText.mpr hd)))

/-! ### What is read -/

/-- Between `!` and `~` no character is blank. -/
theorem space_of_bounds {a b c : Char} (hlow : a ≤ c) (hhigh : c ≤ b) (ha : 33 ≤ a.toNat) (hb : b.toNat ≤ 126) :
    isSpace c = false := by
  have hac : a.toNat ≤ c.toNat := UInt32.le_iff_toNat_le.mp hlow
  have hcb : c.toNat ≤ b.toNat := UInt32.le_iff_toNat_le.mp hhigh
  simp only [isSpace, Bool.or_eq_false_iff, Bool.and_eq_false_iff, decide_eq_false_iff_not, beq_eq_false_iff_ne]
  omega

theorem space_of_isEntryChar {c : Char} (h : isEntryChar c = true) : isSpace c = false := by
  simp only [isEntryChar, Bool.or_eq_true, Bool.and_eq_true, decide_eq_true_eq] at h
  rcases h with (((((⟨hlow, hhigh⟩ | ⟨hlow, hhigh⟩) | ⟨hlow, hhigh⟩) | rfl) | rfl) | rfl) | rfl
  · exact space_of_bounds hlow hhigh (by decide) (by decide)
  · exact space_of_bounds hlow hhigh (by decide) (by decide)
  · exact space_of_bounds hlow hhigh (by decide) (by decide)
  all_goals decide

/-- Of an accepted line a text is read that MosDNS takes for a pattern, up to a comment. -/
theorem solid_readAs (haccepted : mosdnsLine (strip line) = true) (hread : isRead line = true)
    (hline : ∀ c ∈ line, isLineBreak c = false) : Solid (readAs line) := by
  have hkept : ∀ c ∈ (readAs line).toList, c ∈ strip line := by
    intro c hc
    rw [readAs, String.toList_ofList] at hc
    exact mem_of_mem_replace_nil hc
  refine ⟨?_, fun hnewline => ?_⟩
  · simp only [mosdnsLine, Bool.or_eq_true, decide_eq_true_eq] at haccepted
    rcases haccepted with ((hcomment | hblank) | hkind) | hbare
    · obtain ⟨rest, hrest⟩ := List.head?_eq_some_iff.mp hcomment
      have hfront : Kind.domain.head.isPrefixOf ('#' :: rest) = false := rfl
      rw [readAs, String.toList_ofList, hrest, replace_cons hfront, uncommented, List.takeWhile_cons_of_neg (by decide)]
      exact List.forall_mem_nil _
    · have hempty : strip (strip line) = [] := strip_eq_nil (List.all_eq_true.mp hblank)
      rw [strip, strip, stripBy_stripBy] at hempty
      simp [isRead, strip, hempty] at hread
    · obtain ⟨k, -, hk⟩ := List.any_eq_true.mp hkind
      rw [Bool.and_eq_true] at hk
      obtain ⟨rest, hrest⟩ := List.isPrefixOf_iff_prefix.mp hk.1
      have hsolid : isSolid rest = true := by rw [← hrest, List.drop_left] at hk; exact hk.2
      refine fun c hc => ?_
      have hin := hkept c (List.takeWhile_subset _ hc)
      rw [← hrest] at hin
      rcases List.mem_append.mp hin with hin | hin
      · exact (head_solid k).2.2 c hin
      · rw [isSolid, Bool.and_eq_true, List.all_eq_true] at hsolid
        simpa using hsolid.2 c hin
    · rw [Bool.and_eq_true, List.all_eq_true] at hbare
      exact fun c hc => space_of_isEntryChar (hbare.2 c (hkept c (List.takeWhile_subset _ hc)))
  · have hbreak := hline _ (mem_of_mem_strip (hkept _ hnewline))
    revert hbreak
    decide

theorem solid_snapshot (haccepted : mosdnsLines text = true) {x : String} (hx : x ∈ snapshot text) : Solid x := by
  obtain ⟨line, hline, rfl⟩ := List.mem_map.mp hx
  obtain ⟨hin, hread⟩ := List.mem_filter.mp hline
  exact solid_readAs (List.all_eq_true.mp haccepted line hin) hread fun c hc => isLineBreak_of_mem_splitlines hin hc

theorem solid_of_looseDomain (h : Route.looseDomain d = true) : Solid d ∧ uncommented d.toList = d.toList := by
  have hchars : ∀ c ∈ d.toList, isEntryChar c = true := by
    intro c hc
    rw [Route.looseDomain, Bool.and_eq_true, List.all_eq_true] at h
    have hc := h.2 c hc
    simp only [Route.isLowerAlnum, Bool.or_eq_true, Bool.and_eq_true, decide_eq_true_eq] at hc
    simp only [isEntryChar, Bool.or_eq_true, Bool.and_eq_true, decide_eq_true_eq]
    tauto
  have hhash : '#' ∉ d.toList := fun hin => absurd (hchars _ hin) (by decide)
  have hwhole : uncommented d.toList = d.toList := uncommented_eq_self hhash
  refine ⟨⟨fun c hc => ?_, fun hin => absurd (hchars _ hin) (by decide)⟩, hwhole⟩
  rw [hwhole] at hc
  exact space_of_isEntryChar (hchars c hc)

/-! ### A domain more or less -/

/-- MosDNS reads the domain besides what it read before. -/
def Adds (M : Matcher) (d : String) (text text' : List Char) : Prop :=
  ∀ e, e ∈ M.entries text' ↔ e ∈ M.entries text ∨ e = M.domain d

/-- MosDNS reads what it read before without the domain. -/
def Removes (M : Matcher) (d : String) (text text' : List Char) : Prop :=
  ∀ e, e ∈ M.entries text' ↔ e ∈ M.entries text ∧ e ≠ M.domain d

/-- What is left of a line for MosDNS once `domain:` is taken out. -/
def left (line : List Char) : List Char := uncommented (replace Kind.domain.head [] (strip line))

/-- The lines in which the reader reads a domain. -/
def readLines (text : List Char) : List (List Char) := (splitlines text).filter isRead

/-- Every entry is one of a domain that is the new one or left of a line, and what is left of a line is the
new domain or one that is an entry. -/
structure AddMeets (M : Matcher) (d : String) (text : List Char) : Prop where
  kept : ∀ e ∈ M.entries text, e.1 = .domain ∧
    (e.2 = (M.domain d).2 ∨ ∃ line ∈ readLines text, M.norm (left line) = e.2)
  real : ∀ line ∈ readLines text, M.norm (left line) = (M.domain d).2 ∨ (.domain, M.norm (left line)) ∈ M.entries text

/-- The same for the lines in which another domain is read; none of them has the domain in another
spelling. -/
structure RemoveMeets (M : Matcher) (d : String) (text : List Char) : Prop where
  kept : ∀ e ∈ M.entries text, e.1 = .domain ∧
    (e.2 = (M.domain d).2 ∨ ∃ line ∈ readLines text, readAs line ≠ d ∧ M.norm (left line) = e.2)
  real : ∀ line ∈ readLines text, readAs line ≠ d →
    M.norm (left line) ≠ (M.domain d).2 ∧ (.domain, M.norm (left line)) ∈ M.entries text

theorem domain_readAs (line : List Char) : M.domain (readAs line) = (.domain, M.norm (left line)) := by
  rw [Matcher.domain, readAs, String.toList_ofList]
  rfl

theorem exists_mem_snapshot {p : String → Prop} : (∃ x ∈ snapshot text, p x) ↔ ∃ line ∈ readLines text, p (readAs line) := by
  simp [snapshot, readLines]

theorem adds_iff (hheader : header.toList.head? = some '#' ∧ '\n' ∉ header.toList) (haccepted : mosdnsLines text = true)
    (hd : Route.looseDomain d = true) :
    Adds M d text (domainFile header (snapshot text ++ [d])) ↔ AddMeets M d text := by
  have hsolid : ∀ x ∈ snapshot text ++ [d], Solid x := by
    intro x hx
    rcases List.mem_append.mp hx with hx | hx
    · exact solid_snapshot haccepted hx
    · obtain rfl := List.mem_singleton.mp hx
      exact (solid_of_looseDomain hd).1
  -- the new file has an entry for each line that was read, and the new domain
  have hentries : ∀ e, e ∈ M.entries (domainFile header (snapshot text ++ [d])) ↔
      (∃ line ∈ readLines text, M.domain (readAs line) = e) ∨ M.domain d = e := by
    intro e
    rw [mem_entries_domainFile hheader hsolid, ← exists_mem_snapshot (p := fun x => M.domain x = e)]
    simp [or_and_right, exists_or]
  constructor
  · intro h
    refine ⟨fun e he => ?_, fun line hline => ?_⟩
    · rcases (hentries e).mp ((h e).mpr (.inl he)) with ⟨line, hline, rfl⟩ | rfl
      · rw [domain_readAs]
        exact ⟨rfl, .inr ⟨line, hline, rfl⟩⟩
      · exact ⟨rfl, .inl rfl⟩
    · rcases (h _).mp ((hentries _).mpr (.inl ⟨line, hline, rfl⟩)) with hin | heq
      · rw [domain_readAs] at hin
        exact .inr hin
      · rw [domain_readAs] at heq
        exact .inl (congrArg Prod.snd heq)
  · intro h e
    rw [hentries]
    constructor
    · rintro (⟨line, hline, rfl⟩ | rfl)
      · rw [domain_readAs]
        rcases h.real line hline with heq | hin
        · exact .inr (Prod.ext rfl heq)
        · exact .inl hin
      · exact .inr rfl
    · rintro (he | rfl)
      · obtain ⟨hkind, heq | ⟨line, hline, heq⟩⟩ := h.kept e he
        · exact .inr (Prod.ext hkind.symm heq.symm)
        · exact .inl ⟨line, hline, (domain_readAs line).trans (Prod.ext hkind.symm heq)⟩
      · exact .inr rfl

theorem removes_iff (hheader : header.toList.head? = some '#' ∧ '\n' ∉ header.toList) (haccepted : mosdnsLines text = true) :
    Removes M d text (domainFile header ((snapshot text).filter (· ≠ d))) ↔ RemoveMeets M d text := by
  have hsolid : ∀ x ∈ (snapshot text).filter (· ≠ d), Solid x := fun x hx =>
    solid_snapshot haccepted (List.mem_filter.mp hx).1
  have hentries : ∀ e, e ∈ M.entries (domainFile header ((snapshot text).filter (· ≠ d))) ↔
      ∃ line ∈ readLines text, readAs line ≠ d ∧ M.domain (readAs line) = e := by
    intro e
    rw [mem_entries_domainFile hheader hsolid, ← exists_mem_snapshot (p := fun x => x ≠ d ∧ M.domain x = e)]
    simp [and_assoc]
  constructor
  · intro h
    refine ⟨fun e he => ?_, fun line hline hne => ?_⟩
    · by_cases heq : e = M.domain d
      · rw [heq]
        exact ⟨rfl, .inl rfl⟩
      · obtain ⟨line, hline, hne, rfl⟩ := (hentries e).mp ((h e).mpr ⟨he, heq⟩)
        rw [domain_readAs]
        exact ⟨rfl, .inr ⟨line, hline, hne, rfl⟩⟩
    · obtain ⟨hin, hother⟩ := (h _).mp ((hentries _).mpr ⟨line, hline, hne, rfl⟩)
      rw [domain_readAs] at hin hother
      exact ⟨fun heq => hother (Prod.ext rfl heq), hin⟩
  · intro h e
    rw [hentries]
    constructor
    · rintro ⟨line, hline, hne, rfl⟩
      obtain ⟨hother, hin⟩ := h.real line hline hne
      rw [domain_readAs]
      exact ⟨hin, fun heq => hother (congrArg Prod.snd heq)⟩
    · rintro ⟨he, hother⟩
      obtain ⟨hkind, heq | ⟨line, hline, hne, heq⟩⟩ := h.kept e he
      · exact absurd (Prod.ext hkind heq) hother
      · exact ⟨line, hline, hne, (domain_readAs line).trans (Prod.ext hkind.symm heq)⟩

/-- Reading an accepted file and writing it back with a domain more or less leaves the entries and their
kinds exactly if MosDNS takes the lines for the domains that the reader takes them for. -/
theorem rewritten_iff (M : Matcher) (text : List Char) (d : String) (haccepted : mosdnsLines text = true)
    (hd : Route.looseDomain d = true) :
    (Adds M d text (directText (snapshot text ++ [d])) ↔ AddMeets M d text) ∧
      (Adds M d text (hijackText (snapshot text ++ [d])) ↔ AddMeets M d text) ∧
      (Removes M d text (directText ((snapshot text).filter (· ≠ d))) ↔ RemoveMeets M d text) ∧
      (Removes M d text (hijackText ((snapshot text).filter (· ≠ d))) ↔ RemoveMeets M d text) :=
  ⟨adds_iff ⟨rfl, by decide⟩ haccepted hd, adds_iff ⟨rfl, by decide⟩ haccepted hd, removes_iff ⟨rfl, by decide⟩ haccepted,
    removes_iff ⟨rfl, by decide⟩ haccepted⟩

/-! ### Files that were written -/

theorem isLineBreak_domainLine (hd : Route.looseDomain d = true) : ∀ c ∈ domainLine d, isLineBreak c = false := by
  obtain ⟨⟨hsolid, -⟩, hwhole⟩ := solid_of_looseDomain hd
  rw [hwhole] at hsolid
  intro c hc
  have hspace : isSpace c = false := by
    rcases List.mem_append.mp hc with hc | hc
    · exact (head_solid .domain).2.2 c hc
    · exact hsolid c hc
  by_contra hbreak
  rw [isSpace_of_isLineBreak (by simpa using hbreak)] at hspace
  cases hspace

theorem readAs_domainLine (hd : Route.looseDomain d = true) : isRead (domainLine d) = true ∧ readAs (domainLine d) = d := by
  have hstrip : strip (domainLine d) = domainLine d := by
    obtain ⟨⟨hsolid, -⟩, hwhole⟩ := solid_of_looseDomain hd
    rw [hwhole] at hsolid
    refine strip_eq_self fun c hc => ?_
    rcases List.mem_append.mp hc with hc | hc
    · exact (head_solid .domain).2.2 c hc
    · exact hsolid c hc
  have hcolon : ¬Kind.domain.head <:+: d.toList := by
    intro hin
    rw [Route.looseDomain, Bool.and_eq_true, List.all_eq_true] at hd
    exact absurd (hd.2 ':' (hin.subset (by decide))) (by decide)
  constructor
  · rw [isRead, hstrip]
    rfl
  · rw [readAs, hstrip, domainLine, replace_append (by decide), replace_eq_self hcolon, List.nil_append, String.ofList_toList]

/-- What was written is read back. -/
theorem snapshot_domainFile (hheader : header.toList.head? = some '#' ∧ ∀ c ∈ header.toList, isLineBreak c = false)
    (hdomains : ∀ d ∈ domains, Route.looseDomain d = true) : snapshot (domainFile header domains) = Route.domainText domains := by
  have hloose : ∀ d ∈ Route.domainText domains, Route.looseDomain d = true := fun d hd =>
    hdomains d (Route.mem_domainText.mp hd)
  have hlines : ∀ line ∈ header.toList :: (Route.domainText domains).map domainLine, ∀ c ∈ line, isLineBreak c = false := by
    refine List.forall_mem_cons.mpr ⟨hheader.2, fun line hline => ?_⟩
    obtain ⟨d, hd, rfl⟩ := List.mem_map.mp hline
    exact isLineBreak_domainLine (hloose d hd)
  have hskip : isRead header.toList = false := by simp [isRead, hheader.1]
  have hall : (Route.domainText domains).filter (isRead ∘ domainLine) = Route.domainText domains :=
    List.filter_eq_self.mpr fun d hd => (readAs_domainLine (hloose d hd)).1
  rw [snapshot, domainFile, splitlines_flatMap hlines, List.filter_cons_of_neg (by simp [hskip]), List.filter_map, hall,
    List.map_map]
  exact (List.map_congr_left fun d hd => (readAs_domainLine (hloose d hd)).2).trans (List.map_id _)

/-- A file that was written meets the conditions; for a removal, no other of its domains is the same to
MosDNS. -/
theorem meets_domainFile (hheader : header.toList.head? = some '#' ∧ ∀ c ∈ header.toList, isLineBreak c = false)
    (hdomains : ∀ d ∈ domains, Route.looseDomain d = true) : AddMeets M d (domainFile header domains) ∧
      ((∀ d' ∈ domains, d' ≠ d → M.domain d' ≠ M.domain d) → RemoveMeets M d (domainFile header domains)) := by
  have hfeed : '\n' ∉ header.toList := fun hin => absurd (hheader.2 _ hin) (by decide)
  have hentries : ∀ e, e ∈ M.entries (domainFile header domains) ↔ ∃ d' ∈ domains, M.domain d' = e := fun e =>
    mem_entries_domainFile ⟨hheader.1, hfeed⟩ fun d' hd' => (solid_of_looseDomain (hdomains d' hd')).1
  have hread : ∀ d', d' ∈ domains ↔ ∃ line ∈ readLines (domainFile header domains), readAs line = d' := by
    intro d'
    rw [← exists_mem_snapshot (p := fun x => x = d'), snapshot_domainFile hheader hdomains]
    simp
  refine ⟨⟨fun e he => ?_, fun line hline => ?_⟩, fun hother => ⟨fun e he => ?_, fun line hline hne => ?_⟩⟩
  · obtain ⟨d', hd', rfl⟩ := (hentries e).mp he
    obtain ⟨line, hline, rfl⟩ := (hread d').mp hd'
    rw [domain_readAs]
    exact ⟨rfl, .inr ⟨line, hline, rfl⟩⟩
  · have hin := (hentries _).mpr ⟨_, (hread _).mpr ⟨line, hline, rfl⟩, rfl⟩
    rw [domain_readAs] at hin
    exact .inr hin
  · obtain ⟨d', hd', rfl⟩ := (hentries e).mp he
    obtain ⟨line, hline, rfl⟩ := (hread d').mp hd'
    by_cases heq : readAs line = d
    · rw [heq]
      exact ⟨rfl, .inl rfl⟩
    · rw [domain_readAs]
      exact ⟨rfl, .inr ⟨line, hline, heq, rfl⟩⟩
  · have hd' := (hread _).mpr ⟨line, hline, rfl⟩
    have hin := (hentries _).mpr ⟨_, hd', rfl⟩
    have hapart := hother _ hd' hne
    rw [domain_readAs] at hin hapart
    exact ⟨fun heq => hapart (Prod.ext rfl heq), hin⟩

/-! ### A matcher -/

/-- The entry of a line without comment. -/
def plainEntry (line : List Char) : Option (Kind × List Char) :=
  if line = [] then none
  else match [Kind.domain, .full, .keyword, .regexp].find? (fun k => k.head.isPrefixOf line) with
    | some k => some (k, (line.drop k.head.length).map Char.toLower)
    | none => some (.domain, line.map Char.toLower)

theorem plainEntry_typed (k : Kind) (pattern : List Char) :
    plainEntry (k.head ++ pattern) = some (k, pattern.map Char.toLower) := by
  cases k <;> rfl

theorem plainEntry_bare {pattern : List Char} (hne : pattern ≠ []) (hcolon : ':' ∉ pattern) :
    plainEntry pattern = some (.domain, pattern.map Char.toLower) := by
  have hnone : [Kind.domain, .full, .keyword, .regexp].find? (fun k => k.head.isPrefixOf pattern) = none := by
    refine List.find?_eq_none.mpr fun k _ hprefix => hcolon ?_
    refine (List.isPrefixOf_iff_prefix.mp hprefix).subset ?_
    cases k <;> decide
  rw [plainEntry, if_neg hne, hnone]

/-- A matcher that compares in lower case. -/
def plainMatcher : Matcher where
  entry line := plainEntry (strip (uncommented line))
  norm pattern := pattern.map Char.toLower
  comment line := by
    have hhash : '#' ∉ strip (uncommented line) := fun hin => not_mem_uncommented line (mem_of_mem_strip hin)
    rw [uncommented_eq_self hhash, strip, strip, stripBy_stripBy]
  blank := rfl
  typed k pattern hhash hspace := by
    have hfree : '#' ∉ k.head ++ pattern := by
      rw [List.mem_append, not_or]
      exact ⟨(head_solid k).1, hhash⟩
    rw [uncommented_eq_self hfree, strip_eq_self, plainEntry_typed]
    intro c hc
    rcases List.mem_append.mp hc with hc | hc
    · exact (head_solid k).2.2 c hc
    · exact hspace c hc
  bare pattern hne hchars := by
    rw [uncommented_eq_self fun hin => absurd (hchars _ hin) (by decide),
      strip_eq_self fun c hc => space_of_isEntryChar (hchars c hc)]
    exact plainEntry_bare hne fun hin => absurd (hchars _ hin) (by decide)

/-- A domain is added to a file with a comment, a bare domain and one that begins with `domain:`. -/
theorem rewritten_sample : Adds plainMatcher "b.example" "# mine\na.example\ndomain:c.example\n".toList
    (directText (snapshot "# mine\na.example\ndomain:c.example\n".toList ++ ["b.example"])) :=
  (rewritten_iff plainMatcher _ _ (by decide) (by decide)).1.mpr ⟨by decide, by decide⟩

/-- A line that begins with `full:` becomes a domain. -/
theorem full_becomes_domain : mosdnsLines "full:a.example\n".toList = true ∧
    ¬Adds plainMatcher "b.example" "full:a.example\n".toList
      (directText (snapshot "full:a.example\n".toList ++ ["b.example"])) := by
  refine ⟨by decide, fun h => ?_⟩
  have hbefore : (Kind.full, "a.example".toList) ∈ plainMatcher.entries "full:a.example\n".toList := by decide
  have hafter := (h _).mpr (.inl hbefore)
  revert hafter
  decide

end ProxyGateway.Mosdns
