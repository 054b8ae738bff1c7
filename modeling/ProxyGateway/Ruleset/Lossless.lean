import ProxyGateway.Mosdns.Rewritten
import ProxyGateway.Ruleset.Expanded

set_option autoImplicit false

/-!
# ProxyGateway.Ruleset.Lossless

What MosDNS reads in the two files. A host name matches a file whenever it matches a value of the rulesets;
the converse fails where a keyword holds a `#`, since MosDNS reads only what stands in front of it
(`aggregates_lossless_iff`).
-/

namespace ProxyGateway.Ruleset

open Schema Render Mosdns Text

variable {D : Deriver} {m : RulesetMeta} {staged watched : Dict String (Option Bytes)} {s header : String}
  {host pattern line : List Char} {k : Kind} {e : Entries} {notes : List (List Char)}

/-! ### MosDNS -/

/-- The pattern that MosDNS reads: the text in front of a comment, without blanks at its end. -/
def patternOf (cs : List Char) : List Char := (uncommented cs).rdropWhile isSpace

/-- The entry of a line. -/
def entryOf (line : List Char) : Option (Kind × List Char) :=
  let text := strip (uncommented line)
  if text = [] then none
  else match [Kind.domain, .full, .keyword, .regexp].find? (fun k => k.head.isPrefixOf text) with
    | some k => some (k, text.drop k.head.length)
    | none => some (.domain, text)

/-- How names are compared: in lower case, with the regular expressions of MosDNS. -/
structure Comparison (lower : String → String) where
  regexp : List Char → List Char → Prop
  /-- What is in lower case stays as it is. -/
  lower_lower : ∀ s, lower (lower s) = lower s
  /-- A comment and blanks do not change the letters in front of them, -/
  lower_pattern : ∀ s, lower (String.ofList (patternOf s.toList)) = String.ofList (patternOf (lower s).toList)
  /-- and no letter becomes a line feed. -/
  lower_newline : ∀ s, '\n' ∉ s.toList → '\n' ∉ (lower s).toList

section Matching

variable {lower : String → String} (C : Comparison lower)

/-- The lower case of a text. -/
def Comparison.fold (_ : Comparison lower) (cs : List Char) : List Char := (lower (String.ofList cs)).toList

/-- Does the host name match the entry? -/
def Comparison.Accepts (C : Comparison lower) : Kind → List Char → List Char → Prop
  | .full, pattern, host => C.fold host = C.fold pattern
  | .domain, pattern, host => C.fold host = C.fold pattern ∨ '.' :: C.fold pattern <:+ C.fold host
  | .keyword, pattern, host => C.fold pattern <:+: C.fold host
  | .regexp, pattern, host => C.regexp pattern host

/-- Does the host name match a line of the file? -/
def Comparison.Matches (C : Comparison lower) (text host : List Char) : Prop :=
  ∃ line ∈ splitAt '\n' text, ∃ k pattern, entryOf line = some (k, pattern) ∧ C.Accepts k pattern host

end Matching

/-- Does the host name match the domain part of some ruleset among those that `part` selects? -/
def MatchesRulesets (C : Comparison D.site.lower) (m : RulesetMeta) (staged watched : Dict String (Option Bytes))
    (part : String → Json → Bool) (host : List Char) : Prop :=
  ∃ k s, Declared D m staged watched part k s ∧ C.Accepts k s.toList host

/-- No keyword is cut short at a `#` or a blank such that its front matches the name, unless some ruleset
matches it. -/
def Unclipped (C : Comparison D.site.lower) (m : RulesetMeta) (staged watched : Dict String (Option Bytes))
    (part : String → Json → Bool) (host : List Char) : Prop :=
  ∀ s, Declared D m staged watched part .keyword s → patternOf s.toList ≠ s.toList →
    C.Accepts .keyword (patternOf s.toList) host → MatchesRulesets C m staged watched part host

/-! ### The lines of a file -/

theorem entryOf_note (h : IsNote line) : entryOf line = none := by
  obtain ⟨rest, rfl⟩ := List.head?_eq_some_iff.mp h.1
  rw [entryOf, uncommented, List.takeWhile_cons_of_neg (by decide)]
  rfl

/-- The kind of an entry ends in a colon, so that the blanks behind it are those of the pattern. -/
theorem entryOf_entry (k : Kind) (cs : List Char) : entryOf (k.head ++ cs) = some (k, patternOf cs) := by
  have hstrip : strip (k.head ++ uncommented cs) = k.head ++ patternOf cs := by
    have hfront : (k.head ++ uncommented cs).dropWhile isSpace = k.head ++ uncommented cs := by
      cases k <;> rfl
    have hcolon : k.head = k.head.dropLast ++ [':'] := by
      cases k <;> rfl
    rw [strip, stripBy_eq, hfront, hcolon, List.append_assoc, List.append_assoc, List.singleton_append,
      rdropWhile_append (by decide)]
    rfl
  rw [entryOf, uncommented_append (head_solid k).1, hstrip]
  cases k <;> rfl

theorem mem_aggregateLines : line ∈ aggregateLines header notes e ↔
    line = header.toList ∨ line ∈ notes ∨ ∃ k, ∃ s ∈ e.of k, line = k.head ++ s.toList := by
  have hkinds : (∃ k, ∃ s ∈ e.of k, line = k.head ++ s.toList) ↔
      ((∃ s ∈ e.full, line = Kind.full.head ++ s.toList) ∨ ∃ s ∈ e.domain, line = Kind.domain.head ++ s.toList) ∨
        ∃ s ∈ e.keyword, line = Kind.keyword.head ++ s.toList := by
    constructor
    · rintro ⟨k, hk⟩
      cases k with
      | full => exact .inl (.inl hk)
      | domain => exact .inl (.inr hk)
      | keyword => exact .inr hk
      | regexp => exact absurd hk (by simp [Entries.of])
    · rintro ((hk | hk) | hk)
      · exact ⟨.full, hk⟩
      · exact ⟨.domain, hk⟩
      · exact ⟨.keyword, hk⟩
  rw [hkinds]
  simp only [aggregateLines, List.mem_append, List.mem_cons, List.mem_map, Route.mem_domainText, eq_comm, or_assoc]

/-- What MosDNS reads in a file: the patterns of its entries. -/
theorem matches_aggregate {lower : String → String} (C : Comparison lower) (hheader : IsNote header.toList)
    (hnotes : ∀ note ∈ notes, IsNote note) (hnewline : ∀ k, ∀ s ∈ e.of k, '\n' ∉ s.toList) :
    C.Matches (aggregateText header notes e) host ↔ ∃ k, ∃ s ∈ e.of k, C.Accepts k (patternOf s.toList) host := by
  have hlines : ∀ line ∈ aggregateLines header notes e, '\n' ∉ line := by
    intro line hline
    rcases mem_aggregateLines.mp hline with rfl | hnote | ⟨k, s, hs, rfl⟩
    · exact hheader.2
    · exact (hnotes line hnote).2
    · rw [List.mem_append, not_or]
      exact ⟨(head_solid k).2.1, hnewline k s hs⟩
  rw [Comparison.Matches, aggregateText, splitAt_flatMap hlines]
  constructor
  · rintro ⟨line, hline, k, pattern, hentry, haccepts⟩
    rcases List.mem_append.mp hline with hline | hline
    · rcases mem_aggregateLines.mp hline with rfl | hnote | ⟨k₁, s, hs, rfl⟩
      · rw [entryOf_note hheader] at hentry
        cases hentry
      · rw [entryOf_note (hnotes line hnote)] at hentry
        cases hentry
      · rw [entryOf_entry] at hentry
        cases hentry
        exact ⟨k, s, hs, haccepts⟩
    · obtain rfl := List.mem_singleton.mp hline
      cases hentry
  · rintro ⟨k, s, hs, haccepts⟩
    exact ⟨k.head ++ s.toList, List.mem_append_left _ (mem_aggregateLines.mpr (.inr (.inr ⟨k, s, hs, rfl⟩))),
      k, patternOf s.toList, entryOf_entry k s.toList, haccepts⟩

/-! ### Patterns -/

/-- A host name holds neither a `#` nor a blank. -/
theorem patternOf_host (h : phoneDirectDomainRe s = true) : patternOf s.toList = s.toList := by
  simp only [phoneDirectDomainRe, Bool.and_eq_true, decide_eq_true_eq, List.all_eq_true] at h
  have hloose : Route.looseDomain s = true := by
    rw [Route.looseDomain, Bool.and_eq_true, bne_iff_ne, List.all_eq_true]
    refine ⟨fun hempty => ?_, fun c hc => ?_⟩
    · rw [hempty] at h
      exact absurd h.1.1 (by decide)
    · by_cases hdot : c = '.'
      · simp [hdot]
      · obtain ⟨piece, hpiece, hin⟩ := exists_mem_splitAt hc hdot
        have hlabel := h.2 piece hpiece
        simp only [Route.domainLabel, Bool.and_eq_true, List.all_eq_true] at hlabel
        have hchar := hlabel.1.1.2 c hin
        simp only [Bool.or_eq_true, decide_eq_true_eq] at hchar ⊢
        tauto
  obtain ⟨⟨hsolid, -⟩, hwhole⟩ := solid_of_looseDomain hloose
  rw [hwhole] at hsolid
  rw [patternOf, hwhole]
  refine List.rdropWhile_eq_self_iff.mpr fun hne => ?_
  rw [hsolid _ (List.getLast_mem hne)]
  exact Bool.false_ne_true

theorem patternOf_front (cs : List Char) : patternOf cs <+: cs :=
  (List.rdropWhile_prefix isSpace _).trans (List.takeWhile_prefix _)

section Fold

variable {lower : String → String} {C : Comparison lower}

theorem fold_patternOf (s : String) : C.fold (patternOf s.toList) = patternOf (C.fold s.toList) := by
  rw [Comparison.fold, C.lower_pattern, String.toList_ofList, Comparison.fold, String.ofList_toList]

/-- The pattern decides by its lower case. -/
theorem accepts_congr {pattern' : List Char} (h : C.fold pattern = C.fold pattern') (hk : k ≠ .regexp) :
    C.Accepts k pattern host ↔ C.Accepts k pattern' host := by
  cases k with
  | regexp => exact (hk rfl).elim
  | _ => simp only [Comparison.Accepts, h]

/-- The front of a keyword matches where the keyword does. -/
theorem accepts_front (h : C.Accepts .keyword s.toList host) : C.Accepts .keyword (patternOf s.toList) host := by
  rw [Comparison.Accepts, fold_patternOf]
  exact (patternOf_front _).isInfix.trans h

end Fold

/-! ### The files and the rulesets -/

/-- A text without control characters has no line feed. -/
theorem newline_of_hasControl (h : hasControl s = false) : '\n' ∉ s.toList := fun hin =>
  List.any_eq_false.mp h _ hin (by decide)

theorem ne_regexp_of_declared {part : String → Json → Bool} (h : Declared D m staged watched part k s) : k ≠ .regexp := by
  rintro rfl
  obtain ⟨-, -, -, -, -, -, -, -, -, -, field, hfield, -⟩ := h
  cases hfield

section Expanded

variable {g : String → String} {part : String → Json → Bool} {C : Comparison D.site.lower}

/-- What matches a file: a host name of a ruleset, or the front of a keyword. -/
theorem matches_iff (hg : ∀ s, D.site.lower (g s) = D.site.lower s) (hfeed : ∀ s, '\n' ∉ s.toList → '\n' ∉ (g s).toList)
    (hexpands : Expands g (Declared D m staged watched part) e) (hheader : IsNote header.toList)
    (hnotes : ∀ note ∈ notes, IsNote note) :
    C.Matches (aggregateText header notes e) host ↔
      ∃ k s, Declared D m staged watched part k s ∧ C.Accepts k (if k = .keyword then patternOf s.toList else s.toList) host := by
  have hfold : ∀ s, C.fold (g s).toList = C.fold s.toList := fun s => by
    rw [Comparison.fold, Comparison.fold, String.ofList_toList, String.ofList_toList, hg]
  have hnewline : ∀ k, ∀ s ∈ e.of k, '\n' ∉ s.toList := by
    intro k s hs
    obtain ⟨raw, -, hsound⟩ := hexpands.sound k s hs
    rw [hsound.eq]
    exact hfeed raw (newline_of_hasControl hsound.plain)
  -- the pattern that is written for a value is, in lower case, the one of the value
  have hpattern : ∀ k raw, Declared D m staged watched part k raw → (k ≠ .keyword → phoneDirectDomainRe (g raw) = true) →
      (C.Accepts k (patternOf (g raw).toList) host ↔
        C.Accepts k (if k = .keyword then patternOf raw.toList else raw.toList) host) := by
    intro k raw hraw hhost
    refine accepts_congr ?_ (ne_regexp_of_declared hraw)
    split
    · rw [fold_patternOf, fold_patternOf, hfold]
    next hk => rw [patternOf_host (hhost hk), hfold]
  rw [matches_aggregate C hheader hnotes hnewline]
  constructor
  · rintro ⟨k, s, hs, haccepts⟩
    obtain ⟨raw, hraw, hsound⟩ := hexpands.sound k s hs
    obtain rfl := hsound.eq
    exact ⟨k, raw, hraw, (hpattern k raw hraw hsound.host).mp haccepts⟩
  · rintro ⟨k, raw, hraw, haccepts⟩
    have hin := hexpands.complete k raw hraw
    obtain ⟨_, _, hsound⟩ := hexpands.sound k _ hin
    exact ⟨k, g raw, hin, (hpattern k raw hraw hsound.host).mpr haccepts⟩

/-- A file says what the rulesets say exactly if no keyword is cut short. -/
theorem matches_listed_iff (hg : ∀ s, D.site.lower (g s) = D.site.lower s)
    (hfeed : ∀ s, '\n' ∉ s.toList → '\n' ∉ (g s).toList) (hexpands : Expands g (Declared D m staged watched part) e) (hheader : IsNote header.toList)
    (hnotes : ∀ note ∈ notes, IsNote note) :
    (C.Matches (aggregateText header notes e) host ↔ MatchesRulesets C m staged watched part host) ↔
      Unclipped C m staged watched part host := by
  rw [matches_iff hg hfeed hexpands hheader hnotes]
  constructor
  · intro hsame s hs _ haccepts
    exact hsame.mp ⟨.keyword, s, hs, by rwa [if_pos rfl]⟩
  · intro hwhole
    constructor
    · rintro ⟨k, s, hs, haccepts⟩
      split at haccepts
      next hk =>
        subst hk
        by_cases hcut : patternOf s.toList = s.toList
        · exact ⟨.keyword, s, hs, hcut ▸ haccepts⟩
        · exact hwhole s hs hcut haccepts
      · exact ⟨k, s, hs, haccepts⟩
    · rintro ⟨k, s, hs, haccepts⟩
      refine ⟨k, s, hs, ?_⟩
      split
      next hk =>
        subst hk
        exact accepts_front haccepts
      · exact haccepts

end Expanded

/-- Each of the two files says what its rulesets say exactly if none of their keywords is cut short, and
neither depends on the order of the rulesets. -/
theorem aggregates_lossless_iff (D : Deriver) (C : Comparison D.site.lower) (m : RulesetMeta)
    (staged watched : Dict String (Option Bytes)) (host : List Char) :
    (∀ text, rulesetDirectBytes D m staged watched = .ok text →
      ((C.Matches text host ↔ MatchesRulesets C m staged watched directPart host) ↔
        Unclipped C m staged watched directPart host)) ∧
    (∀ text, rulesetHijackBytes D m staged watched = .ok text →
      ((C.Matches text host ↔ MatchesRulesets C m staged watched D.hijackPart host) ↔
        Unclipped C m staged watched D.hijackPart host)) ∧
    ∀ m' : RulesetMeta, m.entries.Perm m'.entries →
      rulesetDirectBytes D m' staged watched = rulesetDirectBytes D m staged watched ∧
        rulesetHijackBytes D m' staged watched = rulesetHijackBytes D m staged watched := by
  refine ⟨fun text htext => ?_, fun text htext => ?_, fun m' hperm => ⟨directBytes_perm hperm, hijackBytes_perm hperm⟩⟩
  · obtain ⟨e, rfl, hexpands⟩ := mem_direct htext
    exact matches_listed_iff (fun _ => rfl) (fun _ => id) hexpands (by decide) (List.forall_mem_nil _)
  · obtain ⟨notes, e, rfl, hnotes, hexpands⟩ := mem_hijack htext
    exact matches_listed_iff C.lower_lower C.lower_newline hexpands (by decide) hnotes

/-- A ruleset for the phone with the keyword `ab#c`, on a site of small letters. -/
def keywordRule : Json := .obj [("domain_keyword", .arr [.str "ab#c"])]

def keywordSource : Json := .obj [("version", .int 1), ("rules", .arr [keywordRule])]

def keywordDeriver : Deriver where
  site := plainSite
  loads _ := some keywordSource

def keywordMeta : RulesetMeta where
  entries := [("ads", .obj [("outbound", .str "direct"), ("format", .str "source")])]
  uniq := List.nodup_singleton _

/-- Small letters. -/
def plainComparison : Comparison keywordDeriver.site.lower where
  regexp _ _ := False
  lower_lower _ := rfl
  lower_pattern _ := rfl
  lower_newline _ := id

theorem direct_keyword : rulesetDirectBytes keywordDeriver keywordMeta [("ruleset:ads.json", some [])] [] =
    .ok "# pdg-bot 规则集手机本地直连聚合（事务派生；不要手工编辑）\nkeyword:ab#c\n".toList := by
  decide

theorem aggregates_lossless_iff_keyword :
    (plainComparison.Matches "# pdg-bot 规则集手机本地直连聚合（事务派生；不要手工编辑）\nkeyword:ab#c\n".toList "cd.com".toList ↔
        MatchesRulesets plainComparison keywordMeta [("ruleset:ads.json", some [])] [] directPart "cd.com".toList) ↔
      Unclipped plainComparison keywordMeta [("ruleset:ads.json", some [])] [] directPart "cd.com".toList :=
  (aggregates_lossless_iff keywordDeriver plainComparison keywordMeta _ _ _).1 _ direct_keyword

theorem declared_keyword (h : Declared keywordDeriver keywordMeta [("ruleset:ads.json", some [])] [] directPart k s) :
    k = .keyword ∧ s = "ab#c" := by
  obtain ⟨name, info, hin, -, source, hsource, rules, hrules, rule, hrule, field, hfield, values, hvalues, hs⟩ := h
  obtain ⟨rfl, rfl⟩ := Prod.mk.inj (List.mem_singleton.mp hin)
  have hread : sourceOf keywordDeriver [("ruleset:ads.json", some [])] [] "ads"
      (.obj [("outbound", .str "direct"), ("format", .str "source")]) = some keywordSource := by decide
  rw [hread] at hsource
  obtain rfl := Option.some.inj hsource
  have hload : sourceRules keywordSource = some [keywordRule] := by decide
  rw [hload] at hrules
  obtain rfl := Option.some.inj hrules
  obtain rfl := List.mem_singleton.mp hrule
  cases k with
  | keyword =>
      cases hfield
      cases hvalues
      exact ⟨rfl, Json.str.inj (List.mem_singleton.mp hs)⟩
  | _ => cases hfield <;> cases hvalues

/-- The host name `ab.com` matches the file, but no ruleset. -/
theorem clipped_keyword : ¬∀ (D : Deriver) (C : Comparison D.site.lower) (m : RulesetMeta)
    (staged watched : Dict String (Option Bytes)) (host text : List Char),
      rulesetDirectBytes D m staged watched = .ok text →
        (C.Matches text host ↔ MatchesRulesets C m staged watched directPart host) := by
  intro hclaim
  have hsame := hclaim keywordDeriver plainComparison keywordMeta [("ruleset:ads.json", some [])] [] "ab.com".toList _ direct_keyword
  have hmatches : plainComparison.Matches
      "# pdg-bot 规则集手机本地直连聚合（事务派生；不要手工编辑）\nkeyword:ab#c\n".toList "ab.com".toList :=
    ⟨"keyword:ab#c".toList, by decide, .keyword, "ab".toList, by decide, ⟨[], ".com".toList, rfl⟩⟩
  obtain ⟨k, s, hdeclared, haccepts⟩ := hsame.mp hmatches
  obtain ⟨rfl, rfl⟩ := declared_keyword hdeclared
  have hinfix : "ab#c".toList <:+: "ab.com".toList := haccepts
  revert hinfix
  decide

end ProxyGateway.Ruleset
