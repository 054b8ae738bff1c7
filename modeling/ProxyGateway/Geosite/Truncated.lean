import ProxyGateway.Geosite.Decoded

set_option autoImplicit false

/-!
# ProxyGateway.Geosite.Truncated

A file that is cut is refused or gives the same output as the whole one (`main_of_prefix`): the
decoder refuses a cut inside a field, and where the cut is between two entries all wanted categories
stand in front of it or one is missing.
-/

namespace ProxyGateway.Geosite

open Py

variable {upper : String → String} {b data : List UInt8} {one : Nat × Nat × FieldValue}
  {fs : List (Nat × Nat × FieldValue)} {found : Found} {files : List (String × String)}
  {ss : List (Option String × List (Nat × String))}

/-! ### The entries of a file -/

/-- The entries of a file. -/
def sites (upper : String → String) (data : List UInt8) : Py String (List (Option String × List (Nat × String))) := do
  ((← fields data).filterMap (bytesOf 1)).mapM (site upper)

/-- What is found in the entries. -/
def foundIn (ss : List (Option String × List (Nat × String))) : Found :=
  ss.foldl Found.add ⟨want.map (fun w => (w.1, [])), []⟩

theorem foldlM_listField (fs : List (Nat × Nat × FieldValue)) (found : Found) :
    fs.foldlM (listField upper) found = (do return ((← (fs.filterMap (bytesOf 1)).mapM (site upper)).foldl Found.add found)) := by
  induction fs generalizing found with
  | nil => rfl
  | cons one fs ih =>
      rw [List.foldlM_cons, listField, List.filterMap_cons]
      cases bytesOf 1 one with
      | none => exact ih found
      | some b =>
          simp only [List.mapM_cons]
          cases site upper b with
          | error e => rfl
          | ok s =>
              have hrest := ih (found.add s)
              simp only [ok_bind] at hrest ⊢
              cases hmap : (fs.filterMap (bytesOf 1)).mapM (site upper) <;> rw [hmap] at hrest <;> exact hrest

theorem main_eq (upper : String → String) (data : List UInt8) :
    main upper data = (do written (foundIn (← sites upper data))) := by
  rw [main, sites]
  cases fields data with
  | error e => rfl
  | ok fs =>
      simp only [ok_bind, foldlM_listField]
      cases (fs.filterMap (bytesOf 1)).mapM (site upper) <;> rfl

/-- The entries in front of the cut are the first ones of the file. -/
theorem sites_append {tail : List UInt8} {front : List (Option String × List (Nat × String))}
    (h : sites upper b = .ok front) (hs : sites upper (b ++ tail) = .ok ss) : ∃ behind, ss = front ++ behind := by
  obtain ⟨fs, hfs, hfront⟩ := bind_eq_ok.mp h
  rw [sites, fields_append hfs] at hs
  obtain ⟨fs', htail, hs⟩ := bind_eq_ok.mp hs
  obtain ⟨rest, -, hrest⟩ := bind_eq_ok.mp htail
  rw [← pure_eq_ok.mp hrest, List.filterMap_append, List.mapM_append, hfront, ok_bind] at hs
  obtain ⟨behind, -, hbehind⟩ := bind_eq_ok.mp hs
  exact ⟨behind, (pure_eq_ok.mp hbehind).symm⟩

/-! ### What the wanted categories are found with -/

theorem add_some (found : Found) (cc : String) (domains : List (Nat × String)) : found.add (some cc, domains) =
    if cc ∈ want.map Prod.fst then ⟨Dict.set found.res cc domains, cc :: found.seen⟩ else found := rfl

theorem add_none (found : Found) (domains : List (Nat × String)) : found.add (none, domains) = found := rfl

theorem seen_add {s : Option String × List (Nat × String)} {cc : String} :
    cc ∈ (found.add s).seen ↔ cc ∈ found.seen ∨ (s.1 = some cc ∧ cc ∈ want.map Prod.fst) := by
  obtain ⟨code, domains⟩ := s
  cases code with
  | none => simp [add_none]
  | some code =>
      by_cases hwant : code ∈ want.map Prod.fst
      · rw [add_some, if_pos hwant, List.mem_cons, Option.some.injEq]
        constructor
        · rintro (rfl | hseen)
          · exact .inr ⟨rfl, hwant⟩
          · exact .inl hseen
        · rintro (hseen | ⟨rfl, -⟩)
          · exact .inr hseen
          · exact .inl rfl
      · rw [add_some, if_neg hwant, Option.some.injEq]
        constructor
        · exact .inl
        · rintro (hseen | ⟨rfl, hin⟩)
          · exact hseen
          · exact absurd hin hwant

theorem seen_foldl {cc : String} : cc ∈ (ss.foldl Found.add found).seen ↔
    cc ∈ found.seen ∨ (cc ∈ ss.filterMap Prod.fst ∧ cc ∈ want.map Prod.fst) := by
  induction ss generalizing found with
  | nil => simp
  | cons s ss ih =>
      rw [List.foldl_cons, ih, seen_add, List.filterMap_cons]
      cases hs : s.1 with
      | none => simp
      | some code =>
          simp only [Option.some.injEq, List.mem_cons]
          constructor
          · rintro ((hseen | ⟨rfl, hwant⟩) | ⟨hin, hwant⟩)
            · exact .inl hseen
            · exact .inr ⟨.inl rfl, hwant⟩
            · exact .inr ⟨.inr hin, hwant⟩
          · rintro (hseen | ⟨rfl | hin, hwant⟩)
            · exact .inl (.inl hseen)
            · exact .inl (.inr ⟨rfl, hwant⟩)
            · exact .inr ⟨hin, hwant⟩

/-- Entries of no wanted category change nothing. -/
theorem foldl_add_of_unwanted (h : ∀ cc ∈ ss.filterMap Prod.fst, cc ∉ want.map Prod.fst) :
    ss.foldl Found.add found = found := by
  induction ss generalizing found with
  | nil => rfl
  | cons s ss ih =>
      obtain ⟨code, domains⟩ := s
      rw [List.filterMap_cons] at h
      rw [List.foldl_cons]
      cases code with
      | none => exact ih h
      | some code =>
          obtain ⟨hcode, hrest⟩ := List.forall_mem_cons.mp h
          rw [add_some, if_neg hcode]
          exact ih hrest

theorem written_seen (h : written found = .ok files) {cc : String} (hcc : cc ∈ want.map Prod.fst) : cc ∈ found.seen := by
  unfold written at h
  split at h
  · next hbad =>
    by_contra hnot
    refine List.ne_nil_of_mem (List.mem_filter.mpr ⟨hcc, ?_⟩) hbad
    simp [hnot]
  · cases h

/-- A file that is cut gives an exception or the output of the whole file. -/
theorem main_of_prefix {p : List UInt8} ( hprefix : p <+: data) (hsites : sites upper data = .ok ss)
    (honce : (ss.filterMap Prod.fst).Nodup) : (∃ e, main upper p = .error e) ∨ main upper p = main upper data := by
  obtain ⟨tail, rfl⟩ := hprefix
  cases hmain : main upper p with
  | error e => exact .inl ⟨e, rfl⟩
  | ok files =>
      refine .inr ?_
      rw [main_eq] at hmain
      obtain ⟨front, hfront, hwritten⟩ := bind_eq_ok.mp hmain
      obtain ⟨behind, rfl⟩ := sites_append hfront hsites
      -- every wanted category stands in front of the cut
      have hunwanted : ∀ cc ∈ behind.filterMap Prod.fst, cc ∉ want.map Prod.fst := by
        intro cc hbehind hwant
        have hseen := written_seen hwritten hwant
        rw [foundIn, seen_foldl] at hseen
        obtain ⟨hin, -⟩ := hseen.resolve_left (List.not_mem_nil)
        rw [List.filterMap_append, List.nodup_append] at honce
        exact honce.2.2 cc hin cc hbehind rfl
      have hsame : foundIn (front ++ behind) = foundIn front := by
        rw [foundIn, List.foldl_append, foldl_add_of_unwanted hunwanted, foundIn]
      rw [main_eq, hsites, ok_bind, hsame, hwritten]

/-- A file with every category once is not taken for a shorter one where it is cut; a number is read
from one to ten bytes or refused, and every 64-bit number is read back from each of its widths. -/
theorem truncated_refused (upper : String → String) :
    (∀ data ss, sites upper data = .ok ss → (ss.filterMap Prod.fst).Nodup → ∀ p, p <+: data →
      (∃ e, main upper p = .error e) ∨ main upper p = main upper data) ∧
      (∀ b, (∃ e, rv b = .error e) ∨ ∃ n taken rest, rv b = .ok (n, rest) ∧ b = taken ++ rest ∧
        0 < taken.length ∧ taken.length ≤ 10) ∧
      ∀ width n rest, Wire.Fits width n → rv (Wire.varint width n ++ rest) = .ok (n, rest) := by
  refine ⟨fun data ss hsites honce p hprefix => main_of_prefix hprefix hsites honce, fun b => ?_,
    fun width n rest hfits => rv_varint hfits⟩
  cases hrv : rv b with
  | error e => exact .inl ⟨e, rfl⟩
  | ok read =>
      obtain ⟨n, rest⟩ := read
      obtain ⟨taken, hsplit, hpos, hle, -⟩ := rv_taken hrv
      exact .inr ⟨n, taken, rest, rfl, hsplit, hpos, hle⟩

/-- A file with the code `CN` and no domains, cut inside the entry. -/
theorem truncated_refused_entry : (∃ e, main id [10, 4, 10] = .error e) ∨ main id [10, 4, 10] = main id [10, 4, 10, 2, 67, 78] := by
  have hsites : sites id [10, 4, 10, 2, 67, 78] = .ok [(some "CN", [])] := rfl
  exact (truncated_refused id).1 _ _ hsites (by decide) _ ⟨[2, 67, 78], rfl⟩

end ProxyGateway.Geosite
