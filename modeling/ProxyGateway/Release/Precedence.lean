import ProxyGateway.Release.Version

set_option autoImplicit false

/-!
# ProxyGateway.Release.Precedence

`pdg_release_semver_cmp` compares the precedence of versions. Each of its comparisons is shown to be
the one of its part, and the parts are put together as the orders of the precedence are.
-/

namespace ProxyGateway.Release

open Text (splitAt joinWith)

variable {a b : List Char} {n m : Number} {o o' : Ordering}

/-! ### Numbers -/

/-- The number of a text of digits. -/
theorem value_cons (c : Char) (cs : List Char) :
    Nat.ofDigitChars 10 (c :: cs) 0 = 10 ^ cs.length * (c.toNat - '0'.toNat) + Nat.ofDigitChars 10 cs 0 := by
  rw [Nat.ofDigitChars_cons, Nat.ofDigitChars_eq_ofDigitChars_zero]
  simp

theorem value_lt_pow (h : ∀ c ∈ a, c ∈ digits) : Nat.ofDigitChars 10 a 0 < 10 ^ a.length := by
  induction a with
  | nil => decide
  | cons c cs ih =>
      obtain ⟨hc, hcs⟩ := List.forall_mem_cons.mp h
      have hdigit : ∀ c ∈ digits, c.toNat - '0'.toNat ≤ 9 := Text.forall_of_all (by decide)
      have hfirst := Nat.mul_le_mul_left (10 ^ cs.length) (hdigit c hc)
      have hrest := ih hcs
      rw [value_cons, List.length_cons, pow_succ]
      omega

/-- Texts of the same length are ordered as their numbers are. -/
theorem lt_iff_value_lt (ha : ∀ c ∈ a, c ∈ digits) (hb : ∀ c ∈ b, c ∈ digits) (hlength : a.length = b.length) :
    a < b ↔ Nat.ofDigitChars 10 a 0 < Nat.ofDigitChars 10 b 0 := by
  induction a generalizing b with
  | nil =>
      rw [List.length_nil] at hlength
      rw [List.eq_nil_of_length_eq_zero hlength.symm]
      simp
  | cons c cs ih =>
      cases b with
      | nil => cases hlength
      | cons d ds =>
          obtain ⟨hc, hcs⟩ := List.forall_mem_cons.mp ha
          obtain ⟨hd, hds⟩ := List.forall_mem_cons.mp hb
          have hsame : cs.length = ds.length := Nat.succ.inj hlength
          have hzero : ∀ c ∈ digits, '0'.toNat ≤ c.toNat := Text.forall_of_all (by decide)
          have hczero := hzero c hc
          have hdzero := hzero d hd
          have horder : c < d ↔ c.toNat - '0'.toNat < d.toNat - '0'.toNat := by
            show c.toNat < d.toNat ↔ _
            omega
          have hinj : c.toNat - '0'.toNat = d.toNat - '0'.toNat → c = d := fun heq =>
            Char.toNat_inj.mp (by omega)
          have hcs' := value_lt_pow hcs
          have hds' := value_lt_pow hds
          rw [List.cons_lt_cons_iff, ih hcs hds hsame, horder, value_cons, value_cons, hsame]
          rw [hsame] at hcs'
          rcases lt_trichotomy (c.toNat - '0'.toNat) (d.toNat - '0'.toNat) with hlt | heq | hgt
          · -- the first digits decide
            have hmore := Nat.mul_le_mul_left (10 ^ ds.length) (Nat.succ_le_of_lt hlt)
            rw [Nat.mul_succ] at hmore
            exact iff_of_true (.inl hlt) (by omega)
          · have hcd := hinj heq
            rw [heq]
            simp [hcd]
          · have hmore := Nat.mul_le_mul_left (10 ^ ds.length) (Nat.succ_le_of_lt hgt)
            rw [Nat.mul_succ] at hmore
            refine iff_of_false ?_ (by omega)
            rintro (hlt | ⟨rfl, -⟩)
            · exact lt_asymm hlt hgt
            · exact lt_irrefl _ hgt

/-- A number keeps its text. -/
theorem orZero_number (n : Number) : orZero (dropZeros n.text) = n.text := by
  have hdrop : dropZeros n.text = n.text := by
    rcases n.canonical with hzero | hhead
    · rw [hzero]
      rfl
    · unfold dropZeros
      split
      next htext => exact absurd (by rw [htext]; rfl) hhead
      · rfl
  rw [hdrop, orZero, if_neg n.nonempty]

/-- A longer number is greater. -/
theorem value_lt_of_length (h : n.text.length < m.text.length) : n.value < m.value := by
  refine (value_lt_pow n.digits).trans_le ?_
  obtain ⟨c, cs, htext⟩ := List.exists_cons_of_ne_nil m.nonempty
  have hlong : n.text.length ≤ cs.length := by
    rw [htext] at h
    exact Nat.le_of_lt_succ h
  have hnonzero : 1 ≤ c.toNat - '0'.toNat := by
    have hc := m.digits c (htext ▸ List.mem_cons_self)
    have hdigit : ∀ c ∈ digits, c ≠ '0' → 1 ≤ c.toNat - '0'.toNat := Text.forall_of_all (by decide)
    refine hdigit c hc fun heq => ?_
    rcases m.canonical with hzero | hhead
    · rw [hzero, List.length_singleton] at h
      have hsome := List.length_pos_of_ne_nil n.nonempty
      omega
    · exact hhead (by rw [htext, heq]; rfl)
  have hpow := Nat.pow_le_pow_right (by decide : 0 < 10) hlong
  have hmul := Nat.mul_le_mul_left (10 ^ cs.length) hnonzero
  rw [Number.value, htext, value_cons]
  omega

/-- `_pdg_release_num_cmp` compares the numbers. -/
theorem numCmp_compares (n m : Number) : (releaseNumCmp n.text m.text).Compares n.value m.value := by
  unfold releaseNumCmp
  rw [orZero_number, orZero_number]
  dsimp only
  split
  next hgt => exact value_lt_of_length hgt
  next hle =>
    split
    next hlt => exact value_lt_of_length hlt
    next hge =>
      have hlength : n.text.length = m.text.length := by omega
      split
      next hgt => exact (lt_iff_value_lt m.digits n.digits hlength.symm).mp hgt
      next hngt =>
        split
        next hlt => exact (lt_iff_value_lt n.digits m.digits hlength).mp hlt
        next hnlt =>
          rw [lt_iff_value_lt m.digits n.digits hlength.symm] at hngt
          rw [lt_iff_value_lt n.digits m.digits hlength] at hnlt
          exact le_antisymm (not_lt.mp hngt) (not_lt.mp hnlt)

/-! ### Parts put together -/

section Parts

variable {α β : Type} [LinearOrder α] [LinearOrder β] {x x' : α} {y y' : β} {xs xs' : List α}

/-- The first part decides, unless it is the same. -/
theorem then_compares (h : o.Compares x x') (h' : o'.Compares y y') :
    (o.then o').Compares (toLex (x, y)) (toLex (x', y')) := by
  cases o with
  | lt => exact Prod.Lex.toLex_lt_toLex.mpr (.inl h)
  | gt => exact Prod.Lex.toLex_lt_toLex.mpr (.inl h)
  | eq =>
      obtain rfl : x = x' := h
      cases o' with
      | lt => exact Prod.Lex.toLex_lt_toLex.mpr (.inr ⟨rfl, h'⟩)
      | gt => exact Prod.Lex.toLex_lt_toLex.mpr (.inr ⟨rfl, h'⟩)
      | eq =>
          obtain rfl : y = y' := h'
          rfl

/-- The first identifier decides, unless it is the same. -/
theorem cons_compares (h : o.Compares x x') (h' : o'.Compares xs xs') : (o.then o').Compares (x :: xs) (x' :: xs') := by
  cases o with
  | lt => exact List.cons_lt_cons_iff.mpr (.inl h)
  | gt => exact List.cons_lt_cons_iff.mpr (.inl h)
  | eq =>
      obtain rfl : x = x' := h
      cases o' with
      | lt => exact List.cons_lt_cons_iff.mpr (.inr ⟨rfl, h'⟩)
      | gt => exact List.cons_lt_cons_iff.mpr (.inr ⟨rfl, h'⟩)
      | eq =>
          obtain rfl : xs = xs' := h'
          rfl

/-- What keeps the order keeps the comparison. -/
theorem map_compares {f : α → β} (hf : StrictMono f) (h : o.Compares x x') : o.Compares (f x) (f x') := by
  cases o with
  | lt => exact hf h
  | gt => exact hf h
  | eq => exact congrArg f h

/-- A comparison by `<` both ways. -/
theorem lex_compares (x x' : α) [Decidable (x' < x)] [Decidable (x < x')] :
    (if x' < x then Ordering.gt else if x < x' then .lt else .eq).Compares x x' := by
  split
  next hgt => exact hgt
  next hle =>
    split
    next hlt => exact hlt
    next hge => exact le_antisymm (not_lt.mp hle) (not_lt.mp hge)

theorem compare_eq (h : o.Compares x x') : o = compare x x' := by
  cases o with
  | lt => exact (compare_lt_iff_lt.mpr h).symm
  | gt => exact (compare_gt_iff_gt.mpr h).symm
  | eq => exact (compare_eq_iff_eq.mpr h).symm

end Parts

/-! ### Versions -/

/-- What the loop makes of two identifiers. -/
def identifierCmp (li ri : List Char) : Ordering :=
  if isNumeric li && isNumeric ri then releaseNumCmp li ri
  else if isNumeric li then .lt
  else if isNumeric ri then .gt
  else if ri < li then .gt
  else if li < ri then .lt
  else .eq

theorem preCmp_cons (li ri : List Char) (lparts rparts : List (List Char)) :
    preCmp (li :: lparts) (ri :: rparts) = (identifierCmp li ri).then (preCmp lparts rparts) := by
  rw [preCmp, identifierCmp]
  split
  · cases releaseNumCmp li ri <;> rfl
  · repeat' split
    all_goals rfl

/-- Identifiers are compared as SemVer has it. -/
theorem identifierCmp_compares (l r : Identifier) : (identifierCmp l.text r.text).Compares l.rank r.rank := by
  cases l with
  | number n =>
      cases r with
      | number m =>
          have hnumbers := numCmp_compares n m
          simp only [identifierCmp, Identifier.text, isNumeric_number, Bool.and_self, if_true]
          exact map_compares (f := fun k => (toLex (.inl k) : ℕ ⊕ₗ List Char))
            (fun _ _ h => Sum.Lex.inl_lt_inl_iff.mpr h) hnumbers
      | word w =>
          simp only [identifierCmp, Identifier.text, isNumeric_number, isNumeric_word, Bool.and_false, if_true]
          exact Sum.Lex.inl_lt_inr _ _
  | word w =>
      cases r with
      | number m =>
          simp only [identifierCmp, Identifier.text, isNumeric_number, isNumeric_word, Bool.false_and, if_true]
          exact Sum.Lex.inl_lt_inr _ _
      | word u =>
          have hwords := lex_compares w.text u.text
          simp only [identifierCmp, Identifier.text, isNumeric_word, Bool.and_self, Bool.false_eq_true, if_false]
          exact map_compares (f := fun t => (toLex (.inr t) : ℕ ⊕ₗ List Char))
            (fun _ _ h => Sum.Lex.inr_lt_inr_iff.mpr h) hwords

/-- The loop over the identifiers of two pre-releases. -/
theorem preCmp_compares (l r : List Identifier) :
    (preCmp (l.map Identifier.text) (r.map Identifier.text)).Compares (l.map Identifier.rank) (r.map Identifier.rank) := by
  induction l generalizing r with
  | nil =>
      cases r with
      | nil => exact rfl
      | cons ri r => exact List.nil_lt_cons _ _
  | cons li l ih =>
      cases r with
      | nil => exact List.nil_lt_cons _ _
      | cons ri r =>
          rw [List.map_cons, List.map_cons, preCmp_cons]
          exact cons_compares (α := ℕ ⊕ₗ List Char) (identifierCmp_compares li ri) (ih r)

/-- The loop over the numbers of the core. -/
theorem coreCmp_eq (v u : Version) :
    coreCmp [v.major.text, v.minor.text, v.patch.text] [u.major.text, u.minor.text, u.patch.text] [0, 1, 2] =
      (releaseNumCmp v.major.text u.major.text).then
        ((releaseNumCmp v.minor.text u.minor.text).then (releaseNumCmp v.patch.text u.patch.text)) := by
  simp only [coreCmp, List.getD_cons_zero, List.getD_cons_succ]
  cases releaseNumCmp v.major.text u.major.text with
  | lt => rfl
  | gt => rfl
  | eq =>
      cases releaseNumCmp v.minor.text u.minor.text with
      | lt => rfl
      | gt => rfl
      | eq => cases releaseNumCmp v.patch.text u.patch.text <;> rfl

theorem splitAt_core (v : Version) : splitAt '.' v.core = [v.major.text, v.minor.text, v.patch.text] := by
  refine Text.splitAt_joinWith (List.cons_ne_nil _ _) fun piece hpiece hin => ?_
  have hdot : '.' ∉ digits := by decide
  simp only [List.mem_cons, List.not_mem_nil, or_false] at hpiece
  rcases hpiece with rfl | rfl | rfl
  · exact hdot (v.major.digits _ hin)
  · exact hdot (v.minor.digits _ hin)
  · exact hdot (v.patch.digits _ hin)

/-- The pre-release of a version, and the pieces of its text. -/
theorem pre_text (v : Version) :
    (joinWith '.' (v.pre.map Identifier.text) = [] ↔ v.pre = []) ∧
    (v.pre ≠ [] → splitAt '.' (joinWith '.' (v.pre.map Identifier.text)) = v.pre.map Identifier.text) := by
  have hpieces : ∀ piece ∈ v.pre.map Identifier.text, IsIdentifier piece := by
    intro piece hpiece
    obtain ⟨ident, -, rfl⟩ := List.mem_map.mp hpiece
    exact isIdentifier_text ident
  refine ⟨⟨fun hnil => ?_, fun hnil => by rw [hnil]; rfl⟩, fun hne => ?_⟩
  · by_contra hne
    exact joinWith_ne_nil (fun h => hne (List.map_eq_nil_iff.mp h)) hpieces hnil
  · exact Text.splitAt_joinWith (fun h => hne (List.map_eq_nil_iff.mp h)) fun piece hpiece hin =>
      absurd ((hpieces piece hpiece).2 '.' hin) (by decide)

/-- What is compared once the cores are the same. -/
def releaseCmp (v u : Version) : Ordering :=
  if v.pre = [] then if u.pre = [] then .eq else .gt
  else if u.pre = [] then .lt
  else preCmp (v.pre.map Identifier.text) (u.pre.map Identifier.text)

/-- What a version is compared by once the cores are the same. -/
def Version.rank (v : Version) : WithTop (List (ℕ ⊕ₗ List Char)) :=
  if v.pre = [] then ⊤ else (v.pre.map Identifier.rank : List (ℕ ⊕ₗ List Char))

theorem releaseCmp_compares (v u : Version) : (releaseCmp v u).Compares v.rank u.rank := by
  unfold releaseCmp Version.rank
  by_cases hv : v.pre = []
  · by_cases hu : u.pre = []
    · simp [hv, hu, Ordering.Compares]
    · rw [if_pos hv, if_neg hu, if_pos hv, if_neg hu]
      exact WithTop.coe_lt_top _
  · by_cases hu : u.pre = []
    · rw [if_neg hv, if_pos hu, if_neg hv, if_pos hu]
      exact WithTop.coe_lt_top _
    · rw [if_neg hv, if_neg hu, if_neg hv, if_neg hu]
      exact map_compares WithTop.coe_strictMono (preCmp_compares v.pre u.pre)

/-- The comparison of two tags is the one of their precedence. -/
theorem semverCmp_text (v u : Version) : releaseSemverCmp v.text u.text = some (compare v.precedence u.precedence) := by
  have hcompares : ((releaseNumCmp v.major.text u.major.text).then ((releaseNumCmp v.minor.text u.minor.text).then
      ((releaseNumCmp v.patch.text u.patch.text).then (releaseCmp v u)))).Compares v.precedence u.precedence :=
    then_compares (numCmp_compares _ _) (then_compares (numCmp_compares _ _)
      (then_compares (numCmp_compares _ _) (releaseCmp_compares v u)))
  have hrest : (if joinWith '.' (v.pre.map Identifier.text) = [] then
        some (if joinWith '.' (u.pre.map Identifier.text) = [] then Ordering.eq else .gt)
      else if joinWith '.' (u.pre.map Identifier.text) = [] then some .lt
      else some (preCmp (splitAt '.' (joinWith '.' (v.pre.map Identifier.text)))
        (splitAt '.' (joinWith '.' (u.pre.map Identifier.text))))) = some (releaseCmp v u) := by
    simp only [(pre_text v).1, (pre_text u).1, releaseCmp]
    by_cases hv : v.pre = []
    · simp [hv]
    · by_cases hu : u.pre = []
      · simp [hv, hu]
      · simp [hv, hu, (pre_text v).2 hv, (pre_text u).2 hu]
  have hcode : releaseSemverCmp v.text u.text = some ((releaseNumCmp v.major.text u.major.text).then
      ((releaseNumCmp v.minor.text u.minor.text).then
      ((releaseNumCmp v.patch.text u.patch.text).then (releaseCmp v u)))) := by
    rw [releaseSemverCmp, parse_text, parse_text]
    simp only [Option.bind_eq_bind, Option.bind_some]
    rw [splitAt_core, splitAt_core, coreCmp_eq]
    simp only [← Ordering.then_assoc]
    cases ((releaseNumCmp v.major.text u.major.text).then (releaseNumCmp v.minor.text u.minor.text)).then
      (releaseNumCmp v.patch.text u.patch.text) with
    | lt => rfl
    | gt => rfl
    | eq => exact hrest
  rw [hcode, compare_eq hcompares]

end ProxyGateway.Release
