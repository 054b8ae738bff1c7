import ProxyGateway.Profile.Resolve
import Mathlib.Tactic.IntervalCases

set_option autoImplicit false

/-!
# ProxyGateway.Profile.Written

The numbers and port lists that `profile_lines` writes are read back by the readers of `resolve`.
-/

namespace ProxyGateway.Profile

open Text Render Py

variable {n : Nat} {ports : List Nat} {name : String}

/-! ### Decimal numbers -/

theorem space_of_isDigit {c : Char} (h : c.isDigit = true) : isSpace c = false := by
  simp only [Char.isDigit, Bool.and_eq_true, decide_eq_true_eq, ge_iff_le, UInt32.le_iff_toNat_le] at h
  change 48 ≤ c.toNat ∧ c.toNat ≤ 57 at h
  simp only [isSpace, Bool.or_eq_false_iff, Bool.and_eq_false_iff, decide_eq_false_iff_not, beq_eq_false_iff_ne]
  omega

theorem isDigit_toDigits {c : Char} (h : c ∈ Nat.toDigits 10 n) : c.isDigit = true :=
  Nat.isDigit_of_mem_toDigits (by omega) (by omega) h

theorem decimal_toDigits (n : Nat) : decimal (Nat.toDigits 10 n) = n := by
  have h : Nat.ofDigitChars 10 (Nat.toDigits 10 n) 0 = n := Nat.ofDigitChars_ten_toDigits
  rwa [Nat.ofDigitChars_eq_foldl] at h

/-- A number of 32 bits is converted. -/
theorem intOf_toDigits (h : n ≤ 0xffffffff) : intOf (Nat.toDigits 10 n) = .ok (n : Int) := by
  have hlength : (Nat.toDigits 10 n).length ≤ 10 := (Nat.length_toDigits_le_iff (by omega) (by omega)).mpr (by omega)
  have hshort : ¬maxDigits < (Nat.toDigits 10 n).length := by
    rw [maxDigits]
    omega
  rw [intOf, if_neg hshort, decimal_toDigits]

/-- The first digit of a number is not `0`. -/
theorem head_toDigits (h : 1 ≤ n) : ∃ c, (Nat.toDigits 10 n).head? = some c ∧ c.isDigit = true ∧ c ≠ '0' := by
  induction n using Nat.strong_induction_on with
  | _ n ih =>
      by_cases hsmall : n < 10
      · rw [Nat.toDigits_of_lt_base hsmall]
        refine ⟨n.digitChar, rfl, isDigit_toDigits (n := n) ?_, ?_⟩
        · rw [Nat.toDigits_of_lt_base hsmall]
          exact List.mem_singleton_self _
        · interval_cases n <;> decide
      · obtain ⟨c, hhead, hc⟩ := ih (n / 10) (by omega) (by omega)
        refine ⟨c, ?_, hc⟩
        rw [Nat.toDigits_of_base_le (by omega) (by omega), List.head?_append, hhead]
        rfl

theorem uintRe_toDigits (h : 1 ≤ n) : uintRe (Nat.toDigits 10 n) = true := by
  obtain ⟨c, hhead, hdigit, hzero⟩ := head_toDigits h
  have hall : (Nat.toDigits 10 n).all Char.isDigit = true := List.all_eq_true.mpr fun _ => isDigit_toDigits
  simp [uintRe, hhead, hdigit, hzero, hall]

theorem strip_toDigits (n : Nat) : strip (Nat.toDigits 10 n) = Nat.toDigits 10 n :=
  strip_eq_self fun _ hc => space_of_isDigit (isDigit_toDigits hc)

theorem uint_decimalText {maximum : Nat} {forbidden : List Nat} (hpos : 1 ≤ n) (hle : n ≤ maximum)
    (hmax : maximum ≤ 0xffffffff) (hallowed : n ∉ forbidden) : uint (decimalText n) name maximum forbidden = .ok n := by
  have hrange : (decide ((n : Int) < 1) || decide ((maximum : Int) < (n : Int)) || decide ((n : Int).toNat ∈ forbidden)) = false := by
    simp only [Int.toNat_natCast, hallowed, decide_false, Bool.or_false, Bool.or_eq_false_iff, decide_eq_false_iff_not]
    omega
  rw [uint, decimalText, String.toList_ofList, strip_toDigits, uintRe_toDigits hpos, intOf_toDigits (by omega)]
  simp only [ok_bind, raiseIf, Bool.not_true, Bool.false_eq_true, if_false, hrange]
  rfl

/-! ### Hexadecimal numbers -/

theorem hexValue_digitChar (h : n < 16) : hexValue n.digitChar = some n := by
  interval_cases n <;> decide

theorem hexDigits_toDigits (n : Nat) : ∃ digits, (Nat.toDigits 16 n).mapM hexValue = some digits ∧
    digits.foldl (fun m d => 16 * m + d) 0 = n := by
  induction n using Nat.strong_induction_on with
  | _ n ih =>
      by_cases hsmall : n < 16
      · refine ⟨[n], ?_, by simp⟩
        rw [Nat.toDigits_of_lt_base hsmall]
        simp [hexValue_digitChar hsmall]
      · obtain ⟨digits, hdigits, hvalue⟩ := ih (n / 16) (by omega)
        refine ⟨digits ++ [n % 16], ?_, ?_⟩
        · rw [Nat.toDigits_of_base_le (by omega) (by omega)]
          simp [List.mapM_append, hdigits, hexValue_digitChar (Nat.mod_lt n (by omega : 16 > 0))]
        · rw [List.foldl_append, hvalue]
          exact Nat.div_add_mod n 16

theorem hexValue_toDigits {c : Char} (h : c ∈ Nat.toDigits 16 n) : ∃ d, hexValue c = some d := by
  induction n using Nat.strong_induction_on with
  | _ n ih =>
      by_cases hsmall : n < 16
      · rw [Nat.toDigits_of_lt_base hsmall, List.mem_singleton] at h
        exact ⟨n, h ▸ hexValue_digitChar hsmall⟩
      · rw [Nat.toDigits_of_base_le (by omega) (by omega), List.mem_append, List.mem_singleton] at h
        rcases h with h | rfl
        · exact ih (n / 16) (by omega) h
        · exact ⟨n % 16, hexValue_digitChar (Nat.mod_lt n (by omega))⟩

theorem space_of_hexValue {c : Char} {d : Nat} (h : hexValue c = some d) : isSpace c = false := by
  have hrange : 48 ≤ c.toNat ∧ c.toNat ≤ 102 := by
    unfold hexValue at h
    split at h
    · next hdigit =>
      simp only [Char.isDigit, Bool.and_eq_true, decide_eq_true_eq, ge_iff_le, UInt32.le_iff_toNat_le] at hdigit
      change 48 ≤ c.toNat ∧ c.toNat ≤ 57 at hdigit
      omega
    · split at h
      · next hlower =>
        change 97 ≤ c.toNat ∧ c.toNat ≤ 102 at hlower
        omega
      · split at h
        · next hupper =>
          change 65 ≤ c.toNat ∧ c.toNat ≤ 70 at hupper
          omega
        · cases h
  simp only [isSpace, Bool.or_eq_false_iff, Bool.and_eq_false_iff, decide_eq_false_iff_not, beq_eq_false_iff_ne]
  omega

theorem strip_hexText (n : Nat) : strip (hexText n).toList = '0' :: 'x' :: Nat.toDigits 16 n := by
  rw [hexText, String.toList_ofList]
  refine strip_eq_self fun c hc => ?_
  rcases List.mem_cons.mp hc with rfl | hc
  · decide
  · rcases List.mem_cons.mp hc with rfl | hc
    · decide
    · obtain ⟨d, hd⟩ := hexValue_toDigits hc
      exact space_of_hexValue hd

theorem mark_hexText (hpos : 1 ≤ n) (hle : n ≤ 0xffffffff) : mark (hexText n) name = .ok n := by
  obtain ⟨digits, hdigits, hvalue⟩ := hexDigits_toDigits n
  have hread : hexDigits ('0' :: 'x' :: Nat.toDigits 16 n) = some digits := by
    rw [hexDigits, if_pos ⟨.inl rfl, Nat.toDigits_ne_nil⟩, hdigits]
  have hrange : (decide (n < 1) || decide (0xffffffff < n)) = false := by
    simp only [Bool.or_eq_false_iff, decide_eq_false_iff_not]
    omega
  rw [mark, strip_hexText, markNumber, hread]
  simp only [ok_bind, hvalue, raiseIf, hrange, Bool.false_eq_true, if_false]
  rfl

/-! ### Port lists -/

/-- A character of a port list is a digit or a comma. -/
theorem mem_portsText {c : Char} (h : c ∈ (portsText ports).toList) : c = ',' ∨ c.isDigit = true := by
  rw [portsText, String.toList_ofList] at h
  refine (mem_of_mem_joinWith h).imp_right fun ⟨digits, hin, hc⟩ => ?_
  obtain ⟨port, -, rfl⟩ := List.mem_map.mp hin
  exact isDigit_toDigits hc

theorem space_portsText {c : Char} (h : c ∈ (portsText ports).toList) : isSpace c = false := by
  rcases mem_portsText h with rfl | hdigit
  · decide
  · exact space_of_isDigit hdigit

theorem portWords_joinWith {words : List (List Char)} (hne : words ≠ [])
    (hwords : ∀ word ∈ words, word ≠ [] ∧ ∀ c ∈ word, c.isDigit = true) : portWords (joinWith ',' words) = some words := by
  have hsplit : splitAt ',' (joinWith ',' words) = words :=
    splitAt_joinWith hne fun word hin hcomma => absurd ((hwords word hin).2 ',' hcomma) (by decide)
  have hpieces : words.map (fun piece => (piece.splitOnP isBlank).filter (fun word => !word.isEmpty)) =
      words.map (fun word => [word]) := by
    refine List.map_congr_left fun word hin => ?_
    obtain ⟨hfull, hdigits⟩ := hwords word hin
    have hblank : ∀ c ∈ word, isBlank c = false := by
      intro c hc
      by_contra hno
      have hyes : isBlank c = true := by simpa using hno
      have hspace : isSpace c = true := by
        simp only [isBlank, Bool.or_eq_true, decide_eq_true_eq] at hyes
        rcases hyes with ((rfl | rfl) | rfl) | rfl <;> decide
      rw [space_of_isDigit (hdigits c hc)] at hspace
      cases hspace
    rw [List.splitOnP_eq_singleton hblank]
    simp [hfull]
  rw [portWords, hsplit, hpieces, if_pos]
  · rw [← List.flatMap_def, List.flatMap_singleton']
  · rw [List.all_map, List.all_eq_true]
    intro word hin
    simpa using (hwords word hin).2

theorem rawPorts_portsText (h : Ports ports) : rawPorts name (.str (portsText ports)) = .ok (ports.map Int.ofNat) := by
  have hstrip : strip (portsText ports).toList = joinWith ',' (ports.map (Nat.toDigits 10)) := by
    rw [strip_eq_self fun _ => space_portsText, portsText, String.toList_ofList]
  have hwords : portWords (joinWith ',' (ports.map (Nat.toDigits 10))) = some (ports.map (Nat.toDigits 10)) := by
    refine portWords_joinWith (by simpa using h.nonempty) fun word hin => ?_
    obtain ⟨port, -, rfl⟩ := List.mem_map.mp hin
    exact ⟨Nat.toDigits_ne_nil, fun _ => isDigit_toDigits⟩
  rw [rawPorts, hstrip, hwords]
  apply mapM_of_forall₂
  rw [List.forall₂_map_left_iff, List.forall₂_map_right_iff, List.forall₂_same]
  intro port hport
  have := h.range port hport
  exact intOf_toDigits (by omega)

theorem parsePortList_portsText (h : Ports ports) : parsePortList (.str (portsText ports)) name = .ok ports :=
  parsePortList_of_raw h (rawPorts_portsText h)

end ProxyGateway.Profile
