import Mathlib.Data.List.DropRight

set_option autoImplicit false

/-!
# ProxyGateway.Lib.Base64

**Base64** with the alphabet for URLs. `decode` reads a padded text of the alphabet, and drops the bits of
the last group that make no byte, so several texts have one value; `encode` picks one of them
(`decode_encode`). `bare` is the encoding without its padding, which its length restores
(`bare_append_padding`).
-/

namespace ProxyGateway.Base64

/-! ### Characters -/

/-- The character of a value below 64. -/
def digit (n : Nat) : Char :=
  if n < 26 then Char.ofNat (65 + n)
  else if n < 52 then Char.ofNat (71 + n)
  else if n < 62 then Char.ofNat (n - 4)
  else if n = 62 then '-'
  else '_'

/-- The value of a character of the alphabet. -/
def value (c : Char) : Option Nat :=
  if 65 ≤ c.toNat ∧ c.toNat ≤ 90 then some (c.toNat - 65)
  else if 97 ≤ c.toNat ∧ c.toNat ≤ 122 then some (c.toNat - 71)
  else if 48 ≤ c.toNat ∧ c.toNat ≤ 57 then some (c.toNat + 4)
  else if c = '-' then some 62
  else if c = '_' then some 63
  else none

theorem value_digit : ∀ n < 64, value (digit n) = some n := by decide

theorem digit_ne_pad : ∀ n < 64, digit n ≠ '=' := by decide

theorem digit_alphabet : ∀ n < 64, ((digit n).isAlphanum || digit n = '-' || digit n = '_') = true := by decide

/-! ### Encoding and decoding -/

/-- `urlsafe_b64encode` -/
def encode : List UInt8 → List Char
  | [] => []
  | [x] => [digit (x.toNat / 4), digit (x.toNat % 4 * 16), '=', '=']
  | [x, y] => [digit (x.toNat / 4), digit (x.toNat % 4 * 16 + y.toNat / 16), digit (y.toNat % 16 * 4), '=']
  | x :: y :: z :: rest =>
      digit (x.toNat / 4) :: digit (x.toNat % 4 * 16 + y.toNat / 16) :: digit (y.toNat % 16 * 4 + z.toNat / 64) ::
        digit (z.toNat % 64) :: encode rest

/-- `urlsafe_b64decode`, of a text of the alphabet and padding. -/
def decode : List Char → Option (List UInt8)
  | [] => some []
  | a :: b :: c :: d :: rest =>
      if rest = [] ∧ d = '=' then
        if c = '=' then do
          let a ← value a
          let b ← value b
          return [UInt8.ofNat (a * 4 + b / 16)]
        else do
          let a ← value a
          let b ← value b
          let c ← value c
          return [UInt8.ofNat (a * 4 + b / 16), UInt8.ofNat (b % 16 * 16 + c / 4)]
      else do
        let a ← value a
        let b ← value b
        let c ← value c
        let d ← value d
        let rest ← decode rest
        return UInt8.ofNat (a * 4 + b / 16) :: UInt8.ofNat (b % 16 * 16 + c / 4) :: UInt8.ofNat (c % 4 * 64 + d) :: rest
  | _ => none

theorem ofNat_eq {x : UInt8} {n : Nat} (h : n = x.toNat) : UInt8.ofNat n = x := by
  rw [h, UInt8.ofNat_toNat]

theorem decode_encode (bytes : List UInt8) : decode (encode bytes) = some bytes := by
  induction bytes using encode.induct with
  | case1 => rfl
  | case2 x =>
      have hx := x.toNat_lt
      rw [encode, decode, if_pos ⟨rfl, rfl⟩, if_pos rfl, value_digit _ (by omega), value_digit _ (by omega)]
      exact congrArg some (congrArg (· :: []) (ofNat_eq (by omega)))
  | case3 x y =>
      have hx := x.toNat_lt
      have hy := y.toNat_lt
      rw [encode, decode, if_pos ⟨rfl, rfl⟩, if_neg (digit_ne_pad _ (by omega)), value_digit _ (by omega), value_digit _ (by omega),
        value_digit _ (by omega)]
      exact congrArg some (congrArg₂ (· :: · :: []) (ofNat_eq (by omega)) (ofNat_eq (by omega)))
  | case4 x y z rest ih =>
      have hx := x.toNat_lt
      have hy := y.toNat_lt
      have hz := z.toNat_lt
      have hfull : ¬ (encode rest = [] ∧ digit (z.toNat % 64) = '=') := fun h => digit_ne_pad _ (by omega) h.2
      rw [encode, decode, if_neg hfull, value_digit _ (by omega), value_digit _ (by omega), value_digit _ (by omega), value_digit _ (by omega), ih]
      have h1 : UInt8.ofNat (x.toNat / 4 * 4 + (x.toNat % 4 * 16 + y.toNat / 16) / 16) = x := ofNat_eq (by omega)
      have h2 : UInt8.ofNat ((x.toNat % 4 * 16 + y.toNat / 16) % 16 * 16 + (y.toNat % 16 * 4 + z.toNat / 64) / 4) = y :=
        ofNat_eq (by omega)
      have h3 : UInt8.ofNat ((y.toNat % 16 * 4 + z.toNat / 64) % 4 * 64 + z.toNat % 64) = z := ofNat_eq (by omega)
      exact congrArg some (by rw [h1, h2, h3])

/-! ### Without the padding -/

/-- The padding behind so many characters. -/
def padding (n : Nat) : List Char := List.replicate ((4 - n % 4) % 4) '='

/-- The encoding without its padding. -/
def bare : List UInt8 → List Char
  | [] => []
  | [x] => [digit (x.toNat / 4), digit (x.toNat % 4 * 16)]
  | [x, y] => [digit (x.toNat / 4), digit (x.toNat % 4 * 16 + y.toNat / 16), digit (y.toNat % 16 * 4)]
  | x :: y :: z :: rest =>
      digit (x.toNat / 4) :: digit (x.toNat % 4 * 16 + y.toNat / 16) :: digit (y.toNat % 16 * 4 + z.toNat / 64) ::
        digit (z.toNat % 64) :: bare rest

/-- Three bytes have four characters. -/
theorem length_bare (bytes : List UInt8) : (bare bytes).length = (bytes.length * 4 + 2) / 3 := by
  induction bytes using bare.induct with
  | case1 => rfl
  | case2 x => simp [bare]
  | case3 x y => simp [bare]
  | case4 x y z rest ih =>
      simp only [bare, List.length_cons, ih]
      omega

theorem bare_append_padding (bytes : List UInt8) : bare bytes ++ padding (bare bytes).length = encode bytes := by
  induction bytes using bare.induct with
  | case1 => rfl
  | case2 x => rfl
  | case3 x y => rfl
  | case4 x y z rest ih =>
      have hsame : padding ((bare rest).length + 4) = padding (bare rest).length := by
        rw [padding, padding, Nat.add_mod_right]
      simp only [bare, encode, List.length_cons, List.cons_append, List.cons.injEq, true_and]
      rw [hsame, ih]

/-- The characters of an encoding. -/
theorem mem_bare {bytes : List UInt8} {c : Char} (h : c ∈ bare bytes) : ∃ n < 64, c = digit n := by
  induction bytes using bare.induct with
  | case1 => cases h
  | case2 x =>
      have hx := x.toNat_lt
      simp only [bare, List.mem_cons, List.not_mem_nil, or_false] at h
      rcases h with rfl | rfl
      · exact ⟨_, by omega, rfl⟩
      · exact ⟨_, by omega, rfl⟩
  | case3 x y =>
      have hx := x.toNat_lt
      have hy := y.toNat_lt
      simp only [bare, List.mem_cons, List.not_mem_nil, or_false] at h
      rcases h with rfl | rfl | rfl
      · exact ⟨_, by omega, rfl⟩
      · exact ⟨_, by omega, rfl⟩
      · exact ⟨_, by omega, rfl⟩
  | case4 x y z rest ih =>
      have hx := x.toNat_lt
      have hy := y.toNat_lt
      have hz := z.toNat_lt
      simp only [bare, List.mem_cons] at h
      rcases h with rfl | rfl | rfl | rfl | h
      · exact ⟨_, by omega, rfl⟩
      · exact ⟨_, by omega, rfl⟩
      · exact ⟨_, by omega, rfl⟩
      · exact ⟨_, by omega, rfl⟩
      · exact ih h

/-- Without the padding at its end an encoding is bare. -/
theorem rdropWhile_encode (bytes : List UInt8) : (encode bytes).rdropWhile (· = '=') = bare bytes := by
  have hpad : ∀ n, (padding n).all (· = '=') = true := fun n => by
    rw [List.all_eq_true]
    exact fun c hc => by simp [List.eq_of_mem_replicate hc]
  rw [← bare_append_padding, List.rdropWhile, List.reverse_append]
  have hdrop : ∀ (pad cs : List Char), pad.all (· = '=') = true →
      (pad ++ cs).dropWhile (· = '=') = cs.dropWhile (· = '=') := by
    intro pad cs hall
    exact List.dropWhile_append_of_pos fun c hc => List.all_eq_true.mp hall c hc
  rw [hdrop _ _ (by rw [List.all_reverse]; exact hpad _)]
  have hkeep : (bare bytes).reverse.dropWhile (· = '=') = (bare bytes).reverse := by
    rw [List.dropWhile_eq_self_iff]
    intro hlength hfirst
    obtain ⟨n, hn, hchar⟩ := mem_bare (List.mem_reverse.mp (List.getElem_mem hlength))
    rw [hchar] at hfirst
    exact digit_ne_pad n hn (of_decide_eq_true hfirst)
  rw [hkeep, List.reverse_reverse]

/-- A bare encoding with the padding that its length asks for is decoded. -/
theorem decode_bare (bytes : List UInt8) : decode (bare bytes ++ padding (bare bytes).length) = some bytes := by
  rw [bare_append_padding, decode_encode]

end ProxyGateway.Base64
