import ProxyGateway.Geosite.Parse
import ProxyGateway.Lib.Wire

set_option autoImplicit false

/-!
# ProxyGateway.Geosite.Decoded

The decoder on the wire format: it reads a number of any width and a field of any wire type back, it
reads the fields of a message in order (`fields_encode`), and of a message that is cut at a field it
reads what is there (`fields_append`).
-/

namespace ProxyGateway.Geosite

open Py

variable {turns shift result n width : Nat} {b rest tail : List UInt8}

/-! ### Numbers -/

theorem low_bits (m : Nat) : m &&& 0x7f = m % 128 := Nat.and_two_pow_sub_one_eq_mod m 7

theorem high_bit {m : Nat} (h : m < 256) : m &&& 0x80 = m / 128 * 128 := by
  have hall : ∀ i : Fin 256, i.val &&& 0x80 = i.val / 128 * 128 := by decide +kernel
  exact hall ⟨m, h⟩

theorem or_shiftLeft (m : Nat) (h : result < 2 ^ shift) : result ||| (m <<< shift) = result + m * 2 ^ shift := by
  rw [Nat.shiftLeft_eq, Nat.or_comm, Nat.mul_comm, ← Nat.two_pow_add_eq_or_of_lt h, Nat.add_comm]

/-- One byte of a number. -/
theorem rvFrom_cons {value : Nat} (hvalue : value < 256) (h63 : shift = 63 → value ≤ 1) (hresult : result < 2 ^ shift) :
    rvFrom (turns + 1) shift result (UInt8.ofNat value :: rest) =
      if value < 128 then .ok (result + value * 2 ^ shift, rest)
      else rvFrom turns (shift + 7) (result + value % 128 * 2 ^ shift) rest := by
  have hnat : (UInt8.ofNat value).toNat = value := by
    rw [UInt8.toNat_ofNat']
    omega
  have hfits : ¬(shift = 63 ∧ value > 1) := fun h => by
    have := h63 h.1
    omega
  rw [rvFrom]
  simp only [hnat, hfits, if_false, low_bits, high_bit hvalue, or_shiftLeft (value % 128) hresult]
  by_cases hlast : value < 128
  · have hzero : value / 128 * 128 = 0 := by omega
    have hmod : value % 128 = value := by omega
    rw [if_pos hlast, if_pos hzero, hmod]
    rfl
  · have hone : ¬value / 128 * 128 = 0 := by omega
    rw [if_neg hlast, if_neg hone]

theorem rvFrom_varint (hpos : 0 < width) (hturns : width ≤ turns) (hshift : shift + 7 * turns = 70)
    (hresult : result < 2 ^ shift) (hn : n < 128 ^ width) (hword : n * 2 ^ shift < 2 ^ 64) :
    rvFrom turns shift result (Wire.varint width n ++ rest) = .ok (result + n * 2 ^ shift, rest) := by
  fun_induction Wire.varint generalizing turns shift result with
  | case1 => omega
  | case2 n =>
      obtain ⟨turns, rfl⟩ : ∃ t, turns = t + 1 := ⟨turns - 1, by omega⟩
      have hsmall : n < 128 := by simpa using hn
      have h63 : shift = 63 → n ≤ 1 := by
        rintro rfl
        omega
      rw [List.singleton_append, rvFrom_cons (by omega) h63 hresult, if_pos hsmall]
  | case3 width n ih =>
      obtain ⟨turns, rfl⟩ : ∃ t, turns = t + 1 := ⟨turns - 1, by omega⟩
      have hvalue : n % 128 + 128 < 256 := by omega
      have hmod : (n % 128 + 128) % 128 = n % 128 := by omega
      have hsplit : n % 128 * 2 ^ shift + n / 128 * 2 ^ (shift + 7) = n * 2 ^ shift := by
        have hpow : (2 : Nat) ^ (shift + 7) = 128 * 2 ^ shift := by rw [pow_add]; omega
        calc n % 128 * 2 ^ shift + n / 128 * 2 ^ (shift + 7)
            _ = (n % 128 + 128 * (n / 128)) * 2 ^ shift := by rw [hpow]; ring
            _ = n * 2 ^ shift := by rw [Nat.mod_add_div]
      have hnext : result + n % 128 * 2 ^ shift < 2 ^ (shift + 7) := by
        have hpow : (2 : Nat) ^ (shift + 7) = 128 * 2 ^ shift := by rw [pow_add]; omega
        have hlow : n % 128 * 2 ^ shift ≤ 127 * 2 ^ shift := Nat.mul_le_mul_right _ (by omega)
        omega
      have hdiv : n / 128 < 128 ^ (width + 1) := by
        rw [pow_succ] at hn
        omega
      have hrest : rvFrom turns (shift + 7) (result + n % 128 * 2 ^ shift) (Wire.varint (width + 1) (n / 128) ++ rest) =
          .ok (result + n % 128 * 2 ^ shift + n / 128 * 2 ^ (shift + 7), rest) :=
        ih (by omega) (by omega) (by omega) hnext hdiv (by omega)
      rw [List.cons_append, rvFrom_cons hvalue (by omega) hresult, if_neg (by omega), hmod, hrest, Nat.add_assoc, hsplit]

/-- The encoded number is read back, whatever its width. -/
theorem rv_varint (h : Wire.Fits width n) : rv (Wire.varint width n ++ rest) = .ok (n, rest) := by
  have hword := h.word
  have hread : rvFrom 10 0 0 (Wire.varint width n ++ rest) = .ok (0 + n * 2 ^ 0, rest) :=
    rvFrom_varint h.pos h.le (by omega) (by omega) h.lt (by omega)
  rw [rv, hread, Nat.zero_add, pow_zero, Nat.mul_one]

/-- What is read is one to ten bytes, and does not depend on what follows. -/
theorem rvFrom_taken (h : rvFrom turns shift result b = .ok (n, rest)) : ∃ taken, b = taken ++ rest ∧
    0 < taken.length ∧ taken.length ≤ turns ∧ ∀ tail, rvFrom turns shift result (taken ++ tail) = .ok (n, tail) := by
  induction turns generalizing shift result b with
  | zero => cases h
  | succ turns ih =>
      cases b with
      | nil => cases h
      | cons byte b =>
          rw [rvFrom] at h
          by_cases hbig : shift = 63 ∧ byte.toNat > 1
          · simp only [hbig, and_self, if_true] at h
            cases h
          · by_cases hlast : byte.toNat &&& 0x80 = 0
            · simp only [hbig, if_false, hlast, if_true] at h
              cases h
              refine ⟨[byte], rfl, by simp, by simp, fun tail => ?_⟩
              rw [List.singleton_append, rvFrom]
              simp only [hbig, if_false, hlast, if_true]
              rfl
            · simp only [hbig, if_false, hlast] at h
              obtain ⟨taken, rfl, hpos, hle, hread⟩ := ih h
              refine ⟨byte :: taken, rfl, by simp, by simpa using hle, fun tail => ?_⟩
              rw [List.cons_append, rvFrom]
              simp only [hbig, if_false, hlast]
              exact hread tail

theorem rv_taken (h : rv b = .ok (n, rest)) : ∃ taken, b = taken ++ rest ∧ 0 < taken.length ∧ taken.length ≤ 10 ∧
    ∀ tail, rv (taken ++ tail) = .ok (n, tail) := rvFrom_taken h

/-! ### Fields -/

variable {wireType : Nat} {value : FieldValue} {one : Nat × Nat × FieldValue} {fs : List (Nat × Nat × FieldValue)}

theorem fieldLength_taken {length : Nat} (h : fieldLength wireType b = .ok (length, rest)) :
    ∃ taken, b = taken ++ rest ∧ ∀ tail, fieldLength wireType (taken ++ tail) = .ok (length, tail) := by
  by_cases htwo : wireType = 2
  · simp only [fieldLength, htwo, if_true] at h ⊢
    obtain ⟨taken, hsplit, -, -, hread⟩ := rv_taken h
    exact ⟨taken, hsplit, hread⟩
  · refine ⟨[], ?_, fun tail => ?_⟩ <;> simp only [fieldLength, htwo, if_false, List.nil_append] at h ⊢
    · split at h
      · cases h
        rfl
      · split at h <;> cases h
        rfl
    · split at h
      · next hone => cases h; rw [if_pos hone]
      · next hone =>
        rw [if_neg hone]
        split at h
        · next hfive => cases h; rw [if_pos hfive]
        · cases h

theorem fieldBytes_taken {length : Nat} (h : fieldBytes length b = .ok (value, rest)) :
    ∃ taken, b = taken ++ rest ∧ ∀ tail, fieldBytes length (taken ++ tail) = .ok (value, tail) := by
  unfold fieldBytes at h
  split at h
  · cases h
  · next hlong =>
    cases h
    have hlength : (b.take length).length = length := by
      rw [List.length_take]
      omega
    refine ⟨b.take length, (List.take_append_drop length b).symm, fun tail => ?_⟩
    rw [fieldBytes, if_neg (by rw [List.length_append]; omega), List.take_left' hlength, List.drop_left' hlength]

theorem fieldValue_taken (h : fieldValue wireType b = .ok (value, rest)) :
    ∃ taken, b = taken ++ rest ∧ ∀ tail, fieldValue wireType (taken ++ tail) = .ok (value, tail) := by
  by_cases hzero : wireType = 0
  · simp only [fieldValue, hzero, if_true] at h ⊢
    obtain ⟨⟨m, b'⟩, hrv, h⟩ := bind_eq_ok.mp h
    cases h
    obtain ⟨taken, rfl, -, -, hread⟩ := rv_taken hrv
    refine ⟨taken, rfl, fun tail => ?_⟩
    rw [hread, ok_bind]
    rfl
  · simp only [fieldValue, hzero, if_false] at h ⊢
    obtain ⟨⟨length, b'⟩, hlength, hbytes⟩ := bind_eq_ok.mp h
    obtain ⟨front, rfl, hfront⟩ := fieldLength_taken hlength
    obtain ⟨taken, rfl, hread⟩ := fieldBytes_taken hbytes
    refine ⟨front ++ taken, (List.append_assoc _ _ _).symm, fun tail => ?_⟩
    rw [List.append_assoc, hfront, ok_bind]
    exact hread tail

theorem fieldBehind_taken {key : Nat} (h : fieldBehind key b = .ok (one, rest)) :
    ∃ taken, b = taken ++ rest ∧ ∀ tail, fieldBehind key (taken ++ tail) = .ok (one, tail) := by
  unfold fieldBehind at h
  split at h
  · next hnumber =>
    obtain ⟨⟨v, b'⟩, hvalue, hone⟩ := bind_eq_ok.mp h
    cases hone
    obtain ⟨taken, rfl, hread⟩ := fieldValue_taken hvalue
    refine ⟨taken, rfl, fun tail => ?_⟩
    rw [fieldBehind, if_pos hnumber, hread, ok_bind]
    rfl
  · cases h

/-- A field takes a byte or more, and does not depend on what follows. -/
theorem field_taken (h : field b = .ok (one, rest)) : ∃ taken, b = taken ++ rest ∧ 0 < taken.length ∧
    ∀ tail, field (taken ++ tail) = .ok (one, tail) := by
  obtain ⟨⟨key, b'⟩, hkey, hbehind⟩ := bind_eq_ok.mp h
  obtain ⟨front, rfl, hpos, -, hfront⟩ := rv_taken hkey
  obtain ⟨taken, rfl, hread⟩ := fieldBehind_taken hbehind
  refine ⟨front ++ taken, (List.append_assoc _ _ _).symm, by rw [List.length_append]; omega, fun tail => ?_⟩
  rw [field, List.append_assoc, hfront, ok_bind]
  exact hread tail

theorem fieldsFrom_cons (turns : Nat) (byte : UInt8) (b : List UInt8) : fieldsFrom (turns + 1) (byte :: b) = (do
    let (one, rest) ← field (byte :: b)
    return one :: (← fieldsFrom turns rest)) := rfl

/-- Turns for every byte are enough. -/
theorem fieldsFrom_enough {turns : Nat} (h : b.length ≤ turns) : fieldsFrom turns b = fields b := by
  suffices hall : ∀ bound (b : List UInt8), b.length ≤ bound → ∀ turns, b.length ≤ turns →
      fieldsFrom turns b = fields b from hall turns b h turns h
  intro bound
  induction bound with
  | zero =>
      intro b hb turns _
      have hnil : b = [] := List.length_eq_zero_iff.mp (by omega)
      subst hnil
      cases turns <;> rfl
  | succ bound ih =>
      intro b hb turns hturns
      cases b with
      | nil => cases turns <;> rfl
      | cons byte b =>
          obtain ⟨turns, rfl⟩ : ∃ t, turns = t + 1 := ⟨turns - 1, by simp at hturns; omega⟩
          rw [fields, List.length_cons, fieldsFrom_cons, fieldsFrom_cons]
          cases hfield : field (byte :: b) with
          | error e => rfl
          | ok read =>
              obtain ⟨one, rest⟩ := read
              obtain ⟨taken, hsplit, hpos, -⟩ := field_taken hfield
              have hlength := congrArg List.length hsplit
              rw [List.length_cons, List.length_append] at hlength
              rw [List.length_cons] at hb hturns
              simp only [ok_bind]
              rw [ih rest (by omega) turns (by omega), ih rest (by omega) b.length (by omega)]

theorem fields_nil : fields [] = .ok [] := rfl

theorem fields_cons (h : field b = .ok (one, rest)) : fields b = (do return one :: (← fields rest)) := by
  obtain ⟨taken, rfl, hpos, -⟩ := field_taken h
  cases taken with
  | nil => simp at hpos
  | cons byte taken =>
      rw [List.cons_append, fields, List.length_cons, fieldsFrom_cons]
      rw [List.cons_append] at h
      simp only [h, ok_bind]
      rw [fieldsFrom_enough (by rw [List.length_append]; omega)]

theorem fields_eq_ok (hne : b ≠ []) (h : fields b = .ok fs) :
    ∃ one rest fs', field b = .ok (one, rest) ∧ fields rest = .ok fs' ∧ fs = one :: fs' := by
  cases hfield : field b with
  | error e =>
      cases b with
      | nil => exact absurd rfl hne
      | cons byte b =>
          rw [fields, List.length_cons, fieldsFrom_cons, hfield] at h
          cases h
  | ok read =>
      obtain ⟨one, rest⟩ := read
      rw [fields_cons hfield] at h
      obtain ⟨fs', hrest, h⟩ := bind_eq_ok.mp h
      cases h
      exact ⟨one, rest, fs', rfl, hrest, rfl⟩

/-- Of a message that is cut at the end of a field, the fields in front are read. -/
theorem fields_append (h : fields b = .ok fs) (tail : List UInt8) :
    fields (b ++ tail) = (do return fs ++ (← fields tail)) := by
  induction hlength : b.length using Nat.strong_induction_on generalizing b fs with
  | _ bound ih =>
      by_cases hne : b = []
      · subst hne
        cases h
        rw [List.nil_append]
        cases fields tail <;> rfl
      · obtain ⟨one, rest, fs', hfield, hrest, rfl⟩ := fields_eq_ok hne h
        obtain ⟨taken, rfl, hpos, hread⟩ := field_taken hfield
        rw [List.append_assoc, fields_cons (hread (rest ++ tail)),
          ih rest.length (by rw [← hlength, List.length_append]; omega) hrest rfl]
        cases fields tail <;> rfl

/-! ### Encoded fields -/

/-- A value as it is read. -/
def readValue : Wire.Value → FieldValue
  | .number n => .number n
  | .fixed64 bytes => .bytes bytes
  | .text bytes => .bytes bytes
  | .fixed32 bytes => .bytes bytes

/-- A field as it is read. -/
def readField (f : Wire.Field) : Nat × Nat × FieldValue := (f.number, f.value.wireType, readValue f.value)

theorem fieldBytes_append (bytes rest : List UInt8) :
    fieldBytes bytes.length (bytes ++ rest) = .ok (.bytes bytes, rest) := by
  rw [fieldBytes, if_neg (by rw [List.length_append]; omega), List.take_left, List.drop_left]

theorem fieldValue_encode {v : Wire.Value} (h : v.Fits width) (rest : List UInt8) :
    fieldValue v.wireType (v.encode width ++ rest) = .ok (readValue v, rest) := by
  cases v with
  | number n =>
      show fieldValue 0 (Wire.varint width n ++ rest) = _
      rw [fieldValue, if_pos rfl, rv_varint h, ok_bind]
      rfl
  | fixed64 bytes =>
      show fieldValue 1 (bytes ++ rest) = _
      have hlength : fieldBytes 8 (bytes ++ rest) = .ok (.bytes bytes, rest) := by
        rw [← show bytes.length = 8 from h, fieldBytes_append]
      exact hlength
  | text bytes =>
      show fieldValue 2 ((Wire.varint width bytes.length ++ bytes) ++ rest) = _
      rw [fieldValue, if_neg (by omega), fieldLength, if_pos rfl, List.append_assoc, rv_varint h, ok_bind]
      exact fieldBytes_append bytes rest
  | fixed32 bytes =>
      show fieldValue 5 (bytes ++ rest) = _
      have hlength : fieldBytes 4 (bytes ++ rest) = .ok (.bytes bytes, rest) := by
        rw [← show bytes.length = 4 from h, fieldBytes_append]
      exact hlength

theorem field_encode (f : Wire.Field) (rest : List UInt8) : field (f.encode ++ rest) = .ok (readField f, rest) := by
  have htype := Wire.wireType_lt f.value
  have hnumber : (f.number * 8 + f.value.wireType) >>> 3 = f.number := by
    rw [Nat.shiftRight_eq_div_pow]
    omega
  have hwire : (f.number * 8 + f.value.wireType) &&& 7 = f.value.wireType := by
    rw [show 7 = 2 ^ 3 - 1 from rfl, Nat.and_two_pow_sub_one_eq_mod]
    omega
  have hvalid : 1 ≤ f.number ∧ f.number < 1 <<< 29 := f.numbered
  rw [field, Wire.Field.encode, List.append_assoc, rv_varint f.keyFits, ok_bind]
  simp only [fieldBehind, hnumber, hwire, hvalid, and_self, if_true, fieldValue_encode f.fits, ok_bind]
  rfl

/-- The fields of an encoded message are read in order. -/
theorem fields_encode (fs : List Wire.Field) : fields (Wire.encode fs) = .ok (fs.map readField) := by
  induction fs with
  | nil => rfl
  | cons f fs ih =>
      rw [Wire.encode_cons, fields_cons (field_encode f _), ih]
      rfl

end ProxyGateway.Geosite
