import Mathlib.Data.List.Basic
import Mathlib.Tactic.Common
import Mathlib.Tactic.Ring
import Mathlib.Tactic.NormNum

set_option autoImplicit false

/-!
# ProxyGateway.Lib.Wire

The wire format of protocol buffers: numbers of variable width, seven bits a byte and the lowest
first, and messages as lists of fields. A number may be written wider than it needs, up to ten bytes.
-/

namespace ProxyGateway.Wire

/-! ### Numbers of variable width -/

/-- `n` in `width` bytes: every byte but the last has its high bit set. -/
def varint : Nat → Nat → List UInt8
  | 0, _ => []
  | 1, n => [UInt8.ofNat n]
  | width + 2, n => UInt8.ofNat (n % 128 + 128) :: varint (width + 1) (n / 128)

/-- The widths a 64-bit number may have. -/
structure Fits (width n : Nat) : Prop where
  pos : 0 < width
  le : width ≤ 10
  lt : n < 128 ^ width
  word : n < 2 ^ 64

theorem length_varint (width n : Nat) : (varint width n).length = width := by
  fun_induction varint with
  | case1 => rfl
  | case2 => rfl
  | case3 width n ih => rw [List.length_cons, ih]

/-- The shortest width of a number. -/
def minWidth (n : Nat) : Nat := if n < 128 then 1 else minWidth (n / 128) + 1
termination_by n
decreasing_by omega

theorem lt_pow_minWidth (n : Nat) : n < 128 ^ minWidth n := by
  fun_induction minWidth with
  | case1 n h => simpa using h
  | case2 n h ih =>
      rw [pow_succ]
      omega

theorem minWidth_le {n : Nat} (width : Nat) (hpos : 0 < width) (h : n < 128 ^ width) : minWidth n ≤ width := by
  induction width generalizing n with
  | zero => omega
  | succ width ih =>
      rw [minWidth]
      split
      · omega
      · next hbig =>
        have hwidth : 0 < width := by
          by_contra hzero
          have heq : width = 0 := by omega
          rw [heq] at h
          omega
        have hdiv : n / 128 < 128 ^ width := by
          rw [pow_succ] at h
          omega
        have := ih hwidth hdiv
        omega

/-- Every 64-bit number has a width. -/
theorem fits_minWidth {n : Nat} (h : n < 2 ^ 64) : Fits (minWidth n) n where
  pos := by
    rw [minWidth]
    split <;> omega
  le := by
    refine minWidth_le 10 (by omega) ?_
    have hpow : (2 : Nat) ^ 64 < 128 ^ 10 := by norm_num
    omega
  lt := lt_pow_minWidth n
  word := h

/-! ### Fields -/

/-- What a field holds, by its wire type. -/
inductive Value where
  | number (n : Nat)
  | fixed64 (bytes : List UInt8)
  | text (bytes : List UInt8)
  | fixed32 (bytes : List UInt8)
  deriving DecidableEq

def Value.wireType : Value → Nat
  | .number _ => 0
  | .fixed64 _ => 1
  | .text _ => 2
  | .fixed32 _ => 5

/-- The value is one that can be written with the width. -/
def Value.Fits (width : Nat) : Value → Prop
  | .number n => Wire.Fits width n
  | .fixed64 bytes => bytes.length = 8
  | .text bytes => Wire.Fits width bytes.length
  | .fixed32 bytes => bytes.length = 4

/-- What follows the key. -/
def Value.encode (width : Nat) : Value → List UInt8
  | .number n => varint width n
  | .fixed64 bytes => bytes
  | .text bytes => varint width bytes.length ++ bytes
  | .fixed32 bytes => bytes

/-- A field with the widths of its key and of the number behind it. -/
structure Field where
  number : Nat
  value : Value
  keyWidth : Nat
  width : Nat
  numbered : 1 ≤ number ∧ number < 2 ^ 29
  keyFits : Fits keyWidth (number * 8 + value.wireType)
  fits : value.Fits width

def Field.encode (field : Field) : List UInt8 :=
  varint field.keyWidth (field.number * 8 + field.value.wireType) ++ field.value.encode field.width

/-- A message. -/
def encode (fields : List Field) : List UInt8 := fields.flatMap Field.encode

@[simp] theorem encode_nil : encode [] = [] := rfl

@[simp] theorem encode_cons (field : Field) (fields : List Field) :
    encode (field :: fields) = field.encode ++ encode fields := rfl

theorem encode_append (fields fields' : List Field) : encode (fields ++ fields') = encode fields ++ encode fields' := by
  rw [encode, List.flatMap_append]
  rfl

theorem wireType_lt (v : Value) : v.wireType < 8 := by
  cases v <;> simp [Value.wireType]

theorem Field.encode_ne_nil (field : Field) : field.encode ≠ [] := by
  intro h
  have hlength := congrArg List.length h
  rw [Field.encode, List.length_append, length_varint] at hlength
  have := field.keyFits.pos
  simp at hlength
  omega

/-- How many bytes a value has besides its number. -/
def Value.size : Value → Nat
  | .number _ => 0
  | .fixed64 bytes => bytes.length
  | .text bytes => bytes.length
  | .fixed32 bytes => bytes.length

/-- A field adds no more than the two numbers of ten bytes. -/
theorem Field.length_encode (field : Field) : field.encode.length ≤ 20 + field.value.size := by
  have hkey := field.keyFits.le
  have hfits := field.fits
  rw [Field.encode, List.length_append, length_varint]
  cases hvalue : field.value with
  | number n =>
      rw [hvalue] at hfits
      have hwidth := hfits.le
      rw [Value.encode, length_varint]
      omega
  | fixed64 bytes =>
      rw [Value.encode, Value.size]
      omega
  | text bytes =>
      rw [hvalue] at hfits
      have hwidth := hfits.le
      rw [Value.encode, List.length_append, length_varint, Value.size]
      omega
  | fixed32 bytes =>
      rw [Value.encode, Value.size]
      omega

theorem length_encode (fields : List Field) :
    (encode fields).length ≤ (fields.map (fun field => 20 + field.value.size)).sum := by
  induction fields with
  | nil => rfl
  | cons field fields ih =>
      have hfield := field.length_encode
      rw [encode_cons, List.length_append, List.map_cons, List.sum_cons]
      omega

/-- The numbers of the fields with this number, in order. -/
def numbers (number : Nat) (fields : List Field) : List Nat :=
  fields.filterMap (fun field => match field.value with
    | .number n => if field.number = number then some n else none
    | _ => none)

/-- The texts of the fields with this number, in order. -/
def texts (number : Nat) (fields : List Field) : List (List UInt8) :=
  fields.filterMap (fun field => match field.value with
    | .text bytes => if field.number = number then some bytes else none
    | _ => none)

/-- A field as short as it can be. -/
def Field.shortest (number : Nat) (value : Value) (hnumber : 1 ≤ number ∧ number < 2 ^ 29)
    (hvalue : match value with
      | .number n => n < 2 ^ 64
      | .fixed64 bytes => bytes.length = 8
      | .text bytes => bytes.length < 2 ^ 64
      | .fixed32 bytes => bytes.length = 4) : Field where
  number := number
  value := value
  keyWidth := minWidth (number * 8 + value.wireType)
  width := match value with
    | .number n => minWidth n
    | .text bytes => minWidth bytes.length
    | _ => 1
  numbered := hnumber
  keyFits := by
    refine fits_minWidth ?_
    have := wireType_lt value
    omega
  fits := by
    cases value with
    | number n => exact fits_minWidth hvalue
    | fixed64 bytes => exact hvalue
    | text bytes => exact fits_minWidth hvalue
    | fixed32 bytes => exact hvalue

end ProxyGateway.Wire
