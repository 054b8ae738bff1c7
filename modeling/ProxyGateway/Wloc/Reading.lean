import ProxyGateway.Wloc.Protobuf
import ProxyGateway.Geosite.Decoded

set_option autoImplicit false

/-!
# ProxyGateway.Wloc.Reading

When `_try_fields` takes bytes as a message: they have to be what the fields encode to, every number has
to fit its 64 bits, and only the last field may be shorter than its wire type says (`tryFields_iff`).
-/

namespace ProxyGateway.Wloc

open Geosite (low_bits high_bit or_shiftLeft)

variable {data b rest : Bytes} {flds more : List Field} {one : Field} {n k : Nat}

/-! ### Numbers -/

theorem word_lt (n : Int) : word n < 2 ^ 64 := by
  unfold word
  omega

theorem word_of_lt (h : n < 2 ^ 64) : word n = n := by
  unfold word
  omega

theorem word_le (n : Nat) : word n ≤ n := by
  unfold word
  omega

theorem groups_ne_nil (n : Nat) : groups n ≠ [] := by
  rw [groups]
  split <;> simp

/-- A number takes a byte for each of its seven bits. -/
theorem length_groups (width : Nat) (hpos : 0 < width) (h : n < 128 ^ width) : (groups n).length ≤ width := by
  induction width generalizing n with
  | zero => omega
  | succ width ih =>
      rw [groups]
      split
      · simp
      · next hbig =>
        have hwidth : 0 < width := by
          by_contra hzero
          have heq : width = 0 := by omega
          rw [heq] at h
          omega
        have hdiv : n / 128 < 128 ^ width := by
          rw [pow_succ] at h
          omega
        have hrest := ih hwidth hdiv
        rw [List.length_cons]
        omega

theorem length_uvarint (n : Int) : 1 ≤ (uvarint n).length ∧ (uvarint n).length ≤ 10 := by
  have hlt : word n < 128 ^ 10 := Nat.lt_of_lt_of_le (word_lt n) (by norm_num)
  exact ⟨List.length_pos_iff.mpr (groups_ne_nil _), length_groups 10 (by omega) hlt⟩

/-- One byte of a number. -/
theorem rvFrom_cons {value s r : Nat} (hvalue : value < 256) (hr : r < 2 ^ s) :
    rvFrom s r (UInt8.ofNat value :: rest) =
      if value < 128 then some (r + value * 2 ^ s, rest)
      else rvFrom (s + 7) (r + value % 128 * 2 ^ s) rest := by
  have hnat : (UInt8.ofNat value).toNat = value := by
    rw [UInt8.toNat_ofNat']
    omega
  rw [rvFrom]
  simp only [hnat, low_bits, high_bit hvalue, or_shiftLeft (value % 128) hr]
  by_cases hlast : value < 128
  · have hzero : value / 128 * 128 = 0 := by omega
    have hmod : value % 128 = value := by omega
    rw [if_pos hlast, if_pos hzero, hmod]
  · have hone : ¬value / 128 * 128 = 0 := by omega
    rw [if_neg hlast, if_neg hone]

theorem rvFrom_groups {s r : Nat} (hr : r < 2 ^ s) : rvFrom s r (groups n ++ rest) = some (r + n * 2 ^ s, rest) := by
  fun_induction groups generalizing s r with
  | case1 n hsmall => rw [List.singleton_append, rvFrom_cons (by omega) hr, if_pos hsmall]
  | case2 n hbig ih =>
      have hpow : (2 : Nat) ^ (s + 7) = 128 * 2 ^ s := by rw [pow_add]; omega
      have hmod : (n % 128 + 128) % 128 = n % 128 := by omega
      have hnext : r + n % 128 * 2 ^ s < 2 ^ (s + 7) := by
        have hlow : n % 128 * 2 ^ s ≤ 127 * 2 ^ s := Nat.mul_le_mul_right _ (by omega)
        omega
      have hsplit : n % 128 * 2 ^ s + n / 128 * 2 ^ (s + 7) = n * 2 ^ s := by
        calc n % 128 * 2 ^ s + n / 128 * 2 ^ (s + 7)
            _ = (n % 128 + 128 * (n / 128)) * 2 ^ s := by rw [hpow]; ring
            _ = n * 2 ^ s := by rw [Nat.mod_add_div]
      rw [List.cons_append, rvFrom_cons (by omega) hr, if_neg (by omega), hmod, ih hnext, Nat.add_assoc, hsplit]

/-- `_rv` reads what `_uvarint` wrote, in 64 bits. -/
theorem rv_uvarint (n : Int) : rv (uvarint n ++ rest) = some (word n, rest) := by
  have hread : rvFrom 0 0 (groups (word n) ++ rest) = some (0 + word n * 2 ^ 0, rest) := rvFrom_groups (by omega)
  rw [rv, uvarint, hread, Nat.zero_add, pow_zero, Nat.mul_one]

/-! ### Fields -/

/-- The number of a field. -/
def Field.fn : Field → Nat
  | .number fn _ => fn
  | .fixed64 fn _ => fn
  | .text fn _ => fn
  | .fixed32 fn _ => fn

def Field.wt : Field → Nat
  | .number _ _ => 0
  | .fixed64 _ _ => 1
  | .text _ _ => 2
  | .fixed32 _ _ => 5

/-- What a field is written as behind its key. -/
def Field.payload : Field → Bytes
  | .number _ n => uvarint n
  | .text _ val => uvarint val.length ++ val
  | .fixed32 _ val => val
  | .fixed64 _ val => val

theorem Field.encode_eq (one : Field) : one.encode = tag one.fn one.wt ++ one.payload := by
  cases one <;> simp [Field.encode, Field.fn, Field.wt, Field.payload, fVarint, fBytes, List.append_assoc]

theorem Field.wt_lt (one : Field) : one.wt < 8 := by
  cases one <;> simp [Field.wt]

theorem Field.encode_length_pos (one : Field) : 1 ≤ one.encode.length := by
  have htag := (length_uvarint (one.fn * 8 + one.wt : Nat)).1
  rw [one.encode_eq, List.length_append, tag]
  omega

/-- The numbers of the field fit in 64 bits, and a field of a fixed width has no byte too many. -/
def Field.Sound : Field → Prop
  | .number fn n => fn < 2 ^ 61 ∧ n < 2 ^ 64
  | .text fn val => fn < 2 ^ 61 ∧ val.length < 2 ^ 64
  | .fixed32 fn val => fn < 2 ^ 61 ∧ val.length ≤ 4
  | .fixed64 fn val => fn < 2 ^ 61 ∧ val.length ≤ 8

/-- A field of a fixed width has all of its bytes. -/
def Field.Full : Field → Prop
  | .number _ _ => True
  | .text _ _ => True
  | .fixed32 _ val => val.length = 4
  | .fixed64 _ val => val.length = 8

/-- The fields of a message; only the last one may be cut. -/
def Sound : List Field → Prop
  | [] => True
  | one :: more => one.Sound ∧ (more ≠ [] → one.Full) ∧ Sound more

theorem Field.Sound.fn_lt (h : one.Sound) : one.fn < 2 ^ 61 := by
  cases one <;> exact h.1

theorem encode_eq_nil (h : flds.flatMap Field.encode = []) : flds = [] := by
  cases flds with
  | nil => rfl
  | cons one more =>
      have hpos := one.encode_length_pos
      have hnil := congrArg List.length h
      rw [List.flatMap_cons, List.length_append, List.length_nil] at hnil
      omega

/-- The key of a field, taken apart. -/
theorem key_split (one : Field) :
    (one.fn * 8 + one.wt) &&& 7 = one.wt ∧ (one.fn * 8 + one.wt) >>> 3 = one.fn := by
  have hwt := one.wt_lt
  have hlow : (one.fn * 8 + one.wt) &&& 7 = (one.fn * 8 + one.wt) % 8 := Nat.and_two_pow_sub_one_eq_mod _ 3
  rw [hlow, Nat.shiftRight_eq_div_pow]
  omega

/-- A sound field is read behind its key, if it is full or the last one. -/
theorem fieldBehind_payload (h : one.Sound) (hfull : rest ≠ [] → one.Full) :
    fieldBehind (one.fn * 8 + one.wt) (one.payload ++ rest) = some (one, rest) := by
  obtain ⟨hwt, hfn⟩ := key_split one
  unfold fieldBehind
  rw [hwt, hfn]
  cases one with
  | number fn n =>
      have hn : n < 2 ^ 64 := h.2
      simp [Field.wt, Field.fn, Field.payload, rv_uvarint, word_of_lt hn]
  | text fn val =>
      have hlen : val.length < 2 ^ 64 := h.2
      simp [Field.wt, Field.fn, Field.payload, List.append_assoc, rv_uvarint, word_of_lt hlen]
  | fixed32 fn val =>
      have hlen : val.length ≤ 4 := h.2
      by_cases hrest : rest = []
      · simp [Field.wt, Field.fn, Field.payload, hrest, List.take_of_length_le hlen, List.drop_of_length_le hlen]
      · have hfour : val.length = 4 := hfull hrest
        simp [Field.wt, Field.fn, Field.payload, ← hfour]
  | fixed64 fn val =>
      have hlen : val.length ≤ 8 := h.2
      by_cases hrest : rest = []
      · simp [Field.wt, Field.fn, Field.payload, hrest, List.take_of_length_le hlen, List.drop_of_length_le hlen]
      · have height : val.length = 8 := hfull hrest
        simp [Field.wt, Field.fn, Field.payload, ← height]

/-- What the key of an encoded field reads as. -/
theorem rv_encode (one : Field) :
    rv (one.encode ++ rest) = some (word (one.fn * 8 + one.wt : Nat), one.payload ++ rest) := by
  rw [one.encode_eq, List.append_assoc, tag, rv_uvarint]

theorem fieldsFrom_succ {turns : Nat} (hb : b ≠ []) : fieldsFrom (turns + 1) b = (do
    let (k, rest) ← rv b
    let (one, rest) ← fieldBehind k rest
    let more ← fieldsFrom turns rest
    return one :: more) := by
  cases b with
  | nil => exact absurd rfl hb
  | cons x xs => rfl

theorem fieldsFrom_cons {turns : Nat} (h : one.Sound) (hfull : rest ≠ [] → one.Full) :
    fieldsFrom (turns + 1) (one.encode ++ rest) = (fieldsFrom turns rest).map (one :: ·) := by
  have hkey : one.fn * 8 + one.wt < 2 ^ 64 := by
    have hfn := h.fn_lt
    have hwt := one.wt_lt
    omega
  have hread : rv (one.encode ++ rest) = some (word (one.fn * 8 + one.wt : Nat), one.payload ++ rest) := rv_encode one
  rw [word_of_lt hkey] at hread
  obtain ⟨x, xs, hcons⟩ : ∃ x xs, one.encode ++ rest = x :: xs := by
    have hpos := one.encode_length_pos
    cases hencode : one.encode with
    | nil => simp [hencode] at hpos
    | cons x xs => exact ⟨x, xs ++ rest, rfl⟩
  rw [hcons] at hread ⊢
  rw [fieldsFrom_succ (List.cons_ne_nil x xs), hread]
  simp only [Option.bind_eq_bind, Option.bind_some, fieldBehind_payload h hfull]
  cases fieldsFrom turns rest <;> rfl

/-- The fields of a message are read back. -/
theorem fieldsFrom_encode {turns : Nat} (h : Sound flds) (hturns : flds.length ≤ turns) :
    fieldsFrom turns (flds.flatMap Field.encode) = some flds := by
  induction flds generalizing turns with
  | nil => cases turns <;> rfl
  | cons one more ih =>
      obtain ⟨turns, rfl⟩ : ∃ t, turns = t + 1 := ⟨turns - 1, by rw [List.length_cons] at hturns; omega⟩
      obtain ⟨hone, hfull, hmore⟩ := h
      have hrest : more.flatMap Field.encode ≠ [] → one.Full := by
        intro hne
        refine hfull fun hnil => hne ?_
        rw [hnil, List.flatMap_nil]
      rw [List.flatMap_cons, fieldsFrom_cons hone hrest, ih hmore (by simpa using hturns)]
      rfl

theorem length_le_encode (flds : List Field) : flds.length ≤ (flds.flatMap Field.encode).length := by
  induction flds with
  | nil => simp
  | cons one more ih =>
      have hpos := one.encode_length_pos
      rw [List.flatMap_cons, List.length_cons, List.length_append]
      omega

theorem fields_encode (h : Sound flds) : fields (flds.flatMap Field.encode) = some flds :=
  fieldsFrom_encode h (length_le_encode flds)

/-! ### What is read -/

/-- The key in front of a field that was read. -/
theorem key_of_fieldBehind (h : fieldBehind k b = some (one, rest)) : k = one.fn * 8 + one.wt := by
  have hlow : k &&& 7 = k % 8 := Nat.and_two_pow_sub_one_eq_mod k 3
  have hhigh : k >>> 3 = k / 8 := Nat.shiftRight_eq_div_pow k 3
  have hread : one.fn = k >>> 3 ∧ one.wt = k &&& 7 := by
    unfold fieldBehind at h
    split at h
    · next hwt =>
      obtain ⟨v, -, hone⟩ := Option.bind_eq_some_iff.mp h
      cases hone
      exact ⟨rfl, hwt.symm⟩
    · next hwt =>
      obtain ⟨v, -, hone⟩ := Option.bind_eq_some_iff.mp h
      cases hone
      exact ⟨rfl, hwt.symm⟩
    · next hwt =>
      cases h
      exact ⟨rfl, hwt.symm⟩
    · next hwt =>
      cases h
      exact ⟨rfl, hwt.symm⟩
    · cases h
  omega

/-- A prefix of fixed length that is all of `val`: nothing follows `val`, or `val` has that length. -/
theorem take_append_self {width : Nat} {val : Bytes} (h : (val ++ rest).take width = val) :
    val.length ≤ width ∧ (rest ≠ [] → val.length = width) ∧ (val ++ rest).drop width = rest := by
  have hlength := congrArg List.length h
  rw [List.length_take, List.length_append] at hlength
  by_cases hshort : val.length < width
  · have hnil : rest = [] := List.length_eq_zero_iff.mp (by omega)
    refine ⟨by omega, fun hne => absurd hnil hne, ?_⟩
    rw [hnil, List.append_nil, List.drop_of_length_le (by omega)]
  · have hwidth : val.length = width := by omega
    exact ⟨by omega, fun _ => hwidth, by rw [← hwidth, List.drop_left]⟩

/-- A field that is read behind its key and written back the same is sound, and only at the end it may be
cut. -/
theorem sound_of_fieldBehind (hk : k < 2 ^ 64) (h : fieldBehind k (one.payload ++ rest) = some (one, b)) :
    one.Sound ∧ (rest ≠ [] → one.Full) ∧ b = rest := by
  have hkey := key_of_fieldBehind h
  obtain ⟨hwt, hfn⟩ := key_split one
  have hfield : one.fn < 2 ^ 61 := by omega
  unfold fieldBehind at h
  rw [hkey, hwt, hfn] at h
  cases one with
  | number fn n =>
      simp only [Field.wt, Field.fn, Field.payload, rv_uvarint, Option.bind_eq_bind, Option.bind_some,
        Option.pure_def, Option.some.injEq, Prod.mk.injEq, Field.number.injEq, true_and] at h
      obtain ⟨hn, hb⟩ := h
      have hword : word n < 2 ^ 64 := word_lt n
      exact ⟨⟨hfield, by omega⟩, fun _ => trivial, hb.symm⟩
  | text fn val =>
      simp only [Field.wt, Field.fn, Field.payload, List.append_assoc, rv_uvarint, Option.bind_eq_bind, Option.bind_some,
        Option.pure_def, Option.some.injEq, Prod.mk.injEq, Field.text.injEq, true_and] at h
      obtain ⟨hval, hb⟩ := h
      obtain ⟨hle, -, hdrop⟩ := take_append_self hval
      have hlt : word val.length < 2 ^ 64 := word_lt _
      exact ⟨⟨hfield, by omega⟩, fun _ => trivial, by rw [← hb, hdrop]⟩
  | fixed32 fn val =>
      simp only [Field.wt, Field.fn, Field.payload, Option.some.injEq, Prod.mk.injEq, Field.fixed32.injEq, true_and] at h
      obtain ⟨hle, hfull, hdrop⟩ := take_append_self h.1
      exact ⟨⟨hfield, hle⟩, hfull, by rw [← h.2, hdrop]⟩
  | fixed64 fn val =>
      simp only [Field.wt, Field.fn, Field.payload, Option.some.injEq, Prod.mk.injEq, Field.fixed64.injEq, true_and] at h
      obtain ⟨hle, hfull, hdrop⟩ := take_append_self h.1
      exact ⟨⟨hfield, hle⟩, hfull, by rw [← h.2, hdrop]⟩

/-- The first field of what was read. -/
theorem fieldsFrom_inv {turns : Nat} (hb : b ≠ []) (h : fieldsFrom (turns + 1) b = some flds) :
    ∃ k r one r' more, rv b = some (k, r) ∧ fieldBehind k r = some (one, r') ∧
      fieldsFrom turns r' = some more ∧ flds = one :: more := by
  obtain ⟨x, xs, rfl⟩ := List.exists_cons_of_ne_nil hb
  rw [fieldsFrom_succ hb] at h
  obtain ⟨⟨k, r⟩, hkey, h⟩ := Option.bind_eq_some_iff.mp h
  obtain ⟨⟨one, r'⟩, hone, h⟩ := Option.bind_eq_some_iff.mp h
  obtain ⟨more, hmore, h⟩ := Option.bind_eq_some_iff.mp h
  cases h
  exact ⟨k, r, one, r', more, hkey, hone, hmore, rfl⟩

theorem sound_of_fieldsFrom {turns : Nat} (h : fieldsFrom turns (flds.flatMap Field.encode) = some flds) : Sound flds := by
  induction turns generalizing flds with
  | zero =>
      -- Without a turn nothing is read.
      have hnil : flds = [] := by
        cases hb : flds.flatMap Field.encode with
        | nil => exact encode_eq_nil hb
        | cons x xs =>
            rw [hb, fieldsFrom.eq_2 _ (by simp)] at h
            cases h
            rfl
      rw [hnil]
      trivial
  | succ turns ih =>
      by_cases hb : flds.flatMap Field.encode = []
      · rw [encode_eq_nil hb]
        trivial
      · obtain ⟨k, r, one, r', more, hkey, hone, hmore, rfl⟩ := fieldsFrom_inv hb h
        rw [List.flatMap_cons, rv_encode] at hkey
        cases hkey
        obtain ⟨hsound, hfull, rfl⟩ := sound_of_fieldBehind (word_lt _) hone
        refine ⟨hsound, fun hne => hfull fun hnil => hne (encode_eq_nil hnil), ih hmore⟩

/-- What `_try_fields` takes as a message. -/
theorem tryFields_iff : tryFields data = some flds ↔ flds ≠ [] ∧ Sound flds ∧ flds.flatMap Field.encode = data := by
  constructor
  · intro h
    unfold tryFields at h
    split at h
    · cases h
    · next hne =>
      obtain ⟨hread, hsame⟩ := Option.filter_eq_some_iff.mp h
      have hencode : flds.flatMap Field.encode = data := by simpa using hsame
      refine ⟨?_, ?_, hencode⟩
      · intro hnil
        rw [hnil] at hencode
        exact hne hencode.symm
      · rw [← hencode] at hread
        exact sound_of_fieldsFrom hread
  · intro h
    obtain ⟨hne, hsound, hencode⟩ := h
    have hdata : data ≠ [] := by
      intro hnil
      exact hne (encode_eq_nil (hencode.trans hnil))
    rw [tryFields, if_neg hdata, ← hencode, fields_encode hsound]
    simp

end ProxyGateway.Wloc
