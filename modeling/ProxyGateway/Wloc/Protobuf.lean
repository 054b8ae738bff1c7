import Mathlib.Algebra.Group.Int.Defs
import Mathlib.Data.List.Basic
import Mathlib.Tactic.Common

set_option autoImplicit false

/-!
# ProxyGateway.Wloc.Protobuf

The messages of `mitm_wloc.py`: how it writes and reads numbers and fields, and how it rewrites the
coordinates of a response. Bytes that are left stand for the index into the bytes. Of an exception that
`_try_fields` catches only that there is one matters, and a recursion may go as deep as it has bytes.
-/

namespace ProxyGateway.Wloc

/-- A sequence of bytes. -/
abbrev Bytes := List UInt8

/-! ### Writing -/

/-- The loop of `_uvarint`. -/
def groups (n : Nat) : Bytes :=
  if n < 128 then [UInt8.ofNat n] else UInt8.ofNat (n % 128 + 128) :: groups (n / 128)
termination_by n
decreasing_by omega

/-- `n & ((1 << 64) - 1)` -/
def word (n : Int) : Nat := (n % 2 ^ 64).toNat

/-- `_uvarint` -/
def uvarint (n : Int) : Bytes := groups (word n)

/-- `_tag` -/
def tag (field wt : Nat) : Bytes := uvarint (field * 8 + wt : Nat)

/-- `_f_varint` -/
def fVarint (field : Nat) (n : Int) : Bytes := tag field 0 ++ uvarint n

/-- `_f_bytes` -/
def fBytes (field : Nat) (data : Bytes) : Bytes := tag field 2 ++ uvarint data.length ++ data

/-! ### Reading -/

/-- The loop of `_rv` behind `s` bits with the value `r`. -/
def rvFrom : Nat → Nat → Bytes → Option (Nat × Bytes)
  | _, _, [] => none
  | s, r, x :: rest =>
      let r := r ||| ((x.toNat &&& 0x7f) <<< s)
      if x.toNat &&& 0x80 = 0 then some (r, rest) else rvFrom (s + 7) r rest

/-- `_rv` -/
def rv (b : Bytes) : Option (Nat × Bytes) := rvFrom 0 0 b

/-- A field of `_fields`, by its wire type. The last one may have fewer bytes than it should. -/
inductive Field where
  | number (fn n : Nat)
  | fixed64 (fn : Nat) (val : Bytes)
  | text (fn : Nat) (val : Bytes)
  | fixed32 (fn : Nat) (val : Bytes)
  deriving DecidableEq

/-- The field behind its key. -/
def fieldBehind (k : Nat) (b : Bytes) : Option (Field × Bytes) :=
  match k &&& 7 with
  | 0 => do
      let (v, rest) ← rv b
      return (.number (k >>> 3) v, rest)
  | 2 => do
      let (ln, rest) ← rv b
      return (.text (k >>> 3) (rest.take ln), rest.drop ln)
  | 5 => some (.fixed32 (k >>> 3) (b.take 4), b.drop 4)
  | 1 => some (.fixed64 (k >>> 3) (b.take 8), b.drop 8)
  | _ => none

/-- The loop of `_fields`; a turn takes a byte or more. -/
def fieldsFrom : Nat → Bytes → Option (List Field)
  | _, [] => some []
  | 0, _ => some []
  | turns + 1, b => do
      let (k, rest) ← rv b
      let (one, rest) ← fieldBehind k rest
      let more ← fieldsFrom turns rest
      return one :: more

/-- `_fields` -/
def fields (b : Bytes) : Option (List Field) := fieldsFrom b.length b

/-- What `_try_fields` writes for a field. -/
def Field.encode : Field → Bytes
  | .number fn n => fVarint fn n
  | .text fn val => fBytes fn val
  | .fixed32 fn val => tag fn 5 ++ val
  | .fixed64 fn val => tag fn 1 ++ val

/-- `_try_fields` -/
def tryFields (data : Bytes) : Option (List Field) :=
  if data = [] then none
  else (fields data).filter fun flds => flds.flatMap Field.encode = data

/-! ### Locations -/

/-- `(field, 0) in fnos`, of one field. -/
def Field.isNumber (field : Nat) : Field → Bool
  | .number fn _ => fn = field
  | _ => false

/-- What a field of wire type 2 holds. -/
def Field.inside : Field → Option Bytes
  | .text _ val => some val
  | _ => none

/-- `(1, 0) in fnos and (2, 0) in fnos` -/
def isLoc (flds : List Field) : Bool := flds.any (Field.isNumber 1) && flds.any (Field.isNumber 2)

/-- `_has_loc`, so deep. -/
def hasLocFrom : Nat → Bytes → Bool
  | 0, _ => false
  | depth + 1, data =>
      match tryFields data with
      | none => false
      | some flds =>
          isLoc flds || flds.any fun one => one.inside.any (hasLocFrom depth)

/-- `_has_loc` -/
def hasLoc (data : Bytes) : Bool := hasLocFrom data.length data

/-- `_split_resp` -/
def splitResp (body : Bytes) : Bytes × Bytes :=
  match (List.range (min body.length 64)).find? fun i => (tryFields (body.drop i)).isSome && hasLoc (body.drop i) with
  | some i => (body.take i, body.drop i)
  | none => (body, [])

/-- What `_patch_pb` writes for a field, where `patch` rewrites what is inside it. -/
def patchField (patch : Bytes → Bytes) (loc : Bool) (latE8 lonE8 : Int) : Field → Bytes
  | .number fn n =>
      if loc && fn = 1 then fVarint 1 latE8
      else if loc && fn = 2 then fVarint 2 lonE8
      else fVarint fn n
  | .text fn val => fBytes fn (patch val)
  | .fixed32 fn val => tag fn 5 ++ val
  | .fixed64 fn val => tag fn 1 ++ val

/-- `_patch_pb`, so deep. -/
def patchFrom (latE8 lonE8 : Int) : Nat → Bytes → Bytes
  | 0, data => data
  | depth + 1, data =>
      match tryFields data with
      | none => data
      | some flds => flds.flatMap (patchField (patchFrom latE8 lonE8 depth) (isLoc flds) latE8 lonE8)

/-- `_patch_pb` -/
def patchPb (data : Bytes) (latE8 lonE8 : Int) : Bytes := patchFrom latE8 lonE8 data.length data

/-- `patch_response`, of the rounded coordinates. -/
def patchResponse (body : Bytes) (latE8 lonE8 : Int) : Bytes :=
  let (pre, pb) := splitResp body
  if pb = [] then body else pre ++ patchPb pb latE8 lonE8

end ProxyGateway.Wloc
