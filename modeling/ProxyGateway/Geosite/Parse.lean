import ProxyGateway.Lib.Dict
import ProxyGateway.Lib.Dynamic

set_option autoImplicit false

/-!
# ProxyGateway.Geosite.Parse

`parse-geosite.py`: the decoder of `geosite.dat` and the domain lists that it writes for mosdns.

Bytes that are left stand for the index into the bytes; `upper` is `str.upper`. The texts of the
exceptions are those of the source where the module raises them itself. Nothing of the output is
touched before the last check, so that the result is an exception or all of the files.
-/

namespace ProxyGateway.Geosite

/-- `_rv`: the bytes of a number, at most ten, from the one at `shift` on. -/
def rvFrom : Nat → Nat → Nat → List UInt8 → Py String (Nat × List UInt8)
  | 0, _, _, _ => Py.raise "protobuf varint exceeds 64 bits"
  | _ + 1, _, _, [] => Py.raise "truncated protobuf varint"
  | turns + 1, shift, result, byte :: rest => do
      let value := byte.toNat
      if shift = 63 ∧ value > 1 then Py.raise "protobuf varint exceeds 64 bits"
      let result := result ||| ((value &&& 0x7f) <<< shift)
      if value &&& 0x80 = 0 then return (result, rest)
      else rvFrom turns (shift + 7) result rest

/-- `_rv`. -/
def rv (b : List UInt8) : Py String (Nat × List UInt8) := rvFrom 10 0 0 b

/-- The value of a field: a number for wire type 0, bytes for the others. -/
inductive FieldValue where
  | number (n : Nat)
  | bytes (b : List UInt8)
  deriving DecidableEq

/-- How many bytes the value has that follows a key of another wire type than 0. -/
def fieldLength (wireType : Nat) (b : List UInt8) : Py String (Nat × List UInt8) :=
  if wireType = 2 then rv b
  else if wireType = 1 then .ok (8, b)
  else if wireType = 5 then .ok (4, b)
  else Py.raise "unsupported protobuf wire type"

/-- So many bytes. -/
def fieldBytes (length : Nat) (b : List UInt8) : Py String (FieldValue × List UInt8) :=
  if length > b.length then Py.raise "truncated protobuf field"
  else .ok (.bytes (b.take length), b.drop length)

/-- The value behind a key. -/
def fieldValue (wireType : Nat) (b : List UInt8) : Py String (FieldValue × List UInt8) :=
  if wireType = 0 then do
    let (value, rest) ← rv b
    return (.number value, rest)
  else do
    let (length, rest) ← fieldLength wireType b
    fieldBytes length rest

/-- The field behind its key. -/
def fieldBehind (key : Nat) (b : List UInt8) : Py String ((Nat × Nat × FieldValue) × List UInt8) :=
  if 1 ≤ key >>> 3 ∧ key >>> 3 < 1 <<< 29 then do
    let (value, rest) ← fieldValue (key &&& 7) b
    return ((key >>> 3, key &&& 7, value), rest)
  else Py.raise "invalid protobuf field number"

/-- One turn of the loop of `_fields`. -/
def field (b : List UInt8) : Py String ((Nat × Nat × FieldValue) × List UInt8) := do
  let (key, rest) ← rv b
  fieldBehind key rest

/-- The loop of `_fields`; a turn takes a byte or more. -/
def fieldsFrom : Nat → List UInt8 → Py String (List (Nat × Nat × FieldValue))
  | _, [] => return []
  | 0, _ => return []
  | turns + 1, b => do
      let (one, rest) ← field b
      return one :: (← fieldsFrom turns rest)

/-- `_fields`. -/
def fields (b : List UInt8) : Py String (List (Nat × Nat × FieldValue)) := fieldsFrom b.length b

/-- `v.decode("utf-8")`. -/
def decodeUtf8 (b : List UInt8) : Py String String :=
  match String.fromUTF8? ⟨b.toArray⟩ with
  | some s => .ok s
  | none => Py.raise "UnicodeDecodeError"

/-- The categories that are written, with the names of their files. -/
def want : List (String × String) :=
  [("CN", "geosite_cn.txt"), ("GEOLOCATION-!CN", "geosite_geolocation-!cn.txt"),
    ("APPLE", "geosite_apple.txt"), ("GFW", "geosite_gfw.txt")]

/-- The bytes of a field with this number, if it is of wire type 2. -/
def bytesOf (number : Nat) (one : Nat × Nat × FieldValue) : Option (List UInt8) :=
  match one.2.2 with
  | .bytes b => if one.1 = number ∧ one.2.1 = 2 then some b else none
  | .number _ => none

/-- The number of a field with this number, if it is of wire type 0. -/
def numberOf (number : Nat) (one : Nat × Nat × FieldValue) : Option Nat :=
  match one.2.2 with
  | .number n => if one.1 = number ∧ one.2.1 = 0 then some n else none
  | .bytes _ => none

/-- A field of a `Domain`: its type and its value so far. -/
def domainField (domain : Nat × Option String) (one : Nat × Nat × FieldValue) :
    Py String (Nat × Option String) :=
  match numberOf 1 one, bytesOf 2 one with
  | some n, _ => .ok (n, domain.2)
  | none, some b => do return (domain.1, some (← decodeUtf8 b))
  | none, none => .ok domain

/-- A `Domain`: its type, which proto3 omits where it is 0, and its value if it has one. -/
def domain (b : List UInt8) : Py String (Nat × Option String) := do
  (← fields b).foldlM domainField (0, none)

/-- A field of a `GeoSite`: its code and its domains so far. -/
def siteField (upper : String → String) (site : Option String × List (Nat × String))
    (one : Nat × Nat × FieldValue) : Py String (Option String × List (Nat × String)) :=
  match bytesOf 1 one, bytesOf 2 one with
  | some b, _ => do return (some (upper (← decodeUtf8 b)), site.2)
  | none, some b => do
      let domain ← domain b
      return match domain.2 with
        | some value => (site.1, site.2 ++ [(domain.1, value)])
        | none => site
  | none, none => .ok site

/-- A `GeoSite`: its code, if it has one, and its domains. -/
def site (upper : String → String) (b : List UInt8) : Py String (Option String × List (Nat × String)) := do
  (← fields b).foldlM (siteField upper) (none, [])

/-- `res` and `seen`. -/
structure Found where
  res : Dict String (List (Nat × String))
  seen : List String

/-- A category that is wanted replaces what was found for it before. -/
def Found.add (found : Found) (site : Option String × List (Nat × String)) : Found :=
  match site.1 with
  | some cc => if cc ∈ want.map Prod.fst then ⟨Dict.set found.res cc site.2, cc :: found.seen⟩ else found
  | none => found

/-- A field of the `GeoSiteList`. -/
def listField (upper : String → String) (found : Found) (one : Nat × Nat × FieldValue) : Py String Found :=
  match bytesOf 1 one with
  | some b => do return found.add (← site upper b)
  | none => .ok found

/-- `pref`. -/
def pref : List (Nat × String) := [(0, "keyword:"), (1, "regexp:"), (2, "domain:"), (3, "full:")]

/-- `res[cc]`, which is there from the start. -/
def Found.domains (found : Found) (cc : String) : List (Nat × String) := (Dict.get? found.res cc).getD []

/-- The lines of a category. -/
def fileText (domains : List (Nat × String)) : String :=
  String.join (domains.map (fun d => (Dict.get? pref d.1).getD "" ++ d.2 ++ "\n"))

/-- The categories that are missing or empty. -/
def Found.bad (found : Found) : List String :=
  (want.map Prod.fst).filter (fun cc => cc ∉ found.seen ∨ found.domains cc = [])

/-- Are all types of the domains ones that mosdns has? -/
def supported (domains : List (Nat × String)) : Bool := domains.all (fun d => d.1 ∈ pref.map Prod.fst)

/-- The end of `main`: the checks, and the files with their texts. -/
def written (found : Found) : Py String (List (String × String)) :=
  if found.bad = [] then do
    found.res.forM (fun entry =>
      if supported entry.2 then .ok () else Py.raise ("geosite.dat 包含不支持的域名类型: " ++ entry.1))
    return want.map (fun w => (w.2, fileText (found.domains w.1)))
  else Py.raise ("geosite.dat 缺失或类别为空: " ++ ", ".intercalate found.bad)

/-- `main`. -/
def main (upper : String → String) (data : List UInt8) : Py String (List (String × String)) := do
  let found ← (← fields data).foldlM (listField upper) ⟨want.map (fun w => (w.1, [])), []⟩
  written found

end ProxyGateway.Geosite
