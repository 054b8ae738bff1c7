import Mathlib.Data.Rat.Defs
import ProxyGateway.Lib.Dict

set_option autoImplicit false

/-!
# ProxyGateway.Lib.Json

JSON documents as the gateway's language holds them after parsing: `bool`, `int` and
`float` are three types, an object is a dictionary in insertion order, and a document
may be read with `get?` and tested for truth. Equality of documents is decidable, so
that functions on documents can be evaluated.
-/

namespace ProxyGateway

/-- A floating-point value: its exact rational, or one of the special values. -/
inductive FloatVal where
  | finite (q : Rat) | inf (negative : Bool) | nan
  deriving DecidableEq

/-- A parsed document. -/
inductive Json where
  | null
  | bool (b : Bool)
  | int (n : Int)
  | float (v : FloatVal)
  | str (s : String)
  | arr (xs : List Json)
  | obj (kvs : List (String × Json))

namespace Json

/-! ### Equality -/

mutual

/-- Equality of documents, by structure. -/
def decEq : (a b : Json) → Decidable (a = b)
  | .null, .null => isTrue rfl
  | .bool a, .bool b => decidable_of_iff (a = b) (by simp)
  | .int a, .int b => decidable_of_iff (a = b) (by simp)
  | .float a, .float b => decidable_of_iff (a = b) (by simp)
  | .str a, .str b => decidable_of_iff (a = b) (by simp)
  | .arr a, .arr b =>
      match decEqList a b with
      | isTrue h => isTrue (by rw [h])
      | isFalse h => isFalse (by intro hc; cases hc; exact h rfl)
  | .obj a, .obj b =>
      match decEqFields a b with
      | isTrue h => isTrue (by rw [h])
      | isFalse h => isFalse (by intro hc; cases hc; exact h rfl)
  | .null, .bool _ | .null, .int _ | .null, .float _ | .null, .str _ | .null, .arr _
  | .null, .obj _ | .bool _, .null | .bool _, .int _ | .bool _, .float _ | .bool _, .str _
  | .bool _, .arr _ | .bool _, .obj _ | .int _, .null | .int _, .bool _ | .int _, .float _
  | .int _, .str _ | .int _, .arr _ | .int _, .obj _ | .float _, .null | .float _, .bool _
  | .float _, .int _ | .float _, .str _ | .float _, .arr _ | .float _, .obj _ | .str _, .null
  | .str _, .bool _ | .str _, .int _ | .str _, .float _ | .str _, .arr _ | .str _, .obj _
  | .arr _, .null | .arr _, .bool _ | .arr _, .int _ | .arr _, .float _ | .arr _, .str _
  | .arr _, .obj _ | .obj _, .null | .obj _, .bool _ | .obj _, .int _ | .obj _, .float _
  | .obj _, .str _ | .obj _, .arr _ => isFalse (by intro hc; cases hc)

/-- Equality of lists of documents. -/
def decEqList : (a b : List Json) → Decidable (a = b)
  | [], [] => isTrue rfl
  | x :: xs, y :: ys =>
      match decEq x y, decEqList xs ys with
      | isTrue h, isTrue h' => isTrue (by rw [h, h'])
      | isFalse h, _ => isFalse (by intro hc; cases hc; exact h rfl)
      | _, isFalse h => isFalse (by intro hc; cases hc; exact h rfl)
  | [], _ :: _ | _ :: _, [] => isFalse (by intro hc; cases hc)

/-- Equality of lists of fields. -/
def decEqFields : (a b : List (String × Json)) → Decidable (a = b)
  | [], [] => isTrue rfl
  | (k, x) :: xs, (l, y) :: ys =>
      if hk : k = l then
        match decEq x y, decEqFields xs ys with
        | isTrue h, isTrue h' => isTrue (by rw [hk, h, h'])
        | isFalse h, _ => isFalse (by intro hc; cases hc; exact h rfl)
        | _, isFalse h => isFalse (by intro hc; cases hc; exact h rfl)
      else isFalse (by intro hc; cases hc; exact hk rfl)
  | [], _ :: _ | _ :: _, [] => isFalse (by intro hc; cases hc)

end

instance : DecidableEq Json := decEq

/-! ### Reading -/

/-- `bool(value)`. -/
def truthy : Json → Bool
  | .null => false
  | .bool b => b
  | .int n => n != 0
  | .float v => v != .finite 0
  | .str s => s != ""
  | .arr xs => !xs.isEmpty
  | .obj kvs => !kvs.isEmpty

/-- The fields of an object. -/
def fields? : Json → Option (Dict String Json)
  | .obj kvs => some kvs
  | _ => none

/-- `value.get(key)` on an object. -/
def get? (j : Json) (key : String) : Option Json :=
  match j with
  | .obj kvs => Dict.get? kvs key
  | _ => none

/-- `value.get(key, default)` on an object. -/
def getD (j : Json) (key : String) (default : Json) : Json := (j.get? key).getD default

/-- The text of a string. -/
def str? : Json → Option String
  | .str s => some s
  | _ => none

end Json

end ProxyGateway
