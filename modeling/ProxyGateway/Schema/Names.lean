import ProxyGateway.Lib.Dynamic
import ProxyGateway.Lib.Text

set_option autoImplicit false

/-!
# ProxyGateway.Schema.Names

The name rules of `pdgmodel`: `normalize_name` and `validate_name` for what a user sees,
`_tag` for the tags of the machine. A text here has no lone surrogates, so that the
`encoding` failure of `normalize_name` cannot occur.
-/

namespace ProxyGateway.Schema

/-- What the rules read of the Unicode database: the composed form of a text, the general
category of a character, and the value of a decimal digit. -/
structure Unicode where
  nfc : String → String
  category : Char → String
  decimal : Char → Option Nat

/-- The reasons of a `NameValidationError`. -/
inductive NameFault where
  | type | length | dangerous | canonical
  deriving DecidableEq, Repr

/-- A `ModelError`, or its subclass `NameValidationError` with its reason and label. -/
inductive ModelError where
  | text (s : String)
  | name (reason : NameFault) (label : String)
  deriving DecidableEq, Repr

/-- The messages of `NameValidationError`. -/
def NameFault.message : NameFault → String
  | .type => "is not a text name"
  | .length => "must be 1-64 characters and at most 256 UTF-8 bytes"
  | .dangerous => "contains a control or unsafe invisible character"
  | .canonical => "is not NFC-normalized or has outer whitespace"

/-- `str(exc)`. -/
def ModelError.message : ModelError → String
  | .text s => s
  | .name reason label => label ++ " " ++ reason.message

/-! ### Names of the user -/

/-- `_DANGEROUS_NAME_CODEPOINTS`. -/
def dangerousNameCodepoints : List Nat :=
  [0x00AD, 0x034F, 0x061C, 0x115F, 0x1160, 0x17B4, 0x17B5,
   0x180E, 0x200B, 0x200E, 0x200F, 0x202A, 0x202B, 0x202C,
   0x202D, 0x202E, 0x2060, 0x2061, 0x2062, 0x2063, 0x2064,
   0x2066, 0x2067, 0x2068, 0x2069, 0x206A, 0x206B, 0x206C,
   0x206D, 0x206E, 0x206F, 0x3164, 0xFEFF, 0xFFA0]

/-- The characters that no name may hold. -/
def dangerousChar (U : Unicode) (c : Char) : Bool :=
  decide (c.toNat < 0x20) || decide (0x7F ≤ c.toNat ∧ c.toNat ≤ 0x9F) ||
    decide (U.category c ∈ ["Cs", "Zl", "Zp"]) ||
    (decide (U.category c = "Cf") && decide (c.toNat ≠ 0x200D)) ||
    decide (c.toNat ∈ dangerousNameCodepoints)

def nameMaxCodepoints : Nat := 64

def nameMaxUtf8Bytes : Nat := 256

/-- `normalize_name`. -/
def normalizeName (U : Unicode) (value : Json) (label : String) : Py ModelError String :=
  match value with
  | .str s => do
      let canonical := U.nfc s
      raiseIf (canonical.toList.any (dangerousChar U)) (.name .dangerous label)
      let name := String.ofList (Text.strip canonical.toList)
      raiseIf (decide (name = "" ∨ name.length > nameMaxCodepoints ∨
        name.utf8ByteSize > nameMaxUtf8Bytes)) (.name .length label)
      return name
  | _ => Py.raise (.name .type label)

/-- `validate_name`. -/
def validateName (U : Unicode) (value : Json) (label : String) : Py ModelError String := do
  let name ← normalizeName U value label
  raiseIf (decide (Json.str name ≠ value)) (.name .canonical label)
  return name

/-- `is_valid_name`. -/
def isValidName (U : Unicode) (value : Json) : Bool :=
  match validateName U value "name" with
  | .ok _ => true
  | .error _ => false

/-! ### Tags of the machine -/

def tagChar (c : Char) : Bool :=
  c.isAlphanum || c = '_' || c = '.' || c = '-'

/-- `TAG_RE.fullmatch`. -/
def tagRe (s : String) : Bool :=
  decide (1 ≤ s.length ∧ s.length ≤ 64) && s.toList.all tagChar

/-- `_tag`. -/
def tag (value : Json) (label : String) : Py ModelError String :=
  match value with
  | .str s => if tagRe s then .ok s else Py.raise (.text (label ++ " is not a valid tag"))
  | _ => Py.raise (.text (label ++ " is not a valid tag"))

end ProxyGateway.Schema
