import ProxyGateway.Lib.Json

set_option autoImplicit false

/-!
# ProxyGateway.Lib.Encode

The text that the gateway's language writes for a document: `json.dumps` with
`ensure_ascii=False` and `indent=2`. How a float is written is a parameter.
-/

namespace ProxyGateway.Json

/-- `'\u{0:04x}'` of a control character. -/
def controlEscape (c : Char) : String :=
  let digits := Nat.toDigits 16 c.toNat
  "\\u" ++ String.ofList (List.replicate (4 - digits.length) '0' ++ digits)

/-- A character inside a quoted text. -/
def escapeChar (c : Char) : String :=
  if c = '"' then "\\\""
  else if c = '\\' then "\\\\"
  else if c = '\n' then "\\n"
  else if c = '\r' then "\\r"
  else if c = '\t' then "\\t"
  else if c.toNat = 8 then "\\b"
  else if c.toNat = 12 then "\\f"
  else if c.toNat < 0x20 then controlEscape c
  else String.singleton c

/-- A quoted text. -/
def quote (s : String) : String :=
  "\"" ++ String.join (s.toList.map escapeChar) ++ "\""

/-- A line break and the indentation of the next line. -/
def newline (indent : Nat) : String := "\n" ++ String.ofList (List.replicate indent ' ')

mutual

/-- `json.dumps(value, ensure_ascii=False, indent=2)`, for a value at an indentation. -/
def dumps (floatRepr : FloatVal → String) (indent : Nat) : Json → String
  | .null => "null"
  | .bool b => if b then "true" else "false"
  | .int n => toString n
  | .float v => floatRepr v
  | .str s => quote s
  | .arr [] => "[]"
  | .arr (x :: xs) =>
      "[" ++ newline (indent + 2) ++ dumps floatRepr (indent + 2) x ++
        dumpsItems floatRepr (indent + 2) xs ++ newline indent ++ "]"
  | .obj [] => "\x7b\x7d"
  | .obj ((key, x) :: kvs) =>
      "\x7b" ++ newline (indent + 2) ++ quote key ++ ": " ++ dumps floatRepr (indent + 2) x ++
        dumpsFields floatRepr (indent + 2) kvs ++ newline indent ++ "\x7d"

/-- The elements behind the first one of a list. -/
def dumpsItems (floatRepr : FloatVal → String) (indent : Nat) : List Json → String
  | [] => ""
  | x :: xs => "," ++ newline indent ++ dumps floatRepr indent x ++ dumpsItems floatRepr indent xs

/-- The fields behind the first one of an object. -/
def dumpsFields (floatRepr : FloatVal → String) (indent : Nat) : List (String × Json) → String
  | [] => ""
  | (key, x) :: kvs =>
      "," ++ newline indent ++ quote key ++ ": " ++ dumps floatRepr indent x ++
        dumpsFields floatRepr indent kvs

end

end ProxyGateway.Json
