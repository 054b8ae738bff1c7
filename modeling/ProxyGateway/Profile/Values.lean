import ProxyGateway.Lib.Dict
import ProxyGateway.Lib.Dynamic
import ProxyGateway.Lib.Lines

set_option autoImplicit false

/-!
# ProxyGateway.Profile.Values

`profile.env`: which keys are managed and how `read_values` reads them. A file that is missing reads
as an empty one.
-/

namespace ProxyGateway.Profile

open Text

/-- `DATA_KEYS` -/
def dataKeys : List String :=
  ["PDG_QUIC_MODE", "PDG_HIJACK_TLS_TCP_PORTS", "PDG_HIJACK_HTTP_TCP_PORTS", "PDG_QUIC_MARK", "PDG_QUIC_MARK_MASK",
    "PDG_QUIC_ROUTE_TABLE", "PDG_QUIC_RULE_PRIORITY"]

/-- `MODE_KEYS` -/
def modeKeys : List String := ["PDG_FIREWALL_MODE", "PDG_PLATFORM", "PDG_INTERNAL_CIDR", "PDG_SSH_PORT"]

/-- `AUX_KEYS` -/
def auxKeys : List String := ["PDG_LOWMEM", "PDG_HIJACK_MODE", "PDG_TFO", "PDG_CERT_DIR"]

/-- `MANAGED_KEYS` -/
def managedKeys : List String := dataKeys ++ modeKeys ++ auxKeys

/-- `_KEY_SHAPE` -/
def keyShape (key : List Char) : Bool :=
  key.head?.any Char.isUpper && key.all (fun c => c.isUpper || c.isDigit || c = '_')

/-- `line.split("=", 1)`, where there is an `=`. -/
def splitEquals (line : List Char) : Option (List Char × List Char) :=
  if '=' ∈ line then some (line.takeWhile (· ≠ '='), (line.dropWhile (· ≠ '=')).drop 1) else none

/-- `raw.lstrip()` -/
def lstrip (raw : List Char) : List Char := raw.dropWhile isSpace

/-- What `read_values` takes a line for. -/
inductive LineKind where
  | other
  | malformed (key : String)
  | entry (key value : String)
  deriving DecidableEq

/-- A line with `=`. -/
def assignment (raw front back : List Char) : LineKind :=
  let key := strip front
  if String.ofList key ∉ managedKeys then .other
  else if !keyShape key || !(key ++ ['=']).isPrefixOf (lstrip raw) then .malformed (String.ofList key)
  else .entry (String.ofList key) (String.ofList (strip back))

/-- A line without `=`. -/
def bareWord (line : List Char) : LineKind :=
  let token := String.ofList (line.takeWhile (fun c => !isSpace c))
  if token ∈ managedKeys then .malformed token else .other

/-- A turn of the loop of `read_values`. -/
def lineKind (raw : List Char) : LineKind :=
  let line := strip raw
  if line = [] ∨ line.head? = some '#' then .other
  else match splitEquals line with
    | none => bareWord line
    | some (front, back) => assignment raw front back

/-- The loop of `read_values`, from the line with this number on. -/
def readFrom (path : String) (number : Nat) (found : Dict String String) : List (List Char) → Py String (Dict String String)
  | [] => .ok found
  | raw :: lines =>
      match lineKind raw with
      | .other => readFrom path (number + 1) found lines
      | .malformed key => Py.raise (path ++ ":" ++ toString number ++ " 受管 profile 键格式错误: " ++ key)
      | .entry key value =>
          if found.contains key then Py.raise (path ++ " 存在重复键: " ++ key)
          else readFrom path (number + 1) (found.set key value) lines

/-- `read_values` -/
def readValues (path : String) (text : List Char) : Py String (Dict String String) := readFrom path 1 [] (splitlines text)

/-! ### What is read -/

/-- The entry of a line. -/
def entryOf (raw : List Char) : Option (String × String) :=
  match lineKind raw with
  | .entry key value => some (key, value)
  | _ => none

/-- The entries of the lines, in order. -/
def entries (lines : List (List Char)) : Dict String String := lines.filterMap entryOf

/-- No managed key stands in a line of another form, or twice. -/
structure WellFormed (lines : List (List Char)) : Prop where
  formed : ∀ raw ∈ lines, ∀ key, lineKind raw ≠ .malformed key
  uniq : Dict.Uniq (entries lines)

variable {path : String} {number : Nat} {found values : Dict String String} {lines lines' : List (List Char)}
  {raw text : List Char} {key value : String}

theorem readFrom_eq_ok (hfound : found.Uniq) : readFrom path number found lines = .ok values ↔
    (∀ raw ∈ lines, ∀ key, lineKind raw ≠ .malformed key) ∧ Dict.Uniq (found ++ entries lines) ∧
      values = found ++ entries lines := by
  induction lines generalizing number found with
  | nil =>
      rw [readFrom, entries, List.filterMap_nil, List.append_nil, Except.ok.injEq]
      constructor
      · exact fun h => ⟨fun _ hin => (by cases hin), hfound, h.symm⟩
      · exact fun h => h.2.2.symm
  | cons raw lines ih =>
      rw [readFrom, List.forall_mem_cons, entries, List.filterMap_cons, entryOf]
      cases hkind : lineKind raw with
      | other =>
          simp only [ih hfound, ne_eq, reduceCtorEq, not_false_eq_true, implies_true, true_and]
          rfl
      | malformed key =>
          simp only [Py.raise_ne_ok, ne_eq, LineKind.malformed.injEq, false_iff]
          exact fun h => h.1.1 key rfl
      | entry key value =>
          simp only [ne_eq, reduceCtorEq, not_false_eq_true, implies_true, true_and]
          by_cases hin : key ∈ found.keys
          · have hcontains : found.contains key = true := Dict.get?_isSome_iff.mpr hin
            simp only [hcontains, if_true, Py.raise_ne_ok, false_iff]
            rintro ⟨-, huniq, -⟩
            rw [Dict.Uniq, Dict.keys, List.map_append, List.map_cons] at huniq
            exact (List.nodup_append.mp huniq).2.2 key hin key List.mem_cons_self rfl
          · have hcontains : found.contains key = false := by
              rw [Bool.eq_false_iff]
              exact fun hyes => hin (Dict.get?_isSome_iff.mp hyes)
            rw [hcontains, if_neg Bool.false_ne_true, ih (hfound.set key value), Dict.set_of_not_mem hin,
              List.append_assoc, List.singleton_append]
            rfl

/-- The managed lines are read in order. -/
theorem readValues_eq_ok : readValues path text = .ok values ↔
    WellFormed (splitlines text) ∧ values = entries (splitlines text) := by
  have hempty : Dict.Uniq ([] : Dict String String) := List.nodup_nil
  rw [readValues, readFrom_eq_ok hempty, List.nil_append, and_assoc.symm]
  exact and_congr_left fun _ => ⟨fun h => ⟨h.1, h.2⟩, fun h => ⟨h.formed, h.uniq⟩⟩

end ProxyGateway.Profile
