import ProxyGateway.Lib.Text
import ProxyGateway.Lib.Dynamic

set_option autoImplicit false

/-!
# ProxyGateway.Render.Ports

The strict readers of a port list and of the QUIC mode, which the renderer and the profile share.
They refuse with the text of a `ValueError`.
-/

namespace ProxyGateway.Render

/-! ### Port lists -/

/-- A blank of the pattern, which is narrower than `str.isspace`. -/
def isBlank (c : Char) : Bool := c = '\t' || c = '\r' || c = '\n' || c = ' '

/-- The digit runs of a stripped text: in every piece between two commas there is one, and blanks
are all that stands between them. -/
def portWords (text : List Char) : Option (List (List Char)) :=
  let pieces := (Text.splitAt ',' text).map (fun piece =>
    (piece.splitOnP isBlank).filter (fun word => !word.isEmpty))
  if pieces.all (fun words => !words.isEmpty && words.all (fun word => word.all Char.isDigit)) then
    some pieces.flatten
  else none

/-- `int(text, 10)`, for digits. -/
def decimal (digits : List Char) : Nat :=
  digits.foldl (fun n c => 10 * n + (c.toNat - '0'.toNat)) 0

/-- The most digits that `int` converts. -/
def maxDigits : Nat := 4300

/-- `int(text, 10)`, where a text that is too long raises. -/
def intOf (digits : List Char) : Py String Int :=
  if maxDigits < digits.length then Py.fault .value else .ok (decimal digits)

/-- The numbers of a port list, before their range is checked. -/
def rawPorts (name : String) (value : Json) : Py String (List Int) :=
  match value with
  | .str s =>
      match portWords (Text.strip s.toList) with
      | some words => words.mapM intOf
      | none => Py.raise (name ++ " 必须是十进制端口列表")
  | .arr items => items.mapM (fun item =>
      match item with
      | .int n => .ok n
      | _ => Py.raise (name ++ " 必须只包含整数端口"))
  | _ => Py.raise (name ++ " 必须是端口列表或文本")

/-- `parse_port_list`. -/
def parsePortList (value : Json) (name : String) : Py String (List Nat) := do
  let ports ← rawPorts name value
  if ports.isEmpty || ports.any (fun port => port < 1 || 65535 < port) then
    Py.raise (name ++ " 端口必须在 1..65535")
  else return sortedSet (ports.map Int.toNat)

/-- Ports as the program interface takes them. -/
def portsJson (ports : List Nat) : Json := .arr (ports.map (fun port => Json.int (Int.ofNat port)))

/-- What a port list is once it was read. -/
structure Ports (ports : List Nat) : Prop where
  nonempty : ports ≠ []
  range : ∀ port ∈ ports, 1 ≤ port ∧ port ≤ 65535
  sorted : sortedSet ports = ports

theorem parsePortList_ports {value : Json} {name : String} {ports : List Nat}
    (h : parsePortList value name = .ok ports) : Ports ports := by
  obtain ⟨raw, -, h⟩ := Py.bind_eq_ok.mp h
  split at h
  · simp at h
  · next hraw =>
    rw [← Py.pure_eq_ok.mp h]
    simp only [Bool.or_eq_true, List.isEmpty_iff, List.any_eq_true, decide_eq_true_eq, not_or,
      not_exists, not_and] at hraw
    obtain ⟨hne, hrange⟩ := hraw
    constructor
    · obtain ⟨port, hport⟩ := List.exists_mem_of_ne_nil raw hne
      exact List.ne_nil_of_mem (mem_sortedSet.mpr (List.mem_map_of_mem hport))
    · intro port hport
      obtain ⟨n, hn, rfl⟩ := List.mem_map.mp (mem_sortedSet.mp hport)
      have := hrange n hn
      omega
    · exact sortedSet_sortedSet _

/-- The checks let ports pass that were read. -/
theorem parsePortList_of_raw {value : Json} {ports : List Nat} {name : String} (h : Ports ports)
    (hraw : rawPorts name value = .ok (ports.map Int.ofNat)) : parsePortList value name = .ok ports := by
  have hrange : (ports.map Int.ofNat).any (fun port => port < 1 || 65535 < port) = false := by
    rw [List.any_eq_false]
    intro n hn
    obtain ⟨port, hport, rfl⟩ := List.mem_map.mp hn
    have := h.range port hport
    simp
    omega
  have hempty : (ports.map Int.ofNat).isEmpty = false := by
    simpa using h.nonempty
  have hback : (ports.map Int.ofNat).map Int.toNat = ports := by simp [Function.comp_def]
  rw [parsePortList, hraw, Py.ok_bind, hempty, hrange, hback, h.sorted]
  rfl

/-- Ports that were read are read again from a list. -/
theorem parsePortList_portsJson {ports : List Nat} (h : Ports ports) (name : String) :
    parsePortList (portsJson ports) name = .ok ports := by
  refine parsePortList_of_raw h ?_
  apply Py.mapM_of_forall₂
  rw [List.forall₂_map_left_iff, List.forall₂_map_right_iff, List.forall₂_same]
  exact fun _ _ => rfl

/-! ### The QUIC mode -/

inductive QuicMode where
  | tproxy | reject
  deriving DecidableEq, Repr

def QuicMode.name : QuicMode → String
  | .tproxy => "tproxy"
  | .reject => "reject"

/-- `parse_quic_mode`. -/
def parseQuicMode (value : Json) : Py String QuicMode :=
  let text := match value with
    | .null => some "tproxy".toList
    | .str s => some (Text.strip s.toList)
    | _ => none
  if text = some "tproxy".toList then .ok .tproxy
  else if text = some "reject".toList then .ok .reject
  else Py.raise "PDG_QUIC_MODE 只能是 tproxy 或 reject"

end ProxyGateway.Render
