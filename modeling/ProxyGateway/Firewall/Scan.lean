import ProxyGateway.Lib.Pattern
import ProxyGateway.Lib.Pieces
import ProxyGateway.Profile.Modes

set_option autoImplicit false

/-!
# ProxyGateway.Firewall.Scan

`nftscan.py`: what tables and chains a firewall configuration has, whose the table `inet pdg` is, and which
chains on the input hook are in conflict with it. The scanner reads lines, with the depth of the braces
counted on what is left of a line without its comment and its quoted strings.
-/

namespace ProxyGateway.Firewall

open Text Pattern
open Profile (FirewallMode)

abbrev Line := List Char

/-- `OURS` -/
def ours : List Char := "inet pdg".toList

/-- `OWNER_PREFIX` -/
def ownerPrefix : String := "owner=privdns-gateway;schema=1;component=firewall;mode="

def modeText : FirewallMode → String
  | .managed => "managed"
  | .external => "external"

/-! ### Noise -/

/-- `_QUOTED.sub('""', line)`; `inside` a string that is closed further on, the characters are dropped. -/
def hideQuoted : Bool → Line → Line
  | _, [] => []
  | true, c :: cs => hideQuoted (c != '"') cs
  | false, c :: cs => if c = '"' ∧ '"' ∈ cs then '"' :: '"' :: hideQuoted true cs else c :: hideQuoted false cs

/-- `_strip_noise` -/
def stripNoise (line : Line) : Line := (hideQuoted false line).takeWhile (· != '#')

/-- The braces that a line opens, less those it closes. -/
def net (line : Line) : Int := ((stripNoise line).count '{' : Int) - (stripNoise line).count '}'

/-! ### Blocks -/

/-- A declaration that is being read. -/
structure Block where
  name : List Char
  lines : List Line
  depth : Int
  opened : Bool
  deriving DecidableEq

def Block.start (name : List Char) : Block := ⟨name, [], 0, false⟩

def Block.feed (b : Block) (line : Line) : Block :=
  ⟨b.name, b.lines ++ [line], b.depth + net line, b.opened || (stripNoise line).contains '{'⟩

/-- The loop over its lines ends here. -/
def Block.closed (b : Block) : Bool := b.opened && b.depth ≤ 0

def Block.text (b : Block) : List Char := joinWith '\n' b.lines

/-- The two loops of `_named_blocks`, between two declarations or inside of one. A declaration whose braces
do not come out even takes all the lines that are left. -/
def blocksFrom (opening : Line → Option (List Char)) : Option Block → List Line → List Block
  | none, [] => []
  | some b, [] => [b]
  | inside, line :: lines =>
      match inside.or ((opening (stripNoise line)).map Block.start) with
      | none => blocksFrom opening none lines
      | some b =>
          let b := b.feed line
          if b.closed then
            if b.depth = 0 then b :: blocksFrom opening none lines else [{ b with lines := b.lines ++ lines }]
          else blocksFrom opening (some b) lines

/-- `_named_blocks` -/
def namedBlocks (opening : Line → Option (List Char)) (txt : List Char) : List Block :=
  blocksFrom opening none (splitlines txt)

section

variable (word : Char → Bool)

/-- The pattern of `_table_blocks`. -/
def tableOpening : Pattern :=
  all [blank, lit "table", blanks, group solid, blanks, group solid, blank, .text ['{']]

/-- The family and the name that a line opens a table with; both are read off its first line. -/
def tableName (clean : Line) : Option (List Char) :=
  (matchStart word tableOpening clean).map fun m => joinWith ' ' m.groups

/-- `_table_blocks` -/
def tableBlocks (txt : List Char) : List Block := namedBlocks (tableName word) txt

/-- `_pdg_blocks` -/
def pdgBlocks (txt : List Char) : List Block := (tableBlocks word txt).filter (·.name = ours)

/-- `_SET_OPEN` and `_CHAIN_OPEN`, by their keyword. -/
def openingOf (keyword : String) : Pattern := all [blank, lit keyword, blanks, group solid, blank, .text ['{']]

def nameOf (keyword : String) (clean : Line) : Option (List Char) :=
  (matchStart word (openingOf keyword) clean).bind (·.groups.head?)

def setBlocks (txt : List Char) : List Block := namedBlocks (nameOf word "set") txt

def chainBlocks (txt : List Char) : List Block := namedBlocks (nameOf word "chain") txt

/-! ### Whose table it is -/

/-- `_OWNER` -/
def owner : Pattern :=
  all [.boundary, lit "comment", blanks, lit "\"", lit ownerPrefix, .group (.either (lit "managed") (lit "external")),
    lit "\"", blank, optional (lit ";"), blank, .stop]

/-- `_HOOK_IN` -/
def hookIn : Pattern :=
  all [.boundary, lit "type", blanks, .many word 1, blanks, lit "hook", blanks, lit "input", .boundary]

/-- Words one after the other, with blanks between them. -/
def words : List String → Pattern
  | [] => .empty
  | [s] => lit s
  | s :: ss => .seq (lit s) (.seq blanks (words ss))

/-- `\b` and words and `\b`. -/
def phrase (ss : List String) : Pattern := all [.boundary, words ss, .boundary]

/-- `_POLICY_DROP` -/
def policyDrop : Pattern := phrase ["policy", "drop"]

/-- `.*` -/
def anything : Pattern := .many (· != '\n') 0

def found (a : Pattern) (txt : List Char) : Bool := (search word a txt).isSome

/-- The lines of a text without their noise. -/
def cleanText (txt : List Char) : List Char := joinWith '\n' ((splitlines txt).map stripNoise)

/-- What `_validate_owned_block` asks of a set. -/
def isPortSet (body : List Char) : Bool :=
  found word (phrase ["type", "inet_service"]) (cleanText body) &&
    found word (all [.boundary, lit "elements", blank, lit "="]) (cleanText body)

/-- What it asks of the chain `prerouting`. -/
def isPrerouting (body : List Char) : Bool :=
  let prerouting := cleanText body
  found word (phrase ["type", "nat", "hook", "prerouting"]) prerouting &&
    found word (phrase ["ip", "saddr"]) prerouting &&
    (findAll word (all [.boundary, words ["redirect", "to", ":7893"], .boundary]) prerouting).length = 2 &&
    decide ("@pdg_tls_tcp_ports".toList <:+: prerouting) && decide ("@pdg_http_tcp_ports".toList <:+: prerouting)

/-- What it asks of the chain `pdg_quic_prerouting`. -/
def isQuicPrerouting (body : List Char) : Bool :=
  let quic := cleanText body
  found word (phrase ["type", "filter", "hook", "prerouting", "priority", "mangle"]) quic &&
    found word (all [phrase ["ip", "saddr"], anything, phrase ["udp", "dport", "443"]]) quic &&
    found word (all [phrase ["meta", "mark", "set"], anything, phrase ["tproxy", "ip", "to", ":7895"]]) quic

/-- What it asks of the chain `input` in the mode `managed`. -/
def isInput (body : List Char) : Bool :=
  found word (phrase ["type", "filter", "hook", "input"]) (cleanText body) && found word policyDrop (cleanText body)

/-- The last chain of the name, as `dict(chains)` has it. -/
def bodyOf (name : String) (chains : List Block) : Option (List Char) :=
  ((chains.filter (·.name = name.toList)).getLast?).map Block.text

/-- The modes of the owner marks in a block. -/
def ownerModes (block : List Char) : List (List Char) :=
  (splitlines block).filterMap fun raw => (search word owner (strip raw)).bind (·.2.groups.head?)

/-- `_validate_owned_block`; none stands for `""`. -/
def validateOwnedBlock (block : List Char) : Option FirewallMode := do
  let [marked] := ownerModes word block | none
  let mode ← Profile.validMode marked
  let sets := setBlocks word block
  guard (sets.map Block.name = ["pdg_tls_tcp_ports".toList, "pdg_http_tcp_ports".toList])
  guard (sets.all (isPortSet word ·.text))
  let chains := chainBlocks word block
  let names := chains.map Block.name
  guard (names.Nodup ∧ names.contains "prerouting".toList = true)
  guard (names.all (["prerouting".toList, "pdg_quic_prerouting".toList, "input".toList].contains ·))
  guard ((bodyOf "prerouting" chains).any (isPrerouting word))
  guard ((bodyOf "pdg_quic_prerouting" chains).all (isQuicPrerouting word))
  match mode with
  | .managed => guard ((bodyOf "input" chains).any (isInput word))
  | .external =>
      guard (bodyOf "input" chains = none)
      guard (!found word (phrase ["hook", "input"]) (cleanText block))
  return mode

/-- What `pdg_table_status` says. -/
inductive TableStatus where
  | absent
  | foreign
  | owned (mode : FirewallMode)
  deriving DecidableEq

/-- `_PDG_DECL`, whose blanks may go over the ends of lines. -/
def pdgDecl : Pattern :=
  all [.lineStart, blank, lit "table", blanks, lit "inet", blanks, lit "pdg", optional (.seq blank (.text ['{'])), blank, .lineStop]

/-- `pdg_table_status` -/
def pdgTableStatus (txt : List Char) : TableStatus :=
  match pdgBlocks word txt with
  | [] => if found word pdgDecl txt then .foreign else .absent
  | [block] =>
      match validateOwnedBlock word block.text with
      | some mode => .owned mode
      | none => .foreign
  | _ => .foreign

/-! ### The table of old -/

/-- `re.sub(r"\s+", " ", line)`; `blank` tells whether the last character was one. -/
def squeeze : Bool → Line → Line
  | _, [] => []
  | after, c :: cs => if isSpace c then (if after then squeeze true cs else ' ' :: squeeze true cs) else c :: squeeze false cs

/-- A line of the table as it is compared. -/
def legacyLine (raw : Line) : Line :=
  (strip (squeeze false (raw.takeWhile (· != '#')))).rdropWhile (· = ';')

def digits : Pattern := .many (fun c => '0' ≤ c && c ≤ '9') 1

/-- `[0-9./]+` -/
def addresses : Pattern := .many (fun c => ('0' ≤ c && c ≤ '9') || c = '.' || c = '/') 1

/-- The rules that each have to stand in it once. -/
def legacyRequired : List Pattern := [
  lit "type nat hook prerouting priority dstnat; policy accept",
  lit "type filter hook input priority 0; policy drop",
  lit "iif \"lo\" accept",
  lit "ct state established,related accept",
  all [lit "tcp dport \x7b ", digits, lit " \x7d accept"],
  all [lit "ip saddr ", addresses, lit " tcp dport \x7b 53, 81, 853, 7893, 8445 \x7d accept"],
  all [lit "ip saddr ", addresses, lit " udp dport ", .either (lit "\x7b 53 \x7d") (lit "53"), lit " accept"],
  all [lit "ip saddr ", addresses, lit " udp dport 443 reject"],
  all [lit "ip saddr ", addresses, lit " tcp dport \x7b 80, 443", optional (lit ", 5228-5230"), lit " \x7d redirect to :7893"],
  lit "ip protocol icmp accept",
  lit "ip6 nexthdr icmpv6 accept"]

/-- The lines that may stand in it. -/
def legacyAllowed : List Pattern :=
  [lit "table inet pdg \x7b", all [lit "chain ", .either (lit "prerouting") (lit "input"), lit " \x7b"], lit "\x7d"] ++
    legacyRequired

/-- `legacy_stock_pdg_status`: is the table the one that was written before there were owner marks? -/
def legacyStockPdgStatus (txt : List Char) : Bool :=
  match pdgBlocks word txt with
  | [block] =>
      let cleanLines := ((splitlines block.text).map legacyLine).filter (· ≠ [])
      let joined := joinWith '\n' cleanLines
      let sources := (findAll word (all [lit "ip saddr ", .group addresses]) joined).map Spot.groups
      !decide (ownerPrefix.toList <:+: block.text) &&
        decide ((chainBlocks word block.text).map Block.name = ["prerouting".toList, "input".toList]) &&
        cleanLines.all (fun line => legacyAllowed.any (fullMatch word · line)) &&
        legacyRequired.all (fun a => (findAll word a joined).length = 1) &&
        decide (sources.dedup.length = 1)
  | _ => false

end

end ProxyGateway.Firewall
