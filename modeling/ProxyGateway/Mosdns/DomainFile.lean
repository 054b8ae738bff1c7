import ProxyGateway.Lib.Lines
import ProxyGateway.Route.Operations

set_option autoImplicit false

/-!
# ProxyGateway.Mosdns.DomainFile

The domain files `custom_direct.txt` and `custom_hijack.txt`: the check of their lines
(`_v_mosdns_lines`), the reader (`_domain_file_snapshot`) and the writers (`_direct_text`,
`_hijack_text`). MosDNS itself is a parameter (`Matcher`): what it takes a line for.
-/

namespace ProxyGateway.Mosdns

open Text

/-! ### The code -/

/-- The kinds of entries. -/
inductive Kind where
  | domain | full | keyword | regexp
  deriving DecidableEq, Repr

/-- What an entry of the kind begins with. -/
def Kind.head : Kind → List Char
  | .domain => "domain:".toList
  | .full => "full:".toList
  | .keyword => "keyword:".toList
  | .regexp => "regexp:".toList

/-- `[A-Za-z0-9_.*-]` -/
def isEntryChar (c : Char) : Bool :=
  ('A' ≤ c && c ≤ 'Z') || ('a' ≤ c && c ≤ 'z') || ('0' ≤ c && c ≤ '9') || c = '_' || c = '.' || c = '*' || c = '-'

/-- `\S+` -/
def isSolid (cs : List Char) : Bool := cs ≠ [] && cs.all (fun c => !isSpace c)

/-- `_MOSDNS_LINE`, for a line. -/
def mosdnsLine (line : List Char) : Bool :=
  line.head? = some '#' || line.all isSpace ||
    [Kind.domain, .full, .keyword, .regexp].any (fun k => k.head.isPrefixOf line && isSolid (line.drop k.head.length)) ||
    (line ≠ [] && line.all isEntryChar)

/-- `_v_mosdns_lines` -/
def mosdnsLines (text : List Char) : Bool := (splitlines text).all (fun line => mosdnsLine (strip line))

/-- Does `_domain_file_snapshot` read a domain in the line? -/
def isRead (line : List Char) : Bool := strip line ≠ [] && line.head? ≠ some '#'

/-- The domain that is read. -/
def readAs (line : List Char) : String := String.ofList (replace Kind.domain.head [] (strip line))

/-- `_domain_file_snapshot` -/
def snapshot (text : List Char) : List String := ((splitlines text).filter isRead).map readAs

/-- The line of a domain. -/
def domainLine (d : String) : List Char := Kind.domain.head ++ d.toList

def domainFile (header : String) (domains : List String) : List Char :=
  (header.toList :: (Route.domainText domains).map domainLine).flatMap (· ++ ['\n'])

/-- `_direct_text` -/
def directText (domains : List String) : List Char := domainFile "# pdg-bot 自定义直连" domains

/-- `_hijack_text` -/
def hijackText (domains : List String) : List Char :=
  domainFile "# pdg-bot 显式出口域名劫持表(指到出口的域名必须由 mosdns 劫持才会进代理)" domains

/-! ### MosDNS -/

/-- The text in front of a comment. -/
def uncommented (line : List Char) : List Char := line.takeWhile (· ≠ '#')

/-- How MosDNS takes a line for an entry: `norm` is the form in which it compares patterns. -/
structure Matcher where
  entry : List Char → Option (Kind × List Char)
  norm : List Char → List Char
  /-- What follows `#` is a comment, and blanks around the rest do not count. -/
  comment : ∀ line, entry line = entry (strip (uncommented line))
  blank : entry [] = none
  typed : ∀ k pattern, '#' ∉ pattern → (∀ c ∈ pattern, isSpace c = false) → entry (Kind.head k ++ pattern) = some (k, norm pattern)
  bare : ∀ pattern, pattern ≠ [] → (∀ c ∈ pattern, isEntryChar c = true) → entry pattern = some (.domain, norm pattern)

/-- The entries of a file. -/
def Matcher.entries (M : Matcher) (text : List Char) : List (Kind × List Char) := (splitAt '\n' text).filterMap M.entry

/-- The entry of a domain. -/
def Matcher.domain (M : Matcher) (d : String) : Kind × List Char := (.domain, M.norm (uncommented d.toList))

end ProxyGateway.Mosdns
