import ProxyGateway.Firewall.Scan

set_option autoImplicit false

/-!
# ProxyGateway.Firewall.Merge

`nftmerge.py`: the rendered table `inet pdg` is put into the configuration of the firewall in place of the
one that stands there, or taken out of it. What belongs to it is found line by line; a table of that name
that is not ours stops the merge.
-/

namespace ProxyGateway.Firewall

open Text Pattern
open Profile (FirewallMode StateFile)

/-- `BANNER` -/
def banner : Line := "# ==== PrivDNS Gateway 管理区(table inet pdg): owner/schema 由 pdg 自动维护 ====".toList

/-- `OLD_BANNER` -/
def oldBanner : Line := "# ==== PrivDNS Gateway 管理区(table inet pdg): 由 pdg 自动维护, 勿手改 ====".toList

/-- `MANAGED_BEGIN` -/
def managedBegin : Line := "# PDG_MANAGED_INPUT_BEGIN".toList

/-- `MANAGED_END` -/
def managedEnd : Line := "# PDG_MANAGED_INPUT_END".toList

/-- `table inet pdg`, with the pattern of what may follow. -/
def pdgTable (rest : List Pattern) : Pattern :=
  all ([blank, lit "table", blanks, lit "inet", blanks, lit "pdg"] ++ rest)

/-- `DECL` -/
def decl : Pattern := pdgTable [blank, .stop]

/-- `DELETE` -/
def deletion : Pattern :=
  all [blank, lit "delete", blanks, lit "table", blanks, lit "inet", blanks, lit "pdg", blank, .stop]

/-- `OPEN` -/
def opening : Pattern := pdgTable [blank, .text ['{']]

/-- `OTHER_TABLE` -/
def otherTable : Pattern := all [blank, lit "table", blanks, solid, blanks, group solid]

/-- The pattern of `_check_flush`. -/
def flushRuleset : Pattern := all [blank, lit "flush", blanks, lit "ruleset", blank, .stop]

/-- The values that `OWNER_MODE` finds behind `ownerPrefix`. -/
def ownerValues : Pattern := .either (lit "managed") (.either (lit "external") (lit "__FIREWALL_MODE__"))

/-- `OWNER_MODE` -/
def ownerMode : Pattern := all [.group (lit ownerPrefix), .group ownerValues]

/-- A `MergeError`. -/
inductive Refusal where
  | mode (e : Profile.MergeError)
  | beginsTwice
  | endsFirst
  | regionOpen
  | notOwned
  | noTable
  | legacy
  | foreign
  | unbalanced (line : Nat)
  | flush (line : Nat) (lost : List (List Char))
  deriving DecidableEq

/-- The exit code. -/
def Refusal.code : Refusal → Nat
  | .mode .undecodable => 1
  | .mode _ | .notOwned | .noTable | .legacy | .foreign => 4
  | .beginsTwice | .endsFirst | .regionOpen | .unbalanced _ => 2
  | .flush _ _ => 3

section

variable (word : Char → Bool)

def fits (a : Pattern) (line : Line) : Bool := (matchStart word a line).isSome

/-! ### The block -/

/-- The loop of `_render_mode` over the lines. -/
structure Region where
  out : List Line
  inside : Bool
  begins : Nat
  ends : Nat

def Region.feed (mode : FirewallMode) (r : Region) (line : Line) : Except Refusal Region :=
  let stripped := strip line
  if stripped = managedBegin then
    if r.inside then .error .beginsTwice else .ok { r with inside := true, begins := r.begins + 1 }
  else if stripped = managedEnd then
    if r.inside then .ok { r with inside := false, ends := r.ends + 1 } else .error .endsFirst
  else if mode = .external ∧ r.inside = true then .ok r
  else .ok { r with out := r.out ++ [line] }

/-- `OWNER_MODE.sub`, where `skip` characters belong to the last match. -/
def setOwnerMode (mode : FirewallMode) : Nat → List Char → List Char
  | _, [] => []
  | skip + 1, _ :: cs => setOwnerMode mode skip cs
  | 0, c :: cs =>
      match matchStart word ownerMode (c :: cs) with
      | some m => ownerPrefix.toList ++ (modeText mode).toList ++ setOwnerMode mode (cs.length - m.rest.length) cs
      | none => c :: setOwnerMode mode 0 cs

/-- `_render_mode` -/
def renderMode (block : List Char) (mode : FirewallMode) : Except Refusal (List Char) := do
  let region ← (splitlines (setOwnerMode word mode 0 block)).foldlM (Region.feed mode) ⟨[], false, 0, 0⟩
  if region.inside ∨ region.begins ≠ 1 ∨ region.ends ≠ 1 then throw .regionOpen
  let rendered := (joinWith '\n' region.out).rdropWhile (· = '\n')
  if pdgTableStatus word rendered ≠ .owned mode then throw .notOwned
  return rendered

/-! ### The target -/

/-- What `_target_status` says. -/
inductive TargetStatus where
  | absent
  | foreign
  | legacyStock
  | owned (mode : FirewallMode)
  deriving DecidableEq

def bannerCount (text : List Char) : Nat := count banner text + count oldBanner text

/-- How many lines the pattern matches. -/
def lineCount (a : Pattern) (text : List Char) : Nat := (splitlines text).countP (fits word a)

/-- `_target_status` -/
def targetStatus (text : List Char) : TargetStatus :=
  match pdgTableStatus word text with
  | .absent =>
      if bannerCount text ≠ 0 ∨ lineCount word decl text ≠ 0 ∨ lineCount word deletion text ≠ 0 ∨
        (pdgBlocks word text).length ≠ 0 then .foreign else .absent
  | .foreign => if legacyStockPdgStatus word text then .legacyStock else .foreign
  | .owned mode =>
      if 1 < bannerCount text ∨ 1 < lineCount word decl text ∨ 1 < lineCount word deletion text ∨
        (pdgBlocks word text).length ≠ 1 then .foreign else .owned mode

/-! ### Taking it out -/

/-- A line of its own that belongs to the block: a banner, a declaration, a deletion. -/
def isMark (line : Line) : Bool :=
  strip line = banner || strip line = oldBanner || fits word decl line || fits word deletion line

/-- `keep` and `first_hit`. -/
structure Kept where
  keep : List Line
  firstHit : Option Nat
  deriving DecidableEq

def Kept.hit (k : Kept) : Kept := { k with firstHit := k.firstHit.or (some k.keep.length) }

/-- The loops of `_remove_owned`, between the tables or inside of ours: the line it started at and the depth.
`i` is the number of the last line that was read. -/
def removeFrom (k : Kept) (i : Nat) : Option (Nat × Int) → List Line → Except Refusal Kept
  | none, [] => .ok k
  | some (start, _), [] => .error (.unbalanced start)
  | none, line :: lines =>
      if isMark word line then removeFrom k.hit (i + 1) none lines
      else if fits word opening line then
        if net line ≤ 0 then
          if net line = 0 then removeFrom k.hit (i + 1) none lines else .error (.unbalanced (i + 1))
        else removeFrom k.hit (i + 1) (some (i + 1, net line)) lines
      else removeFrom { k with keep := k.keep ++ [line] } (i + 1) none lines
  | some (start, depth), line :: lines =>
      if depth + net line ≤ 0 then
        if depth + net line = 0 then removeFrom k (i + 1) none lines else .error (.unbalanced start)
      else removeFrom k (i + 1) (some (start, depth + net line)) lines

/-- `_remove_owned` -/
def removeOwned (text : List Char) (allowLegacy : Bool) : Except Refusal (List Char × Option Nat) := do
  let status := targetStatus word text
  if status = .legacyStock ∧ allowLegacy = false then throw .legacy
  if status = .foreign then throw .foreign
  if status = .absent then return (text, none)
  let k ← removeFrom word ⟨[], none⟩ 0 none (splitAt '\n' text)
  return (joinWith '\n' k.keep, k.firstHit)

/-- `text.split()` -/
def fields (text : List Char) : List (List Char) :=
  (text.splitOnP isSpace).filter (· ≠ [])

/-- The tables of the lines, as `_check_flush` names them. -/
def tablesIn (lines : List Line) : List (List Char) :=
  (lines.filter (fits word otherTable)).filterMap fun line =>
    match fields line with
    | _ :: family :: name :: _ => some (joinWith ' ' [family, name.rdropWhile (· = '{')])
    | _ => none

/-- The tables of `nft list tables`. -/
def liveTables (stdout : List Char) : List (List Char) :=
  (splitlines stdout).filterMap fun line =>
    match fields line with
    | first :: family :: name :: _ => if first = "table".toList then some (joinWith ' ' [family, name]) else none
    | _ => none

/-- `_check_flush`; `live` is what `nft list tables` prints, none where it cannot be read. -/
def checkFlush (live : Option (List Char)) (lines : List Line) : Except Refusal Unit :=
  match lines.findIdx? (fits word flushRuleset) with
  | none => .ok ()
  | some i =>
      let lost := ((live.map liveTables).getD []).filter fun table => !(ours :: tablesIn word lines).contains table
      if lost = [] then .ok () else .error (.flush (i + 1) (lost.take 5))

/-! ### Putting it in -/

def isBlank (line : Line) : Bool := strip line = []

/-- The content that `_write` writes. -/
def written (content : List Char) : List Char :=
  if content.getLast? = some '\n' then content else content ++ ['\n']

/-- The files that are read besides the target, and the answer of `nft list tables`. -/
structure Site where
  state : StateFile
  profile : List Char
  live : Option (List Char)

/-- The pattern of `_replace`. -/
def pdgStart : Pattern := all [.lineStart, pdgTable [], .boundary]

/-- The mode of a merge: the one that is given, or the one that was chosen before. -/
def mergeMode (site : Site) (explicit : List Char) (source : List Char) : Except Refusal FirewallMode :=
  (if explicit ≠ [] then Profile.strictMode explicit "--mode"
    else Profile.mergePersistedMode site.state site.profile
      ((search word ownerMode source).bind (·.2.groups[1]?))).mapError Refusal.mode

/-- The block that `_replace` puts in. -/
def renderBlock (site : Site) (explicit source : List Char) : Except Refusal (List Char) := do
  let some start := search word pdgStart source | throw .noTable
  let mode ← mergeMode word site explicit start.1
  let rendered ← renderMode word start.1 mode
  return banner ++ '\n' :: rendered

/-- What `_replace` makes of the lines that are kept, around the block. -/
def weave (block : List Line) (head tail : List Line) : List Line :=
  head ++ (if head = [] then [] else [[]]) ++ block ++ (if tail = [] then [] else [[]]) ++ tail

/-- The second half of `_replace`, with the block in hand. -/
def mergeBlock (live : Option (List Char)) (block current : List Char) : Except Refusal (List Char) := do
  let (removed, firstHit) ← removeOwned word current true
  let keep := splitAt '\n' removed
  checkFlush word live keep
  match firstHit with
  | none =>
      let keep := keep.rdropWhile isBlank
      return written (joinWith '\n' keep ++ (if keep = [] then [] else ['\n', '\n']) ++ block)
  | some n =>
      let head := (keep.take n).rdropWhile isBlank
      let tail := (keep.drop n).dropWhile isBlank
      return written (joinWith '\n' (weave (splitAt '\n' block) head tail))

/-- `_replace` -/
def replaceTable (site : Site) (explicit source current : List Char) : Except Refusal (List Char) := do
  let block ← renderBlock word site explicit source
  mergeBlock word site.live block current

/-- `_remove` -/
def removeTable (current : List Char) : Except Refusal (List Char) := do
  let (result, _) ← removeOwned word current false
  return written (result.rdropWhile (· = '\n'))

end

end ProxyGateway.Firewall
