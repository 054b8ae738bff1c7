import ProxyGateway.Pdgtx.Target
import ProxyGateway.Schema.Importer

set_option autoImplicit false

/-!
# ProxyGateway.Restore.Extract

`_safe_extract`: the members of a backup archive are checked one by one as the reader delivers them, and
each that is accepted is written below the destination. Where a member is refused, a limit is exceeded or
the reader fails, the files that were written are removed again.
-/

namespace ProxyGateway.Restore

open Schema Py

abbrev Path := String

abbrev Bytes := List UInt8

/-- The files of the system with their contents. Directories are not among them. -/
abbrev Files := Dict Path Bytes

/-! ### Limits -/

/-- `RESTORE_MAX_MODEL_BYTES` -/
def maxModelBytes : Nat := 24 * 1024 * 1024

/-- `RESTORE_MAX_MEMBERS`, `RESTORE_MAX_FILE_BYTES` and `RESTORE_MAX_TOTAL_BYTES`. -/
structure Limits where
  members : Nat
  file : Nat
  total : Nat
  members_range : 16 ≤ members ∧ members ≤ 20000
  file_range : 64 * 1024 ≤ file ∧ file ≤ 512 * 1024 * 1024
  total_ge : max file maxModelBytes ≤ total

/-- The limits where the environment names none. -/
def defaultLimits : Limits where
  members := 512
  file := 8 * 1024 * 1024
  total := 64 * 1024 * 1024
  members_range := by decide
  file_range := by decide
  total_ge := by decide

/-- `_restore_member_limit` -/
def restoreMemberLimit (limits : Limits) (name : String) : Nat :=
  if name = "etc/sing-box/config.json" then maxModelBytes else limits.file

/-! ### The allowed members -/

/-- The keys of `RESTORE_MAP`. -/
def restoreMap : List String :=
  ["etc/sing-box/config.json", "etc/mosdns/config.yaml", "etc/mosdns/rules/custom_direct.txt",
   "etc/mosdns/rules/ruleset_direct.txt", "etc/mosdns/rules/ruleset_hijack.txt",
   "etc/mosdns/rules/custom_hijack.txt", "opt/pdg-bot/rulesets.json"]

/-- `BACKUP_MANIFEST` -/
def backupManifest : String := "manifest.json"

/-- `RESTORE_RS_PREFIX` -/
def restoreRsPrefix : String := "etc/sing-box/rs/"

/-- `RESTORE_PROVIDER_PREFIX` -/
def restoreProviderPrefix : String := "etc/mihomo/providers/"

/-- `_RS_LEAF_RE.fullmatch` -/
def rsLeafRe (leaf : List Char) : Bool := Pdgtx.stemAndExt tagChar ["json", "mrs"] leaf

/-- `_restore_member_allowed` -/
def restoreMemberAllowed (name : String) : Bool :=
  if decide (name ∈ restoreMap) || name = backupManifest then true
  else if restoreRsPrefix.toList.isPrefixOf name.toList then rsLeafRe (name.toList.drop restoreRsPrefix.length)
  else if restoreProviderPrefix.toList.isPrefixOf name.toList then
    managedLeafRe (name.toList.drop restoreProviderPrefix.length)
  else false

/-! ### What the archive and the operating system deliver -/

inductive MemberKind where
  | regular | directory | symlink | hardlink | character | block | fifo | other
  deriving DecidableEq

/-- One turn of the loop: the member that `tar.next()` returns, what reading it gives, and what the
operating system answers when it is written. -/
structure Member where
  name : String
  kind : MemberKind
  size : Int
  /-- `tar.extractfile(m)` is not `None`. -/
  readable : Bool := true
  /-- The chunks that reading returns, -/
  chunks : List Bytes
  /-- and whether the next read raises. -/
  broken : Bool := false
  /-- `os.makedirs` succeeds. -/
  makes : Bool := true
  /-- `os.path.islink(target)` -/
  link : Bool := false
  /-- `open(target, "wb")` succeeds. -/
  opens : Bool := true
  /-- `os.chmod` succeeds. -/
  chmods : Bool := true

/-- The members that an archive delivers, and whether `tar.next()` raises behind them. -/
structure Archive where
  members : List Member
  broken : Bool := false

/-- The destination: its real path, and `os.path.realpath(os.path.join(root, name))`. -/
structure Destination where
  root : Path
  resolve : String → Path

inductive ExtractError where
  | value (text : String)
  /-- The reader fails on a truncated or corrupt stream. -/
  | stream
  /-- An `OSError`. -/
  | os
  deriving DecidableEq

/-! ### The checks on a member -/

/-- The counters of the loop. -/
structure Counters where
  seen : Nat := 0
  seenNames : List String := []
  declaredTotal : Int := 0
  writtenTotal : Nat := 0

/-- Is the name absolute? -/
def isAbsolute (raw : String) : Bool := raw.toList.head? = some '/' || raw.toList.head? = some '\\'

/-- Has the name a segment `..`? -/
def hasParent (raw : String) : Bool :=
  (Text.splitAt '/' (raw.toList.map fun c => if c = '\\' then '/' else c)).any (· = ['.', '.'])

/-- The name without `./` in front. -/
def memberName (raw : String) : String :=
  if ['.', '/'].isPrefixOf raw.toList then String.ofList (raw.toList.drop 2) else raw

/-- `target == root or target.startswith(root + os.sep)` -/
def isInside (root target : Path) : Bool :=
  target = root || (root.toList ++ ['/']).isPrefixOf target.toList

/-- The checks on the raw name and the kind of a member. -/
def checkShape (m : Member) : Py ExtractError Unit := do
  raiseIf (isAbsolute m.name) (.value ("备份含绝对路径成员, 拒绝整个备份: " ++ m.name))
  raiseIf (hasParent m.name) (.value ("备份含 `..` 路径成员, 拒绝整个备份: " ++ m.name))
  raiseIf (decide (m.kind ∈ [.symlink, .hardlink]))
    (.value ("备份含链接成员(可用于写穿解压目录), 拒绝整个备份: " ++ m.name))
  raiseIf (decide (m.kind ∈ [.character, .block, .fifo]))
    (.value ("备份含设备/FIFO 成员, 拒绝整个备份: " ++ m.name))

/-- The checks on a member that is no directory, up to the opening of its target. -/
def acceptFile (limits : Limits) (dest : Destination) (c : Counters) (m : Member) :
    Py ExtractError (Counters × Path) := do
  raiseIf (decide (m.kind ≠ .regular)) (.value ("备份含非普通文件成员, 拒绝整个备份: " ++ m.name))
  let name := memberName m.name
  raiseIf (decide (name ∈ c.seenNames))
    (.value ("备份里同一个成员出现了两次, 拒绝整个备份: " ++ m.name))
  raiseIf (!restoreMemberAllowed name) (.value ("备份含白名单之外的成员, 拒绝整个备份: " ++ m.name))
  let memberLimit := restoreMemberLimit limits name
  raiseIf (decide ((memberLimit : Int) < m.size))
    (.value ("备份内文件过大(" ++ m.name ++ ", >" ++ toString memberLimit ++ " 字节), 拒绝整个备份"))
  let declaredTotal := c.declaredTotal + m.size
  raiseIf (decide ((limits.total : Int) < declaredTotal))
    (.value ("备份声明总量过大(>" ++ toString limits.total ++ " 字节), 拒绝整个备份"))
  let target := dest.resolve name
  raiseIf (!isInside dest.root target) (.value ("备份成员越界, 拒绝整个备份: " ++ m.name))
  raiseIf (!m.makes) .os
  raiseIf (!m.readable) (.value ("备份成员无法读取, 拒绝整个备份: " ++ m.name))
  raiseIf m.link (.value ("备份成员目标是符号链接, 拒绝整个备份: " ++ m.name))
  raiseIf (!m.opens) .os
  return ({ c with seenNames := name :: c.seenNames, declaredTotal }, target)

/-- A turn of the loop up to the opening of the target; a directory has none. -/
def acceptMember (limits : Limits) (dest : Destination) (c : Counters) (m : Member) :
    Py ExtractError (Counters × Option Path) := do
  let c := { c with seen := c.seen + 1 }
  raiseIf (decide (limits.members < c.seen))
    (.value ("备份成员过多(>" ++ toString limits.members ++ "), 拒绝整个备份"))
  checkShape m
  if m.kind = .directory then return (c, none)
  else do
    let (c, target) ← acceptFile limits dest c m
    return (c, some target)

/-! ### Writing -/

/-- The loop that copies a member: the bytes that are written, and the new total or an exception. -/
def copyChunks (limits : Limits) (broken : Bool) : Nat → List Bytes → Bytes × Py ExtractError Nat
  | total, [] => if broken then ([], Py.raise .stream) else ([], .ok total)
  | total, chunk :: chunks =>
      if chunk = [] then ([], .ok total)
      else if limits.total < total + chunk.length then
        ([], Py.raise (.value ("备份实际解出量超限(>" ++ toString limits.total ++ " 字节), 拒绝整个备份")))
      else
        let rest := copyChunks limits broken (total + chunk.length) chunks
        (chunk ++ rest.1, rest.2)

/-- What a member writes once its target is open, with `os.chmod` behind it. -/
def copyMember (limits : Limits) (c : Counters) (m : Member) : Bytes × Py ExtractError Counters :=
  let (bytes, copied) := copyChunks limits m.broken c.writtenTotal m.chunks
  (bytes, do
    let writtenTotal ← copied
    raiseIf (!m.chmods) .os
    return { c with writtenTotal })

/-- The state of the loop: the files, and the targets that are complete. -/
structure Extraction where
  files : Files
  written : List Path := []

/-- `_safe_extract_loop` -/
def safeExtractLoop (limits : Limits) (dest : Destination) (broken : Bool) :
    Counters → List Member → Extraction → Extraction × Py ExtractError Unit
  | _, [], s => (s, if broken then Py.raise .stream else .ok ())
  | c, m :: members, s =>
      match acceptMember limits dest c m with
      | .error e => (s, .error e)
      | .ok (c, none) => safeExtractLoop limits dest broken c members s
      | .ok (c, some target) =>
          match copyMember limits c m with
          | (bytes, .error e) => ({ s with files := s.files.set target bytes }, .error e)
          | (bytes, .ok c) =>
              safeExtractLoop limits dest broken c members
                { files := s.files.set target bytes, written := s.written ++ [target] }

/-- `_safe_extract` -/
def safeExtract (limits : Limits) (dest : Destination) (archive : Archive) (files : Files) :
    Files × Py ExtractError Unit :=
  match safeExtractLoop limits dest archive.broken {} archive.members { files } with
  | (s, .ok ()) => (s.files, .ok ())
  | (s, .error e) => (s.written.reverse.foldl Dict.erase s.files, .error e)

end ProxyGateway.Restore
