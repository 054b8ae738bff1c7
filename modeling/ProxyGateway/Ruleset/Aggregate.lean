import Mathlib.Data.String.Basic
import ProxyGateway.Mosdns.DomainFile
import ProxyGateway.Pdgtx.Target
import ProxyGateway.Render.RuleProviders

set_option autoImplicit false

/-!
# ProxyGateway.Ruleset.Aggregate

The domain files that are derived from the rulesets: `_ruleset_direct_bytes` for those that the phone
reaches directly and `_ruleset_hijack_bytes` for those that lead to an exit. Both expand the source JSON
of each ruleset into `full:`, `domain:` and `keyword:` lines.
-/

namespace ProxyGateway.Ruleset

open Schema Render Mosdns Py

/-- `TxRefused` with its text, or the `ModelError` of a name. -/
inductive AggregateError where
  | refused (text : String)
  | model (e : ModelError)
  deriving DecidableEq

/-- `raise TxRefused(text)` -/
def refuse {α : Type} (text : String) : Py AggregateError α := Py.raise (.refused text)

/-- What the derivations take from outside, with `json.loads(data.decode("utf-8"))`. -/
structure Deriver where
  site : Site
  loads : Bytes → Option Json

/-! ### The file of a ruleset -/

/-- `posixpath.dirname` -/
def dirname (path : List Char) : List Char :=
  let head := path.rdropWhile (· ≠ '/')
  if head.all (· = '/') then head else head.rdropWhile (· = '/')

/-- `_RS_DIR_CANON` -/
def rsDirCanon : String := "/etc/sing-box/rs"

/-- `str(info.get(key) or "")` -/
def Deriver.textAt (D : Deriver) (info : Json) (key : String) : String :=
  let value := info.getD key .null
  if value.truthy then D.site.str value else ""

/-- `info.get("label") or name`, as a text. -/
def Deriver.labelOf (D : Deriver) (name : String) (info : Json) : String :=
  let value := info.getD "label" .null
  if value.truthy then D.site.str value else name

/-- The file name of an entry. -/
def Deriver.leafOf (D : Deriver) (name : String) (info : Json) : String :=
  let leaf := basename (D.textAt info "path")
  if leaf = "" then name ++ (if D.textAt info "format" = "mrs" then ".mrs" else ".json") else leaf

/-- The checks on a recorded path. -/
def checkPath (name raw leaf : String) : Py String Unit :=
  if raw = "" then .ok () else do
    raiseIf (decide ('\\' ∈ raw.toList)) ("规则集 " ++ name ++ " 的路径含反斜杠, 拒绝")
    raiseIf (decide (['.', '.'] ∈ Text.splitAt '/' raw.toList)) ("规则集 " ++ name ++ " 的路径含 .., 拒绝")
    raiseIf (decide (['/', '/'] <:+: raw.toList) || decide (raw.toList ≠ Text.normpath raw.toList))
      ("规则集 " ++ name ++ " 的路径不是规范化形态(" ++ raw ++ "), 拒绝")
    raiseIf (decide (dirname raw.toList ≠ rsDirCanon.toList) || decide (basename raw ≠ leaf))
      ("规则集 " ++ name ++ " 的路径不是「规则集目录 + 单个文件名」, 拒绝")

/-- `text.endswith(ending)` -/
def endsWith (ending text : String) : Bool := ending.toList.isSuffixOf text.toList

/-- A turn of `_managed_rulesets`: the file name of one entry, with the names of those seen before. -/
def managedLeaf (D : Deriver) (seen : Dict String String) (name : String) (info : Json) : Py String String := do
  raiseIf (!isDict info) ("规则集 " ++ name ++ " 的元数据不是对象")
  let fmt := D.textAt info "format"
  let leaf := D.leafOf name info
  checkPath name (D.textAt info "path") leaf
  raiseIf (!Pdgtx.rulesetRe leaf.toList)
    ("规则集 " ++ name ++ " 的文件 " ++ leaf ++ " 不是当前支持的 .json/.mrs")
  raiseIf (endsWith ".mrs" leaf && decide (fmt ≠ "mrs"))
    ("规则集 " ++ name ++ ": 扩展名是 .mrs 但格式记的是 " ++ (if fmt = "" then "空" else fmt))
  raiseIf (!endsWith ".mrs" leaf && decide (fmt ∉ ["source", "classical", "text", ""]))
    ("规则集 " ++ name ++ ": 扩展名是 .json 但格式记的是 " ++ fmt)
  raiseIf (seen.contains leaf)
    ("规则集 " ++ name ++ " 与 " ++ (seen.get? leaf).getD "" ++ " 用了同一个文件名 " ++ leaf)
  return leaf

/-- The loop of `_managed_rulesets`. -/
def managedLoop (D : Deriver) : Dict String String → List (String × Json) → Py String (Dict String String)
  | _, [] => .ok []
  | seen, (name, info) :: entries => do
      let leaf ← managedLeaf D seen name info
      let managed ← managedLoop D (seen.set leaf name) entries
      return (name, leaf) :: managed

/-- `_managed_rulesets` -/
def managedRulesets (D : Deriver) (entries : Dict String Json) : Py String (Dict String String) :=
  managedLoop D [] entries.sorted

/-- `_managed_rulesets`, with `ValueError` as `TxRefused`. -/
def managedOrRefused (D : Deriver) (entries : Dict String Json) : Py AggregateError (Dict String String) :=
  match managedRulesets D entries with
  | .ok managed => .ok managed
  | .error (.error text) => refuse text
  | .error (.fault f) => Py.fault f

/-- `staged.get(target, watched.get(target))` for the file of a ruleset. -/
def sourceData (staged watched : Dict String (Option Bytes)) (leaf : String) : Option Bytes :=
  let target := "ruleset:" ++ leaf
  match staged.get? target with
  | some data => data
  | none => (watched.get? target).join

/-! ### Entries -/

/-- The three sets of entries. -/
structure Entries where
  full : List String := []
  domain : List String := []
  keyword : List String := []

/-- `combined[prefix].update(entries[prefix])` for each of the sets. -/
def Entries.union (a b : Entries) : Entries :=
  { full := a.full ++ b.full, domain := a.domain ++ b.domain, keyword := a.keyword ++ b.keyword }

/-- The union of a list of entries. -/
def unionAll (xs : List Entries) : Entries := xs.foldl Entries.union {}

/-- `_PHONE_DIRECT_DOMAIN_RE.fullmatch` -/
def phoneDirectDomainRe (s : String) : Bool :=
  decide (1 ≤ s.length ∧ s.length ≤ 253) && (Text.splitAt '.' s.toList).all Route.domainLabel

/-- Is there a blank or a control character in the text? -/
def hasControl (s : String) : Bool := s.toList.any fun c => c.toNat < 0x21 || c.toNat = 0x7f

/-- Is `fields` the value of a field that holds host names? -/
def isHostField (field : String) : Bool := field = "domain" || field = "domain_suffix"

/-- A value of `_phone_direct_values`. -/
def phoneDirectValue (D : Deriver) (field ruleset : String) : Json → Py AggregateError String
  | .str raw => do
      raiseIf (decide (raw = "") || decide (253 < raw.utf8ByteSize))
        (.refused ("手机直连规则集 " ++ ruleset ++ " 的 " ++ field ++ " 含空值或超长值"))
      raiseIf (hasControl raw)
        (.refused ("手机直连规则集 " ++ ruleset ++ " 的 " ++ field ++ " 含空白/控制字符"))
      raiseIf (isHostField field && (decide (D.site.lower raw ≠ raw) || !phoneDirectDomainRe raw))
        (.refused ("手机直连规则集 " ++ ruleset ++ " 含非 canonical hostname: " ++ String.ofList (raw.toList.take 80)))
      return raw
  | _ => refuse ("手机直连规则集 " ++ ruleset ++ " 的 " ++ field ++ " 含空值或超长值")

/-- `_phone_direct_values` -/
def phoneDirectValues (D : Deriver) (ruleset field : String) : Json → Py AggregateError (List String)
  | .arr values => values.mapM (phoneDirectValue D field ruleset)
  | _ => refuse ("手机直连规则集 " ++ ruleset ++ " 的 " ++ field ++ " 必须是数组")

/-- A value of a ruleset for an exit. -/
def hijackValue (D : Deriver) (field ruleset : String) : Json → Py AggregateError String
  | .str raw => do
      raiseIf (decide (raw = "") || decide (253 < raw.utf8ByteSize) || hasControl raw)
        (.refused ("代理规则集 " ++ ruleset ++ " 的 " ++ field ++ " 含空值、控制字符或超长值"))
      let item := D.site.lower raw
      raiseIf (isHostField field && !phoneDirectDomainRe item)
        (.refused ("代理规则集 " ++ ruleset ++ " 含非法 hostname: " ++ String.ofList (item.toList.take 80)))
      return item
  | _ => refuse ("代理规则集 " ++ ruleset ++ " 的 " ++ field ++ " 含空值、控制字符或超长值")

/-- `values` of `_ruleset_hijack_entries`. -/
def hijackValues (D : Deriver) (ruleset field : String) : Json → Py AggregateError (List String)
  | .arr values => values.mapM (hijackValue D field ruleset)
  | _ => refuse ("代理规则集 " ++ ruleset ++ " 的 " ++ field ++ " 必须是数组")

/-- The three fields of a rule, by a reader of values. -/
def ruleEntries (values : String → Json → Py AggregateError (List String)) (rule : Json) :
    Py AggregateError Entries := do
  let full ← values "domain" (rule.getD "domain" (.arr []))
  let domain ← values "domain_suffix" (rule.getD "domain_suffix" (.arr []))
  let keyword ← values "domain_keyword" (rule.getD "domain_keyword" (.arr []))
  return { full, domain, keyword }

/-- `_PHONE_DIRECT_KEYS` -/
def phoneDirectKeys : List String := ["domain", "domain_suffix", "domain_keyword"]

/-- The keys of a rule that are not among `known`. -/
def unknownKeys (known : List String) (rule : Json) : List String :=
  ((rule.fields?.getD []).keys.filter (· ∉ known)).insertionSort (· ≤ ·)

/-- A rule of a ruleset that the phone reaches directly. -/
def phoneDirectRule (D : Deriver) (ruleset : String) (rule : Json) : Py AggregateError Entries := do
  raiseIf (!isDict rule) (.refused ("手机直连规则集 " ++ ruleset ++ " 的 rule 不是对象"))
  raiseIf (rule.get? "ip_cidr").isSome
    (.refused ("手机直连规则集 " ++ ruleset ++ " 含 ip_cidr；DNS 层无法兑现完整 IP 规则语义"))
  raiseIf (decide (unknownKeys phoneDirectKeys rule ≠ []))
    (.refused ("手机直连规则集 " ++ ruleset ++ " 含不可展开字段: " ++ ", ".intercalate (unknownKeys phoneDirectKeys rule)))
  ruleEntries (phoneDirectValues D ruleset) rule

/-- A rule of a ruleset for an exit, with `bool(rule["ip_cidr"])`. -/
def hijackRule (D : Deriver) (ruleset : String) (rule : Json) : Py AggregateError (Entries × Bool) := do
  raiseIf (!isDict rule) (.refused ("代理规则集 " ++ ruleset ++ " 的 rule 不是对象"))
  raiseIf (decide (unknownKeys ("ip_cidr" :: phoneDirectKeys) rule ≠ []))
    (.refused ("代理规则集 " ++ ruleset ++ " 含不可展开字段: " ++
      ", ".intercalate (unknownKeys ("ip_cidr" :: phoneDirectKeys) rule)))
  raiseIf (!isList (rule.getD "ip_cidr" (.arr []))) (.refused ("代理规则集 " ++ ruleset ++ " 的 ip_cidr 必须是数组"))
  let entries ← ruleEntries (hijackValues D ruleset) rule
  return (entries, (rule.getD "ip_cidr" (.arr [])).truthy)

/-- The rules of a source: `{"version": 1, "rules": [...]}` -/
def sourceRules (source : Json) : Option (List Json) :=
  match source with
  | .obj fields =>
      match Dict.get? fields "version", Dict.get? fields "rules" with
      | some version, some (.arr rules) =>
          if version.isNumber 1 && (Dict.keys fields).all (fun k => k = "version" || k = "rules") then some rules else none
      | _, _ => none
  | _ => none

/-- The parsed rules, or the refusals of both readers. -/
def loadRules (D : Deriver) (what ruleset : String) (data : Bytes) : Py AggregateError (List Json) :=
  match D.loads data with
  | none => refuse (what ++ " " ++ ruleset ++ " 不是合法 source JSON")
  | some source =>
      match sourceRules source with
      | none => refuse (what ++ " " ++ ruleset ++ " 必须是 version=1 的 source JSON")
      | some rules => .ok rules

/-- `_phone_direct_entries` -/
def phoneDirectEntries (D : Deriver) (data : Bytes) (ruleset : String) : Py AggregateError Entries := do
  let rules ← loadRules D "手机直连规则集" ruleset data
  let entries ← rules.mapM (phoneDirectRule D ruleset)
  return unionAll entries

/-- `_ruleset_hijack_entries` -/
def rulesetHijackEntries (D : Deriver) (data : Bytes) (ruleset : String) : Py AggregateError (Entries × Bool) := do
  let rules ← loadRules D "代理规则集" ruleset data
  let entries ← rules.mapM (hijackRule D ruleset)
  return (unionAll (entries.map Prod.fst), entries.any Prod.snd)

/-! ### The two files -/

/-- The lines of a file: its header, the notes, and the sorted entries of each set. -/
def aggregateLines (header : String) (notes : List (List Char)) (e : Entries) : List (List Char) :=
  header.toList :: notes ++ (Route.domainText e.full).map (Kind.full.head ++ ·.toList) ++
    (Route.domainText e.domain).map (Kind.domain.head ++ ·.toList) ++
    (Route.domainText e.keyword).map (Kind.keyword.head ++ ·.toList)

/-- `"".join(lines)` -/
def aggregateText (header : String) (notes : List (List Char)) (e : Entries) : List Char :=
  (aggregateLines header notes e).flatMap (· ++ ['\n'])

/-- `info.get("outbound") == "direct"` -/
def isDirect (info : Json) : Bool := info.get? "outbound" = some (.str "direct")

/-- `managed[name]` -/
def managedAt (managed : Dict String String) (name : String) : Py AggregateError String :=
  match managed.get? name with
  | some leaf => .ok leaf
  | none => Py.fault .key

/-- A turn of `_ruleset_direct_bytes`. -/
def directTurn (D : Deriver) (staged watched : Dict String (Option Bytes)) (managed : Dict String String)
    (p : String × Json) : Py AggregateError Entries := do
  let leaf ← managedAt managed p.1
  raiseIf (!endsWith ".json" leaf ||
      decide (p.2.get? "format" ∉ [some (.str "source"), some (.str "text"), some (.str "")]))
    (.refused ("规则集 " ++ D.labelOf p.1 p.2 ++ " 指向手机本地直连时只支持可展开的 source JSON；.mrs/.srs 不支持"))
  match sourceData staged watched leaf with
  | none => refuse ("手机直连规则集 " ++ p.1 ++ " 缺少 source JSON")
  | some data => phoneDirectEntries D data (D.labelOf p.1 p.2)

/-- `_ruleset_direct_bytes`, before it is encoded. -/
def rulesetDirectBytes (D : Deriver) (m : RulesetMeta) (staged watched : Dict String (Option Bytes)) :
    Py AggregateError (List Char) := do
  let managed ← managedOrRefused D m.entries
  let entries ← (m.entries.sorted.filter fun p => isDirect p.2).mapM (directTurn D staged watched managed)
  return aggregateText "# pdg-bot 规则集手机本地直连聚合（事务派生；不要手工编辑）" [] (unionAll entries)

/-- A turn of `_ruleset_hijack_bytes`: the entries, and the note if there is one. -/
def hijackTurn (D : Deriver) (staged watched : Dict String (Option Bytes)) (managed : Dict String String)
    (p : String × Json) : Py AggregateError (Entries × List (List Char)) := do
  let leaf ← managedAt managed p.1
  let displayName ← displayed D p.1
  if endsWith ".json" leaf then
    match sourceData staged watched leaf with
    | none => refuse ("代理规则集 " ++ p.1 ++ " 缺少 source JSON")
    | some data => do
        let (entries, hasIp) ← rulesetHijackEntries D data (D.labelOf p.1 p.2)
        return (entries, if hasIp then
          [("# " ++ displayName ++ ": IP-CIDR 不可转换为 DNS 名称，未猜测").toList] else [])
  else return ({}, [("# " ++ displayName ++ ": binary provider 未展开；DNS 不猜测其域名").toList])
where
  /-- `pdgmodel.normalize_name(name, "ruleset name")` -/
  displayed (D : Deriver) (name : String) : Py AggregateError String :=
    match normalizeName D.site.host.unicode (.str name) "ruleset name" with
    | .ok displayName => .ok displayName
    | .error (.error e) => Py.raise (.model e)
    | .error (.fault f) => Py.fault f

/-- `_ruleset_hijack_bytes`, before it is encoded. -/
def rulesetHijackBytes (D : Deriver) (m : RulesetMeta) (staged watched : Dict String (Option Bytes)) :
    Py AggregateError (List Char) := do
  let managed ← managedOrRefused D m.entries
  let turns ← (m.entries.sorted.filter fun p => !isDirect p.2).mapM (hijackTurn D staged watched managed)
  return aggregateText "# pdg-bot 代理规则集 DNS 劫持聚合（事务派生；不要手工编辑）" (turns.flatMap Prod.snd)
    (unionAll (turns.map Prod.fst))

end ProxyGateway.Ruleset
