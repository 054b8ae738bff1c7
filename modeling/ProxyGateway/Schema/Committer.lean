import ProxyGateway.Schema.Importer

set_option autoImplicit false

/-!
# ProxyGateway.Schema.Committer

`pdgtx._v_json_model`: the validator of the model target inside a transaction. It answers
`(True, "")` or `(False, text)`; here the first is success, the second raises the text, and a
fault is an exception that leaves the validator. The data is the document together with the
length of its encoding, since reading back what `json.dumps` wrote gives the document.
-/

namespace ProxyGateway.Schema

/-- The bytes of a model target: the document they encode, and how many they are. -/
structure ModelData where
  doc : Json
  size : Nat

/-- `pdg-bot._model_bytes`: the encoded document. -/
def botModelBytes (H : Host) (model : Json) : ModelData :=
  ⟨model, (model.dumps H.floatRepr 0).utf8ByteSize⟩

/-- `pdgconfigio._model_bytes`: with a line feed at the end. -/
def webModelBytes (H : Host) (model : Json) : ModelData := ⟨model, modelBytesLength H model⟩

/-! ### Constants of the validator -/

def maxManagedFile : Nat := 8 * 1024 * 1024

def maxManagedModel : Nat := 24 * 1024 * 1024

def maxManagedBundle : Nat := 32 * 1024 * 1024

def blockedAdvanced : List String :=
  ["name", "type", "server", "port", "password", "username", "uuid",
   "cipher", "alterId", "flow", "auth", "auth-str", "up", "down",
   "congestion-controller", "udp-relay-mode", "tls", "servername", "sni",
   "skip-cert-verify", "alpn", "reality-opts", "client-fingerprint",
   "network", "ws-opts", "grpc-opts", "tfo"]

def ownedAdvanced : List String :=
  ["allow-lan", "bind-address", "dns", "external-controller",
   "external-ui", "external-ui-url", "listeners", "mixed-port", "port",
   "redir-port", "secret", "sniffer", "socks-port", "tproxy-port", "tun",
   "proxies", "proxy-providers", "proxy-groups", "rule-providers", "rules",
   "mode", "log-level"]

/-- `proxy_provider_fields` and `rule_provider_fields`. -/
def schemaFields : ProviderKind → List String
  | .proxy => ["type", "url", "path", "interval", "size-limit", "health-check", "filter",
      "exclude-filter", "override"]
  | .rule => ["type", "url", "path", "interval", "size-limit", "format", "behavior"]

/-! ### The nested functions -/

mutual

/-- `safe_advanced`: the budget where the value is safe. -/
def safeAdvanced (value : Json) (depth budget : Nat) : Option Nat :=
  if depth > 12 then none
  else if budget + 1 > 4096 then none
  else match value with
    | .null | .bool _ | .int _ => some (budget + 1)
    | .float (.finite _) => some (budget + 1)
    | .float _ => none
    | .str s => if decide (s.length ≤ 16384) && !hasNul s then some (budget + 1) else none
    | .arr xs => safeAdvancedItems xs (depth + 1) (budget + 1)
    | .obj kvs => safeAdvancedFields kvs (depth + 1) (budget + 1)

/-- `all(...)` over a list. -/
def safeAdvancedItems (xs : List Json) (depth budget : Nat) : Option Nat :=
  match xs with
  | [] => some budget
  | x :: xs => (safeAdvanced x depth budget).bind (safeAdvancedItems xs depth)

/-- `all(...)` over an object. -/
def safeAdvancedFields (kvs : List (String × Json)) (depth budget : Nat) : Option Nat :=
  match kvs with
  | [] => some budget
  | (key, x) :: kvs =>
      if decide (key ≠ "") && decide (key.length ≤ 128) && !hasNul key then
        (safeAdvanced x depth budget).bind (safeAdvancedFields kvs depth)
      else none

end

/-- `http_url`. -/
def httpUrl (value : Json) : Bool :=
  match value with
  | .str url => decide (url.length ≤ 8192) && httpUrlRe url
  | _ => false

/-- `key not in provider or provider[key] in allowed`. -/
def choiceIn (provider : Json) (key : String) (allowed : List String) : Py String Bool :=
  match provider.get? key with
  | some value => value.within allowed
  | none => .ok true

/-- The part of `provider_schema` on an override that is there. -/
def overrideSchema (override : Json) : Bool :=
  isDict override &&
    !extraKeys (override.fields?.getD []) ["additional-prefix", "additional-suffix", "udp", "tfo"] &&
    ["additional-prefix", "additional-suffix"].all
      (fun key => !badText 128 (override.getD key .null)) &&
    ["udp", "tfo"].all (fun key => (override.get? key).all isBool)

/-- The part of `provider_schema` on a health check that is there. -/
def healthSchema (health : Json) : Bool :=
  isDict health && !extraKeys (health.fields?.getD []) ["enable", "url", "interval", "lazy"] &&
    isBool (health.getD "enable" (.bool true)) && httpUrl (health.getD "url" .null) &&
    isIntIn 1 604800 (health.getD "interval" .null) && (health.get? "lazy").all isBool

/-- `value is None or test(value)`. -/
def nullOr (test : Json → Bool) (value : Json) : Bool := decide (value = .null) || test value

/-- `provider_schema`. -/
def providerSchema (kind : ProviderKind) (provider : Json) : Py String Bool := do
  if extraKeys (provider.fields?.getD []) (schemaFields kind) then return false
  if !nullOr (isIntIn 1 604800) (provider.getD "interval" .null) then return false
  if !nullOr (isIntIn 1 (1024 * 1024 * 1024)) (provider.getD "size-limit" .null) then return false
  if ["filter", "exclude-filter"].any (fun key => badText 4096 (provider.getD key .null)) then
    return false
  if !nullOr healthSchema (provider.getD "health-check" .null) then return false
  if !nullOr overrideSchema (provider.getD "override" .null) then return false
  if !(← choiceIn provider "format" (providerFormats kind)) then return false
  choiceIn provider "behavior" ["domain", "ipcidr", "classical"]

/-- `group_schema`. -/
def groupSchema (group : Json) : Py String Bool := do
  if !(group.getD "type" .null).hashable then Py.fault .type
  match (group.getD "type" .null).str?.bind groupFields with
  | none => return false
  | some allowed =>
      if extraKeys (group.fields?.getD []) allowed then return false
      if ["lazy", "disable-udp", "hidden"].any (fun key => (group.get? key).any (!isBool ·)) then
        return false
      if (group.get? "url").any (!httpUrl ·) then return false
      if (group.get? "interval").any (!isIntIn 1 604800 ·) then return false
      if (group.get? "tolerance").any (!isIntIn 0 65535 ·) then return false
      choiceIn group "strategy" strategies

/-! ### The parts of the validator -/

/-- The turn of the loop over the outbounds. -/
def proxyMetaSafe (outbound : Json) : Py String Unit :=
  let refusal := "config.json 的 per-proxy Mihomo 扩展字段不安全"
  match outbound.get? "_pdg_mihomo" with
  | none => .ok ()
  | some proxyMeta => do
      raiseIf (!isDict proxyMeta || !sameKeys (proxyMeta.fields?.getD []) ["advanced"]) refusal
      let .obj advanced := proxyMeta.getD "advanced" .null | Py.raise refusal
      raiseIf ((Dict.keys advanced).any (· ∈ blockedAdvanced) ||
          (safeAdvanced (.obj advanced) 0 0).isNone ||
          (Dict.get? advanced "udp").any (!isBool ·)) refusal
      raiseIf (!(← choiceIn (.obj advanced) "packet-encoding" ["packetaddr", "xudp"])) refusal

/-- The envelope of the metadata, and its four maps. -/
def metaShape (pdg : Json) : Py String MihomoMeta := do
  raiseIf (!isDict pdg || !sameKeys (pdg.fields?.getD []) ["schema", "policy-groups", "mihomo"])
    "config.json 的 _pdg 元数据不合法"
  let mihomo := pdg.getD "mihomo" .null
  raiseIf (!(pdg.getD "schema" .null).isNumber 3 || !isDict mihomo)
    "config.json 的 _pdg schema 不是受支持的 v3"
  raiseIf (!sameKeys (mihomo.fields?.getD [])
      ["proxy-providers", "rule-providers", "advanced", "managed-files"])
    "config.json 的 Mihomo 扩展字段不完整"
  match mihomo.getD "proxy-providers" .null, mihomo.getD "rule-providers" .null,
      mihomo.getD "advanced" .null, mihomo.getD "managed-files" .null with
  | .obj proxy, .obj rule, .obj advanced, .obj managed => return ⟨proxy, rule, advanced, managed⟩
  | _, _, _, _ => Py.raise "config.json 的 Mihomo 扩展字段类型不合法"

/-- The advanced fields at the top. -/
def advancedSafe (advanced : Dict String Json) : Py String Unit :=
  raiseIf (advanced.keys.any (· ∈ ownedAdvanced) ||
      (safeAdvanced (.obj advanced) 0 0).isNone ||
      ["tcp-concurrent", "unified-delay"].any (fun key => (advanced.get? key).any (!isBool ·)))
    "config.json 的 Mihomo advanced 覆盖受管字段或内容不安全"

/-- One embedded provider file: the length of its content. -/
def managedSize (H : Host) (leaf : String) (encoded : Json) : Py String Nat := do
  let .str text := encoded | Py.raise "config.json 的 managed provider 文件不合法"
  raiseIf (!managedLeafRe leaf.toList) "config.json 的 managed provider 文件不合法"
  let some raw := H.b64decode text | Py.raise "config.json 的 managed provider 内容不合法"
  raiseIf (decide (raw.size = 0 ∨ raw.size > maxManagedFile ∨ H.sha256 raw ≠ leafStem leaf))
    "config.json 的 managed provider 哈希不匹配"
  return raw.size

/-- The path of a provider, as `re.fullmatch(..., path or "")` reads it. -/
def pathLeaf (path : Json) : Py String (Option String) :=
  match path with
  | .str s => .ok (providerLeaf s)
  | j => if j.truthy then Py.fault .type else .ok none

/-- One provider: the leaf of a local file. -/
def providerClosed (H : Host) (managed : Dict String Json) (kind : ProviderKind) (name : String)
    (provider : Json) : Py String (List String) := do
  let refusal := "config.json 的 " ++ kind.name ++ " 元数据不合法"
  raiseIf (!isValidName H.unicode (.str name) || !isDict provider ||
      (safeAdvanced provider 0 0).isNone) refusal
  raiseIf (!(← providerSchema kind provider)) refusal
  let typ := provider.getD "type" (.str "http")
  let leaf ← pathLeaf (provider.getD "path" .null)
  raiseIf (decide (typ ≠ .str "http" ∧ typ ≠ .str "file") || leaf.isNone)
    ("config.json 的 " ++ kind.name ++ " 路径不受管")
  let leaf := leaf.getD ""
  if typ = .str "file" then
    raiseIf (!managed.contains leaf || (provider.get? "url").isSome)
      ("config.json 的本地 " ++ kind.name ++ " 文件未内嵌")
    return [leaf]
  else
    raiseIf (!httpUrl (provider.getD "url" .null) ||
        decide ((leafStem leaf).toLower ≠ H.shaText (kind.name ++ ":" ++ name)) ||
        managed.contains leaf)
      ("config.json 的远程 " ++ kind.name ++ " URL/path 不合法")
    return []

/-- One policy group. -/
def groupSafe (group : Json) : Py String Unit := do
  let refusal := "config.json 的 policy-group 元数据不合法"
  raiseIf (!isDict group || (safeAdvanced group 0 0).isNone) refusal
  raiseIf (!(← groupSchema group)) refusal

/-- A call of `pdgmodel`, whose `TypeError` and `ValueError` become refusals. -/
def checked {α : Type} (H : Host) (label : String) (x : Py ModelError α) : Py String α :=
  match x with
  | .ok a => .ok a
  | .error (.error e) => Py.raise (label ++ e.message)
  | .error (.fault f) =>
      if f = .type ∨ f = .value then Py.raise (label ++ H.faultText f) else Py.fault f

/-- A call of `pdgmodel` outside of a `try`. -/
def unchecked {α : Type} (x : Py ModelError α) : Py String α :=
  match x with
  | .ok a => .ok a
  | .error (.error _) => Py.fault .value
  | .error (.fault f) => Py.fault f

/-- Is the target of a ruleset neither `direct` nor routable? -/
def badRulesetTarget (routable : List String) (info : Json) : Py String Bool := do
  if !isDict info then return true
  let target := info.getD "outbound" .null
  if target = .str "direct" then return false
  return !(← target.within routable)

/-- The checks against the metadata of the rulesets. -/
def rulesetsFit (H : Host) (doc : Json) (ruleMeta : Dict String Json) : Py String Unit := do
  checked H "PDG 规则集 provider 命名空间冲突: "
    (validateRulesetNamespace H.unicode doc ruleMeta.keys)
  let routable ← unchecked (routableTags H.unicode doc)
  let invalid ← ruleMeta.filterM (fun entry => badRulesetTarget routable entry.2)
  raiseIf (!invalid.isEmpty)
    ("PDG 规则集引用不可路由或不存在的出口: " ++
      String.intercalate ", " ((invalid.map Prod.fst).insertionSort (· ≤ ·)))

/-- The checks on a document with metadata. -/
def metaFits (H : Host) (ruleMeta : Dict String Json) (data : ModelData) (pdg : Json) :
    Py String Unit := do
  let m ← metaShape pdg
  advancedSafe m.advanced
  let sizes ← m.managedFiles.mapM (fun entry => managedSize H entry.1 entry.2)
  raiseIf (decide (data.size + sizes.sum > maxManagedBundle))
    "config.json 与 managed provider 超过可恢复总量"
  let proxy ← m.proxyProviders.mapM
    (fun entry => providerClosed H m.managedFiles .proxy entry.1 entry.2)
  let rule ← m.ruleProviders.mapM
    (fun entry => providerClosed H m.managedFiles .rule entry.1 entry.2)
  raiseIf (!sameSet (proxy.flatten ++ rule.flatten) m.managedFiles.keys)
    "config.json 的 managed provider 引用闭包不完整"
  let .arr groups := pdg.getD "policy-groups" .null
    | Py.raise "config.json 的 policy-groups 类型不合法"
  groups.forM groupSafe
  checked H "config.json 的 policy-group/路由闭包不合法: " (validate H.unicode data.doc)
  rulesetsFit H data.doc ruleMeta

/-- `_v_json_model`, for the metadata of the rulesets in force. -/
def vJsonModel (H : Host) (ruleMeta : Dict String Json) (data : ModelData) : Py String Unit := do
  raiseIf (decide (data.size = 0 ∨ data.size > maxManagedModel))
    "config.json 为空或超过受管模型上限"
  raiseIf (!isDict data.doc || (data.doc.get? "outbounds").isNone || (data.doc.get? "route").isNone)
    "config.json 缺 outbounds/route, 不像本项目的数据模型"
  (← (data.doc.getD "outbounds" .null).items).forM proxyMetaSafe
  let pdg := data.doc.getD "_pdg" .null
  if pdg = .null then return () else metaFits H ruleMeta data pdg

end ProxyGateway.Schema
