import ProxyGateway.Render.Ports
import ProxyGateway.Render.Routing

set_option autoImplicit false

/-!
# ProxyGateway.Render.Mihomo

`singbox_to_mihomo`: the model is migrated, its outbounds, groups, rules and listeners are rendered
one by one, and the configuration is put together.
-/

namespace ProxyGateway.Render

open Schema Json

/-! ### Metadata that reaches the configuration -/

def topRuntimeFields : List String := ["tcp-concurrent", "unified-delay"]

/-- `_runtime_top_advanced`. -/
def runtimeTopAdvanced (value : Json) : Fields :=
  (value.fields?.getD []).filter (fun f => f.1 ∈ topRuntimeFields && isBool f.2)

/-- `_runtime_proxy_advanced`. -/
def runtimeProxyAdvanced (value : Json) : Py RenderError Fields := do
  let encoding := value.getD "packet-encoding" .null
  let known ← encoding.within ["packetaddr", "xudp"]
  let udp := value.getD "udp" .null
  return (if isBool udp then [("udp", udp)] else []) ++
    (if known then [("packet-encoding", encoding)] else [])

/-- The fields of an object that are allowed; anything else stays as it is. -/
def restricted (allowed : List String) (value : Json) : Json :=
  match value with
  | .obj fields => .obj (fields.filter (fun f => f.1 ∈ allowed))
  | _ => value

/-- `_runtime_provider`, on an object. -/
def runtimeProvider (kind : ProviderKind) (value : Json) : Py RenderError Json := do
  let typ := value.getD "type" (.str "http")
  let known ← typ.within ["http", "file"]
  if !known || ((value.getD "path" .null).str?.bind providerLeaf).isNone then return .obj []
  if typ = .str "http" && !((value.getD "url" .null).str?.any httpUrlRe) then return .obj []
  return .obj (((value.fields?.getD []).filter (fun f => f.1 ∈ providerFields kind)).map (fun f =>
    (f.1, if f.1 = "health-check" then restricted providerHealthFields f.2
      else if f.1 = "override" then restricted providerOverrideFields f.2
      else f.2)))

/-- The imported providers of a migrated document. -/
def importedProviders (kind : ProviderKind) (fieldName : String) (sb : Json) :
    Py RenderError (Dict String Json) :=
  let providers := (((sb.getD "_pdg" .null).getD "mihomo" .null).getD fieldName .null).fields?.getD []
  (providers.filter (fun entry => isDict entry.2)).mapM (fun entry => do
    return (entry.1, ← runtimeProvider kind entry.2))

def groupRuntimeFields : List String :=
  ["name", "type", "proxies", "use", "url", "interval", "tolerance", "lazy", "disable-udp", "hidden",
    "strategy"]

/-- `_runtime_group`, on an object. -/
def runtimeGroup (value : Json) : Py RenderError Fields := do
  let out := (value.fields?.getD []).filter (fun f => f.1 ∈ groupRuntimeFields)
  let known ← ((Json.obj out).getD "type" .null).within groupTypes
  if !known then return []
  match Dict.get? out "url" with
  | some url => return if url.str?.any httpUrlRe then out else Dict.erase out "url"
  | none => return out

/-- A group as it is rendered, `none` for one that is left out. -/
def renderGroup (tags : MachineTags) (raw : Json) : Py RenderError (Option Json) := do
  let group ← runtimeGroup raw
  if group.isEmpty then return none
  match Dict.get? group "proxies" with
  | some (.arr members) =>
      return some (.obj (group.set "proxies" (.arr (← members.mapM (mapTarget tags)))))
  | _ => return some (.obj group)

/-! ### Proxies -/

/-- `PROXY_TYPES`. -/
def proxyTypes : List String :=
  ["shadowsocks", "vmess", "trojan", "vless", "hysteria", "hysteria2", "tuic", "anytls", "shadowtls",
    "socks", "http"]

def nonProxyTypes : List String := ["direct", "block", "dns", "urltest", "selector"]

/-- The types for which TCP Fast Open makes sense. -/
def tfoTypes : List String := ["ss", "vmess", "trojan", "vless", "http", "socks5", "anytls"]

/-- What is added to a converted proxy. -/
def activated (o : Json) (p : Fields) : Py RenderError Fields := do
  let isTcp := ((Json.obj p).getD "type" .null).str?.any (fun t => t ∈ tfoTypes)
  let p := if (o.getD "tcp_fast_open" .null).truthy && isTcp then p.set "tfo" (.bool true) else p
  let advanced := (o.getD "_pdg_mihomo" .null).getD "advanced" .null
  if isDict advanced then return p.update (← runtimeProxyAdvanced advanced) else return p

/-- What an outbound adds to the proxies and to the unknown tags. -/
def renderOutbound (S : Site) (o : Json) : Py RenderError (List Json × List Json) := do
  let typ := o.getD "type" .null
  if typ.str?.any (fun t => t ∈ proxyTypes) then
    match ← convertProxy S o with
    | some p => return ([.obj (← activated o p)], [])
    | none => return ([], [o.getD "tag" .null])
  else if typ.str?.any (fun t => t ∈ nonProxyTypes) then return ([], [])
  else return ([], [o.getD "tag" .null])

/-! ### Keywords -/

/-- The keyword arguments; `null` is `None`. -/
structure Keywords where
  redirPort : Json := .int 7893
  controller : Json := .str "127.0.0.1:9090"
  secret : Json := .null
  externalUi : Json := .null
  externalUiUrl : Json := .null
  tlsPorts : Json := .null
  httpPorts : Json := .null
  rulesets : Dict String Json := []
  mitmDomains : List Json := []
  mitmPort : Json := .int 7894
  quicMode : Json := .str "tproxy"
  tproxyPort : Json := .int 7895

def defaultTlsPorts : Json := portsJson [443, 5228, 5229, 5230]

def defaultHttpPorts : Json := portsJson [80]

/-- A port list that is `None` is the default. -/
def orPorts (value default : Json) : Json := if value = .null then default else value

/-- A `ValueError` raised behind the reading of an argument. -/
def valueError {α : Type} : Py String α → Py RenderError α
  | .ok a => .ok a
  | .error (.error s) => .error (.error (.value s))
  | .error (.fault f) => .error (.fault f)

/-- What the sniffer and the listener of QUIC are made of. -/
structure DataPlane where
  tls : List Nat
  http : List Nat
  tproxy : Option Nat

/-- The checked port arguments. -/
def dataPlane (kw : Keywords) : Py RenderError DataPlane := do
  let mode ← valueError (parseQuicMode kw.quicMode)
  let tls ← valueError (parsePortList (orPorts kw.tlsPorts defaultTlsPorts) "TLS ports")
  let http ← valueError (parsePortList (orPorts kw.httpPorts defaultHttpPorts) "HTTP ports")
  match mode with
  | .tproxy =>
      let ports ← valueError (parsePortList (.arr [kw.tproxyPort]) "tproxy port")
      return ⟨tls, http, ports.head?⟩
  | .reject => return ⟨tls, http, none⟩

/-- The `sniff` block. -/
def sniff (plane : DataPlane) : Json :=
  .obj ([("TLS", .obj [("ports", portsJson plane.tls)]), ("HTTP", .obj [("ports", portsJson plane.http)])]
    ++ (if plane.tproxy.isSome then [("QUIC", .obj [("ports", portsJson [443])])] else []))

/-- `_ext.get(rs.get("format", "text"), "txt")`. -/
def rulesetExtension (format : Json) : Py RenderError String :=
  if format.hashable then .ok (extensionOf (format.str?.getD "text")) else Py.fault .type

/-- A rule-provider for a ruleset of the arguments. -/
def rulesetProvider (name : String) (rs : Json) : Py RenderError Json := do
  match rs with
  | .obj fields =>
      let some url := Dict.get? fields "url" | Py.fault .key
      let format := rs.getD "format" (.str "text")
      let extension ← rulesetExtension format
      return .obj [("type", .str "http"), ("url", url),
        ("behavior", rs.getD "behavior" (.str "domain")), ("format", format),
        ("path", .str ("./ruleset/" ++ name ++ "." ++ extension)), ("interval", .int 86400)]
  | _ => Py.fault .type

/-- The field is there if its value is given. -/
def optional (key : String) (value : Json) : Fields := if value.truthy then [(key, value)] else []

/-! ### The configuration -/

/-- The configuration, and the metadata on what was not rendered. -/
structure Rendering where
  config : Json
  dropped : List Json
  unknown : List Json

/-- The parts of the configuration that come from the outbounds, the groups and the route. -/
structure Parts where
  proxies : List Json
  unknown : List Json
  groups : List Json
  rules : List String
  dropped : List Json
  listeners : List (Json × String)

/-- The part of `singbox_to_mihomo` that reads the machine tags. -/
def partsOf (S : Site) (available : List String) (sb : Json) : Py RenderError Parts := do
  let outbounds := outboundsOf sb
  let tags := machineTags outbounds
  let rendered ← outbounds.mapM (renderOutbound S)
  let groups ← (policyGroups sb).mapM (renderGroup tags)
  let route := sb.getD "route" .null
  let (rules, dropped) ← rulesFromRoute S tags available route
  let listeners ← mixedListeners S tags route (sb.getD "inbounds" (.arr []))
  return ⟨(rendered.map Prod.fst).flatten, (rendered.map Prod.snd).flatten, groups.filterMap id,
    rules, dropped, listeners⟩

/-- The proxies and the rules with the domains that are handed to the local service. -/
def withMitm (S : Site) (kw : Keywords) (parts : Parts) : List Json × List String :=
  let inRules := parts.listeners.map Prod.snd
  let domains := kw.mitmDomains.filter (stillMitm S)
  let mitmRules := domains.map (mitmLine S)
  let mitmOut := Json.obj [("name", .str "MITM-OUT"), ("type", .str "socks5"),
    ("server", .str "127.0.0.1"), ("port", kw.mitmPort), ("udp", .bool false)]
  (parts.proxies ++ (if domains.isEmpty then [] else [mitmOut]),
    inserted (inRules ++ mitmRules) parts.rules)

/-- The `sniffer` block. -/
def snifferBlock (plane : DataPlane) : Json :=
  .obj [("enable", .bool true), ("override-destination", .bool true),
    ("force-dns-mapping", .bool true), ("parse-pure-ip", .bool true), ("sniff", sniff plane)]

/-- The configuration put together. -/
def configOf (kw : Keywords) (plane : DataPlane) (advanced : Json) (proxies groups : List Json)
    (listeners : List Json) (proxyProviders ruleProviders : Dict String Json) (rules : List String) :
    Json :=
  .obj (((runtimeTopAdvanced advanced).update
    [("redir-port", kw.redirPort), ("bind-address", .str "*"), ("allow-lan", .bool true),
      ("mode", .str "rule"), ("log-level", .str "warning"), ("external-controller", kw.controller),
      ("sniffer", snifferBlock plane), ("proxies", .arr proxies), ("proxy-groups", .arr groups)]) ++
    (match plane.tproxy with
      | some port => [("tproxy-port", Json.int (Int.ofNat port))]
      | none => []) ++
    (if listeners.isEmpty then [] else [("listeners", .arr listeners)]) ++
    optional "secret" kw.secret ++ optional "external-ui" kw.externalUi ++
    optional "external-ui-url" kw.externalUiUrl ++
    (if proxyProviders.isEmpty then [] else [("proxy-providers", .obj proxyProviders)]) ++
    (if ruleProviders.isEmpty then [] else [("rule-providers", .obj ruleProviders)]) ++
    [("rules", .arr (rules.map Json.str))])

/-- `singbox_to_mihomo` behind `migrate`. -/
def renderMigrated (S : Site) (kw : Keywords) (sb : Json) : Py RenderError Rendering := do
  let proxyProviders ← importedProviders .proxy "proxy-providers" sb
  let ruleProviders ← importedProviders .rule "rule-providers" sb
  let available := (Dict.keys ruleProviders) ++ kw.rulesets.keys
  let parts ← partsOf S available sb
  let (proxies, rules) := withMitm S kw parts
  let plane ← dataPlane kw
  let generated ← kw.rulesets.mapM (fun entry => do
    return (entry.1, ← rulesetProvider entry.1 entry.2))
  let advanced := ((sb.getD "_pdg" .null).getD "mihomo" .null).getD "advanced" .null
  return ⟨configOf kw plane advanced proxies parts.groups (parts.listeners.map Prod.fst)
    proxyProviders (ruleProviders.update generated) rules, parts.dropped, parts.unknown⟩

/-- What `pdgmodel` raises, inside the renderer. -/
def modelError {α : Type} : Py ModelError α → Py RenderError α
  | .ok a => .ok a
  | .error (.error e) => .error (.error (.model e))
  | .error (.fault f) => .error (.fault f)

/-- `singbox_to_mihomo`. -/
def singboxToMihomo (S : Site) (kw : Keywords) (sb : Json) : Py RenderError Rendering := do
  renderMigrated S kw (← modelError (migrate S.host.unicode sb))

end ProxyGateway.Render
