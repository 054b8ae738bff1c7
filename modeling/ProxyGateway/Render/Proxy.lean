import ProxyGateway.Render.RuleProviders

set_option autoImplicit false

/-!
# ProxyGateway.Render.Proxy

`convert_proxy` of the renderer: a sing-box outbound becomes a Mihomo proxy. The options of an
outbound are documents of any shape, which no gate has looked at; a value that has no field where
one is read raises a fault.
-/

namespace ProxyGateway.Render

open Schema Json

/-- The fields of a proxy, in the order they are written. -/
abbrev Fields := Dict String Json

/-- What rendering raises: the exceptions of `pdgmodel`, or a `ValueError` with its text. -/
inductive RenderError where
  | model (e : ModelError)
  | value (s : String)
  deriving DecidableEq, Repr

/-- `value or {}`. -/
def orDict (value : Json) : Json := if value.truthy then value else .obj []

/-- `value.get(key)`. -/
def attr (value : Json) (key : String) : Py RenderError Json :=
  match value with
  | .obj _ => .ok (value.getD key .null)
  | _ => Py.fault .attribute

/-- `if source.get(key): p[name] = source[key]`, for an object. -/
def copied (source : Json) (key name : String) (p : Fields) : Fields :=
  if (source.getD key .null).truthy then p.set name (source.getD key .null) else p

/-- `if source.get(key): p[name] = True`, for an object. -/
def flagged (source : Json) (key name : String) (p : Fields) : Fields :=
  if (source.getD key .null).truthy then p.set name (.bool true) else p

/-- `if source.get(key): p[name] = list(source[key])`, for an object. -/
def listed (source : Json) (key name : String) (p : Fields) : Py RenderError Fields := do
  if !(source.getD key .null).truthy then return p
  return p.set name (.arr (← (source.getD key .null).items))

/-! ### TLS and transport -/

/-- The `reality` block of TLS. -/
def realityOpts (tls : Json) (p : Fields) : Py RenderError Fields := do
  let reality := tls.getD "reality" .null
  if !reality.truthy then return p
  if !(← attr reality "enabled").truthy then return p
  return p.set "reality-opts" (.obj [("public-key", reality.getD "public_key" (.str "")),
    ("short-id", reality.getD "short_id" (.str ""))])

/-- The `utls` block of TLS. -/
def fingerprint (tls : Json) (p : Fields) : Py RenderError Fields := do
  let utls := tls.getD "utls" .null
  if !utls.truthy then return p
  let _ ← attr utls "fingerprint"
  return copied utls "fingerprint" "client-fingerprint" p

/-- `_tls_common`. -/
def tlsCommon (ob : Json) (p : Fields) : Py RenderError Fields := do
  let tls := ob.getD "tls" .null
  if !tls.truthy then return p
  if !(← attr tls "enabled").truthy then return p
  let p := p.set "tls" (.bool true)
  let p := copied tls "server_name" "servername" p
  let p := flagged tls "insecure" "skip-cert-verify" p
  let p ← listed tls "alpn" "alpn" p
  let p ← realityOpts tls p
  fingerprint tls p

/-- `dict(value)`, for an object or a list of pairs whose first part is a text. -/
def dictOf (value : Json) : Py RenderError Json :=
  match value with
  | .obj _ => .ok value
  | .arr xs => do
      let pairs ← xs.mapM (fun x => do
        match ← x.items with
        | [.str key, v] => return (key, v)
        | _ => Py.fault .value)
      return .obj (Dict.update [] pairs)
  | .str _ => Py.fault .value
  | _ => Py.fault .type

/-- `_transport_common`. -/
def transportCommon (ob : Json) (p : Fields) : Py RenderError Fields := do
  let tr := ob.getD "transport" .null
  if !tr.truthy then return p
  let t ← attr tr "type"
  if t = .str "ws" then
    let hdrs := tr.getD "headers" .null
    let opts : Fields := [("path", tr.getD "path" (.str "/"))]
    let opts ← (if hdrs.truthy then return opts.set "headers" (← dictOf hdrs) else return opts)
    return (p.set "network" (.str "ws")).set "ws-opts" (.obj opts)
  else if t = .str "grpc" then
    return (p.set "network" (.str "grpc")).set "grpc-opts"
      (.obj [("grpc-service-name", tr.getD "service_name" (.str ""))])
  else return p

/-- `_sni`, copied where there is one. -/
def sni (ob : Json) (p : Fields) : Py RenderError Fields := do
  let tls := orDict (ob.getD "tls" .null)
  let _ ← attr tls "server_name"
  return copied tls "server_name" "sni" p

/-- `(ob.get("tls") or {}).get("insecure")`. -/
def insecure (ob : Json) (p : Fields) : Fields :=
  flagged (orDict (ob.getD "tls" .null)) "insecure" "skip-cert-verify" p

/-- `(ob.get("tls") or {}).get("alpn")`. -/
def alpn (ob : Json) (p : Fields) : Py RenderError Fields :=
  listed (orDict (ob.getD "tls" .null)) "alpn" "alpn" p

/-! ### The protocols -/

/-- The fields that every proxy starts with. -/
def base (ob : Json) : Fields :=
  [("name", ob.getD "tag" .null), ("server", ob.getD "server" .null),
    ("port", ob.getD "server_port" .null)]

/-- A field of the outbound under its name in the proxy. -/
def field (ob : Json) (key name : String) : String × Json := (name, ob.getD key .null)

def udp : String × Json := ("udp", .bool true)

def shadowsocks (ob : Json) : Py RenderError Fields :=
  .ok (base ob ++ [("type", .str "ss"), field ob "method" "cipher", field ob "password" "password",
    udp])

def vmess (ob : Json) : Py RenderError Fields := do
  let p := base ob ++ [("type", .str "vmess"), field ob "uuid" "uuid",
    ("alterId", ob.getD "alter_id" (.int 0)), ("cipher", ob.getD "security" (.str "auto")), udp]
  let p ← tlsCommon ob p
  transportCommon ob p

def trojan (ob : Json) : Py RenderError Fields := do
  let p := base ob ++ [("type", .str "trojan"), field ob "password" "password", udp]
  let p ← sni ob p
  transportCommon ob (insecure ob p)

def vless (ob : Json) : Py RenderError Fields := do
  let p := base ob ++ [("type", .str "vless"), field ob "uuid" "uuid", udp]
  let p ← tlsCommon ob (copied ob "flow" "flow" p)
  transportCommon ob p

/-- `ob.get(key) or f"{ob[mbps]} Mbps"`, where either is given. -/
def bandwidth (S : Site) (ob : Json) (key mbps : String) (p : Fields) : Fields :=
  if (ob.getD key .null).truthy then p.set key (ob.getD key .null)
  else if (ob.getD mbps .null).truthy then p.set key (.str (S.str (ob.getD mbps .null) ++ " Mbps"))
  else p

/-- The first version of the protocol, which Mihomo has a type of its own for. -/
def hysteria (S : Site) (ob : Json) : Py RenderError Fields := do
  let p := base ob ++ [("type", .str "hysteria"), udp]
  let p := if (ob.getD "auth_str" .null).truthy then copied ob "auth_str" "auth-str" p
    else copied ob "auth" "auth" p
  let p := bandwidth S ob "down" "down_mbps" (bandwidth S ob "up" "up_mbps" p)
  let p := copied ob "protocol" "protocol" (copied ob "obfs" "obfs" p)
  let p ← sni ob p
  let p ← alpn ob (insecure ob p)
  return copied ob "recv_window" "recv-window" (copied ob "recv_window_conn" "recv-window-conn" p)

/-- The `obfs` block of the second version. -/
def obfsOpts (ob : Json) (p : Fields) : Py RenderError Fields := do
  let obfs := ob.getD "obfs" .null
  if !obfs.truthy then return p
  let typ ← attr obfs "type"
  return copied obfs "password" "obfs-password" (p.set "obfs" typ)

def hysteria2 (ob : Json) : Py RenderError Fields := do
  let p := base ob ++ [("type", .str "hysteria2"), ("password", ob.getD "password" (.str "")), udp]
  let p ← sni ob p
  let p ← alpn ob (insecure ob p)
  obfsOpts ob p

def tuic (ob : Json) : Py RenderError Fields := do
  let p := base ob ++ [("type", .str "tuic"), field ob "uuid" "uuid",
    field ob "password" "password", udp]
  let p ← sni ob p
  let p ← alpn ob (insecure ob p)
  return copied ob "udp_relay_mode" "udp-relay-mode"
    (copied ob "congestion_control" "congestion-controller" p)

def anytls (ob : Json) : Py RenderError Fields := do
  let p := base ob ++ [("type", .str "anytls"), field ob "password" "password", udp]
  return insecure ob (← sni ob p)

def socks (ob : Json) : Py RenderError Fields :=
  .ok (copied ob "password" "password" (copied ob "username" "username"
    (base ob ++ [("type", .str "socks5"), udp])))

def http (ob : Json) : Py RenderError Fields := do
  let p := copied ob "password" "password" (copied ob "username" "username"
    (base ob ++ [("type", .str "http")]))
  let enabled ← attr (orDict (ob.getD "tls" .null)) "enabled"
  if enabled.truthy then sni ob (p.set "tls" (.bool true)) else return p

/-- `convert_proxy`; `none` for a type that it does not know. -/
def convertProxy (S : Site) (ob : Json) : Py RenderError (Option Fields) :=
  match ob.getD "type" .null with
  | .str "shadowsocks" => some <$> shadowsocks ob
  | .str "vmess" => some <$> vmess ob
  | .str "trojan" => some <$> trojan ob
  | .str "vless" => some <$> vless ob
  | .str "hysteria" => some <$> hysteria S ob
  | .str "hysteria2" => some <$> hysteria2 ob
  | .str "tuic" => some <$> tuic ob
  | .str "anytls" => some <$> anytls ob
  | .str "socks" => some <$> socks ob
  | .str "http" => some <$> http ob
  | _ => .ok none

end ProxyGateway.Render
