import ProxyGateway.Profile.Values
import ProxyGateway.Render.Ports

set_option autoImplicit false

/-!
# ProxyGateway.Profile.Resolve

`resolve`: the values of the profile, checked and in their normal form, and `profile_lines`, which
writes the data plane. The network that a text denotes is a parameter (`ipaddress.ip_network`).
-/

namespace ProxyGateway.Profile

open Text Render

/-! ### Numbers -/

/-- `_UINT` -/
def uintRe (text : List Char) : Bool :=
  text = ['0'] || (text.head?.any (fun c => c.isDigit && c ≠ '0') && text.all Char.isDigit)

/-- `_uint` -/
def uint (value name : String) (maximum : Nat) (forbidden : List Nat) : Py String Nat := do
  let text := strip value.toList
  raiseIf (!uintRe text) (name ++ " 必须是十进制正整数")
  let number ← intOf text
  raiseIf (number < 1 || maximum < number || number.toNat ∈ forbidden) (name ++ " 超出安全范围")
  return number.toNat

/-- The value of a hexadecimal digit. -/
def hexValue (c : Char) : Option Nat :=
  if c.isDigit then some (c.toNat - '0'.toNat)
  else if 'a' ≤ c ∧ c ≤ 'f' then some (c.toNat - 'a'.toNat + 10)
  else if 'A' ≤ c ∧ c ≤ 'F' then some (c.toNat - 'A'.toNat + 10)
  else none

/-- The digits behind `0x`, if the text has that form. -/
def hexDigits : List Char → Option (List Nat)
  | '0' :: x :: digits => if (x = 'x' ∨ x = 'X') ∧ digits ≠ [] then digits.mapM hexValue else none
  | _ => none

/-- `int(text, 0)` of a text that `_MARK` matches; the text of the exception where it does not. -/
def markNumber (name : String) (text : List Char) : Py String Nat :=
  match hexDigits text with
  | some digits => .ok (digits.foldl (fun n d => 16 * n + d) 0)
  | none => do
      raiseIf (!uintRe text) (name ++ " 必须是十进制或 0x 十六进制整数")
      return (← intOf text).toNat

/-- `_mark` -/
def mark (value name : String) : Py String Nat := do
  let number ← markNumber name (strip value.toList)
  raiseIf (number < 1 || 0xffffffff < number) (name ++ " 超出 1..0xffffffff")
  return number

/-- `"%d" % n` -/
def decimalText (n : Nat) : String := String.ofList (Nat.toDigits 10 n)

/-- `"0x%x" % n` -/
def hexText (n : Nat) : String := String.ofList ('0' :: 'x' :: Nat.toDigits 16 n)

/-- `",".join(map(str, ports))` -/
def portsText (ports : List Nat) : String := String.ofList (joinWith ',' (ports.map (Nat.toDigits 10)))

/-! ### The data plane -/

inductive Platform where
  | android | ios
  deriving DecidableEq, Repr

def Platform.name : Platform → String
  | .android => "android"
  | .ios => "ios"

inductive FirewallMode where
  | managed | external
  deriving DecidableEq, Repr

/-- The seven values of `DATA_KEYS`. -/
structure DataPlane where
  quicMode : QuicMode
  tlsPorts : List Nat
  httpPorts : List Nat
  mark : Nat
  mask : Nat
  routeTable : Nat
  rulePriority : Nat
  deriving DecidableEq, Repr

/-- What `resolve` returns, without the entries that it computes from others. -/
structure Config where
  platform : Platform
  firewallMode : Option FirewallMode
  internalCidr : Option String
  sshPort : Option Nat
  plane : DataPlane
  deriving DecidableEq, Repr

/-- `config["tcp_ports"]` -/
def Config.tcpPorts (config : Config) : List Nat := sortedSet (config.plane.tlsPorts ++ config.plane.httpPorts)

/-- `config["mark_clear_mask"]` -/
def Config.markClearMask (config : Config) : Nat := 0xffffffff - config.plane.mask

/-- `config["local_tcp_ports"]` -/
def Config.localTcpPorts (config : Config) : List Nat :=
  match config.platform with
  | .ios => [53, 81, 853, 7893, 8445]
  | .android => [53, 853, 7893, 8445]

/-- `DEFAULT_TLS_PORTS` -/
def defaultTlsPorts : Platform → List Nat
  | .android => [443, 5228, 5229, 5230]
  | .ios => [443]

/-- `_env_or_profile` -/
def envOrProfile (name : String) (values environ : Dict String String) (default : Json) : Json :=
  match environ.get? name, values.get? name with
  | some value, _ => .str value
  | none, some value => .str value
  | none, none => default

/-- `_env_or_profile` for a value that is a text by default. -/
def textOr (name : String) (values environ : Dict String String) (default : String) : String :=
  ((environ.get? name).or (values.get? name)).getD default

/-- The values of `DATA_KEYS`, and the checks on them alone. -/
def dataPlane (values environ : Dict String String) (platform : Platform) : Py String DataPlane := do
  let quicMode ← parseQuicMode (envOrProfile "PDG_QUIC_MODE" values environ (.str "tproxy"))
  let tlsPorts ← parsePortList
    (envOrProfile "PDG_HIJACK_TLS_TCP_PORTS" values environ (portsJson (defaultTlsPorts platform)))
    "PDG_HIJACK_TLS_TCP_PORTS"
  let httpPorts ← parsePortList (envOrProfile "PDG_HIJACK_HTTP_TCP_PORTS" values environ (portsJson [80]))
    "PDG_HIJACK_HTTP_TCP_PORTS"
  let overlap := tlsPorts.filter (· ∈ httpPorts)
  raiseIf (overlap ≠ []) ("TLS/HTTP 劫持端口不能重叠: " ++ portsText overlap)
  let fwmark ← mark (textOr "PDG_QUIC_MARK" values environ (hexText 0x504447)) "PDG_QUIC_MARK"
  let mask ← mark (textOr "PDG_QUIC_MARK_MASK" values environ (hexText 0xffffffff)) "PDG_QUIC_MARK_MASK"
  raiseIf (fwmark &&& mask ≠ fwmark) "PDG_QUIC_MARK 的置位必须全部包含在 PDG_QUIC_MARK_MASK 内"
  let routeTable ← uint (textOr "PDG_QUIC_ROUTE_TABLE" values environ "7895") "PDG_QUIC_ROUTE_TABLE"
    0xffffffff [253, 254, 255]
  let rulePriority ← uint (textOr "PDG_QUIC_RULE_PRIORITY" values environ "17895") "PDG_QUIC_RULE_PRIORITY"
    0xffffffff []
  return ⟨quicMode, tlsPorts, httpPorts, fwmark, mask, routeTable, rulePriority⟩

/-! ### The other values -/

/-- What `resolve` is called with besides the file; `network` is `ipaddress.ip_network(text, strict=False)`
with the version, the length of the prefix and the text of the network. -/
structure Call where
  network : String → Option (Nat × Nat × String)
  platform : Option String
  environ : Dict String String
  sshPort : Option String
  occupied : List Nat

/-- `_choice` for the platform. -/
def platformOf (text : String) : Py String Platform :=
  if text = "android" then .ok .android
  else if text = "ios" then .ok .ios
  else Py.raise "PDG_PLATFORM 只能是 android 或 ios"

/-- The platform of the caller, of the environment or of the file. -/
def choosePlatform (call : Call) (values : Dict String String) : Py String Platform := do
  let profilePlatform := (values.get? "PDG_PLATFORM").getD ""
  raiseIf (call.platform.any (fun platform => profilePlatform ≠ "" && platform ≠ profilePlatform))
    "CLI/canonical platform 与 profile PDG_PLATFORM 不一致"
  let given := call.platform.getD ""
  platformOf (if given ≠ "" then given else textOr "PDG_PLATFORM" values call.environ "android")

/-- The port of the file, where it is set, agrees with the one that is used. -/
def sameSshPort (values : Dict String String) (port : Nat) : Py String Unit :=
  match values.get? "PDG_SSH_PORT" with
  | none => .ok ()
  | some text =>
      if text = "" then .ok ()
      else do
        let profileSsh ← uint text "PDG_SSH_PORT" 65535 []
        raiseIf (port ≠ profileSsh) "CLI/detected SSH port 与 profile PDG_SSH_PORT 不一致"

/-- `normalized_ssh` -/
def chooseSshPort (call : Call) (values : Dict String String) : Py String (Option Nat) :=
  let configured := call.sshPort.getD (textOr "PDG_SSH_PORT" values call.environ "")
  if strip configured.toList = [] then .ok none
  else do
    let port ← uint configured "PDG_SSH_PORT" 65535 []
    sameSshPort values port
    return some port

/-- `COMMON_LOCAL_TCP_PORTS` -/
def commonLocalPorts : List (Nat × String) :=
  [(53, "mosdns DNS"), (853, "mosdns DoT"), (7893, "Mihomo REDIRECT"), (8445, "Telegram mixed listener"),
    (9090, "Mihomo clash_api")]

/-- `IOS_LOCAL_TCP_PORTS` -/
def iosLocalPorts : List (Nat × String) :=
  [(81, "iOS OnDemand probe"), (7894, "iOS MITM SOCKS listener"), (8443, "iOS profile download hook")]

/-- `local`, the last name of a port first. -/
def localPorts (platform : Platform) (quicMode : QuicMode) (sshPort : Option Nat) : List (Nat × String) :=
  (match sshPort with
    | some port => [(port, "SSH listener")]
    | none => []) ++
  (if quicMode = .tproxy then [(7895, "Mihomo native QUIC TPROXY")] else []) ++
  (if platform = .ios then iosLocalPorts else []) ++ commonLocalPorts

/-- The ports that may not be hijacked among those in use. -/
def conflicts (ports inUse : List Nat) : List Nat := ports.filter (fun port => port ≠ 80 && port ≠ 443 && port ∈ inUse)

/-- A conflict, with what listens. -/
def conflictText (inUse : List (Nat × String)) (port : Nat) : String :=
  decimalText port ++ "(" ++ (inUse.lookup port).getD "" ++ ")"

/-- `canonical_ipv4_cidr` -/
def canonicalIpv4Cidr (call : Call) (value : String) : Py String String :=
  match call.network (String.ofList (strip value.toList)) with
  | none => Py.raise "PDG_INTERNAL_CIDR 必须是合法 IPv4 CIDR"
  | some (version, prefixLength, text) =>
      if version ≠ 4 ∨ prefixLength = 0 then Py.raise "PDG_INTERNAL_CIDR 必须是非全网 IPv4 CIDR" else .ok text

/-- `canonical_cidr` -/
def chooseCidr (call : Call) (values : Dict String String) : Py String (Option String) :=
  let value := (values.get? "PDG_INTERNAL_CIDR").getD ""
  if value = "" then .ok none
  else do
    let canonical ← canonicalIpv4Cidr call value
    raiseIf (String.ofList (strip value.toList) ≠ canonical)
      ("profile PDG_INTERNAL_CIDR 必须使用 canonical network CIDR: " ++ canonical)
    return some canonical

/-- `firewall_mode` -/
def chooseFirewallMode (values : Dict String String) : Py String (Option FirewallMode) :=
  let value := (values.get? "PDG_FIREWALL_MODE").getD ""
  if value = "" then .ok none
  else if value = "managed" then .ok (some .managed)
  else if value = "external" then .ok (some .external)
  else Py.raise "PDG_FIREWALL_MODE 只能是 managed 或 external"

/-- `resolve`, for the values that were read. -/
def resolveValues (call : Call) (values : Dict String String) : Py String Config := do
  let platform ← choosePlatform call values
  let plane ← dataPlane values call.environ platform
  let sshPort ← chooseSshPort call values
  let inUse := localPorts platform plane.quicMode sshPort
  let ports := sortedSet (plane.tlsPorts ++ plane.httpPorts)
  raiseIf (conflicts ports (inUse.map Prod.fst) ≠ []) ("劫持端口与本机监听冲突（会自环/截断服务）: " ++
    ", ".intercalate ((conflicts ports (inUse.map Prod.fst)).map (conflictText inUse)))
  raiseIf (conflicts ports call.occupied ≠ []) ("劫持端口与 authoritative live TCP listener 冲突: " ++
    portsText (conflicts ports call.occupied))
  let internalCidr ← chooseCidr call values
  let firewallMode ← chooseFirewallMode values
  return ⟨platform, firewallMode, internalCidr, sshPort, plane⟩

/-- `resolve` -/
def resolve (call : Call) (path : String) (text : List Char) : Py String Config := do
  resolveValues call (← readValues path text)

/-- `profile_lines` -/
def profileLines (config : Config) : List String :=
  ["PDG_QUIC_MODE=" ++ config.plane.quicMode.name,
    "PDG_HIJACK_TLS_TCP_PORTS=" ++ portsText config.plane.tlsPorts,
    "PDG_HIJACK_HTTP_TCP_PORTS=" ++ portsText config.plane.httpPorts,
    "PDG_QUIC_MARK=" ++ hexText config.plane.mark,
    "PDG_QUIC_MARK_MASK=" ++ hexText config.plane.mask,
    "PDG_QUIC_ROUTE_TABLE=" ++ decimalText config.plane.routeTable,
    "PDG_QUIC_RULE_PRIORITY=" ++ decimalText config.plane.rulePriority]

end ProxyGateway.Profile
