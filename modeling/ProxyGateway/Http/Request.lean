import ProxyGateway.Lib.Base64
import ProxyGateway.Lib.Json
import ProxyGateway.Route.Operations
import ProxyGateway.Schema.Names

set_option autoImplicit false

/-!
# ProxyGateway.Http.Request

A request as the handler of the Web finds it, and the functions of `pdg-web.py` and `pdgwebconfig.py`
that read it: the address of the peer, the host, the origin, the target, the cookie, the token against
forged requests and the body. What the language's library does is a parameter (`Python`).
-/

namespace ProxyGateway.Http

open Schema (Unicode)

/-! ### Constants -/

/-- `COOKIE_NAME` -/
def cookieName : String := "__Host-pdg_session"

/-- `CSRF_HEADER` -/
def csrfHeaderName : String := "X-CSRF-Token"

/-- `MAX_JSON_BYTES` -/
def maxJsonBytes : Nat := 64 * 1024

/-- `MAX_PASSWORD_BYTES` -/
def maxPasswordBytes : Nat := 1024

/-- `MAX_IMPORT_BYTES` -/
def maxImportBytes : Nat := 36 * 1024 * 1024

/-- `MAX_LEGACY_PDG_IMPORT_BYTES` -/
def maxLegacyPdgImportBytes : Nat := 68 * 1024 * 1024

/-! ### The library -/

/-- A sequence of bytes. -/
abbrev Bytes := List UInt8

/-- An address of `ipaddress`: its version and its number. -/
structure Address where
  version : Nat
  value : Nat
  deriving DecidableEq

/-- A network of `ipaddress`. -/
structure Network where
  address : Address
  prefixlen : Nat

/-- A result of `urlsplit`. Reading the port may raise. -/
structure Url where
  scheme : String
  netloc : String
  path : String
  query : String
  fragment : String
  username : Option String
  password : Option String
  hostname : Option String
  port : Option (Option Nat)

/-- What the handler takes from the language's library. Where a function raises, there is nothing. -/
structure Python where
  lower : String → String
  unicode : Unicode
  ipAddress : String → Option Address
  compressed : Address → String
  urlsplit : String → Option Url
  parseCookie : String → Option (Dict String String)
  loads : Bytes → Option Json
  unquote : String → Option String

/-! ### The configuration -/

/-- A character of `urlsafe_b64encode`. -/
def urlChar (c : Char) : Bool := c.isAlphanum || c = '-' || c = '_'

/-- What `token_urlsafe` and `urlsafe_b64encode` return. -/
structure UrlToken where
  text : String
  plain : text.toList.all urlChar = true

/-- What the handler reads of a `WebConfig`. It reads the secrets through the functions that are keyed
with them only: the key of a session, the token before a login for an address, a host and a time, and
whether a password has the stored hash. -/
structure Config where
  trustedCidrs : List Network
  allowedHosts : List String
  allowedOrigins : List String
  sessionSeconds : Nat
  sessionKey : String → Bytes
  loginToken : String → String → Int → UrlToken
  passwordMatches : String → Bool

/-! ### Requests -/

/-- The commands with a `do_` handler. -/
inductive Command where
  | get | post | put | patch | delete | head | options
  deriving DecidableEq, Repr

/-- The commands that change something. -/
def Command.mutation (m : Command) : Bool := m ∈ [.post, .put, .patch, .delete]

structure Request where
  command : Command
  path : String
  headers : List (String × String)
  body : Bytes
  clientIp : String

variable (P : Python) (config : Config) (req : Request)

/-- `self.headers.get_all(name) or []` -/
def getAll (name : String) : List String :=
  (req.headers.filter fun header => P.lower header.1 = P.lower name).map Prod.snd

/-! ### The peer -/

/-- `value.split("%", 1)[0]` -/
def beforeFirst (sep : Char) (value : String) : String := String.ofList (value.toList.takeWhile (· ≠ sep))

/-- The address that an IPv6 address is a mapping of. -/
def ipv4Mapped (ip : Address) : Option Address :=
  if ip.version = 6 ∧ ip.value / 2 ^ 32 = 0xFFFF then some ⟨4, ip.value % 2 ^ 32⟩ else none

/-- `_socket_ip` -/
def socketIp (value : String) : Option Address := do
  let ip ← P.ipAddress (beforeFirst '%' value)
  return (ipv4Mapped ip).getD ip

/-- `ip.version == network.version and ip in network` -/
def Network.contains (network : Network) (ip : Address) : Bool :=
  let width := (if ip.version = 4 then 32 else 128) - network.prefixlen
  ip.version = network.address.version && ip.value / 2 ^ width = network.address.value / 2 ^ width

/-- `_ip_trusted` -/
def ipTrusted (value : String) : Bool :=
  match socketIp P value with
  | none => false
  | some ip => config.trustedCidrs.any fun network => network.contains ip

/-! ### Host and origin -/

/-- `_HOST_CHARS_RE` -/
def hostChars (value : String) : Bool :=
  value ≠ "" && value.toList.all fun c => c.isAlphanum || c ∈ ['.', ':', '[', ']', '_', '-']

/-- The expression of `normalize_host` for a name. -/
def hostNameRe (host : String) : Bool :=
  host.length ≤ 253 && (Text.splitAt '.' host.toList).all Route.domainLabel

/-- `normalize_host`, unless it raises a `ConfigError`. -/
def normalizeHost (value : String) : Option String := do
  guard (1 ≤ value.length ∧ value.length ≤ 300)
  guard (value = Route.strip value ∧ hostChars value = true)
  guard (value.toList.all fun c => c ∉ ['/', '\\', '@', ',', '#', '?', '%'])
  let parsed ← P.urlsplit ("https://" ++ value)
  let port ← parsed.port
  let hostname ← parsed.hostname
  guard (hostname ≠ "" ∧ parsed.username = none ∧ parsed.password = none)
  let host := P.lower hostname
  guard (host.toList.getLast? ≠ some '.')
  let shown ← match P.ipAddress host with
    | some ip => some (if ip.version = 6 then "[" ++ P.compressed ip ++ "]" else P.compressed ip)
    | none => if hostNameRe host then some host else none
  return shown ++ (match port with | some port => ":" ++ toString port | none => "")

/-- `normalize_origin`, unless it raises a `ConfigError`. -/
def normalizeOrigin (value : String) : Option (String × String) := do
  guard (1 ≤ value.length ∧ value.length ≤ 340)
  guard (value = Route.strip value)
  let parsed ← P.urlsplit value
  guard (P.lower parsed.scheme = "https" ∧ parsed.netloc ≠ "" ∧ parsed.path = "" ∧ parsed.query = "" ∧
    parsed.fragment = "" ∧ parsed.username = none ∧ parsed.password = none)
  let host ← normalizeHost P parsed.netloc
  return ("https://" ++ host, host)

/-- `_request_host` -/
def requestHost : Option String :=
  match getAll P req "Host" with
  | [raw] =>
      match normalizeHost P raw with
      | some host => if raw = host ∧ host ∈ config.allowedHosts then some host else none
      | none => none
  | _ => none

/-- `_origin_allowed` -/
def originAllowed (host : String) (required : Bool) : Bool :=
  match getAll P req "Origin" with
  | [] => !required
  | [value] =>
      if value = "null" then false
      else
        match normalizeOrigin P value with
        | some (origin, originHost) => value = origin ∧ origin ∈ config.allowedOrigins ∧ originHost = host
        | none => false
  | _ => false

/-! ### Target, cookie and token -/

/-- `_request_target` -/
def requestTarget : Option (String × String) :=
  if req.path.length > 2048 ∨ req.path.toList.any (fun c => c.toNat < 32 || c.toNat = 127) then none
  else
    match P.urlsplit req.path with
    | none => none
    | some target =>
        if target.scheme ≠ "" ∨ target.netloc ≠ "" ∨ target.fragment ≠ "" then none
        else some (target.path, target.query)

/-- The names of a cookie header. -/
def cookieNames (value : String) : List String :=
  ((Text.splitAt ';' value.toList).filter fun part => '=' ∈ part).map fun part =>
    String.ofList (Text.strip (part.takeWhile (· ≠ '=')))

/-- `_cookie_token` -/
def cookieToken : Option String :=
  match getAll P req "Cookie" with
  | [value] =>
      if value.length > 4096 then none
      -- a name that is given twice is refused rather than left to the parser
      else if (cookieNames value).count cookieName ≠ 1 then none
      else
        match P.parseCookie value with
        | none => none
        | some jar => jar.get? cookieName
  | _ => none

/-- `_csrf_header` -/
def csrfHeader : Option String :=
  match getAll P req csrfHeaderName with
  | [value] => if 1 ≤ value.length ∧ value.length ≤ 128 then some value else none
  | _ => none

/-! ### Bodies -/

/-- What `_error` is given. -/
structure Refusal where
  status : Nat
  code : String
  message : String

/-- `re.fullmatch(r"[0-9]{1,10}", value)` -/
def lengthRe (value : String) : Bool :=
  decide (1 ≤ value.length ∧ value.length ≤ 10) && value.toList.all fun c => '0' ≤ c && c ≤ '9'

/-- `int(value)` of digits -/
def digitsValue (value : String) : Nat := value.toList.foldl (fun n c => 10 * n + (c.toNat - '0'.toNat)) 0

/-- `value.split(";", 1)[0].strip().lower()` -/
def mediaType (value : String) : String := P.lower (Route.strip (beforeFirst ';' value))

/-- The one length that is given. -/
def contentLength : Option Nat :=
  match getAll P req "Content-Length" with
  | [value] => if lengthRe value then some (digitsValue value) else none
  | _ => none

/-- The checks of `_read_json`, with what it answers where one fails. -/
def jsonBody (password : Bool) : Except Refusal (Dict String Json) := do
  if getAll P req "Transfer-Encoding" ≠ [] then
    throw ⟨400, "invalid_request", "Request body is invalid."⟩
  if (getAll P req "Content-Type").map (mediaType P) ≠ ["application/json"] then
    throw ⟨415, "unsupported_media_type", "Content-Type must be application/json."⟩
  let some size := contentLength P req | throw ⟨411, "length_required", "A valid Content-Length is required."⟩
  let maximum := if password then maxPasswordBytes + 64 else maxJsonBytes
  if size = 0 ∨ size > maximum then
    throw ⟨413, "body_too_large", "Request body size is invalid."⟩
  let data := req.body.take size
  if data.length ≠ size then
    throw ⟨400, "invalid_request", "Request body is invalid."⟩
  match P.loads data with
  | none => throw ⟨400, "invalid_json", "Request body is not valid JSON."⟩
  | some (.obj kvs) => return kvs
  | some _ => throw ⟨400, "invalid_request", "Request body must be a JSON object."⟩

/-- The media types of an upload. -/
def uploadTypes : List String :=
  ["application/octet-stream", "application/yaml", "text/yaml", "application/x-yaml", "application/zip",
   "application/gzip", "application/x-gzip", "application/json"]

/-- The checks of `_binary_meta`, with what it answers where one fails. -/
def binaryMeta (maximum : Nat) : Except Refusal (Nat × String) := do
  if getAll P req "Transfer-Encoding" ≠ [] then
    throw ⟨400, "invalid_request", "Request body is invalid."⟩
  let [contentType] := (getAll P req "Content-Type").map (mediaType P)
    | throw ⟨415, "unsupported_media_type", "Content-Type is required."⟩
  if contentType ∉ uploadTypes then
    throw ⟨415, "unsupported_media_type", "Upload type is not supported."⟩
  let some size := contentLength P req | throw ⟨411, "length_required", "A valid Content-Length is required."⟩
  if size = 0 ∨ size > maximum then
    throw ⟨413, "body_too_large", "Upload size is invalid."⟩
  return (size, contentType)

/-! ### Path segments -/

/-- `_PERCENT_BAD_RE.search`: a percent sign without two digits behind it. -/
def percentBad : List Char → Bool
  | [] => false
  | '%' :: cs => !(decide (2 ≤ cs.length) && (cs.take 2).all isHex) || percentBad cs
  | _ :: cs => percentBad cs
where
  isHex (c : Char) : Bool := c.isDigit || ('a' ≤ c && c ≤ 'f') || ('A' ≤ c && c ≤ 'F')

/-- What a segment names. -/
inductive SegmentKind where
  | tag | domain
  deriving DecidableEq

/-- The `ValidationError` of `_strict_path_segment`. -/
def badSegment : Refusal := ⟨400, "invalid_request", "Path identifier is invalid."⟩

/-- `_PATH_NAME_TOKEN_RE.fullmatch(raw).group(1)` -/
def nameToken (raw : String) : Option (List Char) :=
  match raw.toList with
  | '~' :: cs =>
      if (2 ≤ cs.length ∧ cs.length ≤ 342) ∧ cs.all (fun c => c.isAlphanum || c = '-' || c = '_') then some cs else none
  | _ => none

/-- `data.decode("utf-8", "strict")` -/
def decodeUtf8 (data : Bytes) : Option String := String.fromUTF8? ⟨data.toArray⟩

/-- What is refused of a name that is written as a token. -/
def badName (name : String) : Bool :=
  name = "" || Route.strip name ≠ name || P.unicode.nfc name ≠ name || decide (name.length > 64) ||
    decide (name.utf8ByteSize > 256) || name.toList.any (Schema.dangerousChar P.unicode)

/-- A name in the form `~token`. -/
def nameSegment (raw : String) : Except Refusal String :=
  match nameToken raw with
  | none => throw badSegment
  | some token =>
      match Base64.decode (token ++ Base64.padding token.length) with
      | none => throw badSegment
      | some decodedBytes =>
          if (Base64.encode decodedBytes).rdropWhile (· = '=') ≠ token then throw badSegment
          else
            match decodeUtf8 decodedBytes with
            | none => throw badSegment
            | some decoded => if badName P decoded then throw badSegment else return decoded

/-- `_strict_path_segment` -/
def strictPathSegment (raw : String) (kind : SegmentKind) : Except Refusal String :=
  if raw = "" ∨ raw.length > 768 ∨ percentBad raw.toList then throw badSegment
  else if kind = .tag ∧ raw.toList.head? = some '~' then nameSegment P raw
  else
    match P.unquote raw with
    | none => throw badSegment
    | some decoded =>
        if decoded = "" ∨ decoded ∈ [".", ".."] ∨ '/' ∈ decoded.toList ∨ '\\' ∈ decoded.toList ∨
            decoded.toList.any (fun c => c.toNat < 32 || c.toNat = 127) then throw badSegment
        else
          match kind with
          | .domain =>
              let decoded := P.lower decoded
              if Route.domainRe decoded then return decoded else throw badSegment
          | .tag => if Schema.tagRe decoded then return decoded else throw badSegment

end ProxyGateway.Http
