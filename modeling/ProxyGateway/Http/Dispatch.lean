import Mathlib.Algebra.Order.Floor.Ring
import Mathlib.Data.List.MinMax
import Mathlib.Data.Rat.Floor
import ProxyGateway.Http.Routes
import ProxyGateway.Lib.Encode
import ProxyGateway.Lib.Ledger
import ProxyGateway.Web.RateLimit

set_option autoImplicit false

/-!
# ProxyGateway.Http.Dispatch

The handler of `pdg-web.py`: `_dispatch`, `_dispatch_api`, `_login`, `_export_config`, `_static` and
their helpers, as programs of what a thread does to the state that it shares: the sections under the lock
of `SecurityState`, the calls of the control layer and the response. What the control layer answers, the
files and the readings of the clock are up to the environment (`Around`).
-/

namespace ProxyGateway.Http

open Web (SecurityState)

/-! ### Constants -/

/-- `MAX_STATIC_BYTES` -/
def maxStaticBytes : Nat := 8 * 1024 * 1024

/-- `MAX_RESPONSE_BYTES` -/
def maxResponseBytes : Nat := 1024 * 1024

/-- `PRELOGIN_CSRF_SECONDS` -/
def preloginCsrfSeconds : ℚ := 300

/-- `MAX_SESSIONS` -/
def maxSessions : Nat := 256

/-- `_MIME_TYPES` -/
def mimeTypes : Dict String String :=
  [(".html", "text/html; charset=utf-8"), (".js", "text/javascript; charset=utf-8"),
   (".mjs", "text/javascript; charset=utf-8"), (".css", "text/css; charset=utf-8"),
   (".json", "application/json; charset=utf-8"), (".webmanifest", "application/manifest+json; charset=utf-8"),
   (".svg", "image/svg+xml"), (".png", "image/png"), (".jpg", "image/jpeg"), (".jpeg", "image/jpeg"),
   (".gif", "image/gif"), (".webp", "image/webp"), (".ico", "image/x-icon"), (".woff", "font/woff"),
   (".woff2", "font/woff2"), (".txt", "text/plain; charset=utf-8"),
   (".yaml", "application/yaml; charset=utf-8"), (".yml", "application/yaml; charset=utf-8")]

/-! ### Texts -/

/-- `ord(c) < 128` for every character. -/
def ascii (s : String) : Bool := s.toList.all fun c => c.toNat < 128

/-- What can leave the handler. -/
inductive Fault where
  | typeError | indexError | unencodable
  deriving DecidableEq, Repr

/-- `hmac.compare_digest` of two texts, which takes ASCII only. -/
def compareDigest (a b : String) : Except Fault Bool :=
  if ascii a && ascii b then .ok (decide (a = b)) else .error .typeError

/-! ### The shared state -/

structure Session where
  csrf : UrlToken
  expires : ℚ

/-- `SecurityState` -/
structure World where
  limits : SecurityState
  sessions : Dict Bytes Session

/-- The state that `__init__` leaves. -/
def World.start : World := ⟨.start, []⟩

/-- A body of a response. -/
inductive Content where
  | text (s : String)
  | bytes (data : Bytes)

/-- `len(body)` -/
def Content.size : Content → Nat
  | .text s => s.utf8ByteSize
  | .bytes data => data.length

/-- What `_send` writes, the constant headers left out. -/
structure Response where
  status : Nat
  body : Content
  contentType : String
  cookie : Option String
  allow : Option String
  disposition : Option String

/-- What a thread does: the sections under the lock, the calls of the control layer, and the response. -/
inductive Section where
  | rate (ip : String) (now : ℚ)
  | reserve (ip : String) (now : ℚ)
  | finish (ip : String) (failed : Bool) (now : ℚ)
  | clear (ip : String)
  | create (key : Bytes) (csrf : UrlToken) (now : ℚ)
  | session (key : Bytes) (now : ℚ)
  | destroy (key : Bytes)
  | control (c : Call)
  | send (r : Response)

abbrev Section.Answer : Section → Type
  | .rate _ _ => Bool
  | .reserve _ _ => Bool
  | .create _ _ _ => Session
  | .session _ _ => Option Session
  | _ => Unit

/-- `_cleanup_sessions` -/
def cleanup (sessions : Dict Bytes Session) (now : ℚ) : Dict Bytes Session :=
  sessions.filter fun entry => now < entry.2.expires

/-- Room for one more: the session that expires first is dropped. -/
def makeRoom (sessions : Dict Bytes Session) : Dict Bytes Session :=
  if sessions.length ≥ maxSessions then
    match sessions.argmin (fun entry => entry.2.expires) with
    | some oldest => sessions.erase oldest.1
    | none => sessions
  else sessions

/-- The section of `create_session`. -/
def createSession (sessions : Dict Bytes Session) (key : Bytes) (session : Session) (now : ℚ) : Dict Bytes Session :=
  (makeRoom (cleanup sessions now)).set key session

/-- The section of `session`. -/
def lookup (sessions : Dict Bytes Session) (key : Bytes) (now : ℚ) : Option Session × Dict Bytes Session :=
  let left := cleanup sessions now
  ((left.get? key).filter fun session => now < session.expires, left)

/-- What a section does. The control layer shares nothing with it. -/
def Section.run (config : Config) : (e : Section) → World → e.Answer × World
  | .rate ip now, w => ((w.limits.globalRateAllowed ip now).1, { w with limits := (w.limits.globalRateAllowed ip now).2 })
  | .reserve ip now, w =>
      ((w.limits.reserveLoginAttempt ip now).1, { w with limits := (w.limits.reserveLoginAttempt ip now).2 })
  | .finish ip failed now, w => ((), { w with limits := w.limits.finishLoginAttempt ip failed now })
  | .clear ip, w => ((), { w with limits := w.limits.clearLoginFailures ip })
  | .create key csrf now, w =>
      (⟨csrf, now + config.sessionSeconds⟩,
        { w with sessions := createSession w.sessions key ⟨csrf, now + config.sessionSeconds⟩ now })
  | .session key now, w => ((lookup w.sessions key now).1, { w with sessions := (lookup w.sessions key now).2 })
  | .destroy key, w => ((), { w with sessions := w.sessions.erase key })
  | .control _, w => ((), w)
  | .send _, w => ((), w)

/-- A part of the handler. Its own state is the flag `attempt_finished`. -/
abbrev Handler (α : Type) : Type := Method Section Section.Answer Bool Fault α

/-- Do it, and go on with the answer. -/
def perform (e : Section) : Handler e.Answer := Method.call (Prog.perform e)

/-- What is computed, unless it raises. -/
def lift {α : Type} : Except Fault α → Handler α
  | .ok a => Method.ret a
  | .error e => Method.raise e

/-- `try: body finally: last` -/
def tryFinally (body last : Handler Unit) : Handler Unit := body.outcome fun outcome => last.bind fun _ => lift outcome

/-! ### The environment -/

/-- What `export_config` returns: `pdgcontrol` has checked the types. -/
structure Attachment where
  data : Bytes
  filename : String
  contentType : String

/-- What comes of a call: a `ControlError`, another exception, or a result. Of the results of most
methods only `json.dumps` reads something: its text in UTF-8, or nothing where it raises. -/
inductive Answer (α : Type) where
  | refused (r : Refusal)
  | failed
  | returned (result : α)

/-- The places where the clock is read. -/
inductive Reading where
  | rate | session | prelogin | reserve | finish | create
  deriving DecidableEq

structure FileInfo where
  regular : Bool
  size : Nat

/-- The static files: what a path below the root resolves to, if that lies below the root; what
`stat` and `open` give, unless they raise an `OSError`. -/
structure Files where
  resolve : List String → Option (List String)
  stat : List String → Option FileInfo
  contents : List String → Option Bytes

/-- What the handler takes from around it: the clock, fresh secrets, whether a slot of the key derivation
is free, the control layer, and the static files. -/
structure Around where
  clock : Reading → ℚ
  newToken : UrlToken
  newCsrf : UrlToken
  slotFree : Bool
  control : Call → Answer (Option String)
  exported : String → Answer Attachment
  files : Files

variable (P : Python) (config : Config) (A : Around) (req : Request)

/-! ### Answering -/

/-- The body of a response that is too large. -/
def tooLarge : String :=
  "\x7b\"ok\":false,\"error\":\x7b\"code\":\"response_too_large\",\"message\":\"Response is too large.\"\x7d\x7d"

/-- `ord(c) < 256` for every character. -/
def latin1 (s : String) : Bool := s.toList.all fun c => c.toNat < 256

/-- `_send`; the other headers are constant, or taken from tokens. -/
def send (r : Response) (maximum : Nat) : Handler Unit :=
  let r := if r.body.size > maximum then
      { r with status := 500, body := .text tooLarge, contentType := "application/json; charset=utf-8" }
    else r
  if latin1 r.contentType then perform (.send r) else Method.raise .unencodable

/-- `_json`, for an object that is written already. -/
def json (status : Nat) (text : String) (cookie allow : Option String) : Handler Unit :=
  send ⟨status, .text text, "application/json; charset=utf-8", cookie, allow, none⟩ maxResponseBytes

/-- `_ok` -/
def ok (data : String) (status : Nat) (cookie : Option String) : Handler Unit :=
  json status ("\x7b\"ok\":true,\"data\":" ++ data ++ "\x7d") cookie none

/-- `_error` -/
def error (r : Refusal) (cookie : Option String) (allow : Option String) : Handler Unit :=
  json r.status ("\x7b\"ok\":false,\"error\":\x7b\"code\":" ++ Json.quote r.code ++ ",\"message\":" ++
    Json.quote r.message ++ "\x7d\x7d") cookie allow

/-- `_error` without more. -/
def refuse (status : Nat) (code message : String) : Handler Unit := error ⟨status, code, message⟩ none none

/-- `_new_cookie` -/
def newCookie (token : String) : String :=
  cookieName ++ "=" ++ token ++ "; Path=/; Max-Age=" ++ toString config.sessionSeconds ++
    "; HttpOnly; Secure; SameSite=Strict"

/-- `_expired_cookie` -/
def expiredCookie : String := cookieName ++ "=; Path=/; Max-Age=0; HttpOnly; Secure; SameSite=Strict"

/-- `int(x)` of a float -/
def truncated (x : ℚ) : Int := if x < 0 then -⌊-x⌋ else ⌊x⌋

/-- `{"authenticated": False, "csrf": …}` -/
def anonymous (csrf : UrlToken) : String :=
  "\x7b\"authenticated\":false,\"csrf\":" ++ Json.quote csrf.text ++ "\x7d"

/-- `{"authenticated": True, "csrf": …, "expires_at": …}` -/
def authenticated (session : Session) : String :=
  "\x7b\"authenticated\":true,\"csrf\":" ++ Json.quote session.csrf.text ++ ",\"expires_at\":" ++
    toString (truncated session.expires) ++ "\x7d"

/-! ### Sessions -/

/-- `re.fullmatch(r"[A-Za-z0-9_-]+", token)` of a token that is not too long. -/
def tokenRe (token : String) : Bool := token ≠ "" && token.length ≤ 256 && token.toList.all urlChar

/-- `_session` -/
def currentSession : Handler (Option String × Option Session) :=
  match cookieToken P req with
  | none => pure (none, none)
  | some token =>
      if tokenRe token then do
        let session ← perform (.session (config.sessionKey token) (A.clock .session))
        return (some token, session)
      else pure (some token, none)

/-- `destroy_session` -/
def destroySession (token : Option String) : Handler Unit :=
  match token with
  | none => pure ()
  | some token =>
      if token = "" ∨ token.length > 256 ∨ ascii token = false then pure ()
      else perform (.destroy (config.sessionKey token))

/-- `prelogin_csrf` -/
def preloginCsrf (ip host : String) (now : ℚ) : UrlToken := config.loginToken ip host ⌊now / preloginCsrfSeconds⌋

/-- `verify_prelogin_csrf` -/
def verifyPreloginCsrf (token : Option String) (ip host : String) : Except Fault Bool :=
  match token with
  | none => .ok false
  | some token =>
      if token = "" ∨ token.length > 128 then .ok false
      else do
        let now := A.clock .prelogin
        if ← compareDigest (preloginCsrf config ip host now).text token then return true
        compareDigest (preloginCsrf config ip host (now - preloginCsrfSeconds)).text token

/-- `self._expired_cookie() if token else None` -/
def dropCookie (token : Option String) : Option String := (token.filter (· ≠ "")).map fun _ => expiredCookie

/-! ### Bodies and calls -/

/-- `body = self._read_json()`, and what happens unless it has answered. -/
def withJson (password : Bool) (f : Dict String Json → Handler Unit) : Handler Unit :=
  match jsonBody P req password with
  | .error r => error r none none
  | .ok body => f body

/-- `_call` -/
def call (c : Call) (status : Nat) : Handler Unit := do
  perform (.control c)
  match A.control c with
  | .refused r => error r none none
  | .failed => refuse 500 "internal_error" "Operation could not be completed."
  | .returned (some text) => ok text status none
  | .returned none => Method.raise .unencodable

/-- `_identifier_call` -/
def identifierCall (raw : String) (kind : SegmentKind) (op : ItemOp) (body : Bool) : Handler Unit :=
  match strictPathSegment P raw kind with
  | .error r => error r none none
  | .ok value =>
      if body then withJson P req false fun requestBody => call A (.item op value (some requestBody)) 200
      else call A (.item op value none) 200

/-- `_identifier_optional_body` -/
def identifierOptionalBody (raw : String) (kind : SegmentKind) (op : ItemOp) : Handler Unit :=
  match strictPathSegment P raw kind with
  | .error r => error r none none
  | .ok value =>
      if getAll P req "Transfer-Encoding" ≠ [] then
        refuse 400 "invalid_request" "Request body is invalid."
      else
        let lengths := getAll P req "Content-Length"
        if lengths = [] ∨ lengths = ["0"] then call A (.item op value none) 200
        else if contentLength P req = none then
          refuse 411 "length_required" "A valid Content-Length is required."
        else withJson P req false fun requestBody => call A (.item op value (some requestBody)) 200

/-! ### Login and export -/

/-- The password of a body with that key alone. -/
def passwordOf : Dict String Json → Option String
  | [("password", .str password)] => some password
  | _ => none

/-- The password that is verified. -/
def bounded (password : String) : String :=
  if 1 ≤ password.utf8ByteSize ∧ password.utf8ByteSize ≤ maxPasswordBytes then password else ""

/-- `verify_password` -/
def verifyPassword (password : String) : Option Bool :=
  if A.slotFree then some (config.passwordMatches password) else none

/-- `finish_login_attempt`, and the assignment behind it. -/
def finishLoginAttempt (failed : Bool) : Handler Unit := do
  perform (.finish req.clientIp failed (A.clock .finish))
  Method.assign fun _ => true

/-- The `finally` of both handlers. -/
def finishOpen : Handler Unit := do
  let finished ← Method.self
  if finished then pure () else perform (.finish req.clientIp true (A.clock .finish))

/-- The end of a login with the right password. -/
def openSession : Handler Unit := do
  perform (.clear req.clientIp)
  destroySession config (cookieToken P req)
  let session ← perform (.create (config.sessionKey A.newToken.text) A.newCsrf (A.clock .create))
  ok (authenticated session) 200 (some (newCookie config A.newToken.text))

/-- The body of the `try` in `_login`. -/
def loginBody : Handler Unit :=
  withJson P req true fun body =>
    match passwordOf body with
    | none => refuse 401 "invalid_credentials" "Invalid credentials."
    | some password =>
        match verifyPassword config A (bounded password) with
        | none => do
            finishLoginAttempt A req false
            refuse 429 "rate_limited" "Too many login attempts."
        | some valid => do
            finishLoginAttempt A req (!valid)
            if valid then openSession P config A req
            else refuse 401 "invalid_credentials" "Invalid credentials."

/-- `_login` -/
def login (host : String) : Handler Unit := do
  if ← lift (verifyPreloginCsrf config A (csrfHeader P req) req.clientIp host) then
    if ← perform (.reserve req.clientIp (A.clock .reserve)) then do
      Method.assign fun _ => false
      tryFinally (loginBody P config A req) (finishOpen A req)
    else refuse 429 "rate_limited" "Too many login attempts."
  else refuse 403 "csrf_failed" "CSRF validation failed."

/-- `re.fullmatch(r"[A-Za-z0-9_.-]{1,64}", filename)` -/
def filenameRe (filename : String) : Bool :=
  decide (1 ≤ filename.length ∧ filename.length ≤ 64) &&
    filename.toList.all fun c => c.isAlphanum || c ∈ ['_', '.', '-']

/-- The export behind a valid password. -/
def sendExport (kind : String) : Handler Unit := do
  perform (.control (.exportConfig kind))
  match A.exported kind with
  | .refused r => error r none none
  | .failed => refuse 500 "internal_error" "Operation could not be completed."
  | .returned file =>
      if (0 < file.data.length ∧ file.data.length ≤ maxImportBytes) ∧ filenameRe file.filename then
        send ⟨200, .bytes file.data, file.contentType, none, none,
          some ("attachment; filename=\"" ++ file.filename ++ "\"")⟩ maxImportBytes
      else refuse 500 "internal_error" "Operation could not be completed."

/-- The body of the `try` in `_export_config`. -/
def exportBody (kind : String) : Handler Unit :=
  withJson P req true fun body =>
    match passwordOf body with
    | none => do
        finishLoginAttempt A req true
        refuse 401 "invalid_credentials" "Invalid credentials."
    | some password =>
        match verifyPassword config A (bounded password) with
        | none => do
            finishLoginAttempt A req false
            refuse 429 "rate_limited" "Too many authentication attempts."
        | some valid => do
            finishLoginAttempt A req (!valid)
            if valid then do
              perform (.clear req.clientIp)
              sendExport A kind
            else refuse 401 "invalid_credentials" "Invalid credentials."

/-- `_export_config` -/
def exportConfig (kind : String) : Handler Unit := do
  if ← perform (.reserve req.clientIp (A.clock .reserve)) then do
    Method.assign fun _ => false
    tryFinally (exportBody P config A req kind) (finishOpen A req)
  else refuse 429 "rate_limited" "Too many authentication attempts."

/-! ### Static files -/

/-- `pathlib.PurePosixPath(relative).parts` -/
def pieces (relative : String) : List String :=
  ((Text.splitAt '/' relative.toList).filter fun part => part ≠ [] && part ≠ ['.']).map String.ofList

/-- `candidate.suffix` -/
def suffix (candidate : List String) : String :=
  let name := (candidate.getLast?.getD "").toList
  let stem := name.rdropWhile (· ≠ '.')
  if 2 ≤ stem.length ∧ stem.length < name.length then String.ofList ('.' :: name.drop stem.length) else ""

/-- `self._error(404, "not_found", "Resource was not found.")` -/
def noResource : Handler Unit := refuse 404 "not_found" "Resource was not found."

/-- The end of `_static`, for a file below the root. -/
def sendFile (candidate : List String) : Handler Unit :=
  match A.files.stat candidate with
  | none => noResource
  | some info =>
      if info.regular = false ∨ info.size > maxStaticBytes then noResource
      else
        match A.files.contents candidate with
        | none => noResource
        | some data =>
            if data.length > maxStaticBytes then noResource
            else
              let mime := (mimeTypes.get? (P.lower (suffix candidate))).getD "application/octet-stream"
              send ⟨200, .bytes data, mime, none, none, none⟩ maxResponseBytes

/-- `decoded.lstrip("/") or "index.html"` -/
def relativePath (decoded : String) : String :=
  let relative := decoded.toList.dropWhile (· = '/')
  if relative = [] then "index.html" else String.ofList relative

/-- `_static` -/
def static (path : String) : Handler Unit :=
  if percentBad path.toList ∨ path.length > 1024 then noResource
  else
    match P.unquote path with
    | none => noResource
    | some decoded =>
        if '\\' ∈ decoded.toList ∨ Char.ofNat 0 ∈ decoded.toList then noResource
        else
          let parts := pieces (relativePath decoded)
          if ".." ∈ parts then noResource
          else
            match A.files.resolve parts with
            | some candidate => sendFile P A candidate
            | none =>
                match parts.getLast? with
                | none => Method.raise .indexError
                | some last =>
                    if '.' ∈ last.toList then noResource
                    else
                      match A.files.resolve ["index.html"] with
                      | some candidate => sendFile P A candidate
                      | none => noResource

/-! ### Dispatch -/

/-- The number of lines that a query asks for: `lines=([1-9][0-9]{1,2})`, and its bounds. -/
def logLines (query : String) : Option Nat :=
  if query = "" then some 100
  else
    let digits := query.toList.drop 6
    if ['l', 'i', 'n', 'e', 's', '='].isPrefixOf query.toList && digits.head?.any (fun c => '1' ≤ c && c ≤ '9') &&
        digits.all (fun c => '0' ≤ c && c ≤ '9') && (digits.length = 2 || digits.length = 3) then
      let lineLimit := digitsValue (String.ofList digits)
      if 10 ≤ lineLimit ∧ lineLimit ≤ 200 then some lineLimit else none
    else none

/-- The branch of the logs. -/
def serveLogs (query : String) : Handler Unit :=
  match logLines query with
  | some lineLimit => call A (.logs lineLimit) 200
  | none => refuse 400 "invalid_query" "Query parameters are invalid."

/-- `MAX_LEGACY_PDG_IMPORT_BYTES if kind == "pdg" else MAX_IMPORT_BYTES` -/
def uploadLimit (kind : String) : Nat := if kind = "pdg" then maxLegacyPdgImportBytes else maxImportBytes

/-- The branch of the import previews. -/
def servePreview (kind : String) : Handler Unit :=
  match binaryMeta P req (uploadLimit kind) with
  | .error r => error r none none
  | .ok (size, contentType) => call A (.previewImport kind size contentType) 201

/-- What a route does. -/
def serve (query : String) (token : Option String) : Route → Handler Unit
  | .logout =>
      withJson P req false fun body =>
        if body ≠ [] then refuse 400 "invalid_request" "Request data is invalid."
        else do
          destroySession config token
          ok (anonymous (preloginCsrf config req.clientIp ((requestHost P config req).getD "") (A.clock .prelogin))) 200
            (some expiredCookie)
  | .exportConfig kind => exportConfig P config A req kind
  | .previewImport kind => servePreview P A req kind
  | .applyImport id => withJson P req false fun body => call A (.applyImport id body) 202
  | .cancelImport id => call A (.cancelImport id) 200
  | .view view => call A (.view view) 200
  | .logs => serveLogs A query
  | .submit op status => withJson P req false fun body => call A (.submit op body) status
  | .item raw kind op body => identifierCall P A req raw kind op body
  | .optionalItem raw kind op => identifierOptionalBody P A req raw kind op
  | .dns which => withJson P req false fun body => call A (.setDns which body) 200
  | .action name => withJson P req false fun body => call A (.action name body) 202

/-- What `_dispatch_api` does behind the session and token checks. -/
def serveRoute (path query : String) (token : Option String) : Handler Unit :=
  match route req.command path with
  | some r => serve P config A req query token r
  | none => refuse 404 "not_found" "Endpoint was not found."

/-- The check of the token of a session. -/
def csrfChecked (session : Session) : Except Fault Bool :=
  if req.command.mutation then
    match csrfHeader P req with
    | none => .ok false
    | some csrf => compareDigest csrf session.csrf.text
  else .ok true

/-- `_dispatch_api` -/
def dispatchApi (path query host : String) : Handler Unit :=
  if path = "/api/v1/session" ∧ req.command = .get then do
    let (token, session) ← currentSession P config A req
    match session with
    | none =>
        ok (anonymous (preloginCsrf config req.clientIp host (A.clock .prelogin))) 200 (dropCookie token)
    | some session => ok (authenticated session) 200 none
  else if path = "/api/v1/login" ∧ req.command = .post then login P config A req host
  else do
    let (token, session) ← currentSession P config A req
    match session with
    | none =>
        error ⟨401, "authentication_required", "Authentication is required."⟩ (dropCookie token) none
    | some session =>
        if ← lift (csrfChecked P req session) then serveRoute P config A req path query token
        else refuse 403 "csrf_failed" "CSRF validation failed."

/-- `_dispatch` behind the checks of the peer, the host and the origin. -/
def dispatchTarget (host : String) : Handler Unit := do
  if ← perform (.rate req.clientIp (A.clock .rate)) then
    match requestTarget P req with
    | none => refuse 400 "invalid_target" "Request target is invalid."
    | some (path, query) =>
        if query ≠ "" ∧ ¬ (req.command = .get ∧ path = "/api/v1/logs") then
          refuse 400 "invalid_query" "Query parameters are not allowed."
        else if ['/', 'a', 'p', 'i', '/'].isPrefixOf path.toList then dispatchApi P config A req path query host
        else if req.command = .get then
          if query ≠ "" then refuse 400 "invalid_query" "Query parameters are not allowed."
          else static P A path
        else error ⟨405, "method_not_allowed", "Method is not allowed."⟩ none (some "GET")
  else refuse 429 "rate_limited" "Too many requests."

/-- `_dispatch` -/
def dispatch : Handler Unit :=
  if ipTrusted P config req.clientIp then
    match requestHost P config req with
    | none => refuse 421 "host_not_allowed" "Host is not allowed."
    | some host =>
        if originAllowed P config req host req.command.mutation then dispatchTarget P config A req host
        else refuse 403 "origin_not_allowed" "Origin is not allowed."
  else refuse 403 "forbidden" "Request is not allowed."

/-- The `do_` handlers. -/
def handle : Handler Unit :=
  match req.command with
  | .head => error ⟨405, "method_not_allowed", "Method is not allowed."⟩ none (some "GET")
  | .options => refuse 405 "method_not_allowed" "Method is not allowed."
  | _ => dispatch P config A req

end ProxyGateway.Http
