import ProxyGateway.Http.Guarded

set_option autoImplicit false

/-!
# ProxyGateway.Http.Answered

A request that is served alone gets exactly one response, and the handler raises nothing, except in the
cases of `Hit`: the comparison of tokens is given a text that is not ASCII, what the control layer returns
cannot be written, or a path without parts is looked up below a root that is gone (`answered_iff`).
-/

namespace ProxyGateway.Http

open Ledger

variable {P : Python} {config : Config} {A : Around} {req : Request} {w : World} {host path query : String}

/-! ### The statement -/

/-- A response. -/
def isSend {ι : Type} : Event ι → Bool
  | ⟨_, .send _, _⟩ => true
  | _ => false

/-- The part of the handler returns, and sends exactly one response. -/
def Responds {ι : Type} (config : Config) (i : ι) (m : Handler Unit) (finished : Bool) (s : Shared ι) : Prop :=
  Once (Section.run config) i isSend m finished s

/-- Exactly one response, and no exception. -/
def Answered (P : Python) (config : Config) (A : Around) (req : Request) (w : World) : Prop :=
  Responds config () (handle P config A req) false ⟨w, []⟩

/-! ### Requests without a response -/

/-- The request passes the checks of `_dispatch`. -/
structure Admitted (P : Python) (config : Config) (A : Around) (req : Request) (w : World) (host path query : String) :
    Prop where
  trusted : ipTrusted P config req.clientIp = true
  hosted : requestHost P config req = some host
  origin : originAllowed P config req host req.command.mutation = true
  rate : (w.limits.globalRateAllowed req.clientIp (A.clock .rate)).1 = true
  target : requestTarget P req = some (path, query)
  plain : query = "" ∨ (req.command = .get ∧ path = "/api/v1/logs")

/-- The request is for the API, and not for the session itself. -/
structure ForApi (req : Request) (path : String) : Prop where
  api : ['/', 'a', 'p', 'i', '/'].isPrefixOf path.toList = true
  session : ¬ (path = "/api/v1/session" ∧ req.command = .get)
  login : ¬ (path = "/api/v1/login" ∧ req.command = .post)

/-- The session of the request. -/
def sessionOf (P : Python) (config : Config) (A : Around) (req : Request) (w : World) : Option Session :=
  match cookieToken P req with
  | none => none
  | some token =>
      if tokenRe token then (lookup w.sessions (config.sessionKey token) (A.clock .session)).1 else none

/-- The token of the request has a character outside ASCII. -/
def ForeignToken (P : Python) (req : Request) : Prop := ∃ token, csrfHeader P req = some token ∧ ascii token = false

/-- The call of `_identifier_call`. -/
def askedItem (P : Python) (req : Request) (raw : String) (kind : SegmentKind) (op : ItemOp) (body : Bool) : Option Call :=
  match strictPathSegment P raw kind with
  | .error _ => none
  | .ok value =>
      if body then (jsonBody P req false).toOption.map fun requestBody => .item op value (some requestBody)
      else some (.item op value none)

/-- The call of `_identifier_optional_body`. -/
def askedOptionalItem (P : Python) (req : Request) (raw : String) (kind : SegmentKind) (op : ItemOp) : Option Call :=
  match strictPathSegment P raw kind with
  | .error _ => none
  | .ok value =>
      if getAll P req "Transfer-Encoding" ≠ [] then none
      else if getAll P req "Content-Length" = [] ∨ getAll P req "Content-Length" = ["0"] then some (.item op value none)
      else if contentLength P req = none then none
      else (jsonBody P req false).toOption.map fun requestBody => .item op value (some requestBody)

/-- The call of an import preview. -/
def askedPreview (P : Python) (req : Request) (kind : String) : Option Call :=
  match binaryMeta P req (uploadLimit kind) with
  | .ok (size, contentType) => some (.previewImport kind size contentType)
  | .error _ => none

/-- The call that a route other than an export leads to. -/
def asked (P : Python) (req : Request) (query : String) : Route → Option Call
  | .logout => none
  | .exportConfig _ => none
  | .previewImport kind => askedPreview P req kind
  | .applyImport id => (jsonBody P req false).toOption.map (.applyImport id)
  | .cancelImport id => some (.cancelImport id)
  | .view view => some (.view view)
  | .logs => (logLines query).map .logs
  | .submit op _ => (jsonBody P req false).toOption.map (.submit op)
  | .item raw kind op body => askedItem P req raw kind op body
  | .optionalItem raw kind op => askedOptionalItem P req raw kind op
  | .dns which => (jsonBody P req false).toOption.map (.setDns which)
  | .action name => (jsonBody P req false).toOption.map (.action name)

/-- The password of an export is the right one, and was tried within the limits. -/
def Reauthenticated (P : Python) (config : Config) (A : Around) (req : Request) (w : World) : Prop :=
  ((w.limits.globalRateAllowed req.clientIp (A.clock .rate)).2.reserveLoginAttempt req.clientIp (A.clock .reserve)).1 =
      true ∧
    ∃ body password, jsonBody P req true = .ok body ∧ passwordOf body = some password ∧
      verifyPassword config A (bounded password) = some true

/-- The export is read, and its media type cannot be written. -/
def Unwritable (A : Around) (kind : String) : Prop :=
  ∃ file, A.exported kind = .returned file ∧
    ((0 < file.data.length ∧ file.data.length ≤ maxImportBytes) ∧ filenameRe file.filename = true) ∧
    latin1 file.contentType = false

/-- A path without parts, below a root that is gone. -/
def Rootless (P : Python) (A : Around) (path : String) : Prop :=
  ¬ (percentBad path.toList = true ∨ path.length > 1024) ∧
    ∃ decoded, P.unquote path = some decoded ∧ ¬ ('\\' ∈ decoded.toList ∨ Char.ofNat 0 ∈ decoded.toList) ∧
      pieces (relativePath decoded) = [] ∧ A.files.resolve [] = none

/-- The answer to a route cannot be written. -/
inductive Spoiled (P : Python) (config : Config) (A : Around) (req : Request) (w : World) (query : String) : Route → Prop
    where
  /-- The result of the control layer has no text. -/
  | answer {r : Route} {c : Call} (hasked : asked P req query r = some c) (h : A.control c = .returned none) :
      Spoiled P config A req w query r
  /-- The media type of an export is no header. -/
  | attachment {kind : String} (hpassword : Reauthenticated P config A req w) (h : Unwritable A kind) :
      Spoiled P config A req w query (.exportConfig kind)

/-- The ways in which an admitted request gets no response. -/
inductive Hit (P : Python) (config : Config) (A : Around) (req : Request) (w : World) (path query : String) : Prop where
  /-- The token before a login is compared. -/
  | login (hpath : path = "/api/v1/login") (hcommand : req.command = .post) (h : ForeignToken P req)
  /-- The token of a session is compared. -/
  | token {session : Session} (hapi : ForApi req path) (hsession : sessionOf P config A req w = some session)
      (hmutation : req.command.mutation = true) (h : ForeignToken P req)
  /-- The answer cannot be written. -/
  | answer {session : Session} {r : Route} (hapi : ForApi req path) (hsession : sessionOf P config A req w = some session)
      (hchecked : csrfChecked P req session = .ok true) (hroute : route req.command path = some r)
      (h : Spoiled P config A req w query r)
  /-- A path without parts is looked up below a root that is gone. -/
  | index (hapi : ['/', 'a', 'p', 'i', '/'].isPrefixOf path.toList = false) (hcommand : req.command = .get)
      (h : Rootless P A path)

/-- The request gets no response. -/
def Struck (P : Python) (config : Config) (A : Around) (req : Request) (w : World) : Prop :=
  req.command ≠ .head ∧ req.command ≠ .options ∧
    ∃ host path query, Admitted P config A req w host path query ∧ Hit P config A req w path query

/-! ### Answers -/

section Responds

variable {ι : Type} {i : ι} {l : Bool} {s : Shared ι}

theorem responds_perform_bind {e : Section} (h : ∀ r, isSend (⟨i, e, r⟩ : Event ι) = false) (f : e.Answer → Handler Unit) :
    Responds config i (perform e >>= f) l s ↔
      Responds config i (f (Section.run config e s.world).1) l (exec (Section.run config) i e () s).2 :=
  once_perform_bind h f

theorem responds_assign_bind (g : Bool → Bool) (f : Unit → Handler Unit) :
    Responds config i (Method.assign g >>= f) l s ↔ Responds config i (f ()) (g l) s :=
  Iff.rfl

theorem responds_finish_bind (failed : Bool) (f : Unit → Handler Unit) :
    Responds config i (finishLoginAttempt A req failed >>= f) l s ↔
      Responds config i (f ()) true
        (exec (Section.run config) i (.finish req.clientIp failed (A.clock .finish)) () s).2 :=
  responds_perform_bind (fun _ => rfl) _

theorem lift_ok_bind {α β : Type} (a : α) (f : α → Handler β) : lift (.ok a) >>= f = f a := rfl

theorem responds_lift_bind {r : Except Fault Bool} {f : Bool → Handler Unit} (h : ∀ a, Responds config i (f a) l s) :
    Responds config i (lift r >>= f) l s ↔ ∃ a, r = .ok a := by
  cases r with
  | ok a => exact iff_of_true (h a) ⟨a, rfl⟩
  | error e =>
      refine iff_of_false (not_once_raise_bind e f) ?_
      rintro ⟨a, ha⟩
      cases ha

theorem not_responds_raise (e : Fault) : ¬ Responds config i (Method.raise e) l s := not_once_raise e

theorem latin1_json : latin1 "application/json; charset=utf-8" = true := by decide

theorem responds_perform_send (r : Response) : Responds config i (perform (.send r)) l s := once_perform fun _ => rfl

theorem responds_send {r : Response} (h : latin1 r.contentType = true) (maximum : Nat) :
    Responds config i (send r maximum) l s := by
  unfold send
  dsimp only
  by_cases hlarge : r.body.size > maximum
  · rw [if_pos hlarge, if_pos latin1_json]
    exact responds_perform_send _
  · rw [if_neg hlarge, if_pos h]
    exact responds_perform_send _

theorem responds_error (r : Refusal) (cookie allow : Option String) : Responds config i (error r cookie allow) l s := by
  unfold error json
  exact responds_send latin1_json _

theorem responds_refuse (status : Nat) (code message : String) : Responds config i (refuse status code message) l s := by
  unfold refuse
  exact responds_error _ _ _

theorem responds_ok (data : String) (status : Nat) (cookie : Option String) : Responds config i (ok data status cookie) l s := by
  unfold ok json
  exact responds_send latin1_json _

theorem responds_withJson {password : Bool} {f : Dict String Json → Handler Unit} :
    Responds config i (withJson P req password f) l s ↔
      ∀ body, jsonBody P req password = .ok body → Responds config i (f body) l s := by
  unfold withJson
  cases jsonBody P req password with
  | error r => exact iff_of_true (responds_error _ _ _) fun _ h => by cases h
  | ok body => exact ⟨fun h _ hbody => Except.ok.inj hbody ▸ h, fun h => h body rfl⟩

theorem responds_call (c : Call) (status : Nat) : Responds config i (call A c status) l s ↔ A.control c ≠ .returned none := by
  refine (responds_perform_bind (fun _ => rfl) _).trans ?_
  cases A.control c with
  | refused r => exact iff_of_true (responds_error _ _ _) fun h => by cases h
  | failed => exact iff_of_true (responds_refuse _ _ _) fun h => by cases h
  | returned text =>
      cases text with
      | none => exact iff_of_false (not_responds_raise _) fun h => h rfl
      | some text => exact iff_of_true (responds_ok _ _ _) fun h => by cases h

/-- A call with the body. -/
theorem responds_bodyCall (f : Dict String Json → Call) (status : Nat) :
    Responds config i (withJson P req false fun body => call A (f body) status) l s ↔
      ∀ c, (jsonBody P req false).toOption.map f = some c → A.control c ≠ .returned none := by
  rw [responds_withJson]
  cases jsonBody P req false with
  | error r => exact iff_of_true (fun _ h => by cases h) fun _ h => by cases h
  | ok body =>
      refine ⟨fun h c hc => ?_, fun h b hb => ?_⟩
      · obtain rfl : f body = c := Option.some.inj hc
        exact (responds_call _ _).mp (h body rfl)
      · obtain rfl := Except.ok.inj hb
        exact (responds_call _ _).mpr (h _ rfl)

theorem responds_someCall (c : Call) (status : Nat) :
    Responds config i (call A c status) l s ↔ ∀ c', some c = some c' → A.control c' ≠ .returned none :=
  (responds_call c status).trans ⟨fun h _ hc => Option.some.inj hc ▸ h, fun h => h c rfl⟩

theorem responds_item (raw : String) (kind : SegmentKind) (op : ItemOp) (body : Bool) :
    Responds config i (identifierCall P A req raw kind op body) l s ↔
      ∀ c, askedItem P req raw kind op body = some c → A.control c ≠ .returned none := by
  unfold identifierCall askedItem
  cases strictPathSegment P raw kind with
  | error r => exact iff_of_true (responds_error _ _ _) fun _ h => by cases h
  | ok value =>
      cases body with
      | true => exact responds_bodyCall _ _
      | false => exact responds_someCall _ _

theorem responds_optionalItem (raw : String) (kind : SegmentKind) (op : ItemOp) :
    Responds config i (identifierOptionalBody P A req raw kind op) l s ↔
      ∀ c, askedOptionalItem P req raw kind op = some c → A.control c ≠ .returned none := by
  unfold identifierOptionalBody askedOptionalItem
  cases strictPathSegment P raw kind with
  | error r => exact iff_of_true (responds_error _ _ _) fun _ h => by cases h
  | ok value =>
      dsimp only
      by_cases htransfer : getAll P req "Transfer-Encoding" ≠ []
      · rw [if_pos htransfer, if_pos htransfer]
        exact iff_of_true (responds_refuse _ _ _) fun _ h => by cases h
      · rw [if_neg htransfer, if_neg htransfer]
        by_cases hnone : getAll P req "Content-Length" = [] ∨ getAll P req "Content-Length" = ["0"]
        · rw [if_pos hnone, if_pos hnone]
          exact responds_someCall _ _
        · rw [if_neg hnone, if_neg hnone]
          by_cases hlength : contentLength P req = none
          · rw [if_pos hlength, if_pos hlength]
            exact iff_of_true (responds_refuse _ _ _) fun _ h => by cases h
          · rw [if_neg hlength, if_neg hlength]
            exact responds_bodyCall _ _

theorem responds_preview (kind : String) : Responds config i (servePreview P A req kind) l s ↔
    ∀ c, askedPreview P req kind = some c → A.control c ≠ .returned none := by
  unfold servePreview askedPreview
  cases binaryMeta P req (uploadLimit kind) with
  | error r => exact iff_of_true (responds_error _ _ _) fun _ h => by cases h
  | ok upload => exact responds_someCall _ _

theorem responds_logs : Responds config i (serveLogs A query) l s ↔
    ∀ c, (logLines query).map Call.logs = some c → A.control c ≠ .returned none := by
  unfold serveLogs
  cases logLines query with
  | none => exact iff_of_true (responds_refuse _ _ _) fun _ h => by cases h
  | some lineLimit => exact responds_someCall _ _

/-- A part of the handler that returns and sends nothing. -/
def Silent {α : Type} (config : Config) (i : ι) (m : Handler α) : Prop := Quiet (Section.run config) i isSend m

theorem silent_perform {e : Section} (h : ∀ r, isSend (⟨i, e, r⟩ : Event ι) = false) : Silent config i (perform e) :=
  quiet_perform h

theorem silent_destroySession (token : Option String) : Silent config i (destroySession config token) := by
  unfold destroySession
  split
  · exact quiet_ret ()
  · split
    · exact quiet_ret ()
    · exact silent_perform fun _ => rfl

theorem silent_finishOpen : Silent config i (finishOpen A req) := by
  refine quiet_bind quiet_self fun finished => ?_
  split
  · exact quiet_ret ()
  · exact silent_perform fun _ => rfl

/-- Closing a session is no answer. -/
theorem responds_destroySession_bind (token : Option String) {f : Unit → Handler Unit}
    (hf : ∀ l s, Responds config i (f ()) l s) : Responds config i (destroySession config token >>= f) l s :=
  once_quiet_bind (silent_destroySession token) fun _ l s => hf l s

theorem responds_tryFinally {body : Handler Unit} :
    Responds config i (tryFinally body (finishOpen A req)) l s ↔ Responds config i body l s :=
  once_outcome_bind silent_finishOpen (fun _ => rfl) fun _ => rfl

/-- A route other than an export is answered unless what the control layer returns cannot be written. -/
theorem responds_serve (token : Option String) {r : Route} (hr : ∀ kind, r ≠ .exportConfig kind) :
    Responds config i (serve P config A req query token r) l s ↔
      ∀ c, asked P req query r = some c → A.control c ≠ .returned none := by
  cases r with
  | logout =>
      refine iff_of_true (responds_withJson.mpr fun body _ => ?_) fun _ h => by cases h
      split
      · exact responds_refuse _ _ _
      · exact responds_destroySession_bind _ fun _ _ => responds_ok _ _ _
  | exportConfig kind => exact absurd rfl (hr kind)
  | previewImport kind => exact responds_preview kind
  | applyImport id => exact responds_bodyCall _ _
  | cancelImport id => exact responds_someCall _ _
  | view view => exact responds_someCall _ _
  | logs => exact responds_logs
  | submit op status => exact responds_bodyCall _ _
  | item raw kind op body => exact responds_item raw kind op body
  | optionalItem raw kind op => exact responds_optionalItem raw kind op
  | dns which => exact responds_bodyCall _ _
  | action name => exact responds_bodyCall _ _

/-! ### Passwords -/

theorem responds_openSession : Responds config i (openSession P config A req) l s := by
  refine (responds_perform_bind (fun _ => rfl) _).mpr (responds_destroySession_bind _ fun l s => ?_)
  exact (responds_perform_bind (fun _ => rfl) _).mpr (responds_ok _ _ _)

theorem responds_loginBody : Responds config i (loginBody P config A req) l s := by
  refine responds_withJson.mpr fun body _ => ?_
  split
  · exact responds_refuse _ _ _
  · split
    · exact (responds_finish_bind _ _).mpr (responds_refuse _ _ _)
    · refine (responds_finish_bind _ _).mpr ?_
      split
      · exact responds_openSession
      · exact responds_refuse _ _ _

theorem urlChar_ascii {c : Char} (h : urlChar c = true) : c.toNat < 128 := by
  delta urlChar Char.isAlphanum Char.isAlpha Char.isUpper Char.isLower Char.isDigit at h
  simp only [Bool.or_eq_true, Bool.and_eq_true, decide_eq_true_eq, ge_iff_le, UInt32.le_iff_toNat_le] at h
  change (((65 ≤ c.toNat ∧ c.toNat ≤ 90 ∨ 97 ≤ c.toNat ∧ c.toNat ≤ 122) ∨ 48 ≤ c.toNat ∧ c.toNat ≤ 57) ∨ c = '-') ∨
    c = '_' at h
  rcases h with (h | rfl) | rfl
  · omega
  · decide
  · decide

theorem ascii_text (t : UrlToken) : ascii t.text = true := by
  have hplain := t.plain
  rw [List.all_eq_true] at hplain
  exact List.all_eq_true.mpr fun c hc => decide_eq_true (urlChar_ascii (hplain c hc))

/-- A token of ours is compared with ASCII texts only. -/
theorem compareDigest_left (t : UrlToken) (token : String) :
    (∃ same, compareDigest t.text token = .ok same) ↔ ascii token = true := by
  unfold compareDigest
  rw [ascii_text, Bool.true_and]
  cases ascii token with
  | true => exact iff_of_true ⟨_, rfl⟩ rfl
  | false =>
      refine iff_of_false ?_ Bool.false_ne_true
      rintro ⟨same, h⟩
      cases h

theorem compareDigest_right (t : UrlToken) (token : String) :
    (∃ same, compareDigest token t.text = .ok same) ↔ ascii token = true := by
  unfold compareDigest
  rw [ascii_text, Bool.and_true]
  cases ascii token with
  | true => exact iff_of_true ⟨_, rfl⟩ rfl
  | false =>
      refine iff_of_false ?_ Bool.false_ne_true
      rintro ⟨same, h⟩
      cases h

theorem csrfHeader_length {token : String} (h : csrfHeader P req = some token) : ¬ (token = "" ∨ token.length > 128) := by
  unfold csrfHeader at h
  split at h
  · split at h
    next hfits =>
      cases h
      rintro (rfl | hlong)
      · exact absurd hfits.1 (by decide)
      · omega
    · cases h
  · cases h

theorem verify_returns (ip : String) :
    (∃ verified, verifyPreloginCsrf config A (csrfHeader P req) ip host = .ok verified) ↔ ¬ ForeignToken P req := by
  unfold ForeignToken
  cases hcsrf : csrfHeader P req with
  | none =>
      refine iff_of_true ⟨false, rfl⟩ ?_
      rintro ⟨token, h, -⟩
      cases h
  | some token =>
      have hforeign : (∃ t, some token = some t ∧ ascii t = false) ↔ ascii token = false := by simp
      rw [hforeign, Bool.not_eq_false]
      unfold verifyPreloginCsrf
      dsimp only
      rw [if_neg (csrfHeader_length hcsrf)]
      constructor
      · rintro ⟨verified, h⟩
        refine (compareDigest_left (preloginCsrf config ip host (A.clock .prelogin)) token).mp ?_
        cases hfirst : compareDigest (preloginCsrf config ip host (A.clock .prelogin)).text token with
        | ok same => exact ⟨same, rfl⟩
        | error e =>
            rw [hfirst] at h
            cases h
      · intro hascii
        obtain ⟨same, hsame⟩ := (compareDigest_left (preloginCsrf config ip host (A.clock .prelogin)) token).mpr hascii
        obtain ⟨second, hsecond⟩ :=
          (compareDigest_left (preloginCsrf config ip host (A.clock .prelogin - preloginCsrfSeconds)) token).mpr hascii
        rw [hsame]
        cases same with
        | true => exact ⟨true, rfl⟩
        | false => exact ⟨second, hsecond⟩

theorem checked_returns (session : Session) :
    (∃ checked, csrfChecked P req session = .ok checked) ↔ ¬ (req.command.mutation = true ∧ ForeignToken P req) := by
  unfold csrfChecked ForeignToken
  cases req.command.mutation with
  | false => exact iff_of_true ⟨true, rfl⟩ fun h => by cases h.1
  | true =>
      rw [if_pos rfl, eq_self_iff_true, true_and]
      cases csrfHeader P req with
      | none =>
          refine iff_of_true ⟨false, rfl⟩ ?_
          rintro ⟨token, h, -⟩
          cases h
      | some token =>
          have hforeign : (∃ t, some token = some t ∧ ascii t = false) ↔ ascii token = false := by simp
          rw [hforeign, Bool.not_eq_false]
          exact compareDigest_right session.csrf token

theorem responds_login : Responds config i (login P config A req host) l s ↔ ¬ ForeignToken P req := by
  refine (responds_lift_bind fun verified => ?_).trans (verify_returns _)
  split
  · refine (responds_perform_bind (fun _ => rfl) _).mpr ?_
    split
    · exact (responds_assign_bind _ _).mpr (responds_tryFinally.mpr responds_loginBody)
    · exact responds_refuse _ _ _
  · exact responds_refuse _ _ _

theorem responds_sendExport (kind : String) : Responds config i (sendExport A kind) l s ↔ ¬ Unwritable A kind := by
  refine (responds_perform_bind (fun _ => rfl) _).trans ?_
  unfold Unwritable
  cases A.exported kind with
  | refused r =>
      refine iff_of_true (responds_error _ _ _) ?_
      rintro ⟨_, h, _⟩
      cases h
  | failed =>
      refine iff_of_true (responds_refuse _ _ _) ?_
      rintro ⟨_, h, _⟩
      cases h
  | returned file =>
      dsimp only
      by_cases hfits : (0 < file.data.length ∧ file.data.length ≤ maxImportBytes) ∧ filenameRe file.filename = true
      · rw [if_pos hfits]
        by_cases hlatin : latin1 file.contentType = true
        · refine iff_of_true (responds_send hlatin _) ?_
          rintro ⟨f, hf, -, h⟩
          cases hf
          rw [hlatin] at h
          cases h
        · refine iff_of_false ?_ fun h => h ⟨file, rfl, hfits, Bool.eq_false_iff.mpr hlatin⟩
          -- the export is below the limit, so its own media type is written
          have hsize : ¬ (Content.bytes file.data).size > maxImportBytes := not_lt.mpr hfits.1.2
          unfold send
          dsimp only
          rw [if_neg hsize, if_neg hlatin]
          exact not_responds_raise _
      · rw [if_neg hfits]
        refine iff_of_true (responds_refuse _ _ _) ?_
        rintro ⟨f, hf, h, -⟩
        cases hf
        exact hfits h

theorem responds_exportBody (kind : String) : Responds config i (exportBody P config A req kind) l s ↔
    ¬ ((∃ body password, jsonBody P req true = .ok body ∧ passwordOf body = some password ∧
        verifyPassword config A (bounded password) = some true) ∧ Unwritable A kind) := by
  refine responds_withJson.trans ?_
  constructor
  · rintro hresponds ⟨⟨body, password, hbody, hpassword, hvalid⟩, hunwritable⟩
    have hbodyResponds := hresponds body hbody
    simp only [hpassword, hvalid] at hbodyResponds
    have hafter := (responds_finish_bind _ _).mp hbodyResponds
    rw [if_pos trivial] at hafter
    exact (responds_sendExport kind).mp ((responds_perform_bind (fun _ => rfl) _).mp hafter) hunwritable
  · intro h body hbody
    split
    · exact (responds_finish_bind _ _).mpr (responds_refuse _ _ _)
    next password hpassword =>
      split
      · exact (responds_finish_bind _ _).mpr (responds_refuse _ _ _)
      next valid hvalid =>
        refine (responds_finish_bind _ _).mpr ?_
        cases valid with
        | false => exact responds_refuse _ _ _
        | true =>
            rw [if_pos rfl]
            exact (responds_perform_bind (fun _ => rfl) _).mpr
              ((responds_sendExport kind).mpr fun hu => h ⟨⟨body, password, hbody, hpassword, hvalid⟩, hu⟩)

theorem responds_exportConfig (kind : String) :
    Responds config i (exportConfig P config A req kind) l s ↔
      ¬ ((s.world.limits.reserveLoginAttempt req.clientIp (A.clock .reserve)).1 = true ∧
        (∃ body password, jsonBody P req true = .ok body ∧ passwordOf body = some password ∧
          verifyPassword config A (bounded password) = some true) ∧ Unwritable A kind) := by
  refine (responds_perform_bind (fun _ => rfl) _).trans ?_
  show Responds config i (if (s.world.limits.reserveLoginAttempt req.clientIp (A.clock .reserve)).1 then _ else _) _ _ ↔ _
  cases (s.world.limits.reserveLoginAttempt req.clientIp (A.clock .reserve)).1 with
  | false => exact iff_of_true (responds_refuse _ _ _) fun h => by cases h.1
  | true =>
      rw [if_pos rfl, eq_self_iff_true, true_and]
      exact (responds_assign_bind _ _).trans (responds_tryFinally.trans (responds_exportBody kind))

/-! ### Files -/

theorem latin1_mime {suffix mime : String} (h : mimeTypes.get? suffix = some mime) : latin1 mime = true := by
  have hall : mimeTypes.all (fun entry => latin1 entry.2) = true := by decide
  exact List.all_eq_true.mp hall _ (Dict.mem_of_get? h)

theorem responds_sendFile (candidate : List String) : Responds config i (sendFile P A candidate) l s := by
  unfold sendFile
  split
  · exact responds_refuse _ _ _
  · split
    · exact responds_refuse _ _ _
    · split
      · exact responds_refuse _ _ _
      · split
        · exact responds_refuse _ _ _
        · refine responds_send ?_ _
          dsimp only
          cases hmime : mimeTypes.get? (P.lower (suffix candidate)) with
          | none => decide
          | some mime => exact latin1_mime hmime

theorem responds_static : Responds config i (static P A path) l s ↔ ¬ Rootless P A path := by
  unfold static Rootless
  by_cases hpath : percentBad path.toList = true ∨ path.length > 1024
  · rw [if_pos hpath]
    exact iff_of_true (responds_refuse _ _ _) fun h => h.1 hpath
  · rw [if_neg hpath]
    simp only [hpath, not_false_eq_true, true_and]
    cases P.unquote path with
    | none =>
        refine iff_of_true (responds_refuse _ _ _) ?_
        rintro ⟨_, h, -⟩
        cases h
    | some decoded =>
        simp only [Option.some.injEq, exists_eq_left']
        by_cases hplain : '\\' ∈ decoded.toList ∨ Char.ofNat 0 ∈ decoded.toList
        · rw [if_pos hplain]
          exact iff_of_true (responds_refuse _ _ _) fun h => h.1 hplain
        · rw [if_neg hplain]
          simp only [hplain, not_false_eq_true, true_and]
          generalize pieces (relativePath decoded) = parts
          cases parts with
          | nil =>
              rw [if_neg (by simp)]
              cases A.files.resolve [] with
              | none => exact iff_of_false (not_responds_raise _) fun h => h ⟨rfl, rfl⟩
              | some candidate => exact iff_of_true (responds_sendFile _) fun h => by cases h.2
          | cons part parts =>
              refine iff_of_true ?_ fun h => by cases h.1
              split
              · exact responds_refuse _ _ _
              · split
                · exact responds_sendFile _
                · split
                  next hlast => exact absurd (List.getLast?_eq_none_iff.mp hlast) (List.cons_ne_nil _ _)
                  · split
                    · exact responds_refuse _ _ _
                    · split
                      · exact responds_sendFile _
                      · exact responds_refuse _ _ _

/-! ### The checks in their order -/

theorem responds_route (token : Option String) (r : Route)
    (hlimits : s.world.limits = (w.limits.globalRateAllowed req.clientIp (A.clock .rate)).2) :
    Responds config i (serve P config A req query token r) l s ↔ ¬ Spoiled P config A req w query r := by
  by_cases hexport : ∃ kind, r = .exportConfig kind
  · obtain ⟨kind, rfl⟩ := hexport
    refine (responds_exportConfig kind).trans (not_congr ?_)
    rw [hlimits]
    constructor
    · rintro ⟨hreserved, hpassword, hunwritable⟩
      exact .attachment ⟨hreserved, hpassword⟩ hunwritable
    · intro h
      cases h with
      | answer hasked h => cases hasked
      | attachment hpassword h => exact ⟨hpassword.1, hpassword.2, h⟩
  · refine (responds_serve token fun kind h => hexport ⟨kind, h⟩).trans ?_
    constructor
    · intro h hspoiled
      cases hspoiled with
      | answer hasked hnone => exact h _ hasked hnone
      | attachment hpassword h => exact hexport ⟨_, rfl⟩
    · exact fun h c hasked hnone => h (.answer hasked hnone)

theorem responds_serveRoute (token : Option String)
    (hlimits : s.world.limits = (w.limits.globalRateAllowed req.clientIp (A.clock .rate)).2) :
    Responds config i (serveRoute P config A req path query token) l s ↔
      ¬ ∃ r, route req.command path = some r ∧ Spoiled P config A req w query r := by
  unfold serveRoute
  cases route req.command path with
  | none =>
      refine iff_of_true (responds_refuse _ _ _) ?_
      rintro ⟨r, h, -⟩
      cases h
  | some r =>
      refine (responds_route token r hlimits).trans (not_congr ⟨fun h => ⟨r, rfl, h⟩, ?_⟩)
      rintro ⟨r', h, hspoiled⟩
      cases h
      exact hspoiled

/-- The section of the session gives the session of the request, and leaves the rate limits alone. -/
theorem responds_currentSession_bind {f : Option String × Option Session → Handler Unit} {Q : Prop}
    (h : ∀ s' : Shared ι, s'.world.limits = s.world.limits →
      (Responds config i (f (cookieToken P req, sessionOf P config A req s.world)) l s' ↔ Q)) :
    Responds config i (currentSession P config A req >>= f) l s ↔ Q := by
  unfold currentSession
  unfold sessionOf at h
  cases htoken : cookieToken P req with
  | none =>
      rw [htoken] at h
      exact h s rfl
  | some token =>
      rw [htoken] at h
      dsimp only at h ⊢
      by_cases hfits : tokenRe token = true
      · rw [if_pos hfits] at h ⊢
        have hrest : (perform (.session (config.sessionKey token) (A.clock .session)) >>=
            fun session => (pure (some token, session) : Handler _)) >>= f =
              perform (.session (config.sessionKey token) (A.clock .session)) >>= fun session => f (some token, session) := rfl
        rw [hrest]
        exact (responds_perform_bind (fun _ => rfl) _).trans (h _ rfl)
      · rw [if_neg hfits] at h ⊢
        exact h s rfl

/-- A request for the API is hit behind the check of its session only. -/
theorem hit_api_iff (hapi : ForApi req path) : Hit P config A req w path query ↔
    ∃ session, sessionOf P config A req w = some session ∧
      ((req.command.mutation = true ∧ ForeignToken P req) ∨
        csrfChecked P req session = .ok true ∧
          ∃ r, route req.command path = some r ∧ Spoiled P config A req w query r) := by
  constructor
  · intro h
    cases h with
    | login hpath hcommand h => exact absurd ⟨hpath, hcommand⟩ hapi.login
    | token _ hsession hmutation h => exact ⟨_, hsession, .inl ⟨hmutation, h⟩⟩
    | answer _ hsession hchecked hroute h => exact ⟨_, hsession, .inr ⟨hchecked, _, hroute, h⟩⟩
    | index hnot hcommand h =>
        rw [hapi.api] at hnot
        cases hnot
  · rintro ⟨session, hsession, ⟨hmutation, h⟩ | ⟨hchecked, r, hroute, h⟩⟩
    · exact .token hapi hsession hmutation h
    · exact .answer hapi hsession hchecked hroute h

theorem responds_dispatchApi (hbelow : ['/', 'a', 'p', 'i', '/'].isPrefixOf path.toList = true)
    (hsessions : s.world.sessions = w.sessions)
    (hlimits : s.world.limits = (w.limits.globalRateAllowed req.clientIp (A.clock .rate)).2) :
    Responds config i (dispatchApi P config A req path query host) l s ↔ ¬ Hit P config A req w path query := by
  have hsame : sessionOf P config A req s.world = sessionOf P config A req w := by rw [sessionOf, sessionOf, hsessions]
  unfold dispatchApi
  by_cases hasksSession : path = "/api/v1/session" ∧ req.command = .get
  · -- the session itself is answered, and nothing of `Hit` is about it
    rw [if_pos hasksSession]
    refine responds_currentSession_bind fun s' _ => iff_of_true ?_ fun hhit => ?_
    · dsimp only
      split
      · exact responds_ok _ _ _
      · exact responds_ok _ _ _
    · cases hhit with
      | login hpath _ _ => exact absurd (hpath.symm.trans hasksSession.1) (by decide)
      | token hapi _ _ _ => exact hapi.session hasksSession
      | answer hapi _ _ _ _ => exact hapi.session hasksSession
      | index hnot _ _ => exact absurd (hbelow.symm.trans hnot) (by decide)
  · rw [if_neg hasksSession]
    by_cases hlogin : path = "/api/v1/login" ∧ req.command = .post
    · rw [if_pos hlogin]
      refine responds_login.trans (not_congr ⟨.login hlogin.1 hlogin.2, fun hhit => ?_⟩)
      cases hhit with
      | login _ _ h => exact h
      | token _ _ _ h => exact h
      | answer hapi _ _ _ _ => exact absurd hlogin hapi.login
      | index hnot _ _ => exact absurd (hbelow.symm.trans hnot) (by decide)
    · rw [if_neg hlogin, hit_api_iff ⟨hbelow, hasksSession, hlogin⟩]
      refine responds_currentSession_bind fun s' hsame' => ?_
      rw [hsame]
      dsimp only
      cases hsession : sessionOf P config A req w with
      | none =>
          refine iff_of_true (responds_error _ _ _) ?_
          rintro ⟨session, h, -⟩
          cases h
      | some session =>
          simp only [Option.some.injEq, exists_eq_left']
          cases hchecked : csrfChecked P req session with
          | error e =>
              -- comparing tokens raises for a text that is not ASCII
              have hforeign : req.command.mutation = true ∧ ForeignToken P req := by
                by_contra hno
                obtain ⟨checked, h⟩ := (checked_returns session).mpr hno
                cases hchecked.symm.trans h
              exact iff_of_false (not_once_raise_bind e _) fun h => h (.inl hforeign)
          | ok checked =>
              have hascii := (checked_returns session).mp ⟨checked, hchecked⟩
              rw [or_iff_right hascii, lift_ok_bind]
              cases checked with
              | false =>
                  rw [if_neg Bool.false_ne_true]
                  exact iff_of_true (responds_refuse _ _ _) fun h => by cases h.1
              | true =>
                  rw [if_pos rfl]
                  refine (responds_serveRoute (cookieToken P req) (hsame'.trans hlimits)).trans (not_congr ?_)
                  exact (and_iff_right rfl).symm

theorem responds_dispatchTarget (htrusted : ipTrusted P config req.clientIp = true) (hhost : requestHost P config req = some host)
    (horigin : originAllowed P config req host req.command.mutation = true) (hworld : s.world = w) :
    Responds config i (dispatchTarget P config A req host) l s ↔
      ¬ ∃ path query, Admitted P config A req w host path query ∧ Hit P config A req w path query := by
  subst hworld
  refine (responds_perform_bind (fun _ => rfl) _).trans ?_
  show Responds config i (if (s.world.limits.globalRateAllowed req.clientIp (A.clock .rate)).1 then _ else _) _ _ ↔ _
  cases hrate : (s.world.limits.globalRateAllowed req.clientIp (A.clock .rate)).1 with
  | false =>
      refine iff_of_true (responds_refuse _ _ _) ?_
      rintro ⟨path, query, hadmitted, -⟩
      exact absurd (hrate.symm.trans hadmitted.rate) (by decide)
  | true =>
      rw [if_pos rfl]
      cases htarget : requestTarget P req with
      | none =>
          refine iff_of_true (responds_refuse _ _ _) ?_
          rintro ⟨path, query, hadmitted, -⟩
          cases htarget.symm.trans hadmitted.target
      | some target =>
          obtain ⟨path, query⟩ := target
          have htargets : (∃ path query, Admitted P config A req s.world host path query ∧ Hit P config A req s.world path query) ↔
              (query = "" ∨ (req.command = .get ∧ path = "/api/v1/logs")) ∧ Hit P config A req s.world path query := by
            constructor
            · rintro ⟨path', query', hadmitted, hhit⟩
              cases htarget.symm.trans hadmitted.target
              exact ⟨hadmitted.plain, hhit⟩
            · rintro ⟨hplain, hhit⟩
              exact ⟨path, query, ⟨htrusted, hhost, horigin, hrate, htarget, hplain⟩, hhit⟩
          rw [htargets]
          dsimp only
          by_cases hquery : query ≠ "" ∧ ¬ (req.command = .get ∧ path = "/api/v1/logs")
          · rw [if_pos hquery]
            refine iff_of_true (responds_refuse _ _ _) ?_
            rintro ⟨hplain | hplain, -⟩
            · exact hquery.1 hplain
            · exact hquery.2 hplain
          · have hplain : query = "" ∨ (req.command = .get ∧ path = "/api/v1/logs") := by
              by_cases hempty : query = ""
              · exact .inl hempty
              · exact .inr (not_not.mp fun h => hquery ⟨hempty, h⟩)
            rw [if_neg hquery, and_iff_right hplain]
            cases hbelow : ['/', 'a', 'p', 'i', '/'].isPrefixOf path.toList with
            | true => exact responds_dispatchApi hbelow rfl rfl
            | false =>
                have hhit : Hit P config A req s.world path query ↔ req.command = .get ∧ Rootless P A path := by
                  constructor
                  · intro h
                    cases h with
                    | login hpath _ _ =>
                        rw [hpath] at hbelow
                        exact absurd hbelow (by decide)
                    | token hapi _ _ _ => exact absurd (hapi.api.symm.trans hbelow) (by decide)
                    | answer hapi _ _ _ _ => exact absurd (hapi.api.symm.trans hbelow) (by decide)
                    | index _ hcommand h => exact ⟨hcommand, h⟩
                  · rintro ⟨hcommand, h⟩
                    exact .index hbelow hcommand h
                rw [hhit, if_neg Bool.false_ne_true]
                by_cases hget : req.command = .get
                · -- a query is for the logs only, and these are below `/api/`
                  have hempty : ¬ query ≠ "" := by
                    rintro hsome
                    obtain ⟨-, rfl⟩ := hplain.resolve_left hsome
                    exact absurd hbelow (by decide)
                  rw [if_pos hget, if_neg hempty, and_iff_right hget]
                  exact responds_static
                · rw [if_neg hget]
                  exact iff_of_true (responds_error _ _ _) fun h => hget h.1

theorem responds_dispatch (hworld : s.world = w) : Responds config i (dispatch P config A req) l s ↔
    ¬ ∃ host path query, Admitted P config A req w host path query ∧ Hit P config A req w path query := by
  unfold dispatch
  cases htrusted : ipTrusted P config req.clientIp with
  | false =>
      refine iff_of_true (responds_refuse _ _ _) ?_
      rintro ⟨host, path, query, hadmitted, -⟩
      exact absurd (htrusted.symm.trans hadmitted.trusted) (by decide)
  | true =>
      rw [if_pos rfl]
      cases hhost : requestHost P config req with
      | none =>
          refine iff_of_true (responds_refuse _ _ _) ?_
          rintro ⟨host, path, query, hadmitted, -⟩
          cases hhost.symm.trans hadmitted.hosted
      | some host =>
          have hhosts : (∃ host path query, Admitted P config A req w host path query ∧ Hit P config A req w path query) ↔
              ∃ path query, Admitted P config A req w host path query ∧ Hit P config A req w path query := by
            constructor
            · rintro ⟨host', path, query, hadmitted, hhit⟩
              cases hhost.symm.trans hadmitted.hosted
              exact ⟨path, query, hadmitted, hhit⟩
            · rintro ⟨path, query, h⟩
              exact ⟨host, path, query, h⟩
          rw [hhosts]
          dsimp only
          cases horigin : originAllowed P config req host req.command.mutation with
          | false =>
              refine iff_of_true (responds_refuse _ _ _) ?_
              rintro ⟨path, query, hadmitted, -⟩
              exact absurd (horigin.symm.trans hadmitted.origin) (by decide)
          | true => exact responds_dispatchTarget htrusted hhost horigin hworld

end Responds

end ProxyGateway.Http
