import ProxyGateway.Http.Dispatch

set_option autoImplicit false

/-!
# ProxyGateway.Http.Guarded

What a thread does to the shared state, among other threads that do what they do: it calls the control
layer only behind the checks of the peer, the host, the origin and the token, and after the store has
given it a session; it exports only with the right password; and it opens a session only for the right
password and the token before a login (`sat_handle`).
-/

namespace ProxyGateway.Http

open Ledger

variable {P : Python} {config : Config} {A : Around} {req : Request} {host path query : String}

/-! ### The laws of a thread -/

/-- An entry of the ledger of the threads `ι`. -/
abbrev Event (ι : Type) : Type := Entry ι Section Section.Answer

/-- The shared state, and what the threads have done to it. -/
abbrev Shared (ι : Type) : Type := Ledger ι Section Section.Answer World

/-- The origin is absent on a read, or it is an allowed one of the host. -/
def OriginFits (P : Python) (config : Config) (req : Request) (host : String) : Prop :=
  (getAll P req "Origin" = [] ∧ req.command.mutation = false) ∨
    ∃ origin, getAll P req "Origin" = [origin] ∧ origin ∈ config.allowedOrigins ∧
      normalizeOrigin P origin = some (origin, host)

/-- The body of the request has the right password. -/
def RightPassword (P : Python) (config : Config) (req : Request) : Prop :=
  ∃ body password, jsonBody P req true = .ok body ∧ passwordOf body = some password ∧
    config.passwordMatches (bounded password) = true

/-- A request that may open a session. -/
structure Verified (P : Python) (config : Config) (A : Around) (req : Request) : Prop where
  trusted : ipTrusted P config req.clientIp = true
  token : ∃ host token, getAll P req "Host" = [host] ∧ host ∈ config.allowedHosts ∧
    getAll P req csrfHeaderName = [token] ∧
    (token = (preloginCsrf config req.clientIp host (A.clock .prelogin)).text ∨
      token = (preloginCsrf config req.clientIp host (A.clock .prelogin - preloginCsrfSeconds)).text)
  password : RightPassword P config req

/-- The request passes the checks of the peer, the host and the origin. -/
structure Passed (P : Python) (config : Config) (req : Request) : Prop where
  trusted : ipTrusted P config req.clientIp = true
  host : ∃ host, getAll P req "Host" = [host] ∧ host ∈ config.allowedHosts ∧ OriginFits P config req host

/-- The store has answered the thread with a session, whose token the request repeats if it changes
something. -/
def Shown {ι : Type} (P : Python) (config : Config) (A : Around) (req : Request) (i : ι) (past : List (Event ι)) : Prop :=
  ∃ token session, cookieToken P req = some token ∧
    (⟨i, .session (config.sessionKey token) (A.clock .session), some session⟩ : Event ι) ∈ past ∧
    (req.command.mutation = true → getAll P req csrfHeaderName = [session.csrf.text])

/-- What a thread may do, after what the ledger says. -/
def lawOf {ι : Type} (P : Python) (config : Config) (A : Around) (req : Request) (i : ι) (e : Section)
    (past : List (Event ι)) : Prop :=
  match e with
  | .control c => Passed P config req ∧ Shown P config A req i past ∧
      ∀ kind, c = .exportConfig kind → RightPassword P config req
  | .create key csrf now => Verified P config A req ∧ key = config.sessionKey A.newToken.text ∧ csrf = A.newCsrf ∧
      now = A.clock .create
  | _ => True

theorem Shown.mono {ι : Type} {i : ι} {past past' : List (Event ι)} (h : Shown P config A req i past)
    (hlonger : past <:+ past') : Shown P config A req i past' := by
  obtain ⟨token, session, htoken, hmem, hcsrf⟩ := h
  exact ⟨token, session, htoken, hlonger.subset hmem, hcsrf⟩

/-! ### What the checks have seen -/

theorem requestHost_eq_some (h : requestHost P config req = some host) :
    getAll P req "Host" = [host] ∧ host ∈ config.allowedHosts := by
  unfold requestHost at h
  split at h
  next raw hraw =>
    split at h
    · split at h
      next hfits =>
        cases h
        exact ⟨by rw [hraw, hfits.1], hfits.2⟩
      · cases h
    · cases h
  · cases h

theorem originFits (h : originAllowed P config req host req.command.mutation = true) : OriginFits P config req host := by
  unfold originAllowed at h
  split at h
  next hnone => exact .inl ⟨hnone, by simpa using h⟩
  next value hvalue =>
    split at h
    · cases h
    · split at h
      next origin originHost horigin =>
        obtain ⟨hsame, hallowed, hhost⟩ := of_decide_eq_true h
        subst hsame hhost
        exact .inr ⟨value, hvalue, hallowed, horigin⟩
      · cases h
  · cases h

theorem compareDigest_eq_ok {a b : String} (h : compareDigest a b = .ok true) : a = b := by
  unfold compareDigest at h
  split at h
  · exact of_decide_eq_true (Except.ok.inj h)
  · cases h

theorem csrfHeader_eq_some {token : String} (h : csrfHeader P req = some token) : getAll P req csrfHeaderName = [token] := by
  unfold csrfHeader at h
  split at h
  next value hvalue =>
    split at h
    · cases h
      exact hvalue
    · cases h
  · cases h

theorem csrfChecked_eq_ok {session : Session} (h : csrfChecked P req session = .ok true) (hmutation : req.command.mutation = true) :
    getAll P req csrfHeaderName = [session.csrf.text] := by
  rw [csrfChecked, if_pos hmutation] at h
  split at h
  · cases h
  next csrf hcsrf => rw [csrfHeader_eq_some hcsrf, compareDigest_eq_ok h]

theorem verifyPreloginCsrf_eq_ok {token : Option String} {ip : String}
    (h : verifyPreloginCsrf config A token ip host = .ok true) :
    ∃ t, token = some t ∧ (t = (preloginCsrf config ip host (A.clock .prelogin)).text ∨
      t = (preloginCsrf config ip host (A.clock .prelogin - preloginCsrfSeconds)).text) := by
  unfold verifyPreloginCsrf at h
  split at h
  · cases h
  next t =>
    split at h
    · cases h
    · dsimp only at h
      cases hfirst : compareDigest (preloginCsrf config ip host (A.clock .prelogin)).text t with
      | error e =>
          rw [hfirst] at h
          cases h
      | ok same =>
          cases same with
          | true => exact ⟨t, rfl, .inl (compareDigest_eq_ok hfirst).symm⟩
          | false =>
              rw [hfirst] at h
              exact ⟨t, rfl, .inr (compareDigest_eq_ok h).symm⟩

/-! ### Nothing unguarded -/

section Keeps

variable {ι : Type} {i : ι} {I : Shared ι → Prop} {K : List (Event ι) → Prop}

/-- What a longer ledger still says. -/
def Lasting (K : List (Event ι) → Prop) : Prop := ∀ past past', K past → past <:+ past' → K past'

/-- Among the others the part of the handler does nothing against the laws, as long as the ledger says `K`. -/
structure Abides (P : Python) (config : Config) (A : Around) (req : Request) (i : ι) (I : Shared ι → Prop)
    (K : List (Event ι) → Prop) {α : Type} (m : Handler α) : Prop where
  keeps : Method.Keeps (among (Section.run config) I (lawOf P config A req i) i) (fun _ s => K s.past) m

variable {α β : Type}

section Rules

variable (hK : Lasting K)
include hK

theorem abides_ret (a : α) : Abides P config A req i I K (Method.ret a : Handler α) :=
  ⟨Method.keeps_ret (fun _ _ _ => hK _ _) a⟩

theorem abides_raise (e : Fault) : Abides P config A req i I K (Method.raise e : Handler α) :=
  ⟨Method.keeps_raise (fun _ _ _ => hK _ _) e⟩

theorem abides_bind {m : Handler α} {f : α → Handler β} (hm : Abides P config A req i I K m)
    (hf : ∀ a, Abides P config A req i I K (f a)) : Abides P config A req i I K (m >>= f) :=
  ⟨Method.Keeps.bind (fun _ _ _ => hK _ _) hm.keeps fun a => (hf a).keeps⟩

theorem abides_assign (f : Bool → Bool) : Abides P config A req i I K (Method.assign f : Handler Unit) :=
  ⟨Method.keeps_assign (fun _ _ _ => hK _ _) fun _ _ h => h⟩

theorem abides_self : Abides P config A req i I K (Method.self : Handler Bool) := ⟨Method.keeps_self fun _ _ _ => hK _ _⟩

theorem abides_perform {e : Section} (hlaw : ∀ past, K past → lawOf P config A req i e past) :
    Abides P config A req i I K (perform e) := by
  refine ⟨Method.keeps_call fun _ s hs => sat_perform_among (fun past hpast => hlaw past (hK _ _ hs hpast)) ?_⟩
  exact fun _ s' hs' _ s'' hs'' => hK _ _ hs (hs'.trans hs'')

theorem abides_lift_bind {r : Except Fault α} {f : α → Handler β}
    (hf : ∀ a, r = .ok a → Abides P config A req i I K (f a)) : Abides P config A req i I K (lift r >>= f) := by
  cases r with
  | ok a => exact hf a rfl
  | error e => exact abides_raise hK e

theorem abides_tryFinally {body last : Handler Unit} (hbody : Abides P config A req i I K body)
    (hlast : Abides P config A req i I K last) : Abides P config A req i I K (tryFinally body last) := by
  refine ⟨Method.Keeps.outcome hbody.keeps fun r => (abides_bind hK hlast fun _ => ?_).keeps⟩
  cases r with
  | ok a => exact abides_ret hK a
  | error e => exact abides_raise hK e

/-! Answers are always lawful. -/

theorem abides_send (r : Response) (maximum : Nat) : Abides P config A req i I K (send r maximum) := by
  unfold send
  dsimp only
  generalize (if r.body.size > maximum then _ else r) = r
  split
  · exact abides_perform hK fun _ _ => trivial
  · exact abides_raise hK _

theorem abides_error (r : Refusal) (cookie allow : Option String) : Abides P config A req i I K (error r cookie allow) := by
  unfold error json
  exact abides_send hK _ _

theorem abides_refuse (status : Nat) (code message : String) : Abides P config A req i I K (refuse status code message) := by
  unfold refuse
  exact abides_error hK _ _ _

theorem abides_ok (data : String) (status : Nat) (cookie : Option String) : Abides P config A req i I K (ok data status cookie) := by
  unfold ok json
  exact abides_send hK _ _

theorem abides_withJson {password : Bool} {f : Dict String Json → Handler Unit}
    (hf : ∀ body, jsonBody P req password = .ok body → Abides P config A req i I K (f body)) :
    Abides P config A req i I K (withJson P req password f) := by
  unfold withJson
  split
  · exact abides_error hK _ _ _
  next body hbody => exact hf body hbody

theorem abides_destroySession (token : Option String) : Abides P config A req i I K (destroySession config token) := by
  unfold destroySession
  split
  · exact abides_ret hK _
  · split
    · exact abides_ret hK _
    · exact abides_perform hK fun _ _ => trivial

theorem abides_finishLoginAttempt (failed : Bool) : Abides P config A req i I K (finishLoginAttempt A req failed) :=
  abides_bind hK (abides_perform hK fun _ _ => trivial) fun _ => abides_assign hK _

theorem abides_finishOpen : Abides P config A req i I K (finishOpen A req) := by
  refine abides_bind hK (abides_self hK) fun finished => ?_
  split
  · exact abides_ret hK _
  · exact abides_perform hK fun _ _ => trivial

/-! ### Logins -/

theorem abides_openSession (hverified : Verified P config A req) : Abides P config A req i I K (openSession P config A req) := by
  refine abides_bind hK (abides_perform hK fun _ _ => trivial) fun _ => ?_
  refine abides_bind hK (abides_destroySession hK _) fun _ => ?_
  refine abides_bind hK (abides_perform hK fun _ _ => ⟨hverified, rfl, rfl, rfl⟩) fun session => ?_
  exact abides_ok hK _ _ _

theorem abides_loginBody (hverified : RightPassword P config req → Verified P config A req) :
    Abides P config A req i I K (loginBody P config A req) := by
  refine abides_withJson hK fun body hbody => ?_
  split
  · exact abides_refuse hK _ _ _
  next password hpassword =>
    split
    · exact abides_bind hK (abides_finishLoginAttempt hK _) fun _ => abides_refuse hK _ _ _
    next valid hvalid =>
      refine abides_bind hK (abides_finishLoginAttempt hK _) fun _ => ?_
      split
      next hright =>
        refine abides_openSession hK (hverified ⟨body, password, hbody, hpassword, ?_⟩)
        unfold verifyPassword at hvalid
        split at hvalid
        · cases hvalid
          exact hright
        · cases hvalid
      · exact abides_refuse hK _ _ _

theorem abides_login (htrusted : ipTrusted P config req.clientIp = true) (hraw : getAll P req "Host" = [host])
    (hallowed : host ∈ config.allowedHosts) : Abides P config A req i I K (login P config A req host) := by
  refine abides_lift_bind hK fun verified hverified => ?_
  split
  next htrue =>
    subst htrue
    obtain ⟨token, htoken, hfits⟩ := verifyPreloginCsrf_eq_ok hverified
    refine abides_bind hK (abides_perform hK fun _ _ => trivial) fun _ => ?_
    split
    · refine abides_bind hK (abides_assign hK _) fun _ => abides_tryFinally hK (abides_loginBody hK fun hright => ?_) ?_
      · exact ⟨htrusted, ⟨host, token, hraw, hallowed, csrfHeader_eq_some htoken, hfits⟩, hright⟩
      · exact abides_finishOpen hK
    · exact abides_refuse hK _ _ _
  · exact abides_refuse hK _ _ _

/-! ### Files -/

theorem abides_sendFile (candidate : List String) : Abides P config A req i I K (sendFile P A candidate) := by
  unfold sendFile
  split
  · exact abides_refuse hK _ _ _
  · split
    · exact abides_refuse hK _ _ _
    · split
      · exact abides_refuse hK _ _ _
      · split
        · exact abides_refuse hK _ _ _
        · exact abides_send hK _ _

theorem abides_static (path : String) : Abides P config A req i I K (static P A path) := by
  unfold static
  split
  · exact abides_refuse hK _ _ _
  · split
    · exact abides_refuse hK _ _ _
    · split
      · exact abides_refuse hK _ _ _
      · dsimp only
        split
        · exact abides_refuse hK _ _ _
        · split
          · exact abides_sendFile hK _
          · split
            · exact abides_raise hK _
            · split
              · exact abides_refuse hK _ _ _
              · split
                · exact abides_sendFile hK _
                · exact abides_refuse hK _ _ _

/-! ### Calls -/

variable (hpassed : Passed P config req) (hshown : ∀ past, K past → Shown P config A req i past)
include hpassed hshown

theorem abides_control {c : Call} (hpassword : ∀ kind, c = .exportConfig kind → RightPassword P config req) :
    Abides P config A req i I K (perform (.control c)) :=
  abides_perform hK fun past hpast => ⟨hpassed, hshown past hpast, hpassword⟩

theorem abides_call {c : Call} (hc : ∀ kind, c ≠ .exportConfig kind) (status : Nat) :
    Abides P config A req i I K (call A c status) := by
  refine abides_bind hK (abides_control hK hpassed hshown fun kind h => absurd h (hc kind)) fun _ => ?_
  split
  · exact abides_error hK _ _ _
  · exact abides_refuse hK _ _ _
  · exact abides_ok hK _ _ _
  · exact abides_raise hK _

theorem abides_bodyCall {f : Dict String Json → Call} (hf : ∀ body kind, f body ≠ .exportConfig kind) (status : Nat) :
    Abides P config A req i I K (withJson P req false fun body => call A (f body) status) :=
  abides_withJson hK fun body _ => abides_call hK hpassed hshown (hf body) status

theorem abides_item (raw : String) (kind : SegmentKind) (op : ItemOp) (body : Bool) :
    Abides P config A req i I K (identifierCall P A req raw kind op body) := by
  unfold identifierCall
  split
  · exact abides_error hK _ _ _
  · split
    · exact abides_bodyCall hK hpassed hshown (fun _ _ h => by cases h) _
    · exact abides_call hK hpassed hshown (fun _ h => by cases h) _

theorem abides_optionalItem (raw : String) (kind : SegmentKind) (op : ItemOp) :
    Abides P config A req i I K (identifierOptionalBody P A req raw kind op) := by
  unfold identifierOptionalBody
  split
  · exact abides_error hK _ _ _
  · dsimp only
    split
    · exact abides_refuse hK _ _ _
    · split
      · exact abides_call hK hpassed hshown (fun _ h => by cases h) _
      · split
        · exact abides_refuse hK _ _ _
        · exact abides_bodyCall hK hpassed hshown (fun _ _ h => by cases h) _

theorem abides_sendExport (hright : RightPassword P config req) (kind : String) :
    Abides P config A req i I K (sendExport A kind) := by
  refine abides_bind hK (abides_control hK hpassed hshown fun _ _ => hright) fun _ => ?_
  split
  · exact abides_error hK _ _ _
  · exact abides_refuse hK _ _ _
  · split
    · exact abides_send hK _ _
    · exact abides_refuse hK _ _ _

theorem abides_exportConfig (kind : String) : Abides P config A req i I K (exportConfig P config A req kind) := by
  refine abides_bind hK (abides_perform hK fun _ _ => trivial) fun _ => ?_
  split
  · refine abides_bind hK (abides_assign hK _) fun _ => abides_tryFinally hK (abides_withJson hK fun body hbody => ?_) ?_
    · split
      · exact abides_bind hK (abides_finishLoginAttempt hK _) fun _ => abides_refuse hK _ _ _
      next password hpassword =>
        split
        · exact abides_bind hK (abides_finishLoginAttempt hK _) fun _ => abides_refuse hK _ _ _
        next valid hvalid =>
          refine abides_bind hK (abides_finishLoginAttempt hK _) fun _ => ?_
          split
          next hright =>
            refine abides_bind hK (abides_perform hK fun _ _ => trivial) fun _ => ?_
            refine abides_sendExport hK hpassed hshown ⟨body, password, hbody, hpassword, ?_⟩ kind
            unfold verifyPassword at hvalid
            split at hvalid
            · cases hvalid
              exact hright
            · cases hvalid
          · exact abides_refuse hK _ _ _
    · exact abides_finishOpen hK
  · exact abides_refuse hK _ _ _

theorem abides_serve (query : String) (token : Option String) (r : Route) :
    Abides P config A req i I K (serve P config A req query token r) := by
  cases r with
  | logout =>
      refine abides_withJson hK fun body _ => ?_
      split
      · exact abides_refuse hK _ _ _
      · exact abides_bind hK (abides_destroySession hK _) fun _ => abides_ok hK _ _ _
  | exportConfig kind => exact abides_exportConfig hK hpassed hshown kind
  | previewImport kind =>
      show Abides P config A req i I K (servePreview P A req kind)
      unfold servePreview
      split
      · exact abides_error hK _ _ _
      · exact abides_call hK hpassed hshown (fun _ h => by cases h) _
  | applyImport id => exact abides_bodyCall hK hpassed hshown (fun _ _ h => by cases h) _
  | cancelImport id => exact abides_call hK hpassed hshown (fun _ h => by cases h) _
  | view view => exact abides_call hK hpassed hshown (fun _ h => by cases h) _
  | logs =>
      show Abides P config A req i I K (serveLogs A query)
      unfold serveLogs
      split
      · exact abides_call hK hpassed hshown (fun _ h => by cases h) _
      · exact abides_refuse hK _ _ _
  | submit op status => exact abides_bodyCall hK hpassed hshown (fun _ _ h => by cases h) _
  | item raw kind op body => exact abides_item hK hpassed hshown raw kind op body
  | optionalItem raw kind op => exact abides_optionalItem hK hpassed hshown raw kind op
  | dns which => exact abides_bodyCall hK hpassed hshown (fun _ _ h => by cases h) _
  | action name => exact abides_bodyCall hK hpassed hshown (fun _ _ h => by cases h) _

end Rules

/-! ### The checks in their order -/

/-- Before the store is asked for the session the ledger need not say anything. -/
def Unasked (_ : List (Event ι)) : Prop := True

theorem lasting_unasked : Lasting (Unasked (ι := ι)) := fun _ _ _ _ => trivial

/-- Behind the section of the session. -/
theorem abides_session_bind {key : Bytes} {now : ℚ} {f : Option Session → Handler β}
    (hnone : Abides P config A req i I Unasked (f none))
    (hsome : ∀ session, Abides P config A req i I
      (fun past => (⟨i, .session key now, some session⟩ : Event ι) ∈ past) (f (some session))) :
    Abides P config A req i I Unasked (perform (.session key now) >>= f) := by
  refine ⟨fun l s _ => ?_⟩
  refine Method.meets_call_bind (M := fun answer s => ⟨i, .session key now, answer⟩ ∈ s.past)
    (sat_perform_among (fun _ _ => trivial) fun _ _ _ hmem => hmem) ?_
  intro answer s' hmem
  cases answer with
  | none => exact hnone.keeps l s' trivial
  | some session => exact ((hsome session).keeps l s' hmem).mono fun _ _ _ _ => trivial

/-- Behind the section of the session the handler goes on as it may with the session that it was given. -/
theorem abides_currentSession_bind {f : Option String × Option Session → Handler β}
    (hnone : ∀ token, Abides P config A req i I Unasked (f (token, none)))
    (hsome : ∀ token session, cookieToken P req = some token → Abides P config A req i I
      (fun past => (⟨i, .session (config.sessionKey token) (A.clock .session), some session⟩ : Event ι) ∈ past)
      (f (some token, some session))) :
    Abides P config A req i I Unasked (currentSession P config A req >>= f) := by
  unfold currentSession
  split
  · exact hnone none
  next token htoken =>
    split
    · exact abides_session_bind (hnone _) fun session => hsome token session htoken
    · exact hnone _

theorem abides_dispatchApi (hpassed : Passed P config req) (hraw : getAll P req "Host" = [host])
    (hallowed : host ∈ config.allowedHosts) : Abides P config A req i I Unasked (dispatchApi P config A req path query host) := by
  have hlasting : Lasting (Unasked (ι := ι)) := lasting_unasked
  unfold dispatchApi
  split
  · refine abides_currentSession_bind (fun _ => abides_ok hlasting _ _ _) fun _ session _ => ?_
    exact abides_ok (fun _ _ h hlonger => hlonger.subset h) _ _ _
  · split
    · exact abides_login hlasting hpassed.trusted hraw hallowed
    · refine abides_currentSession_bind (fun _ => abides_error hlasting _ _ _) fun token session htoken => ?_
      have hkept : Lasting fun past =>
          (⟨i, .session (config.sessionKey token) (A.clock .session), some session⟩ : Event ι) ∈ past :=
        fun _ _ h hlonger => hlonger.subset h
      refine abides_lift_bind hkept fun checked hchecked => ?_
      split
      next htrue =>
        subst htrue
        unfold serveRoute
        split
        · refine abides_serve hkept hpassed (fun past hpast => ?_) _ _ _
          exact ⟨token, session, htoken, hpast, csrfChecked_eq_ok hchecked⟩
        · exact abides_refuse hkept _ _ _
      · exact abides_refuse hkept _ _ _

theorem abides_dispatch : Abides P config A req i I Unasked (dispatch P config A req) := by
  have hlasting : Lasting (Unasked (ι := ι)) := lasting_unasked
  unfold dispatch
  split
  next htrusted =>
    split
    · exact abides_refuse hlasting _ _ _
    next host hhost =>
      obtain ⟨hraw, hallowed⟩ := requestHost_eq_some hhost
      split
      next horigin =>
        have hpassed : Passed P config req := ⟨htrusted, host, hraw, hallowed, originFits horigin⟩
        refine abides_bind hlasting (abides_perform hlasting fun _ _ => trivial) fun allowed => ?_
        split
        · split
          · exact abides_refuse hlasting _ _ _
          · split
            · exact abides_refuse hlasting _ _ _
            · split
              · exact abides_dispatchApi hpassed hraw hallowed
              · split
                · split
                  · exact abides_refuse hlasting _ _ _
                  · exact abides_static hlasting _
                · exact abides_error hlasting _ _ _
        · exact abides_refuse hlasting _ _ _
      · exact abides_refuse hlasting _ _ _
  · exact abides_refuse hlasting _ _ _

/-- Among any other threads, a thread does nothing against its laws. -/
theorem abides_handle : Abides P config A req i I Unasked (handle P config A req) := by
  unfold handle
  split
  · exact abides_error lasting_unasked _ _ _
  · exact abides_refuse lasting_unasked _ _ _
  · exact abides_dispatch

end Keeps

end ProxyGateway.Http
