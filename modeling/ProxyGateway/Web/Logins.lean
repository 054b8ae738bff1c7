import ProxyGateway.Web.Throttled

set_option autoImplicit false

/-!
# ProxyGateway.Web.Logins

Any number of logins and exports at the same time: what they reserve, release and record.
-/

namespace ProxyGateway.Web

open Method Window

variable {ι : Type} [DecidableEq ι] {i j : ι} {ip : String} {w w' : Service ι} {c : Choice} {e : Op} {finished : Bool}

/-! ### One operation -/

/-- An attempt reserves once, and releases what it has reserved. -/
def Permit (i : ι) : Op → Service ι → Prop
  | .reserve _, w => own i w.log = []
  | .finish ip _, w => own i w.log = [.reserved i ip]
  | .clear _, _ => True
  | .outside _, _ => True

/-- The other attempts do not touch the reservation of this one. -/
def setting (i : ι) : Setting Op Op.Answer Choice (Service ι) where
  exec := exec i
  allow := Monotone
  rely := fun w w' => own i w'.log = own i w.log
  permit := Permit i
  rely_refl := fun _ => rfl
  rely_trans := fun h h' => h'.trans h

/-- The counters and the limits. -/
structure Sound (w : Service ι) : Prop where
  booked : Booked w
  throttled : Throttled w

theorem sound_start (clock : ℚ) : Sound (⟨.start, clock, []⟩ : Service ι) := ⟨booked_start clock, throttled_start clock⟩

theorem sound_reserve (h : Sound w) (hle : w.clock ≤ c.now) (hidle : own i w.log = []) (ip : String) :
    Sound (exec i (.reserve ip) c w).2 := by
  have hpruned := throttled_pruned h.throttled hle
  have hkept : Booked (⟨w.security.pruneLogins c.now, c.now, w.log⟩ : Service ι) :=
    ⟨h.booked.total, h.booked.pending, h.booked.holds, h.booked.nodup, h.booked.progress⟩
  have hall : (w.security.pruneLogins c.now).allLoginFailures =
      within loginRateWindow c.now ((failures w.log).map Prod.snd) := h.throttled.all.prune_eq hle
  have heach : queueOf (w.security.pruneLogins c.now).logins ip = within loginRateWindow c.now (failuresSince ip w.log) :=
    h.throttled.each.queueOf_eq hle ip
  have hget := pending_getD hkept ip
  have htotal := hkept.total
  unfold exec SecurityState.reserveLoginAttempt
  dsimp only
  by_cases hfull : (w.security.pruneLogins c.now).allLoginFailures.length + (w.security.pruneLogins c.now).pendingLoginTotal
      ≥ loginAllRateAttempts
  · rw [if_pos hfull]
    exact ⟨hkept, hpruned⟩
  · rw [if_neg hfull]
    by_cases hfullEach : (queueOf (w.security.pruneLogins c.now).logins ip).length +
        ((w.security.pruneLogins c.now).pendingLogins.get? ip).getD 0 ≥ loginRateAttempts
    · rw [if_pos hfullEach]
      exact ⟨hkept, hpruned⟩
    · rw [if_neg hfullEach]
      refine ⟨booked_reserved h.booked hidle rfl rfl, throttled_reserved hpruned ?_ ?_ _ _⟩
      · rw [hall, htotal] at hfull
        dsimp only at hfull
        omega
      · rw [heach, hget] at hfullEach
        exact not_le.mp hfullEach

theorem sound_finish (h : Sound w) (hle : w.clock ≤ c.now) (hholding : own i w.log = [.reserved i ip]) (failed : Bool) :
    Sound (exec i (.finish ip failed) c w).2 := by
  have hin := (h.booked.holds i ip).mpr hholding
  have hreleased : Throttled (⟨w.security.release ip, w.clock, w.log⟩ : Service ι) := by
    rw [w.security.release_eq ip]
    exact ⟨h.throttled.all, h.throttled.each, h.throttled.room, h.throttled.roomEach, h.throttled.bounded,
      h.throttled.boundedEach⟩
  cases failed with
  | false =>
      refine ⟨booked_finished h.booked hholding rfl rfl, ?_⟩
      exact throttled_released (throttled_later hreleased hle) _ _
  | true =>
      refine ⟨booked_finished h.booked hholding rfl rfl, ?_⟩
      exact throttled_failed hreleased hle hin

/-- What one operation of an attempt preserves. -/
theorem sound_exec (h : Sound w) (hpermit : Permit i e w) (hclock : Monotone e c w) : Sound (exec i e c w).2 := by
  cases e with
  | reserve ip => exact sound_reserve h hclock hpermit ip
  | finish ip failed => exact sound_finish h hclock hpermit failed
  | clear ip => exact ⟨booked_cleared h.booked rfl rfl, throttled_cleared h.throttled ip⟩
  | outside o => exact h

/-- The other attempts keep their own events. -/
theorem own_exec_ne (hne : j ≠ i) (e : Op) (c : Choice) (w : Service ι) : own j (exec i e c w).2.log = own j w.log := by
  have hnone : ∀ event : Event ι, isOwn j event = false → own j (w.log ++ [event]) = own j w.log := by
    intro event hevent
    rw [own_concat, hevent]
    exact List.append_nil _
  cases e with
  | reserve ip =>
      show own j (if (w.security.reserveLoginAttempt ip c.now).1 then _ else _) = _
      split
      · exact hnone _ (decide_eq_false (Ne.symm hne))
      · rfl
  | finish ip failed => exact hnone _ (decide_eq_false (Ne.symm hne))
  | clear ip => exact hnone _ rfl
  | outside o => rfl

/-! ### The handlers -/

/-- The attempt has reserved nothing. -/
def Idle (i : ι) (w : Service ι) : Prop := own i w.log = []

/-- The reservation of the attempt is open, and `attempt_finished` says so. -/
def Holding (i : ι) (ip : String) (finished : Bool) (w : Service ι) : Prop :=
  finished = false ∧ own i w.log = [.reserved i ip]

/-- The reservation of the attempt is released, and `attempt_finished` says so. -/
def Released (i : ι) (ip : String) (finished : Bool) (w : Service ι) : Prop :=
  finished = true ∧ ∃ failed now, own i w.log = [.reserved i ip, .finished i ip failed now]

theorem holding_stable (s : Bool) (w w' : Service ι) (h : Holding i ip s w) (hr : (setting i).rely w w') :
    Holding i ip s w' := ⟨h.1, hr.trans h.2⟩

theorem released_stable (s : Bool) (w w' : Service ι) (h : Released i ip s w) (hr : (setting i).rely w w') :
    Released i ip s w' := by
  obtain ⟨hs, failed, now, hown⟩ := h
  exact ⟨hs, failed, now, hr.trans hown⟩

theorem keeps_outside {I : Bool → Service ι → Prop}
    (hI : ∀ s w w', I s w → (setting i).rely w w' → I s w') (o : Outside) : Keeps (setting i) I (outside o) :=
  fun s w h v hv _ _ => ⟨trivial, fun u hu => hI s v u (hI s w v h hv) hu⟩

theorem keeps_clear {I : Bool → Service ι → Prop}
    (hI : ∀ s w w', I s w → (setting i).rely w w' → I s w') (other : String) : Keeps (setting i) I (clear other) := by
  refine keeps_call fun s w h => Prog.sat_perform fun v hv => ⟨trivial, fun c _ u hu t ht => ?_⟩
  have hsame : (setting i).rely v ((setting i).exec (.clear other) c v).2 := by
    show own i (v.log ++ [.cleared other]) = own i v.log
    rw [own_concat]
    exact List.append_nil _
  exact hI s v t (hI s w v h hv) ((setting i).rely_trans hsame ((setting i).rely_trans hu ht))

theorem meets_reserve (hidle : Idle i w) (ip : String) : Meets (setting i) (reserve ip) finished w (fun r _ w' =>
    match r with
    | .ok true => own i w'.log = [.reserved i ip]
    | _ => Idle i w') := by
  refine meets_call (Prog.sat_perform fun v hv => ?_)
  have hown : own i v.log = [] := hv.trans hidle
  refine ⟨hown, fun c _ u hu t ht => ?_⟩
  have hsame := (setting i).rely_trans hu ht
  change own i t.log = own i (if (v.security.reserveLoginAttempt ip c.now).1 then _ else v.log) at hsame
  show match (Except.ok (v.security.reserveLoginAttempt ip c.now).1 : Except Exn Bool) with
    | .ok true => own i t.log = [.reserved i ip]
    | _ => Idle i t
  cases hresult : (v.security.reserveLoginAttempt ip c.now).1 with
  | false =>
      rw [hresult] at hsame
      exact hsame.trans hown
  | true =>
      rw [hresult, if_pos rfl, own_concat, hown] at hsame
      rw [hsame]
      simp [isOwn]

theorem meets_finish (h : Holding i ip finished w) (failed : Bool) :
    Meets (setting i) (finish ip failed) finished w (fun _ s w' => Released i ip s w') := by
  have hfinish : Prog.Sat (setting i)
      (fun _ w' => ∃ failed now, own i w'.log = [.reserved i ip, .finished i ip failed now])
      (Prog.perform (Op.finish ip failed)) w := by
    refine Prog.sat_perform fun v hv => ?_
    have hown : own i v.log = [.reserved i ip] := hv.trans h.2
    refine ⟨hown, fun c _ u hu => ⟨failed, c.now, ?_⟩⟩
    change own i u.log = own i (v.log ++ [.finished i ip failed c.now]) at hu
    rw [hu, own_concat, hown]
    simp [isOwn]
  refine meets_call_bind hfinish fun _ v hv => meets_assign fun u hu => ?_
  obtain ⟨failed', now, hown⟩ := hv
  exact ⟨rfl, failed', now, hu.trans hown⟩

/-- Either it is open, or it is released. -/
def Reserved (i : ι) (ip : String) (finished : Bool) (w : Service ι) : Prop :=
  Holding i ip finished w ∨ Released i ip finished w

theorem reserved_stable (s : Bool) (w w' : Service ι) (h : Reserved i ip s w) (hr : (setting i).rely w w') :
    Reserved i ip s w' :=
  h.imp (fun h => holding_stable s w w' h hr) (fun h => released_stable s w w' h hr)

/-- A call, and what follows it. -/
theorem meets_outside_bind {α : Type} {o : Outside} {f : o.Answer → Handler α} {I J : Bool → Service ι → Prop}
    (hI : ∀ s w w', I s w → (setting i).rely w w' → I s w') (hIJ : ∀ s w, I s w → J s w) (h : I finished w)
    (hf : ∀ a s w, I s w → Meets (setting i) (f a) s w (fun _ s' w' => J s' w')) :
    Meets (setting i) ((outside o).bind f) finished w (fun _ s' w' => J s' w') :=
  meets_bind (keeps_outside hI o finished w h) hf fun _ s w hw =>
    meets_raise fun w' hr => hIJ s w' (hI s w w' hw hr)

/-- A release, and what follows it. -/
theorem meets_finish_bind {failed : Bool} {f : Unit → Handler Unit} (h : Holding i ip finished w)
    (hf : Keeps (setting i) (Released i ip) (f ())) :
    Meets (setting i) ((finish ip failed).bind f) finished w (fun _ s' w' => Reserved i ip s' w') :=
  meets_bind (meets_finish h failed) (fun _ s w hw => (hf s w hw).mono fun _ _ _ => Or.inr) fun _ s w hw =>
    meets_raise fun w' hr => .inr (released_stable s w w' hw hr)

theorem keeps_sendExport {I : Bool → Service ι → Prop}
    (hI : ∀ s w w', I s w → (setting i).rely w w' → I s w') (kind : String) : Keeps (setting i) I (sendExport kind) := by
  refine (keeps_outside hI _).bind hI fun answer => ?_
  cases answer with
  | refused status => exact keeps_outside hI _
  | unusable => exact keeps_outside hI _
  | file => exact keeps_outside hI _

/-- The body of `_login` releases at most once. -/
theorem meets_loginBody (h : Holding i ip finished w) :
    Meets (setting i) (loginBody ip) finished w (fun _ s w' => Reserved i ip s w') := by
  have hreply : ∀ status, Keeps (setting i) (Released i ip) (reply status) :=
    fun status => keeps_outside released_stable (.reply status)
  refine meets_outside_bind holding_stable (fun _ _ => Or.inl) h fun body s w hw => ?_
  cases body with
  | none => exact meets_ret fun w' hr => .inl (holding_stable s w w' hw hr)
  | some body =>
      dsimp only
      cases passwordOf body with
      | none => exact (keeps_outside holding_stable _ s w hw).mono fun _ _ _ => Or.inl
      | some password =>
          refine meets_outside_bind holding_stable (fun _ _ => Or.inl) hw fun valid s w hw => ?_
          cases valid with
          | none => exact meets_finish_bind hw (hreply 429)
          | some valid =>
              refine meets_finish_bind hw ?_
              cases valid with
              | false => exact hreply 401
              | true =>
                  exact (keeps_clear released_stable ip).bind released_stable fun _ =>
                    (keeps_outside released_stable _).bind released_stable fun _ => hreply 200

/-- The body of `_export_config` releases at most once. -/
theorem meets_exportBody (kind : String) (h : Holding i ip finished w) :
    Meets (setting i) (exportBody kind ip) finished w (fun _ s w' => Reserved i ip s w') := by
  have hreply : ∀ status, Keeps (setting i) (Released i ip) (reply status) :=
    fun status => keeps_outside released_stable (.reply status)
  refine meets_outside_bind holding_stable (fun _ _ => Or.inl) h fun body s w hw => ?_
  cases body with
  | none => exact meets_ret fun w' hr => .inl (holding_stable s w w' hw hr)
  | some body =>
      dsimp only
      cases passwordOf body with
      | none => exact meets_finish_bind hw (hreply 401)
      | some password =>
          refine meets_outside_bind holding_stable (fun _ _ => Or.inl) hw fun valid s w hw => ?_
          cases valid with
          | none => exact meets_finish_bind hw (hreply 429)
          | some valid =>
              refine meets_finish_bind hw ?_
              cases valid with
              | false => exact hreply 401
              | true =>
                  exact (keeps_clear released_stable ip).bind released_stable fun _ =>
                    keeps_sendExport released_stable kind

/-- The `finally` releases what is still open. -/
theorem meets_tryFinally {body : Handler Unit}
    (h : Meets (setting i) body finished w (fun _ s w' => Reserved i ip s w')) :
    Meets (setting i) (tryFinally body (finishOpen ip)) finished w (fun _ s w' => Released i ip s w') := by
  refine meets_outcome h fun result s w hw => ?_
  have hlast : Meets (setting i) (finishOpen ip) s w (fun _ s w' => Released i ip s w') := by
    refine meets_self_bind ?_
    rcases hw with hholding | hreleased
    · rw [hholding.1]
      exact meets_finish ⟨rfl, hholding.2⟩ true
    · rw [hreleased.1]
      intro w' hr
      exact released_stable true w w' ⟨rfl, hreleased.2⟩ hr
  exact meets_bind hlast (fun _ s w hw w' hr => released_stable s w w' hw hr)
    fun _ s w hw => meets_raise fun w' hr => released_stable s w w' hw hr

/-- A handler has reserved nothing in the end, or released what it has reserved. -/
def Done (i : ι) (w : Service ι) : Prop :=
  own i w.log = [] ∨ ∃ ip failed now, own i w.log = [.reserved i ip, .finished i ip failed now]

/-- A reservation, the body and the `finally`. -/
theorem meets_reserved {body : Handler Unit} (hidle : Idle i w)
    (h : ∀ w, Holding i ip false w → Meets (setting i) body false w (fun _ s w' => Reserved i ip s w')) :
    Meets (setting i) ((reserve ip).bind fun granted =>
      if granted then (assign fun _ => false).bind fun _ => tryFinally body (finishOpen ip) else reply 429)
      finished w (fun _ _ w' => Done i w') := by
  refine meets_bind (meets_reserve hidle ip) (fun granted s w hw => ?_) fun _ s w hw => ?_
  · cases granted with
    | false => exact (keeps_outside (I := fun _ => Idle i) (fun _ _ _ h hr => hr.trans h) _ s w hw).mono fun _ _ _ => Or.inl
    | true =>
        refine meets_assign_bind ((meets_tryFinally (h w ⟨rfl, hw⟩)).mono fun _ _ _ hreleased => ?_)
        exact .inr ⟨ip, hreleased.2⟩
  · exact meets_raise fun w' hr => .inl (hr.trans hw)

theorem spec_login (hidle : Idle i w) (ip : String) : Meets (setting i) (login ip) finished w (fun _ _ w' => Done i w') := by
  refine meets_outside_bind (I := fun _ => Idle i) (J := fun _ => Done i) (fun _ _ _ h hr => hr.trans h)
    (fun _ _ => Or.inl) hidle fun verified s w hw => ?_
  cases verified with
  | false => exact (keeps_outside (I := fun _ => Idle i) (fun _ _ _ h hr => hr.trans h) _ s w hw).mono fun _ _ _ => Or.inl
  | true => exact meets_reserved hw fun _ hholding => meets_loginBody hholding

theorem spec_exportConfig (hidle : Idle i w) (kind ip : String) :
    Meets (setting i) (exportConfig kind ip) finished w (fun _ _ w' => Done i w') :=
  meets_reserved hidle fun _ hholding => meets_exportBody kind hholding

/-! ### Any interleaving -/

/-- What holds of the attempts that run and of the service. -/
structure Consistent (s : Conf ι) : Prop where
  sound : Sound s.2
  spec : ∀ i, Prog.Sat (setting i) (fun _ w' => Done i w') (s.1 i) s.2

variable {jobs : ι → Job} {clock : ℚ} {s : Conf ι}

/-- A step of any attempt. -/
theorem Consistent.step (h : Consistent s) (i : ι) (c : Choice) (hclock : ∀ e k, s.1 i = .op e k → Monotone e c s.2) :
    Consistent (Pool.step exec i c s) := by
  refine ⟨?_, ?_⟩
  · show Sound (Prog.step (exec i) c (s.1 i, s.2)).2
    cases hprogram : s.1 i with
    | ret a => exact h.sound
    | op e k =>
        have hspec := h.spec i
        rw [hprogram] at hspec
        exact sound_exec h.sound (hspec.permit (hclock e k hprogram)) (hclock e k hprogram)
  · exact Pool.sat_step h.spec hclock fun j hj e k _ _ => (h.spec j).stable (own_exec_ne hj e c s.2)

/-- Every run. -/
theorem Reach.consistent (h : Reach jobs clock s) : Consistent s := by
  induction h with
  | start =>
      refine ⟨sound_start clock, fun i => ?_⟩
      have hidle : Idle i (⟨.start, clock, []⟩ : Service ι) := rfl
      cases hjob : jobs i with
      | login ip =>
          simp only [hjob, Job.process]
          exact spec_login hidle ip
      | exportConfig kind ip =>
          simp only [hjob, Job.process]
          exact spec_exportConfig hidle kind ip
  | step i c _ hclock ih => exact ih.step i c hclock

omit [DecidableEq ι] in
/-- A step adds one event, or none. -/
theorem log_exec (i : ι) (e : Op) (c : Choice) (w : Service ι) :
    (exec i e c w).2.log = w.log ∨ ∃ event, (exec i e c w).2.log = w.log ++ [event] := by
  cases e with
  | reserve ip =>
      cases hresult : (w.security.reserveLoginAttempt ip c.now).1 with
      | true => exact .inr ⟨.reserved i ip, by simp [exec, hresult]⟩
      | false => exact .inl (by simp [exec, hresult])
  | finish ip failed => exact .inr ⟨_, rfl⟩
  | clear ip => exact .inr ⟨_, rfl⟩
  | outside o => exact .inl rfl

/-- What had happened at any time before. -/
theorem Reach.before (h : Reach jobs clock s) {log : List (Event ι)} (hlog : log <+: s.2.log) :
    ∃ s', Reach jobs clock s' ∧ s'.2.log = log := by
  induction h with
  | start => exact ⟨_, .start, (List.prefix_nil.mp hlog).symm⟩
  | @step s i c h hclock ih =>
      have hstep := Reach.step i c h hclock
      have hlast : (Pool.step exec i c s).2.log = s.2.log ∨ ∃ event, (Pool.step exec i c s).2.log = s.2.log ++ [event] := by
        show (Prog.step (exec i) c (s.1 i, s.2)).2.log = _ ∨ ∃ event, (Prog.step (exec i) c (s.1 i, s.2)).2.log = _
        cases s.1 i with
        | ret a => exact .inl rfl
        | op e k => exact log_exec i e c s.2
      rcases hlast with hsame | ⟨event, hmore⟩
      · exact ih (hsame ▸ hlog)
      · rw [hmore] at hlog
        rcases List.prefix_concat_iff.mp hlog with heq | hbefore
        · exact ⟨_, hstep, hmore.trans heq.symm⟩
        · exact ih hbefore

/-- The attempts that are in progress: those that have an open reservation are among them. -/
theorem Consistent.unreserved (h : Consistent s)
    (hidle : ∀ i, own i s.2.log = [] ∨ (s.1 i).returned.isSome) : held s.2.log = [] := by
  refine List.eq_nil_iff_forall_not_mem.mpr fun ⟨i, ip⟩ hin => ?_
  have hown := (h.sound.booked.holds i ip).mp hin
  rcases hidle i with hnone | hreturned
  · rw [hnone] at hown
    cases hown
  · obtain ⟨a, ha⟩ := Option.isSome_iff_exists.mp hreturned
    have hspec := h.spec i
    rw [Prog.eq_ret_of_returned ha] at hspec
    rcases hspec s.2 rfl with hnone | ⟨other, failed, now, hreleased⟩
    · rw [hnone] at hown
      cases hown
    · rw [hreleased] at hown
      cases hown

/-- In every interleaving of logins and exports: no window of `LOGIN_RATE_WINDOW` holds more than
`LOGIN_ALL_RATE_ATTEMPTS` failed attempts, nor at any time more than `LOGIN_RATE_ATTEMPTS` of one
address since its last success; every attempt that has returned has released what it has reserved,
once, and none releases more than once; and while no attempt is in progress the counters are zero. -/
theorem logins_throttled (h : Reach jobs clock s) :
    Bounded loginRateWindow loginAllRateAttempts ((failures s.2.log).map Prod.snd) ∧
    (∀ log, log <+: s.2.log → ∀ ip, Bounded loginRateWindow loginRateAttempts (failuresSince ip log)) ∧
    (∀ i, Progress i (own i s.2.log)) ∧
    (∀ i, (s.1 i).returned.isSome → Done i s.2) ∧
    ((∀ i, own i s.2.log = [] ∨ (s.1 i).returned.isSome) →
      s.2.security.pendingLogins = [] ∧ s.2.security.pendingLoginTotal = 0) := by
  have hconsistent := h.consistent
  refine ⟨hconsistent.sound.throttled.bounded, fun log hlog => ?_, hconsistent.sound.booked.progress,
    fun i hreturned => ?_, fun hidle => ?_⟩
  · obtain ⟨s', hs', rfl⟩ := h.before hlog
    exact hs'.consistent.sound.throttled.boundedEach
  · obtain ⟨a, ha⟩ := Option.isSome_iff_exists.mp hreturned
    have hspec := hconsistent.spec i
    rw [Prog.eq_ret_of_returned ha] at hspec
    exact hspec s.2 rfl
  · have hheld := hconsistent.unreserved hidle
    have hbooked := hconsistent.sound.booked
    refine ⟨?_, by rw [hbooked.total, hheld]; rfl⟩
    cases hpending : s.2.security.pendingLogins with
    | nil => rfl
    | cons entry rest =>
        have hnone := hbooked.pending entry.1
        rw [hheld, hpending] at hnone
        simp [Dict.get?] at hnone

omit [DecidableEq ι] in
theorem monotone_of_le (h : w.clock ≤ c.now) (e : Op) : Monotone e c w := by
  cases e with
  | reserve ip => exact h
  | finish ip failed => exact h
  | clear ip => trivial
  | outside o => trivial

/-- Two exports of one address, before either has read the body. -/
def overlapping : Conf Bool :=
  Pool.step exec true ⟨1, fun _ => .error .raised⟩ (Pool.step exec false ⟨0, fun _ => .error .raised⟩
    (fun _ => (Job.exportConfig "mihomo" "203.0.113.7").process, ⟨.start, 0, []⟩))

theorem logins_throttled_two :
    Bounded loginRateWindow loginAllRateAttempts ((failures overlapping.2.log).map Prod.snd) ∧
    (∀ log, log <+: overlapping.2.log → ∀ ip, Bounded loginRateWindow loginRateAttempts (failuresSince ip log)) ∧
    ∀ i, Progress i (own i overlapping.2.log) := by
  have hfirst : Reach (fun _ : Bool => .exportConfig "mihomo" "203.0.113.7") 0 _ :=
    .step false ⟨0, fun _ => .error .raised⟩ .start fun e _ _ => monotone_of_le le_rfl e
  have hsecond := Reach.step true ⟨1, fun _ => .error .raised⟩ hfirst fun e _ _ => monotone_of_le (by decide) e
  obtain ⟨htotal, heach, hprogress, -⟩ := logins_throttled hsecond
  exact ⟨htotal, heach, hprogress⟩

end ProxyGateway.Web
