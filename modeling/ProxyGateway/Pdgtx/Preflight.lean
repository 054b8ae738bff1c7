import ProxyGateway.Pdgtx.Plan

set_option autoImplicit false

/-!
# ProxyGateway.Pdgtx.Preflight

A commit alone in the world, up to APPLYING: production stays as it is, the targets
become those of the plan, none of them is a link, and the materials end up on disk.

`Err B` are the exceptions of this part. Besides `TxRefused` and `TxError` there is only
`B`: a validator that raises, a profile that cannot be decoded, a write of the
bookkeeping that fails.
-/

namespace ProxyGateway.Pdgtx

open Method

/-- The exceptions before APPLYING: `TxRefused`, `TxError`, or any other because of `B`. -/
def Err (B : Prop) (e : Exn) : Prop := e = .refused ∨ e = .txError ∨ (e = .other ∧ B)

namespace Plan

variable (pl : Plan) (Q : Prop)

/-- The object belongs to the plan. -/
structure Of (s : Tx) : Prop where
  txid : s.txid = pl.txid
  metaId : s.metaJson.txid = pl.txid
  schema : s.metaJson.schemaVersion = schemaVersion
  paths : s.metaJson.targetPaths = pl.paths

/-- Production is `files`, and the transaction has not started. -/
def Calm (files : Path → Node) (w : World) : Prop :=
  w.files = files ∧ (Q → ∀ m, w.metaOf pl.txid = some m → m.state.unstarted = true)

/-- PREPARING, with production as it was. -/
def Begun (s : Tx) (w : World) : Prop := pl.Of s ∧ s.state = .preparing ∧ pl.Calm Q pl.files w

/-- As `Begun`, with all targets. -/
def Assembled (s : Tx) (w : World) : Prop := pl.Begun Q s w ∧ s.targets = pl.targets

/-- As `Assembled`, with the targets in the meta. -/
def Scoped (s : Tx) (w : World) : Prop := pl.Assembled Q s w ∧ s.metaJson.targets = pl.names

end Plan

section Calm

variable {steady : Bool} {H : Host} {pid : Pid} {pl : Plan} {Q B : Prop} {w : World} {s : Tx}
  {files : Path → Node} {α : Type}

/-- The setting of a commit with this plan, alone. -/
abbrev planned (steady : Bool) (H : Host) (pid : Pid) (pl : Plan) (Q : Prop) :
    Setting Op Op.Answer Choice World :=
  alone steady H pid (pl.Sound H Q)

theorem Plan.Calm.sound (h : pl.Calm Q pl.files w) : pl.Sound H Q w := by
  intro hQ m hm
  refine ⟨fun hneeds => ?_, fun _ => ?_⟩
  · rw [State.not_needsRecovery_of_unstarted (h.2 hQ m hm)] at hneeds
    cases hneeds
  · funext p
    rw [World.contents, h.1]
    rfl

/-- Calm is kept by whatever leaves production alone and writes no state but those before
APPLYING. -/
theorem calm_exec {e : Op} (h : pl.Calm Q files w) (hf : e.touches = false)
    (hm : ∀ m, e = .storeMeta pl.txid m → m.state.unstarted = true) (c : Choice) :
    pl.Calm Q files (execWith steady H pid e c w).2 := by
  refine ⟨(exec_files hf _).trans h.1, fun hQ m hmeta => ?_⟩
  rcases exec_metaOf hmeta with hold | hnew
  · exact h.2 hQ m hold
  · exact hm m hnew

theorem calm_writeMeta {m : Meta} (h : pl.Calm Q files w) (hm : m.state.unstarted = true) :
    pl.Calm Q files (w.writeMeta pl.txid m) := by
  refine ⟨h.1, fun _ m' hm' => ?_⟩
  simp only [World.metaOf, World.writeMeta_dir_self, Option.some.injEq] at hm'
  rw [← hm']
  exact hm

theorem not_touches_of_quiet {e : Op} (h : e.quiet = true) :
    e.touches = false ∧ ∀ m, e ≠ .storeMeta pl.txid m := by
  cases e <;> simp_all [Op.quiet, Op.touches]

theorem not_touches_of_removes {T : Txid} {e : Op} (h : e.removes T = true) :
    e.touches = false ∧ ∀ m, e ≠ .storeMeta pl.txid m := by
  cases e <;> simp_all [Op.removes, Op.touches]

/-- Asking and removing keep calm. -/
theorem sat_tidying {p : Proc α} (hp : Tidying p) (h : pl.Calm Q pl.files w) :
    Prog.Sat (planned steady H pid pl Q) (fun _ v => pl.Calm Q pl.files v) p w := by
  refine Prog.Only.sat_keeps hp ?_ ?_ h
  · rintro a b ha rfl
    exact ha
  · intro e he v hv
    have hstep : ∀ c, pl.Calm Q pl.files (execWith steady H pid e c v).2 := by
      have htame : e.touches = false ∧ ∀ m, e ≠ .storeMeta pl.txid m := by
        rcases he with hq | ⟨T, hr⟩
        · exact not_touches_of_quiet hq
        · exact not_touches_of_removes hr
      exact fun c => calm_exec hv htame.1 (fun m hm => absurd hm (htame.2 m)) c
    exact ⟨fun c => (hstep c).sound, fun c _ => hstep c⟩

/-! ### Writes of the bookkeeping -/

/-- Saving `meta.json`: written, or, unless bookkeeping is steady, a failure before or after
the write. -/
theorem meets_saveMeta_alone {I : World → Prop} (hI : I w)
    (hI' : I (w.writeMeta s.txid s.saved.metaJson)) :
    Meets (alone steady H pid I) saveMeta s w (fun r s' v => s' = s.saved ∧
      ((r = .ok () ∧ v = w.writeMeta s.txid s.saved.metaJson) ∨
        (steady = false ∧ r = .error .other ∧ (v = w ∨ v = w.writeMeta s.txid s.saved.metaJson)))) := by
  unfold saveMeta
  refine meets_assign_bind ?_
  refine meets_self_bind ?_
  refine meets_call_bind (M := fun done v =>
    (done = true ∧ v = w.writeMeta s.txid s.saved.metaJson) ∨
      (steady = false ∧ done = false ∧ (v = w ∨ v = w.writeMeta s.txid s.saved.metaJson))) ?_ ?_
  · refine sat_alone (fun c => ?_)
    show I (faulty _ w (w.writeMeta s.txid s.saved.metaJson)).2 ∧ _
    refine ⟨faulty_keeps _ hI hI', ?_⟩
    show (((faulty _ w (w.writeMeta s.txid s.saved.metaJson)).1 = true ∧ _) ∨ _)
    cases steady with
    | true => exact Or.inl ⟨rfl, rfl⟩
    | false =>
        cases hf : c.fault with
        | none => exact Or.inl (by simp [execWith, Op.choice, exec, faulty, hf, Tx.saved])
        | before => exact Or.inr (by simp [execWith, Op.choice, exec, faulty, hf, Tx.saved])
        | after => exact Or.inr (by simp [execWith, Op.choice, exec, faulty, hf, Tx.saved])
  · rintro done v (⟨hd, hv⟩ | ⟨hst, hd, hv⟩)
    · cases hd
      exact meets_ret_alone ⟨rfl, Or.inl ⟨rfl, hv⟩⟩
    · cases hd
      exact meets_raise_alone ⟨rfl, Or.inr ⟨hst, rfl, hv⟩⟩

/-- `_set_state` along an edge. -/
theorem meets_setState_alone {I : World → Prop} (new : State)
    (hall : s.state.allowed.contains new = true) (hI : I w)
    (hI' : I (w.writeMeta s.txid { s with state := new }.saved.metaJson)) :
    Meets (alone steady H pid I) (setState new) s w (fun r s' v =>
      s' = { s with state := new }.saved ∧
      ((r = .ok () ∧ v = w.writeMeta s.txid { s with state := new }.saved.metaJson) ∨
        (steady = false ∧ r = .error .other ∧
          (v = w ∨ v = w.writeMeta s.txid { s with state := new }.saved.metaJson)))) := by
  unfold setState
  refine meets_self_bind ?_
  rw [hall]
  refine meets_assign_bind ?_
  exact meets_saveMeta_alone (s := { s with state := new }) hI hI'

/-- A write that fails only where bookkeeping is not steady. -/
theorem sat_bookkeeping {e : Op} (done : e.Answer → Bool)
    (hbook : e.bookkeeping = true) (hfault : ∀ c, c.fault = .none → done (exec H pid e c w).1 = true)
    (hcalm : ∀ c, pl.Calm Q pl.files (exec H pid e c w).2) :
    Prog.Sat (planned steady H pid pl Q)
      (fun a v => pl.Calm Q pl.files v ∧ (done a = false → steady = false)) (perform e) w := by
  refine sat_alone (fun c => ⟨(hcalm _).sound, hcalm _, fun hd => ?_⟩)
  cases steady with
  | false => rfl
  | true =>
      have hnone : (e.choice true c).fault = .none := by simp [Op.choice, hbook]
      have hyes := hfault _ hnone
      rw [execWith] at hd
      rw [hyes] at hd
      exact Bool.noConfusion hd

/-- Raising because a write of the bookkeeping failed. -/
theorem meets_require_other {A : Tx → World → Prop} {done : Bool} (h : A s w)
    (hfail : done = false → B) :
    Meets (alone steady H pid (pl.Sound H Q)) (require done .other : TxM Unit) s w
      (fun r s' v => (A s' v ∧ s' = s) ∧ ∀ e, r = .error e → e = .other ∧ B) := by
  cases done with
  | true => exact meets_ret_alone ⟨⟨h, rfl⟩, fun _ he => nomatch he⟩
  | false => exact meets_raise_alone ⟨⟨h, rfl⟩, fun _ he => by cases he; exact ⟨rfl, hfail rfl⟩⟩

end Calm

/-! ### Deriving -/

section Derive

variable {steady : Bool} {H : Host} {pid : Pid} {pl : Plan} {Q B : Prop} {w : World} {s : Tx}

/-- `checkPending` only looks. -/
theorem meets_checkPending_alone (h : pl.Sound H Q w) :
    Meets (planned steady H pid pl Q) checkPending s w
      (fun r s' v => s' = s ∧ v = w ∧ ∀ e, r = .error e → e = .refused) := by
  unfold checkPending
  refine meets_self_bind ?_
  refine meets_call_bind (sat_quiet_alone (quiet_pendingRecovery _) h) ?_
  rintro pend v rfl
  unfold require
  split
  · exact meets_ret_alone ⟨rfl, rfl, fun _ he => nomatch he⟩
  · exact meets_raise_alone ⟨rfl, rfl, fun _ he => by cases he; rfl⟩

/-- `stage_derived` adds the target that `stageDerivedAt` says. -/
theorem meets_stageDerived {name : Name} {data : Bytes} (h : pl.Begun Q s w) :
    Meets (planned steady H pid pl Q) (stageDerived H name data) s w (fun r s' v =>
      pl.Begun Q s' v ∧ s'.readSha = s.readSha ∧ s'.watches = s.watches ∧
      (r = .ok () →
        stageDerivedAt H pl.files s.readSha s.targets name data = .ok s'.targets) ∧
      ∀ e, r = .error e →
        stageDerivedAt H pl.files s.readSha s.targets name data = .error e ∨
          (e = .other ∧ steady = false)) := by
  have hfiles : w.files = pl.files := h.2.2.1
  have hsound : pl.Sound H Q w := h.2.2.sound
  unfold stageDerived
  refine (computes_resolveTarget hsound name).bind ?_ ?_
  case refine_2 =>
    intro e he
    refine ⟨h, rfl, rfl, fun hr => (by cases hr), fun e' he' => Or.inl ?_⟩
    cases he'
    rw [hfiles] at he
    simp [stageDerivedAt, he, Except.bind]
  intro r hr
  refine (computes_readTarget hsound r.path).bind ?_ ?_
  case refine_2 =>
    intro e he
    refine ⟨h, rfl, rfl, fun hr => (by cases hr), fun e' he' => Or.inl ?_⟩
    cases he'
    rw [hfiles] at hr he
    simp [stageDerivedAt, hr, he, Except.bind]
  intro cur hcur
  refine meets_self_bind ?_
  unfold must
  have hwrite : Prog.Sat (planned steady H pid pl Q)
      (fun done v => pl.Calm Q pl.files v ∧ (done = false → steady = false))
      (perform (.storeSub s.txid .candidate (candidateLeaf s.targets.length name) data)) w :=
    sat_bookkeeping (e := .storeSub s.txid .candidate (candidateLeaf s.targets.length name) data)
      id rfl (fun c hc => by simp [exec, faulty, hc, id])
      (fun c => @calm_exec false H pid _ _ _ _ _ h.2.2 rfl (fun m hm => by cases hm) c)
  refine meets_bind (M := fun r s' v => (pl.Begun Q s' v ∧ s' = s) ∧
      ∀ e, r = .error e → e = .other ∧ steady = false) ?_ ?_ ?_
  · refine meets_call_bind hwrite (fun done v hv => ?_)
    exact meets_require_other (A := pl.Begun Q) ⟨h.1, h.2.1, hv.1⟩ hv.2
  · rintro _ s' v ⟨⟨hbegun, rfl⟩, -⟩
    refine meets_assign (fun u hu => ?_)
    cases hu
    obtain ⟨⟨h1, h2, h3, h4⟩, hst, hcalm⟩ := hbegun
    refine ⟨⟨⟨h1, h2, h3, h4⟩, hst, hcalm⟩, rfl, rfl, fun _ => ?_, fun _ he => (by cases he)⟩
    rw [hfiles] at hr hcur
    simp [stageDerivedAt, hr, hcur, Except.bind]
  · rintro e s' v ⟨⟨hbegun, rfl⟩, herr⟩
    refine meets_raise_alone ⟨hbegun, rfl, rfl, fun hr => (by cases hr), fun e' he' => ?_⟩
    cases he'
    exact Or.inr (herr e rfl)

/-- The derivers in order give the targets that `deriveAt` says. -/
theorem meets_derivers (ds : List (Name × Deriver)) (h : pl.Begun Q s w) :
    Meets (planned steady H pid pl Q) (each (deriveOne H) ds) s w (fun r s' v =>
      pl.Begun Q s' v ∧ s'.readSha = s.readSha ∧ s'.watches = s.watches ∧
      (r = .ok () → deriveAt H pl.files s.readSha ds s.targets = .ok s'.targets) ∧
      ∀ e, r = .error e → deriveAt H pl.files s.readSha ds s.targets = .error e ∨
        (e = .other ∧ steady = false)) := by
  -- on the derivers; each reads the targets as those before have left them
  induction ds generalizing s w with
  | nil => exact meets_ret_alone ⟨h, rfl, rfl, fun _ => rfl, fun _ he => nomatch he⟩
  | cons d rest ih =>
      have hfiles : w.files = pl.files := h.2.2.1
      refine meets_bind (M := fun r s' v => pl.Begun Q s' v ∧ s'.readSha = s.readSha ∧
        s'.watches = s.watches ∧
        (r = .ok () → deriveAt H pl.files s.readSha (d :: rest) s.targets =
          deriveAt H pl.files s.readSha rest s'.targets) ∧
        ∀ e, r = .error e → deriveAt H pl.files s.readSha (d :: rest) s.targets = .error e ∨
          (e = .other ∧ steady = false)) ?_ ?_ ?_
      · unfold deriveOne
        refine meets_self_bind ?_
        refine meets_call_bind (M := fun out v => v = w ∧
          out = d.2 (s.targets.map (fun p => (p.1, p.2.data))) w.files) ?_ ?_
        · exact sat_alone (fun c => ⟨by rw [execWith_quiet rfl]; exact h.2.2.sound, rfl, rfl⟩)
        · rintro out v ⟨rfl, hout⟩
          rw [hfiles] at hout
          -- a deriver without bytes ends it as a refusal
          have hstop : (∀ bytes, out ≠ .data bytes) →
              deriveAt H pl.files s.readSha (d :: rest) s.targets = .error .refused := by
            intro hno
            unfold deriveAt
            rw [← hout]
            cases out with
            | data bytes => exact absurd rfl (hno bytes)
            | nothing => rfl
            | refused => rfl
            | raised => rfl
          cases out with
          | nothing =>
              refine meets_raise_alone ⟨h, rfl, rfl, fun hr => (nomatch hr), fun e he => Or.inl ?_⟩
              cases he
              exact hstop (fun _ hb => nomatch hb)
          | refused =>
              refine meets_raise_alone ⟨h, rfl, rfl, fun hr => (nomatch hr), fun e he => Or.inl ?_⟩
              cases he
              exact hstop (fun _ hb => nomatch hb)
          | raised =>
              refine meets_raise_alone ⟨h, rfl, rfl, fun hr => (nomatch hr), fun e he => Or.inl ?_⟩
              cases he
              exact hstop (fun _ hb => nomatch hb)
          | data bytes =>
              have hstep : deriveAt H pl.files s.readSha (d :: rest) s.targets =
                  (stageDerivedAt H pl.files s.readSha s.targets d.1 bytes).bind
                    (deriveAt H pl.files s.readSha rest) := by
                conv_lhs => unfold deriveAt
                rw [← hout]
              refine (meets_stageDerived h).mono ?_
              rintro r s' u ⟨hbegun, hread, hwatch, hok, herr⟩
              refine ⟨hbegun, hread, hwatch, fun hr => ?_, fun e he => ?_⟩
              · rw [hstep, hok hr]
                rfl
              · rcases herr e he with h' | h'
                · rw [hstep, h']
                  exact Or.inl rfl
                · exact Or.inr h'
      · rintro _ s' v ⟨hbegun, hread, hwatch, hok, -⟩
        refine (ih hbegun).mono ?_
        rintro r s'' u ⟨hbegun', hread', hwatch', hok', herr'⟩
        rw [hread] at hread' hok' herr'
        rw [hok rfl]
        exact ⟨hbegun', hread', hwatch'.trans hwatch, hok', herr'⟩
      · rintro e s' v ⟨hbegun, hread, hwatch, -, herr⟩
        exact meets_raise_alone ⟨hbegun, hread, hwatch, fun hr => (nomatch hr), herr⟩

end Derive

/-! ### Checking -/

/-- A target still holds what it held when it was staged. -/
def Plan.Expected (H : Host) (pl : Plan) (p : Name × Target) : Prop :=
  ∃ cur, readAt pl.files p.2.path = .ok cur ∧ digestOf H cur = p.2.expect

/-- Why an exception other than the module's own can end this part: bookkeeping is not
steady, or a validator raises. -/
structure Excuses (steady : Bool) (H : Host) (pl : Plan) (B : Prop) : Prop where
  book : steady = false → B
  validator : ∀ p ∈ pl.targets, ∀ data, p.2.data = some data → ∀ v ∈ p.2.validators,
    H.validate v p.2.path data pl.targets pl.files = .raised → B

/-- Every candidate of the targets passes its validators. -/
def Plan.Valid (H : Host) (pl : Plan) (ps : List (Name × Target)) : Prop :=
  ∀ p ∈ ps, ∀ data, p.2.data = some data → ∀ v ∈ p.2.validators,
    H.validate v p.2.path data pl.targets pl.files = .pass

/-- What makes `commit` end in `TxError`: a derived name that does not resolve, or a link
where a target or a dependency is read. -/
def Plan.Unreadable (H : Host) (pl : Plan) (s : Tx) : Prop :=
  deriveAt H pl.files s.readSha s.derivers s.targets = .error .txError ∨
    (∃ p ∈ pl.targets, pl.files p.2.path = .link) ∨ ∃ p ∈ s.watches, pl.files p.2.path = .link

section Check

variable {steady : Bool} {H : Host} {pid : Pid} {pl : Plan} {Q B : Prop} {w : World} {s : Tx}
  {watches : Dict Name Watch} {E : Exn → Prop} {α : Type}

/-- As `Scoped`, with the dependencies the transaction began with. -/
def Plan.Holding (pl : Plan) (Q : Prop) (watches : Dict Name Watch) (s : Tx) (w : World) : Prop :=
  pl.Scoped Q s w ∧ s.watches = watches

theorem Plan.Scoped.sound (h : pl.Scoped Q s w) : pl.Sound H Q w := h.1.1.2.2.sound

/-- The services and the targets go into the meta. -/
theorem meets_scope (h : pl.Assembled Q s w) :
    Meets (planned steady H pid pl Q) scope s w (fun r s' v =>
      pl.Assembled Q s' v ∧ (r = .ok () → pl.Holding Q s.watches s' v) ∧
        ∀ e, r = .error e → e = .refused) := by
  obtain ⟨⟨⟨h1, h2, h3, h4⟩, hst, hcalm⟩, htargets⟩ := h
  unfold scope
  refine meets_self_bind ?_
  refine meets_require_bind ?_ ?_
  · intro _
    split
    · refine meets_assign_bind ?_
      exact meets_raise_alone ⟨⟨⟨⟨h1, h2, h3, h4⟩, hst, hcalm⟩, htargets⟩, fun hr => (nomatch hr),
        fun _ he => by cases he; rfl⟩
    · refine meets_assign (fun u hu => ?_)
      cases hu
      have hassembled : pl.Assembled Q { s with metaJson := { s.metaJson with
          services := s.services, targets := s.targets.sorted.map Prod.fst } } w :=
        ⟨⟨⟨h1, h2, h3, h4⟩, hst, hcalm⟩, htargets⟩
      refine ⟨hassembled, fun _ => ⟨⟨hassembled, ?_⟩, rfl⟩, fun _ he => nomatch he⟩
      show s.targets.sorted.map Prod.fst = pl.names
      rw [htargets]
      rfl
  · intro _
    exact meets_raise_alone ⟨⟨⟨⟨h1, h2, h3, h4⟩, hst, hcalm⟩, htargets⟩, fun hr => (nomatch hr),
      fun _ he => by cases he; rfl⟩

theorem stable_holding (s : Tx) (w w' : World) (h : pl.Holding Q watches s w)
    (hr : (planned steady H pid pl Q).rely w w') : pl.Holding Q watches s w' :=
  stable_alone (fun s w => pl.Holding Q watches s w) s w w' h hr

theorem ends_quiet {p : Proc α} (hp : Quiet p) :
    Ends (planned steady H pid pl Q) (pl.Holding Q watches) E (call p : TxM α) := by
  refine ends_call (fun s w h => ?_)
  refine (sat_quiet_alone hp h.1.sound).mono ?_
  rintro _ v rfl u rfl
  exact h

theorem ends_precondition (hE : E .refused) (b : Bool) :
    Ends (planned steady H pid pl Q) (pl.Holding Q watches) E (precondition b) := by
  unfold precondition
  split
  · exact ends_ret stable_holding ()
  · refine Ends.bind stable_holding (ends_assign stable_holding ?_)
      (fun _ => ends_raise stable_holding hE)
    rintro s w ⟨⟨⟨⟨⟨h1, h2, h3, h4⟩, hst, hcalm⟩, htargets⟩, hnames⟩, hwatches⟩
    exact ⟨⟨⟨⟨⟨h1, h2, h3, h4⟩, hst, hcalm⟩, htargets⟩, hnames⟩, hwatches⟩

theorem ends_require (b : Bool) {e : Exn} (he : E e) :
    Ends (planned steady H pid pl Q) (pl.Holding Q watches) E (require b e : TxM Unit) := by
  unfold require
  split
  · exact ends_ret stable_holding ()
  · exact ends_raise stable_holding he

theorem ends_checkGuards (hE : E .refused) :
    Ends (planned steady H pid pl Q) (pl.Holding Q watches) E checkGuards := by
  unfold checkGuards
  refine ends_self_bind (fun t s w h _ => ?_)
  refine Ends.each stable_holding (fun u _ => ?_) s w h
  unfold checkGuard
  refine ends_self_bind (fun t s w h _ => ?_)
  split
  · exact ends_ret stable_holding () s w h
  · exact (Ends.bind stable_holding (ends_quiet (quiet_svcPropEx u _))
      (fun _ => ends_precondition hE _)) s w h

theorem ends_baseline (hE : E .refused) :
    Ends (planned steady H pid pl Q) (pl.Holding Q watches) E baseline := by
  unfold baseline
  refine ends_self_bind (fun t s w h _ => ?_)
  refine Ends.bind stable_holding (ends_quiet (quiet_healthSnapshot _ _)) (fun base => ?_) s w h
  refine Ends.bind stable_holding (ends_quiet (quiet_each_svcActive _)) (fun _ => ?_)
  exact Ends.bind stable_holding (ends_require _ hE) (fun _ => ends_ret stable_holding base)

/-- Only a link cannot be read. -/
theorem readAt_error {files : Path → Node} {p : Path} {e : Exn} (h : readAt files p = .error e) :
    e = .txError ∧ files p = .link := by
  unfold readAt at h
  cases hf : files p <;> simp_all

/-- Comparing what a path holds with a digest. -/
theorem meets_compare {path : Path} {expect : Option Digest} (h : pl.Holding Q watches s w) :
    Meets (planned steady H pid pl Q)
      ((readTarget path).bind (fun cur => precondition (digestOf H cur == expect))) s w
      (fun r s' v => pl.Holding Q watches s' v ∧
        (r = .ok () → ∃ cur, readAt pl.files path = .ok cur ∧ digestOf H cur = expect) ∧
        ∀ e, r = .error e → e = .refused ∨ (e = .txError ∧ pl.files path = .link)) := by
  have hfiles : w.files = pl.files := h.1.1.1.2.2.1
  refine (computes_readTarget h.1.sound path).bind ?_ ?_
  · intro cur hcur
    rw [hfiles] at hcur
    by_cases hd : digestOf H cur = expect
    · have hyes : (digestOf H cur == expect) = true := by simpa using hd
      rw [hyes]
      exact meets_ret_alone ⟨h, fun _ => ⟨cur, hcur, hd⟩, fun _ he => nomatch he⟩
    · have hno : (digestOf H cur == expect) = false := by simpa using hd
      rw [hno]
      unfold precondition
      rw [if_neg (by simp)]
      refine meets_assign_bind ?_
      obtain ⟨⟨⟨⟨⟨h1, h2, h3, h4⟩, hst, hcalm⟩, htargets⟩, hnames⟩, hwatches⟩ := h
      exact meets_raise_alone ⟨⟨⟨⟨⟨⟨h1, h2, h3, h4⟩, hst, hcalm⟩, htargets⟩, hnames⟩, hwatches⟩,
        fun hr => (nomatch hr), fun _ he => by cases he; exact Or.inl rfl⟩
  · intro e he
    refine ⟨h, fun hr => (nomatch hr), fun e' he' => ?_⟩
    cases he'
    rw [hfiles] at he
    exact Or.inr (readAt_error he)

/-- The exceptions of the preconditions. -/
def Plan.Unmet (pl : Plan) (watches : Dict Name Watch) (e : Exn) : Prop :=
  e = .refused ∨ (e = .txError ∧
    ((∃ p ∈ pl.targets, pl.files p.2.path = .link) ∨ ∃ p ∈ watches, pl.files p.2.path = .link))

/-- The preconditions, target after target and dependency after dependency. -/
theorem meets_checkPreconditions (h : pl.Holding Q watches s w) :
    Meets (planned steady H pid pl Q) (checkPreconditions H) s w (fun r s' v =>
      pl.Holding Q watches s' v ∧ (r = .ok () → ∀ p ∈ pl.targets, pl.Expected H p) ∧
        ∀ e, r = .error e → pl.Unmet watches e) := by
  have htargets : s.targets = pl.targets := h.1.1.2
  unfold checkPreconditions
  refine meets_self_bind ?_
  rw [htargets, h.2]
  refine meets_bind (M := fun r s v => pl.Holding Q watches s v ∧
    (r = .ok () → ∀ p ∈ pl.targets, pl.Expected H p) ∧ ∀ e, r = .error e → pl.Unmet watches e)
    ?_ ?_ ?_
  · refine (meets_each (I := fun done s v => pl.Holding Q watches s v ∧
      ∀ p ∈ done, pl.Expected H p) (J := fun e s v => pl.Holding Q watches s v ∧ pl.Unmet watches e)
      (fun _ _ _ _ hv hr => by cases hr; exact hv) (fun _ _ _ _ hv hr => by cases hr; exact hv)
      pl.targets (fun done p hp s v hv => ?_) s w ⟨h, by simp⟩).mono ?_
    · refine (meets_compare hv.1).mono ?_
      rintro r s' u ⟨hu, hok, herr⟩
      cases r with
      | error e =>
          refine ⟨hu, ?_⟩
          rcases herr e rfl with he | ⟨he, hlink⟩
          · exact Or.inl he
          · exact Or.inr ⟨he, Or.inl ⟨p, hp, hlink⟩⟩
      | ok x =>
          refine ⟨hu, fun q hq => ?_⟩
          rcases List.mem_append.1 hq with hq | hq
          · exact hv.2 q hq
          · rw [List.mem_singleton.1 hq]
            exact hok rfl
    · rintro r s' v hv
      cases r with
      | ok x => exact ⟨hv.1, fun _ => hv.2, fun e he => nomatch he⟩
      | error e => exact ⟨hv.1, fun hr => (nomatch hr), fun e' he' => by cases he'; exact hv.2⟩
  · rintro _ s' v ⟨hv, hall, -⟩
    have hwatch : Ends (planned steady H pid pl Q) (pl.Holding Q watches) (pl.Unmet watches)
        (each (checkWatch H) watches.sorted) := by
      refine Ends.each stable_holding (fun p hp => ?_)
      intro s w h
      refine (meets_compare h).mono ?_
      rintro r s' v ⟨hv, -, herr⟩
      refine ⟨hv, fun e he => ?_⟩
      rcases herr e he with he | ⟨he, hlink⟩
      · exact Or.inl he
      · exact Or.inr ⟨he, Or.inr ⟨p, by simpa using hp, hlink⟩⟩
    exact (hwatch s' v hv).mono (fun r s'' u hu => ⟨hu.1, fun _ => hall rfl, hu.2⟩)
  · rintro e s' v ⟨hv, -, he⟩
    exact meets_raise_alone ⟨hv, fun hr => (nomatch hr), he⟩

theorem ends_saveMeta_scoped (hE : steady = false → E .other) :
    Ends (planned steady H pid pl Q) (pl.Holding Q watches) E saveMeta := by
  intro s w h
  obtain ⟨⟨⟨⟨⟨h1, h2, h3, h4⟩, hst, hcalm⟩, htargets⟩, hnames⟩, hwatches⟩ := h
  have hwrite : pl.Calm Q pl.files (w.writeMeta s.txid s.saved.metaJson) := by
    rw [h1]
    refine calm_writeMeta hcalm ?_
    show s.state.unstarted = true
    rw [hst]
    rfl
  have hkeep : ∀ v, pl.Calm Q pl.files v → pl.Holding Q watches s.saved v := fun v hv =>
    ⟨⟨⟨⟨⟨h1, h2, h3, h4⟩, hst, hv⟩, htargets⟩, hnames⟩, hwatches⟩
  refine (meets_saveMeta_alone hcalm.sound hwrite.sound).mono ?_
  rintro r s' v ⟨rfl, ⟨rfl, rfl⟩ | ⟨hs, rfl, rfl | rfl⟩⟩
  · exact ⟨hkeep _ hwrite, fun _ he => nomatch he⟩
  · exact ⟨hkeep _ hcalm, fun _ he => by cases he; exact hE hs⟩
  · exact ⟨hkeep _ hwrite, fun _ he => by cases he; exact hE hs⟩

/-- One verdict: a pass goes on, a failure refuses, and whatever the validator raises ends
the commit. -/
theorem meets_validateOne {path : Path} {data : Bytes} {v : String}
    (hE : steady = false → E .other) (hrefused : E .refused)
    (hraised : H.validate v path data pl.targets pl.files = .raised → E .other)
    (h : pl.Holding Q watches s w) :
    Meets (planned steady H pid pl Q) (validateOne path data v) s w (fun r s' u =>
      pl.Holding Q watches s' u ∧
        (r = .ok () → H.validate v path data pl.targets pl.files = .pass) ∧
        ∀ e, r = .error e → E e) := by
  unfold validateOne
  refine meets_self_bind ?_
  refine meets_call_bind (M := fun verdict u => u = w ∧
    verdict = H.validate v path data s.targets w.files) ?_ ?_
  · exact sat_alone (fun c => ⟨by rw [execWith_quiet rfl]; exact h.1.sound, rfl, rfl⟩)
  · rintro verdict u ⟨rfl, hverdict⟩
    rw [h.1.1.2, h.1.1.1.2.2.1] at hverdict
    cases verdict with
    | raised =>
        exact meets_raise_alone ⟨h, fun hr => (nomatch hr),
          fun e he => by cases he; exact hraised hverdict.symm⟩
    | pass =>
        exact (ends_saveMeta_scoped hE s u h).mono (fun r s' x hx => ⟨hx.1, fun _ => hverdict.symm, hx.2⟩)
    | fail err =>
        refine meets_bind (ends_saveMeta_scoped hE s u h) ?_ ?_
        · rintro _ s' x ⟨hx, -⟩
          exact meets_raise_alone ⟨hx, fun hr => (nomatch hr), fun e he => by cases he; exact hrefused⟩
        · rintro e s' x ⟨hx, herr⟩
          exact meets_raise_alone ⟨hx, fun hr => (nomatch hr), herr⟩

/-- Step 4) comes through only when every candidate passes all its validators. -/
theorem meets_validateAll (hE : steady = false → E .other) (hrefused : E .refused)
    (hraised : ∀ p ∈ pl.targets, ∀ data, p.2.data = some data → ∀ v ∈ p.2.validators,
      H.validate v p.2.path data pl.targets pl.files = .raised → E .other)
    (h : pl.Holding Q watches s w) :
    Meets (planned steady H pid pl Q) validateAll s w (fun r s' u =>
      pl.Holding Q watches s' u ∧ (r = .ok () → pl.Valid H pl.targets) ∧
        ∀ e, r = .error e → E e) := by
  have htargets : s.targets = pl.targets := h.1.1.2
  unfold validateAll
  refine meets_self_bind ?_
  rw [htargets]
  -- the outer loop carries the valid targets, the inner one the validators that passed
  refine (meets_each (I := fun done s v => pl.Holding Q watches s v ∧ pl.Valid H done)
    (J := fun e s v => pl.Holding Q watches s v ∧ E e)
    (fun _ _ _ _ hv hr => by cases hr; exact hv) (fun _ _ _ _ hv hr => by cases hr; exact hv)
    pl.targets.sorted (fun done p hp s v hv => ?_) s w ⟨h, fun p hp => absurd hp (by simp)⟩).mono ?_
  case refine_2 =>
    intro r s' v hv
    cases r with
    | ok x => exact ⟨hv.1, fun _ p hp => hv.2 p (by simpa using hp), fun e he => nomatch he⟩
    | error e => exact ⟨hv.1, fun hr => (nomatch hr), fun e' he' => by cases he'; exact hv.2⟩
  have hp' : p ∈ pl.targets := by simpa using hp
  have hadd : (∀ data, p.2.data = some data → ∀ v ∈ p.2.validators,
      H.validate v p.2.path data pl.targets pl.files = .pass) → pl.Valid H (done ++ [p]) := by
    intro hlast q hq
    rcases List.mem_append.1 hq with hq | hq
    · exact hv.2 q hq
    · rw [List.mem_singleton.1 hq]
      exact hlast
  unfold validateTarget
  cases hdata : p.2.data with
  | none =>
      refine meets_ret_alone ⟨hv.1, hadd (fun data hno => ?_)⟩
      rw [hdata] at hno
      cases hno
  | some data =>
      refine (meets_each (I := fun done s v => pl.Holding Q watches s v ∧
        ∀ v ∈ done, H.validate v p.2.path data pl.targets pl.files = .pass)
        (J := fun e s v => pl.Holding Q watches s v ∧ E e)
        (fun _ _ _ _ hv hr => by cases hr; exact hv) (fun _ _ _ _ hv hr => by cases hr; exact hv)
        p.2.validators (fun seen x hx s u hu => ?_) s v ⟨hv.1, by simp⟩).mono ?_
      · refine (meets_validateOne hE hrefused (hraised p hp' data hdata x hx) hu.1).mono ?_
        rintro r s' y ⟨hy, hok, herr⟩
        cases r with
        | error e => exact ⟨hy, herr e rfl⟩
        | ok a =>
            refine ⟨hy, fun z hz => ?_⟩
            rcases List.mem_append.1 hz with hz | hz
            · exact hu.2 z hz
            · rw [List.mem_singleton.1 hz]
              exact hok rfl
      · intro r s' y hy
        cases r with
        | error e => exact hy
        | ok a =>
            refine ⟨hy.1, hadd (fun data' hdata' => ?_)⟩
            rw [hdata] at hdata'
            cases hdata'
            exact hy.2

/-- `diff.txt`. -/
theorem ends_writeDiff (hE : steady = false → E .other)
    (hlink : (∃ p ∈ pl.targets, pl.files p.2.path = .link) → E .txError) :
    Ends (planned steady H pid pl Q) (pl.Holding Q watches) E writeDiff := by
  unfold writeDiff
  refine ends_self_bind (fun t s w h ht => ?_)
  subst ht
  have htargets : s.targets = pl.targets := h.1.1.2
  refine Ends.bind stable_holding (Ends.each stable_holding (fun p hp => ?_)) (fun _ => ?_) s w h
  · rw [htargets] at hp
    intro s w h
    refine (computes_readTarget h.1.sound p.2.path).bind ?_ ?_
    · intro cur _
      exact meets_ret_alone ⟨h, fun _ he => nomatch he⟩
    · intro e he
      rw [h.1.1.1.2.2.1] at he
      obtain ⟨hexn, hnode⟩ := readAt_error he
      refine ⟨h, fun e' he' => ?_⟩
      cases he'
      rw [hexn]
      exact hlink ⟨p, by simpa using hp, hnode⟩
  · intro s' w h
    obtain ⟨⟨⟨⟨hof, hst, hcalm⟩, htargets⟩, hnames⟩, hwatches⟩ := h
    have hwrite : Prog.Sat (planned steady H pid pl Q)
        (fun done v => pl.Calm Q pl.files v ∧ (done = false → steady = false))
        (perform (.storeDiff s.txid)) w :=
      sat_bookkeeping (e := .storeDiff s.txid) id rfl
        (fun c hc => by simp [exec, faulty, hc, id])
        (fun c => @calm_exec false H pid _ _ _ _ _ hcalm rfl (fun m hm => by cases hm) c)
    unfold must
    refine meets_call_bind hwrite ?_
    rintro done v ⟨hv, hfail⟩
    refine (meets_require_other (A := pl.Holding Q watches)
      ⟨⟨⟨⟨hof, hst, hv⟩, htargets⟩, hnames⟩, hwatches⟩ hfail).mono ?_
    rintro r s'' u ⟨⟨hu, -⟩, herr⟩
    refine ⟨hu, fun e he => ?_⟩
    obtain ⟨rfl, hs⟩ := herr e he
    exact hE hs

end Check

/-! ### Up to the before-images -/

section Preflight

variable {steady : Bool} {H : Host} {pid : Pid} {pl : Plan} {Q B : Prop} {w : World} {s : Tx}

theorem whitelisted_error {r : Option Resolved} {e : Exn} (h : whitelisted r = .error e) :
    e = .txError := by
  cases r with
  | none => simpa [whitelisted] using h.symm
  | some r => cases h

theorem resolveAt_error {files : Path → Node} {name : Name} {e : Exn}
    (h : resolveAt H files name = .error e) : e = .txError ∨ e = .other := by
  unfold resolveAt at h
  split at h
  · cases hdir : certDirAt H files with
    | ok dir =>
        rw [hdir] at h
        exact Or.inl (whitelisted_error h)
    | error e' =>
        rw [hdir] at h
        cases h
        unfold certDirAt at hdir
        split at hdir
        · cases hdir
        · split at hdir
          · cases hdir
          · cases hdir
            exact Or.inr rfl
  · exact Or.inl (whitelisted_error h)

/-- Deriving ends in an exception of the module, or in another one. -/
theorem deriveAt_error {files : Path → Node} {read : Dict Name (Option Digest)}
    {ds : List (Name × Deriver)} {targets : Dict Name Target} {e : Exn}
    (h : deriveAt H files read ds targets = .error e) :
    e = .refused ∨ e = .txError ∨ e = .other := by
  induction ds generalizing targets with
  | nil => cases h
  | cons d rest ih =>
      unfold deriveAt at h
      split at h
      · next bytes _ =>
        cases hstage : stageDerivedAt H files read targets d.1 bytes with
        | ok ts =>
            rw [hstage] at h
            exact ih h
        | error e' =>
            rw [hstage] at h
            cases h
            unfold stageDerivedAt at hstage
            cases hr : resolveAt H files d.1 with
            | error e' =>
                rw [hr] at hstage
                cases hstage
                exact Or.inr (resolveAt_error hr)
            | ok r =>
                rw [hr] at hstage
                cases hcur : readAt files r.path with
                | error e' =>
                    simp only [Except.bind, hcur] at hstage
                    cases hstage
                    exact Or.inr (Or.inl (readAt_error hcur).1)
                | ok cur =>
                    simp only [Except.bind, hcur] at hstage
                    cases hstage
      all_goals
        cases h
        exact Or.inl rfl

/-- The plan's targets are those of the transaction once the derivers have run. -/
def Plan.Derives (H : Host) (pl : Plan) (s : Tx) : Prop :=
  ∀ targets, deriveAt H pl.files s.readSha s.derivers s.targets = .ok targets → pl.targets = targets

/-- Step 1) ends with the plan's targets. -/
theorem meets_deriveAll (hderives : pl.Derives H s) (hB : steady = false → B)
    (hraise : deriveAt H pl.files s.readSha s.derivers s.targets = .error .other → B)
    (h : pl.Begun Q s w) :
    Meets (planned steady H pid pl Q) (deriveAll H) s w (fun r s' v =>
      pl.Begun Q s' v ∧ s'.watches = s.watches ∧ (r = .ok () → pl.Assembled Q s' v) ∧
        ∀ e, r = .error e → Err B e ∧ (e = .txError → pl.Unreadable H s)) := by
  unfold deriveAll
  refine meets_self_bind ?_
  refine (meets_derivers s.derivers h).mono ?_
  rintro r s' v ⟨hbegun, -, hwatch, hok, herr⟩
  refine ⟨hbegun, hwatch, fun hr => ⟨hbegun, (hderives _ (hok hr)).symm⟩, fun e he => ?_⟩
  rcases herr e he with hderive | ⟨rfl, hs⟩
  · refine ⟨?_, fun htx => Or.inl (htx ▸ hderive)⟩
    rcases deriveAt_error hderive with rfl | rfl | rfl
    · exact Or.inl rfl
    · exact Or.inr (Or.inl rfl)
    · exact Or.inr (Or.inr ⟨rfl, hraise hderive⟩)
  · exact ⟨Or.inr (Or.inr ⟨rfl, hB hs⟩), fun hno => nomatch hno⟩

/-- A target that could be read is no link. -/
theorem noLinks_of_expected (h : ∀ p ∈ pl.targets, pl.Expected H p) : pl.NoLinks := by
  intro p hp hlink
  obtain ⟨cur, hcur, -⟩ := h p hp
  unfold readAt at hcur
  rw [hlink] at hcur
  cases hcur

/-- Steps 0) to 4): either every target is in the plan, is no link, holds what is expected
and passes its validators, or it ends in one of `Err B`; production stays as it is. -/
theorem meets_preflight (hderives : pl.Derives H s) (hB : Excuses steady H pl B)
    (hraise : deriveAt H pl.files s.readSha s.derivers s.targets = .error .other → B)
    (h : pl.Begun Q s w) :
    Meets (planned steady H pid pl Q) (preflight H) s w (fun r s' v => match r with
      | .ok _ => pl.Scoped Q s' v ∧ (∀ p ∈ pl.targets, pl.Expected H p) ∧ pl.Valid H pl.targets
      | .error e => pl.Begun Q s' v ∧ Err B e ∧ (e = .txError → pl.Unreadable H s)) := by
  let E : Exn → Prop := fun e => Err B e ∧ (e = .txError → pl.Unreadable H s)
  have hrefused : E .refused := ⟨Or.inl rfl, fun hno => nomatch hno⟩
  have hother : B → E .other := fun hb => ⟨Or.inr (Or.inr ⟨rfl, hb⟩), fun hno => nomatch hno⟩
  have hlinks : (∃ p ∈ pl.targets, pl.files p.2.path = .link) ∨
      (∃ p ∈ s.watches, pl.files p.2.path = .link) → E .txError :=
    fun hlink => ⟨Or.inr (Or.inl rfl), fun _ => Or.inr hlink⟩
  have hraised : ∀ e s' v, pl.Begun Q s' v ∧ E e → Meets (planned steady H pid pl Q)
      (raise e : TxM (Dict Gate Bool)) s' v (fun r s' v => match r with
        | .ok _ => pl.Scoped Q s' v ∧ (∀ p ∈ pl.targets, pl.Expected H p) ∧ pl.Valid H pl.targets
        | .error e => pl.Begun Q s' v ∧ E e) :=
    fun e s' v he => meets_raise_alone he
  unfold preflight
  -- step by step as in `_commit_locked`; a step that fails has an error of `E`
  refine meets_bind (meets_checkPending_alone h.2.2.sound) ?_ ?_
  case refine_2 =>
    rintro e s' v ⟨rfl, rfl, he⟩
    rw [he e rfl]
    exact hraised _ s' v ⟨h, hrefused⟩
  rintro _ s' v ⟨rfl, rfl, -⟩
  refine meets_bind (meets_deriveAll hderives hB.book hraise h) ?_ ?_
  case refine_2 => exact fun e s' v hv => hraised e s' v ⟨hv.1, hv.2.2.2 e rfl⟩
  rintro _ s1 w1 ⟨-, hwatch, hassembled, -⟩
  refine meets_bind (meets_scope (hassembled rfl)) ?_ ?_
  case refine_2 =>
    rintro e s' v ⟨hv, -, he⟩
    rw [he e rfl]
    exact hraised _ s' v ⟨hv.1, hrefused⟩
  rintro _ s2 w2 ⟨-, hscoped, -⟩
  rw [hwatch] at hscoped
  refine meets_bind (ends_checkGuards (E := E) hrefused s2 w2 (hscoped rfl)) ?_ ?_
  case refine_2 => exact fun e s' v hv => hraised e s' v ⟨hv.1.1.1.1, hv.2 e rfl⟩
  rintro _ s3 w3 ⟨h3, -⟩
  refine meets_bind (ends_baseline (E := E) hrefused s3 w3 h3) ?_ ?_
  case refine_2 => exact fun e s' v hv => hraised e s' v ⟨hv.1.1.1.1, hv.2 e rfl⟩
  rintro base s4 w4 ⟨h4, -⟩
  refine meets_bind (meets_checkPreconditions h4) ?_ ?_
  case refine_2 =>
    rintro e s' v ⟨hv, -, herr⟩
    refine hraised e s' v ⟨hv.1.1.1, ?_⟩
    rcases herr e rfl with rfl | ⟨rfl, hlink⟩
    · exact hrefused
    · exact hlinks hlink
  rintro _ s5 w5 ⟨h5, hexpected, -⟩
  refine meets_bind (meets_validateAll (E := E) (fun hs => hother (hB.book hs)) hrefused
    (fun p hp data hdata v hv hr => hother (hB.validator p hp data hdata v hv hr)) h5) ?_ ?_
  case refine_2 => exact fun e s' v hv => hraised e s' v ⟨hv.1.1.1.1, hv.2.2 e rfl⟩
  rintro _ s6 w6 ⟨h6, hvalid, -⟩
  refine meets_bind (ends_writeDiff (E := E) (fun hs => hother (hB.book hs))
    (fun hlink => hlinks (Or.inl hlink)) s6 w6 h6) ?_ ?_
  case refine_2 => exact fun e s' v hv => hraised e s' v ⟨hv.1.1.1.1, hv.2 e rfl⟩
  rintro _ s7 w7 ⟨h7, -⟩
  exact meets_ret_alone ⟨h7.1, hexpected rfl, hvalid rfl⟩

end Preflight

end ProxyGateway.Pdgtx
