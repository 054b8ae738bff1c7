import ProxyGateway.Pdgtx.Snapshot

set_option autoImplicit false

/-!
# ProxyGateway.Pdgtx.Active

A commit alone in the world, from APPLYING to OBSERVING. The materials stay on disk and
production stays within the plan (`Plan.Active`), whatever fails; when nothing fails,
production holds what the plan says (`Plan.applied`).
-/

namespace ProxyGateway.Pdgtx

open Method

namespace Plan

variable (H : Host) (pl : Plan) (Q : Prop)

/-- Somewhere between APPLYING and the end. -/
structure Active (w : World) : Prop where
  imaged : pl.Imaged H (w.dir pl.txid)
  within : pl.Within w.files
  recorded : Q → ∀ m, w.metaOf pl.txid = some m → m.state.needsRecovery = true → pl.Recorded H m
  ahead : Q → ∀ m, w.metaOf pl.txid = some m → m.state ≠ .rolledBack

variable {H pl Q}

theorem Active.sound {w : World} (h : pl.Active H Q w) : pl.Sound H Q w :=
  fun hQ m hm => ⟨fun hneeds => ⟨h.recorded hQ m hm hneeds, h.imaged, h.within⟩,
    fun hback => absurd hback (h.ahead hQ m hm)⟩

/-- The first moment. -/
theorem Calm.active {w : World} (h : pl.Calm Q pl.files w) (himg : pl.Imaged H (w.dir pl.txid))
    (hlinks : pl.NoLinks) : pl.Active H Q w where
  imaged := himg
  within := by
    rw [h.1]
    exact within_start hlinks
  recorded := by
    intro hQ m hm hneeds
    rw [State.not_needsRecovery_of_unstarted (h.2 hQ m hm)] at hneeds
    cases hneeds
  ahead := by
    intro hQ m hm hback
    have huns := h.2 hQ m hm
    rw [hback] at huns
    cases huns

theorem Active.touch {w : World} (h : pl.Active H Q w) {q : Name × Target} (hq : q ∈ pl.targets)
    {n : Node} (hplain : n ≠ .link) (hn : pl.Allowed q.2.path n.data?) :
    pl.Active H Q (w.touch pl.txid q.2.path n) where
  imaged := h.imaged
  within := h.within.update hq hplain hn
  recorded := h.recorded
  ahead := h.ahead

theorem Active.writeMeta {w : World} (h : pl.Active H Q w) {m : Meta}
    (hm : m.state.needsRecovery = true → pl.Recorded H m) (hback : m.state ≠ .rolledBack) :
    pl.Active H Q (w.writeMeta pl.txid m) where
  imaged := by
    rw [World.writeMeta_dir_self]
    exact h.imaged
  within := h.within
  recorded := by
    intro _ m' hm' hneeds
    simp only [World.metaOf, World.writeMeta_dir_self, Option.some.injEq] at hm'
    rw [← hm'] at hneeds ⊢
    exact hm hneeds
  ahead := by
    intro _ m' hm'
    simp only [World.metaOf, World.writeMeta_dir_self, Option.some.injEq] at hm'
    rw [← hm']
    exact hback

/-- What the object carries does not depend on its state. -/
theorem Equipped.withState {s : Tx} (h : pl.Equipped H s) (st : State) :
    pl.Equipped H { s with state := st } :=
  ⟨⟨h.of.txid, h.of.metaId, h.of.schema, h.of.paths⟩, h.targets, h.names, h.intended, h.index⟩

theorem Equipped.saved {s : Tx} (h : pl.Equipped H s) : pl.Equipped H s.saved :=
  ⟨⟨h.of.txid, h.of.metaId, h.of.schema, h.of.paths⟩, h.targets, h.names, h.intended, h.index⟩

end Plan

section Active

variable {steady : Bool} {H : Host} {pid : Pid} {pl : Plan} {Q B : Prop} {w : World} {s : Tx}
  {f : Path → Option Bytes} {p : Name × Target}

theorem contents_touch (w : World) (T : Txid) (path : Path) (n : Node) :
    (w.touch T path n).contents = Function.update w.contents path n.data? := by
  funext q
  by_cases h : q = path
  · subst h
    simp [World.contents]
  · simp [World.contents, h]

/-- Replacing a target by an allowed content. -/
theorem sat_replace {data : Bytes} {mode : Nat} {own : Option (Nat × Nat)} (hp : p ∈ pl.targets)
    (hdata : pl.Allowed p.2.path (some data)) (h : pl.Active H Q w) :
    Prog.Sat (planned steady H pid pl Q) (fun done v => pl.Active H Q v ∧
      (done = true → v.contents = Function.update w.contents p.2.path (some data)))
      (perform (.replaceTarget pl.txid p.2.path data mode own) : Proc Done) w := by
  refine sat_alone (fun c => ?_)
  let n : Node := .file data ⟨mode, (own.map Prod.fst).getD 0, (own.map Prod.snd).getD 0⟩
  have hnew : pl.Active H Q (w.touch pl.txid p.2.path n) := h.touch hp (by simp [n]) hdata
  have hchoice : execWith steady H pid (.replaceTarget pl.txid p.2.path data mode own) c w =
      faulty c.fault w (w.touch pl.txid p.2.path n) := by
    have hsame : Op.choice steady (.replaceTarget pl.txid p.2.path data mode own) c = c := by
      simp [Op.choice, Op.bookkeeping]
    rw [execWith, hsame]
    rfl
  rw [hchoice]
  have hkeep := faulty_keeps (I := pl.Active H Q) c.fault h hnew
  refine ⟨hkeep.sound, hkeep, fun hdone => ?_⟩
  cases hfault : c.fault with
  | none => exact contents_touch w pl.txid p.2.path n
  | before =>
      rw [hfault] at hdone
      cases hdone
  | after =>
      rw [hfault] at hdone
      cases hdone

/-- Deleting a target where the plan allows it. -/
theorem sat_unlink (hp : p ∈ pl.targets) (hnone : pl.Allowed p.2.path none)
    (h : pl.Active H Q w) :
    Prog.Sat (planned steady H pid pl Q) (fun done v => pl.Active H Q v ∧
      (done = true → v.contents = Function.update w.contents p.2.path none))
      (perform (.unlinkTarget pl.txid p.2.path) : Proc Done) w := by
  refine sat_alone (fun c => ?_)
  have hnew : pl.Active H Q (w.touch pl.txid p.2.path .absent) := h.touch hp (by simp) hnone
  have hchoice : execWith steady H pid (.unlinkTarget pl.txid p.2.path) c w =
      attempt (w.files p.2.path != .absent) c.fault w (w.touch pl.txid p.2.path .absent) := by
    have hsame : Op.choice steady (.unlinkTarget pl.txid p.2.path) c = c := by
      simp [Op.choice, Op.bookkeeping]
    rw [execWith, hsame]
    rfl
  rw [hchoice]
  have hkeep := attempt_keeps (I := pl.Active H Q) (w.files p.2.path != .absent) c.fault h hnew
  refine ⟨hkeep.sound, hkeep, fun hdone => ?_⟩
  unfold attempt at hdone ⊢
  split at hdone
  · cases hfault : c.fault with
    | none =>
        rw [if_pos ‹_›]
        exact contents_touch w pl.txid p.2.path .absent
    | before =>
        rw [hfault] at hdone
        cases hdone
    | after =>
        rw [hfault] at hdone
        cases hdone
  · cases hdone

/-! ### Applying -/

/-- `_apply_one` does to the contents what the plan says. -/
theorem meets_applyOne (hp : p ∈ pl.targets) (hid : s.txid = pl.txid) (h : pl.Active H Q w) :
    Meets (planned steady H pid pl Q) (applyOne p) s w (fun r s' v =>
      s' = s ∧ pl.Active H Q v ∧ (r = .ok () → v.contents = Plan.applyTo w.contents p)) := by
  have hplanned : p.2.applies = true → pl.Allowed p.2.path p.2.data :=
    fun happ => Or.inr ⟨p, hp, rfl, happ, rfl⟩
  unfold applyOne
  refine meets_self_bind ?_
  rw [hid]
  cases hdata : p.2.data with
  | none =>
      dsimp only
      by_cases hex : p.2.existed = true
      · have happ : p.2.applies = true := by simp [Target.applies, hex]
        rw [if_pos hex]
        refine (meets_must_alone (sat_unlink hp ?_ h)).mono ?_
        · rw [← hdata]
          exact hplanned happ
        · rintro r s' v ⟨hs, hv, hok⟩
          refine ⟨hs, hv, fun hr => ?_⟩
          rw [hok hr, Plan.applyTo, if_pos happ, hdata]
      · -- a file that was not there when it was staged is left alone
        have happ : ¬ p.2.applies = true := by simp [Target.applies, hdata, hex]
        rw [if_neg hex]
        refine meets_ret_alone ⟨rfl, h, fun _ => ?_⟩
        rw [Plan.applyTo, if_neg happ]
  | some data =>
      have happ : p.2.applies = true := by simp [Target.applies, hdata]
      have hreplace : ∀ (mode : Nat) (own : Option (Nat × Nat)),
          Meets (planned steady H pid pl Q)
            (must (perform (.replaceTarget pl.txid p.2.path data mode own))) s w (fun r s' v =>
              s' = s ∧ pl.Active H Q v ∧
                (r = .ok () → v.contents = Plan.applyTo w.contents p)) := by
        intro mode own
        refine (meets_must_alone (sat_replace hp ?_ h)).mono ?_
        · rw [← hdata]
          exact hplanned happ
        · rintro r s' v ⟨hs, hv, hok⟩
          refine ⟨hs, hv, fun hr => ?_⟩
          rw [hok hr, Plan.applyTo, if_pos happ, hdata]
      dsimp only
      split
      · exact hreplace _ _
      · split
        · exact hreplace _ _
        · exact hreplace _ _

/-- Applying targets in order. -/
theorem meets_applyEach (hid : s.txid = pl.txid) (ps : List (Name × Target))
    (hps : ∀ p ∈ ps, p ∈ pl.targets) (h : pl.Active H Q w) :
    Meets (planned steady H pid pl Q) (each applyOne ps) s w (fun r s' v =>
      s' = s ∧ pl.Active H Q v ∧ (r = .ok () → v.contents = ps.foldl Plan.applyTo w.contents)) := by
  induction ps generalizing w with
  | nil => exact meets_ret_alone ⟨rfl, h, fun _ => rfl⟩
  | cons p rest ih =>
      refine meets_bind (meets_applyOne (hps p (by simp)) hid h) ?_ ?_
      · rintro _ s' v ⟨rfl, hv, hone⟩
        rw [List.foldl_cons, ← hone rfl]
        exact ih (fun q hq => hps q (by simp [hq])) hv
      · rintro e s' v ⟨hs, hv, -⟩
        exact meets_raise_alone ⟨hs, hv, fun hr => nomatch hr⟩

/-- Saving the meta. -/
theorem meets_saveMeta_active (he : pl.Equipped H s) (hst : s.state ≠ .rolledBack)
    (h : pl.Active H Q w) :
    Meets (planned steady H pid pl Q) saveMeta s w (fun r s' v =>
      s' = s.saved ∧ pl.Active H Q v ∧ v.files = w.files ∧
      (r = .ok () → v.metaOf pl.txid = some s.saved.metaJson) ∧
      ∀ e, r = .error e → e = .other ∧ steady = false) := by
  have hid := he.of.txid
  have hwrite : pl.Active H Q (w.writeMeta s.txid s.saved.metaJson) := by
    rw [hid]
    exact h.writeMeta (fun _ => he.recorded) hst
  refine (meets_saveMeta_alone h.sound hwrite.sound).mono ?_
  rintro r s' v ⟨hs, ⟨rfl, rfl⟩ | ⟨hst, rfl, hv⟩⟩
  · refine ⟨hs, hwrite, rfl, fun _ => ?_, fun e he => (by cases he)⟩
    rw [hid]
    simp [World.metaOf]
  · refine ⟨hs, ?_, ?_, fun hr => (by cases hr), fun e he => by cases he; exact ⟨rfl, hst⟩⟩
    · rcases hv with rfl | rfl
      · exact h
      · exact hwrite
    · rcases hv with rfl | rfl <;> rfl

/-- `_set_state` along an edge. -/
theorem meets_setState_active (new : State) (hall : s.state.allowed.contains new = true)
    (hnew : new ≠ .rolledBack) (he : pl.Equipped H s) (h : pl.Active H Q w) :
    Meets (planned steady H pid pl Q) (setState new) s w (fun r s' v =>
      pl.Equipped H s' ∧ s'.state = new ∧ pl.Active H Q v ∧ v.files = w.files ∧
      (r = .ok () → v.stateOf pl.txid = some new) ∧
      ∀ e, r = .error e → e = .other ∧ steady = false) := by
  unfold setState
  refine meets_self_bind ?_
  rw [hall]
  refine meets_require_bind (fun _ => meets_assign_bind ?_) (fun hno => nomatch hno)
  refine (meets_saveMeta_active (he.withState new) hnew h).mono ?_
  rintro r s' v ⟨rfl, hv, hfiles, hok, herr⟩
  refine ⟨(he.withState new).saved, rfl, hv, hfiles, fun hr => ?_, herr⟩
  rw [World.stateOf, hok hr]
  rfl

/-- `_observe`. -/
theorem meets_observe_alone (base : Dict Gate Bool) (he : pl.Equipped H s)
    (hst : s.state = .observing) (h : pl.Active H Q w) :
    Meets (planned steady H pid pl Q) (observe base) s w (fun _ s' v =>
      pl.Equipped H s' ∧ s'.state = s.state ∧ pl.Active H Q v ∧ v.files = w.files) := by
  unfold observe
  refine meets_self_bind ?_
  refine meets_call_bind (sat_quiet_alone (quiet_observeUnits _ _ _) h.sound) ?_
  rintro good v rfl
  split
  · refine meets_call_bind (sat_quiet_alone (quiet_healthSnapshot _ _) h.sound) ?_
    rintro after v rfl
    refine meets_bind (meets_saveMeta_active he (by rw [hst]; simp) h) ?_ ?_
    · rintro _ s' v ⟨rfl, hv, hfiles, -⟩
      exact meets_ret_alone ⟨he.saved, rfl, hv, hfiles⟩
    · rintro e s' v ⟨rfl, hv, hfiles, -⟩
      exact meets_raise_alone ⟨he.saved, rfl, hv, hfiles⟩
  · exact meets_ret_alone ⟨he, rfl, h, rfl⟩

/-- The protected part of step 6): on success production holds what the plan says. -/
theorem meets_applyAll_alone (base : Dict Gate Bool) (he : pl.Equipped H s)
    (hst : s.state = .applying) (h : pl.Active H Q w) (hfiles : w.files = pl.files) :
    Meets (planned steady H pid pl Q) (applyAll H base) s w (fun r s' v =>
      pl.Equipped H s' ∧ pl.Active H Q v ∧
      (r = .ok () → s'.state = .observing ∧ v.contents = pl.applied pl.targets.sorted) ∧
      (s'.state = .applying ∨ s'.state = .observing)) := by
  have hraise : ∀ {e : Exn} {s' : Tx} {v : World}, pl.Equipped H s' → pl.Active H Q v →
      (s'.state = .applying ∨ s'.state = .observing) →
      Meets (planned steady H pid pl Q) (raise e : TxM Unit) s' v (fun r s' v =>
        pl.Equipped H s' ∧ pl.Active H Q v ∧
        (r = .ok () → s'.state = .observing ∧ v.contents = pl.applied pl.targets.sorted) ∧
        (s'.state = .applying ∨ s'.state = .observing)) :=
    fun he hv hs => meets_raise_alone ⟨he, hv, fun hr => (nomatch hr), hs⟩
  have hstart : w.contents = pl.before := by
    funext p
    rw [World.contents, hfiles]
    rfl
  unfold applyAll
  refine meets_self_bind ?_
  rw [he.targets]
  refine meets_bind (meets_applyEach he.of.txid _ (fun p hp => by simpa using hp) h) ?_ ?_
  case refine_2 =>
    rintro e s' v ⟨rfl, hv, -⟩
    exact hraise he hv (Or.inl hst)
  rintro _ s' v ⟨rfl, hv, hcontents⟩
  have hcontents := hcontents rfl
  rw [hstart] at hcontents
  refine meets_assign_bind ?_
  have he' : pl.Equipped H { s' with metaJson := { s'.metaJson with
      applied := s'.targets.sorted.map Prod.fst } } :=
    ⟨⟨he.of.txid, he.of.metaId, he.of.schema, he.of.paths⟩, he.targets, he.names, he.intended,
      he.index⟩
  refine meets_bind (meets_saveMeta_active he' (by rw [hst]; simp) hv) ?_ ?_
  case refine_2 =>
    rintro e s'' u ⟨rfl, hu, -⟩
    exact hraise he'.saved hu (Or.inl hst)
  rintro _ s'' u ⟨rfl, hu, hsame, -⟩
  refine meets_call_bind (sat_quiet_alone (quiet_doActions H _) hu.sound) ?_
  rintro ok u rfl
  refine meets_require_bind ?_ (fun _ => hraise he'.saved hu (Or.inl hst))
  intro _
  refine meets_bind (meets_setState_active .observing ?_ (by simp) he'.saved hu) ?_ ?_
  · show s'.state.allowed.contains .observing = true
    rw [hst]
    rfl
  case refine_3 =>
    rintro e x y ⟨hx, hstate, hy, -⟩
    exact hraise hx hy (Or.inr hstate)
  rintro _ x y ⟨hx, hstate, hy, hsame', -⟩
  refine meets_bind (meets_observe_alone base hx hstate hy) ?_ ?_
  case refine_2 =>
    rintro e x' y' ⟨hx', hstate', hy', -⟩
    exact hraise hx' hy' (Or.inr (hstate'.trans hstate))
  rintro good x' y' ⟨hx', hstate', hy', hsame''⟩
  unfold require
  split
  · refine meets_ret_alone ⟨hx', hy', fun _ => ⟨hstate'.trans hstate, ?_⟩,
      Or.inr (hstate'.trans hstate)⟩
    have hend : y'.files = v.files := by rw [hsame'', hsame', hsame]
    funext q
    rw [World.contents, hend]
    exact congrFun hcontents q
  · exact hraise hx' hy' (Or.inr (hstate'.trans hstate))

end Active

end ProxyGateway.Pdgtx
