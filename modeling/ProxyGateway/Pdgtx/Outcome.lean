import ProxyGateway.Pdgtx.Active

set_option autoImplicit false

/-!
# ProxyGateway.Pdgtx.Outcome

How a commit alone in the world ends (`Plan.Outcome`): as planned, undone, with the
undoing incomplete and its materials on disk, or with an exception and production
untouched.

`meets_commit_alone` needs only that every target that existed has its own image
(`Plan.OwnImages`); what the plan leaves at a target's path is a matter of `Plan.applied`.
-/

namespace ProxyGateway.Pdgtx

open Method

namespace Plan

variable (H : Host) (pl : Plan) (Q : Prop)

/-- Settled in a state, with these files. -/
def Closed (st : State) (files : Path → Node) (w : World) : Prop :=
  w.files = files ∧ ∀ m, w.metaOf pl.txid = some m → m.state = st

/-- The states `commit` returns, and what holds then. -/
def Finished (st : State) (w : World) : Prop :=
  (st = .committed ∧ w.contents = pl.applied pl.targets.sorted ∧ pl.Closed .committed w.files w) ∨
  (st = .rolledBack ∧ w.contents = pl.before ∧ pl.Closed .rolledBack w.files w) ∨
  (st = .rollbackFailed ∧ w.stateOf pl.txid = some .rollbackFailed ∧ pl.Active H Q w)

/-- An exception leaves production as it was; `TxBusy` and `TxRefused` leave the
transaction ABORTED. -/
def Refusal (B : Prop) (e : Exn) (w : World) : Prop :=
  w.files = pl.files ∧
    (((e = .busy ∨ e = .refused) ∧ w.stateOf pl.txid = some .aborted) ∨ e = .txError ∨
      (e = .other ∧ B))

/-- How it ends once APPLYING was written: an exception takes a failing write of the
bookkeeping. -/
def Ending (steady : Bool) (r : Except Exn State) (w : World) : Prop :=
  match r with
  | .ok st => pl.Finished H Q st w
  | .error e => (e = .other ∧ steady = false) ∧ pl.Sound H Q w

/-- How `commit` ends. When it returns, every target held what was expected of it. -/
def Outcome (steady : Bool) (B : Prop) (r : Except Exn State) (w : World) : Prop :=
  match r with
  | .ok st => pl.Finished H Q st w ∧ ∀ p ∈ pl.targets, pl.Expected H p
  | .error e => steady = false ∨ pl.Refusal B e w

variable {H pl Q}

/-- A settled state, and files that agree with it. -/
def Settles (pl : Plan) (st : State) (files : Path → Node) : Prop :=
  st.needsRecovery = false ∧ (st = .rolledBack → ∀ p, (files p).data? = pl.before p)

theorem Closed.sound {st : State} {files : Path → Node} {w : World} (h : pl.Closed st files w)
    (hst : pl.Settles st files) : pl.Sound H Q w := by
  intro _ m hm
  rw [h.2 m hm]
  refine ⟨fun hneeds => ?_, fun hback => ?_⟩
  · rw [hst.1] at hneeds
    cases hneeds
  · funext p
    rw [World.contents, h.1]
    exact hst.2 hback p

theorem settles_committed (files : Path → Node) : pl.Settles .committed files :=
  ⟨rfl, fun hno => nomatch hno⟩

end Plan

/-! ### Settling -/

/-- An assertion that asking, clearing the materials and saving the state `st` once more
keep. -/
structure Resting (H : Host) (pl : Plan) (Q : Prop) (st : State) (J : World → Prop) : Prop where
  sound : ∀ w, J w → pl.Sound H Q w
  clear : ∀ e, (e.quiet = true ∨ e.clears pl.txid = true) →
    ∀ pid c w, J w → J (exec H pid e c w).2
  save : ∀ (m : Meta) w, m.state = st → J w → J (w.writeMeta pl.txid m)

section Settle

variable {steady : Bool} {H : Host} {pid : Pid} {pl : Plan} {Q B : Prop} {w : World} {s : Tx}
  {files : Path → Node} {st : State} {J : World → Prop} {α : Type}

/-- Clearing changes neither production nor any `meta.json`. -/
theorem exec_clears {T U : Txid} {e : Op} (h : e.clears T = true) (c : Choice) :
    (exec H pid e c w).2.files = w.files ∧ (exec H pid e c w).2.metaOf U = w.metaOf U := by
  let I : World → Prop := fun v => v.files = w.files ∧ v.metaOf U = w.metaOf U
  show I (exec H pid e c w).2
  have hw : I w := ⟨rfl, rfl⟩
  have hdir : ∀ (V : Txid) (d : TxDir), d.metaJson = (w.dir V).metaJson → I (w.setDir V d) := by
    intro V d hd
    refine ⟨rfl, ?_⟩
    by_cases hV : V = U
    · subst hV
      rw [World.metaOf, World.dir_setDir_self, hd]
      rfl
    · rw [World.metaOf, World.dir_setDir_ne _ _ hV]
      rfl
  cases e with
  | unlinkSub V s leaf =>
      exact attempt_keeps _ _ hw (hdir V _ (by cases s <;> rfl))
  | unlinkIndex V => exact attempt_keeps _ _ hw (hdir V _ rfl)
  | rmdirSub V s => exact attempt_keeps _ _ hw (hdir V _ (by cases s <;> rfl))
  | _ => simp [Op.clears] at h

theorem resting_closed (hst : pl.Settles st files) :
    Resting H pl Q st (pl.Closed st files) where
  sound := fun w h => h.sound hst
  clear := by
    intro e he pid c w h
    rcases he with hq | hcl
    · rw [exec_quiet hq]
      exact h
    · obtain ⟨hfiles, hmeta⟩ := @exec_clears H pid w _ pl.txid _ hcl c
      exact ⟨hfiles.trans h.1, fun m hm => h.2 m (hmeta ▸ hm)⟩
  save := by
    intro m w hm h
    refine ⟨h.1, fun m' hm' => ?_⟩
    simp only [World.metaOf, World.writeMeta_dir_self, Option.some.injEq] at hm'
    rw [← hm']
    exact hm

/-- ABORTED with production as it was. -/
def Plan.Given (pl : Plan) (w : World) : Prop :=
  w.files = pl.files ∧ w.stateOf pl.txid = some .aborted

theorem resting_given : Resting H pl Q .aborted pl.Given where
  sound := by
    intro w h _ m hm
    have hst : some m.state = some State.aborted := by
      rw [← h.2, World.stateOf, hm]
      rfl
    rw [Option.some.inj hst]
    exact ⟨fun hno => (by cases hno), fun hno => (by cases hno)⟩
  clear := by
    intro e he pid c w h
    rcases he with hq | hcl
    · rw [exec_quiet hq]
      exact h
    · obtain ⟨hfiles, hmeta⟩ := @exec_clears H pid w _ pl.txid _ hcl c
      exact ⟨hfiles.trans h.1, by rw [World.stateOf, hmeta]; exact h.2⟩
  save := by
    intro m w hm h
    refine ⟨h.1, ?_⟩
    rw [World.stateOf, World.metaOf, World.writeMeta_dir_self]
    exact congrArg some hm

/-- Saving the meta of a transaction at rest. -/
theorem meets_saveMeta_resting (hJ : Resting H pl Q st J) (hid : s.txid = pl.txid)
    (hs : s.state = st) (h : J w) :
    Meets (planned steady H pid pl Q) saveMeta s w (fun r s' v =>
      s' = s.saved ∧ J v ∧ ∀ e, r = .error e → e = .other ∧ steady = false) := by
  have hwrite : J (w.writeMeta s.txid s.saved.metaJson) := by
    rw [hid]
    exact hJ.save _ w hs h
  refine (meets_saveMeta_alone (hJ.sound w h) (hJ.sound _ hwrite)).mono ?_
  rintro r s' v ⟨rfl, ⟨rfl, rfl⟩ | ⟨hst, rfl, hv⟩⟩
  · exact ⟨rfl, hwrite, fun e he => nomatch he⟩
  · refine ⟨rfl, ?_, fun e he => by cases he; exact ⟨rfl, hst⟩⟩
    rcases hv with rfl | rfl
    · exact h
    · exact hwrite

/-- `_cleanup_materials` raises nothing. -/
theorem meets_cleanupMaterials_alone (hJ : Resting H pl Q st J) (hid : s.txid = pl.txid) (h : J w) :
    Meets (planned steady H pid pl Q) cleanupMaterials s w (fun r s' v =>
      s' = s ∧ J v ∧ ∀ e, r ≠ .error e) := by
  unfold cleanupMaterials
  refine meets_self_bind ?_
  split
  · rw [hid]
    have hclear : Clearing pl.txid (Prog.collect (cleanupSub pl.txid) [.candidate, .before]) :=
      Prog.Only.collect (fun sub => clearing_cleanupSub _ sub) _
    have hsat : Prog.Sat (planned steady H pid pl Q) (fun _ v => J v)
        (Prog.collect (cleanupSub pl.txid) [.candidate, .before]) w := by
      refine Prog.Only.sat_keeps hclear ?_ ?_ h
      · rintro a b ha rfl
        exact ha
      · intro e he v hv
        have hstep : ∀ c, J (execWith steady H pid e c v).2 :=
          fun c => hJ.clear e he pid _ v hv
        exact ⟨fun c => hJ.sound _ (hstep c), fun c _ => hstep c⟩
    refine meets_call (hsat.mono ?_)
    rintro left v hv u rfl
    exact ⟨rfl, hv, fun e he => nomatch he⟩
  · exact meets_ret_alone ⟨rfl, h, fun e he => nomatch he⟩

/-- `_note_leftovers` raises nothing. -/
theorem meets_noteLeftovers_alone (hJ : Resting H pl Q st J) (hid : s.txid = pl.txid)
    (hs : s.state = st) (left : List Sub) (h : J w) :
    Meets (planned steady H pid pl Q) (noteLeftovers left) s w (fun r s' v =>
      r = .ok () ∧ s'.state = st ∧ J v) := by
  unfold noteLeftovers
  split
  · exact meets_ret_alone ⟨rfl, hs, h⟩
  · refine meets_tryCatch (meets_saveMeta_resting hJ hid hs h) ?_ ?_
    · rintro _ s' v ⟨rfl, hv, -⟩
      exact meets_ret_alone ⟨rfl, hs, hv⟩
    · rintro e s' v ⟨rfl, hv, -⟩
      exact meets_ret_alone ⟨rfl, hs, hv⟩

/-- Collecting keeps closed: directories disappear, and nothing else happens. -/
theorem sat_gc_closed (hst : pl.Settles st files) (h : pl.Closed st files w) :
    Prog.Sat (planned steady H pid pl Q) (fun _ v => pl.Closed st files v) (gc H) w := by
  refine Prog.Only.sat_keeps (tidying_gc H) ?_ ?_ h
  · rintro a b ha rfl
    exact ha
  · intro e he v hv
    have htame : e.touches = false ∧ ∀ m, e ≠ .storeMeta pl.txid m := by
      rcases he with hq | ⟨T, hr⟩
      · exact not_touches_of_quiet hq
      · exact not_touches_of_removes hr
    have hstep : ∀ c, pl.Closed st files (execWith steady H pid e c v).2 := by
      intro c
      refine ⟨(exec_files htame.1 _).trans hv.1, fun m hm => ?_⟩
      rcases exec_metaOf hm with hold | hnew
      · exact hv.2 m hold
      · exact absurd hnew (htame.2 m)
    exact ⟨fun c => (hstep c).sound hst, fun c _ => hstep c⟩

/-- The end of a settled transaction. -/
theorem meets_settle_alone (hid : s.txid = pl.txid) (hs : s.state = st)
    (hst : pl.Settles st files) (h : pl.Closed st files w) :
    Meets (planned steady H pid pl Q) (settle H) s w (fun r _ v =>
      r = .ok st ∧ pl.Closed st files v) := by
  have hJ : Resting H pl Q st (pl.Closed st files) := resting_closed hst
  unfold settle
  refine meets_bind (meets_cleanupMaterials_alone hJ hid h) ?_ ?_
  case refine_2 =>
    rintro e s' v ⟨-, -, hno⟩
    exact absurd rfl (hno e)
  rintro left s' v ⟨rfl, hv, -⟩
  refine meets_bind (meets_noteLeftovers_alone hJ hid hs left hv) ?_ ?_
  case refine_2 =>
    rintro e s'' u ⟨hr, -⟩
    cases hr
  rintro _ s'' u ⟨-, hs', hu⟩
  refine meets_call_bind (sat_gc_closed hst hu) ?_
  intro _ x hx
  refine meets_self_bind ?_
  exact meets_ret_alone ⟨congrArg Except.ok hs', hx⟩

/-- `_abort`, for an object that has not started. -/
theorem meets_abortWith_alone (cls : String) (h : pl.Untouched Q s w) :
    Meets (planned steady H pid pl Q) (abortWith cls) s w (fun r _ v =>
      (r = .ok () → pl.Given v) ∧ ∀ e, r = .error e → steady = false) := by
  obtain ⟨hof, huns, hcalm⟩ := h
  have hgiven : ∀ m : Meta, m.state = .aborted → pl.Given (w.writeMeta pl.txid m) := by
    intro m hm
    refine ⟨hcalm.1, ?_⟩
    rw [World.stateOf, World.metaOf, World.writeMeta_dir_self]
    exact congrArg some hm
  unfold abortWith
  refine meets_self_bind ?_
  rw [if_pos huns]
  unfold noteError
  refine meets_assign_bind (meets_assign_bind ?_)
  have hwrite : pl.Sound H Q (w.writeMeta s.txid (Tx.saved { s with
      metaJson := { s.metaJson with
        errorClass := if s.metaJson.errorClass = "" then cls else s.metaJson.errorClass }
      state := .aborted }).metaJson) := by
    rw [hof.txid]
    exact resting_given.sound _ (hgiven _ rfl)
  refine meets_bind (meets_saveMeta_alone hcalm.sound hwrite) ?_ ?_
  case refine_2 =>
    rintro e s' v ⟨-, ⟨hr, -⟩ | ⟨hst, -, -⟩⟩
    · cases hr
    · exact meets_raise_alone ⟨fun hr => (by cases hr), fun _ _ => hst⟩
  rintro _ s' v ⟨rfl, ⟨-, rfl⟩ | ⟨-, hr, -⟩⟩
  case inr => cases hr
  have hJ : Resting H pl Q .aborted pl.Given := resting_given
  refine meets_bind (meets_cleanupMaterials_alone hJ hof.txid ?_) ?_ ?_
  · rw [hof.txid]
    exact hgiven _ rfl
  · rintro left s' v ⟨hs', hv, -⟩
    have hid : s'.txid = pl.txid := by
      rw [hs']
      exact hof.txid
    have hstate : s'.state = .aborted := by
      rw [hs']
      rfl
    refine (meets_noteLeftovers_alone hJ hid hstate left hv).mono ?_
    rintro r s'' u ⟨rfl, -, hu⟩
    exact ⟨fun _ => hu, fun e he => (by cases he)⟩
  · rintro e s' v ⟨-, -, hno⟩
    exact absurd rfl (hno e)

end Settle

/-! ### The end of a commit that worked -/

section Finish

variable {steady : Bool} {H : Host} {pid : Pid} {pl : Plan} {Q B : Prop} {w : World} {s : Tx}
  {p : Name × Target} {st : State}

/-- Once a settled state was written the transaction is closed. -/
theorem closed_of_stateOf (h : w.stateOf pl.txid = some st) : pl.Closed st w.files w := by
  refine ⟨rfl, fun m hm => ?_⟩
  rw [World.stateOf, hm] at h
  exact Option.some.inj h

theorem meets_finish_alone (he : pl.Equipped H s) (hst : s.state = .observing)
    (h : pl.Active H Q w) (hcontents : w.contents = pl.applied pl.targets.sorted) :
    Meets (planned steady H pid pl Q) (finish H) s w (fun r _ v =>
      pl.Ending H Q steady r v) := by
  unfold finish
  refine meets_bind (meets_setState_active .committed (by rw [hst]; rfl) (by simp) he h) ?_ ?_
  case refine_2 =>
    rintro e s' v ⟨-, -, hv, -, -, herr⟩
    exact meets_raise_alone ⟨herr e rfl, hv.sound⟩
  rintro _ s' v ⟨he', hs', hv, hfiles, hok, -⟩
  have hclosed : pl.Closed .committed v.files v := closed_of_stateOf (hok rfl)
  have hJ : Resting H pl Q .committed (pl.Closed .committed v.files) := resting_closed (Plan.settles_committed _)
  refine meets_bind (meets_saveMeta_resting hJ he'.of.txid hs' hclosed) ?_ ?_
  case refine_2 =>
    rintro e s'' u ⟨-, hu, herr⟩
    exact meets_raise_alone ⟨herr e rfl, hu.sound (Plan.settles_committed _)⟩
  rintro _ s'' u ⟨rfl, hu, -⟩
  refine (meets_settle_alone (s := s'.saved) he'.of.txid hs' (Plan.settles_committed _) hu).mono ?_
  rintro r x y ⟨rfl, hy⟩
  refine Or.inl ⟨rfl, ?_, ?_⟩
  · rw [← hcontents]
    funext q
    rw [World.contents, hy.1, hfiles]
    rfl
  · rw [hy.1]
    exact hy

/-! ### Rolling back -/

/-- The image of a target that existed can be read back. -/
theorem load_image (himg : pl.Imaged H (w.dir pl.txid)) (hown : pl.OwnImages)
    (hp : p ∈ pl.targets) {data : Bytes} {stat : Stat} (hfile : pl.files p.2.path = .file data stat) :
    ((w.dir pl.txid).sub .before).bind (fun files => files.get? (safeLeaf p.1)) = some data := by
  have hget := himg.2 _ _ (hown p hp data stat hfile)
  show (w.dir pl.txid).before.bind _ = some data
  cases hbefore : (w.dir pl.txid).before with
  | none =>
      rw [hbefore] at hget
      cases hget
  | some files =>
      rw [hbefore] at hget
      exact hget

/-- One target of `_rollback`: when nothing fails its path holds what it held. -/
theorem sat_restoreOne_alone (hown : pl.OwnImages) (huniq : pl.targets.Uniq) (hp : p ∈ pl.targets)
    (h : pl.Active H Q w) :
    Prog.Sat (planned steady H pid pl Q) (fun ok v => pl.Active H Q v ∧
      (ok = true → v.contents = Function.update w.contents p.2.path (pl.before p.2.path)))
      (restoreOne pl.txid (pl.records H) p) w := by
  unfold restoreOne
  rw [Plan.get?_records huniq hp]
  cases hrec : (some (pl.recordOf H p)).filter BeforeRec.existed with
  | some rec' =>
      obtain ⟨data, stat, hfile, rfl⟩ := Plan.recordOf_existed hrec
      have hbefore : pl.before p.2.path = some data := by
        rw [Plan.before, hfile]
        rfl
      dsimp only
      refine Prog.Sat.seq (M := fun a v => v = w ∧ a = some data) ?_ ?_
      · refine sat_alone (fun c => ?_)
        rw [execWith_quiet rfl]
        exact ⟨h.sound, rfl, load_image h.imaged hown hp hfile⟩
      · rintro a v ⟨rfl, rfl⟩
        dsimp only
        rw [hbefore]
        exact sat_replace hp (Or.inl hbefore.symm) h
  | none =>
      have hbefore := Plan.recordOf_absent hrec
      dsimp only
      refine Prog.Sat.seq (M := fun (a : Bool) v => v = w ∧ a = decide (w.files p.2.path ≠ .absent))
        ?_ ?_
      · refine sat_alone (fun c => ?_)
        rw [execWith_quiet rfl]
        exact ⟨h.sound, rfl, rfl⟩
      · rintro a v ⟨rfl, ha⟩
        rw [hbefore]
        cases a with
        | false =>
            -- nothing to undo: the path is free already
            have hthere : v.files p.2.path = .absent := by simpa using ha
            show Prog.Sat _ _ (Prog.ret true) v
            rintro u rfl
            refine ⟨h, fun _ => ?_⟩
            have hnone : v.contents p.2.path = none := by
              rw [World.contents, hthere]
              rfl
            rw [← hnone, Function.update_eq_self]
        | true => exact sat_unlink hp (Or.inl hbefore.symm) h

/-- The restoring loop: when nothing fails every target holds what it held. -/
theorem sat_restoreAll_alone (hown : pl.OwnImages) (huniq : pl.targets.Uniq)
    (ps : List (Name × Target)) (hps : ∀ p ∈ ps, p ∈ pl.targets) (h : pl.Active H Q w) :
    Prog.Sat (planned steady H pid pl Q) (fun ok v => pl.Active H Q v ∧
      (ok = true → ∀ path, (w.contents path = pl.before path ∨ ∃ p ∈ ps, p.2.path = path) →
        v.contents path = pl.before path)) (restoreAll pl.txid (pl.records H) ps) w := by
  induction ps generalizing w with
  | nil =>
      rintro v rfl
      refine ⟨h, fun _ path hpath => ?_⟩
      simpa using hpath
  | cons p rest ih =>
      unfold restoreAll
      refine Prog.Sat.seq (sat_restoreOne_alone hown huniq (hps p (by simp)) h) ?_
      rintro ok v ⟨hv, hone⟩
      refine Prog.Sat.seq (ih (fun q hq => hps q (by simp [hq])) hv) ?_
      rintro others u ⟨hu, hrest⟩ x rfl
      refine ⟨hu, fun hok path hpath => ?_⟩
      have hboth : ok = true ∧ others = true := by simpa using hok
      refine hrest hboth.2 path ?_
      rw [hone hboth.1]
      by_cases hsame : path = p.2.path
      · subst hsame
        exact Or.inl (Function.update_self ..)
      · rw [Function.update_of_ne hsame]
        rcases hpath with hpath | ⟨q, hq, hqpath⟩
        · exact Or.inl hpath
        · rcases List.mem_cons.1 hq with rfl | hq
          · exact absurd hqpath.symm hsame
          · exact Or.inr ⟨q, hq, hqpath⟩

/-- The verification loop only reads, and none of the targets is a link. -/
theorem meets_verifyAll_alone (files : Dict Name BeforeRec) (ps : List (Name × Target))
    (hps : ∀ p ∈ ps, p ∈ pl.targets) (h : pl.Active H Q w) :
    Meets (planned steady H pid pl Q) (verifyAll H files ps) s w (fun r s' v =>
      s' = s ∧ v = w ∧ ∀ e, r ≠ .error e) := by
  induction ps with
  | nil => exact meets_ret_alone ⟨rfl, rfl, fun e he => (by cases he)⟩
  | cons p rest ih =>
      unfold verifyAll
      refine (computes_readTarget h.sound p.2.path).bind ?_ ?_
      · intro cur _
        refine meets_bind (ih (fun q hq => hps q (by simp [hq]))) ?_ ?_
        · rintro others s' v ⟨rfl, rfl, -⟩
          exact meets_ret_alone ⟨rfl, rfl, fun e he => (by cases he)⟩
        · rintro e s' v ⟨-, -, hno⟩
          exact absurd rfl (hno e)
      · intro e he
        exfalso
        have hplain := h.within.plain p (hps p (by simp))
        unfold readAt at he
        cases hf : w.files p.2.path with
        | link => exact hplain hf
        | absent =>
            rw [hf] at he
            cases he
        | file data stat =>
            rw [hf] at he
            cases he

/-- `_rollback`: undone, or ROLLBACK_FAILED with the materials on disk. -/
theorem meets_rollback_alone (hown : pl.OwnImages) (huniq : pl.targets.Uniq)
    (he : pl.Equipped H s) (hst : s.state = .applying ∨ s.state = .observing)
    (h : pl.Active H Q w) :
    Meets (planned steady H pid pl Q) (rollback H) s w (fun r _ v =>
      pl.Ending H Q steady r v) := by
  unfold rollback
  refine meets_assign_bind ?_
  have he' : pl.Equipped H { s with metaJson := { s.metaJson with errorClass := "APPLY_FAILED" } } :=
    ⟨⟨he.of.txid, he.of.metaId, he.of.schema, he.of.paths⟩, he.targets, he.names, he.intended,
      he.index⟩
  have hall : s.state.allowed.contains .rollingBack = true := by
    rcases hst with hst | hst <;> rw [hst] <;> rfl
  refine meets_bind (meets_setState_active _ hall (by simp) he' h) ?_ ?_
  case refine_2 =>
    rintro e s' v ⟨-, -, hv, -, -, herr⟩
    exact meets_raise_alone ⟨herr e rfl, hv.sound⟩
  rintro _ s1 w1 ⟨he1, hs1, h1, -⟩
  refine meets_self_bind ?_
  obtain ⟨bi, hbi, hfiles⟩ := he1.index
  have hget : (s1.before.getD {}).files = pl.records H := by
    rw [hbi]
    exact hfiles
  dsimp only
  rw [hget, he1.targets, he1.of.txid]
  have hmem : ∀ p ∈ pl.targets.sorted, p ∈ pl.targets := fun p hp => by simpa using hp
  refine meets_call_bind (sat_restoreAll_alone hown huniq _ hmem h1) ?_
  rintro restored w2 ⟨h2, hrestored⟩
  refine meets_call_bind (sat_quiet_alone (quiet_restoreRuntime H _) h2.sound) ?_
  rintro runtime w3 rfl
  refine meets_bind (meets_verifyAll_alone _ _ hmem h2) ?_ ?_
  case refine_2 =>
    rintro e s' v ⟨-, -, hno⟩
    exact absurd rfl (hno e)
  rintro verified s' v ⟨rfl, rfl, -⟩
  refine meets_assign_bind ?_
  have he2 : pl.Equipped H { s' with metaJson := { s'.metaJson with
      rollbackComplete := some (restored && runtime && verified) } } :=
    ⟨⟨he1.of.txid, he1.of.metaId, he1.of.schema, he1.of.paths⟩, he1.targets, he1.names,
      he1.intended, he1.index⟩
  cases hcomplete : (restored && runtime && verified) with
  | true =>
      rw [hcomplete] at he2
      rw [if_pos rfl]
      have hback : restored = true := by
        simp only [Bool.and_eq_true] at hcomplete
        exact hcomplete.1.1
      have hundone : ∀ path, (v.files path).data? = pl.before path := by
        intro path
        refine hrestored hback path ?_
        -- a path is a target's, or nobody touched it
        by_cases htarget : ∃ p ∈ pl.targets, p.2.path = path
        · obtain ⟨p, hp, hpath⟩ := htarget
          exact Or.inr ⟨p, by simpa using hp, hpath⟩
        · refine Or.inl ?_
          rw [World.contents, h1.within.others path (fun q hq hpath => htarget ⟨q, hq, hpath⟩)]
          rfl
      have hsettles : pl.Settles .rolledBack v.files := ⟨rfl, fun _ => hundone⟩
      have hall' : s'.state.allowed.contains .rolledBack = true := by
        rw [hs1]
        rfl
      have hclosed : ∀ m : Meta, m.state = .rolledBack →
          pl.Closed .rolledBack v.files (v.writeMeta pl.txid m) := by
        intro m hm
        refine ⟨rfl, fun m' hm' => ?_⟩
        simp only [World.metaOf, World.writeMeta_dir_self, Option.some.injEq] at hm'
        rw [← hm']
        exact hm
      refine meets_bind (meets_setState_alone .rolledBack hall' h2.sound ?_) ?_ ?_
      · rw [he2.of.txid]
        exact (hclosed _ rfl).sound hsettles
      case refine_3 =>
        rintro e s'' u ⟨-, ⟨hr, -⟩ | ⟨hst', hr, hu⟩⟩
        · cases hr
        · cases hr
          refine meets_raise_alone ⟨⟨rfl, hst'⟩, ?_⟩
          rcases hu with rfl | rfl
          · exact h2.sound
          · rw [he2.of.txid]
            exact (hclosed _ rfl).sound hsettles
      rintro _ s'' u ⟨hs'', ⟨-, rfl⟩ | ⟨-, hr, -⟩⟩
      case inr => cases hr
      have hid : s''.txid = pl.txid := by
        rw [hs'']
        exact he2.of.txid
      have hstate : s''.state = .rolledBack := by
        rw [hs'']
        rfl
      rw [he2.of.txid]
      refine (meets_settle_alone hid hstate hsettles (hclosed _ rfl)).mono ?_
      rintro r x y ⟨rfl, hy⟩
      refine Or.inr (Or.inl ⟨rfl, ?_, ?_⟩)
      · funext path
        rw [World.contents, hy.1]
        exact hundone path
      · rw [hy.1]
        exact hy
  | false =>
      rw [hcomplete] at he2
      rw [if_neg (by simp)]
      have hall' : s'.state.allowed.contains .rollbackFailed = true := by
        rw [hs1]
        rfl
      refine meets_bind (meets_setState_active _ hall' (by simp) he2 h2) ?_ ?_
      · rintro _ s'' u ⟨-, -, hu, -, hok, -⟩
        exact meets_ret_alone (Or.inr (Or.inr ⟨rfl, hok rfl, hu⟩))
      · rintro e s'' u ⟨-, -, hu, -, -, herr⟩
        exact meets_raise_alone ⟨herr e rfl, hu.sound⟩

end Finish

/-! ### `commit` -/

section Commit

variable {steady : Bool} {H : Host} {pid : Pid} {pl : Plan} {Q B : Prop} {w : World} {s : Tx}

/-- What a plan has to satisfy for the transaction `s` to follow it. -/
structure Plan.Fits (steady : Bool) (H : Host) (pl : Plan) (B : Prop) (s : Tx) : Prop where
  derives : pl.Derives H s
  excuses : Excuses steady H pl B
  decodes : deriveAt H pl.files s.readSha s.derivers s.targets = .error .other → B
  uniq : pl.targets.Uniq
  own : pl.OwnImages

/-- How the part under the lock ends, and `with _Lock()` as well. -/
def Plan.Left (H : Host) (pl : Plan) (Q : Prop) (steady : Bool) (B : Prop)
    (r : Except Exn State) (s : Tx) (w : World) : Prop :=
  match r with
  | .ok st => pl.Finished H Q st w ∧ ∀ p ∈ pl.targets, pl.Expected H p
  | .error e => ((e = .other ∧ steady = false) ∧ pl.Sound H Q w) ∨
      (pl.Untouched Q s w ∧ (Err B e ∨ e = .busy))

theorem Plan.Ending.left {r : Except Exn State} (h : pl.Ending H Q steady r w)
    (hexpected : ∀ p ∈ pl.targets, pl.Expected H p) : pl.Left H Q steady B r s w := by
  cases r with
  | ok st => exact ⟨h, hexpected⟩
  | error e => exact Or.inl h

theorem Plan.Finished.sound {st : State} (h : pl.Finished H Q st w) : pl.Sound H Q w := by
  rcases h with ⟨-, -, hcl⟩ | ⟨-, hback, hcl⟩ | ⟨-, -, hact⟩
  · exact hcl.sound (Plan.settles_committed _)
  · exact hcl.sound ⟨rfl, fun _ p => congrFun hback p⟩
  · exact hact.sound

/-- The part under the lock. -/
theorem meets_commitLocked_alone (hfits : pl.Fits steady H B s) (h : pl.Begun Q s w) :
    Meets (planned steady H pid pl Q) (commitLocked H) s w (pl.Left H Q steady B) := by
  unfold commitLocked
  refine meets_bind (meets_preflight hfits.derives hfits.excuses hfits.decodes h) ?_ ?_
  case refine_2 =>
    intro e s' v hv
    refine meets_raise_alone (Or.inr ⟨⟨hv.1.1, ?_, hv.1.2.2⟩, Or.inl hv.2.1⟩)
    rw [hv.1.2.1]
    rfl
  intro base s1 w1 h1
  obtain ⟨hscoped, hexpected, -⟩ := h1
  refine meets_bind (meets_takeBefore_alone hfits.excuses.book hscoped) ?_ ?_
  case refine_2 => exact fun e s' v hv => meets_raise_alone (Or.inr ⟨hv.1, Or.inl hv.2⟩)
  intro _ s2 w2 h2
  obtain ⟨he, hst, hcalm, himg⟩ := h2
  have hactive := hcalm.active himg (noLinks_of_expected hexpected)
  refine meets_bind (meets_setState_active .applying (by rw [hst]; rfl) (by simp) he hactive) ?_ ?_
  case refine_2 =>
    rintro e s' v ⟨-, -, hv, -, -, herr⟩
    exact meets_raise_alone (Or.inl ⟨herr e rfl, hv.sound⟩)
  rintro _ s3 w3 ⟨he3, hst3, h3, hsame, -⟩
  have hfiles : w3.files = pl.files := hsame.trans hcalm.1
  refine meets_outcome (meets_applyAll_alone base he3 hst3 h3 hfiles) ?_
  rintro r s4 w4 ⟨he4, h4, hok, hst4⟩
  cases r with
  | ok x =>
      obtain ⟨hobs, hcontents⟩ := hok rfl
      exact (meets_finish_alone he4 hobs h4 hcontents).mono (fun r s' v hv => hv.left hexpected)
  | error e =>
      exact (meets_rollback_alone hfits.own hfits.uniq he4 hst4 h4).mono
        (fun r s' v hv => hv.left hexpected)

/-- Acquiring and releasing the lock changes neither production nor a directory. -/
theorem exec_lock_same {e : Op} (he : e = .lock ∨ e = .unlock) (c : Choice) (T : Txid) :
    (exec H pid e c w).2.files = w.files ∧ (exec H pid e c w).2.dir T = w.dir T := by
  rcases he with rfl | rfl
  · simp only [exec]
    split
    · exact ⟨rfl, rfl⟩
    · split <;> exact ⟨rfl, rfl⟩
  · simp only [exec]
    split <;> exact ⟨rfl, rfl⟩

theorem Plan.Finished.congr {st : State} {w' : World} (h : pl.Finished H Q st w)
    (hfiles : w'.files = w.files) (hdir : w'.dir pl.txid = w.dir pl.txid) :
    pl.Finished H Q st w' := by
  have hcontents : w'.contents = w.contents := by
    funext q
    rw [World.contents, hfiles]
    rfl
  have hmeta : w'.metaOf pl.txid = w.metaOf pl.txid := by rw [World.metaOf, hdir]; rfl
  rcases h with ⟨rfl, hc, hcl⟩ | ⟨rfl, hc, hcl⟩ | ⟨rfl, hst, hact⟩
  · exact Or.inl ⟨rfl, hcontents.trans hc, rfl, fun m hm => hcl.2 m (hmeta ▸ hm)⟩
  · exact Or.inr (Or.inl ⟨rfl, hcontents.trans hc, rfl, fun m hm => hcl.2 m (hmeta ▸ hm)⟩)
  · refine Or.inr (Or.inr ⟨rfl, ?_, ?_⟩)
    · rw [World.stateOf, hmeta]
      exact hst
    · exact ⟨by rw [hdir]; exact hact.imaged, by rw [hfiles]; exact hact.within,
        fun hQ m hm => hact.recorded hQ m (hmeta ▸ hm), fun hQ m hm => hact.ahead hQ m (hmeta ▸ hm)⟩

theorem Plan.Calm.congr {files : Path → Node} {w' : World} (h : pl.Calm Q files w)
    (hfiles : w'.files = w.files) (hdir : w'.dir pl.txid = w.dir pl.txid) :
    pl.Calm Q files w' := by
  have hmeta : w'.metaOf pl.txid = w.metaOf pl.txid := by rw [World.metaOf, hdir]; rfl
  exact ⟨hfiles.trans h.1, fun hQ m hm => h.2 hQ m (hmeta ▸ hm)⟩

theorem Plan.Sound.congr {w' : World} (h : pl.Sound H Q w)
    (hfiles : w'.files = w.files) (hdir : w'.dir pl.txid = w.dir pl.txid) : pl.Sound H Q w' := by
  have hmeta : w'.metaOf pl.txid = w.metaOf pl.txid := by rw [World.metaOf, hdir]; rfl
  intro hQ m hm
  obtain ⟨hneeds, hback⟩ := h hQ m (hmeta ▸ hm)
  refine ⟨fun hn => ?_, fun hb => ?_⟩
  · have hmid := hneeds hn
    exact ⟨hmid.recorded, by rw [hdir]; exact hmid.imaged, by rw [hfiles]; exact hmid.within⟩
  · rw [← hback hb]
    funext p
    rw [World.contents, hfiles]
    rfl

theorem Plan.Left.congr {r : Except Exn State} {w' : World} (h : pl.Left H Q steady B r s w)
    (hfiles : w'.files = w.files) (hdir : w'.dir pl.txid = w.dir pl.txid) :
    pl.Left H Q steady B r s w' := by
  cases r with
  | ok st => exact ⟨h.1.congr hfiles hdir, h.2⟩
  | error e =>
      rcases h with ⟨hst, hsound⟩ | ⟨⟨hof, hun, hcalm⟩, he⟩
      · exact Or.inl ⟨hst, hsound.congr hfiles hdir⟩
      · exact Or.inr ⟨⟨hof, hun, hcalm.congr hfiles hdir⟩, he⟩

theorem Plan.Left.sound {r : Except Exn State} (h : pl.Left H Q steady B r s w) :
    pl.Sound H Q w := by
  cases r with
  | ok st => exact h.1.sound
  | error e =>
      rcases h with ⟨-, hsound⟩ | ⟨⟨-, -, hcalm⟩, -⟩
      · exact hsound
      · exact hcalm.sound

/-- With the lock around it. -/
theorem meets_withLock_alone (hfits : pl.Fits steady H B s) (h : pl.Begun Q s w) :
    Meets (planned steady H pid pl Q) (withLock (commitLocked H)) s w
      (pl.Left H Q steady B) := by
  obtain ⟨hof, hst, hcalm⟩ := h
  have huns : s.state.unstarted = true := by
    rw [hst]
    rfl
  unfold withLock
  refine meets_call_bind (M := fun _ v => pl.Calm Q pl.files v) ?_ ?_
  · refine sat_alone (fun c => ?_)
    obtain ⟨hfiles, hdir⟩ := @exec_lock_same H pid w _ (Or.inl rfl)
      (Op.choice steady .lock c) pl.txid
    exact ⟨(hcalm.congr hfiles hdir).sound, hcalm.congr hfiles hdir⟩
  intro a v hv
  cases a with
  | unusable => exact meets_raise_alone (Or.inr ⟨⟨hof, huns, hv⟩, Or.inl (Or.inl rfl)⟩)
  | busy => exact meets_raise_alone (Or.inr ⟨⟨hof, huns, hv⟩, Or.inr rfl⟩)
  | acquired =>
      refine meets_outcome (meets_commitLocked_alone hfits ⟨hof, hst, hv⟩) ?_
      intro r s' u hu
      refine meets_call_bind (M := fun _ x => pl.Left H Q steady B r s' x) ?_ ?_
      · refine sat_alone (fun c => ?_)
        obtain ⟨hfiles, hdir⟩ := @exec_lock_same H pid u _ (Or.inr rfl)
          (Op.choice steady .unlock c) pl.txid
        exact ⟨(hu.congr hfiles hdir).sound, hu.congr hfiles hdir⟩
      · intro _ x hx
        cases r with
        | ok st => exact meets_ret_alone hx
        | error e => exact meets_raise_alone hx

/-- Giving up after an exception that leaves the transaction ABORTED. -/
theorem meets_giveUp_alone (cls : String) {e : Exn} (he : e = .busy ∨ e = .refused)
    (h : pl.Untouched Q s w) :
    Meets (planned steady H pid pl Q)
      (Method.bind (abortWith cls) (fun _ => (raise e : TxM State))) s w (fun r _ v =>
        pl.Outcome H Q steady B r v) := by
  refine meets_bind (meets_abortWith_alone cls h) ?_ ?_
  · rintro _ s' v ⟨hgiven, -⟩
    obtain ⟨hfiles, hst⟩ := hgiven rfl
    exact meets_raise_alone (Or.inr ⟨hfiles, Or.inl ⟨he, hst⟩⟩)
  · rintro e' s' v ⟨-, herr⟩
    exact meets_raise_alone (Or.inl (herr e' rfl))

/-- A commit alone in the world. -/
theorem meets_commit_alone (hfits : pl.Fits steady H B s) (h : pl.Begun Q s w) :
    Meets (planned steady H pid pl Q) (commit H) s w (fun r _ v =>
      pl.Outcome H Q steady B r v) := by
  unfold commit
  refine meets_tryCatch (meets_withLock_alone hfits h) ?_ ?_
  · exact fun st s' v hv => meets_ret_alone hv
  · intro e s' v hv
    rcases hv with ⟨⟨rfl, hst⟩, -⟩ | ⟨huns, he⟩
    · exact meets_raise_alone (Or.inl hst)
    · rcases he with (rfl | rfl | ⟨rfl, hB⟩) | rfl
      · exact meets_giveUp_alone "REFUSED" (Or.inr rfl) huns
      · exact meets_raise_alone (Or.inr ⟨huns.2.2.1, Or.inr (Or.inl rfl)⟩)
      · exact meets_raise_alone (Or.inr ⟨huns.2.2.1, Or.inr (Or.inr ⟨rfl, hB⟩)⟩)
      · exact meets_giveUp_alone "BUSY" (Or.inl rfl) huns

end Commit

end ProxyGateway.Pdgtx
