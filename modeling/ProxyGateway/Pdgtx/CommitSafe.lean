import ProxyGateway.Pdgtx.Phases

set_option autoImplicit false

/-!
# ProxyGateway.Pdgtx.CommitSafe

`Tx.commit` obeys the discipline of `Discipline.lean`, for its own transaction and
for every other (`meets_commit`). The proof goes through the pipeline phase by phase.
-/

namespace ProxyGateway.Pdgtx

open Method

section Commit

variable {H : Host} {pid : Pid} {F U : Txid} {P : Prop} {w w' : World}

/-! ### Before APPLYING -/

theorem quiet_pendingRecovery (T : Txid) : Quiet (pendingRecovery T) := by
  refine Prog.Only.bind (Prog.only_perform rfl) (fun names => Prog.Only.collect (fun d => ?_) _)
  refine Prog.Only.bind (Prog.only_perform rfl) (fun m => ?_)
  split <;> exact Prog.only_ret _

theorem quiet_derive (fn : Deriver) (staged : Dict Name (Option Bytes)) :
    Quiet (perform (.derive fn staged)) := Prog.only_perform rfl

theorem quiet_validate (v : String) (p : Path) (data : Bytes) (targets : Dict Name Target) :
    Quiet (perform (.validate v p data targets)) := Prog.only_perform rfl

theorem quiet_each_svcActive (us : List ServiceUnit) :
    Quiet (Prog.each (fun u => (svcActive u).bind (fun _ => .ret ())) us) := by
  induction us with
  | nil => trivial
  | cons u rest ih =>
      exact Prog.Only.bind ((quiet_svcActive u).bind (fun _ => Prog.only_ret _)) (fun _ => ih)

theorem exec_held {e : Op} (h : Held pid F P w) (hp : Permit F P Advance e w) (h1 : e ≠ .lock)
    (h2 : e ≠ .unlock) (c : Choice) : Held pid F P (exec H pid e c w).2 :=
  ⟨inv_exec hp.edge h.1 c, by rw [exec_lock h1 h2]; exact h.2⟩

/-- An operation without a trace, always permitted, keeps PREPARING. -/
theorem sat_preparing {e : Op} {st : State} (hp : ∀ v, Permit F P Advance e v)
    (he : e ≠ .lock ∧ e ≠ .unlock ∧ e.logged = false) (hw : e.writesFor F = true → U = F) (h : Preparing pid F U P st w) :
    Prog.Sat (committer H pid F U P) (fun _ v => Preparing pid F U P st v) (perform e) w := by
  refine sat_op (carried_preparing st) (fun v _ => hp v) (fun _ _ => writes_owner hw) ?_ h
  rintro v c ⟨hheld, hst, hinv, huns, hown⟩
  refine ⟨exec_held hheld (hp v) he.1 he.2.1 c, hst, inv_exec (hp v).edge hinv c, huns, fun hU => ?_⟩
  rw [exec_past he.2.2]
  exact hown hU

theorem keeps_saveMeta_preparing :
    Keeps (committer H pid F U P) (At U (Preparing pid F U P)) saveMeta :=
  keeps_saveMeta carried_preparing saves_preparing

theorem keeps_checkPending :
    Keeps (committer H pid F U P) (At U (Preparing pid F U P)) checkPending := by
  have hJ := @carried_preparing H pid F U P
  unfold checkPending
  refine keeps_self_bind (fun t _ => ?_)
  exact (keeps_quiet (carried_at hJ) (quiet_pendingRecovery _)).bind (at_stable hJ)
    (fun _ => keeps_require (carried_at hJ) _ _)

theorem keeps_stageDerived (name : Name) (data : Bytes) :
    Keeps (committer H pid F U P) (At U (Preparing pid F U P)) (stageDerived H name data) := by
  have hJ := @carried_preparing H pid F U P
  unfold stageDerived
  refine (keeps_resolveTarget (carried_at hJ) _).bind (at_stable hJ) (fun r => ?_)
  refine (keeps_readTarget (carried_at hJ) _).bind (at_stable hJ) (fun cur => ?_)
  refine keeps_self_bind (fun t _ => ?_)
  refine Keeps.bind (at_stable hJ) (keeps_must hJ (fun st w h => ?_)) (fun _ => ?_)
  · refine sat_preparing (fun v => ?_) ?_ ?_ h
    · exact fun _ hb => by cases hb
    · exact ⟨by simp, by simp, rfl⟩
    · exact fun hw => by simp_all [Op.writesFor]
  · exact keeps_assign_at hJ (fun _ => ⟨rfl, rfl, rfl⟩)

theorem keeps_deriveAll :
    Keeps (committer H pid F U P) (At U (Preparing pid F U P)) (deriveAll H) := by
  have hJ := @carried_preparing H pid F U P
  unfold deriveAll
  refine keeps_self_bind (fun t _ => Keeps.each (at_stable hJ) (fun d => ?_) _)
  unfold deriveOne
  refine keeps_self_bind (fun t _ => ?_)
  refine (keeps_quiet (carried_at hJ) (quiet_derive _ _)).bind (at_stable hJ) (fun out => ?_)
  split
  · exact keeps_stageDerived _ _
  · exact keeps_raise (at_stable hJ) _
  · exact keeps_raise (at_stable hJ) _
  · exact keeps_raise (at_stable hJ) _

theorem keeps_scope : Keeps (committer H pid F U P) (At U (Preparing pid F U P)) scope := by
  have hJ := @carried_preparing H pid F U P
  unfold scope
  refine keeps_self_bind (fun t _ => ?_)
  refine (keeps_require (carried_at hJ) _ _).bind (at_stable hJ) (fun _ => ?_)
  split
  · refine Keeps.bind (at_stable hJ) (keeps_assign_at hJ ?_) ?_
    · exact fun _ => ⟨rfl, rfl, rfl⟩
    · exact fun _ => keeps_raise (at_stable hJ) _
  · exact keeps_assign_at hJ (fun _ => ⟨rfl, rfl, rfl⟩)

theorem keeps_checkGuards :
    Keeps (committer H pid F U P) (At U (Preparing pid F U P)) checkGuards := by
  have hJ := @carried_preparing H pid F U P
  unfold checkGuards
  refine keeps_self_bind (fun t _ => Keeps.each (at_stable hJ) (fun u => ?_) _)
  unfold checkGuard
  refine keeps_self_bind (fun t _ => ?_)
  split
  · exact keeps_ret (at_stable hJ) ()
  · exact (keeps_quiet (carried_at hJ) (quiet_svcPropEx _ _)).bind (at_stable hJ)
      (fun _ => keeps_precondition hJ _)

theorem keeps_baseline : Keeps (committer H pid F U P) (At U (Preparing pid F U P)) baseline := by
  have hJ := @carried_preparing H pid F U P
  unfold baseline
  refine keeps_self_bind (fun t _ => ?_)
  refine (keeps_quiet (carried_at hJ) (quiet_healthSnapshot _ _)).bind (at_stable hJ) (fun base => ?_)
  refine (keeps_quiet (carried_at hJ) (quiet_each_svcActive _)).bind (at_stable hJ) (fun _ => ?_)
  exact (keeps_require (carried_at hJ) _ _).bind (at_stable hJ) (fun _ => keeps_ret (at_stable hJ) base)

theorem keeps_checkPreconditions :
    Keeps (committer H pid F U P) (At U (Preparing pid F U P)) (checkPreconditions H) := by
  have hJ := @carried_preparing H pid F U P
  unfold checkPreconditions
  refine keeps_self_bind (fun t _ => Keeps.bind (at_stable hJ) ?_ (fun _ => ?_))
  · exact Keeps.each (at_stable hJ) (fun p => (keeps_readTarget (carried_at hJ) _).bind (at_stable hJ)
      (fun _ => keeps_precondition hJ _)) _
  · exact Keeps.each (at_stable hJ) (fun p => (keeps_readTarget (carried_at hJ) _).bind (at_stable hJ)
      (fun _ => keeps_precondition hJ _)) _

theorem keeps_validateAll :
    Keeps (committer H pid F U P) (At U (Preparing pid F U P)) validateAll := by
  have hJ := @carried_preparing H pid F U P
  unfold validateAll
  refine keeps_self_bind (fun t _ => Keeps.each (at_stable hJ) (fun p => ?_) _)
  unfold validateTarget
  split
  · exact keeps_ret (at_stable hJ) ()
  · refine Keeps.each (at_stable hJ) (fun v => ?_) _
    unfold validateOne
    refine keeps_self_bind (fun t _ => ?_)
    refine (keeps_quiet (carried_at hJ) (quiet_validate _ _ _ _)).bind (at_stable hJ) (fun verdict => ?_)
    split
    · exact keeps_raise (at_stable hJ) _
    · exact keeps_saveMeta_preparing
    · exact keeps_saveMeta_preparing.bind (at_stable hJ) (fun _ => keeps_raise (at_stable hJ) _)

theorem keeps_writeDiff : Keeps (committer H pid F U P) (At U (Preparing pid F U P)) writeDiff := by
  have hJ := @carried_preparing H pid F U P
  unfold writeDiff
  refine keeps_self_bind (fun t _ => Keeps.bind (at_stable hJ) ?_ (fun _ => ?_))
  · exact Keeps.each (at_stable hJ) (fun p => (keeps_readTarget (carried_at hJ) _).bind (at_stable hJ)
      (fun _ => keeps_ret (at_stable hJ) ())) _
  · refine keeps_must hJ (fun st w h => sat_preparing (fun v => ?_) ?_ ?_ h)
    · exact trivial
    · exact ⟨by simp, by simp, rfl⟩
    · exact fun hw => by simp_all [Op.writesFor]

theorem keeps_preflight :
    Keeps (committer H pid F U P) (At U (Preparing pid F U P)) (preflight H) := by
  have hS := at_stable (@carried_preparing H pid F U P)
  unfold preflight
  refine keeps_checkPending.bind hS (fun _ => keeps_deriveAll.bind hS (fun _ => ?_))
  refine keeps_scope.bind hS (fun _ => keeps_checkGuards.bind hS (fun _ => ?_))
  refine keeps_baseline.bind hS (fun base => keeps_checkPreconditions.bind hS (fun _ => ?_))
  refine keeps_validateAll.bind hS (fun _ => keeps_writeDiff.bind hS (fun _ => ?_))
  exact keeps_ret hS base

/-! ### Before-images -/

/-- The leaves of the images a list of records names. -/
def imageLeaves (files : Dict Name BeforeRec) : List Leaf :=
  (files.filter (fun p => p.2.existed)).map (fun p => p.2.file)

theorem stored_set {K : List Leaf} {files : Dict Leaf Bytes} {leaf : Leaf} {data : Bytes}
    (h : ∀ x ∈ K, (files.get? x).isSome = true) :
    ∀ x ∈ K ++ [leaf], ((files.set leaf data).get? x).isSome = true := by
  intro x hx
  rw [Dict.get?_set]
  split
  · rfl
  · next hne =>
    rcases List.mem_append.mp hx with hx | hx
    · exact h x hx
    · exact absurd (List.mem_singleton.mp hx).symm hne

theorem quiet_saveSysctl (t : Tx) : Quiet (saveSysctl t) := by
  unfold saveSysctl
  split
  · exact (quiet_run _).bind (fun _ => Prog.only_ret _)
  · exact Prog.only_ret _

theorem quiet_saveNft (H : Host) (t : Tx) : Quiet (saveNft H t) := by
  unfold saveNft
  split
  · split
    · exact Prog.only_ret _
    · exact (quiet_run _).bind (fun _ => Prog.only_ret _)
  · exact Prog.only_ret _

theorem keeps_saveServices {J : State → World → Prop}
    (hJ : ∀ st, Carried H pid F P (owner U F) (J st)) (us : List ServiceUnit) :
    Keeps (committer H pid F U P) (At U J) (saveServices us) := by
  induction us with
  | nil => exact keeps_ret (at_stable hJ) _
  | cons u rest ih =>
      unfold saveServices
      refine (keeps_quiet (carried_at hJ) (quiet_svcPropEx _ _)).bind (at_stable hJ) (fun en => ?_)
      refine (keeps_quiet (carried_at hJ) (quiet_svcPropEx _ _)).bind (at_stable hJ) (fun nr => ?_)
      refine (keeps_quiet (carried_at hJ) (quiet_svcPropEx _ _)).bind (at_stable hJ) (fun st => ?_)
      refine (keeps_require (carried_at hJ) _ _).bind (at_stable hJ) (fun _ => ?_)
      refine (keeps_require (carried_at hJ) _ _).bind (at_stable hJ) (fun _ => ?_)
      refine (keeps_require (carried_at hJ) _ _).bind (at_stable hJ) (fun _ => ?_)
      exact ih.bind (at_stable hJ) (fun _ => keeps_ret (at_stable hJ) _)

theorem validated_permit {K : List Leaf} {st : State} (h : Validated pid F U P K st w)
    (hU : U = F) : ¬ w.Pending F := by
  obtain ⟨-, rfl, hown⟩ := h
  exact not_pending_of_last (hown hU).2.1 rfl

theorem Validated.weaken {K K' : List Leaf} {st : State} (h : Validated pid F U P K st w)
    (hsub : ∀ x ∈ K', x ∈ K) : Validated pid F U P K' st w := by
  obtain ⟨hheld, hst, hown⟩ := h
  refine ⟨hheld, hst, fun hU => ?_⟩
  obtain ⟨h1, h2, h3⟩ := hown hU
  exact ⟨h1, h2, fun x hx => h3 x (hsub x hx)⟩

/-- Storing one image. -/
theorem sat_storeImage {K : List Leaf} {st : State} {leaf : Leaf} {data : Bytes}
    (h : Validated pid F U P K st w) :
    Prog.Sat (committer H pid F U P) (fun ok v => Validated pid F U P K st v ∧
      (ok = true → Validated pid F U P (K ++ [leaf]) st v))
      (perform (Op.storeSub U .before leaf data) : Proc Done) w := by
  have hJ := fun K => @carried_validated H pid F U P K st
  refine Prog.sat_perform (fun v hv => ?_)
  have hv' := (hJ K).stable _ _ h hv
  have hp : Permit F P Advance (.storeSub U .before leaf data) v := fun hU _ => validated_permit hv' hU
  have hw : (owner U F).Writes F (.storeSub U .before leaf data) v :=
    writes_owner (fun hw => by simpa [Op.writesFor] using hw)
  refine ⟨⟨hp, (hJ K).locked _ _ hv', hw⟩, fun c _ u hu => ?_⟩
  obtain ⟨hheld, hst, hown⟩ := hv'
  have hheld' := exec_held (H := H) hheld hp (by simp) (by simp) c
  have hpast : (exec H pid (.storeSub U .before leaf data) c v).2.past F = v.past F :=
    exec_past rfl c
  let v' := v.setDir U ((v.dir U).setSub .before
    (some ((((v.dir U).sub .before).getD []).set leaf data)))
  -- after the write every leaf of `K` and the new one are there
  have hnew : U = F → ∀ x ∈ K ++ [leaf],
      (((v'.dir F).before.getD []).get? x).isSome = true := by
    rintro rfl
    rw [World.dir_setDir_self]
    exact stored_set (hown rfl).2.2
  have hcases := faulty_cases c.fault v v'
  have hanswer : ((exec H pid (.storeSub U .before leaf data) c v).1 : Done) =
      (faulty c.fault v v').1 := rfl
  have hworld : (exec H pid (.storeSub U .before leaf data) c v).2 = (faulty c.fault v v').2 := rfl
  refine ⟨(hJ K).stable _ _ ⟨hheld', hst, fun hU => ?_⟩ hu, fun hok => ?_⟩
  · rw [hpast]
    refine ⟨(hown hU).1, (hown hU).2.1, fun x hx => ?_⟩
    rw [hworld]
    rcases hcases with ⟨hw, -⟩ | hw
    · rw [hw]
      exact (hown hU).2.2 x hx
    · rw [hw]
      exact hnew hU x (List.mem_append_left _ hx)
  · refine (hJ _).stable _ _ ⟨hheld', hst, fun hU => ?_⟩ hu
    rw [hpast]
    refine ⟨(hown hU).1, (hown hU).2.1, fun x hx => ?_⟩
    rw [hworld]
    rcases hcases with ⟨-, hno⟩ | hw
    · have hok' : (faulty c.fault v v').1 = true := hok
      rw [hno] at hok'
      exact Bool.noConfusion hok'
    · rw [hw]
      exact hnew hU x hx

/-- Saving the files leaves an image for every record of an existing file. -/
theorem meets_saveFiles (xs : List (Name × Target)) :
    ∀ (K : List Leaf) (s : Tx) (w : World), At U (Validated pid F U P K) s w →
      Meets (committer H pid F U P) (saveFiles H xs) s w (fun r s' v => match r with
        | .ok files => At U (Validated pid F U P (K ++ imageLeaves files)) s' v
        | .error _ => At U (Validated pid F U P []) s' v) := by
  have hJ := fun K => @carried_validated H pid F U P K
  have hweak : ∀ {K : List Leaf} {s : Tx} {v : World}, At U (Validated pid F U P K) s v →
      At U (Validated pid F U P []) s v :=
    fun h => ⟨h.1, h.2.1, h.2.2.weaken (by simp)⟩
  have herr : ∀ {K : List Leaf} {e : Exn} {s : Tx} {v : World},
      At U (Validated pid F U P K) s v → Meets (committer H pid F U P)
        (raise e : TxM (Dict Name BeforeRec)) s v (fun r s' v => match r with
          | .ok files => At U (Validated pid F U P (K ++ imageLeaves files)) s' v
          | .error _ => At U (Validated pid F U P []) s' v) :=
    fun h => meets_raise (fun u hu => hweak (at_stable (hJ _) _ _ _ h hu))
  -- on the targets; `K` are the images stored so far, and a target without a file has none
  induction xs with
  | nil =>
      intro K s w h
      unfold saveFiles
      refine meets_ret (fun u hu => ?_)
      have h' := at_stable (hJ K) _ _ _ h hu
      simpa [imageLeaves] using h'
  | cons p rest ih =>
      obtain ⟨name, t⟩ := p
      intro K s w h
      unfold saveFiles
      refine meets_bind (keeps_readTarget (carried_at (hJ K)) t.path s w h) ?_ ?_
      · intro cur s v hv
        cases cur with
        | none =>
            refine meets_bind (ih K s v hv) ?_ ?_
            · intro more s' u hu
              exact meets_ret (fun x hx => by
                simpa [imageLeaves] using at_stable (hJ _) _ _ _ hu hx)
            · intro e s' u hu
              exact meets_raise (fun x hx => at_stable (hJ _) _ _ _ hu hx)
        | some c =>
            obtain ⟨data, st⟩ := c
            dsimp only
            refine meets_self_bind ?_
            obtain ⟨h1, h2, h3⟩ := hv
            refine meets_bind (meets_must (hJ K s.state) (hJ (K ++ [safeLeaf name]) s.state) ?_)
              ?_ ?_
            · rw [h1]
              exact sat_storeImage h3
            · rintro _ s' u ⟨rfl, -, hok⟩
              refine meets_bind (ih (K ++ [safeLeaf name]) s' u ⟨h1, h2, hok rfl⟩) ?_ ?_
              · intro more s'' x hx
                refine meets_ret (fun y hy => ?_)
                have hx' := at_stable (hJ _) _ _ _ hx hy
                simpa [imageLeaves] using hx'
              · intro e s'' x hx
                exact meets_raise (fun y hy => at_stable (hJ _) _ _ _ hx hy)
            · rintro e s' u ⟨rfl, hu, -⟩
              exact herr (K := K) ⟨h1, h2, hu⟩
      · intro e s' v hv
        exact herr (K := K) hv

/-- Storing the index completes the materials. -/
theorem sat_storeIndex {bi : BeforeIndex} {st : State}
    (h : Validated pid F U P (imageLeaves bi.files) st w) :
    Prog.Sat (committer H pid F U P) (fun ok v => Validated pid F U P [] st v ∧
      (ok = true → Imaged pid F U P st v)) (perform (Op.storeIndex U bi) : Proc Done) w := by
  refine Prog.sat_perform (fun v hv => ?_)
  have hJ := fun K => @carried_validated H pid F U P K st
  have hv' := (hJ _).stable _ _ h hv
  have hp : Permit F P Advance (.storeIndex U bi) v := fun hU => validated_permit hv' hU
  have hw : (owner U F).Writes F (.storeIndex U bi) v :=
    writes_owner (fun hw => by simpa [Op.writesFor] using hw)
  refine ⟨⟨hp, (hJ _).locked _ _ hv', hw⟩, fun c _ u hu => ?_⟩
  obtain ⟨hheld, hst, hown⟩ := hv'
  have hheld' := exec_held (H := H) hheld hp (by simp) (by simp) c
  have hpast : (exec H pid (.storeIndex U bi) c v).2.past F = v.past F := exec_past rfl c
  have hval : Validated pid F U P [] st (exec H pid (.storeIndex U bi) c v).2 := by
    refine ⟨hheld', hst, fun hU => ?_⟩
    rw [hpast]
    exact ⟨(hown hU).1, (hown hU).2.1, by simp⟩
  refine ⟨(hJ _).stable _ _ hval hu, fun hok => ?_⟩
  refine (carried_imaged _).stable _ _ ⟨hval, ?_⟩ hu
  rintro rfl
  let v' := v.setDir U { v.dir U with before := some (((v.dir U).before).getD []), index := some bi }
  have hworld : (exec H pid (.storeIndex U bi) c v).2 = (faulty c.fault v v').2 := rfl
  rw [hworld]
  rcases faulty_cases c.fault v v' with ⟨-, hno⟩ | hw
  · have hok' : (faulty c.fault v v').1 = true := hok
    rw [hno] at hok'
    exact Bool.noConfusion hok'
  · rw [hw]
    refine ⟨bi, by simp [v'], fun name r hmem hex => ?_⟩
    have hleaf : r.file ∈ imageLeaves bi.files :=
      List.mem_map.mpr ⟨(name, r), List.mem_filter.mpr ⟨hmem, hex⟩, rfl⟩
    simpa [v'] using (hown rfl).2.2 _ hleaf

theorem Validated.unstarted {K : List Leaf} {st : State} (h : Validated pid F U P K st w) :
    Unstarted F U P st w := by
  obtain ⟨hheld, rfl, hown⟩ := h
  exact ⟨hheld.1, rfl, fun hU => ⟨(hown hU).1, Or.inr (hown hU).2.1⟩⟩

theorem saves_imaged : Saves F U P (Imaged pid F U P) := by
  rintro st m w ⟨hval, hsaved⟩ hid hm
  have huns := hval.unstarted
  obtain ⟨hheld, rfl, hown⟩ := hval
  have hp : Permit F P Advance (.storeMeta U m) w :=
    permit_unstarted huns hid (by rw [hm]; rfl) (by rw [hm]; exact Advance.refl _)
  refine ⟨hp, ⟨held_writeMeta hp hheld, rfl, ?_⟩, ?_⟩
  · rintro rfl
    have hlast : lastState ((w.writeMeta U m).past U) = some .validated := by
      rw [past_writeMeta, ← hm]
      rfl
    exact ⟨((unstarted_writeMeta huns hp (by rw [hm]; rfl)).2.2 rfl).1, hlast, by simp⟩
  · rintro rfl
    rw [World.writeMeta_dir_self]
    exact hsaved rfl

/-- What has to be said about a transaction with its materials to save its meta. -/
theorem permit_imaged {st : State} {m : Meta} (h : Imaged pid F U P st w) (hid : m.txid = U)
    (hedge : Advance st m.state) : Permit F P Advance (.storeMeta U m) w := by
  intro hU
  obtain ⟨hdirty, hlast, -⟩ := h.1.2.2 hU
  refine ⟨hid.trans hU, ?_, fun _ => h.2 hU, Or.inr ?_⟩
  · intro hd
    rw [hdirty] at hd
    exact Bool.noConfusion hd
  · intro s hs
    rw [hlast] at hs
    cases hs
    exact hedge

/-- What a raise out of the locked part leaves for `commit` to deal with: the lock rule,
and, when the exception makes `commit` abort an unstarted transaction, what aborting
needs. -/
def Refusable (pid : Pid) (F U : Txid) (P : Prop) (e : Exn) (s : Tx) (w : World) : Prop :=
  Guarded pid F U P w ∧ (e = .busy ∨ e = .refused → s.state.unstarted = true →
    At U (Unstarted F U P) s w)

theorem refusable_stable (e : Exn) (s : Tx) (h : Refusable pid F U P e s w)
    (hr : (committer H pid F U P).rely w w') : Refusable pid F U P e s w' :=
  ⟨carried_guarded.stable _ _ h.1 hr, fun he hs => at_stable carried_unstarted _ _ _ (h.2 he hs) hr⟩

theorem At.refusable {J : State → World → Prop} (hheld : ∀ st w, J st w → Held pid F P w)
    (huns : ∀ st w, J st w → Unstarted F U P st w) (e : Exn) {s : Tx} (h : At U J s w) :
    Refusable pid F U P e s w :=
  ⟨(hheld _ _ h.2.2).guarded, fun _ _ => ⟨h.1, h.2.1, huns _ _ h.2.2⟩⟩

theorem meets_saveBefore {s : Tx} (h : At U (Validated pid F U P []) s w) :
    Meets (committer H pid F U P) (saveBefore H) s w (fun r s' v => match r with
      | .ok _ => At U (Imaged pid F U P) s' v
      | .error _ => At U (Validated pid F U P []) s' v) := by
  have hJ := fun K => @carried_validated H pid F U P K
  have hraise : ∀ {K : List Leaf} {e : Exn} {s : Tx} {v : World},
      At U (Validated pid F U P K) s v → Meets (committer H pid F U P)
        (raise e : TxM Unit) s v (fun r s' v => match r with
          | .ok _ => At U (Imaged pid F U P) s' v
          | .error _ => At U (Validated pid F U P []) s' v) := by
    intro K e s v hv
    refine meets_raise (fun u hu => ?_)
    obtain ⟨h1, h2, h3⟩ := at_stable (hJ K) _ _ _ hv hu
    exact ⟨h1, h2, h3.weaken (by simp)⟩
  unfold saveBefore
  refine meets_self_bind ?_
  refine meets_bind (meets_saveFiles _ [] s w h) ?_ (fun e s' v hv => hraise hv)
  intro files s' v hv
  have hv' : At U (Validated pid F U P (imageLeaves files)) s' v := by simpa using hv
  refine meets_bind (keeps_saveServices (hJ _) _ s' v hv') ?_ (fun e s' v hv => hraise hv)
  intro services s' v hv
  refine meets_bind (keeps_quiet (carried_at (hJ _)) (quiet_saveSysctl _) s' v hv) ?_
    (fun e s' v hv => hraise hv)
  intro sysctl s' v hv
  refine meets_bind (keeps_quiet (carried_at (hJ _)) (quiet_saveNft H _) s' v hv) ?_
    (fun e s' v hv => hraise hv)
  rintro nft s' v ⟨h1, h2, h3⟩
  -- with the index the images count as saved
  refine meets_bind (meets_must (hJ [] s'.state) (carried_imaged s'.state) ?_) ?_ ?_
  · rw [h.1]
    exact sat_storeIndex h3
  · rintro _ s' u ⟨rfl, -, hok⟩
    refine meets_assign_bind ?_
    have hsave := keeps_saveMeta (H := H) (@carried_imaged H pid F U P) saves_imaged
    refine Meets.mono (hsave _ u ?_) ?_
    · exact ⟨h1, h2, hok rfl⟩
    · intro r s'' x hx
      cases r with
      | ok _ => exact hx
      | error e => exact ⟨hx.1, hx.2.1, hx.2.2.1⟩
  · rintro e s' u ⟨rfl, hu, -⟩
    exact hraise (K := []) ⟨h1, h2, hu⟩

theorem meets_takeBefore {s : Tx} (h : At U (Preparing pid F U P) s w) :
    Meets (committer H pid F U P) (takeBefore H) s w (fun r s' v => match r with
      | .ok _ => At U (Imaged pid F U P) s' v
      | .error e => Refusable pid F U P e s' v) := by
  obtain ⟨h1, h2, h3⟩ := h
  unfold takeBefore
  refine meets_bind (meets_setState (carried_preparing s.state)
    (carried_validated [] .validated) h1 h2 h3 ?_ ?_) ?_ ?_
  · rintro m v ⟨-, -, huns⟩ hid hm hall
    exact permit_unstarted huns hid (by rw [hm]; rfl) (by rw [hm]; exact Advance.of_allowed hall)
  · rintro m v ⟨hheld, -, huns⟩ hid hm hall
    have hp : Permit F P Advance (.storeMeta U m) v :=
      permit_unstarted huns hid (by rw [hm]; rfl) (by rw [hm]; exact Advance.of_allowed hall)
    refine ⟨held_writeMeta hp hheld, rfl, ?_⟩
    rintro rfl
    have hlast : lastState ((v.writeMeta U m).past U) = some .validated := by
      rw [past_writeMeta, ← hm]
      rfl
    exact ⟨((unstarted_writeMeta huns hp (by rw [hm]; rfl)).2.2 rfl).1, hlast, by simp⟩
  · rintro _ s' v ⟨g1, g2, ⟨hr, -⟩ | ⟨hst, ⟨hr, -⟩ | hv⟩⟩
    · cases hr
    · cases hr
    · have hat : At U (Validated pid F U P []) s' v := ⟨g1, g2, by rw [hst]; exact hv⟩
      refine meets_tryCatch (meets_saveBefore hat) ?_ ?_
      · intro _ s'' u hu
        exact meets_ret (fun x hx => at_stable carried_imaged _ _ _ hu hx)
      · intro e s'' u hu
        refine meets_raise (fun x hx => ?_)
        exact At.refusable (fun _ _ hx => hx.1) (fun _ _ hx => Validated.unstarted hx) _
          (at_stable (carried_validated []) _ _ _ hu hx)
  · rintro e s' v ⟨g1, g2, ⟨hr, hst, hv⟩ | ⟨hst, ⟨hr, hv⟩ | hv⟩⟩
    · refine meets_raise (fun u hu => refusable_stable e s' ⟨hv.1.guarded, fun he => ?_⟩ hu)
      cases hr
      simp at he
    · refine meets_raise (fun u hu => refusable_stable e s' ⟨hv.1.guarded, fun he => ?_⟩ hu)
      cases hr
      simp at he
    · refine meets_raise (fun u hu => refusable_stable e s' ⟨hv.1.guarded, fun _ _ => ?_⟩ hu)
      exact ⟨g1, g2, by rw [hst]; exact hv.unstarted⟩

/-! ### From APPLYING on -/

/-- Touching production on behalf of a transaction under way. -/
theorem touch_working {st : State} {T : Txid} {p : Path} {n : Node} (h : Working pid F U P st w)
    (hinv : Inv F P (w.touch T p n)) : Working pid F U P st (w.touch T p n) := by
  obtain ⟨hheld, hst, hown⟩ := h
  obtain ⟨hdir, hlast⟩ := touch_keeps (w := w) (F := F) (T := T) p n
  refine ⟨⟨hinv, hheld.2⟩, hst, fun hU => ⟨(hown hU).1.congr_dir hdir, ?_⟩⟩
  rw [hlast]
  exact (hown hU).2

theorem touch_restoring {st : State} {T : Txid} {p : Path} {n : Node}
    (h : Restoring pid F U P st w) (hinv : Inv F P (w.touch T p n)) :
    Restoring pid F U P st (w.touch T p n) := by
  obtain ⟨hheld, hst, hown⟩ := h
  obtain ⟨hdir, hlast⟩ := touch_keeps (w := w) (F := F) (T := T) p n
  refine ⟨⟨hinv, hheld.2⟩, hst, fun hU => ⟨(hown hU).1.congr_dir hdir, ?_⟩⟩
  rw [hlast]
  exact (hown hU).2

theorem keeps_applyOne (p : Name × Target) :
    Keeps (committer H pid F U P) (At U (Working pid F U P)) (applyOne p) := by
  have hJ := @carried_working H pid F U P
  have hwrite : ∀ e : Op, ((∃ p data mode owner, e = .replaceTarget U p data mode owner) ∨
      ∃ p, e = .unlinkTarget U p) → ∀ st w, Working pid F U P st w →
      Prog.Sat (committer H pid F U P) (fun _ v => Working pid F U P st v) (perform e) w :=
    fun e he st w h => sat_touching (hJ st) (fun v hv hU => (hv.2.2 hU).1) (fun _ _ _ hU => hU)
      (fun v p n hv hinv => touch_working hv hinv) he h
  unfold applyOne
  refine keeps_self_bind (fun t ht => ?_)
  rw [ht]
  split
  · split
    · exact keeps_must hJ (hwrite _ (Or.inr ⟨_, rfl⟩))
    · exact keeps_ret (at_stable hJ) ()
  · split
    · exact keeps_must hJ (hwrite _ (Or.inl ⟨_, _, _, _, rfl⟩))
    · split
      · exact keeps_must hJ (hwrite _ (Or.inl ⟨_, _, _, _, rfl⟩))
      · exact keeps_must hJ (hwrite _ (Or.inl ⟨_, _, _, _, rfl⟩))

theorem keeps_saveMeta_working :
    Keeps (committer H pid F U P) (At U (Working pid F U P)) saveMeta :=
  keeps_saveMeta carried_working saves_working

theorem quiet_observeUnits (base : Dict Gate Bool) (exp : Dict ServiceUnit Want)
    (us : List ServiceUnit) : Quiet (observeUnits base exp us) := by
  induction us with
  | nil => exact Prog.only_ret _
  | cons u rest ih =>
      unfold observeUnits
      refine Prog.Only.bind ?_ (fun ok => ?_)
      · split
        · exact quiet_svcInactiveStable u
        · exact quiet_svcStable u
      · split
        · exact ih
        · exact Prog.only_ret _

theorem keeps_observe (base : Dict Gate Bool) :
    Keeps (committer H pid F U P) (At U (Working pid F U P)) (observe base) := by
  have hJ := @carried_working H pid F U P
  unfold observe
  refine keeps_self_bind (fun t _ => ?_)
  refine (keeps_quiet (carried_at hJ) (quiet_observeUnits _ _ _)).bind (at_stable hJ) (fun good => ?_)
  split
  · refine (keeps_quiet (carried_at hJ) (quiet_healthSnapshot _ _)).bind (at_stable hJ) (fun after => ?_)
    exact keeps_saveMeta_working.bind (at_stable hJ) (fun _ => keeps_ret (at_stable hJ) _)
  · exact keeps_ret (at_stable hJ) _

theorem Working.lagging {st : State} (h : Working pid F U P st w) : Lagging pid F U P st w :=
  ⟨h.1, h.2.1, fun hU => ⟨(h.2.2 hU).1, Or.inl (h.2.2 hU).2⟩⟩

/-- The edges out of a transaction under way, as seen from the disk. -/
theorem lagging_edge {st new : State} (h : Lagging pid F U P st w)
    (hall : st.allowed.contains new = true) (hnew : new ≠ .committed) (hU : U = F) :
    ∀ s, lastState (w.past F) = some s → Advance s new := by
  intro s hs
  rcases (h.2.2 hU).2 with hlast | ⟨rfl, hlast⟩
  · rw [hlast] at hs
    cases hs
    exact Advance.of_allowed hall
  · rw [hlast] at hs
    cases hs
    -- OBSERVING did not reach the disk: what leaves it also leaves APPLYING
    cases new with
    | rollingBack => exact Advance.of_allowed rfl
    | committed => exact absurd rfl hnew
    | _ => simp [State.allowed] at hall

theorem meets_applyAll (base : Dict Gate Bool) {s : Tx} (h : At U (Working pid F U P) s w) :
    Meets (committer H pid F U P) (applyAll H base) s w (fun r s' v => match r with
      | .ok _ => At U (Working pid F U P) s' v
      | .error _ => At U (Lagging pid F U P) s' v) := by
  have hJ := @carried_working H pid F U P
  have hraise : ∀ {e : Exn} {s : Tx} {v : World}, At U (Working pid F U P) s v →
      Meets (committer H pid F U P) (raise e : TxM Unit) s v (fun r s' v => match r with
        | .ok _ => At U (Working pid F U P) s' v
        | .error _ => At U (Lagging pid F U P) s' v) := by
    intro e s v hv
    refine meets_raise (fun u hu => ?_)
    obtain ⟨h1, h2, h3⟩ := at_stable hJ _ _ _ hv hu
    exact ⟨h1, h2, h3.lagging⟩
  unfold applyAll
  refine meets_self_bind ?_
  refine meets_bind (Keeps.each (at_stable hJ) (fun p => keeps_applyOne p) _ s w h) ?_
    (fun e s v hv => hraise hv)
  rintro _ s v ⟨g1, g2, g3⟩
  refine meets_assign_bind ?_
  refine meets_bind (keeps_saveMeta_working _ v ⟨g1, g2, g3⟩) ?_ (fun e s v hv => hraise hv)
  intro _ s v hv
  refine meets_bind (keeps_quiet (carried_at hJ) (quiet_doActions H _) s v hv) ?_ (fun e s v hv => hraise hv)
  intro ok s v hv
  refine meets_bind (keeps_require (carried_at hJ) _ _ s v hv) ?_ (fun e s v hv => hraise hv)
  rintro _ s v ⟨g1, g2, g3⟩
  -- all is in place: what follows is observed, and can still be rolled back
  refine meets_bind (meets_setState (hJ s.state) (hJ .observing) g1 g2 g3 ?_ ?_) ?_ ?_
  · intro m u hu hid hm hall
    refine permit_hot (fun hU => (hu.2.2 hU).1) (fun _ => hid) (Or.inl (by rw [hm]; rfl)) (fun hU => ?_)
    rw [hm]
    exact lagging_edge hu.lagging hall (by simp) hU
  · intro m u hu hid hm hall
    have hp : Permit F P Advance (.storeMeta U m) u := by
      refine permit_hot (fun hU => (hu.2.2 hU).1) (fun _ => hid) (Or.inl (by rw [hm]; rfl)) (fun hU => ?_)
      rw [hm]
      exact lagging_edge hu.lagging hall (by simp) hU
    refine ⟨held_writeMeta hp hu.1, Or.inr rfl, ?_⟩
    rintro rfl
    refine ⟨hot_writeMeta (hu.2.2 rfl).1 (by rw [hm]; rfl), ?_⟩
    rw [past_writeMeta, ← hm]
    rfl
  · rintro _ s' u ⟨k1, k2, ⟨hr, -⟩ | ⟨hst, ⟨hr, -⟩ | hu⟩⟩
    · cases hr
    · cases hr
    · have hat : At U (Working pid F U P) s' u := ⟨k1, k2, by rw [hst]; exact hu⟩
      refine meets_bind (keeps_observe base s' u hat) ?_ (fun e s v hv => hraise hv)
      intro good s'' x hx
      refine (keeps_require (carried_at hJ) _ _ s'' x hx).mono ?_
      intro r t y hy
      cases r with
      | ok _ => exact hy
      | error e => exact ⟨hy.1, hy.2.1, hy.2.2.lagging⟩
  · rintro e s' u ⟨k1, k2, ⟨-, hst, hu⟩ | ⟨hst, ⟨-, hu⟩ | hu⟩⟩
    · exact hraise ⟨k1, k2, by rw [hst]; exact hu⟩
    · -- the write failed: the object is ahead of the disk
      refine meets_raise (fun x hx => ?_)
      obtain ⟨hheld, hcur, hown⟩ := (hJ _).stable _ _ hu hx
      refine ⟨k1, k2, ?_⟩
      rw [hst]
      refine ⟨hheld, Or.inr rfl, fun hU => ⟨(hown hU).1, ?_⟩⟩
      rcases hcur with hc | hc
      · exact Or.inr ⟨rfl, by rw [← hc]; exact (hown hU).2⟩
      · exact Or.inl (by rw [← hc]; exact (hown hU).2)
    · exact hraise ⟨k1, k2, by rw [hst]; exact hu⟩

/-! ### The ends -/

theorem carried_ended (st : State) : Carried H pid F P (owner U F) (Ended F U P st) :=
  (removable_ended st).toCarried

theorem removing_collect {T : Txid} {ι β : Type} {f : ι → Proc (List β)}
    (hf : ∀ x, Removing T (f x)) (xs : List ι) : Removing T (Prog.collect f xs) :=
  Prog.Only.collect hf xs

theorem keeps_cleanupMaterials :
    Keeps (committer H pid F U P) (At U (Ended F U P)) cleanupMaterials := by
  unfold cleanupMaterials
  refine keeps_self_bind (fun t ht => ?_)
  split
  · refine keeps_call ?_
    rintro s w ⟨h1, h2, h3⟩
    have hrem : Removing t.txid (Prog.collect (cleanupSub t.txid) [.candidate, .before]) :=
      removing_collect (fun s => removing_cleanupSub _ s) _
    refine (sat_removing (removable_ended _) hrem h3 (fun hT => ?_)).mono ?_
    · exact h3.settled (ht.symm.trans hT)
    · exact fun _ v hv u hu => ⟨h1, h2, (carried_ended _).stable _ _ hv hu⟩
  · exact keeps_ret (at_stable carried_ended) _

theorem keeps_noteLeftovers (left : List Sub) :
    Keeps (committer H pid F U P) (At U (Ended F U P)) (noteLeftovers left) := by
  unfold noteLeftovers
  split
  · exact keeps_ret (at_stable carried_ended) ()
  · exact (keeps_saveMeta carried_ended saves_ended).tryCatch (at_stable carried_ended)
      (fun _ => keeps_ret (at_stable carried_ended) ())

theorem keeps_gc : Keeps (committer H pid F U P) (At U (Ended F U P)) (call (gc H) : TxM Unit) := by
  refine keeps_call ?_
  rintro s w ⟨h1, h2, h3⟩
  refine (sat_gc (removable_ended _) h3).mono ?_
  exact fun _ v hv u hu => ⟨h1, h2, (carried_ended _).stable _ _ hv hu⟩

theorem keeps_settle : Keeps (committer H pid F U P) (At U (Ended F U P)) (settle H) := by
  have hS := at_stable (@carried_ended H pid F U P)
  unfold settle
  refine keeps_cleanupMaterials.bind hS (fun left => ?_)
  refine (keeps_noteLeftovers left).bind hS (fun _ => ?_)
  refine keeps_gc.bind hS (fun _ => ?_)
  exact keeps_self_bind (fun t _ => keeps_ret hS _)

/-- After the locked part: the lock rule holds, and an exception can be dealt with. -/
def Left (pid : Pid) (F U : Txid) (P : Prop) (r : Except Exn State) (s : Tx) (w : World) : Prop :=
  Guarded pid F U P w ∧ ∀ e, r = .error e → Refusable pid F U P e s w

theorem left_stable (r : Except Exn State) (s : Tx) (h : Left pid F U P r s w)
    (hr : (committer H pid F U P).rely w w') : Left pid F U P r s w' :=
  ⟨carried_guarded.stable _ _ h.1 hr, fun e he => refusable_stable e s (h.2 e he) hr⟩

/-- Once a transaction is past VALIDATED there is nothing left to abort. -/
theorem left_of_started {r : Except Exn State} {s : Tx} (h : Guarded pid F U P w)
    (hst : s.state.unstarted = false) : Left pid F U P r s w :=
  ⟨h, fun _ _ => ⟨h, fun _ hu => by rw [hst] at hu; cases hu⟩⟩

theorem ended_not_unstarted {st : State} (h : st.gcTerminal = true) : st.unstarted = false := by
  cases st <;> simp_all [State.gcTerminal, State.unstarted]

theorem working_not_unstarted {st : State} (h : st = .applying ∨ st = .observing) :
    st.unstarted = false := by
  rcases h with rfl | rfl <;> rfl

theorem meets_settle {s : Tx} (h : At U (Ended F U P) s w) :
    Meets (committer H pid F U P) (settle H) s w (Left pid F U P) := by
  refine (keeps_settle s w h).mono ?_
  rintro r s' v ⟨-, -, hv⟩
  exact left_of_started hv.guarded (ended_not_unstarted hv.2.1)

theorem meets_finish {s : Tx} (h : At U (Working pid F U P) s w) :
    Meets (committer H pid F U P) (finish H) s w (Left pid F U P) := by
  obtain ⟨h1, h2, h3⟩ := h
  have hedge : ∀ v, Working pid F U P s.state v → s.state.allowed.contains .committed = true →
      ∀ m : Meta, m.txid = U → m.state = .committed → Permit F P Advance (.storeMeta U m) v := by
    intro v hv hall m hid hm
    refine permit_hot (fun hU => (hv.2.2 hU).1) (fun _ => hid) (Or.inr (Or.inl hm)) (fun hU s hs => ?_)
    rw [(hv.2.2 hU).2] at hs
    cases hs
    rw [hm]
    exact Advance.of_allowed hall
  unfold finish
  refine meets_bind (meets_setState (carried_working s.state) (carried_ended .committed) h1 h2 h3
    (fun m v hv hid hm hall => hedge v hv hall m hid hm) ?_) ?_ ?_
  · intro m v hv hid hm hall
    refine ⟨hv.1.1.advanceMeta (hedge v hv hall m hid hm), rfl, ?_⟩
    rintro rfl
    rw [past_writeMeta, ← hm]
    rfl
  · rintro _ s' v ⟨k1, k2, ⟨hr, -⟩ | ⟨hst, ⟨hr, -⟩ | hv⟩⟩
    · cases hr
    · cases hr
    · have hat : At U (Ended F U P) s' v := ⟨k1, k2, by rw [hst]; exact hv⟩
      refine meets_bind (keeps_saveMeta carried_ended saves_ended s' v hat) ?_ ?_
      · exact fun _ s'' u hu => meets_settle hu
      · rintro e s'' u ⟨-, -, hu⟩
        exact meets_raise (fun x hx => left_stable _ _
          (left_of_started hu.guarded (ended_not_unstarted hu.2.1)) hx)
  · rintro e s' v ⟨k1, k2, ⟨-, hst, hv⟩ | ⟨hst, ⟨-, hv⟩ | hv⟩⟩
    · refine meets_raise (fun x hx => left_stable _ _ (left_of_started hv.1.guarded ?_) hx)
      rw [hst]
      exact working_not_unstarted hv.2.1
    · exact meets_raise (fun x hx => left_stable _ _
        (left_of_started hv.1.guarded (by rw [hst]; rfl)) hx)
    · exact meets_raise (fun x hx => left_stable _ _
        (left_of_started hv.guarded (by rw [hst]; rfl)) hx)

theorem sat_restoreAll {st : State} {T : Txid} (hT : T = U) (files : Dict Name BeforeRec)
    (ps : List (Name × Target)) (h : Restoring pid F U P st w) :
    Prog.Sat (committer H pid F U P) (fun _ v => Restoring pid F U P st v)
      (restoreAll T files ps) w := by
  subst hT
  have hJ := @carried_restoring H pid F T P st
  have hret : ∀ {b : Bool} {v : World}, Restoring pid F T P st v →
      Prog.Sat (committer H pid F T P) (fun _ v => Restoring pid F T P st v) (.ret b) v :=
    fun hv u hu => hJ.stable _ _ hv hu
  have hwrite : ∀ e : Op, ((∃ p data mode owner, e = .replaceTarget T p data mode owner) ∨
      ∃ p, e = .unlinkTarget T p) → ∀ w, Restoring pid F T P st w →
      Prog.Sat (committer H pid F T P) (fun _ v => Restoring pid F T P st v) (perform e) w :=
    fun e he w h => sat_touching hJ (fun v hv hU => (hv.2.2 hU).1) (fun _ _ _ hU => hU)
      (fun v p n hv hinv => touch_restoring hv hinv) he h
  induction ps generalizing w with
  | nil => exact hret h
  | cons p rest ih =>
      unfold restoreAll
      refine Prog.Sat.seq (M := fun _ v => Restoring pid F T P st v) ?_ ?_
      · unfold restoreOne
        split
        · refine Prog.Sat.seq (sat_quiet_perform hJ rfl h) (fun data v hv => ?_)
          cases data with
          | none => exact hret hv
          | some data => exact hwrite _ (Or.inl ⟨_, _, _, _, rfl⟩) v hv
        · refine Prog.Sat.seq (sat_quiet_perform hJ rfl h) (fun there v hv => ?_)
          cases there with
          | false => exact hret hv
          | true => exact hwrite _ (Or.inr ⟨_, rfl⟩) v hv
      · exact fun ok v hv => Prog.Sat.seq (ih hv) (fun others u hu => hret hu)

theorem keeps_verifyAll {J : State → World → Prop}
    (hJ : ∀ st, Carried H pid F P (owner U F) (J st)) (files : Dict Name BeforeRec)
    (ps : List (Name × Target)) :
    Keeps (committer H pid F U P) (At U J) (verifyAll H files ps) := by
  induction ps with
  | nil => exact keeps_ret (at_stable hJ) _
  | cons p rest ih =>
      unfold verifyAll
      refine (keeps_readTarget (carried_at hJ) _).bind (at_stable hJ) (fun cur => ?_)
      exact ih.bind (at_stable hJ) (fun others => keeps_ret (at_stable hJ) _)

theorem meets_rollback {s : Tx} (h : At U (Lagging pid F U P) s w) :
    Meets (committer H pid F U P) (rollback H) s w (Left pid F U P) := by
  have hJ := @carried_restoring H pid F U P
  obtain ⟨h1, h2, h3⟩ := h
  have hraise : ∀ {e : Exn} {s : Tx} {v : World}, Guarded pid F U P v →
      s.state.unstarted = false →
      Meets (committer H pid F U P) (raise e : TxM State) s v (Left pid F U P) :=
    fun hv hst => meets_raise (fun x hx => left_stable _ _ (left_of_started hv hst) hx)
  have hrestoring : ∀ {e : Exn} {s : Tx} {v : World}, At U (Restoring pid F U P) s v →
      Meets (committer H pid F U P) (raise e : TxM State) s v (Left pid F U P) :=
    fun hv => hraise hv.2.2.1.guarded (by rw [hv.2.2.2.1]; rfl)
  unfold rollback
  refine meets_assign_bind ?_
  -- ROLLING_BACK is written before anything is restored
  refine meets_bind (meets_setState (carried_lagging s.state) (hJ .rollingBack) h1 h2 h3 ?_ ?_)
    ?_ ?_
  · intro m v hv hid hm hall
    refine permit_hot (fun hU => (hv.2.2 hU).1) (fun _ => hid) (Or.inl (by rw [hm]; rfl)) (fun hU => ?_)
    rw [hm]
    exact lagging_edge hv hall (by simp) hU
  · intro m v hv hid hm hall
    have hp : Permit F P Advance (.storeMeta U m) v := by
      refine permit_hot (fun hU => (hv.2.2 hU).1) (fun _ => hid) (Or.inl (by rw [hm]; rfl)) (fun hU => ?_)
      rw [hm]
      exact lagging_edge hv hall (by simp) hU
    refine ⟨held_writeMeta hp hv.1, rfl, ?_⟩
    rintro rfl
    refine ⟨hot_writeMeta (hv.2.2 rfl).1 (by rw [hm]; rfl), ?_⟩
    rw [past_writeMeta, ← hm]
    rfl
  · rintro _ s' v ⟨k1, k2, ⟨hr, -⟩ | ⟨hst, ⟨hr, -⟩ | hv⟩⟩
    · cases hr
    · cases hr
    refine meets_self_bind ?_
    refine meets_call_bind (sat_restoreAll k1 _ _ hv) (fun files v hv => ?_)
    refine meets_call_bind (sat_quiet (hJ _) (quiet_restoreRuntime H _) hv) (fun runtime v hv => ?_)
    have hat : At U (Restoring pid F U P) s' v := ⟨k1, k2, by rw [hst]; exact hv⟩
    refine meets_bind (keeps_verifyAll hJ _ _ s' v hat) ?_ (fun e s v hv => hrestoring hv)
    rintro verified s'' u ⟨g1, g2, g3⟩
    refine meets_assign_bind ?_
    -- from ROLLING_BACK both ends are allowed
    have hperm : ∀ (m : Meta) (v : World), Restoring pid F U P s''.state v → m.txid = U →
        m.state = .rolledBack ∨ m.state = .rollbackFailed → Permit F P Advance (.storeMeta U m) v := by
      intro m v hv hid hm
      refine permit_hot (fun hU => (hv.2.2 hU).1) (fun _ => hid) ?_ (fun hU s hs => ?_)
      · rcases hm with hm | hm
        · exact Or.inr (Or.inr hm)
        · exact Or.inl (by rw [hm]; rfl)
      · rw [(hv.2.2 hU).2, hv.2.1] at hs
        cases hs
        refine Or.inl ?_
        rcases hm with hm | hm <;> simp [hm, State.allowed]
    split
    · refine meets_bind (meets_setState (hJ s''.state) (carried_ended .rolledBack) g1 g2 g3
        (fun m v hv hid hm _ => hperm m v hv hid (Or.inl hm)) ?_) ?_ ?_
      · intro m v hv hid hm hall
        refine ⟨hv.1.1.advanceMeta (hperm m v hv hid (Or.inl hm)), rfl, ?_⟩
        rintro rfl
        rw [past_writeMeta, ← hm]
        rfl
      · rintro _ t x ⟨j1, j2, ⟨hr, -⟩ | ⟨hst', ⟨hr, -⟩ | hx⟩⟩
        · cases hr
        · cases hr
        · exact meets_settle ⟨j1, j2, by rw [hst']; exact hx⟩
      · rintro e t x ⟨j1, j2, ⟨-, hst', hx⟩ | ⟨hst', ⟨-, hx⟩ | hx⟩⟩
        · exact hrestoring ⟨j1, j2, by rw [hst']; exact hx⟩
        · exact hraise hx.1.guarded (by rw [hst']; rfl)
        · exact hraise hx.guarded (by rw [hst']; rfl)
    · refine meets_bind (meets_setState (hJ s''.state) (removable_held (R := owner U F)).toCarried
        g1 g2 g3 (fun m v hv hid hm _ => hperm m v hv hid (Or.inr hm)) ?_) ?_ ?_
      · exact fun m v hv hid hm _ => held_writeMeta (hperm m v hv hid (Or.inr hm)) hv.1
      · rintro _ t x ⟨j1, j2, ⟨hr, -⟩ | ⟨hst', ⟨hr, -⟩ | hx⟩⟩
        · cases hr
        · cases hr
        · exact meets_ret (fun y hy => left_stable _ _
            (left_of_started hx.guarded (by rw [hst']; rfl)) hy)
      · rintro e t x ⟨j1, j2, ⟨-, hst', hx⟩ | ⟨hst', ⟨-, hx⟩ | hx⟩⟩
        · exact hrestoring ⟨j1, j2, by rw [hst']; exact hx⟩
        · exact hraise hx.1.guarded (by rw [hst']; rfl)
        · exact hraise hx.guarded (by rw [hst']; rfl)
  -- ROLLING_BACK could not be written
  · rintro e s' v ⟨k1, k2, ⟨-, hst, hv⟩ | ⟨hst, ⟨-, hv⟩ | hv⟩⟩
    · refine hraise hv.1.guarded ?_
      rw [hst]
      exact working_not_unstarted hv.2.1
    · exact hraise hv.1.guarded (by rw [hst]; rfl)
    · exact hraise hv.1.guarded (by rw [hst]; rfl)

/-! ### `commit` -/

theorem Refusable.left {e : Exn} {s : Tx} (h : Refusable pid F U P e s w) :
    Left pid F U P (.error e) s w := ⟨h.1, fun _ he => by cases he; exact h⟩

theorem meets_commitLocked {s : Tx} (h : At U (Preparing pid F U P) s w) :
    Meets (committer H pid F U P) (commitLocked H) s w (Left pid F U P) := by
  have hrefuse : ∀ {e : Exn} {s : Tx} {v : World}, Refusable pid F U P e s v →
      Meets (committer H pid F U P) (raise e : TxM State) s v (Left pid F U P) :=
    fun hv => meets_raise (fun x hx => (refusable_stable _ _ hv hx).left)
  unfold commitLocked
  refine meets_bind (keeps_preflight s w h) ?_ ?_
  · intro base s v hv
    refine meets_bind (meets_takeBefore hv) ?_ (fun e s v hv => hrefuse hv)
    rintro _ s v ⟨h1, h2, h3⟩
    refine meets_bind (meets_setState (carried_imaged s.state) (carried_working .applying) h1 h2 h3
      ?_ ?_) ?_ ?_
    · intro m u hu hid hm hall
      exact permit_imaged hu hid (by rw [hm]; exact Advance.of_allowed hall)
    · intro m u hu hid hm hall
      have hp : Permit F P Advance (.storeMeta U m) u :=
        permit_imaged hu hid (by rw [hm]; exact Advance.of_allowed hall)
      refine ⟨held_writeMeta hp hu.1.1, Or.inl rfl, ?_⟩
      rintro rfl
      refine ⟨⟨m, by simp [World.metaOf], by rw [hm]; rfl, ?_⟩, by rw [past_writeMeta, ← hm]; rfl⟩
      rw [World.writeMeta_dir_self]
      exact hu.2 rfl
    · rintro _ s' u ⟨k1, k2, ⟨hr, -⟩ | ⟨hst, ⟨hr, -⟩ | hu⟩⟩
      · cases hr
      · cases hr
      · have hat : At U (Working pid F U P) s' u := ⟨k1, k2, by rw [hst]; exact hu⟩
        refine meets_outcome (meets_applyAll base hat) ?_
        intro r s'' x hx
        cases r with
        | ok _ => exact meets_finish hx
        | error e => exact meets_rollback hx
    · rintro e s' u ⟨k1, k2, ⟨hr, hst, hu⟩ | ⟨hst, ⟨hr, hu⟩ | hu⟩⟩
      · refine hrefuse ⟨hu.1.1.guarded, fun he => ?_⟩
        cases hr
        simp at he
      · refine hrefuse ⟨hu.1.1.guarded, fun he => ?_⟩
        cases hr
        simp at he
      · exact meets_raise (fun x hx => left_stable _ _
          (left_of_started hu.1.guarded (by rw [hst]; rfl)) hx)
  · intro e s v hv
    exact hrefuse (At.refusable (fun _ _ hx => hx.1) (fun _ _ hx => hx.2.2) _ hv)

/-- Aborting an unstarted transaction. -/
theorem meets_abortWith {s : Tx} {cls : String} (h : At U (Unstarted F U P) s w) :
    Meets (committer H pid F U P) (abortWith cls) s w (fun _ _ _ => True) := by
  obtain ⟨h1, h2, h3⟩ := h
  have hperm : ∀ (m : Meta) (v : World), Unstarted F U P s.state v → m.txid = U →
      m.state = .aborted → Permit F P Advance (.storeMeta U m) v := by
    intro m v hv hid hm
    exact permit_unstarted hv hid (by rw [hm]; rfl) (by rw [hm]; exact Advance.aborted hv.2.1)
  unfold abortWith
  refine meets_self_bind ?_
  rw [if_pos h3.2.1]
  unfold noteError
  refine meets_assign_bind ?_
  refine meets_assign_bind ?_
  refine meets_bind (meets_saveMeta (carried_unstarted s.state) (carried_ended .aborted) h1 h3 ?_ ?_)
    ?_ (fun _ _ _ _ => meets_raise (fun _ _ => trivial))
  · intro v hv
    show Permit F P Advance (.storeMeta s.txid _) v
    rw [h1]
    exact hperm _ v hv h2 rfl
  · intro v hv
    show Ended F U P .aborted (v.writeMeta s.txid _)
    rw [h1]
    refine ⟨hv.1.advanceMeta (hperm _ v hv h2 rfl), rfl, ?_⟩
    rintro rfl
    rw [past_writeMeta]
    rfl
  · rintro _ s' v ⟨rfl, ⟨hr, -⟩ | hv⟩
    · cases hr
    · have hS := at_stable (@carried_ended H pid F U P)
      refine ((keeps_cleanupMaterials.bind hS (fun left => keeps_noteLeftovers left)) _ v ?_).mono
        (fun _ _ _ _ => trivial)
      exact ⟨h1, h2, hv⟩

theorem meets_commitFailed {e : Exn} {s : Tx}
    (h : e = .busy ∨ e = .refused → s.state.unstarted = true → At U (Unstarted F U P) s w) :
    Meets (committer H pid F U P) (commitFailed e) s w (fun _ _ _ => True) := by
  have habort : ∀ (cls : String), (e = .busy ∨ e = .refused) →
      Meets (committer H pid F U P) (abortWith cls) s w (fun _ _ _ => True) := by
    intro cls he
    cases hst : s.state.unstarted with
    | true => exact meets_abortWith (h he hst)
    | false =>
        unfold abortWith
        refine meets_self_bind ?_
        rw [if_neg (by simp [hst])]
        exact meets_ret (fun _ _ => trivial)
  have hraise : ∀ (e : Exn) (s : Tx) (w : World), Meets (committer H pid F U P)
      (raise e : TxM State) s w (fun _ _ _ => True) := fun _ _ _ => meets_raise (fun _ _ => trivial)
  cases e with
  | busy =>
      exact meets_bind (habort _ (Or.inl rfl)) (fun _ _ _ _ => hraise _ _ _)
        (fun _ _ _ _ => hraise _ _ _)
  | refused =>
      exact meets_bind (habort _ (Or.inr rfl)) (fun _ _ _ _ => hraise _ _ _)
        (fun _ _ _ _ => hraise _ _ _)
  | txError => exact hraise _ _ _
  | other => exact hraise _ _ _
  | applyFailed => exact hraise _ _ _

/-- What is known where the lock is not held: enough to abort an unstarted object. -/
theorem sat_lock {s : Tx} (h : At U (Unstarted F U P) s w) (hst : s.state = .preparing) :
    Prog.Sat (committer H pid F U P) (fun a v => At U (Unstarted F U P) s v ∧
      (a = .acquired → At U (Preparing pid F U P) s v))
      (perform Op.lock : Proc LockAnswer) w := by
  obtain ⟨h1, h2, h3⟩ := h
  refine Prog.sat_perform (fun v hv => ?_)
  have hJ := fun st => @carried_unstarted H pid F U P st
  have hv' := (hJ _).stable _ _ h3 hv
  refine ⟨⟨trivial, (hJ _).locked _ _ hv', fun hw => Bool.noConfusion hw⟩, fun c _ u hu => ?_⟩
  have huns : Unstarted F U P s.state (exec H pid .lock c v).2 := by
    refine ⟨inv_exec (e := .lock) trivial hv'.1 c, hv'.2.1, fun hU => ?_⟩
    rw [exec_past rfl]
    exact hv'.2.2 hU
  refine ⟨⟨h1, h2, (hJ _).stable _ _ huns hu⟩, fun ha => ⟨h1, h2, ?_⟩⟩
  refine (carried_preparing _).stable _ _ ⟨⟨huns.1, ?_⟩, hst, huns⟩ hu
  have ha' : (exec H pid .lock c v).1 = LockAnswer.acquired := ha
  revert ha'
  simp only [exec]
  split
  · intro ha'
    cases ha'
  · split
    · exact fun _ => rfl
    · intro ha'
      cases ha'

/-- **`commit` obeys the discipline**, judged for any transaction `F`: it performs only
permitted operations, and works on its own transaction under the lock while that needs
recovery. -/
theorem meets_commit {s : Tx} (h : At U (Unstarted F U P) s w) (hst : s.state = .preparing) :
    Meets (committer H pid F U P) (commit H) s w (fun _ _ _ => True) := by
  have hS := at_stable (@carried_unstarted H pid F U P)
  unfold commit
  refine meets_tryCatch (M := fun r s v => ∀ e, r = .error e →
    e = .busy ∨ e = .refused → s.state.unstarted = true → At U (Unstarted F U P) s v) ?_
    (fun _ _ _ _ => meets_ret (fun _ _ => trivial))
    (fun e s v hv => meets_commitFailed (hv e rfl))
  unfold withLock
  refine meets_call_bind (sat_lock h hst) ?_
  rintro a v ⟨huns, hacq⟩
  have hraise : ∀ e : Exn, Meets (committer H pid F U P) (raise e : TxM State) s v
      (fun r s v => ∀ e, r = .error e → e = .busy ∨ e = .refused → s.state.unstarted = true →
        At U (Unstarted F U P) s v) :=
    fun e => meets_raise (fun u hu _ _ _ _ => hS _ _ _ huns hu)
  cases a with
  | unusable => exact hraise _
  | busy => exact hraise _
  | acquired =>
      refine meets_outcome (meets_commitLocked (hacq rfl)) ?_
      intro r s v hv
      refine meets_call_bind (M := fun _ v => ∀ e, r = .error e → e = .busy ∨ e = .refused →
        s.state.unstarted = true → At U (Unstarted F U P) s v) ?_ ?_
      · refine Prog.sat_perform (fun u hu => ?_)
        obtain ⟨hg, hleft⟩ := left_stable _ _ hv hu
        refine ⟨⟨trivial, hg.2, fun hw => Bool.noConfusion hw⟩, fun c _ x hx e he hbr hun => ?_⟩
        obtain ⟨h1, h2, h3⟩ := (hleft e he).2 hbr hun
        refine hS _ _ _ ⟨h1, h2, inv_exec (H := H) (e := .unlock) trivial h3.1 c, h3.2.1,
          fun hU => ?_⟩ hx
        rw [exec_past rfl]
        exact h3.2.2 hU
      · intro _ u hu
        cases r with
        | ok st => exact meets_ret (fun x _ e he => by cases he)
        | error e =>
            refine meets_raise (fun x hx e' he' hbr hun => ?_)
            cases he'
            exact hS _ _ _ (hu e rfl hbr hun) hx

end Commit

end ProxyGateway.Pdgtx
