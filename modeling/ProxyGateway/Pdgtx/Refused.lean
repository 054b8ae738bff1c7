import ProxyGateway.Pdgtx.Atomic

set_option autoImplicit false

/-!
# ProxyGateway.Pdgtx.Refused

A commit whose candidate fails a validator (`commit_refused`): it ends in `TxRefused`, with
production as it was, the transaction ABORTED and its materials gone.

Removing the materials needs every unlink to work, so the commit is judged here under the
choices without a fault; a directory listing has every name once (`World.Tidy`).
-/

namespace ProxyGateway.Pdgtx

open Method

/-! ### Directories -/

/-- The files of every material directory have distinct names. -/
def World.Tidy (w : World) : Prop :=
  ∀ T sub files, (w.dir T).sub sub = some files → Dict.Uniq files

section Tidy

variable {w : World} {T : Txid} {d : TxDir}

@[simp] theorem TxDir.sub_setSub_self (s : Sub) (v : Option (Dict Leaf Bytes)) :
    (d.setSub s v).sub s = v := by
  cases s <;> rfl

theorem TxDir.sub_setSub_ne {s s' : Sub} (h : s ≠ s') (v : Option (Dict Leaf Bytes)) :
    (d.setSub s v).sub s' = d.sub s' := by
  cases s <;> cases s' <;> first | rfl | exact absurd rfl h

/-- Putting a directory whose listings have distinct names. -/
theorem World.Tidy.setDir (h : w.Tidy)
    (hd : ∀ sub files, d.sub sub = some files → Dict.Uniq files) : (w.setDir T d).Tidy := by
  intro U sub files hsub
  by_cases hU : T = U
  · subst hU
    rw [World.dir_setDir_self] at hsub
    exact hd sub files hsub
  · rw [World.dir_setDir_ne w d hU] at hsub
    exact h U sub files hsub

/-- One listing changes. -/
theorem World.Tidy.setSub (h : w.Tidy) (s : Sub) {v : Option (Dict Leaf Bytes)}
    (hv : ∀ files, v = some files → Dict.Uniq files) : (w.setDir T ((w.dir T).setSub s v)).Tidy := by
  refine h.setDir fun sub files hsub => ?_
  by_cases hs : s = sub
  · subst hs
    rw [TxDir.sub_setSub_self] at hsub
    exact hv files hsub
  · rw [TxDir.sub_setSub_ne hs] at hsub
    exact h T sub files hsub

theorem World.Tidy.writeMeta (h : w.Tidy) (m : Meta) : (w.writeMeta T m).Tidy :=
  h.setDir (T := T) (d := { w.dir T with metaJson := some m })
    fun sub files hsub => h T sub files (by cases sub <;> exact hsub)

/-- Every operation keeps the names distinct. -/
theorem exec_tidy {H : Host} {pid : Pid} (e : Op) (c : Choice) (h : w.Tidy) :
    (exec H pid e c w).2.Tidy := by
  have hsame : ∀ (T : Txid) (d : TxDir), d.candidate = (w.dir T).candidate →
      d.before = (w.dir T).before → (w.setDir T d).Tidy := by
    intro T d hcandidate hbefore
    refine h.setDir fun sub files hsub => h T sub files ?_
    cases sub with
    | candidate => exact hcandidate.symm.trans hsub
    | before => exact hbefore.symm.trans hsub
  have hgetD : ∀ (T : Txid) (s : Sub), Dict.Uniq (((w.dir T).sub s).getD []) := by
    intro T s
    cases hs : (w.dir T).sub s with
    | none => exact List.nodup_nil
    | some files => exact h T s files hs
  -- only operations on a directory can change what is in one
  cases e with
  | lock =>
      simp only [exec]
      split
      · exact h
      · split <;> exact h
  | unlock =>
      simp only [exec]
      split <;> exact h
  | replaceTarget T p data mode owner => exact faulty_keeps _ h h
  | unlinkTarget T p => exact attempt_keeps _ _ h h
  | makeTx T =>
      refine faulty_keeps _ h (h.setDir fun sub files hsub => ?_)
      cases sub with
      | candidate =>
          cases hsub
          exact hgetD T .candidate
      | before =>
          cases hsub
          exact hgetD T .before
  | storeMeta T m => exact faulty_keeps _ h (h.writeMeta m)
  | storeDiff T => exact faulty_keeps _ h h
  | storeSub T s leaf data =>
      refine faulty_keeps _ h (h.setSub s fun files hfiles => ?_)
      cases hfiles
      exact (hgetD T s).set _ _
  | storeIndex T bi =>
      refine faulty_keeps _ h (h.setDir fun sub files hsub => ?_)
      cases sub with
      | candidate => exact h T .candidate files hsub
      | before =>
          cases hsub
          exact hgetD T .before
  | unlinkSub T s leaf =>
      refine attempt_keeps _ _ h (h.setSub s fun files hfiles => ?_)
      obtain ⟨before, hbefore, rfl⟩ := Option.map_eq_some_iff.mp hfiles
      exact (h T s before hbefore).erase _
  | unlinkIndex T => exact attempt_keeps _ _ h (hsame T _ rfl rfl)
  | rmdirSub T s => exact attempt_keeps _ _ h (h.setSub s fun files hno => (by cases hno))
  | unlinkMeta T => exact attempt_keeps _ _ h (hsame T _ rfl rfl)
  | rmdirTx T =>
      refine attempt_keeps _ _ h fun U sub files hsub => ?_
      by_cases hU : T = U
      · subst hU
        simp only [World.dir, Dict.get?_erase_self] at hsub
        cases sub <;> cases hsub
      · rw [World.dir, Dict.get?_erase_ne hU] at hsub
        exact h U sub files hsub
  | _ => exact h

end Tidy

/-! ### Removing the materials -/

/-- A process alone whose writes and removals all work. -/
abbrev smooth (H : Host) (pid : Pid) : Setting Op Op.Answer Choice World :=
  aloneIf (fun c => c.fault = .none) true H pid (fun _ => True)

section Remove

variable {H : Host} {pid : Pid} {w : World} {T : Txid} {s : Sub}

/-- One operation that works. -/
theorem sat_smooth {e : Op} {post : e.Answer → World → Prop}
    (h : ∀ c, c.fault = .none → post (exec H pid e c w).1 (exec H pid e c w).2) :
    Prog.Sat (smooth H pid) post (perform e) w := by
  refine sat_aloneIf fun c => ⟨trivial, fun hc => h (e.choice true c) ?_⟩
  unfold Op.choice
  split
  · rfl
  · exact hc

/-- Production, the meta and the other directory are as they were. -/
structure Spares (T : Txid) (s : Sub) (w v : World) : Prop where
  files : v.files = w.files
  stored : v.metaOf T = w.metaOf T
  others : ∀ s', s ≠ s' → (v.dir T).sub s' = (w.dir T).sub s'

theorem Spares.refl : Spares T s w w := ⟨rfl, rfl, fun _ _ => rfl⟩

theorem Spares.trans {v u : World} (h : Spares T s w v) (h' : Spares T s v u) : Spares T s w u :=
  ⟨h'.files.trans h.files, h'.stored.trans h.stored,
    fun s' hs => (h'.others s' hs).trans (h.others s' hs)⟩

theorem spares_setSub (v : Option (Dict Leaf Bytes)) :
    Spares T s w (w.setDir T ((w.dir T).setSub s v)) where
  files := rfl
  stored := by
    rw [World.metaOf, World.dir_setDir_self]
    cases s <;> rfl
  others := fun s' hs => by rw [World.dir_setDir_self, TxDir.sub_setSub_ne hs]

/-- Unlinking every file of a listing empties the directory. -/
theorem sat_unlinkAll {files : Dict Leaf Bytes} (huniq : files.Uniq)
    (h : (w.dir T).sub s = some files) :
    Prog.Sat (smooth H pid) (fun done v => done = true ∧ Spares T s w v ∧
      (v.dir T).sub s = some [] ∧ (v.dir T).index = (w.dir T).index)
      (unlinkAll false T s files.keys) w := by
  induction files generalizing w with
  | nil => exact Prog.sat_ret_iff.mpr fun v hv => by cases hv; exact ⟨rfl, Spares.refl, h, rfl⟩
  | cons entry rest ih =>
      obtain ⟨leaf, data⟩ := entry
      obtain ⟨hfresh, hrest⟩ := List.nodup_cons.mp huniq
      have herase : Dict.erase ((leaf, data) :: rest) leaf = rest := by
        unfold Dict.erase
        rw [List.filter_cons_of_neg (by simp), List.filter_eq_self]
        intro p hp
        have hne : p.1 ≠ leaf := fun he => hfresh (he ▸ List.mem_map.mpr ⟨p, hp, rfl⟩)
        simpa using hne
      have hget : Dict.get? ((leaf, data) :: rest) leaf = some data := Dict.get?_cons_self ..
      let w' := w.setDir T ((w.dir T).setSub s (some rest))
      show Prog.Sat (smooth H pid) _ (Prog.bind (perform (.unlinkSub T s leaf)) _) w
      refine Prog.Sat.seq (M := fun done v => done = true ∧ v = w') (sat_smooth fun c hc => ?_) ?_
      · simp only [exec, h, Option.bind_some, hget, Option.isSome_some, attempt, if_true, hc, faulty,
          TxDir.eraseSub, Option.map_some, herase, true_and]
        rfl
      · rintro done v ⟨rfl, rfl⟩
        have hsub : (w'.dir T).sub s = some rest := by
          rw [World.dir_setDir_self, TxDir.sub_setSub_self]
        have hindex : (w'.dir T).index = (w.dir T).index := by
          rw [World.dir_setDir_self]
          cases s <;> rfl
        show Prog.Sat (smooth H pid) _ (Prog.bind (unlinkAll false T s (Dict.keys rest)) _) w'
        refine Prog.Sat.seq (ih hrest hsub) ?_
        rintro others u ⟨rfl, hspares, hempty, hidx⟩
        exact Prog.sat_ret_iff.mpr fun x hx => by
          cases hx
          exact ⟨rfl, (spares_setSub _).trans hspares, hempty, hidx.trans hindex⟩

/-- The index goes with the before-images. -/
theorem sat_unlinkIndexIf {hasIndex : Bool}
    (h : (s == .before && (w.dir T).index.isSome) = hasIndex) :
    Prog.Sat (smooth H pid) (fun done v => done = true ∧ Spares T s w v ∧
      (v.dir T).sub s = (w.dir T).sub s ∧ (s = .before → (v.dir T).index = none))
      (unlinkIndexIf T hasIndex) w := by
  cases hasIndex with
  | true =>
      rw [Bool.and_eq_true] at h
      show Prog.Sat (smooth H pid) _ (perform (.unlinkIndex T)) w
      refine sat_smooth fun c hc => ?_
      simp only [exec, attempt, h.2, if_true, hc, faulty, true_and]
      refine ⟨⟨rfl, ?_, fun s' _ => ?_⟩, ?_, fun _ => ?_⟩
      · rw [World.metaOf, World.dir_setDir_self]
        rfl
      · rw [World.dir_setDir_self]
        cases s' <;> rfl
      · rw [World.dir_setDir_self]
        cases s <;> rfl
      · rw [World.dir_setDir_self]
  | false =>
      refine Prog.sat_ret_iff.mpr fun v hv => ?_
      cases hv
      refine ⟨rfl, Spares.refl, rfl, fun hs => ?_⟩
      subst hs
      simpa using h

/-- A material directory goes, and is not reported as left over. -/
theorem sat_cleanupSub (htidy : w.Tidy) :
    Prog.Sat (smooth H pid) (fun left v => left = [] ∧ Spares T s w v ∧ (v.dir T).sub s = none)
      (cleanupSub T s) w := by
  unfold cleanupSub
  refine Prog.Sat.seq (M := fun r v => Spares T s w v ∧ (v.dir T).sub s = none ∧
    (r = none ∨ r = some true)) ?_ ?_
  · unfold rmtreeSub
    refine Prog.Sat.seq (M := fun listing v => v = w ∧ listing = ((w.dir T).sub s).map
      (fun files => (files.keys, s == .before && (w.dir T).index.isSome)))
      (sat_smooth fun c _ => ⟨rfl, rfl⟩) ?_
    rintro listing v ⟨rfl, rfl⟩
    cases hsub : (v.dir T).sub s with
    | none =>
        exact Prog.sat_ret_iff.mpr fun u hu => by
          cases hu
          exact ⟨Spares.refl, hsub, Or.inl rfl⟩
    | some files =>
        refine Prog.Sat.seq (sat_unlinkAll (htidy T s files hsub) hsub) ?_
        rintro done u ⟨rfl, hspares, hempty, hindex⟩
        rw [if_pos (by rfl)]
        refine Prog.Sat.seq (sat_unlinkIndexIf (s := s) (by rw [hindex])) ?_
        rintro done x ⟨rfl, hspares', hsame, hgone⟩
        rw [if_pos (by rfl)]
        -- the index lies in `before`, so both have to be gone
        have hready : (x.dir T).subEmpty s = true := by
          unfold TxDir.subEmpty
          rw [hsame, hempty]
          cases s with
          | candidate => rfl
          | before => rw [hgone rfl]; rfl
        refine Prog.Sat.seq (M := fun gone y => gone = true ∧
          y = x.setDir T ((x.dir T).setSub s none)) (sat_smooth fun c hc => ?_) ?_
        · simp only [exec, hready, attempt, if_true, hc, faulty, true_and]
        · rintro gone y ⟨rfl, rfl⟩
          refine Prog.sat_ret_iff.mpr fun z hz => ?_
          cases hz
          refine ⟨(hspares.trans hspares').trans (spares_setSub none), ?_, Or.inr rfl⟩
          rw [World.dir_setDir_self, TxDir.sub_setSub_self]
  · rintro r v ⟨hspares, hnone, rfl | rfl⟩
    · exact Prog.sat_ret_iff.mpr fun u hu => by
        cases hu
        exact ⟨rfl, hspares, hnone⟩
    · refine Prog.Sat.seq (M := fun listing u => u = v ∧ listing = none)
        (sat_smooth fun c _ => ⟨rfl, by simp [exec, hnone]⟩) ?_
      rintro listing u ⟨rfl, rfl⟩
      exact Prog.sat_ret_iff.mpr fun x hx => by
        cases hx
        exact ⟨rfl, hspares, hnone⟩

/-- Whatever runs, listings keep distinct names. -/
theorem sat_tidy {α : Type} (p : Proc α) (h : w.Tidy) :
    Prog.Sat (smooth H pid) (fun _ v => v.Tidy) p w :=
  Prog.Only.sat_keeps (Prog.only_true p) (fun _ _ hv hr => by cases hr; exact hv)
    (fun e _ _ hv => ⟨fun _ => trivial, fun c _ => exec_tidy e _ hv⟩) h

/-- Both material directories are gone. -/
def World.Bare (w : World) (T : Txid) : Prop := ∀ sub, (w.dir T).sub sub = none

theorem sat_cleanupBoth (htidy : w.Tidy) :
    Prog.Sat (smooth H pid) (fun left v => left = [] ∧ v.files = w.files ∧
      v.metaOf T = w.metaOf T ∧ v.Bare T) (Prog.collect (cleanupSub T) [.candidate, .before]) w := by
  refine Prog.Sat.seq ((sat_cleanupSub (s := .candidate) htidy).and (sat_tidy _ htidy)) ?_
  rintro left v ⟨⟨rfl, hspares, hnone⟩, hv⟩
  refine Prog.Sat.bind (Prog.Sat.seq (sat_cleanupSub (s := .before) hv) ?_)
  rintro left u ⟨rfl, hspares', hnone'⟩
  refine Prog.sat_ret_iff.mpr fun x hx => ?_
  cases hx
  refine Prog.sat_ret_iff.mpr fun y hy => ?_
  cases hy
  refine ⟨rfl, hspares'.files.trans hspares.files, hspares'.stored.trans hspares.stored, fun sub => ?_⟩
  cases sub with
  | candidate => exact (hspares'.others .candidate (by decide)).trans hnone
  | before => exact hnone'

end Remove

/-! ### Giving up -/

section Refused

variable {H : Host} {pid : Pid} {pl : Plan} {w : World} {s : Tx} {α : Type}

theorem meets_smooth {m : TxM α} {I : World → Prop} {Q : Except Exn α → Tx → World → Prop}
    (h : Meets (alone true H pid I) m s w Q) : Meets (smooth H pid) m s w Q :=
  Prog.Sat.weaken h rfl (fun _ _ _ _ => trivial) (fun _ _ hr => hr) (fun _ _ _ _ => trivial)

/-- `_cleanup_materials` of a settled transaction leaves nothing over. -/
theorem meets_cleanupMaterials_smooth (hst : s.state.gcTerminal = true) (htidy : w.Tidy) :
    Meets (smooth H pid) cleanupMaterials s w (fun r _ v => r = .ok [] ∧ v.files = w.files ∧
      v.metaOf s.txid = w.metaOf s.txid ∧ v.Bare s.txid) := by
  unfold cleanupMaterials
  refine meets_self_bind ?_
  rw [if_pos hst]
  refine meets_call ((sat_cleanupBoth htidy).mono ?_)
  rintro left v ⟨rfl, hv⟩ u rfl
  exact ⟨rfl, hv⟩

/-- `_abort` settles the transaction and removes its materials. -/
theorem meets_abortWith_smooth (cls : String) (h : pl.Untouched False s w) (htidy : w.Tidy) :
    Meets (smooth H pid) (abortWith cls) s w (fun r _ v =>
      r = .ok () ∧ pl.Given v ∧ v.Bare pl.txid) := by
  obtain ⟨hof, huns, hcalm⟩ := h
  unfold abortWith
  refine meets_self_bind ?_
  rw [if_pos huns]
  unfold noteError
  refine meets_assign_bind (meets_assign_bind ?_)
  refine meets_bind (meets_smooth (meets_saveMeta_alone (I := fun _ => True) trivial trivial)) ?_ ?_
  case refine_2 =>
    rintro e s' v ⟨-, ⟨hr, -⟩ | ⟨hst, -⟩⟩
    · cases hr
    · cases hst
  rintro _ s' v ⟨rfl, ⟨-, rfl⟩ | ⟨-, hr, -⟩⟩
  case inr => cases hr
  have hgiven : pl.Given (w.writeMeta pl.txid (Tx.saved { s with
      metaJson := { s.metaJson with
        errorClass := if s.metaJson.errorClass = "" then cls else s.metaJson.errorClass }
      state := .aborted }).metaJson) := by
    refine ⟨hcalm.1, ?_⟩
    rw [World.stateOf, World.metaOf, World.writeMeta_dir_self]
    rfl
  rw [← hof.txid] at hgiven ⊢
  refine meets_bind (meets_cleanupMaterials_smooth rfl (htidy.writeMeta _)) ?_ ?_
  · -- ABORTED is written, and stays while the materials go
    rintro left s' v ⟨hleft, hfiles, hmeta, hbare⟩
    cases hleft
    refine meets_ret_alone ⟨rfl, ⟨hfiles.trans hgiven.1, ?_⟩, hbare⟩
    have hstate := hgiven.2
    rw [← hof.txid] at hstate ⊢
    exact (congrArg (Option.map Meta.state) hmeta).trans hstate
  · rintro e s' v ⟨hr, -⟩
    cases hr

/-! ### A candidate that fails -/

/-- A validator turns a candidate down. -/
def Plan.Failing (H : Host) (pl : Plan) : Prop :=
  ∃ p ∈ pl.targets, ∃ data, p.2.data = some data ∧ ∃ v ∈ p.2.validators, ∃ err,
    H.validate v p.2.path data pl.targets pl.files = .fail err

/-- Every validator answers for every candidate. -/
def Plan.Answering (H : Host) (pl : Plan) : Prop :=
  ∀ p ∈ pl.targets, ∀ data, p.2.data = some data → ∀ v ∈ p.2.validators,
    H.validate v p.2.path data pl.targets pl.files ≠ .raised

/-- Everything in front of the validators can be read. -/
structure Tx.Readable (H : Host) (s : Tx) (w : World) : Prop where
  derives : ∀ e, deriveAt H w.files s.readSha s.derivers s.targets = .error e → e = .refused
  targets : ∀ p ∈ (s.plan H w).targets, w.files p.2.path ≠ .link
  watches : ∀ p ∈ s.watches, w.files p.2.path ≠ .link

theorem Tx.Readable.not_unreadable (h : s.Readable H w) : ¬ (s.plan H w).Unreadable H s := by
  rintro (hderive | ⟨p, hp, hlink⟩ | ⟨p, hp, hlink⟩)
  · cases h.derives _ hderive
  · exact h.targets p hp hlink
  · exact h.watches p hp hlink

/-- The part under the lock refuses, in front of the before-images. -/
theorem meets_commitLocked_failing (hread : s.Readable H w)
    (hanswer : (s.plan H w).Answering H) (hfail : (s.plan H w).Failing H) {v : World}
    (h : (s.plan H w).Begun False s v) :
    Meets (planned true H pid (s.plan H w) False) (commitLocked H) s v
      (fun r s' u => r = .error .refused ∧ (s.plan H w).Untouched False s' u) := by
  have hderives : (s.plan H w).Derives H s := by
    intro targets hd
    show (deriveAt H w.files s.readSha s.derivers s.targets).toOption.getD s.targets = targets
    have hd' : deriveAt H w.files s.readSha s.derivers s.targets = .ok targets := hd
    rw [hd']
    rfl
  have hexcuses : Excuses true H (s.plan H w) False :=
    ⟨fun hno => Bool.noConfusion hno, fun p hp data hdata x hx hr => hanswer p hp data hdata x hx hr⟩
  have hdecodes : deriveAt H (s.plan H w).files s.readSha s.derivers s.targets = .error .other →
      False := fun hd => nomatch hread.derives _ hd
  unfold commitLocked
  refine meets_bind (meets_preflight hderives hexcuses hdecodes h) ?_ ?_
  · rintro base s1 w1 ⟨-, -, hvalid⟩
    obtain ⟨p, hp, data, hdata, x, hx, err, herr⟩ := hfail
    have hpass := hvalid p hp data hdata x hx
    rw [herr] at hpass
    cases hpass
  · rintro e s1 w1 ⟨hbegun, herr, htx⟩
    have huns : s1.state.unstarted = true := by
      rw [hbegun.2.1]
      rfl
    rcases herr with rfl | rfl | ⟨-, hno⟩
    · exact meets_raise_alone ⟨rfl, hbegun.1, huns, hbegun.2.2⟩
    · exact absurd (htx rfl) hread.not_unreadable
    · exact hno.elim

/-- With a free lock around it. -/
theorem meets_withLock_failing (hs : s.Assembling) (hlock : w.lock = none) (hread : s.Readable H w)
    (hanswer : (s.plan H w).Answering H) (hfail : (s.plan H w).Failing H) :
    Meets (planned true H pid (s.plan H w) False) (withLock (commitLocked H)) s w
      (fun r s' u => r = .error .refused ∧ (s.plan H w).Untouched False s' u) := by
  have hof : (s.plan H w).Of s := ⟨rfl, hs.metaId, hs.schema, rfl⟩
  have hcalm : (s.plan H w).Calm False w.files w := ⟨rfl, fun hno => hno.elim⟩
  have huns : s.state.unstarted = true := by
    rw [hs.state]
    rfl
  unfold withLock
  refine meets_call_bind (M := fun a v => (s.plan H w).Calm False w.files v ∧ a ≠ .busy) ?_ ?_
  · refine sat_alone fun c => ?_
    obtain ⟨hfiles, hdir⟩ := @exec_lock_same H pid w _ (Or.inl rfl) (Op.choice true .lock c) s.txid
    refine ⟨(hcalm.congr hfiles hdir).sound, hcalm.congr hfiles hdir, ?_⟩
    simp only [execWith, exec, hlock]
    split <;> exact fun hno => (by cases hno)
  rintro a v ⟨hv, hbusy⟩
  cases a with
  | unusable => exact meets_raise_alone ⟨rfl, hof, huns, hv⟩
  | busy => exact absurd rfl hbusy
  | acquired =>
      refine meets_outcome (meets_commitLocked_failing hread hanswer hfail ⟨hof, hs.state, hv⟩) ?_
      rintro r s' u ⟨rfl, hof', huns', hu⟩
      refine meets_call_bind (M := fun _ x => (s.plan H w).Calm False w.files x) ?_ ?_
      · refine sat_alone fun c => ?_
        obtain ⟨hfiles, hdir⟩ := @exec_lock_same H pid u _ (Or.inr rfl) (Op.choice true .unlock c) s.txid
        exact ⟨(hu.congr hfiles hdir).sound, hu.congr hfiles hdir⟩
      · intro _ x hx
        exact meets_raise_alone ⟨rfl, hof', huns', hx⟩

/-- A commit with a candidate that fails a validator ends in `TxRefused`, ABORTED, without
its materials. -/
theorem commit_refused (hs : s.Assembling) (htidy : w.Tidy) (hlock : w.lock = none)
    (hread : s.Readable H w) (hanswer : (s.plan H w).Answering H)
    (hfail : (s.plan H w).Failing H) (ch : Nat → Choice) (hch : ∀ n, (ch n).fault = .none) :
    (Prog.complete (execWith true H pid) ch (commit H s) w).1.1 = .error .refused ∧
      (s.plan H w).Given (Prog.complete (execWith true H pid) ch (commit H s) w).2 ∧
      (Prog.complete (execWith true H pid) ch (commit H s) w).2.Bare s.txid := by
  have hmeets : Meets (smooth H pid) (commit H) s w (fun r _ v => r = .error .refused ∧
      (s.plan H w).Given v ∧ v.Bare s.txid) := by
    unfold commit
    refine meets_tryCatch (M := fun r s' u => (r = .error .refused ∧
      (s.plan H w).Untouched False s' u) ∧ u.Tidy) ?_ ?_ ?_
    · exact Prog.Sat.and (meets_smooth (meets_withLock_failing hs hlock hread hanswer hfail))
        (sat_tidy _ htidy)
    · rintro st s' v ⟨⟨hr, -⟩, -⟩
      cases hr
    · rintro e s' v ⟨⟨hr, hun⟩, hv⟩
      cases hr
      refine meets_bind (meets_abortWith_smooth "REFUSED" hun hv) ?_ ?_
      · rintro _ s'' u ⟨-, hgiven, hbare⟩
        exact meets_raise_alone ⟨rfl, hgiven, hbare⟩
      · rintro e' s'' u ⟨hr, -⟩
        cases hr
  exact Prog.Sat.complete hmeets ch hch

end Refused

end ProxyGateway.Pdgtx
