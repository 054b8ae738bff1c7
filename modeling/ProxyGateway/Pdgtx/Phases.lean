import ProxyGateway.Pdgtx.Discipline

set_option autoImplicit false

/-!
# ProxyGateway.Pdgtx.Phases

The phases of `Tx.commit`, as assertions about the object's state and the world.

Inside a phase every method keeps it, saving `meta.json` included (`Saves`), and
`_set_state` leads from one phase to the next (`meets_setState`). Where the object is
judged for a transaction that is not its own, a phase says no more than that the
invariant holds.
-/

namespace ProxyGateway.Pdgtx

open Method

/-- A process working on the transaction `U`, judged for `F`. -/
def owner (U F : Txid) : Role where
  own := fun _ => U = F
  locks := fun _ => U = F
  allow := fun _ _ _ => True
  edges := Advance
  legal := fun _ _ => Advance.edge
  writes := fun _ _ => U = F

/-- The setting of a process working on `U`, judged for `F`. -/
abbrev committer (H : Host) (pid : Pid) (F U : Txid) (P : Prop) :
    Setting Op Op.Answer Choice World :=
  process H pid F P (owner U F)

/-- An assertion that looks at the object's ids and state only. -/
def At (U : Txid) (J : State → World → Prop) (s : Tx) (w : World) : Prop :=
  s.txid = U ∧ s.metaJson.txid = U ∧ J s.state w

/-- The object with its state put into the meta, as `saveMeta` writes it. -/
def Tx.saved (s : Tx) : Tx := { s with metaJson := { s.metaJson with state := s.state } }

section Methods

variable {H : Host} {pid : Pid} {F U : Txid} {P : Prop} {J : State → World → Prop} {α : Type}

/-! ### Methods that keep an assertion about ids and state -/

theorem at_stable (hJ : ∀ st, Carried H pid F P (owner U F) (J st)) (s : Tx) (w w' : World)
    (h : At U J s w) (hr : (committer H pid F U P).rely w w') : At U J s w' :=
  ⟨h.1, h.2.1, (hJ _).stable _ _ h.2.2 hr⟩

theorem carried_at (hJ : ∀ st, Carried H pid F P (owner U F) (J st)) (s : Tx) :
    Carried H pid F P (owner U F) (At U J s) where
  inv := fun _ h => (hJ _).inv _ h.2.2
  stable := fun w w' h hr => at_stable hJ s w w' h hr
  locked := fun _ _ h hU => (hJ _).locked _ _ h.2.2 hU

theorem keeps_assign_at (hJ : ∀ st, Carried H pid F P (owner U F) (J st)) {f : Tx → Tx}
    (hf : ∀ s, (f s).txid = s.txid ∧ (f s).metaJson.txid = s.metaJson.txid ∧
      (f s).state = s.state) :
    Keeps (committer H pid F U P) (At U J) (assign f : TxM Unit) := by
  refine keeps_assign (at_stable hJ) ?_
  rintro s w ⟨h1, h2, h3⟩
  obtain ⟨f1, f2, f3⟩ := hf s
  exact ⟨f1.trans h1, f2.trans h2, by rw [f3]; exact h3⟩

theorem keeps_precondition (hJ : ∀ st, Carried H pid F P (owner U F) (J st)) (b : Bool) :
    Keeps (committer H pid F U P) (At U J) (precondition b) := by
  unfold precondition
  split
  · exact keeps_ret (at_stable hJ) ()
  · refine Keeps.bind (at_stable hJ) (keeps_assign_at hJ ?_) ?_
    · exact fun _ => ⟨rfl, rfl, rfl⟩
    · exact fun _ => keeps_raise (at_stable hJ) _

/-- Reading the object and continuing; its id is known. -/
theorem keeps_self_bind {f : Tx → TxM α}
    (hf : ∀ t : Tx, t.txid = U → Keeps (committer H pid F U P) (At U J) (f t)) :
    Keeps (committer H pid F U P) (At U J) (self.bind f) :=
  fun s w h => meets_self_bind (hf s h.1 s w h)

/-- A write that keeps the assertion. -/
theorem keeps_must (hJ : ∀ st, Carried H pid F P (owner U F) (J st)) {p : Proc Done}
    (hp : ∀ st w, J st w → Prog.Sat (committer H pid F U P) (fun _ v => J st v) p w) :
    Keeps (committer H pid F U P) (At U J) (must p : TxM Unit) := by
  refine Keeps.bind (at_stable hJ) ?_ (fun ok => keeps_require (carried_at hJ) _ _)
  refine keeps_call ?_
  rintro s w ⟨h1, h2, h3⟩
  refine (hp _ w h3).mono ?_
  intro _ v hv u hu
  exact ⟨h1, h2, (hJ _).stable _ _ hv hu⟩

/-- An owner writes for its own transaction. -/
theorem writes_owner {e : Op} {w : World} (h : e.writesFor F = true → U = F) :
    (owner U F).Writes F e w := fun hw => Or.inr (h hw)

/-! ### Saving `meta.json` -/

/-- `saveMeta` from `I`: when the write is permitted, it either did not happen, and the
method raises, or `K` holds. -/
theorem meets_saveMeta {I K : World → Prop} (hI : Carried H pid F P (owner U F) I)
    (hK : Carried H pid F P (owner U F) K) {s : Tx} {w : World} (h1 : s.txid = U) (h : I w)
    (hperm : ∀ v, I v → Permit F P Advance (.storeMeta s.txid s.saved.metaJson) v)
    (hwrite : ∀ v, I v → K (v.writeMeta s.txid s.saved.metaJson)) :
    Meets (committer H pid F U P) saveMeta s w (fun r s' v => s' = s.saved ∧
      ((r = .error .other ∧ I v) ∨ K v)) := by
  unfold saveMeta
  refine meets_assign_bind ?_
  refine meets_self_bind ?_
  refine meets_call_bind (M := fun ok v => (ok = false ∧ I v) ∨ K v) ?_ ?_
  · refine Prog.sat_perform (fun v hv => ?_)
    have hv' := hI.stable _ _ h hv
    have hwrites : (owner U F).Writes F (.storeMeta s.txid s.saved.metaJson) v :=
      writes_owner (fun hw => h1 ▸ (by simpa [Op.writesFor] using hw))
    refine ⟨⟨hperm v hv', hI.locked _ _ hv', hwrites⟩, fun c _ u hu => ?_⟩
    rcases faulty_cases c.fault v (v.writeMeta s.txid s.saved.metaJson) with ⟨hw, hok⟩ | hw
    · left
      refine ⟨hok, hI.stable v u hv' ?_⟩
      have hu' : (committer H pid F U P).rely
          (faulty c.fault v (v.writeMeta s.txid s.saved.metaJson)).2 u := hu
      rwa [hw] at hu'
    · right
      refine hK.stable (v.writeMeta s.txid s.saved.metaJson) u (hwrite v hv') ?_
      have hu' : (committer H pid F U P).rely
          (faulty c.fault v (v.writeMeta s.txid s.saved.metaJson)).2 u := hu
      rwa [hw] at hu'
  · rintro ok v (⟨hok, hv⟩ | hv)
    · have hok' : ok = false := hok
      subst hok'
      exact meets_raise (fun u hu => ⟨rfl, Or.inl ⟨rfl, hI.stable _ _ hv hu⟩⟩)
    · unfold require
      split
      · exact meets_ret (fun u hu => ⟨rfl, Or.inr (hK.stable _ _ hv hu)⟩)
      · exact meets_raise (fun u hu => ⟨rfl, Or.inr (hK.stable _ _ hv hu)⟩)

/-- A phase whose own state may be saved at any time. -/
def Saves (F U : Txid) (P : Prop) (J : State → World → Prop) : Prop :=
  ∀ st m w, J st w → m.txid = U → m.state = st →
    Permit F P Advance (.storeMeta U m) w ∧ J st (w.writeMeta U m)

theorem keeps_saveMeta (hJ : ∀ st, Carried H pid F P (owner U F) (J st))
    (hsave : Saves F U P J) : Keeps (committer H pid F U P) (At U J) saveMeta := by
  rintro s w ⟨h1, h2, h3⟩
  have hmeta : s.saved.metaJson.txid = U := h2
  refine (meets_saveMeta (hJ s.state) (hJ s.state) h1 h3 ?_ ?_).mono ?_
  · intro v hv
    rw [h1]
    exact (hsave _ _ v hv hmeta rfl).1
  · intro v hv
    rw [h1]
    exact (hsave _ _ v hv hmeta rfl).2
  · rintro r s' v ⟨rfl, ⟨-, hv⟩ | hv⟩ <;> exact ⟨h1, h2, hv⟩

/-- `_set_state`: refused outright, or the state in memory is new and the write either
did not happen or led to `K`. -/
theorem meets_setState {I K : World → Prop} (hI : Carried H pid F P (owner U F) I)
    (hK : Carried H pid F P (owner U F) K) {s : Tx} {w : World} {new : State}
    (h1 : s.txid = U) (h2 : s.metaJson.txid = U) (h : I w)
    (hperm : ∀ m v, I v → m.txid = U → m.state = new → s.state.allowed.contains new = true →
      Permit F P Advance (.storeMeta U m) v)
    (hwrite : ∀ m v, I v → m.txid = U → m.state = new → s.state.allowed.contains new = true →
      K (v.writeMeta U m)) :
    Meets (committer H pid F U P) (setState new) s w (fun r s' v =>
      s'.txid = U ∧ s'.metaJson.txid = U ∧
      ((r = .error .txError ∧ s'.state = s.state ∧ I v) ∨
        (s'.state = new ∧ ((r = .error .other ∧ I v) ∨ K v)))) := by
  unfold setState
  refine meets_self_bind ?_
  refine meets_require_bind ?_ ?_
  · intro hall
    refine meets_assign_bind ?_
    refine (meets_saveMeta (s := { s with state := new }) hI hK h1 h ?_ ?_).mono ?_
    · intro u hu
      show Permit F P Advance (.storeMeta s.txid _) u
      rw [h1]
      exact hperm _ u hu h2 rfl hall
    · intro u hu
      show K (u.writeMeta s.txid _)
      rw [h1]
      exact hwrite _ u hu h2 rfl hall
    · rintro r s' u ⟨rfl, hu⟩
      exact ⟨h1, h2, Or.inr ⟨rfl, hu⟩⟩
  · intro _
    exact meets_raise (fun u hu => ⟨h1, h2, Or.inl ⟨rfl, rfl, hI.stable _ _ h hu⟩⟩)

end Methods

/-! ### The phases -/

section Phases

variable (pid : Pid) (F U : Txid) (P : Prop)

/-- Nothing was applied yet: `F`, when it is the own transaction, is not dirty and its
last state written is the object's. -/
def Unstarted (st : State) (w : World) : Prop :=
  Inv F P w ∧ st.unstarted = true ∧
    (U = F → dirty (w.past F) = false ∧ (P ∨ lastState (w.past F) = some st))

/-- PREPARING, under the lock. -/
def Preparing (st : State) (w : World) : Prop :=
  Held pid F P w ∧ st = .preparing ∧ Unstarted F U P st w

/-- VALIDATED and saved, under the lock, with the images of `K` already stored. -/
def Validated (K : List Leaf) (st : State) (w : World) : Prop :=
  Held pid F P w ∧ st = .validated ∧ (U = F → dirty (w.past F) = false ∧
    lastState (w.past F) = some st ∧
    ∀ leaf ∈ K, (((w.dir F).before.getD []).get? leaf).isSome = true)

/-- VALIDATED with all materials on disk. -/
def Imaged (st : State) (w : World) : Prop :=
  Validated pid F U P [] st w ∧ (U = F → (w.dir F).Saved)

/-- APPLYING or OBSERVING, saved. -/
def Working (st : State) (w : World) : Prop :=
  Held pid F P w ∧ (st = .applying ∨ st = .observing) ∧
    (U = F → Hot F w ∧ lastState (w.past F) = some st)

/-- As `Working`, but OBSERVING may not have reached the disk. -/
def Lagging (st : State) (w : World) : Prop :=
  Held pid F P w ∧ (st = .applying ∨ st = .observing) ∧
    (U = F → Hot F w ∧ (lastState (w.past F) = some st ∨
      (st = .observing ∧ lastState (w.past F) = some .applying)))

/-- ROLLING_BACK, saved. -/
def Restoring (st : State) (w : World) : Prop :=
  Held pid F P w ∧ st = .rollingBack ∧ (U = F → Hot F w ∧ lastState (w.past F) = some st)

/-- A settled state, saved. -/
def Ended (st : State) (w : World) : Prop :=
  Inv F P w ∧ st.gcTerminal = true ∧ (U = F → lastState (w.past F) = some st)

/-- The lock is there as long as it is needed. -/
def Guarded (w : World) : Prop :=
  Inv F P w ∧ (U = F → P ∨ (w.Pending F → w.lock = some pid))

end Phases

section Commit

variable {H : Host} {pid : Pid} {F U : Txid} {P : Prop} {w w' : World}

theorem rely_past (hr : (committer H pid F U P).rely w w') (h : U = F) :
    w'.past F = w.past F := (hr.2.2.2 h).2.1

theorem rely_dir (hr : (committer H pid F U P).rely w w') (h : U = F) (hn : ¬ w.Settled F) :
    w'.dir F = w.dir F := (hr.2.2.2 h).2.2 hn

theorem not_settled_of_last {st : State} (h : lastState (w.past F) = some st)
    (hst : st.gcTerminal = false) : ¬ w.Settled F := by
  rintro ⟨s, hs, hterm⟩
  rw [h] at hs
  cases hs
  rw [hst] at hterm
  exact Bool.noConfusion hterm

theorem not_pending_of_last {st : State} (h : lastState (w.past F) = some st)
    (hst : st.needsRecovery = false) : ¬ w.Pending F := by
  rintro ⟨s, hs, hneeds⟩
  rw [h] at hs
  cases hs
  rw [hst] at hneeds
  exact Bool.noConfusion hneeds

theorem rely_hot (hr : (committer H pid F U P).rely w w') (h : U = F) (hinv : Inv F P w)
    (hot : Hot F w) : Hot F w' :=
  hot.congr_dir (rely_dir hr h (fun hs => hs.not_pending (hot.pending hinv)))

theorem held_rely (hr : (committer H pid F U P).rely w w') (h : Held pid F P w) :
    Held pid F P w' := ⟨hr.1 h.1, hr.2.1 h.2⟩

theorem carried_unstarted (st : State) : Carried H pid F P (owner U F) (Unstarted F U P st) where
  inv := fun _ h => h.1
  stable := by
    rintro w w' ⟨hinv, hst, hown⟩ hr
    refine ⟨hr.1 hinv, hst, fun hU => ?_⟩
    rw [rely_past hr hU]
    exact hown hU
  locked := by
    rintro e w ⟨hinv, hst, hown⟩ hU
    refine (hown hU).2.imp id (fun hlast hp => ?_)
    exact absurd hp (not_pending_of_last hlast (State.not_needsRecovery_of_unstarted hst))

theorem carried_preparing (st : State) :
    Carried H pid F P (owner U F) (Preparing pid F U P st) where
  inv := fun _ h => h.1.1
  stable := fun _ _ h hr =>
    ⟨held_rely hr h.1, h.2.1, (carried_unstarted st).stable _ _ h.2.2 hr⟩
  locked := fun _ _ h _ => Or.inr (fun _ => h.1.2)

theorem carried_validated (K : List Leaf) (st : State) :
    Carried H pid F P (owner U F) (Validated pid F U P K st) where
  inv := fun _ h => h.1.1
  stable := by
    rintro w w' ⟨hheld, rfl, hown⟩ hr
    refine ⟨held_rely hr hheld, rfl, fun hU => ?_⟩
    rw [rely_past hr hU, rely_dir hr hU (not_settled_of_last (hown hU).2.1 rfl)]
    exact hown hU
  locked := fun _ _ h _ => Or.inr (fun _ => h.1.2)

theorem carried_imaged (st : State) : Carried H pid F P (owner U F) (Imaged pid F U P st) where
  inv := fun _ h => h.1.1.1
  stable := by
    rintro w w' ⟨hval, hsaved⟩ hr
    refine ⟨(carried_validated [] st).stable _ _ hval hr, fun hU => ?_⟩
    obtain ⟨hheld, rfl, hown⟩ := hval
    rw [rely_dir hr hU (not_settled_of_last (hown hU).2.1 rfl)]
    exact hsaved hU
  locked := fun _ _ h _ => Or.inr (fun _ => h.1.1.2)

theorem carried_working (st : State) : Carried H pid F P (owner U F) (Working pid F U P st) where
  inv := fun _ h => h.1.1
  stable := by
    rintro w w' ⟨hheld, hst, hown⟩ hr
    refine ⟨held_rely hr hheld, hst, fun hU => ⟨rely_hot hr hU hheld.1 (hown hU).1, ?_⟩⟩
    rw [rely_past hr hU]
    exact (hown hU).2
  locked := fun _ _ h _ => Or.inr (fun _ => h.1.2)

theorem carried_lagging (st : State) : Carried H pid F P (owner U F) (Lagging pid F U P st) where
  inv := fun _ h => h.1.1
  stable := by
    rintro w w' ⟨hheld, hst, hown⟩ hr
    refine ⟨held_rely hr hheld, hst, fun hU => ⟨rely_hot hr hU hheld.1 (hown hU).1, ?_⟩⟩
    rw [rely_past hr hU]
    exact (hown hU).2
  locked := fun _ _ h _ => Or.inr (fun _ => h.1.2)

theorem carried_restoring (st : State) :
    Carried H pid F P (owner U F) (Restoring pid F U P st) where
  inv := fun _ h => h.1.1
  stable := by
    rintro w w' ⟨hheld, hst, hown⟩ hr
    refine ⟨held_rely hr hheld, hst, fun hU => ⟨rely_hot hr hU hheld.1 (hown hU).1, ?_⟩⟩
    rw [rely_past hr hU]
    exact (hown hU).2
  locked := fun _ _ h _ => Or.inr (fun _ => h.1.2)

theorem Ended.settled {st : State} (h : Ended F U P st w) (hU : U = F) : w.Settled F :=
  ⟨st, h.2.2 hU, h.2.1⟩

theorem removable_ended (st : State) : Removable H pid F P (owner U F) (Ended F U P st) where
  inv := fun _ h => h.1
  stable := by
    rintro w w' ⟨hinv, hst, hown⟩ hr
    refine ⟨hr.1 hinv, hst, fun hU => ?_⟩
    rw [rely_past hr hU]
    exact hown hU
  locked := fun _ _ h hU => Or.inr (fun hp => absurd hp (h.settled hU).not_pending)
  removed := by
    rintro T e c w hrem hp ⟨hinv, hst, hown⟩
    refine ⟨inv_exec hp.edge hinv c, hst, fun hU => ?_⟩
    rw [World.past, (exec_removes hrem c w).1]
    exact hown hU

theorem carried_guarded : Carried H pid F P (owner U F) (Guarded pid F U P) where
  inv := fun _ h => h.1
  stable := by
    rintro w w' ⟨hinv, hown⟩ hr
    refine ⟨hr.1 hinv, fun hU => (hown hU).imp id (fun h hp => hr.2.1 (h ?_))⟩
    obtain ⟨s, hs, hneeds⟩ := hp
    exact ⟨s, by rw [← rely_past hr hU]; exact hs, hneeds⟩
  locked := fun _ _ h hU => h.2 hU

theorem Held.guarded (h : Held pid F P w) : Guarded pid F U P w :=
  ⟨h.1, fun _ => Or.inr (fun _ => h.2)⟩

theorem Ended.guarded {st : State} (h : Ended F U P st w) : Guarded pid F U P w :=
  ⟨h.1, fun hU => Or.inr (fun hp => absurd hp (h.settled hU).not_pending)⟩

/-! ### Saving inside a phase -/

theorem past_writeMeta (m : Meta) : (w.writeMeta F m).past F = .wrote F m.state :: w.past F := by
  simp [World.past]

theorem held_writeMeta {m : Meta} (hp : Permit F P Advance (.storeMeta U m) w) (h : Held pid F P w) :
    Held pid F P (w.writeMeta U m) := ⟨h.1.advanceMeta hp, h.2⟩

/-- What has to be said about an unstarted transaction to save its meta. -/
theorem permit_unstarted {st : State} {m : Meta} (h : Unstarted F U P st w) (hid : m.txid = U)
    (hm : m.state.needsRecovery = false) (hedge : Advance st m.state) :
    Permit F P Advance (.storeMeta U m) w := by
  obtain ⟨hinv, hst, hown⟩ := h
  intro hU
  obtain ⟨hdirty, hlast⟩ := hown hU
  refine ⟨hid.trans hU, ?_, ?_, ?_⟩
  · intro hd
    rw [hdirty] at hd
    exact Bool.noConfusion hd
  · intro hn
    rw [hm] at hn
    exact Bool.noConfusion hn
  · refine hlast.imp id (fun hl s hs => ?_)
    rw [hl] at hs
    cases hs
    exact hedge

theorem unstarted_writeMeta {st : State} {m : Meta} (h : Unstarted F U P st w)
    (hp : Permit F P Advance (.storeMeta U m) w) (hm : m.state.unstarted = true) :
    Unstarted F U P m.state (w.writeMeta U m) := by
  refine ⟨h.1.advanceMeta hp, hm, ?_⟩
  rintro rfl
  rw [past_writeMeta]
  have hne : ¬ (m.state = .committed ∨ m.state = .rolledBack) := by
    rintro (he | he) <;> rw [he] at hm <;> exact Bool.noConfusion hm
  refine ⟨?_, Or.inr rfl⟩
  simp only [dirty, hne, if_false]
  exact (h.2.2 rfl).1

theorem saves_preparing : Saves F U P (Preparing pid F U P) := by
  rintro st m w ⟨hheld, rfl, huns⟩ hid hm
  have hp : Permit F P Advance (.storeMeta U m) w :=
    permit_unstarted huns hid (by rw [hm]; rfl) (by rw [hm]; exact Advance.refl _)
  refine ⟨hp, held_writeMeta hp hheld, rfl, ?_⟩
  have h := unstarted_writeMeta huns hp (by rw [hm]; rfl)
  rwa [hm] at h

/-- What has to be said about a transaction under way to save its meta. -/
theorem permit_hot {E : State → State → Prop} {m : Meta} (hot : U = F → Hot F w) (hid : U = F → m.txid = U)
    (hm : m.state.needsRecovery = true ∨ m.state = .committed ∨ m.state = .rolledBack)
    (hedge : U = F → ∀ s, lastState (w.past F) = some s → E s m.state) :
    Permit F P E (.storeMeta U m) w := by
  intro hU
  obtain ⟨m', -, -, hsaved⟩ := hot hU
  exact ⟨(hid hU).trans hU, fun _ => hm, fun _ => hsaved, Or.inr (hedge hU)⟩

theorem hot_writeMeta {m : Meta} (hot : Hot F w) (hm : m.state.needsRecovery = true) :
    Hot F (w.writeMeta F m) := by
  obtain ⟨m', -, -, hsaved⟩ := hot
  refine ⟨m, by simp [World.metaOf], hm, ?_⟩
  rw [World.writeMeta_dir_self]
  exact hsaved

theorem working_needsRecovery {st : State} (h : st = .applying ∨ st = .observing) :
    st.needsRecovery = true := by
  rcases h with rfl | rfl <;> rfl

theorem saves_working : Saves F U P (Working pid F U P) := by
  rintro st m w ⟨hheld, hst, hown⟩ hid hm
  have hp : Permit F P Advance (.storeMeta U m) w := by
    refine permit_hot (fun hU => (hown hU).1) (fun _ => hid) ?_ ?_
    · rw [hm]
      exact Or.inl (working_needsRecovery hst)
    · intro hU s hs
      rw [(hown hU).2] at hs
      cases hs
      rw [hm]
      exact Advance.refl _
  refine ⟨hp, held_writeMeta hp hheld, hst, ?_⟩
  rintro rfl
  refine ⟨hot_writeMeta (hown rfl).1 (by rw [hm]; exact working_needsRecovery hst), ?_⟩
  rw [past_writeMeta, ← hm]
  rfl

theorem saves_ended : Saves F U P (Ended F U P) := by
  rintro st m w ⟨hinv, hst, hown⟩ hid hm
  have hp : Permit F P Advance (.storeMeta U m) w := by
    intro hU
    have hnp : ¬ w.Pending F := (Ended.settled ⟨hinv, hst, hown⟩ hU).not_pending
    refine ⟨hid.trans hU, fun hd => absurd (hinv.tracked hd) hnp, ?_, Or.inr ?_⟩
    · intro hn
      rw [hm] at hn
      rw [State.not_gcTerminal_of_needsRecovery hn] at hst
      exact Bool.noConfusion hst
    · intro s hs
      rw [hown hU] at hs
      cases hs
      rw [hm]
      exact Advance.refl _
  refine ⟨hp, hinv.advanceMeta hp, hst, ?_⟩
  rintro rfl
  rw [past_writeMeta, ← hm]
  rfl

end Commit

end ProxyGateway.Pdgtx
