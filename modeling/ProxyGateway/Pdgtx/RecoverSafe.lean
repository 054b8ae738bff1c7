import ProxyGateway.Pdgtx.Phases

set_option autoImplicit false

/-!
# ProxyGateway.Pdgtx.RecoverSafe

`recover` and `abort`, judged for any transaction `F`.

Both read `meta.json` before anything protects it, so what they have read says
nothing about the moment they act. The roles below name what has to be true at that
moment: `recover` gets the lock while its transaction still needs recovery, and
`abort` writes while its transaction is still unstarted. A command that runs alone
needs neither.
-/

namespace ProxyGateway.Pdgtx

open Method

/-- A process recovering `U`, judged for `F`: unless it is alone, it depends on `F` only
while it holds the lock of a transaction that needs recovery, and that is the only way
it is considered to get the lock. -/
def restorer (alone : Prop) (pid : Pid) (U F : Txid) : Role where
  own := fun w => U = F ∧ (alone ∨ (w.lock = some pid ∧ w.Pending F))
  locks := fun e => U = F ∧ e.writesFor F = true
  allow := fun e c w => alone ∨
    (U = F → e = .lock → c.yes = true → w.lock = none → w.Pending F)
  edges := Edge
  legal := fun _ _ => id
  writes := fun _ w => U = F ∧ (alone ∨ (w.lock = some pid ∧ w.Pending F))

/-- A process aborting `U`, judged for `F`: unless it is alone, it is considered to save
`meta.json` only while `F` is unstarted. -/
def aborter (alone : Prop) (U F : Txid) : Role where
  own := fun _ => U = F ∧ alone
  locks := fun _ => False
  allow := fun e _ w => alone ∨
    (U = F → ∀ m, e = .storeMeta U m → ∃ s, lastState (w.past F) = some s ∧ s.unstarted = true)
  edges := Advance
  legal := fun _ _ => Advance.edge
  writes := fun e _ => U = F ∧ ∃ m, e = .storeMeta U m

section Recover

variable {H : Host} {pid : Pid} {F U : Txid} {P alone : Prop} {w w' : World} {m : Meta}
  {bi : BeforeIndex} {α : Type}

/-- The setting of a process recovering `U`, judged for `F`. -/
abbrev recovering (H : Host) (pid : Pid) (F U : Txid) (P alone : Prop) :
    Setting Op Op.Answer Choice World :=
  process H pid F P (restorer alone pid U F)

/-- The lock is held, and the transaction still needs recovery. -/
def Recovering (pid : Pid) (F U : Txid) (P : Prop) (w : World) : Prop :=
  Held pid F P w ∧ (U = F → w.Pending F)

theorem carried_recovering :
    Carried H pid F P (restorer alone pid U F) (Recovering pid F U P) where
  inv := fun _ h => h.1.1
  stable := by
    rintro w w' ⟨hheld, hpend⟩ ⟨hinv, hlock, -, hown⟩
    refine ⟨⟨hinv hheld.1, hlock hheld.2⟩, fun hU => ?_⟩
    obtain ⟨-, hpast, -⟩ := hown ⟨hU, Or.inr ⟨hheld.2, hpend hU⟩⟩
    rw [World.Pending, hpast]
    exact hpend hU
  locked := fun _ _ h _ => Or.inr (fun _ => h.1.2)

theorem carried_held : Carried H pid F P (restorer alone pid U F) (Held pid F P) :=
  removable_held.toCarried

/-! ### The precheck -/

section Precheck

variable {J : World → Prop}

theorem keeps_precheckAt (hJ : Carried H pid F P (restorer alone pid U F) J) (T : Txid)
    (force : Bool) (name : Name) (path : Path) :
    Keeps (recovering H pid F U P alone) (fun _ w => J w)
      (precheckAt H T m bi force name path) := by
  have hA : ∀ _ : Unit, Carried H pid F P (restorer alone pid U F) J := fun _ => hJ
  unfold precheckAt
  refine (keeps_readTarget hA path).bind (stable_of hA) (fun cur => ?_)
  split
  · exact keeps_ret (stable_of hA) _
  · split
    · exact keeps_ret (stable_of hA) _
    · split
      · exact keeps_ret (stable_of hA) _
      · refine (keeps_quiet hA (Prog.only_perform rfl)).bind (stable_of hA) (fun data => ?_)
        cases data with
        | none => exact keeps_ret (stable_of hA) _
        | some bytes =>
            dsimp only
            split
            · exact keeps_ret (stable_of hA) _
            · exact keeps_ret (stable_of hA) _

theorem keeps_precheckOne (hJ : Carried H pid F P (restorer alone pid U F) J) (T : Txid)
    (force : Bool) (name : Name) :
    Keeps (recovering H pid F U P alone) (fun _ w => J w)
      (precheckOne H T m bi force name) := by
  have hA : ∀ _ : Unit, Carried H pid F P (restorer alone pid U F) J := fun _ => hJ
  unfold precheckOne
  refine (keeps_resolveTarget hA name).outcome (fun r => ?_)
  split
  · exact keeps_precheckAt hJ T force name _
  · exact keeps_ret (stable_of hA) _
  · exact keeps_raise (stable_of hA) _

theorem keeps_precheckAll (hJ : Carried H pid F P (restorer alone pid U F) J) (T : Txid)
    (force : Bool) (names : List Name) :
    Keeps (recovering H pid F U P alone) (fun _ w => J w)
      (precheckAll H T m bi force names) := by
  have hA : ∀ _ : Unit, Carried H pid F P (restorer alone pid U F) J := fun _ => hJ
  induction names with
  | nil => exact keeps_ret (stable_of hA) _
  | cons name rest ih =>
      unfold precheckAll
      refine (keeps_precheckOne hJ T force name).bind (stable_of hA) (fun c => ?_)
      exact ih.bind (stable_of hA) (fun more => keeps_ret (stable_of hA) _)

end Precheck

/-! ### The restore -/

theorem sat_recoverOne (item : PlanItem) (h : Recovering pid F U P w) :
    Prog.Sat (recovering H pid F U P alone) (fun _ v => Recovering pid F U P v)
      (recoverOne U item) w := by
  have hot : ∀ v, Recovering pid F U P v → U = F → Hot F v :=
    fun v hv hU => hv.1.1.hot (hv.2 hU)
  have hwrites : ∀ (e : Op) (v : World), Recovering pid F U P v → U = F →
      (restorer alone pid U F).writes e v :=
    fun e v hv hU => ⟨hU, Or.inr ⟨hv.1.2, hv.2 hU⟩⟩
  have htouch : ∀ (v : World) (p : Path) (n : Node), Recovering pid F U P v →
      Inv F P (v.touch U p n) → Recovering pid F U P (v.touch U p n) := by
    intro v p n hv hinv
    refine ⟨⟨hinv, hv.1.2⟩, fun hU => ?_⟩
    rw [World.Pending, (touch_keeps (F := F) (T := U) p n).2]
    exact hv.2 hU
  unfold recoverOne
  cases hr : item.restore with
  | some r => exact sat_touching carried_recovering hot hwrites htouch (Or.inl ⟨_, _, _, _, rfl⟩) h
  | none =>
      cases item.exists' with
      | true => exact sat_touching carried_recovering hot hwrites htouch (Or.inr ⟨_, rfl⟩) h
      | false => exact fun v hv => carried_recovering.stable _ _ h hv

theorem sat_recoverAll (plan : List PlanItem) (h : Recovering pid F U P w) :
    Prog.Sat (recovering H pid F U P alone) (fun _ v => Recovering pid F U P v)
      (recoverAll U plan) w := by
  induction plan generalizing w with
  | nil => exact fun v hv => carried_recovering.stable _ _ h hv
  | cons item rest ih =>
      refine Prog.Sat.seq (sat_recoverOne item h) (fun ok v hv => ?_)
      refine Prog.Sat.seq (ih hv) (fun others u hu => ?_)
      exact fun x hx => carried_recovering.stable _ _ hu hx

/-- The final state of `recover` may be written, and ROLLED_BACK settles `F`. -/
theorem sat_storeRecovered {ok : Bool} (hm : m.state = if ok then .rolledBack else .rollbackFailed)
    (hid : U = F → m.txid = F) (h : Recovering pid F U P w) :
    Prog.Sat (recovering H pid F U P alone)
      (fun done v => Held pid F P v ∧ (done = true → ok = true → U = F → v.Settled F))
      (perform (.storeMeta U m)) w := by
  refine Prog.sat_perform (fun v hv => ?_)
  have hv' := (@carried_recovering _ _ _ _ _ alone).stable _ _ h hv
  have hperm : Permit F P Edge (.storeMeta U m) v := by
    refine permit_hot (fun hU => hv'.1.1.hot (hv'.2 hU)) (fun hU => (hid hU).trans hU.symm) ?_ ?_
    · cases ok <;> simp [hm, State.needsRecovery]
    · intro hU s hs
      obtain ⟨s', hs', hneeds⟩ := hv'.2 hU
      rw [hs] at hs'
      cases hs'
      refine Or.inr ⟨hneeds, ?_⟩
      cases ok <;> simp [hm]
  have hwrites : (restorer alone pid U F).Writes F (.storeMeta U m) v := by
    intro hw
    have hU : U = F := by simpa [Op.writesFor] using hw
    exact Or.inr ⟨hU, Or.inr ⟨hv'.1.2, hv'.2 hU⟩⟩
  refine ⟨⟨hperm, fun _ => Or.inr (fun _ => hv'.1.2), hwrites⟩, fun c _ u hu => ?_⟩
  have hheld : Held pid F P (exec H pid (.storeMeta U m) c v).2 :=
    ⟨inv_exec hperm hv'.1.1 c, (exec_lock (by simp) (by simp) c).trans hv'.1.2⟩
  refine ⟨carried_held.stable _ _ hheld hu, fun hdone hok hU => hu.2.2.1 ?_⟩
  subst hU hok
  rcases faulty_cases c.fault v (v.writeMeta U m) with ⟨-, hno⟩ | hyes
  · have hdone' : (faulty c.fault v (v.writeMeta U m)).1 = true := hdone
    rw [hno] at hdone'
    exact Bool.noConfusion hdone'
  · refine ⟨.rolledBack, ?_, rfl⟩
    show lastState ((faulty c.fault v (v.writeMeta U m)).2.past U) = _
    rw [hyes, past_writeMeta, hm]
    rfl

/-- The end of `recover`. -/
theorem meets_recoverPlan {plan : List PlanItem} {s : Unit} (hid : U = F → m.txid = F)
    (h : Recovering pid F U P w) :
    Meets (recovering H pid F U P alone) (recoverPlan H U m bi plan) s w
      (fun _ _ v => Held pid F P v) := by
  have hraise : ∀ e s v, Held pid F P v → Meets (recovering H pid F U P alone)
      (raise e : CallM Recovered) s v (fun _ _ v => Held pid F P v) :=
    fun e s v hv => meets_raise (fun u hu => carried_held.stable _ _ hv hu)
  unfold recoverPlan
  refine meets_call_bind (sat_recoverAll plan h) (fun files v hv => ?_)
  refine meets_call_bind (sat_quiet carried_recovering (quiet_restoreRuntime H bi) hv)
    (fun runtime u hu => ?_)
  refine meets_bind (M := fun r _ x => Held pid F P x ∧
    (r = .ok () → (files && runtime) = true → U = F → x.Settled F)) ?_ ?_
    (fun e s x hx => hraise e s x hx.1)
  · unfold must
    refine meets_call_bind (sat_storeRecovered rfl hid hu) (fun done x hx => ?_)
    cases done with
    | true =>
        exact meets_ret (fun y hy => ⟨carried_held.stable _ _ hx.1 hy,
          fun _ hok hU => hy.2.2.1 (hx.2 rfl hok hU)⟩)
    | false =>
        exact meets_raise (fun y hy => ⟨carried_held.stable _ _ hx.1 hy, fun hr => by cases hr⟩)
  · intro _ s x hx
    refine meets_call_bind (M := fun _ y => Held pid F P y) ?_ (fun _ y hy => ?_)
    · split
      · next hok => exact sat_removing removable_held (removing_removeMaterials U) hx.1 (hx.2 rfl hok)
      · exact fun y hy => carried_held.stable _ _ hx.1 hy
    · refine meets_call_bind (sat_gc removable_held hy) (fun _ z hz => ?_)
      exact meets_ret (fun z' hz' => carried_held.stable _ _ hz hz')

theorem meets_recoverLocked {force : Bool} {s : Unit} (hid : U = F → m.txid = F)
    (h : Recovering pid F U P w) :
    Meets (recovering H pid F U P alone) (recoverLocked H U m bi force) s w
      (fun _ _ v => Held pid F P v) := by
  have hret : ∀ (r : Recovered) s v, Recovering pid F U P v →
      Meets (recovering H pid F U P alone) (ret r : CallM Recovered) s v
        (fun _ _ v => Held pid F P v) :=
    fun r s v hv => meets_ret (fun u hu => (carried_recovering.stable _ _ hv hu).1)
  unfold recoverLocked
  refine meets_bind (keeps_precheckAll carried_recovering U force m.targets s w h) ?_ ?_
  · intro checks s v hv
    split
    · exact hret _ s v hv
    · split
      · exact hret _ s v hv
      · exact meets_recoverPlan hid hv
  · intro e s v hv
    exact meets_raise (fun u hu => (carried_recovering.stable _ _ hv hu).1)

/-- Getting the lock: the transaction still needs recovery. -/
theorem sat_lock_recovering (hinv : Inv F P w) (halone : alone → U = F → w.Pending F) :
    Prog.Sat (recovering H pid F U P alone)
      (fun a v => Inv F P v ∧ (a = .acquired → Recovering pid F U P v))
      (perform Op.lock : Proc LockAnswer) w := by
  refine Prog.sat_perform (fun v hv => ⟨⟨trivial, fun hl => absurd hl.2 Bool.false_ne_true, fun hw => Bool.noConfusion hw⟩, ?_⟩)
  intro c hallow u hu
  have hinv' : Inv F P (exec H pid .lock c v).2 := inv_exec (e := .lock) trivial (hv.1 hinv) c
  refine ⟨hu.1 hinv', fun ha => carried_recovering.stable _ _ ?_ hu⟩
  obtain ⟨hyes, hfree, hlocked⟩ := @lock_acquired _ H pid _ ha
  have hheld : Held pid F P (exec H pid .lock c v).2 := ⟨hinv', by rw [hlocked]⟩
  refine ⟨hheld, fun hU => ?_⟩
  have hpend : v.Pending F := by
    rcases hallow with h | h
    · obtain ⟨-, hpast, -⟩ := hv.2.2.2 ⟨hU, Or.inl h⟩
      rw [World.Pending, hpast]
      exact halone h hU
    · exact h hU rfl hyes hfree
  show World.Pending (exec H pid .lock c v).2 F
  rw [World.Pending, exec_past rfl]
  exact hpend

/-- **`recover` obeys the discipline**, judged for any transaction `F`. -/
theorem meets_recover {force : Bool} {s : Unit} (hinv : Inv F P w) :
    Meets (recovering H pid F U P alone) (recover H U force) s w (fun _ _ _ => True) := by
  have hfree : ∀ e : Op, e.writesFor F = false →
      ∀ v : World, (restorer alone pid U F).locks e → P ∨ (v.Pending F → v.lock = some pid) :=
    fun e he v hl => by
      have hw : e.writesFor F = true := hl.2
      rw [he] at hw
      exact Bool.noConfusion hw
  have hret : ∀ (r : Recovered) s v, Meets (recovering H pid F U P alone)
      (ret r : CallM Recovered) s v (fun _ _ _ => True) :=
    fun r s v => meets_ret (fun _ _ => trivial)
  have hraise : ∀ e s v, Meets (recovering H pid F U P alone)
      (raise e : CallM Recovered) s v (fun _ _ _ => True) :=
    fun e s v => meets_raise (fun _ _ => trivial)
  unfold recover
  -- the meta is read without the lock; alone, nobody moves the transaction on in between
  refine meets_call_bind (M := fun x v => Inv F P v ∧ ∀ m, x = some m → U = F → m.txid = F ∧
    (alone → m.state.needsRecovery = true → v.Pending F)) ?_ ?_
  · refine Prog.sat_perform (fun v hv => ⟨⟨trivial, hfree _ rfl v, writes_of_quiet rfl v⟩, fun c _ u hu => ?_⟩)
    have hinv' := hv.1 hinv
    refine ⟨hu.1 hinv', ?_⟩
    rintro m hm rfl
    have hm' : v.metaOf U = some m := hm
    obtain ⟨hlast, hid⟩ := hinv'.faithful m hm'
    refine ⟨hid, fun hal hneeds => ?_⟩
    obtain ⟨-, hpast, -⟩ := hu.2.2.2 ⟨rfl, Or.inl hal⟩
    exact ⟨m.state, by rw [hpast]; exact hlast, hneeds⟩
  · rintro x v ⟨hinv', hx⟩
    cases x with
    | none => exact hret _ _ _
    | some m =>
        dsimp only
        split
        · exact hret _ _ _
        · split
          · exact hret _ _ _
          · next hneeds =>
            have hneeds' : m.state.needsRecovery = true := by simpa using hneeds
            refine meets_call_bind (M := fun _ u => Inv F P u ∧
              (alone → U = F → u.Pending F)) ?_ ?_
            · refine Prog.sat_perform (fun u hu => ⟨⟨trivial, hfree _ rfl u, writes_of_quiet rfl u⟩, fun c _ y hy => ?_⟩)
              refine ⟨hy.1 (hu.1 hinv'), fun hal hU => ?_⟩
              obtain ⟨-, hpast, -⟩ := hu.2.2.2 ⟨hU, Or.inl hal⟩
              obtain ⟨-, hpast', -⟩ := hy.2.2.2 ⟨hU, Or.inl hal⟩
              rw [World.Pending, hpast']
              show ∃ s, lastState (u.past F) = some s ∧ _
              rw [hpast]
              exact (hx m rfl hU).2 hal hneeds'
            · rintro b u ⟨hu, hal⟩
              cases b with
              | none => exact hret _ _ _
              | some bi =>
                  dsimp only
                  unfold withLock
                  refine meets_call_bind (sat_lock_recovering hu hal) ?_
                  rintro a y ⟨-, hacq⟩
                  cases a with
                  | unusable => exact hraise _ _ _
                  | busy => exact hraise _ _ _
                  -- all that is written is written from here on, under the lock
                  | acquired =>
                      refine meets_outcome (meets_recoverLocked (fun hU => (hx m rfl hU).1)
                        (hacq rfl)) ?_
                      intro r s z hz
                      refine meets_call_bind (M := fun _ _ => True) ?_ ?_
                      · exact Prog.sat_perform (fun z' _ =>
                          ⟨⟨trivial, hfree _ rfl z', fun hw => Bool.noConfusion hw⟩, fun _ _ _ _ => trivial⟩)
                      · intro _ _ _
                        cases r with
                        | ok a => exact hret _ _ _
                        | error e => exact hraise _ _ _

end Recover

/-! ### `abort` -/

section Abort

variable {H : Host} {pid : Pid} {F U : Txid} {P alone : Prop} {w : World}

/-- The setting of a process aborting `U`, judged for `F`. -/
abbrev aborting (H : Host) (pid : Pid) (F U : Txid) (P alone : Prop) :
    Setting Op Op.Answer Choice World :=
  process H pid F P (aborter alone U F)

theorem removable_aborting : Removable H pid F P (aborter alone U F) (Inv F P) where
  inv := fun _ h => h
  stable := fun _ _ h hr => hr.1 h
  locked := fun _ _ _ hl => hl.elim
  removed := fun _ _ c _ _ hp h => inv_exec hp.edge h c

/-- Saving ABORTED settles `F`, which was unstarted. -/
theorem sat_storeAborted {m : Meta} (hm : m.state = .aborted) (hid : U = F → m.txid = F)
    (halone : alone → U = F → ∃ s, lastState (w.past F) = some s ∧ s.unstarted = true)
    (hinv : Inv F P w) :
    Prog.Sat (aborting H pid F U P alone)
      (fun done v => Inv F P v ∧ (done = true → U = F → v.Settled F))
      (perform (.storeMeta U m)) w := by
  refine Prog.sat_perform_considered (fun v hv c hallow => ?_)
  have hinv' := hv.1 hinv
  have hlast : U = F → ∃ s, lastState (v.past F) = some s ∧ s.unstarted = true := by
    intro hU
    rcases hallow with h | h
    · obtain ⟨-, hpast, -⟩ := hv.2.2.2 ⟨hU, h⟩
      rw [hpast]
      exact halone h hU
    · exact h hU m rfl
  have hperm : Permit F P Advance (.storeMeta U m) v := by
    intro hU
    obtain ⟨s, hs, huns⟩ := hlast hU
    have hnp : ¬ v.Pending F :=
      not_pending_of_last hs (State.not_needsRecovery_of_unstarted huns)
    refine ⟨hid hU, fun hd => absurd (hinv'.tracked hd) hnp, ?_, Or.inr (fun s' hs' => ?_)⟩
    · intro hneeds
      rw [hm] at hneeds
      exact Bool.noConfusion hneeds
    · rw [hs] at hs'
      cases hs'
      rw [hm]
      exact Advance.aborted huns
  have hwrites : (aborter alone U F).Writes F (.storeMeta U m) v :=
    fun hw => Or.inr ⟨by simpa [Op.writesFor] using hw, m, rfl⟩
  refine ⟨⟨hperm, fun hl => hl.elim, hwrites⟩, fun u hu => ?_⟩
  refine ⟨hu.1 (@inv_exec _ _ _ H pid _ hperm.edge hinv' c), fun hdone hU => hu.2.2.1 ?_⟩
  subst hU
  rcases faulty_cases c.fault v (v.writeMeta U m) with ⟨-, hno⟩ | hyes
  · have hdone' : (faulty c.fault v (v.writeMeta U m)).1 = true := hdone
    rw [hno] at hdone'
    exact Bool.noConfusion hdone'
  · refine ⟨.aborted, ?_, rfl⟩
    show lastState ((faulty c.fault v (v.writeMeta U m)).2.past U) = _
    rw [hyes, past_writeMeta, hm]
    rfl

/-- **`abort` obeys the discipline**, judged for any transaction `F`. -/
theorem meets_cliAbort {s : Unit} (hinv : Inv F P w) :
    Meets (aborting H pid F U P alone) (cliAbort U) s w (fun _ _ _ => True) := by
  have hret : ∀ s v, Meets (aborting H pid F U P alone) (ret () : CallM Unit) s v
      (fun _ _ _ => True) := fun s v => meets_ret (fun _ _ => trivial)
  unfold cliAbort
  refine meets_call_bind (M := fun x v => Inv F P v ∧ ∀ m, x = some m → U = F → m.txid = F ∧
    (alone → m.state.unstarted = true →
      ∃ s, lastState (v.past F) = some s ∧ s.unstarted = true)) ?_ ?_
  · refine Prog.sat_perform (fun v hv => ⟨⟨trivial, fun hl => hl.elim, writes_of_quiet rfl v⟩, fun c _ u hu => ?_⟩)
    have hinv' := hv.1 hinv
    refine ⟨hu.1 hinv', ?_⟩
    rintro m hm rfl
    have hm' : v.metaOf U = some m := hm
    obtain ⟨hlast, hid⟩ := hinv'.faithful m hm'
    refine ⟨hid, fun hal huns => ⟨m.state, ?_, huns⟩⟩
    obtain ⟨-, hpast, -⟩ := hu.2.2.2 ⟨rfl, hal⟩
    rw [hpast]
    exact hlast
  · rintro x v ⟨hinv', hx⟩
    cases x with
    | none => exact hret _ _
    | some m =>
        dsimp only
        split
        · next huns =>
          refine meets_bind (M := fun r _ u => Inv F P u ∧ (r = .ok () → U = F → u.Settled F))
            ?_ ?_ (fun _ _ _ _ => meets_raise (fun _ _ => trivial))
          · unfold must
            refine meets_call_bind (sat_storeAborted rfl (fun hU => (hx m rfl hU).1)
              (fun hal hU => (hx m rfl hU).2 hal huns) hinv') (fun done u hu => ?_)
            cases done with
            | true => exact meets_ret (fun y hy => ⟨hy.1 hu.1, fun _ hU => hy.2.2.1 (hu.2 rfl hU)⟩)
            | false => exact meets_raise (fun y hy => ⟨hy.1 hu.1, fun hr => by cases hr⟩)
          · intro _ s u hu
            refine meets_call ?_
            refine (sat_removing removable_aborting (removing_removeMaterials U) hu.1
              (hu.2 rfl)).mono ?_
            exact fun _ _ _ _ _ => trivial
        · exact hret _ _

end Abort

end ProxyGateway.Pdgtx
