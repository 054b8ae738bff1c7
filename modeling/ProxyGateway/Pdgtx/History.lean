import ProxyGateway.Pdgtx.Service

set_option autoImplicit false

/-!
# ProxyGateway.Pdgtx.History

What the log says about one transaction, and what a process may do to a
transaction so that the record stays sound.

* `history F` is the log restricted to the transaction `F`. From it one reads the
  last state written (`lastState`), whether production was changed since the last
  settled write (`dirty`), and whether the writes followed the allowed edges and no
  production file was touched after the end (`Legal`).
* `Inv F` ties the log to the disk: `meta.json` holds the last state written; while
  that state needs recovery the before-images are there; a dirty transaction is in
  such a state.
* `Permit F` is the discipline on single operations under which `Inv F` is kept
  (`inv_exec`). Operations on other transactions are always permitted: they say
  nothing about `F`.
-/

namespace ProxyGateway.Pdgtx

/-! ### Reading the log -/

/-- The transaction an event belongs to. -/
def Event.tx : Event → Txid
  | .touched T _ => T
  | .wrote T _ => T

/-- The events of one transaction, newest first. -/
def history (F : Txid) (log : List Event) : List Event := log.filter (fun e => e.tx = F)

/-- The last state written. -/
def lastState : List Event → Option State
  | [] => none
  | .wrote _ s :: _ => some s
  | .touched _ _ :: l => lastState l

/-- A production file was replaced or deleted, and since then the transaction neither
reached COMMITTED nor was restored. -/
def dirty : List Event → Bool
  | [] => false
  | .touched _ _ :: _ => true
  | .wrote _ s :: l => if s = .committed ∨ s = .rolledBack then false else dirty l

/-- An edge of `_ALLOWED`, or the same state written again. -/
def Advance (s s' : State) : Prop := s' ∈ s.allowed ∨ s' = s

/-- An edge of `_ALLOWED`, the same state written again, or a recovery. -/
def Edge (s s' : State) : Prop :=
  Advance s s' ∨ (s.needsRecovery = true ∧ (s' = .rolledBack ∨ s' = .rollbackFailed))

/-- Every state written follows an edge, and nothing is touched once the transaction
is settled. -/
def Legal : List Event → Prop
  | [] => True
  | .touched _ _ :: l => (∀ s, lastState l = some s → s.gcTerminal = false) ∧ Legal l
  | .wrote _ s :: l => (∀ s₀, lastState l = some s₀ → Edge s₀ s) ∧ Legal l

theorem Advance.edge {s s' : State} (h : Advance s s') : Edge s s' := Or.inl h

theorem Advance.refl (s : State) : Advance s s := Or.inr rfl

theorem Advance.of_allowed {s s' : State} (h : s.allowed.contains s' = true) : Advance s s' :=
  Or.inl (by simpa using h)

/-- An unstarted transaction may be aborted. -/
theorem Advance.aborted {s : State} (h : s.unstarted = true) : Advance s .aborted := by
  cases s <;> simp_all [State.unstarted, Advance, State.allowed]

/-- A settled state is left for no other. -/
theorem Edge.settled {s s' : State} (h : Edge s s') (hs : s.gcTerminal = true) :
    s'.gcTerminal = true := by
  cases s with
  | committed | rolledBack | aborted =>
      rcases h with (h | h) | h
      · simp [State.allowed] at h
      · rw [h]
        rfl
      · simp [State.needsRecovery] at h
  | preparing | validated | applying | observing | rollingBack | rollbackFailed =>
      simp [State.gcTerminal] at hs

@[simp] theorem history_cons_wrote (F T : Txid) (s : State) (log : List Event) :
    history F (.wrote T s :: log) =
      if T = F then .wrote T s :: history F log else history F log := by
  by_cases h : T = F <;> simp [history, Event.tx, h]

@[simp] theorem history_cons_touched (F T : Txid) (p : Path) (log : List Event) :
    history F (.touched T p :: log) =
      if T = F then .touched T p :: history F log else history F log := by
  by_cases h : T = F <;> simp [history, Event.tx, h]

namespace World

variable (w : World) (F : Txid)

/-- The events of one transaction. -/
def past : List Event := history F w.log

/-- The last state written for a transaction is settled. -/
def Settled : Prop := ∃ s, lastState (w.past F) = some s ∧ s.gcTerminal = true

/-- The last state written for a transaction needs recovery. -/
def Pending : Prop := ∃ s, lastState (w.past F) = some s ∧ s.needsRecovery = true

end World

/-- The before-index is there, with the image of every target that existed. -/
def TxDir.Saved (d : TxDir) : Prop :=
  ∃ bi, d.index = some bi ∧ ∀ name r, (name, r) ∈ bi.files → r.existed = true →
    ((d.before.getD []).get? r.file).isSome = true

/-- On disk the transaction is in a state that needs recovery, with its materials. -/
def Hot (F : Txid) (w : World) : Prop :=
  ∃ m, w.metaOf F = some m ∧ m.state.needsRecovery = true ∧ (w.dir F).Saved

/-! ### The invariant of one transaction -/

/-- What holds of a transaction `F` in every reachable world. `P` switches off the
clause about edges, for runs in which commands are repeated. -/
structure Inv (F : Txid) (P : Prop) (w : World) : Prop where
  faithful : ∀ m, w.metaOf F = some m → lastState (w.past F) = some m.state ∧ m.txid = F
  hot : w.Pending F → Hot F w
  tracked : dirty (w.past F) = true → w.Pending F
  legal : P ∨ Legal (w.past F)

section Facts

variable {F : Txid} {P : Prop} {w w' : World}

theorem Hot.pending (h : Hot F w) (hinv : Inv F P w) : w.Pending F := by
  obtain ⟨m, hm, hneeds, -⟩ := h
  exact ⟨m.state, (hinv.faithful m hm).1, hneeds⟩

theorem Hot.congr_dir (h : Hot F w) (hdir : w'.dir F = w.dir F) : Hot F w' := by
  obtain ⟨m, hm, hneeds, hsaved⟩ := h
  exact ⟨m, by rwa [World.metaOf, hdir], hneeds, by rwa [hdir]⟩

theorem World.Settled.not_pending (h : w.Settled F) : ¬ w.Pending F := by
  rintro ⟨s, hs, hneeds⟩
  obtain ⟨s', hs', hterm⟩ := h
  rw [hs'] at hs
  cases hs
  rw [State.not_gcTerminal_of_needsRecovery hneeds] at hterm
  exact Bool.noConfusion hterm

/-- The invariant looks at `meta.json`, the before-images and the past of `F` only. -/
theorem Inv.congr (h : Inv F P w) (hmeta : w'.metaOf F = w.metaOf F)
    (hsaved : (w.dir F).Saved → (w'.dir F).Saved) (hpast : w'.past F = w.past F) :
    Inv F P w' := by
  obtain ⟨h1, h2, h3, h4⟩ := h
  refine ⟨?_, ?_, ?_, ?_⟩
  · intro m hm
    rw [hpast]
    exact h1 m (hmeta ▸ hm)
  · rintro ⟨s, hs, hneeds⟩
    rw [hpast] at hs
    obtain ⟨m, hm, hst, hs'⟩ := h2 ⟨s, hs, hneeds⟩
    exact ⟨m, hmeta.trans hm, hst, hsaved hs'⟩
  · intro hd
    rw [hpast] at hd
    obtain ⟨s, hs, hneeds⟩ := h3 hd
    exact ⟨s, by rw [hpast]; exact hs, hneeds⟩
  · rw [hpast]
    exact h4

theorem Inv.congr_dir (h : Inv F P w) (hdir : w'.dir F = w.dir F) (hpast : w'.past F = w.past F) :
    Inv F P w' :=
  h.congr (by rw [World.metaOf, hdir, World.metaOf]) (by rw [hdir]; exact id) hpast

/-- A settled transaction may lose its directory, or parts of it. -/
theorem Inv.shrink (h : Inv F P w) (hset : w.Settled F) (hpast : w'.past F = w.past F)
    (hmeta : ∀ m, w'.metaOf F = some m → w.metaOf F = some m) : Inv F P w' := by
  have hpend : ¬ w'.Pending F := by
    rintro ⟨s, hs, hneeds⟩
    rw [hpast] at hs
    exact hset.not_pending ⟨s, hs, hneeds⟩
  refine ⟨?_, ?_, ?_, ?_⟩
  · intro m hm
    rw [hpast]
    exact h.faithful m (hmeta m hm)
  · exact fun hp => absurd hp hpend
  · intro hd
    rw [hpast] at hd
    exact absurd (h.tracked hd) hset.not_pending
  · rw [hpast]
    exact h.legal

/-- Writing `meta.json`. -/
theorem Inv.writeMeta (h : Inv F P w) {m : Meta} (hid : m.txid = F)
    (hdirty : dirty (w.past F) = true →
      m.state.needsRecovery = true ∨ m.state = .committed ∨ m.state = .rolledBack)
    (hsaved : m.state.needsRecovery = true → (w.dir F).Saved)
    (hedge : P ∨ ∀ s, lastState (w.past F) = some s → Edge s m.state) :
    Inv F P (w.writeMeta F m) := by
  have hpast : (w.writeMeta F m).past F = .wrote F m.state :: w.past F := by
    simp [World.past]
  refine ⟨?_, ?_, ?_, ?_⟩
  · intro m' hm'
    simp only [World.metaOf, World.writeMeta_dir_self, Option.some.injEq] at hm'
    subst hm'
    exact ⟨by rw [hpast]; rfl, hid⟩
  · rintro ⟨s, hs, hneeds⟩
    rw [hpast] at hs
    cases hs
    refine ⟨m, by simp [World.metaOf], hneeds, ?_⟩
    rw [World.writeMeta_dir_self]
    exact hsaved hneeds
  · intro hd
    rw [hpast] at hd
    refine ⟨m.state, by rw [hpast]; rfl, ?_⟩
    by_cases hend : m.state = .committed ∨ m.state = .rolledBack
    · simp [dirty, hend] at hd
    · simp only [dirty, hend, if_false] at hd
      rcases hdirty hd with hn | hc | hr
      · exact hn
      · exact absurd (Or.inl hc) hend
      · exact absurd (Or.inr hr) hend
  · rw [hpast]
    rcases hedge with hP | he
    · exact Or.inl hP
    · exact h.legal.imp id (fun hl => ⟨he, hl⟩)

/-- Touching a production file. -/
theorem Inv.touch (h : Inv F P w) (hot : Hot F w) (p : Path) (n : Node) :
    Inv F P (w.touch F p n) := by
  obtain ⟨m, hm, hneeds, hsaved⟩ := hot
  have hlast := (h.faithful m hm).1
  have hpast : (w.touch F p n).past F = .touched F p :: w.past F := by simp [World.past]
  have hlast' : lastState ((w.touch F p n).past F) = some m.state := by rw [hpast]; exact hlast
  refine ⟨?_, ?_, ?_, ?_⟩
  · intro m' hm'
    have hm'' : w.metaOf F = some m' := hm'
    rw [hlast', (h.faithful m' hm'').1.symm.trans hlast |> Option.some.inj]
    exact ⟨rfl, (h.faithful m' hm'').2⟩
  · exact fun _ => ⟨m, hm, hneeds, hsaved⟩
  · exact fun _ => ⟨m.state, hlast', hneeds⟩
  · rw [hpast]
    refine h.legal.imp id (fun hl => ⟨?_, hl⟩)
    intro s hs
    rw [hlast] at hs
    cases hs
    exact State.not_gcTerminal_of_needsRecovery hneeds

/-- Changing the materials, while nothing needs them. -/
theorem Inv.materials (h : Inv F P w) (hpend : ¬ w.Pending F) (hpast : w'.past F = w.past F)
    (hmeta : w'.metaOf F = w.metaOf F) : Inv F P w' := by
  have hpend' : ¬ w'.Pending F := by
    rintro ⟨s, hs, hneeds⟩
    rw [hpast] at hs
    exact hpend ⟨s, hs, hneeds⟩
  refine ⟨?_, ?_, ?_, ?_⟩
  · intro m hm
    rw [hpast]
    exact h.faithful m (hmeta ▸ hm)
  · exact fun hp => absurd hp hpend'
  · intro hd
    rw [hpast] at hd
    exact absurd (h.tracked hd) hpend
  · rw [hpast]
    exact h.legal

end Facts

/-! ### The discipline -/

/-- Which operations keep the invariant of `F`; `E` are the state edges a write may take. -/
def Permit (F : Txid) (P : Prop) (E : State → State → Prop) : Op → World → Prop
  | .replaceTarget U _ _ _ _, w | .unlinkTarget U _, w => U = F → Hot F w
  | .storeMeta U m, w => U = F → m.txid = F ∧
      (dirty (w.past F) = true →
        m.state.needsRecovery = true ∨ m.state = .committed ∨ m.state = .rolledBack) ∧
      (m.state.needsRecovery = true → (w.dir F).Saved) ∧
      (P ∨ ∀ s, lastState (w.past F) = some s → E s m.state)
  | .storeSub U s _ _, w => U = F → s = .before → ¬ w.Pending F
  | .storeIndex U _, w => U = F → ¬ w.Pending F
  | .unlinkSub U _ _, w | .unlinkIndex U, w | .rmdirSub U _, w | .unlinkMeta U, w
  | .rmdirTx U, w => U = F → w.Settled F
  | _, _ => True

theorem Permit.mono {F : Txid} {P : Prop} {E E' : State → State → Prop} {e : Op} {w : World}
    (h : Permit F P E e w) (hE : ∀ s s', E s s' → E' s s') : Permit F P E' e w := by
  cases e with
  | storeMeta U m =>
      intro hU
      obtain ⟨hid, hdirty, hsaved, hedge⟩ := h hU
      exact ⟨hid, hdirty, hsaved, hedge.imp id (fun hl s hs => hE _ _ (hl s hs))⟩
  | _ => exact h

theorem Permit.edge {F : Txid} {P : Prop} {e : Op} {w : World} (h : Permit F P Advance e w) :
    Permit F P Edge e w := h.mono (fun _ _ => Advance.edge)

/-- Does the operation write, for the transaction `F`? -/
def Op.writesFor (F : Txid) : Op → Bool
  | .replaceTarget U _ _ _ _ | .unlinkTarget U _ | .makeTx U | .storeMeta U _ | .storeDiff U
  | .storeSub U _ _ _ | .storeIndex U _ | .unlinkSub U _ _ | .unlinkIndex U | .rmdirSub U _
  | .unlinkMeta U | .rmdirTx U => U = F
  | _ => false

section Exec

variable {F : Txid} {P : Prop} {w : World} {H : Host} {pid : Pid}

theorem World.dir_erase_ne {T : Txid} (h : T ≠ F) :
    World.dir { w with txs := w.txs.erase T } F = w.dir F := by
  simp [World.dir, Dict.get?_erase_ne h]

/-- An operation that writes nothing for `F` changes neither its directory nor its past. -/
theorem exec_other {e : Op} (h : e.writesFor F = false) (c : Choice) :
    (exec H pid e c w).2.dir F = w.dir F ∧ (exec H pid e c w).2.past F = w.past F := by
  let I : World → Prop := fun v => v.dir F = w.dir F ∧ v.past F = w.past F
  have hw : I w := ⟨rfl, rfl⟩
  have hdir : ∀ {T : Txid} (d : TxDir), T ≠ F → I (w.setDir T d) := fun d hT =>
    ⟨World.dir_setDir_ne _ _ hT, rfl⟩
  show I (exec H pid e c w).2
  cases e with
  | lock =>
      simp only [exec]
      split
      · exact hw
      · split <;> exact hw
  | unlock =>
      simp only [exec]
      split <;> exact hw
  | replaceTarget T p data mode owner =>
      have hT : T ≠ F := by simpa [Op.writesFor] using h
      exact faulty_keeps _ hw ⟨rfl, by simp [World.past, hT]⟩
  | unlinkTarget T p =>
      have hT : T ≠ F := by simpa [Op.writesFor] using h
      exact attempt_keeps _ _ hw ⟨rfl, by simp [World.past, hT]⟩
  | makeTx T =>
      have hT : T ≠ F := by simpa [Op.writesFor] using h
      exact faulty_keeps _ hw (hdir _ hT)
  | storeMeta T m =>
      have hT : T ≠ F := by simpa [Op.writesFor] using h
      exact faulty_keeps _ hw ⟨World.writeMeta_dir_ne _ _ hT, by simp [World.past, hT]⟩
  | storeDiff T => exact faulty_keeps _ hw hw
  | storeSub T s leaf data =>
      have hT : T ≠ F := by simpa [Op.writesFor] using h
      exact faulty_keeps _ hw (hdir _ hT)
  | storeIndex T bi =>
      have hT : T ≠ F := by simpa [Op.writesFor] using h
      exact faulty_keeps _ hw (hdir _ hT)
  | unlinkSub T s leaf =>
      have hT : T ≠ F := by simpa [Op.writesFor] using h
      exact attempt_keeps _ _ hw (hdir _ hT)
  | unlinkIndex T =>
      have hT : T ≠ F := by simpa [Op.writesFor] using h
      exact attempt_keeps _ _ hw (hdir _ hT)
  | rmdirSub T s =>
      have hT : T ≠ F := by simpa [Op.writesFor] using h
      exact attempt_keeps _ _ hw (hdir _ hT)
  | unlinkMeta T =>
      have hT : T ≠ F := by simpa [Op.writesFor] using h
      exact attempt_keeps _ _ hw (hdir _ hT)
  | rmdirTx T =>
      have hT : T ≠ F := by simpa [Op.writesFor] using h
      exact attempt_keeps _ _ hw ⟨World.dir_erase_ne hT, rfl⟩
  | readTarget | targetExists | listTx | loadMeta | loadSub | loadIndex | listSub | listTop
  | validate | derive | run | dnsAnswers | tcpListening =>
      rw [exec_quiet (H := H) rfl]
      exact hw

theorem Op.writesFor_eq_false {e : Op} (h : ¬ e.writesFor F = true) : e.writesFor F = false := by
  simpa using h

/-- A permitted `meta.json`, of whichever transaction. -/
theorem Inv.storeMeta {U : Txid} {m : Meta} (h : Inv F P w) (hp : Permit F P Edge (.storeMeta U m) w) :
    Inv F P (w.writeMeta U m) := by
  by_cases hU : U = F
  · subst hU
    obtain ⟨hid, hdirty, hsaved, hedge⟩ := hp rfl
    exact h.writeMeta hid hdirty hsaved hedge
  · exact h.congr_dir (World.writeMeta_dir_ne _ _ hU) (by simp [World.past, hU])

/-- The same, for a write that follows `_ALLOWED`. -/
theorem Inv.advanceMeta {U : Txid} {m : Meta} (h : Inv F P w)
    (hp : Permit F P Advance (.storeMeta U m) w) : Inv F P (w.writeMeta U m) :=
  h.storeMeta hp.edge

/-- **One step.** A permitted operation keeps the invariant. -/
theorem inv_exec {e : Op} (hp : Permit F P Edge e w) (h : Inv F P w) (c : Choice) :
    Inv F P (exec H pid e c w).2 := by
  by_cases hwr : e.writesFor F = true
  case neg =>
    -- an operation for another transaction
    obtain ⟨hdir, hpast⟩ := @exec_other _ _ H pid _ (Op.writesFor_eq_false hwr) c
    exact h.congr_dir hdir hpast
  -- materials are removed of a settled transaction only
  have hshrink : ∀ {v : World}, w.Settled F → v.past F = w.past F →
      (∀ m, v.metaOf F = some m → w.metaOf F = some m) → Inv F P v :=
    fun hset hpast hmeta => h.shrink hset hpast hmeta
  cases e with
  | replaceTarget T p data mode owner =>
      obtain rfl : T = F := by simpa [Op.writesFor] using hwr
      exact faulty_keeps _ h (h.touch (hp rfl) _ _)
  | unlinkTarget T p =>
      obtain rfl : T = F := by simpa [Op.writesFor] using hwr
      exact attempt_keeps _ _ h (h.touch (hp rfl) _ _)
  | makeTx T =>
      obtain rfl : T = F := by simpa [Op.writesFor] using hwr
      refine faulty_keeps _ h (h.congr ?_ ?_ rfl)
      · simp [World.metaOf]
      · simp [TxDir.Saved]
  | storeMeta T m =>
      exact faulty_keeps _ h (h.storeMeta hp)
  | storeDiff T => exact faulty_keeps _ h h
  | storeSub T s leaf data =>
      obtain rfl : T = F := by simpa [Op.writesFor] using hwr
      cases s with
      | candidate =>
          refine faulty_keeps _ h (h.congr ?_ ?_ rfl)
          · simp [World.metaOf, TxDir.setSub]
          · simp [TxDir.Saved, TxDir.setSub]
      | before =>
          refine faulty_keeps _ h (h.materials (hp rfl rfl) rfl ?_)
          simp [World.metaOf, TxDir.setSub]
  | storeIndex T bi =>
      obtain rfl : T = F := by simpa [Op.writesFor] using hwr
      refine faulty_keeps _ h (h.materials (hp rfl) rfl ?_)
      simp [World.metaOf]
  | unlinkSub T s leaf =>
      obtain rfl : T = F := by simpa [Op.writesFor] using hwr
      refine attempt_keeps _ _ h (hshrink (hp rfl) rfl ?_)
      cases s <;> simp [World.metaOf, TxDir.eraseSub, TxDir.setSub]
  | unlinkIndex T =>
      obtain rfl : T = F := by simpa [Op.writesFor] using hwr
      refine attempt_keeps _ _ h (hshrink (hp rfl) rfl ?_)
      simp [World.metaOf]
  | rmdirSub T s =>
      obtain rfl : T = F := by simpa [Op.writesFor] using hwr
      refine attempt_keeps _ _ h (hshrink (hp rfl) rfl ?_)
      cases s <;> simp [World.metaOf, TxDir.setSub]
  | unlinkMeta T =>
      obtain rfl : T = F := by simpa [Op.writesFor] using hwr
      refine attempt_keeps _ _ h (hshrink (hp rfl) rfl ?_)
      simp [World.metaOf]
  | rmdirTx T =>
      obtain rfl : T = F := by simpa [Op.writesFor] using hwr
      refine attempt_keeps _ _ h (hshrink (hp rfl) rfl ?_)
      simp [World.metaOf, World.dir]
  | lock | unlock | readTarget | targetExists | listTx | loadMeta | loadSub | loadIndex | listSub
  | listTop | validate | derive | run | dnsAnswers | tcpListening =>
      simp [Op.writesFor] at hwr

/-- A settled transaction stays settled, when edges are respected. -/
theorem settled_exec {e : Op} (hp : Permit F False Edge e w) (h : w.Settled F) (c : Choice) :
    (exec H pid e c w).2.Settled F := by
  by_cases hwr : e.writesFor F = true
  case neg =>
    obtain ⟨-, hpast⟩ := @exec_other _ _ H pid _ (Op.writesFor_eq_false hwr) c
    obtain ⟨s, hs, hterm⟩ := h
    exact ⟨s, by rw [hpast]; exact hs, hterm⟩
  cases e with
  | storeMeta T m =>
      obtain rfl : T = F := by simpa [Op.writesFor] using hwr
      refine faulty_keeps (I := fun v => v.Settled T) _ h ?_
      obtain ⟨s, hs, hterm⟩ := h
      have hedge := ((hp rfl).2.2.2.resolve_left id) s hs
      exact ⟨m.state, by simp [World.past, lastState], hedge.settled hterm⟩
  | replaceTarget T p data mode owner =>
      obtain rfl : T = F := by simpa [Op.writesFor] using hwr
      refine faulty_keeps (I := fun v => v.Settled T) _ h ?_
      obtain ⟨s, hs, hterm⟩ := h
      exact ⟨s, by simpa [World.past, lastState] using hs, hterm⟩
  | unlinkTarget T p =>
      obtain rfl : T = F := by simpa [Op.writesFor] using hwr
      refine attempt_keeps (I := fun v => v.Settled T) _ _ h ?_
      obtain ⟨s, hs, hterm⟩ := h
      exact ⟨s, by simpa [World.past, lastState] using hs, hterm⟩
  | makeTx T | storeDiff T | storeSub T s leaf data | storeIndex T bi =>
      exact faulty_keeps (I := fun v => v.Settled F) _ h h
  | unlinkSub T s leaf | unlinkIndex T | rmdirSub T s | unlinkMeta T | rmdirTx T =>
      exact attempt_keeps (I := fun v => v.Settled F) _ _ h h
  | lock | unlock | readTarget | targetExists | listTx | loadMeta | loadSub | loadIndex | listSub
  | listTop | validate | derive | run | dnsAnswers | tcpListening =>
      simp [Op.writesFor] at hwr

/-- Operations that leave a trace in the log. -/
def Op.logged : Op → Bool
  | .replaceTarget _ _ _ _ _ | .unlinkTarget _ _ | .storeMeta _ _ => true
  | _ => false

theorem exec_log {e : Op} (h : e.logged = false) (c : Choice) :
    (exec H pid e c w).2.log = w.log := by
  let I : World → Prop := fun v => v.log = w.log
  show I (exec H pid e c w).2
  have hw : I w := rfl
  cases e with
  | replaceTarget | unlinkTarget | storeMeta => simp [Op.logged] at h
  | lock =>
      simp only [exec]
      split
      · exact hw
      · split <;> exact hw
  | unlock =>
      simp only [exec]
      split <;> exact hw
  | makeTx T | storeDiff T | storeSub T s leaf data | storeIndex T bi =>
      exact faulty_keeps _ hw rfl
  | unlinkSub T s leaf | unlinkIndex T | rmdirSub T s | unlinkMeta T | rmdirTx T =>
      exact attempt_keeps _ _ hw rfl
  | readTarget | targetExists | listTx | loadMeta | loadSub | loadIndex | listSub | listTop
  | validate | derive | run | dnsAnswers | tcpListening =>
      rw [exec_quiet (H := H) rfl]

theorem exec_past {e : Op} (h : e.logged = false) (c : Choice) :
    (exec H pid e c w).2.past F = w.past F := by
  rw [World.past, exec_log h, World.past]

/-- Operations on production files. -/
def Op.touches : Op → Bool
  | .replaceTarget _ _ _ _ _ | .unlinkTarget _ _ => true
  | _ => false

/-- Only these change production. -/
theorem exec_files {e : Op} (h : e.touches = false) (c : Choice) :
    (exec H pid e c w).2.files = w.files := by
  let I : World → Prop := fun v => v.files = w.files
  show I (exec H pid e c w).2
  have hw : I w := rfl
  cases e with
  | replaceTarget | unlinkTarget => simp [Op.touches] at h
  | lock =>
      simp only [exec]
      split
      · exact hw
      · split <;> exact hw
  | unlock =>
      simp only [exec]
      split <;> exact hw
  | makeTx T | storeDiff T | storeSub T s leaf data | storeIndex T bi | storeMeta T m =>
      exact faulty_keeps _ hw rfl
  | unlinkSub T s leaf | unlinkIndex T | rmdirSub T s | unlinkMeta T | rmdirTx T =>
      exact attempt_keeps _ _ hw rfl
  | readTarget | targetExists | listTx | loadMeta | loadSub | loadIndex | listSub | listTop
  | validate | derive | run | dnsAnswers | tcpListening =>
      rw [exec_quiet (H := H) rfl]

/-- What `meta.json` holds afterwards it held before, or it was just written. -/
theorem exec_metaOf {e : Op} {c : Choice} {m : Meta}
    (h : (exec H pid e c w).2.metaOf F = some m) : w.metaOf F = some m ∨ e = .storeMeta F m := by
  let I : World → Prop := fun v => v.metaOf F = some m → w.metaOf F = some m ∨ e = .storeMeta F m
  suffices hI : I (exec H pid e c w).2 from hI h
  have hw : I w := Or.inl
  by_cases hwr : e.writesFor F = true
  case neg =>
    obtain ⟨hdir, -⟩ := @exec_other _ w H pid _ (Op.writesFor_eq_false hwr) c
    intro hm
    rw [World.metaOf, hdir] at hm
    exact Or.inl hm
  have hkeep : ∀ {v : World}, (∀ m, v.metaOf F = some m → w.metaOf F = some m) → I v :=
    fun hv hm => Or.inl (hv m hm)
  cases e with
  | replaceTarget T p data mode owner => exact faulty_keeps _ hw (hkeep (fun _ => id))
  | unlinkTarget T p => exact attempt_keeps _ _ hw (hkeep (fun _ => id))
  | storeDiff T => exact faulty_keeps _ hw hw
  | storeMeta T m' =>
      obtain rfl : T = F := by simpa [Op.writesFor] using hwr
      refine faulty_keeps _ hw (fun hm => Or.inr ?_)
      simp only [World.metaOf, World.writeMeta_dir_self, Option.some.injEq] at hm
      rw [hm]
  | makeTx T =>
      obtain rfl : T = F := by simpa [Op.writesFor] using hwr
      exact faulty_keeps _ hw (hkeep (by simp [World.metaOf]))
  | storeSub T s leaf data =>
      obtain rfl : T = F := by simpa [Op.writesFor] using hwr
      exact faulty_keeps _ hw (hkeep (by cases s <;> simp [World.metaOf, TxDir.setSub]))
  | storeIndex T bi =>
      obtain rfl : T = F := by simpa [Op.writesFor] using hwr
      exact faulty_keeps _ hw (hkeep (by simp [World.metaOf]))
  | unlinkSub T s leaf =>
      obtain rfl : T = F := by simpa [Op.writesFor] using hwr
      exact attempt_keeps _ _ hw
        (hkeep (by cases s <;> simp [World.metaOf, TxDir.eraseSub, TxDir.setSub]))
  | unlinkIndex T =>
      obtain rfl : T = F := by simpa [Op.writesFor] using hwr
      exact attempt_keeps _ _ hw (hkeep (by simp [World.metaOf]))
  | rmdirSub T s =>
      obtain rfl : T = F := by simpa [Op.writesFor] using hwr
      exact attempt_keeps _ _ hw (hkeep (by cases s <;> simp [World.metaOf, TxDir.setSub]))
  | unlinkMeta T =>
      obtain rfl : T = F := by simpa [Op.writesFor] using hwr
      exact attempt_keeps _ _ hw (hkeep (by simp [World.metaOf]))
  | rmdirTx T =>
      obtain rfl : T = F := by simpa [Op.writesFor] using hwr
      exact attempt_keeps _ _ hw (hkeep (by simp [World.metaOf, World.dir]))
  | lock | unlock | readTarget | targetExists | listTx | loadMeta | loadSub | loadIndex | listSub
  | listTop | validate | derive | run | dnsAnswers | tcpListening =>
      simp [Op.writesFor] at hwr

/-- Touching production changes no transaction directory, and no last state. -/
theorem touch_keeps {T : Txid} (p : Path) (n : Node) :
    (w.touch T p n).dir F = w.dir F ∧
      lastState ((w.touch T p n).past F) = lastState (w.past F) := by
  refine ⟨rfl, ?_⟩
  by_cases h : T = F <;> simp [World.past, lastState, h]

/-- The lock moves by `lock` and `unlock` only. -/
theorem exec_lock {e : Op} (h : e ≠ .lock) (h' : e ≠ .unlock) (c : Choice) :
    (exec H pid e c w).2.lock = w.lock := by
  let I : World → Prop := fun v => v.lock = w.lock
  show I (exec H pid e c w).2
  have hw : I w := rfl
  cases e with
  | lock => exact absurd rfl h
  | unlock => exact absurd rfl h'
  | makeTx T | storeDiff T | storeSub T s leaf data | storeIndex T bi | storeMeta T m
  | replaceTarget T p data mode owner => exact faulty_keeps _ hw rfl
  | unlinkSub T s leaf | unlinkIndex T | rmdirSub T s | unlinkMeta T | rmdirTx T
  | unlinkTarget T p => exact attempt_keeps _ _ hw rfl
  | readTarget | targetExists | listTx | loadMeta | loadSub | loadIndex | listSub | listTop
  | validate | derive | run | dnsAnswers | tcpListening =>
      rw [exec_quiet (H := H) rfl]

/-- Who acquires the lock found it free. -/
theorem lock_acquired {c : Choice} (h : (exec H pid .lock c w).1 = LockAnswer.acquired) :
    c.yes = true ∧ w.lock = none ∧ (exec H pid .lock c w).2 = { w with lock := some pid } := by
  cases hyes : c.yes with
  | false =>
      rw [exec, if_pos hyes] at h
      cases h
  | true =>
      rw [exec, if_neg (by simp [hyes])] at h ⊢
      cases hl : w.lock with
      | none => exact ⟨rfl, rfl, rfl⟩
      | some j =>
          rw [hl] at h
          cases h

/-- Nobody takes or releases a lock another process holds. -/
theorem exec_lock_other {e : Op} {j : Pid} (hj : j ≠ pid) (h : w.lock = some j) (c : Choice) :
    (exec H pid e c w).2.lock = some j := by
  cases e with
  | lock =>
      simp only [exec, h]
      split <;> exact h
  | unlock => simp [exec, h, hj]
  | _ => rw [exec_lock (by simp) (by simp), h]

end Exec

end ProxyGateway.Pdgtx
