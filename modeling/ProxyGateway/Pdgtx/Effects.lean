import ProxyGateway.Lib.Conduct
import ProxyGateway.Pdgtx.CommitSafe

set_option autoImplicit false

/-!
# ProxyGateway.Pdgtx.Effects

What the methods of a transaction do at most, in three bounds: those that touch neither production nor
the lock and leave targets and dependencies alone (`keeping`), the derivers, which add targets
(`adding`), and those that may also change the paths of the targets (`changing`).
-/

namespace ProxyGateway.Pdgtx

open Method

/-! ### Operations -/

/-- The production path an operation changes. -/
def Op.changes : Op → Option Path
  | .replaceTarget _ p _ _ _ => some p
  | .unlinkTarget _ p => some p
  | _ => none

/-- Operations that change neither production nor the lock. -/
def Op.harmless : Op → Bool
  | .lock | .unlock | .replaceTarget _ _ _ _ _ | .unlinkTarget _ _ => false
  | _ => true

theorem Op.harmless_of_quiet {e : Op} (h : e.quiet = true) : e.harmless = true := by
  cases e <;> first | rfl | simp [Op.quiet] at h

theorem Op.harmless_of_removes {T : Txid} {e : Op} (h : e.removes T = true) : e.harmless = true := by
  cases e <;> first | rfl | simp [Op.removes] at h

/-- A program of such operations. -/
abbrev Harmless {α : Type} (p : Proc α) : Prop := p.Only (fun e => e.harmless = true)

theorem harmless_perform {e : Op} (h : e.harmless = true) : Harmless (perform e) := Prog.only_perform h

theorem harmless_of_quiet {α : Type} {p : Proc α} (h : Quiet p) : Harmless p :=
  h.mono fun _ he => Op.harmless_of_quiet he

theorem harmless_of_removing {α : Type} {T : Txid} {p : Proc α} (h : Removing T p) : Harmless p :=
  h.mono fun _ he => he.elim Op.harmless_of_quiet Op.harmless_of_removes

theorem harmless_of_tidying {α : Type} {p : Proc α} (h : Tidying p) : Harmless p := by
  refine h.mono fun e he => ?_
  obtain hquiet | ⟨T, hremoves⟩ := he
  · exact Op.harmless_of_quiet hquiet
  · exact Op.harmless_of_removes hremoves

section Calls

variable {α σ : Type} {H : Host} {K : Conduct Op σ} {l : σ}

theorem obeys_require (b : Bool) (e : Exn) : Obeys K (require b e : MethodOf σ Unit) l := by
  unfold require
  split
  · exact obeys_ret ()
  · exact obeys_raise e

theorem obeys_must {p : Proc Done} (h : p.Only (K.ops l)) : Obeys K (must p : MethodOf σ Unit) l := by
  unfold must
  exact (obeys_call h).bind fun ok _ _ => obeys_require ok .other

theorem obeys_readTarget (hK : ∀ l e, e.harmless = true → K.ops l e) (p : Path) :
    Obeys K (readTarget p : MethodOf σ _) l := by
  unfold readTarget
  refine (obeys_call (Prog.only_perform (hK _ _ rfl))).bind fun node _ _ => ?_
  split
  · exact obeys_ret _
  · exact obeys_ret _
  · exact obeys_raise _

theorem obeys_resolved (r : Option Resolved) : Obeys K (resolved r : MethodOf σ _) l := by
  cases r with
  | none => exact obeys_raise _
  | some r => exact obeys_ret r

theorem obeys_resolveTarget (hK : ∀ l e, e.harmless = true → K.ops l e) (name : Name) :
    Obeys K (resolveTarget H name : MethodOf σ _) l := by
  unfold resolveTarget
  split
  · unfold readCertDir
    refine Obeys.bind (Obeys.bind (obeys_call (Prog.only_perform (hK _ _ rfl))) fun node _ _ => ?_) fun _ _ _ =>
      obeys_resolved _
    split
    · exact obeys_ret _
    · split
      · exact obeys_ret _
      · exact obeys_raise _
  · exact obeys_resolved _

end Calls

/-! ### The bounds -/

/-- Targets, dependencies and what was read are the same. -/
structure Tx.Same (s s' : Tx) : Prop where
  targets : s'.targets = s.targets
  watches : s'.watches = s.watches
  readSha : s'.readSha = s.readSha
  derivers : s'.derivers = s.derivers

theorem Tx.Same.refl (s : Tx) : s.Same s := ⟨rfl, rfl, rfl, rfl⟩

theorem Tx.Same.trans {s t u : Tx} (h : s.Same t) (h' : t.Same u) : s.Same u where
  targets := h'.targets.trans h.targets
  watches := h'.watches.trans h.watches
  readSha := h'.readSha.trans h.readSha
  derivers := h'.derivers.trans h.derivers

/-- No operation on production, and the same targets. -/
def keeping : Conduct Op Tx where
  ops := fun _ e => e.harmless = true
  moves := Tx.Same
  refl := Tx.Same.refl
  trans := Tx.Same.trans
  mono := fun _ he => he

/-- The targets of names outside `names` are the same, and one of these names that was read expects
what was read. -/
structure Tx.Grown (names : List Name) (s s' : Tx) : Prop where
  kept : ∀ name, name ∉ names → s'.targets.get? name = s.targets.get? name
  added : ∀ name target, s'.targets.get? name = some target →
    s.targets.get? name = some target ∨ (name ∈ names ∧ ∀ d, s.readSha.get? name = some d → target.expect = d)
  watches : s'.watches = s.watches
  readSha : s'.readSha = s.readSha

/-- No operation on production, and only targets of these names are added. -/
def adding (names : List Name) : Conduct Op Tx where
  ops := fun _ e => e.harmless = true
  moves := Tx.Grown names
  refl := fun _ => ⟨fun _ _ => rfl, fun _ _ h => .inl h, rfl, rfl⟩
  trans := fun {s t u} h h' => by
    refine ⟨fun name hname => (h'.kept name hname).trans (h.kept name hname), fun name target htarget => ?_,
      h'.watches.trans h.watches, h'.readSha.trans h.readSha⟩
    obtain hbefore | ⟨hname, hread⟩ := h'.added name target htarget
    · exact h.added name target hbefore
    · exact .inr ⟨hname, h.readSha ▸ hread⟩
  mono := fun _ he => he

/-- Harmless operations, and changes of the targets' paths. -/
def changing : Conduct Op Tx where
  ops := fun s e => e.harmless = true ∨ ∃ q ∈ s.targets, e.changes = some q.2.path
  moves := Tx.Same
  refl := Tx.Same.refl
  trans := Tx.Same.trans
  mono := fun h he => h.targets ▸ he

section Effects

variable {α β : Type} {H : Host} {s : Tx}

theorem Tx.Same.grown {names : List Name} {s' : Tx} (h : s.Same s') : s.Grown names s' where
  kept := fun _ _ => by rw [h.targets]
  added := fun _ _ htarget => .inl (h.targets ▸ htarget)
  watches := h.watches
  readSha := h.readSha

theorem obeys_adding {names : List Name} {m : TxM α} (h : Obeys keeping m s) : Obeys (adding names) m s where
  only := h.only
  moves := fun r hr => (h.moves r hr).grown

theorem obeys_changing {m : TxM α} (h : Obeys keeping m s) : Obeys changing m s where
  only := h.only.mono fun _ he => .inl he
  moves := h.moves

/-- Assigning other fields. -/
theorem keeping_assign {f : Tx → Tx} (h : s.Same (f s)) : Obeys keeping (assign f : TxM Unit) s := obeys_assign h

theorem keeping_call {p : Proc α} (h : Harmless p) : Obeys keeping (call p : TxM α) s := obeys_call h

theorem keeping_require (b : Bool) (e : Exn) : Obeys keeping (require b e : TxM Unit) s := obeys_require b e

theorem keeping_must {p : Proc Done} (h : Harmless p) : Obeys keeping (must p : TxM Unit) s := obeys_must h

theorem keeping_readTarget (p : Path) : Obeys keeping (readTarget p : TxM _) s := obeys_readTarget (fun _ _ => id) p

theorem keeping_resolveTarget (name : Name) : Obeys keeping (resolveTarget H name : TxM _) s :=
  obeys_resolveTarget (fun _ _ => id) name

theorem keeping_saveMeta : Obeys keeping saveMeta s := by
  unfold saveMeta
  refine obeys_assign_bind ⟨rfl, rfl, rfl, rfl⟩ ?_
  refine obeys_self_bind ?_
  exact keeping_must (harmless_perform rfl)

theorem keeping_setState (new : State) : Obeys keeping (setState new) s := by
  unfold setState
  refine obeys_self_bind ?_
  refine (keeping_require _ _).bind fun _ _ _ => ?_
  exact obeys_assign_bind ⟨rfl, rfl, rfl, rfl⟩ keeping_saveMeta

/-! ### Up to the preconditions -/

theorem keeping_checkPending : Obeys keeping checkPending s := by
  unfold checkPending
  refine obeys_self_bind ?_
  refine (keeping_call (harmless_of_quiet (quiet_pendingRecovery _))).bind fun pend _ _ => ?_
  exact keeping_require _ _

/-- A derived target expects what was read for it, or else what is there now. -/
theorem adding_stageDerived {names : List Name} {name : Name} (hname : name ∈ names) (data : Bytes) :
    Obeys (adding names) (stageDerived H name data) s := by
  unfold stageDerived
  refine (obeys_adding (keeping_resolveTarget name)).bind fun r _ _ => ?_
  refine (obeys_adding (keeping_readTarget r.path)).bind fun cur _ _ => ?_
  refine obeys_self_bind ?_
  refine (obeys_adding (keeping_must (harmless_perform rfl))).bind fun _ u _ => obeys_assign ?_
  refine ⟨fun other hother => ?_, fun other target htarget => ?_, rfl, rfl⟩
  · have hne : name ≠ other := fun heq => hother (heq ▸ hname)
    exact Dict.get?_set_ne hne _ _
  · rw [Dict.get?_set] at htarget
    split at htarget
    · next heq =>
      subst heq
      cases htarget
      refine .inr ⟨hname, fun d hd => ?_⟩
      show (u.readSha.get? name).getD _ = d
      rw [hd]
      rfl
    · exact .inl htarget

theorem adding_deriveAll : Obeys (adding (s.derivers.map Prod.fst)) (deriveAll H) s := by
  unfold deriveAll
  refine obeys_self_bind ?_
  refine Obeys.each fun d hd t _ => ?_
  unfold deriveOne
  refine obeys_self_bind ?_
  refine (obeys_adding (keeping_call (harmless_of_quiet (quiet_derive _ _)))).bind fun out _ _ => ?_
  split
  · exact adding_stageDerived (List.mem_map_of_mem hd) _
  · exact obeys_raise _
  · exact obeys_raise _
  · exact obeys_raise _

theorem keeping_scope : Obeys keeping scope s := by
  unfold scope
  refine obeys_self_bind ?_
  refine (keeping_require _ _).bind fun _ _ _ => ?_
  split
  · exact obeys_assign_bind ⟨rfl, rfl, rfl, rfl⟩ (obeys_raise _)
  · exact keeping_assign ⟨rfl, rfl, rfl, rfl⟩

theorem keeping_precondition (b : Bool) : Obeys keeping (precondition b) s := by
  unfold precondition
  split
  · exact obeys_ret ()
  · exact obeys_assign_bind ⟨rfl, rfl, rfl, rfl⟩ (obeys_raise _)

theorem keeping_checkGuards : Obeys keeping checkGuards s := by
  unfold checkGuards
  refine obeys_self_bind ?_
  refine Obeys.each fun u _ t _ => ?_
  unfold checkGuard
  refine obeys_self_bind ?_
  split
  · exact obeys_ret ()
  · refine (keeping_call (harmless_of_quiet (quiet_svcPropEx _ _))).bind fun answer _ _ => ?_
    exact keeping_precondition _

theorem keeping_baseline : Obeys keeping baseline s := by
  unfold baseline
  refine obeys_self_bind ?_
  refine (keeping_call (harmless_of_quiet (quiet_healthSnapshot _ _))).bind fun base _ _ => ?_
  refine (keeping_call (harmless_of_quiet (quiet_each_svcActive _))).bind fun _ _ _ => ?_
  exact (keeping_require _ _).bind fun _ _ _ => obeys_ret base

/-! ### From the validators on -/

theorem keeping_validateAll : Obeys keeping validateAll s := by
  unfold validateAll
  refine obeys_self_bind ?_
  refine Obeys.each fun p _ t _ => ?_
  unfold validateTarget
  split
  · exact obeys_ret ()
  · refine Obeys.each fun v _ u _ => ?_
    unfold validateOne
    refine obeys_self_bind ?_
    refine (keeping_call (harmless_of_quiet (quiet_validate _ _ _ _))).bind fun verdict _ _ => ?_
    split
    · exact obeys_raise _
    · exact keeping_saveMeta
    · exact keeping_saveMeta.bind fun _ _ _ => obeys_raise _

theorem keeping_writeDiff : Obeys keeping writeDiff s := by
  unfold writeDiff
  refine obeys_self_bind ?_
  refine Obeys.bind (Obeys.each fun p _ t _ => ?_) fun _ _ _ => ?_
  · exact (keeping_readTarget _).bind fun _ _ _ => obeys_ret ()
  · exact keeping_must (harmless_perform rfl)

theorem keeping_saveFiles (ps : List (Name × Target)) : Obeys keeping (saveFiles H ps) s := by
  induction ps generalizing s with
  | nil => exact obeys_ret []
  | cons p rest ih =>
      obtain ⟨name, t⟩ := p
      unfold saveFiles
      refine (keeping_readTarget _).bind fun cur _ _ => ?_
      split
      · exact ih.bind fun _ _ _ => obeys_ret _
      · refine obeys_self_bind ?_
        refine (keeping_must (harmless_perform rfl)).bind fun _ _ _ => ?_
        exact ih.bind fun _ _ _ => obeys_ret _

theorem keeping_saveServices (us : List ServiceUnit) : Obeys keeping (saveServices us) s := by
  induction us generalizing s with
  | nil => exact obeys_ret []
  | cons u rest ih =>
      unfold saveServices
      refine (keeping_call (harmless_of_quiet (quiet_svcPropEx _ _))).bind fun en _ _ => ?_
      refine (keeping_call (harmless_of_quiet (quiet_svcPropEx _ _))).bind fun nr _ _ => ?_
      refine (keeping_call (harmless_of_quiet (quiet_svcPropEx _ _))).bind fun st _ _ => ?_
      refine (keeping_require _ _).bind fun _ _ _ => ?_
      refine (keeping_require _ _).bind fun _ _ _ => ?_
      refine (keeping_require _ _).bind fun _ _ _ => ?_
      exact ih.bind fun _ _ _ => obeys_ret _

theorem keeping_saveBefore : Obeys keeping (saveBefore H) s := by
  unfold saveBefore
  refine obeys_self_bind ?_
  refine (keeping_saveFiles _).bind fun files _ _ => ?_
  refine (keeping_saveServices _).bind fun services _ _ => ?_
  refine (keeping_call (harmless_of_quiet (quiet_saveSysctl _))).bind fun sysctl _ _ => ?_
  refine (keeping_call (harmless_of_quiet (quiet_saveNft _ _))).bind fun nft _ _ => ?_
  refine (keeping_must (harmless_perform rfl)).bind fun _ _ _ => ?_
  exact obeys_assign_bind ⟨rfl, rfl, rfl, rfl⟩ keeping_saveMeta

theorem keeping_takeBefore : Obeys keeping (takeBefore H) s := by
  unfold takeBefore
  refine (keeping_setState _).bind fun _ _ _ => ?_
  exact keeping_saveBefore.tryCatch fun _ _ _ => obeys_raise _

theorem keeping_observe (base : Dict Gate Bool) : Obeys keeping (observe base) s := by
  unfold observe
  refine obeys_self_bind ?_
  refine (keeping_call (harmless_of_quiet (quiet_observeUnits _ _ _))).bind fun good _ _ => ?_
  split
  · refine (keeping_call (harmless_of_quiet (quiet_healthSnapshot _ _))).bind fun after _ _ => ?_
    exact keeping_saveMeta.bind fun _ _ _ => obeys_ret _
  · exact obeys_ret false

theorem keeping_cleanupMaterials : Obeys keeping cleanupMaterials s := by
  unfold cleanupMaterials
  refine obeys_self_bind ?_
  split
  · exact keeping_call (harmless_of_removing (Prog.Only.collect (removing_cleanupSub _) _))
  · exact obeys_ret []

theorem keeping_noteLeftovers (left : List Sub) : Obeys keeping (noteLeftovers left) s := by
  unfold noteLeftovers
  split
  · exact obeys_ret ()
  · exact keeping_saveMeta.tryCatch fun _ _ _ => obeys_ret ()

theorem keeping_settle : Obeys keeping (settle H) s := by
  unfold settle
  refine keeping_cleanupMaterials.bind fun left _ _ => ?_
  refine (keeping_noteLeftovers left).bind fun _ _ _ => ?_
  refine (keeping_call (harmless_of_tidying (tidying_gc H))).bind fun _ _ _ => ?_
  exact obeys_self_bind (obeys_ret _)

theorem keeping_finish : Obeys keeping (finish H) s := by
  unfold finish
  refine (keeping_setState _).bind fun _ _ _ => ?_
  exact keeping_saveMeta.bind fun _ _ _ => keeping_settle

theorem keeping_abortWith (cls : String) : Obeys keeping (abortWith cls) s := by
  unfold abortWith
  refine obeys_self_bind ?_
  split
  · refine (keeping_assign ⟨rfl, rfl, rfl, rfl⟩).bind fun _ _ _ => ?_
    refine obeys_assign_bind ⟨rfl, rfl, rfl, rfl⟩ ?_
    refine keeping_saveMeta.bind fun _ _ _ => ?_
    exact keeping_cleanupMaterials.bind fun left _ _ => keeping_noteLeftovers left
  · exact obeys_ret ()

theorem keeping_commitFailed (e : Exn) : Obeys keeping (commitFailed e) s := by
  unfold commitFailed
  split
  · exact (keeping_abortWith _).bind fun _ _ _ => obeys_raise _
  · exact (keeping_abortWith _).bind fun _ _ _ => obeys_raise _
  · exact obeys_raise _

theorem keeping_verifyAll (files : Dict Name BeforeRec) (ps : List (Name × Target)) :
    Obeys keeping (verifyAll H files ps) s := by
  induction ps generalizing s with
  | nil => exact obeys_ret true
  | cons p rest ih =>
      unfold verifyAll
      refine (keeping_readTarget _).bind fun cur _ _ => ?_
      exact ih.bind fun _ _ _ => obeys_ret _

/-! ### Changing production -/

theorem changing_must {e : Op} {q : Name × Target} (hq : q ∈ s.targets) (h : e.changes = some q.2.path)
    {p : Proc Done} (hp : p.Only (fun e' => e' = e)) : Obeys changing (must p : TxM Unit) s :=
  obeys_must (hp.mono fun _ he => .inr ⟨q, hq, he ▸ h⟩)

theorem changing_applyOne {p : Name × Target} (hp : p ∈ s.targets) : Obeys changing (applyOne p) s := by
  unfold applyOne
  refine obeys_self_bind ?_
  split
  · split
    · exact changing_must hp rfl (Prog.only_perform rfl)
    · exact obeys_ret ()
  · split
    · exact changing_must hp rfl (Prog.only_perform rfl)
    · split
      · exact changing_must hp rfl (Prog.only_perform rfl)
      · exact changing_must hp rfl (Prog.only_perform rfl)

theorem changing_restoreAll (T : Txid) (files : Dict Name BeforeRec) {ps : List (Name × Target)}
    (hps : ∀ p ∈ ps, p ∈ s.targets) : (restoreAll T files ps).Only (changing.ops s) := by
  induction ps with
  | nil => trivial
  | cons p rest ih =>
      have hchange (e : Op) (he : e.changes = some p.2.path) : changing.ops s e := .inr ⟨p, hps p List.mem_cons_self, he⟩
      unfold restoreAll
      refine Prog.Only.bind ?_ fun ok => ?_
      · unfold restoreOne
        split
        · refine Prog.Only.bind (Prog.only_perform (.inl rfl)) fun data => ?_
          split
          · exact Prog.only_perform (hchange _ rfl)
          · trivial
        · refine Prog.Only.bind (Prog.only_perform (.inl rfl)) fun there => ?_
          cases there with
          | true => exact Prog.only_perform (hchange _ rfl)
          | false => trivial
      · exact Prog.Only.bind (ih fun q hq => hps q (List.mem_cons_of_mem _ hq)) fun _ => trivial

theorem changing_rollback : Obeys changing (rollback H) s := by
  unfold rollback
  refine obeys_assign_bind ⟨rfl, rfl, rfl, rfl⟩ ?_
  refine (obeys_changing (keeping_setState _)).bind fun _ t _ => ?_
  refine obeys_self_bind ?_
  refine Obeys.bind (obeys_call (changing_restoreAll _ _ fun p hp => Dict.mem_sorted.mp hp)) fun files _ _ => ?_
  refine obeys_changing ?_
  refine (keeping_call (harmless_of_quiet (quiet_restoreRuntime _ _))).bind fun runtime _ _ => ?_
  refine (keeping_verifyAll _ _).bind fun verified _ _ => ?_
  refine (keeping_assign ⟨rfl, rfl, rfl, rfl⟩).bind fun _ _ _ => ?_
  split
  · exact (keeping_setState _).bind fun _ _ _ => keeping_settle
  · exact (keeping_setState _).bind fun _ _ _ => obeys_ret _

theorem changing_applyAll (base : Dict Gate Bool) : Obeys changing (applyAll H base) s := by
  unfold applyAll
  refine obeys_self_bind ?_
  refine Obeys.bind (Obeys.each fun p hp t ht => ?_) fun _ _ _ => obeys_changing ?_
  · exact changing_applyOne (ht.targets ▸ Dict.mem_sorted.mp hp)
  · refine (keeping_assign ⟨rfl, rfl, rfl, rfl⟩).bind fun _ _ _ => ?_
    refine keeping_saveMeta.bind fun _ _ _ => ?_
    refine (keeping_call (harmless_of_quiet (quiet_doActions _ _))).bind fun ok _ _ => ?_
    refine (keeping_require _ _).bind fun _ _ _ => ?_
    refine (keeping_setState _).bind fun _ _ _ => ?_
    refine (keeping_observe base).bind fun good _ _ => ?_
    exact keeping_require _ _

end Effects

end ProxyGateway.Pdgtx
