import ProxyGateway.Pdgtx.History
import ProxyGateway.Pdgtx.Recover

set_option autoImplicit false

/-!
# ProxyGateway.Pdgtx.Discipline

Processes judged for one transaction `F`, whichever transaction they work on.

`process` is the setting of such a judgement. The process may only perform
operations permitted for `F` (`Permit`); while it works on `F` itself and `F`
needs recovery, it holds the lock. It relies on the others to keep the invariant,
not to take its lock, to leave a settled transaction settled and, as long as it
depends on `F` (`own`), to leave `F` alone.

This file judges the programs shared by all processes: reading, removing the
materials of a settled transaction, and `gc`.
-/

namespace ProxyGateway.Pdgtx

open Method

/-- What a process depends on, which of its operations need the lock while the
transaction needs recovery, which of its steps are considered, which state edges it
may take, and what holds when it writes for the transaction other than by removing. -/
structure Role where
  own : World → Prop
  locks : Op → Prop
  allow : Op → Choice → World → Prop
  edges : State → State → Prop
  legal : ∀ s s', edges s s' → Edge s s'
  writes : Op → World → Prop

/-- The operations that remove something of a transaction directory. -/
def Op.removes (T : Txid) : Op → Bool
  | .unlinkSub U _ _ | .unlinkIndex U | .rmdirSub U _ | .unlinkMeta U | .rmdirTx U => U = T
  | _ => false

/-- Writing for `F`, unless it is a removal, asks for what the role says. -/
def Role.Writes (R : Role) (F : Txid) (e : Op) (w : World) : Prop :=
  e.writesFor F = true → e.removes F = true ∨ R.writes e w

/-- The setting of a process judged for `F`. -/
def process (H : Host) (pid : Pid) (F : Txid) (P : Prop) (R : Role) :
    Setting Op Op.Answer Choice World where
  exec := exec H pid
  allow := R.allow
  rely := fun w w' => (Inv F P w → Inv F P w') ∧ (w.lock = some pid → w'.lock = some pid) ∧
    (w.Settled F → w'.Settled F) ∧
    (R.own w → R.own w' ∧ w'.past F = w.past F ∧ (¬ w.Settled F → w'.dir F = w.dir F))
  permit := fun e w => Permit F P R.edges e w ∧
    (R.locks e → P ∨ (w.Pending F → w.lock = some pid)) ∧ R.Writes F e w
  rely_refl := fun _ => ⟨id, id, id, fun h => ⟨h, rfl, fun _ => rfl⟩⟩
  rely_trans := by
    rintro a b c ⟨h1, h2, h3, h4⟩ ⟨g1, g2, g3, g4⟩
    refine ⟨fun h => g1 (h1 h), fun h => g2 (h2 h), fun h => g3 (h3 h), ?_⟩
    intro ha
    obtain ⟨hb, hpast, hdir⟩ := h4 ha
    obtain ⟨hc, hpast', hdir'⟩ := g4 hb
    refine ⟨hc, hpast'.trans hpast, fun hn => ?_⟩
    have hn' : ¬ b.Settled F := by
      rintro ⟨s, hs, ht⟩
      exact hn ⟨s, by rw [← hpast]; exact hs, ht⟩
    exact (hdir' hn').trans (hdir hn)

/-! ### Assertions the shared programs keep -/

/-- An assertion a process can carry along: it survives the others, and while it holds
the lock rule is met. -/
structure Carried (H : Host) (pid : Pid) (F : Txid) (P : Prop) (R : Role) (J : World → Prop) :
    Prop where
  inv : ∀ w, J w → Inv F P w
  stable : ∀ w w', J w → (process H pid F P R).rely w w' → J w'
  locked : ∀ e w, J w → R.locks e → P ∨ (w.Pending F → w.lock = some pid)

/-- A carried assertion that also survives removals. -/
structure Removable (H : Host) (pid : Pid) (F : Txid) (P : Prop) (R : Role) (J : World → Prop) :
    Prop extends Carried H pid F P R J where
  removed : ∀ T e c w, e.removes T = true → Permit F P R.edges e w → J w → J (exec H pid e c w).2

section Shared

variable {H : Host} {pid : Pid} {F : Txid} {P : Prop} {R : Role} {J : World → Prop} {w : World}
  {α : Type}

theorem permit_of_quiet {e : Op} (h : e.quiet = true) (w : World) : Permit F P R.edges e w := by
  cases e with
  | readTarget | targetExists | listTx | loadMeta | loadSub | loadIndex | listSub | listTop
  | validate | derive | run | dnsAnswers | tcpListening => trivial
  | _ => simp [Op.quiet] at h

theorem writes_of_quiet {e : Op} (h : e.quiet = true) (w : World) : R.Writes F e w := by
  cases e with
  | readTarget | targetExists | listTx | loadMeta | loadSub | loadIndex | listSub | listTop
  | validate | derive | run | dnsAnswers | tcpListening => exact fun hw => Bool.noConfusion hw
  | _ => simp [Op.quiet] at h

theorem writes_of_removes {T : Txid} {e : Op} (h : e.removes T = true) (w : World) :
    R.Writes F e w := by
  cases e with
  | unlinkSub | unlinkIndex | rmdirSub | unlinkMeta | rmdirTx => exact fun hw => Or.inl hw
  | _ => simp [Op.removes] at h

/-- Removing something changes neither the past nor the lock. -/
theorem exec_removes {T : Txid} {e : Op} (h : e.removes T = true) (c : Choice) (w : World) :
    (exec H pid e c w).2.log = w.log ∧ (exec H pid e c w).2.lock = w.lock := by
  let I : World → Prop := fun v => v.log = w.log ∧ v.lock = w.lock
  have hw : I w := ⟨rfl, rfl⟩
  show I (exec H pid e c w).2
  cases e with
  | unlinkSub U s leaf | unlinkIndex U | rmdirSub U s | unlinkMeta U | rmdirTx U =>
      exact attempt_keeps _ _ hw hw
  | _ => simp [Op.removes] at h

theorem settled_removes {T : Txid} {e : Op} (h : e.removes T = true) (c : Choice)
    (hw : w.Settled F) : (exec H pid e c w).2.Settled F := by
  obtain ⟨s, hs, hterm⟩ := hw
  refine ⟨s, ?_, hterm⟩
  rw [World.past, (exec_removes h c w).1]
  exact hs

theorem permit_of_removes {T : Txid} {e : Op} (h : e.removes T = true)
    (hset : T = F → w.Settled F) : Permit F P R.edges e w := by
  cases e with
  | unlinkSub U s leaf | unlinkIndex U | rmdirSub U s | unlinkMeta U | rmdirTx U =>
      obtain rfl : U = T := by simpa [Op.removes] using h
      exact hset
  | _ => simp [Op.removes] at h

/-- The lock, and the invariant. -/
def Held (pid : Pid) (F : Txid) (P : Prop) (w : World) : Prop :=
  Inv F P w ∧ w.lock = some pid

theorem removable_held : Removable H pid F P R (Held pid F P) where
  inv := fun _ h => h.1
  stable := fun _ _ h hr => ⟨hr.1 h.1, hr.2.1 h.2⟩
  locked := fun _ _ h _ => Or.inr (fun _ => h.2)
  removed := fun _ _ c w hrem hp h =>
    ⟨inv_exec (hp.mono R.legal) h.1 c, by rw [(exec_removes hrem c w).2]; exact h.2⟩

/-- "`F` is settled" survives along with such an assertion. -/
theorem Removable.settled (hJ : Removable H pid F P R J) (Q : Prop) :
    Removable H pid F P R (fun w => J w ∧ (Q → w.Settled F)) where
  inv := fun w h => hJ.inv w h.1
  stable := fun w w' h hr => ⟨hJ.stable w w' h.1 hr, fun hq => hr.2.2.1 (h.2 hq)⟩
  locked := fun e w h => hJ.locked e w h.1
  removed := fun T e c w hrem hp h =>
    ⟨hJ.removed T e c w hrem hp h.1, fun hq => settled_removes hrem c (h.2 hq)⟩

/-- Asking keeps every carried assertion. -/
theorem sat_quiet (hJ : Carried H pid F P R J) {p : Proc α} (hq : Quiet p) (h : J w) :
    Prog.Sat (process H pid F P R) (fun _ w => J w) p w := by
  refine Prog.Only.sat_keeps hq hJ.stable ?_ h
  intro e he v hv
  refine ⟨⟨permit_of_quiet he v, hJ.locked e v hv, writes_of_quiet he v⟩, fun c _ => ?_⟩
  show J (exec H pid e c v).2
  rw [exec_quiet he]
  exact hv

theorem sat_quiet_perform (hJ : Carried H pid F P R J) {e : Op} (hq : e.quiet = true) (h : J w) :
    Prog.Sat (process H pid F P R) (fun _ w => J w) (perform e) w :=
  sat_quiet hJ (Prog.only_perform hq) h

/-! ### Removing the materials of a settled transaction -/

/-- The operations that clear the material directories of a transaction. -/
def Op.clears (T : Txid) : Op → Bool
  | .unlinkSub U _ _ | .unlinkIndex U | .rmdirSub U _ => U = T
  | _ => false

theorem Op.removes_of_clears {T : Txid} {e : Op} (h : e.clears T = true) : e.removes T = true := by
  cases e <;> simp_all [Op.clears, Op.removes]

/-- Quiet, or clearing materials of `T`. -/
abbrev Clearing (T : Txid) (p : Proc α) : Prop :=
  p.Only (fun e => e.quiet = true ∨ e.clears T = true)

/-- Quiet, or a removal of `T`. -/
abbrev Removing (T : Txid) (p : Proc α) : Prop :=
  p.Only (fun e => e.quiet = true ∨ e.removes T = true)

theorem Clearing.removing {T : Txid} {p : Proc α} (h : Clearing T p) : Removing T p :=
  h.mono (fun _ he => he.imp id Op.removes_of_clears)

theorem clearing_perform {T : Txid} {e : Op} (h : e.clears T = true) : Clearing T (perform e) :=
  Prog.only_perform (Or.inr h)

theorem removing_perform {T : Txid} {e : Op} (h : e.removes T = true) : Removing T (perform e) :=
  Prog.only_perform (Or.inr h)

theorem clearing_unlinkAll (b : Bool) (T : Txid) (s : Sub) (leaves : List Leaf) :
    Clearing T (unlinkAll b T s leaves) := by
  induction leaves with
  | nil => trivial
  | cons leaf rest ih =>
      refine Prog.Only.bind (clearing_perform (by simp [Op.clears])) (fun ok => ?_)
      split
      · exact ih.bind (fun _ => trivial)
      · trivial

theorem clearing_rmtreeSub (b : Bool) (T : Txid) (s : Sub) : Clearing T (rmtreeSub b T s) := by
  refine Prog.Only.bind (Prog.only_perform (Or.inl rfl)) (fun listing => ?_)
  cases listing with
  | none => trivial
  | some l =>
      obtain ⟨leaves, hasIndex⟩ := l
      refine (clearing_unlinkAll b T s leaves).bind (fun files => ?_)
      split
      · refine Prog.Only.bind ?_ (fun index => ?_)
        · cases hasIndex with
          | true => exact clearing_perform (by simp [Op.clears])
          | false => trivial
        · split
          · exact Prog.Only.bind (clearing_perform (by simp [Op.clears])) (fun _ => trivial)
          · trivial
      · trivial

theorem clearing_cleanupSub (T : Txid) (s : Sub) : Clearing T (cleanupSub T s) := by
  refine (clearing_rmtreeSub false T s).bind (fun r => ?_)
  split
  · trivial
  · trivial
  · exact Prog.Only.bind (Prog.only_perform (Or.inl rfl)) (fun _ => trivial)

theorem clearing_removeMaterials (T : Txid) : Clearing T (removeMaterials T) :=
  (clearing_rmtreeSub _ _ _).bind (fun _ => (clearing_rmtreeSub _ _ _).bind (fun _ => trivial))

theorem removing_cleanupSub (T : Txid) (s : Sub) : Removing T (cleanupSub T s) :=
  (clearing_cleanupSub T s).removing

theorem removing_removeMaterials (T : Txid) : Removing T (removeMaterials T) :=
  (clearing_removeMaterials T).removing

theorem removing_rmtreeTx (T : Txid) : Removing T (rmtreeTx T) := by
  refine Prog.Only.bind (Prog.only_perform (Or.inl rfl)) (fun order => ?_)
  refine Prog.Only.bind ?_ (fun _ => ?_)
  · induction order with
    | nil => trivial
    | cons top rest ih =>
        refine Prog.Only.bind ?_ (fun _ => ih)
        cases top with
        | metaJson =>
            exact Prog.Only.bind (removing_perform (by simp [Op.removes])) (fun _ => trivial)
        | sub s => exact (clearing_rmtreeSub _ _ _).removing.bind (fun _ => trivial)
  · exact Prog.Only.bind (removing_perform (by simp [Op.removes])) (fun _ => trivial)

/-- Only quiet operations, or removals of some transaction. -/
abbrev Tidying (p : Proc α) : Prop :=
  p.Only (fun e => e.quiet = true ∨ ∃ T, e.removes T = true)

theorem Removing.tidying {T : Txid} {p : Proc α} (h : Removing T p) : Tidying p :=
  h.mono (fun _ he => he.imp id (fun hr => ⟨T, hr⟩))

theorem tidying_gc (H : Host) : Tidying (gc H) := by
  refine Prog.Only.bind (Prog.only_perform (Or.inl rfl)) (fun names => ?_)
  generalize names.insertionSort (fun a b => b ≤ a) = sorted
  generalize 0 = kept
  induction sorted generalizing kept with
  | nil => trivial
  | cons d rest ih =>
      refine Prog.Only.bind (Prog.only_perform (Or.inl rfl)) (fun m => ?_)
      cases m with
      | none => exact ih kept
      | some m =>
          dsimp only
          split
          · refine Prog.Only.bind ?_ (fun _ => ih (kept + 1))
            unfold dropOld
            split
            · exact (removing_rmtreeTx d).tidying
            · trivial
          · exact ih kept

/-- Removing materials of `T` keeps a removable assertion, `F` itself being settled if it
is `T`. -/
theorem sat_removing (hJ : Removable H pid F P R J) {T : Txid} {p : Proc α} (hp : Removing T p)
    (h : J w) (hset : T = F → w.Settled F) :
    Prog.Sat (process H pid F P R) (fun _ w => J w) p w := by
  have hJ' := hJ.settled (T = F)
  refine Prog.Sat.mono (P := fun _ v => J v ∧ (T = F → v.Settled F)) ?_ (fun _ _ hv => hv.1)
  refine Prog.Only.sat_keeps hp hJ'.stable ?_ ⟨h, hset⟩
  rintro e (he | he) v hv
  · refine ⟨⟨permit_of_quiet he v, hJ'.locked e v hv, writes_of_quiet he v⟩, fun c _ => ?_⟩
    show J (exec H pid e c v).2 ∧ (T = F → (exec H pid e c v).2.Settled F)
    rw [exec_quiet he]
    exact hv
  · have hperm : Permit F P R.edges e v := permit_of_removes he hv.2
    exact ⟨⟨hperm, hJ'.locked e v hv, writes_of_removes he v⟩,
      fun c _ => hJ'.removed T e c v he hperm hv⟩

/-! ### Collecting garbage -/

/-- A settled state read from the `meta.json` of `F` says that `F` is settled. -/
theorem sat_loadMeta_settled (hJ : Carried H pid F P R J) (d : Txid) (h : J w) :
    Prog.Sat (process H pid F P R)
      (fun m v => J v ∧ ∀ x, m = some x → x.state.gcTerminal = true → d = F → v.Settled F)
      (perform (.loadMeta d)) w := by
  refine Prog.sat_perform (fun v hv => ?_)
  have hJv := hJ.stable _ _ h hv
  refine ⟨⟨trivial, hJ.locked _ v hJv, writes_of_quiet rfl v⟩,
    fun c _ u hu => ⟨hJ.stable _ _ hJv hu, ?_⟩⟩
  rintro x hx hterm rfl
  exact hu.2.2.1 ⟨x.state, ((hJ.inv v hJv).faithful x hx).1, hterm⟩

/-- `_gc` removes only what is settled. -/
theorem sat_gcFrom (hJ : Removable H pid F P R J) (keep kept : Nat) (names : List Txid) (h : J w) :
    Prog.Sat (process H pid F P R) (fun _ w => J w) (gcFrom keep kept names) w := by
  induction names generalizing kept w with
  | nil => exact fun v hv => hJ.stable _ _ h hv
  | cons d rest ih =>
      refine Prog.Sat.seq (sat_loadMeta_settled hJ.toCarried d h) ?_
      rintro (_ | m) v ⟨hJv, hset⟩
      · exact ih kept hJv
      · dsimp only
        split
        · next hterm =>
          refine Prog.Sat.seq (M := fun _ v => J v) ?_ (fun _ u hu => ih (kept + 1) hu)
          unfold dropOld
          split
          · exact sat_removing hJ (removing_rmtreeTx d) hJv (hset m rfl hterm)
          · exact fun u hu => hJ.stable _ _ hJv hu
        · exact ih kept hJv

theorem sat_gc (hJ : Removable H pid F P R J) (h : J w) :
    Prog.Sat (process H pid F P R) (fun _ w => J w) (gc H) w :=
  Prog.Sat.seq (sat_quiet_perform hJ.toCarried rfl h) (fun _ _ hv => sat_gcFrom hJ _ _ _ hv)

/-! ### Single operations -/

/-- An operation that is permitted under an assertion and keeps it. -/
theorem sat_op {I : World → Prop} (hI : Carried H pid F P R I) {e : Op}
    (hperm : ∀ v, I v → Permit F P R.edges e v) (hwrites : ∀ v, I v → R.Writes F e v) (hkeep : ∀ v c, I v → I (exec H pid e c v).2) (h : I w) :
    Prog.Sat (process H pid F P R) (fun _ v => I v) (perform e) w := by
  refine Prog.sat_perform (fun v hv => ?_)
  have hv' := hI.stable _ _ h hv
  exact ⟨⟨hperm v hv', hI.locked _ _ hv', hwrites v hv'⟩,
    fun c _ u hu => hI.stable _ _ (hkeep v c hv') hu⟩

/-- Touching keeps the invariant of `F`, when `F` is under way if it is the one touched. -/
theorem inv_touch {T : Txid} (h : Inv F P w) (hot : T = F → Hot F w) (p : Path) (n : Node) :
    Inv F P (w.touch T p n) := by
  by_cases hT : T = F
  · subst hT
    exact h.touch (hot rfl) p n
  · exact h.congr_dir rfl (by simp [World.past, hT])

/-- An operation on production keeps an assertion that survives touches. -/
theorem sat_touching {I : World → Prop} {U : Txid} (hI : Carried H pid F P R I)
    (hot : ∀ v, I v → U = F → Hot F v) (hwrites : ∀ e v, I v → U = F → R.writes e v)
    (htouch : ∀ v p n, I v → Inv F P (v.touch U p n) → I (v.touch U p n)) {e : Op}
    (he : (∃ p data mode owner, e = .replaceTarget U p data mode owner) ∨
      ∃ p, e = .unlinkTarget U p) (h : I w) :
    Prog.Sat (process H pid F P R) (fun _ v => I v) (perform e) w := by
  have hkeep : ∀ v p n, I v → I (v.touch U p n) := fun v p n hv =>
    htouch v p n hv (inv_touch (hI.inv v hv) (hot v hv) p n)
  rcases he with ⟨p, data, mode, owner, rfl⟩ | ⟨p, rfl⟩
  · exact sat_op hI hot (fun v hv hw => Or.inr (hwrites _ v hv (by simpa [Op.writesFor] using hw)))
      (fun v c hv => faulty_keeps (I := I) _ hv (hkeep v p _ hv)) h
  · exact sat_op hI hot (fun v hv hw => Or.inr (hwrites _ v hv (by simpa [Op.writesFor] using hw)))
      (fun v c hv => attempt_keeps (I := I) _ _ hv (hkeep v p _ hv)) h

/-- A write whose success gives `K`. -/
theorem meets_must {I K : World → Prop} (hI : Carried H pid F P R I)
    (hK : Carried H pid F P R K) {p : Proc Done} {σ : Type} {s : σ}
    (h : Prog.Sat (process H pid F P R) (fun ok v => I v ∧ (ok = true → K v)) p w) :
    Meets (process H pid F P R) (must p : MethodOf σ Unit) s w (fun r s' v =>
      s' = s ∧ I v ∧ (r = .ok () → K v)) := by
  unfold must
  refine meets_call_bind h ?_
  rintro ok v ⟨hv, hok⟩
  cases ok with
  | true => exact meets_ret (fun u hu => ⟨rfl, hI.stable _ _ hv hu, fun _ =>
      hK.stable _ _ (hok rfl) hu⟩)
  | false => exact meets_raise (fun u hu => ⟨rfl, hI.stable _ _ hv hu, fun h => by cases h⟩)

/-! ### Methods that keep an assertion -/

section Keeping

variable {σ : Type} {A : σ → World → Prop}

theorem stable_of (hA : ∀ s, Carried H pid F P R (A s)) (s : σ) (w w' : World) (h : A s w)
    (hr : (process H pid F P R).rely w w') : A s w' := (hA s).stable _ _ h hr

theorem keeps_quiet (hA : ∀ s, Carried H pid F P R (A s)) {p : Proc α} (hp : Quiet p) :
    Keeps (process H pid F P R) A (call p : MethodOf σ α) := by
  refine keeps_call ?_
  intro s w h
  refine (sat_quiet (hA s) hp h).mono ?_
  exact fun _ v hv u hu => (hA s).stable _ _ hv hu

theorem keeps_require (hA : ∀ s, Carried H pid F P R (A s)) (b : Bool) (e : Exn) :
    Keeps (process H pid F P R) A (require b e : MethodOf σ Unit) := by
  unfold require
  split
  · exact keeps_ret (stable_of hA) ()
  · exact keeps_raise (stable_of hA) e

theorem keeps_readTarget (hA : ∀ s, Carried H pid F P R (A s)) (p : Path) :
    Keeps (process H pid F P R) A (readTarget p : MethodOf σ _) := by
  refine (keeps_quiet hA (Prog.only_perform rfl)).bind (stable_of hA) (fun node => ?_)
  split
  · exact keeps_ret (stable_of hA) _
  · exact keeps_ret (stable_of hA) _
  · exact keeps_raise (stable_of hA) _

theorem keeps_resolved (hA : ∀ s, Carried H pid F P R (A s)) (r : Option Resolved) :
    Keeps (process H pid F P R) A (resolved r : MethodOf σ _) := by
  cases r with
  | none => exact keeps_raise (stable_of hA) _
  | some r => exact keeps_ret (stable_of hA) _

theorem keeps_readCertDir (hA : ∀ s, Carried H pid F P R (A s)) :
    Keeps (process H pid F P R) A (readCertDir H : MethodOf σ _) := by
  refine (keeps_quiet hA (Prog.only_perform rfl)).bind (stable_of hA) (fun node => ?_)
  split
  · exact keeps_ret (stable_of hA) _
  · split
    · exact keeps_ret (stable_of hA) _
    · exact keeps_raise (stable_of hA) _

theorem keeps_resolveTarget (hA : ∀ s, Carried H pid F P R (A s)) (name : Name) :
    Keeps (process H pid F P R) A (resolveTarget H name : MethodOf σ _) := by
  unfold resolveTarget
  split
  · exact (keeps_readCertDir hA).bind (stable_of hA) (fun _ => keeps_resolved hA _)
  · exact keeps_resolved hA _

/-- Both outcomes of a check. -/
theorem meets_require_bind {β : Type} {S : Setting Op Op.Answer Choice World} {b : Bool}
    {e : Exn} {f : Unit → MethodOf σ β} {s : σ} {Q : Except Exn β → σ → World → Prop}
    (htrue : b = true → Meets S (f ()) s w Q)
    (hfalse : b = false → Meets S (raise e : MethodOf σ β) s w Q) :
    Meets S ((require b e).bind f) s w Q := by
  cases b with
  | true => exact htrue rfl
  | false => exact hfalse rfl

end Keeping

end Shared

end ProxyGateway.Pdgtx
