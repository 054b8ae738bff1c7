import ProxyGateway.Pdgtx.Atomic
import ProxyGateway.Pdgtx.Effects

set_option autoImplicit false

/-!
# ProxyGateway.Pdgtx.Optimistic

Any number of processes on one machine, each the commit of an assembled transaction or a command of
`pdgtx`, one operation at a time in any order, each liable to be killed. Production only ever changes
under the lock, and the first change that a commit makes finds every target and every dependency as the
transaction had them in view (`changes_are_fresh`): what another transaction wrote in between makes the
commit refuse, it is never overwritten unseen.
-/

namespace ProxyGateway.Pdgtx

open Method

/-! ### The scene -/

/-- A world, with two notes on its processes: which have changed production, and what `meta.json` each
read first. -/
structure Scene where
  world : World
  changed : Pid → Bool
  first : Pid → Option (Option Meta)

/-- What a process read, if the operation was reading a `meta.json`. -/
def Op.metaRead : (e : Op) → e.Answer → Option (Option Meta)
  | .loadMeta _, m => some m
  | _, _ => none

/-- One operation of process `pid`, with the notes taken. -/
def enact (H : Host) (pid : Pid) (e : Op) (c : Choice) (s : Scene) : e.Answer × Scene :=
  ((exec H pid e c s.world).1,
    { world := (exec H pid e c s.world).2
      changed := Function.update s.changed pid (s.changed pid || e.changes.isSome)
      first := Function.update s.first pid
        ((s.first pid).or (e.metaRead (exec H pid e c s.world).1)) })

/-- A process among others. It changes production under the lock only, and the first change it makes at a
path is `fresh`; the others leave production and the lock alone while it has the lock. -/
def guarded (H : Host) (pid : Pid) (fresh : Path → Scene → Prop) : Setting Op Op.Answer Choice Scene where
  exec := enact H pid
  allow := fun _ _ _ => True
  rely := fun s s' => s'.changed pid = s.changed pid ∧ s'.first pid = s.first pid ∧
    (s.world.lock = some pid → s'.world.lock = some pid ∧ s'.world.files = s.world.files)
  permit := fun e s => ∀ p, e.changes = some p →
    s.world.lock = some pid ∧ (s.changed pid = false → fresh p s)
  rely_refl := fun _ => ⟨rfl, rfl, fun h => ⟨h, rfl⟩⟩
  rely_trans := fun {a b c} h h' => by
    refine ⟨h'.1.trans h.1, h'.2.1.trans h.2.1, fun hlock => ?_⟩
    obtain ⟨hb, hfiles⟩ := h.2.2 hlock
    obtain ⟨hc, hfiles'⟩ := h'.2.2 hb
    exact ⟨hc, hfiles'.trans hfiles⟩

/-- The file has the digest. -/
def Shows (H : Host) (files : Path → Node) (p : Path) (d : Option Digest) : Prop :=
  ∃ cur, readAt files p = .ok cur ∧ digestOf H cur = d

/-- At its first change, of the path `p`, the commit of `t` has targets each of which shows what it
expects. Those that were staged are among them, a derived one that was read before expects what was read,
and `p` is the path of one of them. All that `t` depends on shows what it showed. -/
def Fresh (H : Host) (t : Tx) (p : Path) (files : Path → Node) : Prop :=
  ∃ s : Tx, t.Grown (t.derivers.map Prod.fst) s ∧ (∀ q ∈ s.targets, Shows H files q.2.path q.2.expect) ∧
    (∀ q ∈ t.watches, Shows H files q.2.path q.2.sha256) ∧ ∃ q ∈ s.targets, q.2.path = p

section Commit

variable {α σ : Type} {H : Host} {pid : Pid} {fresh : Path → Scene → Prop} {t s : Tx} {w : Scene} {files : Path → Node}

/-! ### Operations -/

theorem Op.changes_of_harmless {e : Op} (h : e.harmless = true) : e.changes = none := by
  cases e <;> first | rfl | simp [Op.harmless] at h

theorem Op.touches_eq (e : Op) : e.touches = e.changes.isSome := by
  cases e <;> rfl

/-- Neither the lock nor production changes. -/
theorem exec_harmless {e : Op} (h : e.harmless = true) (c : Choice) (v : World) :
    (exec H pid e c v).2.lock = v.lock ∧ (exec H pid e c v).2.files = v.files := by
  constructor
  · exact exec_lock (by rintro rfl; cases h) (by rintro rfl; cases h) c
  · exact exec_files (by rw [Op.touches_eq, Op.changes_of_harmless h]; rfl) c

/-- A change of production leaves the lock alone. -/
theorem exec_lock_of_changes {e : Op} {p : Path} (h : e.changes = some p) (c : Choice) (v : World) :
    (exec H pid e c v).2.lock = v.lock :=
  exec_lock (by rintro rfl; cases h) (by rintro rfl; cases h) c

/-! ### Under the lock -/

/-- The process has the lock and changed nothing, production is `files`, and if `n` says so the process
read that `meta.json` first. -/
structure Entered (pid : Pid) (n : Option (Option Meta)) (files : Path → Node) (w : Scene) : Prop where
  lock : w.world.lock = some pid
  files : w.world.files = files
  changed : w.changed pid = false
  first : ∀ m, n = some m → w.first pid = some m

/-- The process has the lock, and as long as it has changed nothing production is `files`. -/
structure Since (pid : Pid) (n : Option (Option Meta)) (files : Path → Node) (w : Scene) : Prop where
  lock : w.world.lock = some pid
  files : w.changed pid = false → w.world.files = files
  first : ∀ m, n = some m → w.first pid = some m

variable {n : Option (Option Meta)}

theorem Entered.stable {w' : Scene} (h : Entered pid n files w) (hr : (guarded H pid fresh).rely w w') : Entered pid n files w' where
  lock := (hr.2.2 h.lock).1
  files := (hr.2.2 h.lock).2.trans h.files
  changed := hr.1.trans h.changed
  first := fun m hm => hr.2.1.trans (h.first m hm)

theorem Since.stable {w' : Scene} (h : Since pid n files w) (hr : (guarded H pid fresh).rely w w') :
    Since pid n files w' where
  lock := (hr.2.2 h.lock).1
  files := fun hchanged => (hr.2.2 h.lock).2.trans (h.files (hr.1.symm.trans hchanged))
  first := fun m hm => hr.2.1.trans (h.first m hm)

theorem Entered.since (h : Entered pid n files w) : Since pid n files w := ⟨h.lock, fun _ => h.files, h.first⟩

theorem first_enact {m : Option Meta} (h : w.first pid = some m) (e : Op) (c : Choice) :
    (enact H pid e c w).2.first pid = some m := by
  simp [enact, h]

theorem permit_harmless {e : Op} (he : e.harmless = true) : (guarded H pid fresh).permit e w := by
  intro p hp
  rw [Op.changes_of_harmless he] at hp
  cases hp

theorem Entered.harmless {e : Op} (he : e.harmless = true) (h : Entered pid n files w) (c : Choice) :
    Entered pid n files (enact H pid e c w).2 := by
  have hnone := Op.changes_of_harmless he
  obtain ⟨hlock, hfiles⟩ : (exec H pid e c w.world).2.lock = w.world.lock ∧
      (exec H pid e c w.world).2.files = w.world.files := exec_harmless he c w.world
  exact ⟨hlock.trans h.lock, hfiles.trans h.files, by simp [enact, hnone, h.changed],
    fun m hm => first_enact (h.first m hm) e c⟩

/-- While production is still `files` a change needs to be fresh; after it nothing is asked any more. -/
theorem Since.step {e : Op} (h : Since pid n files w)
    (he : e.harmless = true ∨ ∃ q ∈ s.targets, e.changes = some q.2.path)
    (hfresh : ∀ q ∈ s.targets, ∀ v, Entered pid n files v → fresh q.2.path v) :
    (guarded H pid fresh).permit e w ∧ ∀ c, Since pid n files (enact H pid e c w).2 := by
  obtain he | ⟨q, hq, hchanges⟩ := he
  · have hnone := Op.changes_of_harmless he
    refine ⟨permit_harmless he, fun c => ?_⟩
    obtain ⟨hlock, hfiles⟩ : (exec H pid e c w.world).2.lock = w.world.lock ∧
        (exec H pid e c w.world).2.files = w.world.files := exec_harmless he c w.world
    refine ⟨hlock.trans h.lock, fun hchanged => hfiles.trans (h.files ?_), fun m hm => first_enact (h.first m hm) e c⟩
    simpa [enact, hnone] using hchanged
  · refine ⟨fun p hp => ⟨h.lock, fun hchanged => ?_⟩, fun c => ?_⟩
    · rw [hchanges] at hp
      cases hp
      exact hfresh q hq w ⟨h.lock, h.files hchanged, hchanged, h.first⟩
    · refine ⟨(exec_lock_of_changes hchanges c _).trans h.lock, fun hchanged => ?_, fun m hm => first_enact (h.first m hm) e c⟩
      simp [enact, hchanges] at hchanged

theorem meets_keeping {m : TxM α} (hm : Obeys keeping m s) (h : Entered pid n files w) :
    Meets (guarded H pid fresh) m s w (fun _ s' w' => s.Same s' ∧ Entered pid n files w') :=
  (hm.meets (fun _ _ h hr => h.stable hr) (fun _ he _ h => ⟨permit_harmless he, fun c _ => h.harmless he c⟩) h).mono
    fun _ _ _ hpost => hpost.2

/-- Going on after a method that keeps the targets. -/
theorem meets_keeping_bind {β : Type} {m : TxM α} {f : α → TxM β} {Q : Except Exn β → Tx → Scene → Prop}
    (hm : Obeys keeping m s) (h : Entered pid n files w)
    (hnext : ∀ a s' w', s.Same s' → Entered pid n files w' → Meets (guarded H pid fresh) (f a) s' w' Q)
    (herror : ∀ e s' w', Q (.error e) s' w') : Meets (guarded H pid fresh) (m.bind f) s w Q :=
  meets_bind (meets_keeping hm h) (fun a s' w' hpost => hnext a s' w' hpost.1 hpost.2)
    fun e s' _ _ => meets_raise fun _ _ => herror e s' _

/-! ### The preconditions -/

theorem meets_readTarget_at (h : Entered pid n files w) (p : Path) :
    Meets (guarded H pid fresh) (readTarget p) s w (fun r s' w' => r = readAt files p ∧ s' = s ∧ Entered pid n files w') := by
  unfold readTarget
  refine meets_call_bind (M := fun node v => node = files p ∧ Entered pid n files v) ?_ ?_
  · refine Prog.sat_perform fun v hv => ?_
    have hat := h.stable hv
    refine ⟨permit_harmless rfl, fun c _ u hu => ⟨?_, (hat.harmless rfl c).stable hu⟩⟩
    show v.world.files p = files p
    rw [hat.files]
  · intro node v hnode
    obtain ⟨rfl, hat⟩ := hnode
    unfold readAt
    split
    · next hfile =>
      rw [hfile]
      exact meets_ret fun _ hr => ⟨rfl, rfl, hat.stable hr⟩
    · next hfile =>
      rw [hfile]
      exact meets_ret fun _ hr => ⟨rfl, rfl, hat.stable hr⟩
    · next hfile =>
      rw [hfile]
      exact meets_raise fun _ hr => ⟨rfl, rfl, hat.stable hr⟩

/-- A comparison that returns has found the digest. -/
theorem meets_compare_at (h : Entered pid n files w) (p : Path) (d : Option Digest) :
    Meets (guarded H pid fresh) ((readTarget p).bind fun cur => precondition (digestOf H cur == d)) s w
      (fun r s' w' => r = .ok () → s.Same s' ∧ Entered pid n files w' ∧ Shows H files p d) := by
  refine meets_bind (meets_readTarget_at h p) ?_ ?_
  · intro cur s' w' hcur
    obtain ⟨hread, rfl, hat⟩ := hcur
    unfold precondition
    split
    · next hsame =>
      refine meets_ret fun _ hr _ => ⟨Tx.Same.refl _, hat.stable hr, cur, hread.symm, ?_⟩
      exact eq_of_beq hsame
    · refine meets_assign_bind (meets_raise fun _ _ hr => ?_)
      cases hr
  · intro e s' w' _
    refine meets_raise fun _ _ hr => ?_
    cases hr

/-- Every target shows what it expects, and every dependency what it showed. -/
theorem meets_checkPreconditions_at (h : Entered pid n files w) :
    Meets (guarded H pid fresh) (checkPreconditions H) s w (fun r s' w' => r = .ok () →
      s.Same s' ∧ Entered pid n files w' ∧ (∀ q ∈ s.targets, Shows H files q.2.path q.2.expect) ∧
        ∀ q ∈ s.watches, Shows H files q.2.path q.2.sha256) := by
  -- the loop over the targets and that over the watches are one
  have hloop {ι : Type} (f : ι → TxM Unit) (path : ι → Path) (d : ι → Option Digest)
      (hf : ∀ x, f x = (readTarget (path x)).bind fun cur => precondition (digestOf H cur == d x)) (xs : List ι)
      (s' : Tx) (w' : Scene) (hs : s.Same s') (hw : Entered pid n files w') :
      Meets (guarded H pid fresh) (each f xs) s' w' (fun r s' w' => r = .ok () →
        s.Same s' ∧ Entered pid n files w' ∧ ∀ x ∈ xs, Shows H files (path x) (d x)) := by
    refine (meets_each (I := fun done s' w' => s.Same s' ∧ Entered pid n files w' ∧ ∀ x ∈ done, Shows H files (path x) (d x))
      (J := fun _ _ _ => True) (fun _ _ _ _ hI hr => ⟨hI.1, hI.2.1.stable hr, hI.2.2⟩) (fun _ _ _ _ _ _ => trivial) xs
      ?_ s' w' ⟨hs, hw, by simp⟩).mono ?_
    · intro done x _ t v hI
      obtain ⟨ht, hv, hdone⟩ := hI
      rw [hf]
      refine (meets_compare_at hv (path x) (d x)).mono ?_
      intro r t' v' hpost
      cases r with
      | error e => trivial
      | ok u =>
          obtain ⟨ht', hv', hx⟩ := hpost rfl
          refine ⟨ht.trans ht', hv', fun y hy => ?_⟩
          rcases List.mem_append.mp hy with hy | hy
          · exact hdone y hy
          · obtain rfl := List.mem_singleton.mp hy
            exact hx
    · intro r t v hpost hr
      subst hr
      exact hpost
  unfold checkPreconditions
  refine meets_self_bind ?_
  refine meets_bind (hloop (checkTarget H) _ _ (fun _ => rfl) s.targets s w (Tx.Same.refl s) h) ?_ ?_
  · intro u t v hpost
    obtain ⟨ht, hv, htargets⟩ := hpost rfl
    refine (hloop (checkWatch H) _ _ (fun _ => rfl) s.watches.sorted t v ht hv).mono ?_
    intro r t' v' hpost hr
    obtain ⟨ht', hv', hwatches⟩ := hpost hr
    exact ⟨ht', hv', htargets, fun q hq => hwatches q (Dict.mem_sorted.mpr hq)⟩
  · intro e t v _
    refine meets_raise fun _ _ hr => ?_
    cases hr

/-! ### The commit -/

/-- What the checks leave: the object, which has all targets by now, and production as it was checked. -/
structure Checked (H : Host) (pid : Pid) (n : Option (Option Meta)) (files : Path → Node) (t s : Tx) (w : Scene) : Prop where
  grown : t.Grown (t.derivers.map Prod.fst) s
  targets : ∀ q ∈ s.targets, Shows H files q.2.path q.2.expect
  watches : ∀ q ∈ t.watches, Shows H files q.2.path q.2.sha256
  entered : Entered pid n files w

theorem Checked.same {s' : Tx} {w' : Scene} (h : Checked H pid n files t s w) (hs : s.Same s') (hw : Entered pid n files w') :
    Checked H pid n files t s' w' where
  grown := (adding _).trans h.grown hs.grown
  targets := hs.targets ▸ h.targets
  watches := h.watches
  entered := hw

theorem Checked.isFresh {p : Name × Target} {v : Scene} (h : Checked H pid n files t s w) (hp : p ∈ s.targets)
    (hv : Entered pid n files v) : Fresh H t p.2.path v.world.files := by
  rw [hv.files]
  exact ⟨s, h.grown, h.targets, h.watches, p, hp, rfl⟩

theorem meets_preflight_at (h : Entered pid n files w) : Meets (guarded H pid fresh) (preflight H) t w
    (fun r s' w' => ∀ base, r = .ok base → Checked H pid n files t s' w') := by
  have herror {β : Type} (e : Exn) (s' : Tx) (w' : Scene) :
      ∀ base : β, (Except.error e : Except Exn β) = .ok base → Checked H pid n files t s' w' := by
    intro base hr
    cases hr
  unfold preflight
  refine meets_keeping_bind keeping_checkPending h (fun _ s w hs hw => ?_) herror
  -- the derivers of the object are still those of `t`
  have hderive : Obeys (adding (t.derivers.map Prod.fst)) (deriveAll H) s := hs.derivers ▸ adding_deriveAll
  refine meets_bind ((hderive.meets (fun _ _ h hr => h.stable hr)
    (fun _ he _ h => ⟨permit_harmless he, fun c _ => h.harmless he c⟩) hw)) (fun _ s' w hpost => ?_) ?_
  · obtain ⟨-, hgrown, hw⟩ := hpost
    have hgrown : t.Grown (t.derivers.map Prod.fst) s' := (adding _).trans hs.grown hgrown
    refine meets_keeping_bind keeping_scope hw (fun _ s₁ w hs₁ hw => ?_) herror
    refine meets_keeping_bind keeping_checkGuards hw (fun _ s₂ w hs₂ hw => ?_) herror
    refine meets_keeping_bind keeping_baseline hw (fun base s₃ w hs₃ hw => ?_) herror
    refine meets_bind (meets_checkPreconditions_at hw) (fun _ s₄ w hpost => ?_) ?_
    · obtain ⟨hs₄, hw, htargets, hwatches⟩ := hpost rfl
      have hsame := hs₁.trans (hs₂.trans (hs₃.trans hs₄))
      have hgrown := (adding _).trans hgrown hsame.grown
      have hchecked : Checked H pid n files t s₄ w := by
        refine ⟨hgrown, hs₄.targets ▸ htargets, fun q hq => hwatches q ?_, hw⟩
        rw [← hs₄.watches, hgrown.watches]
        exact hq
      refine meets_keeping_bind keeping_validateAll hw (fun _ s₅ w hs₅ hw => ?_) herror
      refine meets_keeping_bind keeping_writeDiff hw (fun _ s₆ w hs₆ hw => ?_) herror
      exact meets_ret fun _ hr _ _ => hchecked.same (hs₅.trans hs₆) (hw.stable hr)
    · intro e s' w _
      exact meets_raise fun _ _ => herror e _ _
  · intro e s' w _
    exact meets_raise fun _ _ => herror e _ _

/-- Under the lock the commit changes production as the checks allow. -/
theorem meets_commitLocked_at (hfresh : ∀ p v, Entered pid n files v → Fresh H t p v.world.files → fresh p v)
    (h : Entered pid n files w) : Meets (guarded H pid fresh) (commitLocked H) t w (fun _ _ _ => True) := by
  unfold commitLocked
  refine meets_bind (meets_preflight_at h) (fun base s w hpost => ?_) fun _ _ _ _ => meets_raise fun _ _ => trivial
  have hchecked := hpost base rfl
  refine (Obeys.meets (K := changing) (I := Since pid n files) ?_ (fun _ _ h hr => h.stable hr) (fun e he v hv => ?_)
    hchecked.entered.since).mono fun _ _ _ _ => trivial
  · refine (obeys_changing keeping_takeBefore).bind fun _ _ _ => ?_
    refine (obeys_changing (keeping_setState _)).bind fun _ _ _ => ?_
    refine (changing_applyAll base).outcome fun r _ _ => ?_
    cases r with
    | ok u => exact obeys_changing keeping_finish
    | error e => exact changing_rollback
  · have hstep : (guarded H pid fresh).permit e v ∧ ∀ c, Since pid n files (enact H pid e c v).2 :=
      hv.step he fun q hq v hv => hfresh _ _ hv (hchecked.isFresh hq hv)
    exact ⟨hstep.1, fun c _ => hstep.2 c⟩

/-! ### Taking the lock -/

/-- The process has changed nothing yet. -/
structure Idle (pid : Pid) (n : Option (Option Meta)) (w : Scene) : Prop where
  changed : w.changed pid = false
  first : ∀ m, n = some m → w.first pid = some m

theorem Idle.stable {w' : Scene} (h : Idle pid n w) (hr : (guarded H pid fresh).rely w w') : Idle pid n w' where
  changed := hr.1.trans h.changed
  first := fun m hm => hr.2.1.trans (h.first m hm)

theorem Idle.step {e : Op} (he : e.changes = none) (h : Idle pid n w) (c : Choice) : Idle pid n (enact H pid e c w).2 where
  changed := by simp [enact, he, h.changed]
  first := fun m hm => first_enact (h.first m hm) e c

theorem permit_outside {e : Op} (he : e.changes = none) : (guarded H pid fresh).permit e w := by
  intro p hp
  rw [he] at hp
  cases hp

/-- No change of production. -/
def outside (σ : Type) : Conduct Op σ where
  ops := fun _ e => e.changes = none
  moves := fun _ _ => True
  refl := fun _ => trivial
  trans := fun _ _ => trivial
  mono := fun _ he => he

theorem outside_of_harmless (l : σ) (e : Op) (he : e.harmless = true) : (outside σ).ops l e := Op.changes_of_harmless he

theorem obeys_outside {m : TxM α} (h : Obeys keeping m s) : Obeys (outside Tx) m s where
  only := h.only.mono fun e he => outside_of_harmless s e he
  moves := fun _ _ => trivial

theorem meets_outside {m : MethodOf σ α} {l : σ} (h : Obeys (outside σ) m l) (hw : Idle pid n w) :
    Meets (guarded H pid fresh) m l w (fun r l' w' => (m l).Yields (r, l') ∧ Idle pid n w') :=
  (h.meets (fun _ _ h hr => h.stable hr) (fun _ he _ h => ⟨permit_outside he, fun c _ => h.step he c⟩) hw).mono
    fun _ _ _ hpost => ⟨hpost.1, hpost.2.2⟩

/-- Whatever a method does after it gave the lock back, as long as it changes nothing. -/
theorem meets_after {m : MethodOf σ α} {l : σ} (h : Obeys (outside σ) m l) :
    Meets (guarded H pid fresh) m l w (fun _ _ _ => True) :=
  (h.meets (I := fun _ => True) (fun _ _ _ _ => trivial) (fun _ he _ _ => ⟨permit_outside he, fun _ _ => trivial⟩) trivial).mono
    fun _ _ _ _ => trivial

/-- `with _Lock():` around a method that is judged with the lock in hand. -/
theorem meets_withLock_at {m : MethodOf σ α} {l : σ} (hw : Idle pid n w)
    (h : ∀ v, Entered pid n v.world.files v → Meets (guarded H pid fresh) m l v (fun _ _ _ => True)) :
    Meets (guarded H pid fresh) (withLock m) l w (fun _ _ _ => True) := by
  unfold withLock
  refine meets_call_bind (M := fun a v => a = LockAnswer.acquired → Entered pid n v.world.files v) ?_ fun a v hv => ?_
  · refine Prog.sat_perform fun v hv => ⟨permit_outside rfl, fun c _ u hu hacquired => ?_⟩
    obtain ⟨-, -, hlock⟩ : c.yes = true ∧ v.world.lock = none ∧
        (exec H pid .lock c v.world).2 = { v.world with lock := some pid } := lock_acquired hacquired
    have hidle := (((hw.stable hv).step (H := H) (e := .lock) rfl c).stable hu)
    have hheld : (enact H pid .lock c v).2.world.lock = some pid := by
      show (exec H pid .lock c v.world).2.lock = some pid
      rw [hlock]
    exact ⟨(hu.2.2 hheld).1, rfl, hidle.changed, hidle.first⟩
  · cases a with
    | unusable => exact meets_raise fun _ _ => trivial
    | busy => exact meets_raise fun _ _ => trivial
    | acquired =>
        refine meets_outcome (h v (hv rfl)) fun r l' v' _ => meets_after ?_
        refine (obeys_call (Prog.only_perform rfl)).bind fun _ _ _ => ?_
        cases r with
        | ok a => exact obeys_ret a
        | error e => exact obeys_raise e

theorem meets_commit_at (hfresh : ∀ p v, Entered pid n v.world.files v → Fresh H t p v.world.files → fresh p v)
    (hw : Idle pid n w) : Meets (guarded H pid fresh) (commit H) t w (fun _ _ _ => True) := by
  unfold commit
  refine meets_tryCatch (meets_withLock_at hw fun v hv => ?_) ?_ ?_
  · refine meets_commitLocked_at (fun p u hu hp => ?_) hv
    exact hfresh p u ⟨hu.lock, rfl, hu.changed, hu.first⟩ hp
  · exact fun a s w _ => meets_ret fun _ _ => trivial
  · exact fun e s w _ => meets_after (obeys_outside (keeping_commitFailed e))

end Commit

/-! ### Commands -/

/-- What `_cli_apply` builds the transaction from: of each name the last staged entry counts, and
dependencies show what they were recorded to show. -/
structure Rebuilt (m : Meta) (watches : Dict Name Watch) (targets : Dict Name Target) : Prop where
  watches : watches.map (fun q => (q.1, q.2.sha256)) = m.watched.map (fun q => (q.1, q.2.sha256))
  targets : ∀ name, (targets.get? name).map Target.expect =
    (m.staged.reverse.find? (fun entry => entry.target = name)).map Staged.expect

/-- What the first change of a command has to find. -/
def Cmd.fresh (H : Host) (pid : Pid) : Cmd → Path → Scene → Prop
  | .apply T _, p, w => ∃ m watches targets, w.first pid = some (some m) ∧ Rebuilt m watches targets ∧
      Pdgtx.Fresh H (applyTx T m watches targets) p w.world.files
  | _, _, _ => True

section Commands

variable {H : Host} {pid : Pid} {fresh : Path → Scene → Prop} {w : Scene} {n : Option (Option Meta)} {T : Txid}

theorem outside_must {p : Proc Done} (h : Harmless p) : Obeys (outside Unit) (must p : CallM Unit) () :=
  obeys_must (h.mono fun e he => outside_of_harmless () e he)

theorem outside_call {α : Type} {p : Proc α} (h : Harmless p) : Obeys (outside Unit) (call p : CallM α) () :=
  obeys_call (h.mono fun e he => outside_of_harmless () e he)

theorem outside_new (mode : Mode) : Obeys (outside Unit) (cliNew H T mode) () := by
  unfold cliNew
  exact (outside_must (harmless_perform rfl)).bind fun _ _ _ => outside_must (harmless_perform rfl)

theorem outside_stage (name : Name) (data : Option Bytes) (expect : Expect) :
    Obeys (outside Unit) (cliStage H T name data expect) () := by
  unfold cliStage
  refine (outside_call (harmless_perform rfl)).bind fun m _ _ => ?_
  split
  · exact obeys_ret ()
  · split
    · exact obeys_ret ()
    · refine (obeys_resolveTarget outside_of_harmless name).bind fun r _ _ => ?_
      refine (obeys_readTarget outside_of_harmless r.path).bind fun cur _ _ => ?_
      refine Obeys.bind ?_ fun _ _ _ => outside_must (harmless_perform rfl)
      unfold storeCandidate
      split
      · exact outside_must (harmless_perform rfl)
      · exact obeys_ret ()

theorem outside_service (a : Action) : Obeys (outside Unit) (cliService T a) () := by
  unfold cliService
  refine (outside_call (harmless_perform rfl)).bind fun m _ _ => ?_
  split
  · exact obeys_ret ()
  · split
    · exact outside_must (harmless_perform rfl)
    · exact obeys_ret ()

theorem outside_guard (u : ServiceUnit) (want : Want) : Obeys (outside Unit) (cliGuard T u want) () := by
  unfold cliGuard
  refine (outside_call (harmless_perform rfl)).bind fun m _ _ => ?_
  split
  · exact obeys_ret ()
  · split
    · exact obeys_ret ()
    · exact outside_must (harmless_perform rfl)

theorem outside_abort : Obeys (outside Unit) (cliAbort T) () := by
  unfold cliAbort
  refine (outside_call (harmless_perform rfl)).bind fun m _ _ => ?_
  split
  · exact obeys_ret ()
  · split
    · refine (outside_must (harmless_perform rfl)).bind fun _ _ _ => ?_
      exact outside_call (harmless_of_removing (removing_removeMaterials T))
    · exact obeys_ret ()

/-! ### Recovering -/

/-- Anything but taking and releasing the lock. -/
def holding : Conduct Op Unit where
  ops := fun _ e => e.harmless = true ∨ e.changes.isSome = true
  moves := fun _ _ => True
  refl := fun _ => trivial
  trans := fun _ _ => trivial
  mono := fun _ he => he

theorem holding_of_harmless (l : Unit) (e : Op) (he : e.harmless = true) : holding.ops l e := .inl he

theorem holding_call {α : Type} {p : Proc α} (h : Harmless p) : Obeys holding (call p : CallM α) () :=
  obeys_call (h.mono fun _ he => .inl he)

theorem holding_precheckAll (m : Meta) (bi : BeforeIndex) (force : Bool) (names : List Name) :
    Obeys holding (precheckAll H T m bi force names) () := by
  induction names with
  | nil => exact obeys_ret []
  | cons name rest ih =>
      unfold precheckAll
      refine Obeys.bind ?_ fun c _ _ => ih.bind fun more _ _ => obeys_ret _
      unfold precheckOne
      refine (obeys_resolveTarget holding_of_harmless name).outcome fun r _ _ => ?_
      split
      · unfold precheckAt
        refine (obeys_readTarget holding_of_harmless _).bind fun cur _ _ => ?_
        split
        · exact obeys_ret _
        · split
          · exact obeys_ret _
          · split
            · exact obeys_ret _
            · refine (holding_call (harmless_perform rfl)).bind fun data _ _ => ?_
              split
              · exact obeys_ret _
              · split
                · exact obeys_ret _
                · exact obeys_ret _
      · exact obeys_ret _
      · exact obeys_raise _

theorem only_recoverAll (plan : List PlanItem) : (recoverAll T plan).Only (holding.ops ()) := by
  induction plan with
  | nil => trivial
  | cons item rest ih =>
      unfold recoverAll
      refine Prog.Only.bind ?_ fun ok => ih.bind fun _ => trivial
      unfold recoverOne
      split
      · exact Prog.only_perform (.inr rfl)
      · cases item.exists' with
        | true => exact Prog.only_perform (.inr rfl)
        | false => trivial

theorem holding_recoverLocked (m : Meta) (bi : BeforeIndex) (force : Bool) :
    Obeys holding (recoverLocked H T m bi force) () := by
  unfold recoverLocked
  refine (holding_precheckAll m bi force m.targets).bind fun checks _ _ => ?_
  split
  · exact obeys_ret _
  · split
    · exact obeys_ret _
    · unfold recoverPlan
      refine (obeys_call (only_recoverAll _)).bind fun files _ _ => ?_
      refine (holding_call (harmless_of_quiet (quiet_restoreRuntime _ _))).bind fun runtime _ _ => ?_
      refine (obeys_must (Prog.only_perform (.inl rfl))).bind fun _ _ _ => ?_
      refine (holding_call ?_).bind fun _ _ _ => (holding_call (harmless_of_tidying (tidying_gc H))).bind fun _ _ _ => obeys_ret _
      split
      · exact harmless_of_removing (removing_removeMaterials T)
      · trivial

theorem meets_recover_at (force : Bool) (hw : Idle pid n w) :
    Meets (guarded H pid fun _ _ => True) (recover H T force) () w (fun _ _ _ => True) := by
  have hdone {α : Type} (a : α) (v : Scene) : Meets (guarded H pid fun _ _ => True) (ret a : CallM α) () v
      (fun _ _ _ => True) := meets_ret fun _ _ => trivial
  unfold recover
  refine meets_bind (meets_outside (outside_call (harmless_perform rfl)) hw) (fun m _ v hv => ?_)
    fun _ _ _ _ => meets_raise fun _ _ => trivial
  split
  · exact hdone _ v
  · split
    · exact hdone _ v
    · split
      · exact hdone _ v
      · refine meets_bind (meets_outside (outside_call (harmless_perform rfl)) hv.2) (fun bi _ u hu => ?_)
          fun _ _ _ _ => meets_raise fun _ _ => trivial
        split
        · exact hdone _ u
        · refine meets_withLock_at hu.2 fun x hx => ?_
          -- under the lock any change is allowed to it
          refine ((holding_recoverLocked _ _ force).meets (I := fun y => y.world.lock = some pid)
            (fun _ _ h hr => (hr.2.2 h).1) (fun e he y hy => ⟨fun _ _ => ⟨hy, fun _ => trivial⟩, fun c _ => ?_⟩) hx.lock).mono
            fun _ _ _ _ => trivial
          obtain he | he := he
          · exact (exec_harmless he c y.world).1.trans hy
          · obtain ⟨p, hp⟩ := Option.isSome_iff_exists.mp he
            exact (exec_lock_of_changes hp c y.world).trans hy

/-! ### Applying -/

theorem outside_rebuildWatches (xs : List (Name × WatchRec)) : Obeys (outside Unit) (rebuildWatches H xs) () := by
  induction xs with
  | nil => exact obeys_ret []
  | cons p rest ih =>
      unfold rebuildWatches
      refine Obeys.bind ?_ fun _ _ _ => ih.bind fun _ _ _ => obeys_ret _
      unfold rebuildWatch
      refine (obeys_resolveTarget outside_of_harmless p.1).bind fun r _ _ => ?_
      refine (obeys_require _ _).bind fun _ _ _ => ?_
      refine (obeys_require _ _).bind fun _ _ _ => ?_
      exact (obeys_require _ _).bind fun _ _ _ => obeys_ret _

theorem rebuildWatches_yields {xs : List (Name × WatchRec)} {ws : Dict Name Watch} {u : Unit}
    (h : (rebuildWatches H xs ()).Yields (.ok ws, u)) :
    ws.map (fun q => (q.1, q.2.sha256)) = xs.map (fun q => (q.1, q.2.sha256)) := by
  induction xs generalizing ws u with
  | nil =>
      cases Prog.yields_ret_iff.mp h
      rfl
  | cons p rest ih =>
      obtain ⟨w, _, hw, h⟩ := yields_bind_ok h
      obtain ⟨more, _, hmore, h⟩ := yields_bind_ok h
      cases Prog.yields_ret_iff.mp h
      obtain ⟨r, _, -, hw⟩ := yields_bind_ok hw
      obtain ⟨_, _, -, hw⟩ := yields_bind_ok hw
      obtain ⟨_, _, -, hw⟩ := yields_bind_ok hw
      obtain ⟨_, _, -, hw⟩ := yields_bind_ok hw
      cases Prog.yields_ret_iff.mp hw
      rw [List.map_cons, List.map_cons, ih hmore]

theorem outside_reloadTargets (staged : List Staged) (acc : Dict Name Target) :
    Obeys (outside Unit) (reloadTargets H T staged acc) () := by
  induction staged generalizing acc with
  | nil => exact obeys_ret acc
  | cons entry rest ih =>
      unfold reloadTargets
      refine Obeys.bind ?_ fun _ _ _ => ih _
      unfold reloadTarget
      refine (obeys_resolveTarget outside_of_harmless entry.target).bind fun r _ _ => ?_
      refine Obeys.bind ?_ fun data _ _ => (obeys_readTarget outside_of_harmless r.path).bind fun _ _ _ => obeys_ret _
      unfold loadCandidate
      split
      · exact obeys_ret none
      · refine (outside_call (harmless_perform rfl)).bind fun data _ _ => ?_
        split
        · exact obeys_ret _
        · exact obeys_raise _

theorem reloadTargets_yields {staged : List Staged} {acc targets : Dict Name Target} {u : Unit}
    (h : (reloadTargets H T staged acc ()).Yields (.ok targets, u)) (name : Name) :
    (targets.get? name).map Target.expect =
      ((staged.reverse.find? (fun entry => entry.target = name)).map Staged.expect).or
        ((acc.get? name).map Target.expect) := by
  induction staged generalizing acc u with
  | nil =>
      cases Prog.yields_ret_iff.mp h
      rfl
  | cons entry rest ih =>
      obtain ⟨t, _, ht, h⟩ := yields_bind_ok h
      obtain ⟨r, _, -, ht⟩ := yields_bind_ok ht
      obtain ⟨data, _, -, ht⟩ := yields_bind_ok ht
      obtain ⟨cur, _, -, ht⟩ := yields_bind_ok ht
      cases Prog.yields_ret_iff.mp ht
      rw [ih h, List.reverse_cons, List.find?_append, Dict.get?_set]
      by_cases hname : entry.target = name
      · cases hfind : rest.reverse.find? (fun entry => entry.target = name) <;> simp [hname]
      · cases hfind : rest.reverse.find? (fun entry => entry.target = name) <;> simp [hname]

theorem meets_apply_at (drift : Bool) (hw : Idle pid none w) (hfirst : w.first pid = none) :
    Meets (guarded H pid (Cmd.fresh H pid (.apply T drift))) (cliApply H T drift) () w (fun _ _ _ => True) := by
  have hstop {β : Type} (e : Exn) (l : Unit) (v : Scene) : Meets (guarded H pid (Cmd.fresh H pid (.apply T drift)))
      (raise e : CallM β) l v (fun _ _ _ => True) := meets_raise fun _ _ => trivial
  unfold cliApply
  refine meets_call_bind (M := fun m v => ∀ found, m = some found → Idle pid (some (some found)) v) ?_ fun m v hv => ?_
  · refine Prog.sat_perform fun v hv => ⟨permit_outside rfl, fun c _ u hu found hfound => ?_⟩
    refine ⟨(((hw.stable hv).step (H := H) (e := .loadMeta T) rfl c).stable hu).changed, fun m hm => ?_⟩
    cases hm
    -- nothing was noted before, so this reading is
    have hnone : v.first pid = none := hv.2.1.trans hfirst
    have hread : (exec H pid (.loadMeta T) c v.world).1 = some found := hfound
    rw [hu.2.1]
    show Function.update v.first pid ((v.first pid).or
      (Op.metaRead (.loadMeta T) (exec H pid (.loadMeta T) c v.world).1)) pid = some (some found)
    rw [Function.update_self, hnone, hread]
    rfl
  · split
    · exact meets_ret fun _ _ => trivial
    · next found =>
      have hidle := hv found rfl
      split
      · exact meets_ret fun _ _ => trivial
      · split
        · exact meets_ret fun _ _ => trivial
        · refine meets_bind (meets_outside (outside_rebuildWatches found.watched) hidle) (fun watches _ v hv => ?_)
            fun e l v _ => hstop e l v
          have hwatches := rebuildWatches_yields hv.1
          refine meets_bind (meets_outside (outside_reloadTargets found.staged []) hv.2) (fun targets _ u hu => ?_)
            fun e l v _ => hstop e l v
          have hrebuilt : Rebuilt found watches targets := by
            refine ⟨hwatches, fun name => ?_⟩
            rw [reloadTargets_yields hu.1 name, Dict.get?_nil, Option.map_none, Option.or_none]
          refine meets_bind (M := fun _ _ _ => True) ?_ (fun _ _ v _ => meets_ret fun _ _ => trivial) fun e l v _ => hstop e l v
          refine Prog.Sat.seq (meets_commit_at (fun p x hx hp => ?_) hu.2) fun _ _ _ _ _ => trivial
          exact ⟨found, watches, targets, hx.first _ rfl, hrebuilt, hp⟩

end Commands

/-! ### All processes -/

/-- What a process does: the commit of an assembled transaction, or a command line. -/
inductive Task where
  | commit (t : Tx)
  | command (c : Cmd)

def Task.process (H : Host) : Task → Proc Unit
  | .commit t => (Pdgtx.commit H t).bind (fun _ => .ret ())
  | .command c => c.process H

/-- What its first change has to find. -/
def Task.fresh (H : Host) (pid : Pid) : Task → Path → Scene → Prop
  | .commit t, p, w => Fresh H t p w.world.files
  | .command c, p, w => c.fresh H pid p w

/-- The path a process is about to change. -/
def about : Proc Unit → Option Path
  | .op e _ => e.changes
  | .ret _ => none

/-- The processes before their first operation. -/
def startTasks (H : Host) (tasks : Pid → Option Task) (i : Pid) : Proc Unit :=
  ((tasks i).map (Task.process H)).getD (.ret ())

/-- A process is killed; its lock is released. -/
def killed (i : Pid) (s : (Pid → Proc Unit) × Scene) : (Pid → Proc Unit) × Scene :=
  (Function.update s.1 i (.ret ()),
    { s.2 with world := { s.2.world with lock := if s.2.world.lock = some i then none else s.2.world.lock } })

/-- What the processes reach from the world `w`. -/
inductive Reached (H : Host) (tasks : Pid → Option Task) (w : World) : (Pid → Proc Unit) × Scene → Prop where
  | start : Reached H tasks w (startTasks H tasks, ⟨w, fun _ => false, fun _ => none⟩)
  | step {s : (Pid → Proc Unit) × Scene} (i : Pid) (c : Choice) (h : Reached H tasks w s) :
      Reached H tasks w (Pool.step (enact H) i c s)
  | kill {s : (Pid → Proc Unit) × Scene} (i : Pid) (h : Reached H tasks w s) : Reached H tasks w (killed i s)

section Pool

variable {H : Host} {tasks : Pid → Option Task} {w : World} {s : (Pid → Proc Unit) × Scene} {i j : Pid}

/-- The setting of a process. -/
abbrev watched (H : Host) (tasks : Pid → Option Task) (i : Pid) : Setting Op Op.Answer Choice Scene :=
  guarded H i fun p v => ∀ task, tasks i = some task → task.fresh H i p v

theorem sat_command (c : Cmd) {v : Scene} (hv : Idle i none v) (hfirst : v.first i = none) :
    Prog.Sat (guarded H i (c.fresh H i)) (fun _ _ => True) (c.process H) v := by
  have hafter {m : CallM Unit} (h : Obeys (outside Unit) m ()) {fresh : Path → Scene → Prop} :
      Meets (guarded H i fresh) m () v (fun _ _ _ => True) := meets_after h
  refine Prog.Sat.seq (M := fun _ _ => True) ?_ fun _ _ _ _ _ => trivial
  cases c with
  | new T mode => exact hafter (outside_new mode)
  | stage T name data expect => exact hafter (outside_stage name data expect)
  | service T a => exact hafter (outside_service a)
  | guard T u want => exact hafter (outside_guard u want)
  | apply T drift => exact meets_apply_at drift hv hfirst
  | abort T => exact hafter outside_abort
  | recover T force =>
      show Meets (guarded H i fun _ _ => True) (cliRecover H T force) () v (fun _ _ _ => True)
      exact meets_bind (meets_recover_at force hv) (fun _ _ _ _ => meets_ret fun _ _ => trivial)
        fun _ _ _ _ => meets_raise fun _ _ => trivial

/-- At the start every process is judged. -/
theorem sat_start (i : Pid) : Prog.Sat (watched H tasks i) (fun _ _ => True) (startTasks H tasks i)
    ⟨w, fun _ => false, fun _ => none⟩ := by
  have hidle : Idle i none ⟨w, fun _ => false, fun _ => none⟩ := ⟨rfl, fun m hm => by cases hm⟩
  unfold startTasks watched
  cases htask : tasks i with
  | none => exact fun _ _ => trivial
  | some task =>
      have hfresh : (fun p v => ∀ task', some task = some task' → task'.fresh H i p v) = task.fresh H i := by
        funext p v
        simp
      rw [hfresh]
      cases task with
      | commit t => exact Prog.Sat.seq (meets_commit_at (fun _ _ _ hp => hp) hidle) fun _ _ _ _ _ => trivial
      | command c => exact sat_command c hidle rfl

/-- **The processes respect each other's lock**: a permitted step of `i` is one that `j` can rely on. -/
theorem rely_of_permit {e : Op} {fresh fresh' : Path → Scene → Prop} {v : Scene} (hne : j ≠ i)
    (h : (guarded H i fresh).permit e v) (c : Choice) : (guarded H j fresh').rely v (enact H i e c v).2 := by
  refine ⟨Function.update_of_ne hne _ _, Function.update_of_ne hne _ _, fun hlock => ⟨exec_lock_other hne hlock c, ?_⟩⟩
  cases hchanges : e.changes with
  | none => exact exec_files (by rw [Op.touches_eq, hchanges]; rfl) c
  | some p =>
      -- only `i` itself could change production, with the lock that `j` has
      have hheld := (h p hchanges).1
      rw [hlock] at hheld
      cases hheld
      exact absurd rfl hne

theorem sat_reached (h : Reached H tasks w s) (i : Pid) :
    Prog.Sat (watched H tasks i) (fun _ _ => True) (s.1 i) s.2 := by
  induction h generalizing i with
  | start => exact sat_start i
  | @step s j c _ ih =>
      let anything : Pid → Unit → Scene → Prop := fun _ _ _ => True
      have hall : ∀ k, Prog.Sat (watched H tasks k) (anything k) (s.1 k) s.2 := ih
      refine Pool.sat_step (S := watched H tasks) hall (fun _ _ _ => trivial) ?_ i
      intro k hk e _ _ hpermit
      exact (ih k).stable (rely_of_permit hk hpermit c)
  | @kill s j _ ih =>
      by_cases hij : i = j
      · subst hij
        show Prog.Sat (watched H tasks i) _ (Function.update s.1 i (.ret ()) i) _
        rw [Function.update_self]
        exact fun _ _ => trivial
      · show Prog.Sat (watched H tasks i) _ (Function.update s.1 j (.ret ()) i) _
        rw [Function.update_of_ne hij]
        refine (ih i).stable ⟨rfl, rfl, fun hlock => ⟨?_, rfl⟩⟩
        show (if s.2.world.lock = some j then none else s.2.world.lock) = some i
        rw [if_neg, hlock]
        rw [hlock]
        intro heq
        cases heq
        exact hij rfl

end Pool

/-- The commit of `stagedTx`, after `n` operations. -/
def committing : Nat → (Pid → Proc Unit) × Scene
  | 0 => (startTasks Host.plain (fun i => if i = 1 then some (.commit stagedTx) else none),
      ⟨oneFile aService .absent, fun _ => false, fun _ => none⟩)
  | n + 1 => Pool.step (enact Host.plain) 1 {} (committing n)

theorem reached_committing (n : Nat) :
    Reached Host.plain (fun i => if i = 1 then some (.commit stagedTx) else none) (oneFile aService .absent)
      (committing n) := by
  induction n with
  | zero => exact .start
  | succ n ih => exact .step 1 {} ih

end ProxyGateway.Pdgtx
