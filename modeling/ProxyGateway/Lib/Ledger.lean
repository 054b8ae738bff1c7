import ProxyGateway.Lib.Method

set_option autoImplicit false

/-!
# ProxyGateway.Lib.Ledger

**Ledgers**: a shared world together with every operation that was performed on it, its answer and the
process behind it. What a pool of processes may never do is a law about single entries and the entries
before them (`Lawful`). A pool keeps the law in every order of steps when each of its processes, left
alone among others that only add to the ledger, does (`play_lawful`).

`Once` is about one process that runs alone: it returns, and performs exactly one operation of a kind. It
has a rule for each way to build a method.
-/

namespace ProxyGateway

/-- An operation, the process that performed it, and the answer. -/
structure Entry (ι E : Type) (R : E → Type) where
  author : ι
  op : E
  answer : R op

/-- A world and what happened to it, the latest first. -/
structure Ledger (ι E : Type) (R : E → Type) (W : Type) where
  world : W
  past : List (Entry ι E R)

namespace Ledger

variable {ι E : Type} {R : E → Type} {W α β : Type} {run : (e : E) → W → R e × W}

/-- One operation of `i`, which is recorded. -/
def exec (run : (e : E) → W → R e × W) (i : ι) (e : E) (_ : Unit) (s : Ledger ι E R W) : R e × Ledger ι E R W :=
  ((run e s.world).1, ⟨(run e s.world).2, ⟨i, e, (run e s.world).1⟩ :: s.past⟩)

@[simp] theorem exec_past (i : ι) (e : E) (c : Unit) (s : Ledger ι E R W) :
    (exec run i e c s).2.past = ⟨i, e, (run e s.world).1⟩ :: s.past := rfl

/-! ### Lawful ledgers -/

/-- Every entry is lawful behind those before it. -/
def Lawful (law : Entry ι E R → List (Entry ι E R) → Prop) : List (Entry ι E R) → Prop
  | [] => True
  | entry :: past => law entry past ∧ Lawful law past

theorem Lawful.and {law law' : Entry ι E R → List (Entry ι E R) → Prop} {past : List (Entry ι E R)} (h : Lawful law past)
    (h' : Lawful law' past) : Lawful (fun entry past => law entry past ∧ law' entry past) past := by
  induction past with
  | nil => trivial
  | cons entry past ih => exact ⟨⟨h.1, h'.1⟩, ih h.2 h'.2⟩

theorem Lawful.mono {law law' : Entry ι E R → List (Entry ι E R) → Prop} {past : List (Entry ι E R)} (h : Lawful law past)
    (himp : ∀ entry past, Lawful law past → law entry past → law' entry past) : Lawful law' past := by
  induction past with
  | nil => trivial
  | cons entry past ih => exact ⟨himp entry past h.2 h.1, ih h.2⟩

/-- The law at an entry of the ledger. -/
theorem Lawful.of_mem {law : Entry ι E R → List (Entry ι E R) → Prop} {past : List (Entry ι E R)} {entry : Entry ι E R}
    (h : Lawful law past) (hmem : entry ∈ past) : ∃ before, entry :: before <:+ past ∧ law entry before := by
  induction past with
  | nil => cases hmem
  | cons latest past ih =>
      rcases List.mem_cons.mp hmem with rfl | hmem
      · exact ⟨past, List.suffix_refl _, h.1⟩
      · obtain ⟨before, hbefore, hlaw⟩ := ih h.2 hmem
        exact ⟨before, hbefore.trans (List.suffix_cons _ _), hlaw⟩

/-- Process `i` among others that add to the ledger and keep `I`, under a law for its own operations. -/
def among (run : (e : E) → W → R e × W) (I : Ledger ι E R W → Prop) (law : E → List (Entry ι E R) → Prop) (i : ι) :
    Setting E R Unit (Ledger ι E R W) where
  exec := exec run i
  allow := fun _ _ s => I s
  rely := fun s s' => s.past <:+ s'.past
  permit := fun e s => law e s.past
  rely_refl := fun s => List.suffix_refl s.past
  rely_trans := fun h h' => h.trans h'

section Among

variable {I : Ledger ι E R W → Prop} {law : E → List (Entry ι E R) → Prop} {i : ι} {s : Ledger ι E R W}

/-- What the ledger says of a performed operation stays so. -/
theorem sat_perform_among {e : E} {post : R e → Ledger ι E R W → Prop}
    (hlaw : ∀ past, s.past <:+ past → law e past)
    (hpost : ∀ r s', s.past <:+ s'.past → ⟨i, e, r⟩ ∈ s'.past → post r s') :
    Prog.Sat (among run I law i) post (Prog.perform e) s := by
  refine Prog.sat_perform fun s' hs' => ⟨hlaw _ hs', fun _ _ s'' hs'' => ?_⟩
  have hcons : s'.past <:+ (exec run i e () s').2.past := List.suffix_cons _ _
  exact hpost _ _ (hs'.trans (hcons.trans hs'')) (hs''.subset List.mem_cons_self)

end Among

/-! ### Pools -/

section Play

variable [DecidableEq ι]

/-- The processes take steps in the given order. -/
def play (run : (e : E) → W → R e × W) : List ι → (ι → Prog E R α) × Ledger ι E R W → (ι → Prog E R α) × Ledger ι E R W
  | [], s => s
  | i :: order, s => play run order (Pool.step (exec run) i () s)

/-- In every order of steps the invariant holds, and the law is kept. -/
theorem play_lawful {I : Ledger ι E R W → Prop} {law : ι → E → List (Entry ι E R) → Prop}
    {post : ι → α → Ledger ι E R W → Prop} (hkeeps : ∀ i e s, I s → I (exec run i e () s).2) (order : List ι)
    {ps : ι → Prog E R α} {s : Ledger ι E R W} (hsat : ∀ i, Prog.Sat (among run I (law i) i) (post i) (ps i) s) (hI : I s)
    (hlaw : Lawful (fun entry => law entry.author entry.op) s.past) :
    (∀ i, Prog.Sat (among run I (law i) i) (post i) ((play run order (ps, s)).1 i) (play run order (ps, s)).2) ∧
      I (play run order (ps, s)).2 ∧ Lawful (fun entry => law entry.author entry.op) (play run order (ps, s)).2.past := by
  induction order generalizing ps s with
  | nil => exact ⟨hsat, hI, hlaw⟩
  | cons i order ih =>
      refine ih (Pool.sat_step (S := fun j => among run I (law j) j) hsat (fun _ _ _ => hI) ?_) ?_ ?_
      · -- the others find a longer ledger
        intro j _ e _ _ _
        exact (hsat j).stable (List.suffix_cons _ _)
      · cases hp : ps i with
        | ret a => simpa [Pool.step, Prog.step, hp] using hI
        | op e k => simpa [Pool.step, Prog.step, hp] using hkeeps i e s hI
      · cases hp : ps i with
        | ret a => simpa [Pool.step, Prog.step, hp] using hlaw
        | op e k =>
            have hi := hsat i
            rw [hp] at hi
            have hpermit : law i e s.past := hi.permit (c := ()) hI
            simpa [Pool.step, Prog.step, hp, Lawful] using ⟨hpermit, hlaw⟩

end Play

/-! ### A process alone -/

variable {σ ε : Type} {i : ι} {kind : Entry ι E R → Bool} {l : σ} {s : Ledger ι E R W}

/-- What comes of a method of process `i` that runs alone: the outcome and the object, and the ledger. -/
def alone (run : (e : E) → W → R e × W) (i : ι) (m : Method E R σ ε α) (l : σ) (s : Ledger ι E R W) :
    (Except ε α × σ) × Ledger ι E R W :=
  Prog.complete (exec run i) (fun _ => ()) (m l) s

theorem complete_bind (p : Prog E R α) (f : α → Prog E R β) (s : Ledger ι E R W) :
    Prog.complete (exec run i) (fun _ => ()) (p.bind f) s =
      Prog.complete (exec run i) (fun _ => ()) (f (Prog.complete (exec run i) (fun _ => ()) p s).1)
        (Prog.complete (exec run i) (fun _ => ()) p s).2 := by
  induction p generalizing s with
  | ret a => rfl
  | op e k ih => exact ih _ _

theorem alone_bind_ok {m : Method E R σ ε α} {f : α → Method E R σ ε β} {a : α} {l' : σ} {s' : Ledger ι E R W}
    (h : alone run i m l s = ((.ok a, l'), s')) : alone run i (m.bind f) l s = alone run i (f a) l' s' := by
  unfold alone at h ⊢
  rw [Method.bind, complete_bind, h]

theorem alone_bind_error {m : Method E R σ ε α} {f : α → Method E R σ ε β} {e : ε} {l' : σ} {s' : Ledger ι E R W}
    (h : alone run i m l s = ((.error e, l'), s')) : alone run i (m.bind f) l s = ((.error e, l'), s') := by
  unfold alone at h ⊢
  rw [Method.bind, complete_bind, h]
  rfl

theorem alone_outcome (m : Method E R σ ε α) (f : Except ε α → Method E R σ ε β) : alone run i (m.outcome f) l s =
    alone run i (f (alone run i m l s).1.1) (alone run i m l s).1.2 (alone run i m l s).2 := by
  unfold alone
  rw [Method.outcome, complete_bind]

/-- The method returns, and performs exactly one operation of the kind. -/
def Once (run : (e : E) → W → R e × W) (i : ι) (kind : Entry ι E R → Bool) (m : Method E R σ ε α) (l : σ)
    (s : Ledger ι E R W) : Prop :=
  (∃ a, (alone run i m l s).1.1 = .ok a) ∧ (alone run i m l s).2.past.countP kind = s.past.countP kind + 1

/-- The method returns, and performs no operation of the kind. -/
def Quiet (run : (e : E) → W → R e × W) (i : ι) (kind : Entry ι E R → Bool) (m : Method E R σ ε α) : Prop :=
  ∀ l s, (∃ a, (alone run i m l s).1.1 = .ok a) ∧ (alone run i m l s).2.past.countP kind = s.past.countP kind

theorem quiet_ret (a : α) : Quiet run i kind (Method.ret a : Method E R σ ε α) := fun _ _ => ⟨⟨a, rfl⟩, rfl⟩

theorem quiet_self : Quiet run i kind (Method.self : Method E R σ ε σ) := fun l _ => ⟨⟨l, rfl⟩, rfl⟩

theorem quiet_assign (f : σ → σ) : Quiet run i kind (Method.assign f : Method E R σ ε Unit) := fun _ _ => ⟨⟨(), rfl⟩, rfl⟩

theorem quiet_perform {e : E} (h : ∀ r, kind ⟨i, e, r⟩ = false) :
    Quiet run i kind (Method.call (Prog.perform e) : Method E R σ ε (R e)) :=
  fun _ _ => ⟨⟨_, rfl⟩, List.countP_cons_of_neg (by simp [h])⟩

theorem quiet_bind {m : Method E R σ ε α} {f : α → Method E R σ ε β} (hm : Quiet run i kind m)
    (hf : ∀ a, Quiet run i kind (f a)) : Quiet run i kind (m.bind f) := by
  intro l s
  obtain ⟨⟨a, ha⟩, hcount⟩ := hm l s
  rw [alone_bind_ok (Prod.ext (Prod.ext ha rfl) rfl), ← hcount]
  exact hf a _ _

theorem once_perform {e : E} (h : ∀ r, kind ⟨i, e, r⟩ = true) :
    Once run i kind (Method.call (Prog.perform e) : Method E R σ ε (R e)) l s :=
  ⟨⟨_, rfl⟩, List.countP_cons_of_pos (h _)⟩

theorem not_once_raise (e : ε) : ¬ Once run i kind (Method.raise e : Method E R σ ε α) l s := by
  rintro ⟨⟨a, h⟩, -⟩
  cases h

theorem not_once_raise_bind (e : ε) (f : α → Method E R σ ε β) : ¬ Once run i kind ((Method.raise e).bind f) l s := by
  rintro ⟨⟨a, h⟩, -⟩
  cases h

theorem once_ret_bind (a : α) (f : α → Method E R σ ε β) :
    Once run i kind ((Method.ret a).bind f) l s ↔ Once run i kind (f a) l s := Iff.rfl

theorem once_self_bind (f : σ → Method E R σ ε β) :
    Once run i kind (Method.self.bind f) l s ↔ Once run i kind (f l) l s := Iff.rfl

theorem once_assign_bind (g : σ → σ) (f : Unit → Method E R σ ε β) :
    Once run i kind ((Method.assign g).bind f) l s ↔ Once run i kind (f ()) (g l) s := Iff.rfl

/-- An operation of another kind does not count. -/
theorem once_perform_bind {e : E} (h : ∀ r, kind ⟨i, e, r⟩ = false) (f : R e → Method E R σ ε β) :
    Once run i kind ((Method.call (Prog.perform e)).bind f) l s ↔
      Once run i kind (f (run e s.world).1) l (exec run i e () s).2 := by
  show _ ∧ _ = s.past.countP kind + 1 ↔ _ ∧ _ = (exec run i e () s).2.past.countP kind + 1
  rw [exec_past, List.countP_cons_of_neg (by simp [h])]
  exact Iff.rfl

theorem once_quiet_bind {m : Method E R σ ε α} {f : α → Method E R σ ε β} (hm : Quiet run i kind m)
    (hf : ∀ a l s, Once run i kind (f a) l s) : Once run i kind (m.bind f) l s := by
  obtain ⟨⟨a, ha⟩, hcount⟩ := hm l s
  obtain ⟨hreturns, hone⟩ := hf a (alone run i m l s).1.2 (alone run i m l s).2
  unfold Once
  rw [alone_bind_ok (Prod.ext (Prod.ext ha rfl) rfl), ← hcount]
  exact ⟨hreturns, hone⟩

/-- `try: m finally: last`, for a last part that performs nothing of the kind. -/
theorem once_outcome_bind {m : Method E R σ ε α} {last : Method E R σ ε Unit} {f : Except ε α → Method E R σ ε α}
    (hlast : Quiet run i kind last) (hok : ∀ a, f (.ok a) = Method.ret a) (herror : ∀ e, f (.error e) = Method.raise e) :
    Once run i kind (m.outcome fun r => last.bind fun _ => f r) l s ↔ Once run i kind m l s := by
  obtain ⟨⟨u, hu⟩, hcount⟩ := hlast (alone run i m l s).1.2 (alone run i m l s).2
  unfold Once
  rw [alone_outcome, alone_bind_ok (Prod.ext (Prod.ext hu rfl) rfl), ← hcount]
  cases (alone run i m l s).1.1 with
  | ok a => rw [hok]; exact Iff.rfl
  | error e => rw [herror]; exact Iff.rfl

end Ledger

end ProxyGateway
