import ProxyGateway.Lib.Search

set_option autoImplicit false

/-!
# ProxyGateway.Lib.Clean

Which faults a call can raise (`Py.OnlyFaults`), and the calls that raise none (`Py.Clean`):
they return, or they raise one of the program's own exceptions. The rules follow the text of
a call: an operator is clean on operands of its type, a sequence is clean if its first part
is, and the rest wherever the first part ends, a loop if each turn is that it comes to
(`EachTurn`, `Each`).

The search for a cycle is the one call that is clean on every operand of its type and may
still fault, by nesting deeper than the interpreter allows (`Search.Fits`).
-/

namespace ProxyGateway

namespace Py

variable {ε α β : Type} {F G : Fault → Prop} {x : Py ε α}

/-- No fault is raised but those in `F`. -/
def OnlyFaults (F : Fault → Prop) (x : Py ε α) : Prop := ∀ f, x = .error (.fault f) → F f

/-- No fault is raised. -/
abbrev Clean (x : Py ε α) : Prop := OnlyFaults (fun _ => False) x

@[simp] theorem onlyFaults_ok {a : α} : OnlyFaults F (.ok a : Py ε α) := fun _ h => by cases h

@[simp] theorem onlyFaults_pure {a : α} : OnlyFaults F (pure a : Py ε α) := onlyFaults_ok

@[simp] theorem onlyFaults_raise {e : ε} : OnlyFaults F (raise e : Py ε α) := fun _ h => by cases h

@[simp] theorem onlyFaults_fault_iff {f : Fault} : OnlyFaults F (fault f : Py ε α) ↔ F f := by
  refine ⟨fun h => h f rfl, fun h g hg => ?_⟩
  cases hg
  exact h

/-- A clean call has one of two ends. -/
theorem Clean.cases (h : Clean x) : (∃ a, x = .ok a) ∨ ∃ e, x = raise e := by
  cases x with
  | ok a => exact Or.inl ⟨a, rfl⟩
  | error e =>
      cases e with
      | fault f => exact (h f rfl).elim
      | error e => exact Or.inr ⟨e, rfl⟩

theorem onlyFaults_of_ok {a : α} (h : x = .ok a) : OnlyFaults F x := h ▸ onlyFaults_ok

theorem onlyFaults_of_raise {e : ε} (h : x = raise e) : OnlyFaults F x := h ▸ onlyFaults_raise

theorem OnlyFaults.mono (h : OnlyFaults F x) (hFG : ∀ f, F f → G f) : OnlyFaults G x :=
  fun f hf => hFG f (h f hf)

theorem Clean.only (h : Clean x) : OnlyFaults F x := h.mono fun _ => False.elim

theorem OnlyFaults.bind {f : α → Py ε β} (hx : OnlyFaults F x)
    (hf : ∀ a, x = .ok a → OnlyFaults F (f a)) : OnlyFaults F (x >>= f) := by
  cases x with
  | ok a => exact hf a rfl
  | error e =>
      intro g hg
      cases hg
      exact hx g rfl

/-- A sequence spares what its first part spares, and the rest wherever the first part ends. -/
theorem onlyFaults_bind_iff {f : α → Py ε β} :
    OnlyFaults F (x >>= f) ↔ OnlyFaults F x ∧ ∀ a, x = .ok a → OnlyFaults F (f a) := by
  refine ⟨fun h => ⟨fun fault hx => ?_, fun a hx => ?_⟩, fun h => h.1.bind h.2⟩
  · rw [hx] at h
    exact h fault rfl
  · rwa [hx] at h

/-- Behind a clean part only the rest counts. -/
theorem OnlyFaults.bind_iff {f : α → Py ε β} (hx : OnlyFaults F x) :
    OnlyFaults F (x >>= f) ↔ ∀ a, x = .ok a → OnlyFaults F (f a) := by
  rw [onlyFaults_bind_iff]
  exact and_iff_right hx

/-- In front of a rest that is always clean only the first part counts. -/
theorem onlyFaults_bind_iff_left {f : α → Py ε β} (hf : ∀ a, OnlyFaults F (f a)) :
    OnlyFaults F (x >>= f) ↔ OnlyFaults F x := by
  rw [onlyFaults_bind_iff]
  exact and_iff_left fun a _ => hf a

theorem clean_bind_iff {f : α → Py ε β} :
    Clean (x >>= f) ↔ Clean x ∧ ∀ a, x = .ok a → Clean (f a) := onlyFaults_bind_iff

theorem Clean.bind_iff {f : α → Py ε β} (hx : Clean x) :
    Clean (x >>= f) ↔ ∀ a, x = .ok a → Clean (f a) := OnlyFaults.bind_iff hx

theorem clean_bind_iff_left {f : α → Py ε β} (hf : ∀ a, Clean (f a)) :
    Clean (x >>= f) ↔ Clean x := onlyFaults_bind_iff_left hf

@[simp] theorem onlyFaults_map_iff {f : α → β} : OnlyFaults F (f <$> x) ↔ OnlyFaults F x := by
  cases x with
  | ok a => exact iff_of_true onlyFaults_ok onlyFaults_ok
  | error e =>
      refine ⟨fun h fault hx => ?_, fun h fault hx => ?_⟩
      · cases hx
        exact h fault rfl
      · cases hx
        exact h fault rfl

@[simp] theorem onlyFaults_discard_iff : OnlyFaults F (Functor.discard x) ↔ OnlyFaults F x :=
  onlyFaults_map_iff

/-- The call returns. -/
def Passes (x : Py ε α) : Prop := ∃ a, x = .ok a

/-- What is asked behind a part that returns nothing of use. -/
theorem forall_ok_iff {P : Prop} : (∀ a, x = .ok a → P) ↔ (Passes x → P) :=
  ⟨fun h hx => hx.elim h, fun h a ha => h ⟨a, ha⟩⟩

/-! ### Loops -/

/-- `P` holds of every element that a loop comes to: the turns before it have returned. -/
def EachTurn (f : β → α → Py ε β) (P : β → α → Prop) : β → List α → Prop
  | _, [] => True
  | b, x :: xs => P b x ∧ ∀ b', f b x = .ok b' → EachTurn f P b' xs

/-- `EachTurn` for a loop whose turns hand nothing on. -/
def Each (f : α → Py ε β) (P : α → Prop) : List α → Prop
  | [] => True
  | x :: xs => P x ∧ (Passes (f x) → Each f P xs)

theorem onlyFaults_foldlM_iff {f : β → α → Py ε β} {P : β → α → Prop} {xs : List α} {b : β}
    (h : ∀ b, ∀ x ∈ xs, OnlyFaults F (f b x) ↔ P b x) :
    OnlyFaults F (xs.foldlM f b) ↔ EachTurn f P b xs := by
  induction xs generalizing b with
  | nil => simp [EachTurn]
  | cons x xs ih =>
      rw [List.foldlM_cons, onlyFaults_bind_iff, EachTurn, h b x (by simp)]
      have hrest : ∀ b', OnlyFaults F (xs.foldlM f b') ↔ EachTurn f P b' xs :=
        fun b' => ih fun b a ha => h b a (List.mem_cons_of_mem x ha)
      simp only [hrest]

theorem onlyFaults_mapM_iff {f : α → Py ε β} {P : α → Prop} {xs : List α}
    (h : ∀ x ∈ xs, OnlyFaults F (f x) ↔ P x) : OnlyFaults F (xs.mapM f) ↔ Each f P xs := by
  induction xs with
  | nil => simp [Each]
  | cons x xs ih =>
      have hrest : OnlyFaults F (xs.mapM f) ↔ Each f P xs :=
        ih fun a ha => h a (List.mem_cons_of_mem x ha)
      rw [List.mapM_cons, onlyFaults_bind_iff, Each, h x (by simp), ← hrest]
      refine and_congr_right fun _ => ⟨fun hall hx => ?_, fun hall y hy => ?_⟩
      · obtain ⟨y, hy⟩ := hx
        exact (onlyFaults_bind_iff.mp (hall y hy)).1
      · exact (hall ⟨y, hy⟩).bind fun _ _ => onlyFaults_ok

theorem onlyFaults_forM_iff {f : α → Py ε Unit} {P : α → Prop} {xs : List α}
    (h : ∀ x ∈ xs, OnlyFaults F (f x) ↔ P x) : OnlyFaults F (xs.forM f) ↔ Each f P xs := by
  induction xs with
  | nil => simp [Each, List.forM]
  | cons x xs ih =>
      have hrest : OnlyFaults F (xs.forM f) ↔ Each f P xs :=
        ih fun a ha => h a (List.mem_cons_of_mem x ha)
      show OnlyFaults F (f x >>= fun _ => xs.forM f) ↔ _
      rw [onlyFaults_bind_iff, Each, h x (by simp), ← hrest]
      exact and_congr_right fun _ =>
        ⟨fun hall hx => hall () hx.choose_spec, fun hall y hy => hall ⟨y, hy⟩⟩

theorem OnlyFaults.mapM {f : α → Py ε β} {xs : List α} (h : ∀ x ∈ xs, OnlyFaults F (f x)) :
    OnlyFaults F (xs.mapM f) := by
  induction xs with
  | nil => exact onlyFaults_ok
  | cons x xs ih =>
      rw [List.mapM_cons]
      refine (h x (by simp)).bind (fun y _ => ?_)
      exact (ih (fun a ha => h a (List.mem_cons_of_mem x ha))).bind (fun ys _ => onlyFaults_ok)

theorem OnlyFaults.forM {f : α → Py ε Unit} {xs : List α} (h : ∀ x ∈ xs, OnlyFaults F (f x)) :
    OnlyFaults F (xs.forM f) := by
  induction xs with
  | nil => exact onlyFaults_ok
  | cons x xs ih =>
      show OnlyFaults F (f x >>= fun _ => xs.forM f)
      exact (h x (by simp)).bind (fun _ _ => ih (fun a ha => h a (List.mem_cons_of_mem x ha)))

theorem OnlyFaults.foldlM {f : β → α → Py ε β} {xs : List α} {b : β}
    (h : ∀ b, ∀ x ∈ xs, OnlyFaults F (f b x)) : OnlyFaults F (xs.foldlM f b) := by
  induction xs generalizing b with
  | nil => exact onlyFaults_ok
  | cons x xs ih =>
      rw [List.foldlM_cons]
      exact (h b x (by simp)).bind fun b' _ => ih fun c a ha => h c a (List.mem_cons_of_mem x ha)

theorem OnlyFaults.anyM {f : α → Py ε Bool} {xs : List α} (h : ∀ x ∈ xs, OnlyFaults F (f x)) :
    OnlyFaults F (xs.anyM f) := by
  induction xs with
  | nil => exact onlyFaults_ok
  | cons x xs ih =>
      refine (h x (by simp)).bind (fun b _ => ?_)
      cases b with
      | true => exact onlyFaults_ok
      | false => exact ih (fun a ha => h a (List.mem_cons_of_mem x ha))

theorem OnlyFaults.filterAuxM {f : α → Py ε Bool} {xs acc : List α}
    (h : ∀ x ∈ xs, OnlyFaults F (f x)) : OnlyFaults F (xs.filterAuxM f acc) := by
  induction xs generalizing acc with
  | nil => exact onlyFaults_ok
  | cons x xs ih =>
      rw [List.filterAuxM]
      exact (h x (by simp)).bind (fun b _ => ih (fun a ha => h a (List.mem_cons_of_mem x ha)))

theorem OnlyFaults.filterM {f : α → Py ε Bool} {xs : List α} (h : ∀ x ∈ xs, OnlyFaults F (f x)) :
    OnlyFaults F (xs.filterM f) := (OnlyFaults.filterAuxM h).bind (fun _ _ => onlyFaults_ok)

/-- A filter whose test returns or faults looks at every element. -/
theorem clean_filterM_iff {f : α → Py ε Bool} {xs : List α} (h : ∀ x ∈ xs, ∀ e, f x ≠ raise e) :
    Clean (xs.filterM f) ↔ ∀ x ∈ xs, Clean (f x) := by
  have haux : ∀ acc, Clean (xs.filterAuxM f acc) ↔ ∀ x ∈ xs, Clean (f x) := by
    induction xs with
    | nil => simp [List.filterAuxM]
    | cons x xs ih =>
        intro acc
        have hrest := ih fun a ha => h a (List.mem_cons_of_mem x ha)
        rw [List.filterAuxM, clean_bind_iff, List.forall_mem_cons]
        refine and_congr_right fun hx => ?_
        rcases hx.cases with ⟨b, hb⟩ | ⟨e, he⟩
        · simp only [hb, Except.ok.injEq, forall_eq', hrest]
        · exact absurd he (h x (by simp) e)
  rw [List.filterM, clean_bind_iff_left fun _ => onlyFaults_pure, haux]

end Py

/-! ### Operators -/

namespace Json

open Py

variable {ε : Type} {j : Json} {F : Fault → Prop}

/-- Can a loop go over the value? -/
def isContainer : Json → Bool
  | .arr _ | .str _ | .obj _ => true
  | _ => false

@[simp] theorem clean_within_iff {names : List String} :
    Clean (j.within (ε := ε) names) ↔ j.hashable = true := by
  cases j <;> simp [within, hashable, OnlyFaults]

@[simp] theorem clean_items_iff : Clean (j.items (ε := ε)) ↔ j.isContainer = true := by
  cases j <;> simp [items, isContainer, OnlyFaults]

@[simp] theorem clean_has_iff {text : String} :
    Clean (Json.has (ε := ε) text j) ↔ j.isContainer = true := by
  cases j <;> simp [has, isContainer, OnlyFaults]

end Json

/-! ### Nested calls -/

namespace Search

open Py

variable {α ε : Type} [DecidableEq α] {cycle : ε} {next : α → List α} {limit : Nat}
  {path done nodes : List α} {a : α}

/-- The search makes no more than `limit` nested calls. -/
def Fits (limit : Nat) (cycle : ε) (next : α → List α) (nodes : List α) : Prop :=
  Clean (visitAllWithin limit cycle next nodes)

theorem clean_visit {fuel : Nat} : Clean (visit cycle next fuel path done a) := by
  induction fuel generalizing path done a with
  | zero => exact onlyFaults_raise
  | succ fuel ih =>
      rw [visit]
      split
      · exact onlyFaults_raise
      split
      · exact onlyFaults_ok
      · exact (OnlyFaults.foldlM fun _ _ _ => ih).bind fun _ _ => onlyFaults_ok

theorem visitWithin_recursion :
    OnlyFaults (· = .recursion) (visitWithin cycle next limit path done a) := by
  induction limit generalizing path done a with
  | zero => exact onlyFaults_fault_iff.mpr rfl
  | succ limit ih =>
      rw [visitWithin]
      split
      · exact onlyFaults_raise
      split
      · exact onlyFaults_ok
      · exact (OnlyFaults.foldlM fun _ _ _ => ih).bind fun _ _ => onlyFaults_ok

/-- A search among fewer nodes than the limit fits. -/
theorem fits_of_length (hclosed : ∀ a ∈ nodes, ∀ b ∈ next a, b ∈ nodes)
    (hlimit : nodes.length < limit) : Fits limit cycle next nodes := by
  have hloop : nodes.foldlM (visitWithin cycle next limit []) [] =
      nodes.foldlM (visit cycle next limit []) [] :=
    foldlM_eq_of_turn fun a ha _ =>
      visitWithin_eq_visit hclosed List.nodup_nil (List.nil_subset nodes) ha (by simpa using hlimit)
  unfold Fits visitAllWithin
  rw [hloop]
  exact (OnlyFaults.foldlM fun _ _ _ => clean_visit).bind fun _ _ => onlyFaults_ok

end Search

end ProxyGateway
