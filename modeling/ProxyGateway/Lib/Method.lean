import ProxyGateway.Lib.Prog

set_option autoImplicit false

/-!
# ProxyGateway.Lib.Method

**Methods** of a mutable object: interaction programs that read and write the
object's state `σ` and either return or raise. An exception carries no state; the
object keeps what was assigned to it before the raise, as it does when a `try`
block is left half way.

`Method.Meets` is `Prog.Sat` with the outcome and the object's final state in the
postcondition. The rules mirror the method text: sequencing splits on whether the
first part returned, `tryCatch` on whether it raised, `each` carries a loop
invariant over the elements already visited.
-/

namespace ProxyGateway

/-- A method of an object with state `σ`, raising `ε` or returning `α`. -/
def Method (E : Type) (R : E → Type) (σ ε α : Type) : Type := σ → Prog E R (Except ε α × σ)

namespace Method

variable {E : Type} {R : E → Type} {C W σ ε α β ι : Type} {S S' : Setting E R C W}

/-- Return a value. -/
def ret (a : α) : Method E R σ ε α := fun s => .ret (.ok a, s)

/-- Raise. -/
def raise (e : ε) : Method E R σ ε α := fun s => .ret (.error e, s)

/-- Sequencing: the rest runs only when the first part returned. -/
def bind (m : Method E R σ ε α) (f : α → Method E R σ ε β) : Method E R σ ε β := fun s =>
  (m s).bind (fun r => match r with
    | (.ok a, s') => f a s'
    | (.error e, s') => .ret (.error e, s'))

instance : Monad (Method E R σ ε) where
  pure := ret
  bind := bind

@[simp] theorem pure_eq (a : α) : (pure a : Method E R σ ε α) = ret a := rfl

@[simp] theorem bind_eq (m : Method E R σ ε α) (f : α → Method E R σ ε β) :
    m >>= f = m.bind f := rfl

/-- `try m except e: handler e`. -/
def tryCatch (m : Method E R σ ε α) (handler : ε → Method E R σ ε α) : Method E R σ ε α :=
  fun s => (m s).bind (fun r => match r with
    | (.ok a, s') => .ret (.ok a, s')
    | (.error e, s') => handler e s')

/-- Run `m` and hand its outcome, returned or raised, to `f`. -/
def outcome (m : Method E R σ ε α) (f : Except ε α → Method E R σ ε β) : Method E R σ ε β :=
  fun s => (m s).bind (fun r => f r.1 r.2)

/-- The object's state. -/
def self : Method E R σ ε σ := fun s => .ret (.ok s, s)

/-- Assign to the object. -/
def assign (f : σ → σ) : Method E R σ ε Unit := fun s => .ret (.ok (), f s)

/-- Call a program that does not touch the object. -/
def call (p : Prog E R α) : Method E R σ ε α := fun s => p.bind (fun a => .ret (.ok a, s))

/-- Run `f` on every element, in order, until one raises. -/
def each (f : ι → Method E R σ ε Unit) : List ι → Method E R σ ε Unit
  | [] => ret ()
  | x :: xs => (f x).bind (fun _ => each f xs)

/-- The judgement of a method: `Q` on the outcome, the object and the world. -/
def Meets (S : Setting E R C W) (m : Method E R σ ε α) (s : σ) (w : W)
    (Q : Except ε α → σ → W → Prop) : Prop :=
  Prog.Sat S (fun r => Q r.1 r.2) (m s) w

theorem Meets.mono {m : Method E R σ ε α} {s : σ} {w : W} {Q Q' : Except ε α → σ → W → Prop}
    (h : Meets S m s w Q) (himp : ∀ r s w, Q r s w → Q' r s w) : Meets S m s w Q' :=
  Prog.Sat.mono h (fun r w => himp r.1 r.2 w)

theorem Meets.stable {m : Method E R σ ε α} {s : σ} {w w' : W} {Q : Except ε α → σ → W → Prop}
    (h : Meets S m s w Q) (hr : S.rely w w') : Meets S m s w' Q :=
  Prog.Sat.stable h hr

theorem meets_ret {a : α} {s : σ} {w : W} {Q : Except ε α → σ → W → Prop}
    (h : ∀ w', S.rely w w' → Q (.ok a) s w') : Meets S (ret a) s w Q := h

theorem meets_raise {e : ε} {s : σ} {w : W} {Q : Except ε α → σ → W → Prop}
    (h : ∀ w', S.rely w w' → Q (.error e) s w') : Meets S (raise e) s w Q := h

theorem meets_bind {m : Method E R σ ε α} {f : α → Method E R σ ε β} {s : σ} {w : W}
    {M : Except ε α → σ → W → Prop} {Q : Except ε β → σ → W → Prop}
    (h : Meets S m s w M)
    (hok : ∀ a s w, M (.ok a) s w → Meets S (f a) s w Q)
    (herr : ∀ e s w, M (.error e) s w → Meets S (raise e) s w Q) :
    Meets S (m.bind f) s w Q := by
  refine Prog.Sat.seq h ?_
  rintro ⟨r, s'⟩ v hv
  cases r with
  | ok a => exact hok a s' v hv
  | error e => exact herr e s' v hv

theorem meets_tryCatch {m : Method E R σ ε α} {handler : ε → Method E R σ ε α} {s : σ} {w : W}
    {M : Except ε α → σ → W → Prop} {Q : Except ε α → σ → W → Prop}
    (h : Meets S m s w M)
    (hok : ∀ a s w, M (.ok a) s w → Meets S (ret a) s w Q)
    (herr : ∀ e s w, M (.error e) s w → Meets S (handler e) s w Q) :
    Meets S (m.tryCatch handler) s w Q := by
  refine Prog.Sat.seq h ?_
  rintro ⟨r, s'⟩ v hv
  cases r with
  | ok a => exact hok a s' v hv
  | error e => exact herr e s' v hv

theorem meets_outcome {m : Method E R σ ε α} {f : Except ε α → Method E R σ ε β} {s : σ} {w : W}
    {M : Except ε α → σ → W → Prop} {Q : Except ε β → σ → W → Prop}
    (h : Meets S m s w M) (hf : ∀ r s w, M r s w → Meets S (f r) s w Q) :
    Meets S (m.outcome f) s w Q :=
  Prog.Sat.seq h (fun r v hv => hf r.1 r.2 v hv)

theorem meets_self {s : σ} {w : W} {Q : Except ε σ → σ → W → Prop}
    (h : ∀ w', S.rely w w' → Q (.ok s) s w') : Meets S self s w Q := h

theorem meets_assign {f : σ → σ} {s : σ} {w : W} {Q : Except ε Unit → σ → W → Prop}
    (h : ∀ w', S.rely w w' → Q (.ok ()) (f s) w') : Meets S (assign f) s w Q := h

theorem meets_call {p : Prog E R α} {s : σ} {w : W} {Q : Except ε α → σ → W → Prop}
    (h : Prog.Sat S (fun a w => ∀ w', S.rely w w' → Q (.ok a) s w') p w) :
    Meets S (call p) s w Q :=
  Prog.Sat.bind h

/-- Reading the object and continuing with its state. -/
theorem meets_self_bind {f : σ → Method E R σ ε β} {s : σ} {w : W}
    {Q : Except ε β → σ → W → Prop} (h : Meets S (f s) s w Q) : Meets S (self.bind f) s w Q := h

/-- Assigning to the object and continuing. -/
theorem meets_assign_bind {g : σ → σ} {f : Unit → Method E R σ ε β} {s : σ} {w : W}
    {Q : Except ε β → σ → W → Prop} (h : Meets S (f ()) (g s) w Q) :
    Meets S ((assign g).bind f) s w Q := h

/-- Calling a program and continuing with its result. -/
theorem meets_call_bind {p : Prog E R α} {f : α → Method E R σ ε β} {s : σ} {w : W}
    {M : α → W → Prop} {Q : Except ε β → σ → W → Prop} (h : Prog.Sat S M p w)
    (hf : ∀ a w, M a w → Meets S (f a) s w Q) : Meets S ((call p).bind f) s w Q := by
  refine Prog.Sat.bind (Prog.Sat.seq h ?_)
  intro a v hv u hu
  exact (hf a v hv).stable hu

/-- The loop rule: `I` holds of the elements done so far; a raise leaves `J`. The body is
judged for the elements of the list only. -/
theorem meets_each {f : ι → Method E R σ ε Unit} {I : List ι → σ → W → Prop}
    {J : ε → σ → W → Prop}
    (hstable : ∀ done s w w', I done s w → S.rely w w' → I done s w')
    (hraise : ∀ e s w w', J e s w → S.rely w w' → J e s w') (xs : List ι)
    (hbody : ∀ done, ∀ x ∈ xs, ∀ s w, I done s w → Meets S (f x) s w (fun r s w => match r with
      | .ok _ => I (done ++ [x]) s w
      | .error e => J e s w)) :
    ∀ (s : σ) (w : W), I [] s w →
      Meets S (each f xs) s w (fun r s w => match r with
        | .ok _ => I xs s w
        | .error e => J e s w) := by
  suffices hgen : ∀ (rest done : List ι), (∀ x ∈ rest, x ∈ xs) → ∀ (s : σ) (w : W), I done s w →
      Meets S (each f rest) s w (fun r s w => match r with
        | .ok _ => I (done ++ rest) s w
        | .error e => J e s w) from
    fun s w hI => hgen xs [] (fun _ hx => hx) s w hI
  intro rest
  induction rest with
  | nil =>
      intro done _ s w hI
      exact meets_ret (fun w' hw => by simpa using hstable _ _ _ _ hI hw)
  | cons x rest ih =>
      intro done hmem s w hI
      refine meets_bind (hbody done x (hmem x (by simp)) s w hI) ?_ ?_
      · intro _ s' v hv
        simpa using ih (done ++ [x]) (fun y hy => hmem y (by simp [hy])) s' v hv
      · intro e s' v hv
        exact meets_raise (fun w' hw => hraise _ _ _ _ hv hw)

/-! ### Methods that keep an assertion -/

/-- Whatever the outcome, `I` holds of the object and the world afterwards. -/
def Keeps (S : Setting E R C W) (I : σ → W → Prop) (m : Method E R σ ε α) : Prop :=
  ∀ s w, I s w → Meets S m s w (fun _ s' w' => I s' w')

section Keeps

variable {I : σ → W → Prop}

theorem keeps_ret (hI : ∀ s w w', I s w → S.rely w w' → I s w') (a : α) :
    Keeps S I (ret a : Method E R σ ε α) :=
  fun s w h => meets_ret (fun w' hw => hI s w w' h hw)

theorem keeps_raise (hI : ∀ s w w', I s w → S.rely w w' → I s w') (e : ε) :
    Keeps S I (raise e : Method E R σ ε α) :=
  fun s w h => meets_raise (fun w' hw => hI s w w' h hw)

theorem keeps_self (hI : ∀ s w w', I s w → S.rely w w' → I s w') :
    Keeps S I (self : Method E R σ ε σ) :=
  fun s w h => meets_self (fun w' hw => hI s w w' h hw)

theorem keeps_assign (hI : ∀ s w w', I s w → S.rely w w' → I s w') {f : σ → σ}
    (hf : ∀ s w, I s w → I (f s) w) : Keeps S I (assign f : Method E R σ ε Unit) :=
  fun s w h => meets_assign (fun w' hw => hf _ _ (hI s w w' h hw))

theorem Keeps.bind (hI : ∀ s w w', I s w → S.rely w w' → I s w') {m : Method E R σ ε α}
    {f : α → Method E R σ ε β} (hm : Keeps S I m) (hf : ∀ a, Keeps S I (f a)) :
    Keeps S I (m.bind f) :=
  fun s w h => meets_bind (hm s w h) (fun a s w h => hf a s w h)
    (fun e s w h => keeps_raise hI e s w h)

theorem Keeps.tryCatch (hI : ∀ s w w', I s w → S.rely w w' → I s w') {m : Method E R σ ε α}
    {handler : ε → Method E R σ ε α} (hm : Keeps S I m) (hh : ∀ e, Keeps S I (handler e)) :
    Keeps S I (m.tryCatch handler) :=
  fun s w h => meets_tryCatch (hm s w h) (fun a s w h => keeps_ret hI a s w h)
    (fun e s w h => hh e s w h)

theorem Keeps.outcome {m : Method E R σ ε α} {f : Except ε α → Method E R σ ε β}
    (hm : Keeps S I m) (hf : ∀ r, Keeps S I (f r)) : Keeps S I (m.outcome f) :=
  fun s w h => meets_outcome (hm s w h) (fun r s w h => hf r s w h)

theorem Keeps.each (hI : ∀ s w w', I s w → S.rely w w' → I s w') {f : ι → Method E R σ ε Unit}
    (hf : ∀ x, Keeps S I (f x)) (xs : List ι) : Keeps S I (each f xs) := by
  induction xs with
  | nil => exact keeps_ret hI ()
  | cons x xs ih => exact (hf x).bind hI (fun _ => ih)

theorem keeps_call {p : Prog E R α}
    (h : ∀ s w, I s w → Prog.Sat S (fun _ w' => ∀ w'', S.rely w' w'' → I s w'') p w) :
    Keeps S I (call p : Method E R σ ε α) :=
  fun s w hs => meets_call (h s w hs)

end Keeps

/-! ### Methods that raise some exceptions only -/

/-- `I` is kept, and whatever is raised satisfies `Err`. -/
def Ends (S : Setting E R C W) (I : σ → W → Prop) (Err : ε → Prop) (m : Method E R σ ε α) : Prop :=
  ∀ s w, I s w → Meets S m s w (fun r s' w' => I s' w' ∧ ∀ e, r = .error e → Err e)

section Ends

variable {I : σ → W → Prop} {Err : ε → Prop}

theorem ends_ret (hI : ∀ s w w', I s w → S.rely w w' → I s w') (a : α) :
    Ends S I Err (ret a : Method E R σ ε α) :=
  fun s w h => meets_ret (fun w' hw => ⟨hI s w w' h hw, fun _ he => by cases he⟩)

theorem ends_raise (hI : ∀ s w w', I s w → S.rely w w' → I s w') {e : ε} (he : Err e) :
    Ends S I Err (raise e : Method E R σ ε α) :=
  fun s w h => meets_raise (fun w' hw => ⟨hI s w w' h hw, fun e' he' => by cases he'; exact he⟩)

theorem ends_assign (hI : ∀ s w w', I s w → S.rely w w' → I s w') {f : σ → σ}
    (hf : ∀ s w, I s w → I (f s) w) : Ends S I Err (assign f : Method E R σ ε Unit) :=
  fun s w h => meets_assign (fun w' hw =>
    ⟨hf _ _ (hI s w w' h hw), fun _ he => by cases he⟩)

theorem Ends.bind (hI : ∀ s w w', I s w → S.rely w w' → I s w') {m : Method E R σ ε α}
    {f : α → Method E R σ ε β} (hm : Ends S I Err m) (hf : ∀ a, Ends S I Err (f a)) :
    Ends S I Err (m.bind f) :=
  fun s w h => meets_bind (hm s w h) (fun a s w h => hf a s w h.1)
    (fun e s w h => ends_raise hI (h.2 e rfl) s w h.1)

/-- Reading the object and continuing with its state. -/
theorem ends_self_bind {f : σ → Method E R σ ε β} (hf : ∀ t s w, I s w → s = t →
    Meets S (f t) s w (fun r s' w' => I s' w' ∧ ∀ e, r = .error e → Err e)) :
    Ends S I Err (self.bind f) :=
  fun s w h => meets_self_bind (hf s s w h rfl)

theorem Ends.each (hI : ∀ s w w', I s w → S.rely w w' → I s w') {f : ι → Method E R σ ε Unit}
    {xs : List ι} (hf : ∀ x ∈ xs, Ends S I Err (f x)) : Ends S I Err (each f xs) := by
  induction xs with
  | nil => exact ends_ret hI ()
  | cons x xs ih =>
      exact (hf x (by simp)).bind hI (fun _ => ih (fun y hy => hf y (by simp [hy])))

theorem ends_call {p : Prog E R α}
    (h : ∀ s w, I s w → Prog.Sat S (fun _ w' => ∀ w'', S.rely w' w'' → I s w'') p w) :
    Ends S I Err (call p : Method E R σ ε α) :=
  fun s w hs => meets_call ((h s w hs).mono (fun _ _ hv u hu =>
    ⟨hv u hu, fun _ he => by cases he⟩))

end Ends

end Method

end ProxyGateway
