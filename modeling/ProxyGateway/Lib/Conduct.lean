import ProxyGateway.Lib.Method

set_option autoImplicit false

/-!
# ProxyGateway.Lib.Conduct

What a method does **at most**: which operations it performs, by the object it works on, and how it may
change that object. Both are read off the method text alone, whatever the world answers, by one rule for
each way to build a method. `Obeys.meets` turns them into a judgement: an assertion that each of these
operations keeps is kept by the method.
-/

namespace ProxyGateway

/-- A bound on methods: operations, and changes of the object that leave no new operation to it. -/
structure Conduct (E σ : Type) where
  ops : σ → E → Prop
  moves : σ → σ → Prop
  refl : ∀ s, moves s s
  trans : ∀ {s t u}, moves s t → moves t u → moves s u
  mono : ∀ {s t e}, moves s t → ops t e → ops s e

namespace Prog

variable {E : Type} {R : E → Type} {C W α : Type} {S : Setting E R C W}

/-- What is returned is what the program yields. -/
theorem Sat.yields {post : α → W → Prop} {p : Prog E R α} {w : W} (h : Sat S post p w) :
    Sat S (fun a w => Yields p a ∧ post a w) p w := by
  induction p generalizing w with
  | ret a => exact fun w' hw' => ⟨.ret a, h w' hw'⟩
  | op e k ih =>
      intro w' hw' c hc
      obtain ⟨hpermit, hrest⟩ := h w' hw' c hc
      exact ⟨hpermit, (ih _ hrest).mono fun a v hv => ⟨.op _ hv.1, hv.2⟩⟩

/-- What follows is only asked for what the first part may return. -/
theorem Only.bind_of {β : Type} {P : E → Prop} {p : Prog E R α} {f : α → Prog E R β} (h : Only P p)
    (hf : ∀ a, Yields p a → Only P (f a)) : Only P (p.bind f) := by
  induction p with
  | ret a => exact hf a (.ret a)
  | op e k ih => exact ⟨h.1, fun r => ih r (h.2 r) fun a ha => hf a (.op r ha)⟩

end Prog

namespace Method

variable {E : Type} {R : E → Type} {C W σ ε α β ι : Type} {S : Setting E R C W} {K : Conduct E σ} {s : σ}

/-- The method keeps within the bound, on this object. -/
structure Obeys (K : Conduct E σ) (m : Method E R σ ε α) (s : σ) : Prop where
  only : (m s).Only (K.ops s)
  moves : ∀ r, (m s).Yields r → K.moves s r.2

theorem obeys_ret (a : α) : Obeys K (ret a : Method E R σ ε α) s where
  only := trivial
  moves := fun r hr => by
    obtain rfl := Prog.yields_ret_iff.mp hr
    exact K.refl s

theorem obeys_raise (e : ε) : Obeys K (raise e : Method E R σ ε α) s where
  only := trivial
  moves := fun r hr => by
    obtain rfl := Prog.yields_ret_iff.mp hr
    exact K.refl s

theorem obeys_assign {f : σ → σ} (h : K.moves s (f s)) : Obeys K (assign f : Method E R σ ε Unit) s where
  only := trivial
  moves := fun r hr => by
    obtain rfl := Prog.yields_ret_iff.mp hr
    exact h

theorem obeys_call {p : Prog E R α} (h : p.Only (K.ops s)) : Obeys K (call p : Method E R σ ε α) s where
  only := h.bind fun _ => trivial
  moves := fun r hr => by
    obtain ⟨a, -, ha⟩ := Prog.yields_bind_iff.mp hr
    obtain rfl := Prog.yields_ret_iff.mp ha
    exact K.refl s

/-- What follows works on an object the first part may have changed. -/
theorem Obeys.seq {m : Method E R σ ε α} {f : Except ε α × σ → Prog E R (Except ε β × σ)} (hm : Obeys K m s)
    (hf : ∀ r, K.moves s r.2 → (f r).Only (K.ops r.2) ∧ ∀ r', (f r).Yields r' → K.moves r.2 r'.2) :
    ((m s).bind f).Only (K.ops s) ∧ ∀ r', ((m s).bind f).Yields r' → K.moves s r'.2 := by
  refine ⟨Prog.Only.bind_of hm.only fun r hr => ?_, fun r' hr' => ?_⟩
  · have hmoves := hm.moves r hr
    exact (hf r hmoves).1.mono fun e he => K.mono hmoves he
  · obtain ⟨r, hr, hrest⟩ := Prog.yields_bind_iff.mp hr'
    have hmoves := hm.moves r hr
    exact K.trans hmoves ((hf r hmoves).2 r' hrest)

theorem obeys_iff {m : Method E R σ ε α} :
    Obeys K m s ↔ (m s).Only (K.ops s) ∧ ∀ r, (m s).Yields r → K.moves s r.2 :=
  ⟨fun h => ⟨h.only, h.moves⟩, fun h => ⟨h.1, h.2⟩⟩

theorem Obeys.bind {m : Method E R σ ε α} {f : α → Method E R σ ε β} (hm : Obeys K m s)
    (hf : ∀ a s', K.moves s s' → Obeys K (f a) s') : Obeys K (m.bind f) s := by
  refine obeys_iff.mpr (hm.seq fun r hr => ?_)
  obtain ⟨r, s'⟩ := r
  cases r with
  | ok a => exact obeys_iff.mp (hf a s' hr)
  | error e => exact obeys_iff.mp (obeys_raise e : Obeys K (raise e : Method E R σ ε β) s')

theorem Obeys.tryCatch {m : Method E R σ ε α} {handler : ε → Method E R σ ε α} (hm : Obeys K m s)
    (hh : ∀ e s', K.moves s s' → Obeys K (handler e) s') : Obeys K (m.tryCatch handler) s := by
  refine obeys_iff.mpr (hm.seq fun r hr => ?_)
  obtain ⟨r, s'⟩ := r
  cases r with
  | ok a => exact obeys_iff.mp (obeys_ret a : Obeys K (ret a : Method E R σ ε α) s')
  | error e => exact obeys_iff.mp (hh e s' hr)

theorem Obeys.outcome {m : Method E R σ ε α} {f : Except ε α → Method E R σ ε β} (hm : Obeys K m s)
    (hf : ∀ r s', K.moves s s' → Obeys K (f r) s') : Obeys K (m.outcome f) s :=
  obeys_iff.mpr (hm.seq fun r hr => obeys_iff.mp (hf r.1 r.2 hr))

/-- Reading the object and continuing with its state. -/
theorem obeys_self_bind {f : σ → Method E R σ ε β} (h : Obeys K (f s) s) : Obeys K (self.bind f) s :=
  ⟨h.only, h.moves⟩

/-- Assigning to the object and continuing. -/
theorem obeys_assign_bind {g : σ → σ} {f : Unit → Method E R σ ε β} (hg : K.moves s (g s)) (h : Obeys K (f ()) (g s)) :
    Obeys K ((assign g).bind f) s where
  only := h.only.mono fun _ he => K.mono hg he
  moves := fun r hr => K.trans hg (h.moves r hr)

theorem Obeys.each {f : ι → Method E R σ ε Unit} {xs : List ι}
    (hf : ∀ x ∈ xs, ∀ s', K.moves s s' → Obeys K (f x) s') : Obeys K (each f xs) s := by
  induction xs generalizing s with
  | nil => exact obeys_ret ()
  | cons x xs ih =>
      refine (hf x List.mem_cons_self s (K.refl s)).bind fun _ s' hs' => ih fun y hy t ht => ?_
      exact hf y (List.mem_cons_of_mem _ hy) t (K.trans hs' ht)

/-- Both parts of a method that returned did return. -/
theorem yields_bind_ok {m : Method E R σ ε α} {f : α → Method E R σ ε β} {b : β} {u : σ}
    (h : (m.bind f s).Yields (.ok b, u)) : ∃ a t, (m s).Yields (.ok a, t) ∧ (f a t).Yields (.ok b, u) := by
  obtain ⟨r, hr, hrest⟩ := Prog.yields_bind_iff.mp h
  obtain ⟨r, t⟩ := r
  cases r with
  | ok a => exact ⟨a, t, hr, hrest⟩
  | error e => cases Prog.yields_ret_iff.mp hrest

/-- A method that obeys keeps what its operations keep. -/
theorem Obeys.meets {I : W → Prop} {m : Method E R σ ε α} {w : W} (h : Obeys K m s)
    (hstable : ∀ w w', I w → S.rely w w' → I w')
    (hstep : ∀ e, K.ops s e → ∀ w, I w → S.permit e w ∧ ∀ c, S.allow e c w → I (S.exec e c w).2)
    (hI : I w) : Meets S m s w (fun r s' w' => (m s).Yields (r, s') ∧ K.moves s s' ∧ I w') :=
  (h.only.sat_keeps hstable hstep hI).yields.mono fun r _ hw => ⟨hw.1, h.moves r hw.1, hw.2⟩

end Method

end ProxyGateway
