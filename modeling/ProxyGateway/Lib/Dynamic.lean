import Mathlib.Data.List.Forall2
import Mathlib.Data.List.Sort
import ProxyGateway.Lib.Json

set_option autoImplicit false

/-!
# ProxyGateway.Lib.Dynamic

Operators of a dynamically typed language on documents: an operand of the wrong type
raises a fault, which is kept apart from the exceptions a program raises itself.
-/

namespace ProxyGateway

/-- The interpreter's own exceptions. -/
inductive Fault where
  | type | key | attribute | value | recursion
  deriving DecidableEq, Repr

/-- What a call raises: a fault, or one of the program's exceptions. -/
inductive Raised (ε : Type) where
  | fault (f : Fault)
  | error (e : ε)
  deriving DecidableEq, Repr

/-- A call that may raise. -/
abbrev Py (ε : Type) := Except (Raised ε)

/-- Each element of the first list has its counterpart in the second. -/
theorem exists_of_forall₂ {α β : Type} {R : α → β → Prop} {xs : List α} {ys : List β}
    (h : List.Forall₂ R xs ys) {x : α} (hx : x ∈ xs) : ∃ y ∈ ys, R x y := by
  induction h with
  | nil => simp at hx
  | @cons a b xs ys hab _ ih =>
      rcases List.mem_cons.mp hx with rfl | hx
      · exact ⟨b, List.mem_cons_self, hab⟩
      · obtain ⟨y, hy, hR⟩ := ih hx
        exact ⟨y, List.mem_cons_of_mem _ hy, hR⟩

/-- Two lists that are related to a list between them. -/
theorem forall₂_comp {α β γ : Type} {R : α → β → Prop} {T : β → γ → Prop} {xs : List α} {ys : List β}
    {zs : List γ} (h : List.Forall₂ R xs ys) (h' : List.Forall₂ T ys zs) :
    List.Forall₂ (Relation.Comp R T) xs zs := by
  induction h generalizing zs with
  | nil =>
      cases h'
      exact .nil
  | cons hxy _ ih =>
      cases h' with
      | cons hyz hrest => exact .cons ⟨_, hxy, hyz⟩ (ih hrest)

section Pairs

variable {α β : Type} {R : α → β → Prop} {xs : List α} {ys : List β}

/-- Pairs that are dropped together. -/
theorem forall₂_filter {p : α → Bool} {q : β → Bool} (h : List.Forall₂ R xs ys)
    (hpq : ∀ x ∈ xs, ∀ y, R x y → p x = q y) : List.Forall₂ R (xs.filter p) (ys.filter q) := by
  induction h with
  | nil => exact .nil
  | @cons x y xs ys hxy _ ih =>
      obtain ⟨hfirst, hrest⟩ := List.forall_mem_cons.mp hpq
      rw [List.filter_cons, List.filter_cons, hfirst y hxy]
      split
      · exact .cons hxy (ih hrest)
      · exact ih hrest

/-- The elements of a pair are in the lists. -/
theorem forall₂_mem (h : List.Forall₂ R xs ys) :
    List.Forall₂ (fun x y => x ∈ xs ∧ y ∈ ys ∧ R x y) xs ys := by
  induction h with
  | nil => exact .nil
  | cons hxy _ ih =>
      refine .cons ⟨by simp, by simp, hxy⟩ (ih.imp fun a b hab => ?_)
      exact ⟨List.mem_cons_of_mem _ hab.1, List.mem_cons_of_mem _ hab.2.1, hab.2.2⟩

/-- A pointwise relation that an input decides holds of a run exactly if all inputs are such. -/
theorem forall₂_iff_of {Q : α → β → Prop} {P : α → Prop} (h : List.Forall₂ R xs ys) (hi : ∀ x y, R x y → (Q x y ↔ P x)) :
    List.Forall₂ Q xs ys ↔ ∀ x ∈ xs, P x := by
  induction h with
  | nil => simp
  | cons hr _ ih => rw [List.forall₂_cons, List.forall_mem_cons, hi _ _ hr, ih]

end Pairs

/-- `sorted(set(xs))`. -/
def sortedSet (xs : List Nat) : List Nat := xs.dedup.insertionSort (· ≤ ·)

theorem sortedSet_nodup (xs : List Nat) : (sortedSet xs).Nodup :=
  (List.perm_insertionSort _ _).nodup_iff.mpr xs.nodup_dedup

@[simp] theorem mem_sortedSet {xs : List Nat} {n : Nat} : n ∈ sortedSet xs ↔ n ∈ xs := by
  simp [sortedSet]

theorem sortedSet_sorted (xs : List Nat) : (sortedSet xs).Pairwise (· ≤ ·) :=
  List.pairwise_insertionSort _ _

/-- What is sorted and without duplicates stays as it is. -/
theorem sortedSet_eq_self {xs : List Nat} (hnodup : xs.Nodup) (hsorted : xs.Pairwise (· ≤ ·)) : sortedSet xs = xs := by
  rw [sortedSet, hnodup.dedup]
  exact hsorted.insertionSort_eq

theorem sortedSet_sortedSet (xs : List Nat) : sortedSet (sortedSet xs) = sortedSet xs :=
  sortedSet_eq_self (sortedSet_nodup xs) (sortedSet_sorted xs)

/-- The elements decide. -/
theorem sortedSet_congr {xs ys : List Nat} (h : ∀ n, n ∈ xs ↔ n ∈ ys) : sortedSet xs = sortedSet ys := by
  have hperm : (sortedSet xs).Perm (sortedSet ys) :=
    (List.perm_ext_iff_of_nodup (sortedSet_nodup xs) (sortedSet_nodup ys)).mpr fun n => by
      rw [mem_sortedSet, mem_sortedSet, h n]
  exact hperm.eq_of_pairwise' (sortedSet_sorted xs) (sortedSet_sorted ys)

namespace Py

variable {ε α β : Type}

/-- Raise an exception of the program. -/
def raise (e : ε) : Py ε α := .error (.error e)

/-- Raise a fault. -/
def fault (f : Fault) : Py ε α := .error (.fault f)

@[simp] theorem raise_ne_ok {e : ε} {a : α} : (raise e : Py ε α) = .ok a ↔ False := by
  simp [raise]

@[simp] theorem fault_ne_ok {f : Fault} {a : α} : (fault f : Py ε α) = .ok a ↔ False := by
  simp [fault]

@[simp] theorem pure_eq_ok {a b : α} : (pure a : Py ε α) = .ok b ↔ a = b := by
  simp [pure, Except.pure]

@[simp] theorem ok_bind {a : α} {f : α → Py ε β} : ((.ok a : Py ε α) >>= f) = f a := rfl

@[simp] theorem raise_bind {e : ε} {f : α → Py ε β} : (raise e >>= f) = raise e := rfl

@[simp] theorem fault_bind {e : Fault} {f : α → Py ε β} : (fault e >>= f) = fault e := rfl

@[simp] theorem raise_map {e : ε} {f : α → β} : f <$> (raise e : Py ε α) = raise e := rfl

@[simp] theorem fault_map {e : Fault} {f : α → β} : f <$> (fault e : Py ε α) = fault e := rfl

theorem bind_eq_ok {x : Py ε α} {f : α → Py ε β} {b : β} :
    (x >>= f) = .ok b ↔ ∃ a, x = .ok a ∧ f a = .ok b := by
  cases x with
  | error e => simp [bind, Except.bind]
  | ok a => simp [bind, Except.bind]

theorem unit_bind_eq_ok {x : Py ε Unit} {f : Unit → Py ε β} {b : β} :
    (x >>= f) = .ok b ↔ x = .ok () ∧ f () = .ok b := by
  rw [bind_eq_ok]
  exact ⟨fun ⟨_, hx, hf⟩ => ⟨hx, hf⟩, fun ⟨hx, hf⟩ => ⟨(), hx, hf⟩⟩

theorem map_eq_ok {x : Py ε α} {f : α → β} {b : β} :
    (f <$> x) = .ok b ↔ ∃ a, x = .ok a ∧ f a = b := by
  cases x with
  | error e => simp [Functor.map, Except.map]
  | ok a => simp [Functor.map, Except.map]

/-- A loop that rebuilds a list pairs each element with what its turn returned. -/
theorem mapM_forall₂ {f : α → Py ε β} {xs : List α} {ys : List β} (h : xs.mapM f = .ok ys) :
    List.Forall₂ (fun x y => f x = .ok y) xs ys := by
  induction xs generalizing ys with
  | nil =>
      rw [← pure_eq_ok.mp h]
      exact .nil
  | cons x xs ih =>
      rw [List.mapM_cons, bind_eq_ok] at h
      obtain ⟨y, hy, h⟩ := h
      obtain ⟨zs, hzs, h⟩ := bind_eq_ok.mp h
      rw [← pure_eq_ok.mp h]
      exact .cons hy (ih hzs)

theorem mapM_of_forall₂ {f : α → Py ε β} {xs : List α} {ys : List β}
    (h : List.Forall₂ (fun x y => f x = .ok y) xs ys) : xs.mapM f = .ok ys := by
  induction h with
  | nil => rfl
  | cons hx _ ih => simp [List.mapM_cons, hx, ih]

/-- A loop over rewritten elements, each turn of which returns the rewritten value. -/
theorem mapM_map_eq {γ δ : Type} {f : α → β} {g : α → Py ε γ} {g' : β → Py ε δ} {h : γ → δ} {xs : List α}
    (hturn : ∀ x ∈ xs, g' (f x) = h <$> g x) : (xs.map f).mapM g' = List.map h <$> xs.mapM g := by
  induction xs with
  | nil => rfl
  | cons x xs ih =>
      have htail := ih fun y hy => hturn y (List.mem_cons_of_mem x hy)
      rw [List.map_cons, List.mapM_cons, List.mapM_cons, htail, hturn x (by simp)]
      cases g x with
      | error e => rfl
      | ok y =>
          cases List.mapM g xs with
          | error e => rfl
          | ok ys => rfl

/-- A loop that only checks. -/
theorem forM_eq_ok {f : α → Py ε Unit} {xs : List α} :
    xs.forM f = .ok () ↔ ∀ x ∈ xs, f x = .ok () := by
  induction xs with
  | nil => simp [List.forM]
  | cons x xs ih =>
      show (f x >>= fun _ => xs.forM f) = .ok () ↔ _
      rw [unit_bind_eq_ok, ih]
      simp

/-- Two loops that rebuild a list the same way where they succeed. -/
theorem mapM_eq_ok_congr {f g : α → Py ε β} {xs : List α} {ys : List β}
    (h : ∀ x ∈ xs, ∀ y, f x = .ok y ↔ g x = .ok y) : xs.mapM f = .ok ys ↔ xs.mapM g = .ok ys := by
  induction xs generalizing ys with
  | nil => simp
  | cons x xs ih =>
      have hx : ∀ y, f x = .ok y ↔ g x = .ok y := h x (by simp)
      have hxs : ∀ zs, xs.mapM f = .ok zs ↔ xs.mapM g = .ok zs :=
        fun zs => ih fun a ha => h a (List.mem_cons_of_mem x ha)
      simp only [List.mapM_cons, bind_eq_ok, hx, hxs]

theorem filterAuxM_eq_ok {f : α → Py ε Bool} {p : α → Bool} {xs acc : List α}
    (h : ∀ x ∈ xs, f x = .ok (p x)) :
    xs.filterAuxM f acc = .ok ((xs.filter p).reverse ++ acc) := by
  induction xs generalizing acc with
  | nil => rfl
  | cons x xs ih =>
      have htail : ∀ acc, xs.filterAuxM f acc = .ok ((xs.filter p).reverse ++ acc) :=
        fun _ => ih fun a ha => h a (List.mem_cons_of_mem x ha)
      rw [List.filterAuxM, h x (by simp), ok_bind, htail]
      cases hp : p x <;> simp [hp]

/-- A filter whose test raises on no element. -/
theorem filterM_eq_ok {f : α → Py ε Bool} {p : α → Bool} {xs : List α}
    (h : ∀ x ∈ xs, f x = .ok (p x)) : xs.filterM f = .ok (xs.filter p) := by
  rw [List.filterM, filterAuxM_eq_ok h, ok_bind, pure_eq_ok]
  simp

end Py

/-- `if bad: raise e`. -/
def raiseIf {ε : Type} (bad : Bool) (e : ε) : Py ε Unit := if bad then Py.raise e else .ok ()

section

variable {ε α : Type} {bad : Bool} {e : ε}

@[simp] theorem raiseIf_eq_ok {u : Unit} : raiseIf bad e = .ok u ↔ bad = false := by
  cases bad <;> simp [raiseIf]

@[simp] theorem raiseIf_bind_eq_ok {f : Unit → Py ε α} {a : α} :
    (raiseIf bad e >>= f) = .ok a ↔ bad = false ∧ f () = .ok a := by
  cases bad with
  | true => simp [raiseIf]
  | false => simp [raiseIf, bind, Except.bind]

@[simp] theorem raiseIf_map_eq_ok {f : Unit → α} {a : α} :
    (f <$> (raiseIf bad e : Py ε Unit)) = .ok a ↔ bad = false ∧ f () = a := by
  cases bad <;> simp [raiseIf, Functor.map, Except.map, Py.raise]

/-- A check raises no other exception than its own. -/
theorem raiseIf_ne {e' : ε} (h : e ≠ e') : raiseIf bad e ≠ .error (.error e') := by
  cases bad with
  | true => exact fun heq => h (Raised.error.inj (Except.error.inj heq))
  | false => exact nofun

theorem raiseIf_bind_ne {f : Unit → Py ε α} {e' : ε} (h : e ≠ e') (hf : f () ≠ .error (.error e')) :
    (raiseIf bad e >>= f) ≠ .error (.error e') := by
  cases bad with
  | true => exact fun heq => h (Raised.error.inj (Except.error.inj heq))
  | false => exact hf

end

namespace Json

variable {ε : Type}

/-- The texts of the characters of `s`. -/
def chars (s : String) : List Json := s.toList.map (fun c => .str (String.singleton c))

/-- What a loop over a document visits; nothing where the loop would raise. -/
def entries : Json → List Json
  | .arr xs => xs
  | .str s => chars s
  | .obj kvs => kvs.map (fun p => .str p.1)
  | _ => []

/-- `for x in value`. -/
def items (j : Json) : Py ε (List Json) :=
  match j with
  | .arr _ | .str _ | .obj _ => .ok j.entries
  | _ => .error (.fault .type)

/-- `text in value`: membership in a list, a piece of a text, a key of an object. -/
def has (text : String) : Json → Py ε Bool
  | .arr xs => .ok (decide (.str text ∈ xs))
  | .str s => .ok (decide (text.toList <:+: s.toList))
  | .obj kvs => .ok (decide (text ∈ kvs.map Prod.fst))
  | _ => .error (.fault .type)

/-- `value.append(text)`. -/
def append (text : String) : Json → Py ε Json
  | .arr xs => .ok (.arr (xs ++ [.str text]))
  | _ => .error (.fault .attribute)

/-- Can the value be an element of a set? -/
def hashable : Json → Bool
  | .arr _ | .obj _ => false
  | _ => true

/-- `value in names` for a set of texts. -/
def within (names : List String) (j : Json) : Py ε Bool :=
  match j with
  | .arr _ | .obj _ => .error (.fault .type)
  | .str s => .ok (decide (s ∈ names))
  | _ => .ok false

/-- The number a value counts as for `==`: `True` is `1`. -/
def number? : Json → Option Rat
  | .bool b => some (if b then 1 else 0)
  | .int n => some n
  | .float (.finite q) => some q
  | _ => none

/-- `value == n` for an integer. -/
def isNumber (n : Int) (j : Json) : Bool := decide (j.number? = some (n : Rat))

mutual

/-- `a == b` for two elements of containers, where an object is equal to itself. -/
def same : Json → Json → Bool
  | .null, .null => true
  | .str s, .str t => decide (s = t)
  | .arr xs, .arr ys => sameList xs ys
  | .obj a, .obj b => decide (a.length = b.length) && sameFields a b
  | .float v, .float w => decide (v = w)
  | .bool a, b => decide (some (if a then 1 else 0) = b.number?)
  | .int n, b => decide (some (n : Rat) = b.number?)
  | .float (.finite q), b => decide (some q = b.number?)
  | _, _ => false

/-- `same` for lists. -/
def sameList : List Json → List Json → Bool
  | [], [] => true
  | x :: xs, y :: ys => same x y && sameList xs ys
  | _, _ => false

/-- Every field is there with the same value. -/
def sameFields : List (String × Json) → List (String × Json) → Bool
  | [], _ => true
  | (k, x) :: a, b =>
      (match Dict.get? b k with
        | some y => same x y
        | none => false) && sameFields a b

end

/-- `a == b`: a `NaN` differs from itself. -/
def equal (a b : Json) : Bool := decide (a ≠ .float .nan) && same a b

@[simp] theorem items_arr {xs : List Json} : (Json.arr xs).items (ε := ε) = .ok xs := rfl

theorem truthy_of_entries {j : Json} (h : j.entries ≠ []) : j.truthy = true := by
  cases j with
  | arr xs => cases xs <;> simp_all [entries, truthy]
  | obj kvs => cases kvs <;> simp_all [entries, truthy]
  | str s =>
      simp only [truthy, bne_iff_ne]
      intro hs
      exact h (by simp [entries, chars, hs])
  | _ => simp [entries] at h

theorem items_eq_ok {j : Json} {xs : List Json} (h : j.items (ε := ε) = .ok xs) :
    xs = j.entries := by
  cases j <;> simp [items] at h <;> exact h.symm

end Json

end ProxyGateway
