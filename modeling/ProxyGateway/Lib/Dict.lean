import Mathlib.Algebra.GroupWithZero.Nat
import Mathlib.Data.List.Infix
import Mathlib.Data.List.Sort
import Mathlib.Data.List.Dedup

set_option autoImplicit false

/-!
# ProxyGateway.Lib.Dict

Insertion-ordered dictionaries, as association lists: reading a key takes its
first entry, writing one keeps the entry's place or appends a new entry at the
end, and erasing one drops it. This is the container behind every record and
table of the gateway that is filled in some order and read back by key.

The library is generic in the key and the value. Three groups of facts are
developed: what `get?` reads after `set`, `erase` and `update`; how membership of
an entry relates to `get?` when keys are unique (`Dict.Uniq`); and that sorting
the entries by key (`Dict.sorted`) neither adds nor loses an entry.
-/

namespace ProxyGateway

/-- An insertion-ordered dictionary. -/
abbrev Dict (κ ν : Type) := List (κ × ν)

namespace Dict

variable {κ ν μ : Type}

/-- The keys, in insertion order. -/
def keys (d : Dict κ ν) : List κ := d.map Prod.fst

@[simp] theorem keys_nil : keys ([] : Dict κ ν) = [] := rfl

@[simp] theorem keys_cons (p : κ × ν) (d : Dict κ ν) : keys (p :: d) = p.1 :: keys d := rfl

/-- No key occurs twice. -/
def Uniq (d : Dict κ ν) : Prop := d.keys.Nodup

section Lookup

variable [DecidableEq κ]

/-- The value of a key: its first entry. -/
def get? : Dict κ ν → κ → Option ν
  | [], _ => none
  | (k, v) :: d, a => if k = a then some v else get? d a

/-- Write a key: in place when it is there, else appended. -/
def set : Dict κ ν → κ → ν → Dict κ ν
  | [], a, b => [(a, b)]
  | (k, v) :: d, a, b => if k = a then (k, b) :: d else (k, v) :: set d a b

/-- Drop a key. -/
def erase (d : Dict κ ν) (a : κ) : Dict κ ν := d.filter (fun p => p.1 ≠ a)

/-- Is the key there? -/
def contains (d : Dict κ ν) (a : κ) : Bool := (d.get? a).isSome

/-- Write every entry of `e` into `d`, in order. -/
def update (d e : Dict κ ν) : Dict κ ν := e.foldl (fun acc p => acc.set p.1 p.2) d

@[simp] theorem get?_nil (a : κ) : get? ([] : Dict κ ν) a = none := rfl

@[simp] theorem set_nil (a : κ) (b : ν) : set ([] : Dict κ ν) a b = [(a, b)] := rfl

theorem get?_cons (k a : κ) (v : ν) (d : Dict κ ν) :
    get? ((k, v) :: d) a = if k = a then some v else get? d a := rfl

@[simp] theorem get?_cons_self (k : κ) (v : ν) (d : Dict κ ν) :
    get? ((k, v) :: d) k = some v := by
  simp [get?_cons]

theorem get?_cons_ne {k a : κ} (h : k ≠ a) (v : ν) (d : Dict κ ν) :
    get? ((k, v) :: d) a = get? d a := by
  simp [get?_cons, h]

@[simp] theorem get?_set_self (d : Dict κ ν) (a : κ) (b : ν) : (d.set a b).get? a = some b := by
  induction d with
  | nil => simp
  | cons p d ih =>
      obtain ⟨k, v⟩ := p
      by_cases h : k = a
      · subst h
        simp [set]
      · simp [set, h, get?_cons, ih]

theorem get?_set_ne {a c : κ} (h : a ≠ c) (d : Dict κ ν) (b : ν) :
    (d.set a b).get? c = d.get? c := by
  induction d with
  | nil => simp [get?_cons, h]
  | cons p d ih =>
      obtain ⟨k, v⟩ := p
      by_cases hk : k = a
      · subst hk
        simp [set, get?_cons, h]
      · simp [set, hk, get?_cons, ih]

/-- Writing what is there already changes nothing. -/
theorem set_of_get? {d : Dict κ ν} {a : κ} {b : ν} (h : d.get? a = some b) : d.set a b = d := by
  induction d with
  | nil => simp at h
  | cons p d ih =>
      obtain ⟨k, v⟩ := p
      by_cases hk : k = a
      · simp_all [set]
      · simp only [get?_cons, hk, if_false] at h
        simp [set, hk, ih h]

/-- The second of two writes to a key stands. -/
theorem set_set (d : Dict κ ν) (a : κ) (b c : ν) : (d.set a b).set a c = d.set a c := by
  induction d with
  | nil => simp [set]
  | cons p d ih =>
      obtain ⟨k, v⟩ := p
      by_cases hk : k = a
      · simp [set, hk]
      · simp [set, hk, ih]

/-- Writing a key that is there commutes with writing another one. -/
theorem set_comm {d : Dict κ ν} {a c : κ} {v : ν} (hne : a ≠ c) (ha : d.get? a = some v) (b e : ν) :
    (d.set a b).set c e = (d.set c e).set a b := by
  induction d with
  | nil => simp at ha
  | cons p d ih =>
      obtain ⟨k, w⟩ := p
      by_cases hk : k = a
      · subst hk
        simp [set, hne]
      · rw [get?_cons_ne hk] at ha
        by_cases hc : k = c
        · subst hc
          simp [set, hk]
        · simp [set, hk, hc, ih ha]

/-- Writing a key that a selection of keys keeps. -/
theorem filter_set (p : κ → Bool) {a : κ} (ha : p a = true) (d : Dict κ ν) (b : ν) :
    (d.set a b).filter (fun e => p e.1) = set (d.filter (fun e => p e.1)) a b := by
  induction d with
  | nil => simp [ha]
  | cons e d ih =>
      obtain ⟨k, v⟩ := e
      by_cases hk : k = a
      · subst hk
        simp [set, ha]
      · cases hp : p k <;> simp [set, hk, hp, ih]

theorem get?_set (d : Dict κ ν) (a c : κ) (b : ν) :
    (d.set a b).get? c = if a = c then some b else d.get? c := by
  by_cases h : a = c
  · subst h
    simp
  · simp [h, get?_set_ne h]

@[simp] theorem get?_erase_self (d : Dict κ ν) (a : κ) : (d.erase a).get? a = none := by
  induction d with
  | nil => rfl
  | cons p d ih =>
      obtain ⟨k, v⟩ := p
      by_cases h : k = a
      · simpa [erase, h] using ih
      · simpa [erase, h, get?_cons] using ih

/-- Reading a key that a selection of keys keeps. -/
theorem get?_filter (p : κ → Bool) {a : κ} (ha : p a = true) (d : Dict κ ν) :
    get? (d.filter (fun e => p e.1)) a = d.get? a := by
  induction d with
  | nil => rfl
  | cons e d ih =>
      obtain ⟨k, v⟩ := e
      by_cases hk : k = a
      · subst hk
        simp [ha]
      · cases hp : p k <;> simpa [hp, get?_cons_ne hk] using ih

theorem get?_erase_ne {a c : κ} (h : a ≠ c) (d : Dict κ ν) : (d.erase a).get? c = d.get? c :=
  get?_filter (fun k => k ≠ a) (by simpa using Ne.symm h) d

/-- Reading where the values were changed. -/
theorem get?_map (f : κ → ν → μ) (d : Dict κ ν) (a : κ) :
    get? (d.map (fun e => (e.1, f e.1 e.2))) a = (d.get? a).map (f a) := by
  induction d with
  | nil => rfl
  | cons e d ih =>
      obtain ⟨k, v⟩ := e
      by_cases hk : k = a
      · subst hk
        simp
      · rw [List.map_cons, get?_cons_ne hk, get?_cons_ne hk, ih]

theorem get?_append (d e : Dict κ ν) (a : κ) : get? (d ++ e) a = (d.get? a).or (e.get? a) := by
  induction d with
  | nil => rfl
  | cons p d ih =>
      obtain ⟨k, v⟩ := p
      rw [List.cons_append, get?_cons, get?_cons, ih]
      split <;> rfl

theorem mem_of_get? {d : Dict κ ν} {a : κ} {b : ν} (h : d.get? a = some b) : (a, b) ∈ d := by
  induction d with
  | nil => simp at h
  | cons p d ih =>
      obtain ⟨k, v⟩ := p
      by_cases hk : k = a
      · subst hk
        simp only [get?_cons_self, Option.some.injEq] at h
        simp [h]
      · rw [get?_cons_ne hk] at h
        exact List.mem_cons_of_mem _ (ih h)

/-- With unique keys an entry of the list is what `get?` reads. -/
theorem Uniq.get?_of_mem {d : Dict κ ν} (hd : d.Uniq) {a : κ} {b : ν} (h : (a, b) ∈ d) :
    d.get? a = some b := by
  induction d with
  | nil => simp at h
  | cons p d ih =>
      obtain ⟨k, v⟩ := p
      simp only [Uniq, keys_cons, List.nodup_cons] at hd
      rcases List.mem_cons.mp h with he | he
      · cases he
        simp
      · have hk : k ≠ a := by
          rintro rfl
          exact hd.1 (List.mem_map.mpr ⟨_, he, rfl⟩)
        rw [get?_cons_ne hk]
        exact ih hd.2 he

theorem get?_isSome_iff {d : Dict κ ν} {a : κ} : (d.get? a).isSome ↔ a ∈ d.keys := by
  induction d with
  | nil => simp
  | cons p d ih =>
      obtain ⟨k, v⟩ := p
      by_cases hk : k = a
      · subst hk
        simp
      · simp [get?_cons_ne hk, ih, Ne.symm hk]

theorem mem_keys_of_get? {d : Dict κ ν} {a : κ} {b : ν} (h : d.get? a = some b) : a ∈ d.keys :=
  get?_isSome_iff.mp (by simp [h])

theorem get?_eq_none_iff {d : Dict κ ν} {a : κ} : d.get? a = none ↔ a ∉ d.keys := by
  rw [← get?_isSome_iff, Option.not_isSome_iff_eq_none]

theorem keys_set (d : Dict κ ν) (a : κ) (b : ν) :
    (d.set a b).keys = if a ∈ d.keys then d.keys else d.keys ++ [a] := by
  induction d with
  | nil => simp
  | cons p d ih =>
      obtain ⟨k, v⟩ := p
      by_cases hk : k = a
      · subst hk
        simp [set]
      · have hk' : a ≠ k := Ne.symm hk
        simp only [set, hk, if_false, keys_cons, ih, List.mem_cons, hk', false_or]
        split <;> simp

/-- A new key goes to the end. -/
theorem set_of_not_mem {d : Dict κ ν} {a : κ} {b : ν} (h : a ∉ d.keys) :
    d.set a b = d ++ [(a, b)] := by
  induction d with
  | nil => rfl
  | cons p d ih =>
      obtain ⟨k, v⟩ := p
      rw [keys_cons, List.mem_cons, not_or] at h
      have hk : k ≠ a := Ne.symm h.1
      simp [set, hk, ih h.2]

theorem Uniq.set {d : Dict κ ν} (hd : d.Uniq) (a : κ) (b : ν) : (d.set a b).Uniq := by
  unfold Uniq at *
  rw [keys_set]
  split
  · exact hd
  · next h => exact List.Nodup.append hd (by simp) (by simpa using h)

theorem Uniq.erase {d : Dict κ ν} (hd : d.Uniq) (a : κ) : (d.erase a).Uniq :=
  List.Nodup.sublist (List.Sublist.map _ List.filter_sublist) hd

theorem mem_keys_set {d : Dict κ ν} {a c : κ} {b : ν} :
    c ∈ (d.set a b).keys ↔ c = a ∨ c ∈ d.keys := by
  rw [← get?_isSome_iff, ← get?_isSome_iff, get?_set]
  by_cases h : a = c
  · simp [h]
  · simp [h, Ne.symm h]

/-- Rewriting or dropping each entry by itself, where keys are unique. -/
theorem Uniq.get?_filterMap {d : Dict κ ν} (hd : d.Uniq) (f : κ → ν → Option μ) (a : κ) :
    get? (d.filterMap (fun p => (f p.1 p.2).map (fun b => (p.1, b)))) a =
      (d.get? a).bind (f a) := by
  induction d with
  | nil => rfl
  | cons p d ih =>
      obtain ⟨k, v⟩ := p
      simp only [Uniq, keys_cons, List.nodup_cons] at hd
      have ih := ih hd.2
      by_cases hk : k = a
      · subst hk
        have hnone : get? d k = none := get?_eq_none_iff.mpr hd.1
        rw [hnone, Option.bind_none] at ih
        cases hf : f k v with
        | none => simp [hf, ih]
        | some b => simp [hf]
      · cases hf : f k v with
        | none => simp [hf, ih, get?_cons_ne hk]
        | some b => simp [hf, ih, get?_cons_ne hk]

theorem Uniq.filterMap {d : Dict κ ν} (hd : d.Uniq) (f : κ → ν → Option μ) :
    Uniq (d.filterMap (fun p => (f p.1 p.2).map (fun b => (p.1, b)))) := by
  induction d with
  | nil => exact List.nodup_nil
  | cons p d ih =>
      simp only [Uniq, keys_cons, List.nodup_cons] at hd
      cases hf : f p.1 p.2 with
      | none => simpa [List.filterMap_cons, hf] using ih hd.2
      | some b =>
          simp only [List.filterMap_cons, hf, Option.map_some, Uniq, keys_cons, List.nodup_cons]
          refine ⟨?_, ih hd.2⟩
          have hnone : get? d p.1 = none := get?_eq_none_iff.mpr hd.1
          rw [← get?_eq_none_iff, Uniq.get?_filterMap hd.2, hnone]
          rfl

/-- Erasing several keys. -/
theorem get?_eraseAll (d : Dict κ ν) (ks : List κ) (a : κ) :
    (ks.foldl erase d).get? a = if a ∈ ks then none else d.get? a := by
  induction ks generalizing d with
  | nil => simp
  | cons k ks ih =>
      rw [List.foldl_cons, ih]
      by_cases hk : k = a
      · subst hk
        simp
      · simp [get?_erase_ne hk, Ne.symm hk]

/-- An update does not touch the other keys. -/
theorem get?_update_of_not_mem {d e : Dict κ ν} {a : κ} (h : a ∉ e.keys) : (d.update e).get? a = d.get? a := by
  induction e generalizing d with
  | nil => rfl
  | cons p e ih =>
      rw [keys_cons, List.mem_cons, not_or] at h
      exact (ih h.2).trans (get?_set_ne (Ne.symm h.1) d p.2)

/-- What is read after an update by entries with unique keys. -/
theorem Uniq.get?_update {e : Dict κ ν} (he : e.Uniq) (d : Dict κ ν) (a : κ) :
    (d.update e).get? a = (e.get? a).or (d.get? a) := by
  induction e generalizing d with
  | nil => rfl
  | cons p e ih =>
      obtain ⟨k, v⟩ := p
      simp only [Uniq, keys_cons, List.nodup_cons] at he
      have hrest : (d.update ((k, v) :: e)).get? a = ((d.set k v).update e).get? a := rfl
      rw [hrest, ih he.2]
      by_cases hk : k = a
      · subst hk
        have hnone : get? e k = none := get?_eq_none_iff.mpr he.1
        simp [hnone]
      · simp [get?_cons_ne hk, get?_set_ne hk]

end Lookup

/-! ### Entries in key order -/

section Sorted

variable [LinearOrder κ]

/-- The entries ordered by key, as a loop over the sorted items visits them. -/
def sorted (d : Dict κ ν) : List (κ × ν) := d.insertionSort (fun p q => p.1 ≤ q.1)

theorem sorted_perm (d : Dict κ ν) : d.sorted.Perm d :=
  List.perm_insertionSort _ d

@[simp] theorem mem_sorted {d : Dict κ ν} {p : κ × ν} : p ∈ d.sorted ↔ p ∈ d :=
  (sorted_perm d).mem_iff

theorem sorted_keys_nodup {d : Dict κ ν} (hd : d.Uniq) : (d.sorted.map Prod.fst).Nodup :=
  ((sorted_perm d).map Prod.fst).nodup_iff.mpr hd

/-- The order in which the entries were inserted does not show. -/
theorem sorted_congr {d e : Dict κ ν} (hd : d.Uniq) (h : List.Perm d e) : d.sorted = e.sorted := by
  have hperm : d.sorted.Perm e.sorted := ((sorted_perm d).trans h).trans (sorted_perm e).symm
  have : Std.Total (fun p q : κ × ν => p.1 ≤ q.1) := ⟨fun p q => le_total p.1 q.1⟩
  have : IsTrans (κ × ν) (fun p q => p.1 ≤ q.1) := ⟨fun _ _ _ => le_trans⟩
  refine hperm.eq_of_pairwise (fun p q hp hq hle hge => ?_) (List.pairwise_insertionSort _ d)
    (List.pairwise_insertionSort _ e)
  have hq' : q ∈ d.sorted := hperm.mem_iff.mpr hq
  exact List.inj_on_of_nodup_map (sorted_keys_nodup hd) hp hq' (le_antisymm hle hge)

end Sorted

end Dict

end ProxyGateway
