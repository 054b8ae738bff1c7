import ProxyGateway.WebImport.Claim

set_option autoImplicit false

/-!
# ProxyGateway.WebImport.Protocol

What the history of the staging directory has to look like (`Orderly`), and what one
operation of a process may do to keep it so.

* `Inv`: the history is orderly and agrees with the files: an accepted claim that still
  stands is in the record, a marker the history knows is there, an upload that was
  removed is gone for good.
* `Permit`: a record is claimed, and a file removed on behalf of a claim holder, only by
  the process whose marker it is, or when the upload is gone and nothing can be prepared
  any more (`Mine`).
* `Rely`: what a process may count on while its marker is there.

`inv_exec` and `rely_exec` are the two step lemmas: a permitted operation keeps the
invariant, and disturbs nobody else's claim.
-/

namespace ProxyGateway.WebImport

/-! ### Orderly histories -/

/-- The claim time of an import that was prepared and neither released nor taken away
since. -/
def standing : List Event → ImportId → Option Int
  | [], _ => none
  | .prepared Y t :: l, X => if Y = X then some t else standing l X
  | .released Y :: l, X => if Y = X then none else standing l X
  | .removed _ Y .json :: l, X => if Y = X then none else standing l X
  | .removed _ _ .upload :: l, X => standing l X
  | .removed _ _ .claim :: l, X => standing l X
  | .claimed _ :: l, X => standing l X
  | .taken _ :: l, X => standing l X

/-- Is there a claim marker, as far as the history tells? -/
def held : List Event → ImportId → Bool
  | [], _ => false
  | .claimed Y :: l, X => if Y = X then true else held l X
  | .taken Y :: l, X => if Y = X then false else held l X
  | .removed _ Y .claim :: l, X => if Y = X then false else held l X
  | .removed _ _ .json :: l, X => held l X
  | .removed _ _ .upload :: l, X => held l X
  | .prepared _ _ :: l, X => held l X
  | .released _ :: l, X => held l X

/-- May `e` happen after the history `l`? A marker is created where there is none.
Preparing happens while no claim stands and the upload was never removed. A cancellation
removes nothing of an import whose claim stands, and neither do the janitor and the expiry
check before two hours have passed since the claim. -/
def Follows (l : List Event) : Event → Prop
  | .claimed X => held l X = false
  | .prepared X _ => standing l X = none ∧ ∀ why, Event.removed why X .upload ∉ l
  | .removed .cancel X s => s ≠ .claim → standing l X = none
  | .removed (.expired now) X s =>
      s ≠ .claim → ∀ t, standing l X = some t → claimProtectionTtl ≤ now - t
  | .removed (.collect now) X s =>
      s ≠ .claim → ∀ t, standing l X = some t → claimProtectionTtl ≤ now - t
  | _ => True

/-- Every event may follow what was before it; newest event first. -/
def Orderly : List Event → Prop
  | [] => True
  | e :: l => Follows l e ∧ Orderly l

/-! ### The invariant -/

/-- The history is orderly and agrees with the files. -/
structure Inv (w : Staging) : Prop where
  orderly : Orderly w.log
  record : ∀ X t, standing w.log X = some t →
    ∃ r a, w.record? X = some r ∧ r.apply = some a ∧ a.claimed = true ∧ a.claimedAt = t
  marker : ∀ X, held w.log X = true → w.claim X ≠ none
  gone : ∀ X why, Event.removed why X .upload ∈ w.log → w.upload X = none

/-- The marker of `X` is the one that `i` created. -/
def Owns (i : Pid) (X : ImportId) (w : Staging) : Prop := ∃ t, w.claim X = some (i, t)

/-- Nobody else can prepare `X`: `i` owns the marker, or the upload is gone. -/
def Mine (i : Pid) (X : ImportId) (w : Staging) : Prop := Owns i X w ∨ w.upload X = none

/-- `i` owns the marker of an import that can still be prepared. -/
def Locked (i : Pid) (X : ImportId) (w : Staging) : Prop := Owns i X w ∧ w.upload X ≠ none

/-- Is the removal part of an operation that holds the marker? -/
def Why.locked : Why → Bool
  | .release | .discard => false
  | _ => true

/-- What process `i` may do. -/
def Permit (i : Pid) : Op → Staging → Prop
  | .storeJson X r, w =>
      ∀ a, r.apply = some a → Locked i X w ∧ standing w.log X = none ∧ a.claimed = true
  | .unlink why X s, w =>
      (why.locked = true → Mine i X w) ∧ Follows w.log (.removed why X s)
  | _, _ => True

/-- What process `i` may count on. -/
structure Rely (i : Pid) (w w' : Staging) : Prop where
  log : w.log <:+ w'.log
  inv : Inv w → Inv w'
  gone : ∀ X, w.upload X = none → w'.upload X = none
  mine : ∀ X, Mine i X w → Mine i X w'
  locked : ∀ X, Locked i X w → w'.upload X = w.upload X
  standing : ∀ X, Mine i X w → ∀ t, standing w'.log X = some t → standing w.log X = some t

theorem Rely.refl (i : Pid) (w : Staging) : Rely i w w :=
  ⟨List.suffix_refl _, id, fun _ h => h, fun _ h => h, fun _ _ => rfl, fun _ _ _ h => h⟩

theorem Locked.rely {i : Pid} {X : ImportId} {w w' : Staging} (h : Locked i X w)
    (hr : Rely i w w') : Locked i X w' := by
  have hup := hr.locked X h
  have hlive : w'.upload X ≠ none := by rw [hup]; exact h.2
  cases hr.mine X (Or.inl h.1) with
  | inl hown => exact ⟨hown, hlive⟩
  | inr hgone => exact absurd hgone hlive

theorem Rely.trans {i : Pid} {u v w : Staging} (h : Rely i u v) (h' : Rely i v w) :
    Rely i u w where
  log := h.log.trans h'.log
  inv := fun hu => h'.inv (h.inv hu)
  gone := fun X hX => h'.gone X (h.gone X hX)
  mine := fun X hX => h'.mine X (h.mine X hX)
  locked := fun X hX => (h'.locked X (hX.rely h)).trans (h.locked X hX)
  standing := fun X hX t ht => h.standing X hX t (h'.standing X (h.mine X hX) t ht)

/-- The setting of process `i`. -/
def setting (i : Pid) : Setting Op Op.Answer Choice Staging where
  exec := exec i
  allow := fun _ _ _ => True
  rely := Rely i
  permit := Permit i
  rely_refl := Rely.refl i
  rely_trans := Rely.trans

/-! ### What the operations do -/

section Fields

variable (w : Staging) (X Y : ImportId) (s : Suffix) (why : Why) (pid : Pid) (time : Rat)
  (r : Record)

@[simp] theorem Staging.mark_json : (w.mark X pid time).json = w.json := rfl
@[simp] theorem Staging.mark_upload : (w.mark X pid time).upload = w.upload := rfl
@[simp] theorem Staging.mark_claim :
    (w.mark X pid time).claim = Function.update w.claim X (some (pid, time)) := rfl
@[simp] theorem Staging.mark_log : (w.mark X pid time).log = .claimed X :: w.log := rfl
@[simp] theorem Staging.mark_record : (w.mark X pid time).record? Y = w.record? Y := rfl

@[simp] theorem Staging.store_upload : (w.store X r time).upload = w.upload := rfl
@[simp] theorem Staging.store_claim : (w.store X r time).claim = w.claim := rfl

@[simp] theorem Staging.store_record_self : (w.store X r time).record? X = some r := by
  simp [Staging.record?, Staging.store, Staging.note]

theorem Staging.store_record_ne {X Y : ImportId} (h : Y ≠ X) :
    (w.store X r time).record? Y = w.record? Y := by
  simp [Staging.record?, Staging.store, Staging.note, h]

@[simp] theorem Staging.remove_log : (w.remove why X s).log = .removed why X s :: w.log := by
  cases s <;> rfl

theorem Staging.remove_upload : (w.remove why X s).upload Y =
    if s = .upload ∧ Y = X then none else w.upload Y := by
  cases s <;> simp [Staging.remove, Staging.erase, Staging.note, Function.update_apply]

theorem Staging.remove_claim : (w.remove why X s).claim Y =
    if s = .claim ∧ Y = X then none else w.claim Y := by
  cases s <;> simp [Staging.remove, Staging.erase, Staging.note, Function.update_apply]

theorem Staging.remove_record : (w.remove why X s).record? Y =
    if s = .json ∧ Y = X then none else w.record? Y := by
  cases s <;>
    simp [Staging.record?, Staging.remove, Staging.erase, Staging.note, Function.update_apply]
  split <;> rfl

end Fields

/-- Everything an operation can do to the directory. -/
theorem exec_cases (i : Pid) (e : Op) (c : Choice) (w : Staging) :
    (exec i e c w).2 = w ∨
    (∃ X, e = .createExclusive X ∧ w.claim X = none ∧ (exec i e c w).2 = w.mark X i c.time) ∨
    (∃ X, e = .takeOver X ∧ (exec i e c w).2 = (w.erase X .claim).note (.taken X)) ∨
    (∃ X r, e = .storeJson X r ∧ (exec i e c w).2 = w.store X r c.time) ∨
    (∃ why X s, e = .unlink why X s ∧ (exec i e c w).2 = w.remove why X s) := by
  cases e with
  | createExclusive X =>
      simp only [exec]
      split
      · exact Or.inl rfl
      · next hnone _ => exact Or.inr (Or.inl ⟨X, rfl, hnone, rfl⟩)
      · exact Or.inl rfl
      · next hnone _ => exact Or.inr (Or.inl ⟨X, rfl, hnone, rfl⟩)
  | takeOver X =>
      simp only [exec]
      split
      · exact Or.inr (Or.inr (Or.inl ⟨X, rfl, rfl⟩))
      · exact Or.inl rfl
  | storeJson X r =>
      simp only [exec]
      split
      · exact Or.inr (Or.inr (Or.inr (Or.inl ⟨X, r, rfl, rfl⟩)))
      · exact Or.inl rfl
  | unlink why X s =>
      simp only [exec]
      split
      · split
        · exact Or.inr (Or.inr (Or.inr (Or.inr ⟨why, X, s, rfl, rfl⟩)))
        · exact Or.inl rfl
      · exact Or.inl rfl
  | _ => exact Or.inl rfl

theorem standing_remove (why : Why) (X Y : ImportId) (s : Suffix) (l : List Event) :
    standing (.removed why X s :: l) Y = if s = .json ∧ X = Y then none else standing l Y := by
  cases s <;> simp [standing]

theorem standing_store (w : Staging) (X Y : ImportId) (r : Record) (time : Rat) :
    standing (w.store X r time).log Y =
      if X = Y then r.apply.map Apply.claimedAt else standing w.log Y := by
  cases h : r.apply <;> simp [Staging.store, Staging.note, h, standing]

theorem held_remove (why : Why) (X Y : ImportId) (s : Suffix) (l : List Event) :
    held (.removed why X s :: l) Y = if s = .claim ∧ X = Y then false else held l Y := by
  cases s <;> simp [held]

theorem held_store (w : Staging) (X Y : ImportId) (r : Record) (time : Rat) :
    held (w.store X r time).log Y = held w.log Y := by
  cases h : r.apply <;> simp [Staging.store, Staging.note, h, held]

/-! ### One step keeps the invariant -/

section Step

variable {w : Staging} {i : Pid} {X : ImportId}

theorem Inv.mark (h : Inv w) (hfree : w.claim X = none) (pid : Pid) (time : Rat) :
    Inv (w.mark X pid time) where
  orderly := by
    refine ⟨?_, h.orderly⟩
    cases hheld : held w.log X with
    | false => exact hheld
    | true => exact absurd hfree (h.marker X hheld)
  record := h.record
  marker := by
    intro Y hY
    simp only [Staging.mark_claim, Function.update_apply]
    by_cases hYX : Y = X
    · simp [hYX]
    · have hne : X ≠ Y := Ne.symm hYX
      simp only [Staging.mark_log, held, hne, if_false] at hY
      simpa [hYX] using h.marker Y hY
  gone := by
    intro Y why hY
    simp only [Staging.mark_log, List.mem_cons] at hY
    rcases hY with hY | hY
    · cases hY
    · exact h.gone Y why hY

theorem Inv.taken (h : Inv w) (X : ImportId) : Inv ((w.erase X .claim).note (.taken X)) where
  orderly := ⟨trivial, h.orderly⟩
  record := h.record
  marker := by
    intro Y hY
    simp only [Staging.note, Staging.erase, Function.update_apply]
    by_cases hYX : Y = X
    · simp [hYX, Staging.note, held] at hY
    · have hne : X ≠ Y := Ne.symm hYX
      simp only [Staging.note, Staging.erase, held, hne, if_false] at hY
      simpa [hYX] using h.marker Y hY
  gone := by
    intro Y why hY
    simp only [Staging.note, Staging.erase, List.mem_cons] at hY
    rcases hY with hY | hY
    · cases hY
    · exact h.gone Y why hY

theorem Inv.store (h : Inv w) {r : Record} (hp : Permit i (.storeJson X r) w) (time : Rat) :
    Inv (w.store X r time) where
  orderly := by
    refine ⟨?_, h.orderly⟩
    cases ha : r.apply with
    | none => trivial
    | some a =>
        obtain ⟨hlock, hstand, _⟩ := hp a ha
        exact ⟨hstand, fun why hmem => hlock.2 (h.gone X why hmem)⟩
  record := by
    intro Y t ht
    rw [standing_store] at ht
    by_cases hXY : X = Y
    · subst hXY
      simp only [if_true, Option.map_eq_some_iff] at ht
      obtain ⟨a, ha, hat⟩ := ht
      exact ⟨r, a, by simp, ha, (hp a ha).2.2, hat⟩
    · simp only [hXY, if_false] at ht
      rw [Staging.store_record_ne _ _ _ (Ne.symm hXY)]
      exact h.record Y t ht
  marker := by
    intro Y hY
    rw [held_store] at hY
    exact h.marker Y hY
  gone := by
    intro Y why hY
    have hold : Event.removed why Y .upload ∈ w.log := by
      cases ha : r.apply <;> simpa [Staging.store, Staging.note, ha] using hY
    exact h.gone Y why hold

theorem Inv.remove (h : Inv w) {why : Why} {s : Suffix} (hf : Follows w.log (.removed why X s)) :
    Inv (w.remove why X s) where
  orderly := by
    rw [Staging.remove_log]
    exact ⟨hf, h.orderly⟩
  record := by
    intro Y t ht
    rw [Staging.remove_log, standing_remove] at ht
    by_cases hc : s = .json ∧ X = Y
    · simp [hc] at ht
    · simp only [hc, if_false] at ht
      have hc' : ¬ (s = .json ∧ Y = X) := fun hx => hc ⟨hx.1, hx.2.symm⟩
      rw [Staging.remove_record, if_neg hc']
      exact h.record Y t ht
  marker := by
    intro Y hY
    rw [Staging.remove_log, held_remove] at hY
    by_cases hc : s = .claim ∧ X = Y
    · simp [hc] at hY
    · simp only [hc, if_false] at hY
      have hc' : ¬ (s = .claim ∧ Y = X) := fun hx => hc ⟨hx.1, hx.2.symm⟩
      rw [Staging.remove_claim, if_neg hc']
      exact h.marker Y hY
  gone := by
    intro Y why' hY
    rw [Staging.remove_upload]
    rw [Staging.remove_log, List.mem_cons] at hY
    rcases hY with hY | hY
    · cases hY
      simp
    · split
      · rfl
      · exact h.gone Y why' hY

/-- **A permitted operation keeps the invariant.** -/
theorem inv_exec (h : Inv w) {e : Op} (hp : Permit i e w) (c : Choice) : Inv (exec i e c w).2 := by
  rcases exec_cases i e c w with he | ⟨X, rfl, hfree, he⟩ | ⟨X, rfl, he⟩ | ⟨X, r, rfl, he⟩ |
    ⟨why, X, s, rfl, he⟩ <;> rw [he]
  · exact h
  · exact h.mark hfree i c.time
  · exact h.taken X
  · exact h.store hp c.time
  · exact h.remove hp.2

/-! ### One step disturbs nobody -/

/-- The operations that take away, without holding it, the marker of `X` or what it
protects: the janitor's takeover, and `release_claim` and `discard`. -/
def Op.disturbs (X : ImportId) : Op → Prop
  | .takeOver Y => Y = X
  | .unlink why Y s => Y = X ∧ why.locked = false ∧ s ≠ .json
  | _ => False

/-- The marker of an import belongs to one process. -/
theorem Owns.unique {j : Pid} (h : Owns i X w) (h' : Owns j X w) : i = j := by
  obtain ⟨t, ht⟩ := h
  obtain ⟨t', ht'⟩ := h'
  rw [ht] at ht'
  cases ht'
  rfl

theorem Rely.mark {j : Pid} (h : Inv w) (hfree : w.claim X = none) (pid : Pid) (time : Rat) :
    Rely j w (w.mark X pid time) where
  log := List.suffix_cons _ _
  inv := fun _ => h.mark hfree pid time
  gone := fun _ hY => hY
  mine := by
    intro Y hY
    refine hY.imp (fun hown => ?_) id
    obtain ⟨t, ht⟩ := hown
    have hYX : Y ≠ X := by
      rintro rfl
      rw [hfree] at ht
      cases ht
    exact ⟨t, by simpa [hYX] using ht⟩
  locked := fun _ _ => rfl
  standing := fun _ _ _ ht => ht

theorem Rely.taken {j : Pid} (h : Inv w) (hown : ¬ Owns j X w) :
    Rely j w ((w.erase X .claim).note (.taken X)) where
  log := List.suffix_cons _ _
  inv := fun _ => h.taken X
  gone := fun _ hY => hY
  mine := by
    intro Y hY
    refine hY.imp (fun hY => ?_) id
    have hYX : Y ≠ X := by
      rintro rfl
      exact hown hY
    obtain ⟨t, ht⟩ := hY
    exact ⟨t, by simpa [Staging.note, Staging.erase, hYX] using ht⟩
  locked := fun _ _ => rfl
  standing := fun _ _ _ ht => ht

theorem Rely.store {j : Pid} {r : Record} (h : Inv w) (hp : Permit i (.storeJson X r) w)
    (hij : j ≠ i) (time : Rat) :
    Rely j w (w.store X r time) where
  log := List.suffix_cons _ _
  inv := fun _ => h.store hp time
  gone := fun _ hY => hY
  mine := fun _ hY => hY
  locked := fun _ _ => rfl
  standing := by
    intro Y hY t ht
    rw [standing_store] at ht
    by_cases hXY : X = Y
    · subst hXY
      simp only [if_true, Option.map_eq_some_iff] at ht
      obtain ⟨a, ha, _⟩ := ht
      -- `i` has the marker and the upload is there, so `X` cannot be `j`'s
      obtain ⟨hlock, _, _⟩ := hp a ha
      cases hY with
      | inl hj => exact absurd (hj.unique hlock.1) hij
      | inr hgone => exact absurd hgone hlock.2
    · simpa [hXY] using ht

theorem Rely.remove {j : Pid} {why : Why} {s : Suffix} (h : Inv w)
    (hp : Permit i (.unlink why X s) w) (hij : j ≠ i)
    (hown : why.locked = false → s ≠ .json → ¬ Owns j X w) : Rely j w (w.remove why X s) := by
  -- unless the record is all that is removed, `X` can be `j`'s only when its upload is gone
  have hother : s ≠ .json → Mine j X w → w.upload X = none := by
    intro hs hj
    cases hj with
    | inr hgone => exact hgone
    | inl hj =>
        cases hl : why.locked with
        | false => exact absurd hj (hown hl hs)
        | true =>
            cases hp.1 hl with
            | inl hi => exact absurd (hj.unique hi) hij
            | inr hgone => exact hgone
  refine ⟨?_, fun _ => h.remove hp.2, ?_, ?_, ?_, ?_⟩
  · rw [Staging.remove_log]
    exact List.suffix_cons _ _
  · intro Y hY
    rw [Staging.remove_upload]
    split
    · rfl
    · exact hY
  · intro Y hY
    by_cases hYX : s ≠ .json ∧ Y = X
    · obtain ⟨hs, rfl⟩ := hYX
      refine Or.inr ?_
      rw [Staging.remove_upload]
      split
      · rfl
      · exact hother hs hY
    · have hs : ∀ s', s' ≠ .json → ¬ (s = s' ∧ Y = X) :=
        fun s' hs' hc => hYX ⟨by rw [hc.1]; exact hs', hc.2⟩
      unfold Mine Owns at *
      rw [Staging.remove_claim, Staging.remove_upload, if_neg (hs _ (by simp)),
        if_neg (hs _ (by simp))]
      exact hY
  · intro Y hY
    rw [Staging.remove_upload]
    split
    · next hc =>
        obtain ⟨hs, rfl⟩ := hc
        exact absurd (hother (by simp [hs]) (Or.inl hY.1)) hY.2
    · rfl
  · intro Y _ t ht
    rw [Staging.remove_log, standing_remove] at ht
    split at ht
    · cases ht
    · exact ht

/-- **A permitted operation leaves everybody else's claim alone**, when it does not disturb
an import whose marker is theirs. -/
theorem rely_exec {j : Pid} (h : Inv w) {e : Op} (hp : Permit i e w) (hij : j ≠ i)
    (hown : ∀ X, e.disturbs X → ¬ Owns j X w) (c : Choice) : Rely j w (exec i e c w).2 := by
  rcases exec_cases i e c w with he | ⟨X, rfl, hfree, he⟩ | ⟨X, rfl, he⟩ | ⟨X, r, rfl, he⟩ |
    ⟨why, X, s, rfl, he⟩ <;> rw [he]
  · exact Rely.refl j w
  · exact Rely.mark h hfree i c.time
  · exact Rely.taken h (hown X rfl)
  · exact Rely.store h hp hij c.time
  · exact Rely.remove h hp hij (fun hl hs => hown X ⟨rfl, hl, hs⟩)

end Step

end ProxyGateway.WebImport
