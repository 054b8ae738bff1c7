import Mathlib.Data.List.Perm.Subperm
import Mathlib.Data.List.Nodup
import Mathlib.Logic.Relation
import ProxyGateway.Lib.Dynamic

set_option autoImplicit false

/-!
# ProxyGateway.Lib.Search

Depth-first search for a cycle in a finite graph, as a recursive `visit` does it: the nodes
on the current path, and the nodes that are done. A search that comes to its end proves
that no cycle can be reached (`acyclic_of_visitAll`).

* `next a` are the nodes that `a` points to;
* `fuel` bounds the depth, and the number of nodes is always enough;
* the list of done nodes is kept in the order in which they were left, so that every node
  stands in front of all that it points to (`Settled`).
-/

namespace ProxyGateway.Search

variable {α ε : Type}

/-! ### The graph -/

variable {cycle : ε} {next : α → List α} {fuel : Nat} {path done done' nodes : List α} {a : α}

/-- `b` is one of the nodes that `a` points to. -/
def Edge (next : α → List α) (a b : α) : Prop := b ∈ next a

/-- Every node stands in front of all that it points to. -/
def Settled (next : α → List α) : List α → Prop
  | [] => True
  | a :: done => a ∉ done ∧ (∀ b ∈ next a, b ∈ done) ∧ Settled next done

theorem Settled.step (hs : Settled next done) {b : α} (ha : a ∈ done) (h : Edge next a b) :
    b ∈ done := by
  induction done with
  | nil => simp at ha
  | cons c done ih =>
      rcases List.mem_cons.mp ha with rfl | ha
      · exact List.mem_cons_of_mem _ (hs.2.1 b h)
      · exact List.mem_cons_of_mem _ (ih hs.2.2 ha)

theorem Settled.reaches (hs : Settled next done) {b : α} (ha : a ∈ done)
    (h : Relation.ReflTransGen (Edge next) a b) : b ∈ done := by
  induction h with
  | refl => exact ha
  | tail _ hstep ih => exact hs.step ih hstep

/-- No node of a settled list lies on a cycle. -/
theorem Settled.acyclic (hs : Settled next done) (ha : a ∈ done) :
    ¬ Relation.TransGen (Edge next) a a := by
  induction done with
  | nil => simp at ha
  | cons c done ih =>
      intro h
      rcases List.mem_cons.mp ha with rfl | ha
      · -- the first step leaves `a` for the nodes behind it, which never lead back
        obtain ⟨b, hab, hba⟩ := Relation.TransGen.head'_iff.mp h
        exact hs.1 (hs.2.2.reaches (hs.2.1 b hab) hba)
      · exact ih hs.2.2 ha h

/-! ### What the turns of a loop bring about -/

/-- What a visit that starts at a settled list brings about. -/
structure Extends (next : α → List α) (path done done' : List α) : Prop where
  settled : Settled next done'
  subset : ∀ x ∈ done, x ∈ done'
  apart : ∀ x ∈ path, x ∉ done'

/-- The loop over the nodes pointed to, given what each of its turns does. -/
theorem foldlM_extends {f : List α → α → Py ε (List α)} {xs : List α}
    (hf : ∀ done done' x, Settled next done → (∀ y ∈ path, y ∉ done) → f done x = .ok done' →
      Extends next path done done' ∧ x ∈ done')
    (hs : Settled next done) (hp : ∀ y ∈ path, y ∉ done) (h : xs.foldlM f done = .ok done') :
    Extends next path done done' ∧ ∀ x ∈ xs, x ∈ done' := by
  induction xs generalizing done with
  | nil =>
      rw [List.foldlM_nil, Py.pure_eq_ok] at h
      subst h
      exact ⟨⟨hs, fun _ hx => hx, hp⟩, by simp⟩
  | cons x xs ih =>
      rw [List.foldlM_cons, Py.bind_eq_ok] at h
      obtain ⟨mid, hx, h⟩ := h
      obtain ⟨hmid, hmem⟩ := hf done mid x hs hp hx
      obtain ⟨hrest, hall⟩ := ih hmid.settled hmid.apart h
      refine ⟨⟨hrest.settled, fun y hy => hrest.subset y (hmid.subset y hy), hrest.apart⟩,
        fun y hy => ?_⟩
      rcases List.mem_cons.mp hy with rfl | hy
      · exact hrest.subset y hmem
      · exact hall y hy

/-! ### The search -/

variable [DecidableEq α]

/-- Visit a node: the done nodes afterwards, or `cycle` where the path meets itself. -/
def visit (cycle : ε) (next : α → List α) : Nat → List α → List α → α → Py ε (List α)
  | 0, _, _, _ => Py.raise cycle
  | fuel + 1, path, done, a =>
      if a ∈ path then Py.raise cycle
      else if a ∈ done then .ok done
      else do
        let done ← (next a).foldlM (visit cycle next fuel (a :: path)) done
        return a :: done

/-- Visit all nodes in turn. -/
def visitAll (cycle : ε) (next : α → List α) (nodes : List α) : Py ε Unit := do
  let _ ← nodes.foldlM (visit cycle next (nodes.length + 1) []) []
  return ()

/-- Whether a loop comes to its end depends on what its turns return. -/
theorem foldlM_congr {ε' β γ : Type} {f : β → γ → Py ε β} {g : β → γ → Py ε' β} {xs : List γ}
    (hfg : ∀ b b' x, f b x = .ok b' ↔ g b x = .ok b') {b b' : β} :
    xs.foldlM f b = .ok b' ↔ xs.foldlM g b = .ok b' := by
  induction xs generalizing b with
  | nil => simp
  | cons x xs ih => simp only [List.foldlM_cons, Py.bind_eq_ok, hfg, ih]

theorem visit_congr {ε' : Type} (cycle : ε) (cycle' : ε') :
    visit cycle next fuel path done a = .ok done' ↔
      visit cycle' next fuel path done a = .ok done' := by
  induction fuel generalizing path done done' a with
  | zero => simp [visit]
  | succ fuel ih =>
      rw [visit, visit]
      by_cases hpath : a ∈ path
      · simp [hpath]
      by_cases hdone : a ∈ done
      · simp [hpath, hdone]
      simp only [hpath, hdone, if_false, Py.bind_eq_ok, Py.pure_eq_ok]
      exact exists_congr fun _ => and_congr_left' (foldlM_congr fun _ _ _ => ih)

/-- The exception for a cycle does not matter for the verdict. -/
theorem visitAll_congr {ε' : Type} (cycle : ε) (cycle' : ε') :
    visitAll cycle next nodes = .ok () ↔ visitAll cycle' next nodes = .ok () := by
  simp only [visitAll, Py.bind_eq_ok, Py.pure_eq_ok, and_true]
  exact exists_congr fun _ => foldlM_congr fun _ _ _ => visit_congr cycle cycle'

theorem visit_extends (hs : Settled next done) (hp : ∀ y ∈ path, y ∉ done)
    (h : visit cycle next fuel path done a = .ok done') :
    Extends next path done done' ∧ a ∈ done' := by
  induction fuel generalizing path done done' a with
  | zero => simp [visit] at h
  | succ fuel ih =>
      rw [visit] at h
      by_cases hpath : a ∈ path
      · simp [hpath] at h
      by_cases hdone : a ∈ done
      · simp only [hpath, hdone, if_true, if_false, Except.ok.injEq] at h
        subst h
        exact ⟨⟨hs, fun _ hx => hx, hp⟩, hdone⟩
      simp only [hpath, hdone, if_false] at h
      obtain ⟨mid, hmid, h⟩ := Py.bind_eq_ok.mp h
      rw [Py.pure_eq_ok] at h
      subst h
      have hp' : ∀ y ∈ a :: path, y ∉ done := by simpa [hdone] using hp
      obtain ⟨hext, hall⟩ := foldlM_extends (fun _ _ _ => ih) hs hp' hmid
      have ha : a ∉ mid := hext.apart a (by simp)
      refine ⟨⟨⟨ha, hall, hext.settled⟩, fun x hx => ?_, fun x hx => ?_⟩, by simp⟩
      · exact List.mem_cons_of_mem a (hext.subset x hx)
      · -- a node on the path is neither done below `a` nor `a` itself
        have hne : x ≠ a := fun he => hpath (he ▸ hx)
        simpa [hne] using hext.apart x (List.mem_cons_of_mem a hx)

/-- A search that comes to its end has met no cycle. -/
theorem acyclic_of_visitAll (h : visitAll cycle next nodes = .ok ()) (ha : a ∈ nodes) :
    ¬ Relation.TransGen (Edge next) a a := by
  obtain ⟨done, hdone, -⟩ := Py.bind_eq_ok.mp h
  have hpath : ∀ y ∈ ([] : List α), y ∉ ([] : List α) := by simp
  have hstart : Settled next ([] : List α) := trivial
  obtain ⟨hext, hall⟩ := foldlM_extends (fun _ _ _ => visit_extends) hstart hpath hdone
  exact hext.settled.acyclic (hall a ha)

/-! ### Enough fuel

A path never holds a node twice, so a fuel that exceeds the number of nodes is not used up. -/

theorem foldlM_eq_of_turn {β γ : Type} {f g : β → γ → Py ε β} {xs : List γ} {b : β}
    (h : ∀ x ∈ xs, ∀ b, f b x = g b x) : xs.foldlM f b = xs.foldlM g b := by
  induction xs generalizing b with
  | nil => rfl
  | cons x xs ih =>
      rw [List.foldlM_cons, List.foldlM_cons, h x (by simp)]
      exact congrArg _ (funext fun b' => ih fun a ha => h a (List.mem_cons_of_mem x ha))

theorem visit_fuel {fuel' : Nat} (hclosed : ∀ a ∈ nodes, ∀ b ∈ next a, b ∈ nodes)
    (hpath : path.Nodup) (hsub : path ⊆ nodes) (ha : a ∈ nodes)
    (hfuel : nodes.length < fuel + path.length) (hfuel' : nodes.length < fuel' + path.length) :
    visit cycle next fuel path done a = visit cycle next fuel' path done a := by
  have hlen : path.length ≤ nodes.length := (List.subperm_of_subset hpath hsub).length_le
  induction fuel generalizing path done a fuel' with
  | zero => omega
  | succ fuel ih =>
      cases fuel' with
      | zero => omega
      | succ fuel' =>
          rw [visit, visit]
          by_cases hin : a ∈ path
          · simp [hin]
          by_cases hdone : a ∈ done
          · simp [hin, hdone]
          rw [if_neg hin, if_neg hin, if_neg hdone, if_neg hdone]
          have hnodup : (a :: path).Nodup := List.nodup_cons.mpr ⟨hin, hpath⟩
          have hsub' : a :: path ⊆ nodes := List.cons_subset.mpr ⟨ha, hsub⟩
          have hlen' : (a :: path).length ≤ nodes.length := (List.subperm_of_subset hnodup hsub').length_le
          have hrest : (next a).foldlM (visit cycle next fuel (a :: path)) done =
              (next a).foldlM (visit cycle next fuel' (a :: path)) done := by
            refine foldlM_eq_of_turn (fun b hb done => ih hnodup hsub' (hclosed a ha b hb) ?_ ?_ hlen')
            · simp only [List.length_cons]; omega
            · simp only [List.length_cons]; omega
          rw [hrest]

/-! ### Without a cycle

The nodes on the path all lead to the node that is visited, so without a cycle it is not among them. -/

theorem foldlM_passes {β γ : Type} {f : β → γ → Py ε β} {xs : List γ} (h : ∀ x ∈ xs, ∀ b, ∃ b', f b x = .ok b')
    (b : β) : ∃ b', xs.foldlM f b = .ok b' := by
  induction xs generalizing b with
  | nil => exact ⟨b, rfl⟩
  | cons x xs ih =>
      obtain ⟨mid, hmid⟩ := h x (by simp) b
      obtain ⟨b', hb'⟩ := ih (fun y hy => h y (List.mem_cons_of_mem x hy)) mid
      exact ⟨b', by rw [List.foldlM_cons, hmid, Py.ok_bind, hb']⟩

theorem visit_passes (hclosed : ∀ a ∈ nodes, ∀ b ∈ next a, b ∈ nodes)
    (hacyclic : ∀ a ∈ nodes, ¬ Relation.TransGen (Edge next) a a) (hpath : path.Nodup) (hsub : path ⊆ nodes)
    (hchain : ∀ y ∈ path, Relation.TransGen (Edge next) y a) (ha : a ∈ nodes)
    (hfuel : nodes.length < fuel + path.length) (done : List α) :
    ∃ done', visit cycle next fuel path done a = .ok done' := by
  have hlen : path.length ≤ nodes.length := (List.subperm_of_subset hpath hsub).length_le
  induction fuel generalizing path done a with
  | zero => omega
  | succ fuel ih =>
      have hin : a ∉ path := fun hmem => hacyclic a ha (hchain a hmem)
      rw [visit, if_neg hin]
      by_cases hdone : a ∈ done
      · rw [if_pos hdone]
        exact ⟨done, rfl⟩
      rw [if_neg hdone]
      have hnodup : (a :: path).Nodup := List.nodup_cons.mpr ⟨hin, hpath⟩
      have hsub' : a :: path ⊆ nodes := List.cons_subset.mpr ⟨ha, hsub⟩
      have hlen' : (a :: path).length ≤ nodes.length := (List.subperm_of_subset hnodup hsub').length_le
      have hturns : ∀ b ∈ next a, ∀ done, ∃ done', visit cycle next fuel (a :: path) done b = .ok done' := by
        intro b hb done
        have hedge : Edge next a b := hb
        refine ih hnodup hsub' (fun y hy => ?_) (hclosed a ha b hb) ?_ done hlen'
        · rcases List.mem_cons.mp hy with rfl | hy
          · exact .single hedge
          · exact (hchain y hy).tail hedge
        · simp only [List.length_cons]; omega
      obtain ⟨mid, hmid⟩ := foldlM_passes hturns done
      exact ⟨a :: mid, by rw [hmid, Py.ok_bind]; rfl⟩

/-- A search among nodes without a cycle comes to its end. -/
theorem visitAll_of_acyclic (hclosed : ∀ a ∈ nodes, ∀ b ∈ next a, b ∈ nodes)
    (hacyclic : ∀ a ∈ nodes, ¬ Relation.TransGen (Edge next) a a) : visitAll cycle next nodes = .ok () := by
  have hturns : ∀ a ∈ nodes, ∀ done, ∃ done', visit cycle next (nodes.length + 1) [] done a = .ok done' :=
    fun a ha done => visit_passes hclosed hacyclic List.nodup_nil (List.nil_subset nodes) (by simp) ha
      (by simp) done
  obtain ⟨done, hdone⟩ := foldlM_passes hturns []
  rw [visitAll, hdone]
  rfl

/-! ### A limit of nesting -/

/-- `visit` in an interpreter that allows `limit` nested calls. -/
def visitWithin (cycle : ε) (next : α → List α) : Nat → List α → List α → α → Py ε (List α)
  | 0, _, _, _ => Py.fault .recursion
  | limit + 1, path, done, a =>
      if a ∈ path then Py.raise cycle
      else if a ∈ done then .ok done
      else do
        let done ← (next a).foldlM (visitWithin cycle next limit (a :: path)) done
        return a :: done

/-- `visitAll` in an interpreter that allows `limit` nested calls. -/
def visitAllWithin (limit : Nat) (cycle : ε) (next : α → List α) (nodes : List α) : Py ε Unit := do
  let _ ← nodes.foldlM (visitWithin cycle next limit []) []
  return ()

theorem foldlM_ok_of_turn {β γ : Type} {f g : β → γ → Py ε β} {xs : List γ} {b b' : β}
    (h : ∀ x ∈ xs, ∀ b b', f b x = .ok b' → g b x = .ok b') (hf : xs.foldlM f b = .ok b') :
    xs.foldlM g b = .ok b' := by
  induction xs generalizing b with
  | nil => simpa using hf
  | cons x xs ih =>
      rw [List.foldlM_cons, Py.bind_eq_ok] at hf ⊢
      obtain ⟨mid, hmid, hf⟩ := hf
      exact ⟨mid, h x (by simp) _ _ hmid, ih (fun a ha => h a (List.mem_cons_of_mem x ha)) hf⟩

/-- A search that comes to its end within a limit comes to the same end with more fuel. -/
theorem visit_of_visitWithin {limit : Nat} (hle : limit ≤ fuel)
    (h : visitWithin cycle next limit path done a = .ok done') :
    visit cycle next fuel path done a = .ok done' := by
  induction limit generalizing fuel path done done' a with
  | zero => simp [visitWithin] at h
  | succ limit ih =>
      obtain ⟨fuel, rfl⟩ := Nat.exists_eq_add_of_le' (Nat.one_le_of_lt hle)
      rw [visitWithin] at h
      rw [visit]
      by_cases hpath : a ∈ path
      · simp [hpath] at h
      by_cases hdone : a ∈ done
      · simpa [hpath, hdone] using h
      rw [if_neg hpath, if_neg hdone, Py.bind_eq_ok] at h ⊢
      obtain ⟨mid, hmid, h⟩ := h
      exact ⟨mid, foldlM_ok_of_turn (fun _ _ _ _ hx => ih (by omega) hx) hmid, h⟩

theorem visitAll_of_visitAllWithin {limit : Nat}
    (hclosed : ∀ a ∈ nodes, ∀ b ∈ next a, b ∈ nodes)
    (h : visitAllWithin limit cycle next nodes = .ok ()) : visitAll cycle next nodes = .ok () := by
  obtain ⟨done, hdone, h⟩ := Py.bind_eq_ok.mp h
  refine Py.bind_eq_ok.mpr ⟨done, foldlM_ok_of_turn (fun a ha done done' hx => ?_) hdone, h⟩
  have hmax := visit_of_visitWithin (Nat.le_max_left limit (nodes.length + 1)) hx
  have hfuel : nodes.length < max limit (nodes.length + 1) + ([] : List α).length := by
    simp only [List.length_nil]
    omega
  rwa [visit_fuel hclosed List.nodup_nil (List.nil_subset nodes) ha hfuel (Nat.lt_succ_self _)]
    at hmax

/-- With as many nested calls as there are nodes, and one more, the limit is not met. -/
theorem visitWithin_eq_visit {limit : Nat} (hclosed : ∀ a ∈ nodes, ∀ b ∈ next a, b ∈ nodes)
    (hpath : path.Nodup) (hsub : path ⊆ nodes) (ha : a ∈ nodes)
    (hlimit : nodes.length < limit + path.length) :
    visitWithin cycle next limit path done a = visit cycle next limit path done a := by
  have hlen : path.length ≤ nodes.length := (List.subperm_of_subset hpath hsub).length_le
  induction limit generalizing path done a with
  | zero => omega
  | succ limit ih =>
      rw [visitWithin, visit]
      by_cases hin : a ∈ path
      · simp [hin]
      rw [if_neg hin, if_neg hin]
      have hnodup : (a :: path).Nodup := List.nodup_cons.mpr ⟨hin, hpath⟩
      have hsub' : a :: path ⊆ nodes := List.cons_subset.mpr ⟨ha, hsub⟩
      have hlen' : (a :: path).length ≤ nodes.length := (List.subperm_of_subset hnodup hsub').length_le
      have hrest : (next a).foldlM (visitWithin cycle next limit (a :: path)) done =
          (next a).foldlM (visit cycle next limit (a :: path)) done :=
        foldlM_eq_of_turn (fun b hb done => ih hnodup hsub' (hclosed a ha b hb)
          (by simp only [List.length_cons]; omega) hlen')
      rw [hrest]

end ProxyGateway.Search
