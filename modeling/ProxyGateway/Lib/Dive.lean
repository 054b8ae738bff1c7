import ProxyGateway.Lib.Search

set_option autoImplicit false

/-!
# ProxyGateway.Lib.Dive

When a depth-first search with a limit of nesting (`visitWithin`) still gives the right verdict,
whatever the order in which it looks at the nodes pointed to.

* `Dives next seen r path a`: started at `r`, the search may come to visit `a` with the nodes of
  `path` pending, if it has left nothing but the `seen` nodes before;
* `TooDeep limit next nodes`: from some node, up to the first that leads to a cycle, it may dive
  below the limit;
* `exact_iff`: it is exact in every order exactly if it cannot.
-/

namespace ProxyGateway.Search

variable {α ε : Type}

/-! ### Cycles and dives -/

/-- `a` leads to a cycle. -/
def Loops (next : α → List α) (a : α) : Prop :=
  ∃ b, Relation.ReflTransGen (Edge next) a b ∧ Relation.TransGen (Edge next) b b

/-- One of the nodes leads to `a`. -/
def Reached (next : α → List α) (front : List α) (a : α) : Prop :=
  ∃ r ∈ front, Relation.ReflTransGen (Edge next) r a

/-- The calls that may be pending when `a` is visited: `path`, the innermost first. -/
inductive Dives (next : α → List α) (seen : α → Prop) (r : α) : List α → α → Prop where
  | root : Dives next seen r [] r
  | call {path : List α} {a b : α} (outer : Dives next seen r path a) (hpath : a ∉ path) (hseen : ¬ seen a)
      (hedge : Edge next a b) : Dives next seen r (a :: path) b

/-- A search of the nodes in turn may need more than `limit` nested calls. -/
def TooDeep (limit : Nat) (next : α → List α) (nodes : List α) : Prop :=
  ∃ front r rest path a, nodes = front ++ r :: rest ∧ (∀ x ∈ front, ¬ Loops next x) ∧
    Dives next (Reached next front) r path a ∧ limit ≤ path.length

/-- The nodes pointed to, each once, in some order. -/
def Enumerates (next order : α → List α) : Prop := ∀ a, (order a).Nodup ∧ ∀ b, b ∈ order a ↔ b ∈ next a

/-- A right verdict: the exception for a cycle if there is one, and all nodes visited if there is
none. -/
structure Exact (cycle : ε) (next : α → List α) (nodes : List α) (result : Py ε (List α)) : Prop where
  raises : result = Py.raise cycle ↔ ∃ a ∈ nodes, Loops next a
  returns : (¬ ∃ a ∈ nodes, Loops next a) → ∃ done, result = .ok done ∧ ∀ a ∈ nodes, a ∈ done

variable {cycle : ε} {next order : α → List α} {limit fuel : Nat} {path done done' nodes front : List α}
  {seen : α → Prop} {a b r : α}

theorem Loops.head (hedge : Edge next a b) (h : Loops next b) : Loops next a := by
  obtain ⟨c, hbc, hc⟩ := h
  exact ⟨c, .head hedge hbc, hc⟩

theorem edge_enumerates (h : Enumerates next order) : Edge order = Edge next := by
  funext a b
  exact propext ((h a).2 b)

theorem loops_enumerates (h : Enumerates next order) : Loops order = Loops next := by
  funext a
  rw [Loops, Loops, edge_enumerates h]

theorem reached_enumerates (h : Enumerates next order) : Reached order = Reached next := by
  funext front a
  rw [Reached, Reached, edge_enumerates h]

theorem Dives.enumerates (h : Enumerates next order) (hdives : Dives order seen r path a) : Dives next seen r path a := by
  induction hdives with
  | root => exact .root
  | call _ hpath hseen hedge ih => exact .call ih hpath hseen (edge_enumerates h ▸ hedge)

/-- Every pending node leads to the one that is visited. -/
theorem Dives.chain (h : Dives next seen r path a) : ∀ y ∈ path, Relation.TransGen (Edge next) y a := by
  induction h with
  | root => exact fun _ hy => nomatch hy
  | call _ _ _ hedge ih =>
      intro y hy
      rcases List.mem_cons.mp hy with rfl | hy
      · exact .single hedge
      · exact (ih y hy).tail hedge

theorem Settled.not_loops (hs : Settled next done) (ha : a ∈ done) : ¬ Loops next a := by
  intro ⟨_, hreach, hcycle⟩
  exact hs.acyclic (hs.reaches ha hreach) hcycle

/-- A dive can be cut anywhere. -/
theorem Dives.cut {n : Nat} (h : Dives next seen r path a) (hle : n ≤ path.length) :
    ∃ path a, Dives next seen r path a ∧ path.length = n := by
  induction h with
  | root => exact ⟨[], r, .root, (Nat.le_zero.mp hle).symm⟩
  | @call path a b outer hpath hseen hedge ih =>
      by_cases hn : n ≤ path.length
      · exact ih hn
      · refine ⟨a :: path, b, .call outer hpath hseen hedge, ?_⟩
        rw [List.length_cons] at hle ⊢
        omega

theorem Exact.ne_fault {f : Fault} {result : Py ε (List α)} (h : Exact cycle next nodes result) :
    result ≠ Py.fault f := by
  intro hfault
  by_cases hloops : ∃ a ∈ nodes, Loops next a
  · rw [h.raises.mpr hloops] at hfault
    cases hfault
  · obtain ⟨done, hdone, -⟩ := h.returns hloops
    rw [hdone] at hfault
    cases hfault

theorem tooDeep_enumerates (h : Enumerates next order) (hdeep : TooDeep limit order nodes) : TooDeep limit next nodes := by
  obtain ⟨front, r, rest, path, a, hnodes, hfront, hdives, hle⟩ := hdeep
  rw [reached_enumerates h] at hdives
  rw [loops_enumerates h] at hfront
  exact ⟨front, r, rest, path, a, hnodes, hfront, hdives.enumerates h, hle⟩

theorem Exact.enumerates {result : Py ε (List α)} (h : Enumerates next order) (hexact : Exact cycle order nodes result) :
    Exact cycle next nodes result := by
  have hsame := loops_enumerates h
  exact ⟨hsame ▸ hexact.raises, hsame ▸ hexact.returns⟩

/-- A node is pending once at most, so that among fewer nodes than the limit nothing is too deep. -/
theorem not_tooDeep_of_length (hclosed : ∀ a ∈ nodes, ∀ b ∈ next a, b ∈ nodes) (hlimit : nodes.length < limit) :
    ¬ TooDeep limit next nodes := by
  intro ⟨front, r, rest, path, a, hnodes, _, hdives, hle⟩
  have hr : r ∈ nodes := by simp [hnodes]
  have hinside : path.Nodup ∧ path ⊆ nodes ∧ a ∈ nodes := by
    clear hle
    induction hdives with
    | root => exact ⟨List.nodup_nil, List.nil_subset nodes, hr⟩
    | call _ hpath _ hedge ih =>
        exact ⟨List.nodup_cons.mpr ⟨hpath, ih.1⟩, List.cons_subset.mpr ⟨ih.2.2, ih.2.1⟩, hclosed _ ih.2.2 _ hedge⟩
  have hlen := (List.subperm_of_subset hinside.1 hinside.2.1).length_le
  omega

/-! ### What a loop of visits keeps -/

variable {β γ : Type} {f : β → γ → Py ε β} {I : β → Prop} {xs : List γ} {s s' : β}

theorem foldlM_keeps (hf : ∀ x ∈ xs, ∀ s s', I s → f s x = .ok s' → I s') (hs : I s) (h : xs.foldlM f s = .ok s') :
    I s' := by
  induction xs generalizing s with
  | nil =>
      rw [List.foldlM_nil, Py.pure_eq_ok] at h
      exact h ▸ hs
  | cons x xs ih =>
      rw [List.foldlM_cons, Py.bind_eq_ok] at h
      obtain ⟨mid, hmid, h⟩ := h
      exact ih (fun y hy => hf y (List.mem_cons_of_mem x hy)) (hf x List.mem_cons_self s mid hs hmid) h

/-- An exception leaves the loop in one of its turns. -/
theorem exists_turn_error {e : Raised ε} (hf : ∀ x ∈ xs, ∀ s s', I s → f s x = .ok s' → I s') (hs : I s)
    (h : xs.foldlM f s = .error e) : ∃ x ∈ xs, ∃ s, I s ∧ f s x = .error e := by
  induction xs generalizing s with
  | nil => cases h
  | cons x xs ih =>
      rw [List.foldlM_cons] at h
      cases hx : f s x with
      | error e' =>
          rw [hx] at h
          exact ⟨x, List.mem_cons_self, s, hs, hx.trans h⟩
      | ok mid =>
          rw [hx] at h
          obtain ⟨y, hy, t, ht, herror⟩ := ih (fun y hy => hf y (List.mem_cons_of_mem x hy))
            (hf x List.mem_cons_self s mid hs hx) h
          exact ⟨y, List.mem_cons_of_mem x hy, t, ht, herror⟩

/-! ### What a visit does within the limit -/

variable [DecidableEq α]

theorem subset_visitWithin (h : visitWithin cycle next limit path done a = .ok done') : done ⊆ done' := by
  induction limit generalizing path done done' a with
  | zero => simp [visitWithin] at h
  | succ limit ih =>
      rw [visitWithin] at h
      by_cases hpath : a ∈ path
      · simp [hpath] at h
      by_cases hdone : a ∈ done
      · simp only [hpath, hdone, if_true, if_false, Except.ok.injEq] at h
        exact h ▸ List.Subset.refl done
      rw [if_neg hpath, if_neg hdone, Py.bind_eq_ok] at h
      obtain ⟨mid, hmid, h⟩ := h
      rw [Py.pure_eq_ok] at h
      have hsub : done ⊆ mid := foldlM_keeps (fun _ _ _ _ hs hx => List.Subset.trans hs (ih hx)) (List.Subset.refl done) hmid
      exact h ▸ List.subset_cons_of_subset a hsub

/-- What is done afterwards was done before or is reached. -/
theorem mem_visitWithin (h : visitWithin cycle next limit path done a = .ok done') :
    ∀ x ∈ done', x ∈ done ∨ Relation.ReflTransGen (Edge next) a x := by
  induction limit generalizing path done done' a with
  | zero => simp [visitWithin] at h
  | succ limit ih =>
      rw [visitWithin] at h
      by_cases hpath : a ∈ path
      · simp [hpath] at h
      by_cases hdone : a ∈ done
      · simp only [hpath, hdone, if_true, if_false, Except.ok.injEq] at h
        exact fun x hx => .inl (h ▸ hx)
      rw [if_neg hpath, if_neg hdone, Py.bind_eq_ok] at h
      obtain ⟨mid, hmid, h⟩ := h
      rw [Py.pure_eq_ok] at h
      subst h
      have hreached : ∀ x ∈ mid, x ∈ done ∨ Relation.ReflTransGen (Edge next) a x := by
        refine foldlM_keeps (I := fun s => ∀ x ∈ s, x ∈ done ∨ Relation.ReflTransGen (Edge next) a x)
          (fun b hb s s' hs hx x hin => ?_) (fun x hx => .inl hx) hmid
        rcases ih hx x hin with hin | hreach
        · exact hs x hin
        · exact .inr (.head hb hreach)
      intro x hx
      rcases List.mem_cons.mp hx with rfl | hx
      · exact .inr .refl
      · exact hreached x hx

/-- The exception for a cycle is only raised where there is one. -/
theorem loops_of_raise {e : ε} (hchain : ∀ y ∈ path, Relation.TransGen (Edge next) y a)
    (h : visitWithin cycle next limit path done a = Py.raise e) : e = cycle ∧ Loops next a := by
  induction limit generalizing path done a with
  | zero => cases h
  | succ limit ih =>
      rw [visitWithin] at h
      by_cases hpath : a ∈ path
      · rw [if_pos hpath] at h
        cases h
        exact ⟨rfl, a, .refl, hchain a hpath⟩
      by_cases hdone : a ∈ done
      · rw [if_neg hpath, if_pos hdone] at h
        cases h
      rw [if_neg hpath, if_neg hdone] at h
      cases hloop : (next a).foldlM (visitWithin cycle next limit (a :: path)) done with
      | ok mid =>
          rw [hloop] at h
          cases h
      | error e' =>
          rw [hloop] at h
          cases h
          obtain ⟨b, hb, s, -, hturn⟩ := exists_turn_error (I := fun _ => True) (fun _ _ _ _ _ _ => trivial) trivial hloop
          have hedge : Edge next a b := hb
          have hbelow : ∀ y ∈ a :: path, Relation.TransGen (Edge next) y b := by
            intro y hy
            rcases List.mem_cons.mp hy with rfl | hy
            · exact .single hedge
            · exact (hchain y hy).tail hedge
          obtain ⟨he, hloops⟩ := ih hbelow hturn
          exact ⟨he, hloops.head hedge⟩

/-- What is raised is the exception for a cycle, or that the limit is met. -/
theorem visitWithin_error {e : Raised ε} (h : visitWithin cycle next limit path done a = .error e) :
    e = .error cycle ∨ e = .fault .recursion := by
  induction limit generalizing path done a with
  | zero =>
      cases h
      exact .inr rfl
  | succ limit ih =>
      rw [visitWithin] at h
      by_cases hpath : a ∈ path
      · rw [if_pos hpath] at h
        cases h
        exact .inl rfl
      by_cases hdone : a ∈ done
      · rw [if_neg hpath, if_pos hdone] at h
        cases h
      rw [if_neg hpath, if_neg hdone] at h
      cases hloop : (next a).foldlM (visitWithin cycle next limit (a :: path)) done with
      | ok mid =>
          rw [hloop] at h
          cases h
      | error e' =>
          rw [hloop] at h
          cases h
          obtain ⟨b, -, s, -, hturn⟩ := exists_turn_error (I := fun _ => True) (fun _ _ _ _ _ _ => trivial) trivial hloop
          exact ih hturn

/-! ### A limit that is never met -/

/-- Where no dive comes to the limit, the limit is not met. -/
theorem visitWithin_ne_recursion {left : Nat} (hshallow : ∀ path a, Dives next seen r path a → path.length < limit)
    (hdives : Dives next seen r path a) (hseen : ∀ x, seen x → x ∈ done) (hleft : left + path.length = limit) :
    visitWithin cycle next left path done a ≠ Py.fault .recursion := by
  induction left generalizing path done a with
  | zero =>
      have hlt := hshallow path a hdives
      omega
  | succ left ih =>
      intro h
      rw [visitWithin] at h
      by_cases hpath : a ∈ path
      · rw [if_pos hpath] at h
        cases h
      by_cases hdone : a ∈ done
      · rw [if_neg hpath, if_pos hdone] at h
        cases h
      rw [if_neg hpath, if_neg hdone] at h
      cases hloop : (next a).foldlM (visitWithin cycle next left (a :: path)) done with
      | ok mid =>
          rw [hloop] at h
          cases h
      | error e' =>
          rw [hloop] at h
          cases h
          -- the turn that met the limit would have been a dive from here
          obtain ⟨b, hb, s, hs, hturn⟩ := exists_turn_error (I := fun s => ∀ x, seen x → x ∈ s)
            (fun _ _ _ _ hs hx x hx' => subset_visitWithin hx (hs x hx')) hseen hloop
          have hunseen : ¬ seen a := fun hin => hdone (hseen a hin)
          refine ih (.call hdives hpath hunseen hb) hs ?_ hturn
          simp only [List.length_cons]
          omega

/-- The nodes that are done, after all have been visited in turn. -/
def visitedWithin (limit : Nat) (cycle : ε) (next : α → List α) (nodes : List α) : Py ε (List α) :=
  nodes.foldlM (visitWithin cycle next limit []) []

/-- The loop over the nodes behind `front`, which lead to no cycle and are done with all they reach. -/
theorem foldlM_exact (cycle : ε) {rest : List α} (hshallow : ¬ TooDeep limit next (front ++ rest))
    (hfront : ∀ x ∈ front, ¬ Loops next x) (hs : Settled next done) (hin : ∀ x, Reached next front x → x ∈ done) :
    (rest.foldlM (visitWithin cycle next limit []) done = Py.raise cycle ∧ ∃ a ∈ rest, Loops next a) ∨
      ((∀ a ∈ rest, ¬ Loops next a) ∧ ∃ done', rest.foldlM (visitWithin cycle next limit []) done = .ok done' ∧
        done ⊆ done' ∧ ∀ a ∈ rest, a ∈ done') := by
  induction rest generalizing front done with
  | nil => exact .inr ⟨fun _ ha => (nomatch ha), done, rfl, List.Subset.refl done, fun _ ha => nomatch ha⟩
  | cons r rest ih =>
      rw [List.foldlM_cons]
      have hdeep : ∀ path a, Dives next (Reached next front) r path a → path.length < limit := by
        intro path a hdives
        rw [← not_le]
        exact fun hle => hshallow ⟨front, r, rest, path, a, rfl, hfront, hdives, hle⟩
      cases hr : visitWithin cycle next limit [] done r with
      | error e =>
          rcases visitWithin_error hr with rfl | rfl
          · exact .inl ⟨rfl, r, List.mem_cons_self, (loops_of_raise (List.forall_mem_nil _) hr).2⟩
          · exact absurd hr (visitWithin_ne_recursion hdeep .root hin rfl)
      | ok mid =>
          obtain ⟨hext, hmem⟩ := visit_extends hs (List.forall_mem_nil _) (visit_of_visitWithin le_rfl hr)
          have hloops : ¬ Loops next r := hext.settled.not_loops hmem
          have hfront' : ∀ x ∈ front ++ [r], ¬ Loops next x := by
            intro x hx
            rcases List.mem_append.mp hx with hx | hx
            · exact hfront x hx
            · exact List.mem_singleton.mp hx ▸ hloops
          have hin' : ∀ x, Reached next (front ++ [r]) x → x ∈ mid := by
            intro x ⟨y, hy, hreach⟩
            rcases List.mem_append.mp hy with hy | hy
            · exact hext.subset x (hin x ⟨y, hy, hreach⟩)
            · rw [List.mem_singleton.mp hy] at hreach
              exact hext.settled.reaches hmem hreach
          have hshallow' : ¬ TooDeep limit next ((front ++ [r]) ++ rest) := by
            rwa [List.append_assoc, List.singleton_append]
          rcases ih hshallow' hfront' hext.settled hin' with ⟨hraise, x, hx, hx'⟩ | ⟨hnone, done', hdone', hsub, hall⟩
          · exact .inl ⟨hraise, x, List.mem_cons_of_mem r hx, hx'⟩
          · refine .inr ⟨?_, done', hdone', fun x hx => hsub (hext.subset x hx), ?_⟩
            · exact List.forall_mem_cons.mpr ⟨hloops, hnone⟩
            · exact List.forall_mem_cons.mpr ⟨hsub hmem, hall⟩

theorem exact_of_shallow (h : ¬ TooDeep limit next nodes) : Exact cycle next nodes (visitedWithin limit cycle next nodes) := by
  have hnone : ∀ x, Reached next [] x → x ∈ ([] : List α) := fun x ⟨_, hy, _⟩ => nomatch hy
  have hstart : Settled next ([] : List α) := trivial
  have hloop := foldlM_exact cycle h (List.forall_mem_nil _) hstart hnone
  unfold visitedWithin
  rcases hloop with ⟨hraise, hloops⟩ | ⟨hnone, done, hdone, -, hall⟩
  · exact ⟨iff_of_true hraise hloops, fun hno => absurd hloops hno⟩
  · have hno : ¬ ∃ a ∈ nodes, Loops next a := fun ⟨a, ha, hloops⟩ => hnone a ha hloops
    rw [hdone]
    exact ⟨iff_of_false (fun hraise => by cases hraise) hno, fun _ => ⟨done, rfl, hall⟩⟩

/-! ### A dive below the limit -/

/-- In some order of the nodes pointed to, the search follows the dive. -/
theorem Dives.follow (cycle : ε) (h : Dives next seen r path a) : ∃ order, Enumerates next order ∧
    ∀ order', (∀ x ∈ path, order' x = order x) → ∀ left done, (∀ x ∈ done, seen x) →
      visitWithin cycle order' left path done a = Py.fault .recursion →
        visitWithin cycle order' (left + path.length) [] done r = Py.fault .recursion := by
  induction h with
  | root => exact ⟨fun x => (next x).dedup, fun x => ⟨List.nodup_dedup _, fun _ => List.mem_dedup⟩,
      fun _ _ _ _ _ hfault => hfault⟩
  | @call path a b outer hpath hseen hedge ih =>
      obtain ⟨order, horder, hfollow⟩ := ih
      refine ⟨Function.update order a (b :: (order a).erase b), fun x => ?_, fun order' hagree left done hdone hfault => ?_⟩
      · by_cases hx : x = a
        · obtain ⟨hnodup, hmem⟩ := horder a
          have hfront : (b :: (order a).erase b).Perm (order a) := (List.perm_cons_erase ((hmem b).mpr hedge)).symm
          rw [hx, Function.update_self]
          exact ⟨hfront.nodup_iff.mpr hnodup, fun c => hfront.mem_iff.trans (hmem c)⟩
        · rw [Function.update_of_ne hx]
          exact horder x
      · have hfirst : order' a = b :: (order a).erase b := by
          rw [hagree a List.mem_cons_self, Function.update_self]
        have hunder : ∀ x ∈ path, order' x = order x := by
          intro x hx
          have hne : x ≠ a := fun heq => hpath (heq ▸ hx)
          rw [hagree x (List.mem_cons_of_mem a hx), Function.update_of_ne hne]
        have hvisit : visitWithin cycle order' (left + 1) path done a = Py.fault .recursion := by
          have hundone : a ∉ done := fun hin => hseen (hdone a hin)
          rw [visitWithin, if_neg hpath, if_neg hundone, hfirst, List.foldlM_cons, hfault]
          rfl
        have hlength : left + (a :: path).length = left + 1 + path.length := by
          rw [List.length_cons]
          omega
        rw [hlength]
        exact hfollow order' hunder (left + 1) done hdone hvisit

/-- A search that may dive below the limit meets it in some order. -/
theorem fault_of_tooDeep (cycle : ε) (h : TooDeep limit next nodes) :
    ∃ order, Enumerates next order ∧ visitedWithin limit cycle order nodes = Py.fault .recursion := by
  obtain ⟨front, r, rest, path, a, rfl, hfront, hdives, hle⟩ := h
  obtain ⟨path, a, hdives, rfl⟩ := hdives.cut hle
  obtain ⟨order, horder, hfollow⟩ := hdives.follow cycle
  refine ⟨order, horder, ?_⟩
  unfold visitedWithin
  rw [List.foldlM_append]
  have hreached : ∀ x ∈ front, ∀ s s', (∀ y ∈ s, Reached next front y) →
      visitWithin cycle order path.length [] s x = .ok s' → ∀ y ∈ s', Reached next front y := by
    intro x hx s s' hs hvisit y hy
    rcases mem_visitWithin hvisit y hy with hy | hreach
    · exact hs y hy
    · exact ⟨x, hx, edge_enumerates horder ▸ hreach⟩
  have hnone : ∀ y ∈ ([] : List α), Reached next front y := fun _ hy => nomatch hy
  cases hrun : front.foldlM (visitWithin cycle order path.length []) [] with
  | error e =>
      obtain ⟨x, hx, s, -, hturn⟩ := exists_turn_error hreached hnone hrun
      rcases visitWithin_error hturn with rfl | rfl
      · have hloops := (loops_of_raise (List.forall_mem_nil _) hturn).2
        exact absurd (loops_enumerates horder ▸ hloops) (hfront x hx)
      · rfl
  | ok done =>
      have hdone := foldlM_keeps hreached hnone hrun
      have hbottom : visitWithin cycle order 0 path done a = Py.fault .recursion := rfl
      have hfault := hfollow order (fun _ _ => rfl) 0 done hdone hbottom
      rw [Nat.zero_add] at hfault
      rw [Py.ok_bind, List.foldlM_cons, hfault]
      rfl

/-- The verdict is right in every order exactly if no dive comes to the limit. -/
theorem exact_iff : (∀ order, Enumerates next order → Exact cycle next nodes (visitedWithin limit cycle order nodes)) ↔
    ¬ TooDeep limit next nodes := by
  constructor
  · intro hexact hdeep
    obtain ⟨order, horder, hfault⟩ := fault_of_tooDeep cycle hdeep
    exact (hexact order horder).ne_fault hfault
  · intro hshallow order horder
    exact (exact_of_shallow fun hdeep => hshallow (tooDeep_enumerates horder hdeep)).enumerates horder

end ProxyGateway.Search
