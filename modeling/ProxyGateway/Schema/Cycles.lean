import ProxyGateway.Lib.Dive
import ProxyGateway.Schema.Agreement
import ProxyGateway.Schema.Faults

set_option autoImplicit false

/-!
# ProxyGateway.Schema.Cycles

The search for a cycle of policy groups: `visit` of `validate`, and its two copies in the
importer. A set is gone through in any order, and the interpreter allows a limited number of
nested calls.

The verdict of all three is right in every order exactly if the groups are not nested too deeply
(`cycle_search_exact_iff`).
-/

namespace ProxyGateway.Schema

open Search

/-! ### The searches -/

/-- `graph` of the importer. -/
def memberGraph (groups : List GroupPart) : Dict String (List String) :=
  groups.map fun g => (g.name, g.proxies.filter (fun item => item ∈ groups.map GroupPart.name))

/-- `graph.get(name, set())` -/
def membersIn (graph : Dict String (List String)) (name : String) : List String := (graph.get? name).getD []

/-- The loop of `validate`: `visited`, where the members of a group come in this order. -/
def validateVisit (limit : Nat) (order : String → List String) (groups : List GroupPart) : Py ModelError (List String) :=
  visitedWithin limit dependencyCycle order (groups.map GroupPart.name)

/-- The message of the importer. -/
def groupCycle : String := "proxy groups contain a dependency cycle"

/-- The loop of `_validate_native_mihomo_metadata`. -/
def nativeVisit (limit : Nat) (order : String → List String) (groups : List GroupPart) : Py String (List String) :=
  visitedWithin limit groupCycle order (memberGraph groups).keys

/-- The loop of `mihomo_to_model`. -/
def mihomoVisit (limit : Nat) (order : String → List String) (groups : List GroupPart) : Py String (List String) :=
  visitedWithin limit groupCycle order (memberGraph groups).keys

theorem visitAllWithin_eq {limit : Nat} {order : String → List String} {groups : List GroupPart} :
    visitAllWithin limit dependencyCycle order (groups.map GroupPart.name) = discard (validateVisit limit order groups) :=
  rfl

/-! ### What is right -/

/-- Some group is a member of itself, directly or through others. -/
def HasCycle (groups : List GroupPart) : Prop := ∃ name, Relation.TransGen (Edge (groupGraph groups)) name name

/-- The verdict is the exception exactly if there is a cycle; without one all groups are visited. -/
structure ExactVerdict {ε : Type} (groups : List GroupPart) (cycle : ε) (result : Py ε (List String)) : Prop where
  raises : result = Py.raise cycle ↔ HasCycle groups
  returns : ¬ HasCycle groups → ∃ visited, result = .ok visited ∧ ∀ g ∈ groups, g.name ∈ visited

/-- The three searches are right, in whatever order each goes through the sets. -/
structure SearchesExact (limit : Nat) (groups : List GroupPart) : Prop where
  validate : ∀ order, Enumerates (groupGraph groups) order →
    ExactVerdict groups dependencyCycle (validateVisit limit order groups)
  native : ∀ order, Enumerates (membersIn (memberGraph groups)) order →
    ExactVerdict groups groupCycle (nativeVisit limit order groups)
  mihomo : ∀ order, Enumerates (membersIn (memberGraph groups)) order →
    ExactVerdict groups groupCycle (mihomoVisit limit order groups)

variable {ε : Type} {cycle : ε} {limit : Nat} {groups : List GroupPart} {result : Py ε (List String)}

theorem mem_names_of_edge {a b : String} (h : Edge (groupGraph groups) a b) : a ∈ groups.map GroupPart.name := by
  unfold Edge groupGraph at h
  split at h
  next part hfind =>
    have hname := List.find?_some hfind
    rw [decide_eq_true_eq] at hname
    exact hname ▸ List.mem_map_of_mem (List.mem_of_find?_eq_some hfind)
  · exact nomatch h

theorem hasCycle_iff : HasCycle groups ↔ ∃ a ∈ groups.map GroupPart.name, Loops (groupGraph groups) a := by
  constructor
  · intro ⟨name, hcycle⟩
    obtain ⟨_, hedge, -⟩ := Relation.TransGen.head'_iff.mp hcycle
    exact ⟨name, mem_names_of_edge hedge, name, .refl, hcycle⟩
  · intro ⟨_, _, name, _, hcycle⟩
    exact ⟨name, hcycle⟩

theorem exactVerdict_iff :
    ExactVerdict groups cycle result ↔ Exact cycle (groupGraph groups) (groups.map GroupPart.name) result := by
  constructor
  · intro h
    refine ⟨h.raises.trans hasCycle_iff, fun hnone => ?_⟩
    obtain ⟨visited, hvisited, hall⟩ := h.returns (mt hasCycle_iff.mp hnone)
    exact ⟨visited, hvisited, List.forall_mem_map.mpr hall⟩
  · intro h
    refine ⟨h.raises.trans hasCycle_iff.symm, fun hnone => ?_⟩
    obtain ⟨visited, hvisited, hall⟩ := h.returns (mt hasCycle_iff.mpr hnone)
    exact ⟨visited, hvisited, List.forall_mem_map.mp hall⟩

/-- The importer goes through the same graph. -/
theorem membersIn_memberGraph : membersIn (memberGraph groups) = groupGraph groups :=
  funext fun name => groupGraph_eq groups name

theorem keys_memberGraph : (memberGraph groups).keys = groups.map GroupPart.name := by
  rw [memberGraph, Dict.keys, List.map_map]
  rfl

/-- The verdict of a search is right in every order exactly if no dive comes to the limit. -/
theorem exact_in_every_order (cycle : ε) :
    (∀ order, Enumerates (groupGraph groups) order →
      ExactVerdict groups cycle (visitedWithin limit cycle order (groups.map GroupPart.name))) ↔
      ¬ TooDeep limit (groupGraph groups) (groups.map GroupPart.name) := by
  simp only [exactVerdict_iff]
  exact exact_iff

theorem searchesExact_of_shallow (h : ¬ TooDeep limit (groupGraph groups) (groups.map GroupPart.name)) :
    SearchesExact limit groups := by
  have himporter : ∀ order, Enumerates (membersIn (memberGraph groups)) order →
      ExactVerdict groups groupCycle (visitedWithin limit groupCycle order (memberGraph groups).keys) := by
    rw [membersIn_memberGraph, keys_memberGraph]
    exact (exact_in_every_order groupCycle).mpr h
  exact ⟨(exact_in_every_order dependencyCycle).mpr h, himporter, himporter⟩

/-- With fewer groups than nested calls the verdicts are always right. -/
theorem searchesExact_of_few (h : groups.length < limit) : SearchesExact limit groups :=
  searchesExact_of_shallow (not_tooDeep_of_length (groupGraph_closed groups) (by rwa [List.length_map]))

/-- The three searches are right in every order exactly if none can be nested more than `limit`
calls deep: from no group in turn, up to the first that leads to a cycle, does a chain of `limit`
different groups that no group before it leads to go on to another member. -/
theorem cycle_search_exact_iff (limit : Nat) (groups : List GroupPart) :
    SearchesExact limit groups ↔ ¬ TooDeep limit (groupGraph groups) (groups.map GroupPart.name) :=
  ⟨fun h => (exact_in_every_order dependencyCycle).mp h.validate, searchesExact_of_shallow⟩

/-! ### A chain of groups -/

/-- The name of a group of the chain. -/
def chainName (n : Nat) : String := String.ofList (List.replicate (n + 1) 'g')

/-- A chain of `n + 1` groups, each with the next as its only member. -/
def chain : Nat → List GroupPart
  | 0 => [⟨chainName 0, ["JP"], []⟩]
  | n + 1 => ⟨chainName (n + 1), [chainName n], []⟩ :: chain n

theorem chainName_inj {m n : Nat} : chainName m = chainName n ↔ m = n := by
  constructor
  · intro h
    have hlength := congrArg List.length (String.ofList_injective h)
    rw [List.length_replicate, List.length_replicate] at hlength
    omega
  · exact congrArg chainName

theorem mem_chain {k n : Nat} (h : k ≤ n) : chainName k ∈ (chain n).map GroupPart.name := by
  induction n with
  | zero =>
      obtain rfl := Nat.le_zero.mp h
      exact List.mem_singleton_self _
  | succ n ih =>
      rw [chain, List.map_cons, List.mem_cons]
      by_cases hk : k = n + 1
      · exact .inl (congrArg chainName hk)
      · exact .inr (ih (by omega))

theorem find?_chain {k n : Nat} (h : k < n) :
    (chain n).find? (·.name = chainName (k + 1)) = some ⟨chainName (k + 1), [chainName k], []⟩ := by
  induction n with
  | zero => omega
  | succ n ih =>
      rw [chain]
      by_cases hk : k = n
      · subst hk
        exact List.find?_cons_of_pos (by simp)
      · have hother : ¬ chainName (n + 1) = chainName (k + 1) := by
          rw [chainName_inj]
          omega
        rw [List.find?_cons_of_neg (by simpa using hother)]
        exact ih (by omega)

theorem edge_chain {k n : Nat} (h : k < n) : Edge (groupGraph (chain n)) (chainName (k + 1)) (chainName k) := by
  unfold Edge groupGraph
  rw [find?_chain h]
  exact List.mem_filter.mpr ⟨List.mem_singleton_self _, decide_eq_true (mem_chain (Nat.le_of_lt h))⟩

/-- The search goes down the chain, group by group. -/
theorem dives_chain {seen : String → Prop} (hseen : ∀ name, ¬ seen name) {j n : Nat} (h : j ≤ n) : ∃ path,
    Dives (groupGraph (chain n)) seen (chainName n) path (chainName (n - j)) ∧ path.length = j ∧
      ∀ name ∈ path, ∃ i, n - j < i ∧ name = chainName i := by
  induction j with
  | zero => exact ⟨[], .root, rfl, List.forall_mem_nil _⟩
  | succ j ih =>
      obtain ⟨path, hdives, hlength, hpath⟩ := ih (by omega)
      have hstep : n - j = n - (j + 1) + 1 := by omega
      have hfresh : chainName (n - j) ∉ path := by
        intro hin
        obtain ⟨i, hi, heq⟩ := hpath _ hin
        have hsame := chainName_inj.mp heq
        omega
      have hedge : Edge (groupGraph (chain n)) (chainName (n - j)) (chainName (n - (j + 1))) := by
        rw [hstep]
        exact edge_chain (by omega)
      refine ⟨_, .call hdives hfresh (hseen _) hedge, by rw [List.length_cons, hlength], ?_⟩
      intro name hname
      rcases List.mem_cons.mp hname with rfl | hname
      · exact ⟨n - j, by omega, rfl⟩
      · obtain ⟨i, hi, heq⟩ := hpath name hname
        exact ⟨i, by omega, heq⟩

/-- A chain of one group more than the limit is too deep. -/
theorem tooDeep_chain (n : Nat) : TooDeep n (groupGraph (chain n)) ((chain n).map GroupPart.name) := by
  have hseen : ∀ name, ¬ Reached (groupGraph (chain n)) [] name := fun _ ⟨_, hmem, _⟩ => nomatch hmem
  obtain ⟨path, hdives, hlength, -⟩ := dives_chain hseen (Nat.le_refl n)
  have hroot : ∃ rest, (chain n).map GroupPart.name = chainName n :: rest := by
    cases n with
    | zero => exact ⟨[], rfl⟩
    | succ n => exact ⟨_, rfl⟩
  obtain ⟨rest, hrest⟩ := hroot
  exact ⟨[], _, rest, path, _, hrest, List.forall_mem_nil _, hdives, hlength.ge⟩

/-- A chain of 1001 groups, in an interpreter that allows 1000 nested calls. -/
theorem long_chain_not_exact : ¬ SearchesExact 1000 (chain 1000) := by
  intro h
  obtain ⟨order, horder, hfault⟩ := fault_of_tooDeep dependencyCycle (tooDeep_chain 1000)
  exact (exactVerdict_iff.mp (h.validate order horder)).ne_fault hfault

end ProxyGateway.Schema
