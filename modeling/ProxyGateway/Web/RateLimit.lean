import Mathlib.Algebra.Order.Ring.Rat
import Mathlib.Data.List.MinMax
import ProxyGateway.Lib.Dict
import ProxyGateway.Lib.Window

set_option autoImplicit false

/-!
# ProxyGateway.Web.RateLimit

`SecurityState` of the web service as far as it limits rates: the times of requests and of failed
logins, in total and for each address, and the logins that are being verified. Each function is one
section under `_lock`, and `now` is the reading of the clock. The functions that look for the
oldest history are not called with an empty one (`Histories.filled`).
-/

namespace ProxyGateway.Web

open Window

/-! ### Constants -/

/-- `GLOBAL_RATE_WINDOW` -/
def globalRateWindow : ℚ := 60

/-- `GLOBAL_RATE_REQUESTS` -/
def globalRateRequests : Nat := 240

/-- `GLOBAL_ALL_RATE_REQUESTS` -/
def globalAllRateRequests : Nat := 2000

/-- `LOGIN_RATE_WINDOW` -/
def loginRateWindow : ℚ := 15 * 60

/-- `LOGIN_RATE_ATTEMPTS` -/
def loginRateAttempts : Nat := 5

/-- `LOGIN_ALL_RATE_ATTEMPTS` -/
def loginAllRateAttempts : Nat := 30

/-- `RATE_MAP_LIMIT` -/
def rateMapLimit : Nat := 1024

/-! ### The state -/

/-- The times of each address. -/
abbrev RateMap := Dict String (List ℚ)

structure SecurityState where
  global : RateMap
  logins : RateMap
  allRequests : List ℚ
  allLoginFailures : List ℚ
  pendingLogins : Dict String Nat
  pendingLoginTotal : Int
  deriving DecidableEq

/-- The state that `__init__` leaves. -/
def SecurityState.start : SecurityState := ⟨[], [], [], [], [], 0⟩

/-- `mapping[key][-1]` -/
def latest (mapping : RateMap) (key : String) : ℚ := ((mapping.get? key).bind List.getLast?).getD 0

/-- The times behind `cutoff`, if there are any. -/
def remaining (cutoff : ℚ) (queue : List ℚ) : Option (List ℚ) :=
  if prune queue cutoff = [] then none else some (prune queue cutoff)

/-- `_prune_map` -/
def pruneMap (mapping : RateMap) (cutoff : ℚ) : RateMap :=
  let left : RateMap := mapping.filterMap fun entry => (remaining cutoff entry.2).map fun queue => (entry.1, queue)
  if left.length > rateMapLimit then
    let byAge := left.keys.mergeSort (fun a b => latest left a ≤ latest left b)
    (byAge.take (left.length - rateMapLimit)).foldl Dict.erase left
  else left

/-- The address whose history makes room for `ip`. -/
def evicted (mapping : RateMap) (ip : String) : Option String :=
  if mapping.contains ip = false ∧ mapping.length ≥ rateMapLimit then mapping.keys.argmin (latest mapping) else none

/-- Make room for `ip`. -/
def makeRoom (mapping : RateMap) (ip : String) : RateMap :=
  match evicted mapping ip with
  | some oldest => mapping.erase oldest
  | none => mapping

/-- `mapping[ip]` of a `defaultdict(deque)`. -/
def queueOf (mapping : RateMap) (ip : String) : List ℚ := (mapping.get? ip).getD []

namespace SecurityState

/-- `global_rate_allowed` -/
def globalRateAllowed (s : SecurityState) (ip : String) (now : ℚ) : Bool × SecurityState :=
  let allRequests := prune s.allRequests (now - globalRateWindow)
  let global := pruneMap s.global (now - globalRateWindow)
  if allRequests.length ≥ globalAllRateRequests then (false, { s with allRequests, global })
  else
    let global := makeRoom global ip
    let queue := queueOf global ip
    if queue.length ≥ globalRateRequests then (false, { s with allRequests, global := global.set ip queue })
    else (true, { s with allRequests := allRequests ++ [now], global := global.set ip (queue ++ [now]) })

/-- The two lines that drop old failures. -/
def pruneLogins (s : SecurityState) (now : ℚ) : SecurityState :=
  { s with
    allLoginFailures := prune s.allLoginFailures (now - loginRateWindow)
    logins := pruneMap s.logins (now - loginRateWindow) }

/-- `reserve_login_attempt` -/
def reserveLoginAttempt (s : SecurityState) (ip : String) (now : ℚ) : Bool × SecurityState :=
  let s := s.pruneLogins now
  let pending := (s.pendingLogins.get? ip).getD 0
  if s.allLoginFailures.length + s.pendingLoginTotal ≥ loginAllRateAttempts then (false, s)
  else if (queueOf s.logins ip).length + pending ≥ loginRateAttempts then (false, s)
  else (true, { s with
    pendingLogins := s.pendingLogins.set ip (pending + 1)
    pendingLoginTotal := s.pendingLoginTotal + 1 })

/-- `_record_login_failure_locked` -/
def recordLoginFailureLocked (s : SecurityState) (ip : String) (now : ℚ) : SecurityState :=
  let s := s.pruneLogins now
  let logins := makeRoom s.logins ip
  { s with
    logins := logins.set ip (queueOf logins ip ++ [now])
    allLoginFailures := s.allLoginFailures ++ [now] }

/-- The release of one reservation. -/
def release (s : SecurityState) (ip : String) : SecurityState :=
  match (s.pendingLogins.get? ip).getD 0 with
  | 0 => s
  | 1 => { s with pendingLogins := s.pendingLogins.erase ip, pendingLoginTotal := s.pendingLoginTotal - 1 }
  | pending => { s with
      pendingLogins := s.pendingLogins.set ip (pending - 1)
      pendingLoginTotal := s.pendingLoginTotal - 1 }

/-- `finish_login_attempt` -/
def finishLoginAttempt (s : SecurityState) (ip : String) (failed : Bool) (now : ℚ) : SecurityState :=
  let s := s.release ip
  if failed then s.recordLoginFailureLocked ip now else s

/-- `clear_login_failures` -/
def clearLoginFailures (s : SecurityState) (ip : String) : SecurityState := { s with logins := s.logins.erase ip }

/-- A release changes the counters only. -/
theorem release_eq (s : SecurityState) (ip : String) : s.release ip =
    { s with
      pendingLogins := (s.release ip).pendingLogins
      pendingLoginTotal := (s.release ip).pendingLoginTotal } := by
  unfold release
  split <;> rfl

end SecurityState

/-! ### The histories of the addresses -/

/-- The map holds the end of the times of each address, as of the last look at it. -/
structure Histories (width last : ℚ) (mapping : RateMap) (times : String → List ℚ) : Prop where
  uniq : mapping.Uniq
  size : mapping.length ≤ rateMapLimit
  kept : ∀ ip, Kept width last (queueOf mapping ip) (times ip)
  filled : ∀ ip queue, mapping.get? ip = some queue → queue ≠ []

variable {width last now : ℚ} {mapping : RateMap} {times : String → List ℚ} {ip key : String}

theorem histories_nil (width last : ℚ) : Histories width last [] (fun _ => []) :=
  ⟨List.nodup_nil, Nat.zero_le _, fun _ => kept_nil width last, fun _ _ h => nomatch h⟩

theorem queueOf_set (queue : List ℚ) (key : String) :
    queueOf (mapping.set ip queue) key = if key = ip then queue else queueOf mapping key := by
  rw [queueOf, Dict.get?_set]
  by_cases h : key = ip
  · simp [h]
  · simp [h, Ne.symm h, queueOf]

theorem queueOf_erase (ip key : String) :
    queueOf (mapping.erase ip) key = if key = ip then [] else queueOf mapping key := by
  rw [queueOf]
  by_cases h : key = ip
  · rw [h, Dict.get?_erase_self, if_pos rfl]
    rfl
  · rw [Dict.get?_erase_ne (Ne.symm h), if_neg h, queueOf]

theorem pruneMap_of_size (hsize : mapping.length ≤ rateMapLimit) (cutoff : ℚ) :
    pruneMap mapping cutoff =
      mapping.filterMap fun entry => (remaining cutoff entry.2).map fun queue => (entry.1, queue) :=
  if_neg (not_lt.mpr ((List.length_filterMap_le _ mapping).trans hsize))

theorem Histories.get?_pruneMap (h : Histories width last mapping times) (cutoff : ℚ) (ip : String) :
    (pruneMap mapping cutoff).get? ip = (mapping.get? ip).bind (remaining cutoff) := by
  rw [pruneMap_of_size h.size]
  exact h.uniq.get?_filterMap (fun _ => remaining cutoff) ip

theorem Histories.queueOf_pruneMap (h : Histories width last mapping times) (cutoff : ℚ) (ip : String) :
    queueOf (pruneMap mapping cutoff) ip = prune (queueOf mapping ip) cutoff := by
  rw [queueOf, queueOf, h.get?_pruneMap]
  cases mapping.get? ip with
  | none => rfl
  | some queue =>
      by_cases hempty : prune queue cutoff = []
      · simp [remaining, hempty]
      · simp [remaining, hempty]

theorem Histories.later (h : Histories width last mapping times) (hle : last ≤ now) : Histories width now mapping times :=
  ⟨h.uniq, h.size, fun ip => (h.kept ip).later hle, h.filled⟩

/-- A look at the map. -/
theorem Histories.pruned (h : Histories width last mapping times) (hle : last ≤ now) :
    Histories width now (pruneMap mapping (now - width)) times := by
  refine ⟨?_, ?_, fun ip => ?_, fun ip queue hqueue => ?_⟩
  · rw [pruneMap_of_size h.size]
    exact h.uniq.filterMap fun _ => remaining (now - width)
  · rw [pruneMap_of_size h.size]
    exact (List.length_filterMap_le _ _).trans h.size
  · rw [h.queueOf_pruneMap]
    exact (h.kept ip).pruned hle
  · rw [h.get?_pruneMap] at hqueue
    obtain ⟨old, -, hqueue⟩ := Option.bind_eq_some_iff.mp hqueue
    unfold remaining at hqueue
    split at hqueue
    · cases hqueue
    next hne =>
      cases hqueue
      exact hne

/-- Right after a look at the map, it holds the windows that end now. -/
theorem Histories.queueOf_eq (h : Histories width last mapping times) (hle : last ≤ now) (ip : String) :
    queueOf (pruneMap mapping (now - width)) ip = within width now (times ip) := by
  rw [h.queueOf_pruneMap, (h.kept ip).prune_eq hle]

theorem Histories.mem_keys_iff (h : Histories width last mapping times) : ip ∈ mapping.keys ↔ queueOf mapping ip ≠ [] := by
  rw [← Dict.get?_isSome_iff, queueOf]
  cases hget : mapping.get? ip with
  | none => simp
  | some queue => simpa using h.filled ip queue hget

theorem latest_eq (mapping : RateMap) (ip : String) : latest mapping ip = (queueOf mapping ip).getLast?.getD 0 := by
  rw [latest, queueOf]
  cases mapping.get? ip <;> rfl

theorem Histories.erase (h : Histories width last mapping times) (key : String) :
    Histories width last (mapping.erase key) (Function.update times key []) := by
  refine ⟨h.uniq.erase key, (List.length_filter_le _ _).trans h.size, fun ip => ?_, fun ip queue hqueue => ?_⟩
  · rw [queueOf_erase]
    by_cases hip : ip = key
    · rw [hip, if_pos rfl, Function.update_self]
      exact kept_nil width last
    · rw [if_neg hip, Function.update_of_ne hip]
      exact h.kept ip
  · by_cases hip : ip = key
    · rw [hip, Dict.get?_erase_self] at hqueue
      cases hqueue
    · rw [Dict.get?_erase_ne (Ne.symm hip)] at hqueue
      exact h.filled ip queue hqueue

/-- One more time of an address that is in the map, or for which there is room. -/
theorem Histories.append (h : Histories width now mapping times) (hroom : ip ∈ mapping.keys ∨ mapping.length < rateMapLimit) :
    Histories width now (mapping.set ip (queueOf mapping ip ++ [now])) (Function.update times ip (times ip ++ [now])) := by
  refine ⟨h.uniq.set _ _, ?_, fun key => ?_, fun key queue hqueue => ?_⟩
  · have hlength : ∀ m : RateMap, m.length = m.keys.length := fun m => (List.length_map _).symm
    rw [hlength, Dict.keys_set]
    split
    · rw [← hlength]
      exact h.size
    next hnew =>
      have hfew := hroom.resolve_left hnew
      rw [List.length_append, ← hlength]
      exact hfew
  · rw [queueOf_set]
    by_cases hkey : key = ip
    · rw [hkey, if_pos rfl, Function.update_self]
      exact (h.kept ip).concat
    · rw [if_neg hkey, Function.update_of_ne hkey]
      exact h.kept key
  · by_cases hkey : key = ip
    · rw [hkey, Dict.get?_set_self] at hqueue
      cases hqueue
      exact List.append_ne_nil_of_right_ne_nil _ (List.cons_ne_nil _ _)
    · rw [Dict.get?_set_ne (Ne.symm hkey)] at hqueue
      exact h.filled key queue hqueue

/-! ### Making room -/

theorem evicted_mem (h : evicted mapping ip = some key) : key ∈ mapping.keys := by
  unfold evicted at h
  split at h
  · exact List.argmin_mem h
  · cases h

theorem evicted_ne (h : evicted mapping ip = some key) : key ≠ ip := by
  intro heq
  have hmem := evicted_mem h
  unfold evicted at h
  split at h
  next hfull =>
    have hin : mapping.contains ip = true := Dict.get?_isSome_iff.mpr (heq ▸ hmem)
    rw [hfull.1] at hin
    cases hin
  · cases h

/-- No room is made where there is room. -/
theorem makeRoom_of_room (h : mapping.length < rateMapLimit) (ip : String) : makeRoom mapping ip = mapping := by
  have hnone : evicted mapping ip = none := if_neg fun hfull => absurd hfull.2 (not_le.mpr h)
  rw [makeRoom, hnone]

/-- Room is made where it is needed. -/
theorem makeRoom_room (mapping : RateMap) (ip : String) (hsize : mapping.length ≤ rateMapLimit) :
    ip ∈ (makeRoom mapping ip).keys ∨ (makeRoom mapping ip).length < rateMapLimit := by
  unfold makeRoom
  cases hevicted : evicted mapping ip with
  | some oldest =>
      -- the entry that goes leaves room for one
      obtain ⟨entry, hentry, hkey⟩ := List.mem_map.mp (evicted_mem hevicted)
      have hshorter : (mapping.erase oldest).length < mapping.length := by
        refine List.length_filter_lt_length_iff_exists.mpr ⟨entry, hentry, ?_⟩
        simp [hkey]
      exact .inr (hshorter.trans_le hsize)
  | none =>
      unfold evicted at hevicted
      split at hevicted
      next hfull =>
        have hempty : mapping.keys = [] := List.argmin_eq_none.mp hevicted
        rw [List.map_eq_nil_iff.mp hempty] at hfull
        exact absurd hfull.2 (by decide)
      next hroom =>
        by_cases hin : mapping.contains ip = true
        · exact .inl (Dict.get?_isSome_iff.mp hin)
        · exact .inr (not_le.mp fun hfull => hroom ⟨Bool.eq_false_iff.mpr hin, hfull⟩)

/-- The times of all addresses, when the history of one of them may have been dropped. -/
def without (times : String → List ℚ) : Option String → String → List ℚ
  | none => times
  | some key => Function.update times key []

theorem Histories.makeRoom (h : Histories width last mapping times) (ip : String) :
    Histories width last (makeRoom mapping ip) (without times (evicted mapping ip)) := by
  unfold Web.makeRoom
  cases evicted mapping ip with
  | none => exact h
  | some key => exact h.erase key

/-- It is not the address itself that makes room. -/
theorem without_evicted (times : String → List ℚ) (mapping : RateMap) (ip : String) :
    without times (evicted mapping ip) ip = times ip := by
  cases hevicted : evicted mapping ip with
  | none => rfl
  | some key => exact Function.update_of_ne (evicted_ne hevicted).symm _ _

theorem queueOf_makeRoom (mapping : RateMap) (ip : String) : queueOf (makeRoom mapping ip) ip = queueOf mapping ip := by
  unfold makeRoom
  cases hevicted : evicted mapping ip with
  | none => rfl
  | some key =>
      have hne : ip ≠ key := (evicted_ne hevicted).symm
      show queueOf (mapping.erase key) ip = queueOf mapping ip
      rw [queueOf_erase, if_neg hne]

end ProxyGateway.Web
