import Mathlib.Data.List.Pairwise
import Mathlib.Tactic.NormNum
import ProxyGateway.Web.RateLimit

set_option autoImplicit false

/-!
# ProxyGateway.Web.Requests

The limits of requests, over every sequence of calls of `global_rate_allowed` with readings of the
clock that do not go back.

The total is bounded in every window. So is what one address is allowed, since its history was last
dropped: a call of an address without a history makes room by dropping the history whose last
request is the oldest, when `RATE_MAP_LIMIT` addresses have one (`request_limits`).
-/

namespace ProxyGateway.Web

open Window

/-! ### Runs -/

/-- What a call did. -/
structure Outcome where
  ip : String
  now : ℚ
  allowed : Bool
  dropped : Option String
  deriving DecidableEq

/-- The address whose history a call drops. -/
def SecurityState.drops (s : SecurityState) (ip : String) (now : ℚ) : Option String :=
  if (prune s.allRequests (now - globalRateWindow)).length ≥ globalAllRateRequests then none
  else evicted (pruneMap s.global (now - globalRateWindow)) ip

/-- One call. -/
def SecurityState.request (s : SecurityState) (ip : String) (now : ℚ) : Outcome × SecurityState :=
  (⟨ip, now, (s.globalRateAllowed ip now).1, s.drops ip now⟩, (s.globalRateAllowed ip now).2)

/-- The calls in order: what they did, and the state behind them. -/
def requests (calls : List (String × ℚ)) : List Outcome × SecurityState :=
  calls.foldl (fun run call => (run.1 ++ [(run.2.request call.1 call.2).1], (run.2.request call.1 call.2).2))
    ([], .start)

/-- The times of the calls that were allowed. -/
def allowedTimes (outcomes : List Outcome) : List ℚ := (outcomes.filter (·.allowed)).map Outcome.now

/-- Those of one address. -/
def allowedTimesOf (ip : String) (outcomes : List Outcome) : List ℚ :=
  (outcomes.filter (fun o => o.allowed && o.ip = ip)).map Outcome.now

/-- A turn of `history`. -/
def remember (ip : String) (times : List ℚ) (o : Outcome) : List ℚ :=
  (if o.dropped = some ip then [] else times) ++ (if o.allowed ∧ o.ip = ip then [o.now] else [])

/-- The allowed calls of an address since its history was last dropped. -/
def history (ip : String) (outcomes : List Outcome) : List ℚ := outcomes.foldl (remember ip) []

/-- The dropped history is the one whose last request is the oldest, and `RATE_MAP_LIMIT` addresses
have requests in the window, but not the one that makes the call. -/
structure DropsOldest (outcomes : List Outcome) (ip : String) (now : ℚ) (victim : String) : Prop where
  fresh : within globalRateWindow now (history ip outcomes) = []
  others : ∃ others : List String, others.Nodup ∧ others.length = rateMapLimit ∧ victim ∈ others ∧
    ∀ other ∈ others, within globalRateWindow now (history other outcomes) ≠ [] ∧
      ∀ t ∈ within globalRateWindow now (history victim outcomes),
        ∃ u ∈ within globalRateWindow now (history other outcomes), t ≤ u

/-- The limits that a refused call has reached. -/
def LimitReached (outcomes : List Outcome) (ip : String) (now : ℚ) : Prop :=
  globalAllRateRequests ≤ (within globalRateWindow now (allowedTimes outcomes)).length ∨
    globalRateRequests ≤ (within globalRateWindow now (allowedTimesOf ip outcomes)).length

/-! ### What the state holds -/

/-- The state holds what was allowed, as of the last call. -/
structure RequestInv (outcomes : List Outcome) (last : ℚ) (s : SecurityState) : Prop where
  all : Kept globalRateWindow last s.allRequests (allowedTimes outcomes)
  each : Histories globalRateWindow last s.global (fun ip => history ip outcomes)
  bounded : Bounded globalRateWindow globalAllRateRequests (allowedTimes outcomes)
  boundedEach : ∀ ip, Bounded globalRateWindow globalRateRequests (history ip outcomes)

variable {outcomes : List Outcome} {last now : ℚ} {s : SecurityState} {ip key : String} {o : Outcome}

theorem history_concat (ip : String) (outcomes : List Outcome) (o : Outcome) :
    history ip (outcomes ++ [o]) = remember ip (history ip outcomes) o := by
  rw [history, List.foldl_append]
  rfl

theorem length_remember_le (ip : String) (times : List ℚ) (o : Outcome) : (remember ip times o).length ≤ times.length + 1 := by
  unfold remember
  rw [List.length_append]
  refine Nat.add_le_add ?_ ?_
  · split
    · exact Nat.zero_le _
    · exact le_rfl
  · split
    · exact le_rfl
    · exact Nat.zero_le 1

theorem history_sublist (ip : String) (outcomes : List Outcome) :
    List.Sublist (history ip outcomes) (allowedTimesOf ip outcomes) := by
  induction outcomes using List.reverseRecOn with
  | nil => exact .refl _
  | append_singleton outcomes o ih =>
      rw [history_concat, allowedTimesOf, List.filter_append, List.map_append, remember]
      refine List.Sublist.append ?_ ?_
      · split
        · exact List.nil_sublist _
        · exact ih
      · split
        next hallowed => simp [hallowed]
        · exact List.nil_sublist _

theorem history_eq (h : ∀ o ∈ outcomes, o.dropped ≠ some ip) : history ip outcomes = allowedTimesOf ip outcomes := by
  induction outcomes using List.reverseRecOn with
  | nil => rfl
  | append_singleton outcomes o ih =>
      rw [history_concat, allowedTimesOf, List.filter_append, List.map_append, remember,
        if_neg (h o (List.mem_append_right _ (List.mem_singleton_self o))),
        ih fun o ho => h o (List.mem_append_left _ ho), allowedTimesOf]
      congr 1
      by_cases hallowed : o.allowed = true ∧ o.ip = ip
      · simp [hallowed]
      · rw [if_neg hallowed, List.filter_cons_of_neg (by simpa using hallowed)]
        rfl

theorem allowedTimes_concat (outcomes : List Outcome) (o : Outcome) :
    allowedTimes (outcomes ++ [o]) = allowedTimes outcomes ++ (if o.allowed then [o.now] else []) := by
  rw [allowedTimes, List.filter_append, List.map_append, ← allowedTimes]
  cases hallowed : o.allowed with
  | false => simp [hallowed]
  | true => simp [hallowed]

theorem history_refused (outcomes : List Outcome) (ip : String) (now : ℚ) (dropped : Option String) :
    (fun key => history key (outcomes ++ [⟨ip, now, false, dropped⟩])) =
      without (fun key => history key outcomes) dropped := by
  funext key
  rw [history_concat, remember]
  cases dropped with
  | none => simp [without]
  | some victim =>
      by_cases hkey : key = victim
      · simp [without, hkey]
      · simp [without, hkey, Ne.symm hkey]

theorem history_allowed (outcomes : List Outcome) (ip : String) (now : ℚ) (dropped : Option String) :
    (fun key => history key (outcomes ++ [⟨ip, now, true, dropped⟩])) =
      Function.update (without (fun key => history key outcomes) dropped) ip
        (without (fun key => history key outcomes) dropped ip ++ [now]) := by
  funext key
  have hrefused := congrFun (history_refused outcomes ip now dropped) key
  simp only [history_concat, remember, Bool.false_eq_true, false_and, if_false, List.append_nil] at hrefused
  rw [history_concat, remember]
  simp only [hrefused]
  by_cases hkey : key = ip
  · simp [hkey]
  · simp [hkey, Ne.symm hkey]

theorem requestInv_start (last : ℚ) : RequestInv [] last .start :=
  ⟨kept_nil _ _, histories_nil _ _, bounded_nil _ _, fun _ => bounded_nil _ _⟩

theorem bounded_without {times : String → List ℚ} (h : ∀ ip, Bounded globalRateWindow globalRateRequests (times ip))
    (dropped : Option String) (ip : String) : Bounded globalRateWindow globalRateRequests (without times dropped ip) := by
  cases dropped with
  | none => exact h ip
  | some victim =>
      by_cases hip : ip = victim
      · rw [without, hip, Function.update_self]
        exact bounded_nil _ _
      · rw [without, Function.update_of_ne hip]
        exact h ip

/-! ### One call -/

/-- The three ways a call ends. -/
theorem request_cases (h : RequestInv outcomes last s) (hle : last ≤ now) (ip : String) :
    let allRequests := prune s.allRequests (now - globalRateWindow)
    let global := pruneMap s.global (now - globalRateWindow)
    (globalAllRateRequests ≤ (within globalRateWindow now (allowedTimes outcomes)).length ∧
      s.request ip now = (⟨ip, now, false, none⟩, { s with allRequests, global })) ∨
    (globalRateRequests ≤ (within globalRateWindow now (history ip outcomes)).length ∧
      s.request ip now = (⟨ip, now, false, evicted global ip⟩, { s with allRequests, global := makeRoom global ip })) ∨
    ((within globalRateWindow now (allowedTimes outcomes)).length < globalAllRateRequests ∧
      (within globalRateWindow now (history ip outcomes)).length < globalRateRequests ∧
      s.request ip now = (⟨ip, now, true, evicted global ip⟩, { s with
        allRequests := allRequests ++ [now]
        global := (makeRoom global ip).set ip (queueOf (makeRoom global ip) ip ++ [now]) })) := by
  intro allRequests global
  have hall : allRequests = within globalRateWindow now (allowedTimes outcomes) := h.all.prune_eq hle
  have hqueue : queueOf (makeRoom global ip) ip = within globalRateWindow now (history ip outcomes) := by
    rw [queueOf_makeRoom]
    exact h.each.queueOf_eq hle ip
  by_cases hfull : globalAllRateRequests ≤ allRequests.length
  · refine .inl ⟨hall ▸ hfull, ?_⟩
    simp only [SecurityState.request, SecurityState.globalRateAllowed, SecurityState.drops, allRequests] at hfull ⊢
    rw [if_pos hfull, if_pos hfull]
  · have hdrops : s.drops ip now = evicted global ip := if_neg hfull
    by_cases hreached : globalRateRequests ≤ (queueOf (makeRoom global ip) ip).length
    -- `defaultdict` has made no entry here: the history is full, so it was there
    · have hsame : (makeRoom global ip).set ip (queueOf (makeRoom global ip) ip) = makeRoom global ip := by
        cases hget : (makeRoom global ip).get? ip with
        | some queue =>
            have hq : queueOf (makeRoom global ip) ip = queue := by rw [queueOf, hget]; rfl
            rw [hq]
            exact Dict.set_of_get? hget
        | none =>
            rw [queueOf, hget] at hreached
            exact absurd hreached (by decide)
      have hcall : s.globalRateAllowed ip now = (false, { s with allRequests, global := makeRoom global ip }) := by
        rw [← hsame]
        exact (if_neg hfull).trans (if_pos hreached)
      refine .inr (.inl ⟨hqueue ▸ hreached, ?_⟩)
      rw [SecurityState.request, hcall, hdrops]
    · have hcall : s.globalRateAllowed ip now = (true, { s with
          allRequests := allRequests ++ [now]
          global := (makeRoom global ip).set ip (queueOf (makeRoom global ip) ip ++ [now]) }) :=
        (if_neg hfull).trans (if_neg hreached)
      refine .inr (.inr ⟨hall ▸ not_le.mp hfull, hqueue ▸ not_le.mp hreached, ?_⟩)
      rw [SecurityState.request, hcall, hdrops]

/-- A call keeps what the state holds. -/
theorem request_inv (h : RequestInv outcomes last s) (hle : last ≤ now) (ip : String) :
    RequestInv (outcomes ++ [(s.request ip now).1]) now (s.request ip now).2 := by
  have hmap := h.each.pruned hle
  have hroom := hmap.makeRoom ip
  have hall := h.all.pruned hle
  rcases request_cases h hle ip with ⟨-, hcall⟩ | ⟨-, hcall⟩ | ⟨htotal, heach, hcall⟩
  · rw [hcall]
    have hhistory := history_refused outcomes ip now none
    refine ⟨?_, ?_, ?_, fun key => ?_⟩
    · rw [allowedTimes_concat, if_neg Bool.false_ne_true, List.append_nil]
      exact hall
    · exact hhistory ▸ hmap
    · rw [allowedTimes_concat, if_neg Bool.false_ne_true, List.append_nil]
      exact h.bounded
    · exact congrFun hhistory key ▸ h.boundedEach key
  · rw [hcall]
    have hhistory := history_refused outcomes ip now (evicted (pruneMap s.global (now - globalRateWindow)) ip)
    refine ⟨?_, ?_, ?_, fun key => ?_⟩
    · rw [allowedTimes_concat, if_neg Bool.false_ne_true, List.append_nil]
      exact hall
    · exact hhistory ▸ hroom
    · rw [allowedTimes_concat, if_neg Bool.false_ne_true, List.append_nil]
      exact h.bounded
    · exact congrFun hhistory key ▸ bounded_without h.boundedEach _ key
  · rw [hcall]
    have hhistory := history_allowed outcomes ip now (evicted (pruneMap s.global (now - globalRateWindow)) ip)
    refine ⟨?_, ?_, ?_, fun key => ?_⟩
    · rw [allowedTimes_concat, if_pos rfl]
      exact hall.concat
    · exact hhistory ▸ hroom.append (makeRoom_room _ ip hmap.size)
    · rw [allowedTimes_concat, if_pos rfl]
      exact h.bounded.concat htotal (h.all.later hle).past
    · rw [congrFun hhistory key]
      by_cases hkey : key = ip
      · rw [hkey, Function.update_self, without_evicted]
        exact (h.boundedEach ip).concat heach ((h.each.kept ip).later hle).past
      · rw [Function.update_of_ne hkey]
        exact bounded_without h.boundedEach _ key

/-- A refused call has reached a limit. -/
theorem limitReached_of_refused (h : RequestInv outcomes last s) (hle : last ≤ now)
    (hrefused : (s.globalRateAllowed ip now).1 = false) : LimitReached outcomes ip now := by
  have hresult : (s.request ip now).1.allowed = false := hrefused
  rcases request_cases h hle ip with ⟨htotal, -⟩ | ⟨heach, -⟩ | ⟨-, -, hcall⟩
  · exact .inl htotal
  · exact .inr (heach.trans ((history_sublist ip outcomes).filter _).length_le)
  · rw [hcall] at hresult
    cases hresult

/-- The history that is dropped is the oldest of a full map. -/
theorem dropsOldest (h : RequestInv outcomes last s) (hle : last ≤ now) {victim : String}
    (hdrops : s.drops ip now = some victim) : DropsOldest outcomes ip now victim := by
  unfold SecurityState.drops at hdrops
  split at hdrops
  · cases hdrops
  have hmap := h.each.pruned hle
  have hwindow : ∀ key, queueOf (pruneMap s.global (now - globalRateWindow)) key =
      within globalRateWindow now (history key outcomes) := h.each.queueOf_eq hle
  generalize pruneMap s.global (now - globalRateWindow) = mapping at hdrops hmap hwindow
  have hmem := evicted_mem hdrops
  unfold evicted at hdrops
  split at hdrops
  next hfull =>
    have hget : ∀ key ∈ mapping.keys, ∃ queue, mapping.get? key = some queue := fun key hkey =>
      Option.isSome_iff_exists.mp (Dict.get?_isSome_iff.mpr hkey)
    refine ⟨?_, mapping.keys, hmap.uniq, ?_, hmem, fun other hother => ?_⟩
    · rw [← hwindow, queueOf]
      have hnone : mapping.get? ip = none := by simpa [Dict.contains] using hfull.1
      rw [hnone]
      rfl
    · rw [Dict.keys, List.length_map]
      exact Nat.le_antisymm hmap.size hfull.2
    · obtain ⟨queue, hqueue⟩ := hget other hother
      obtain ⟨old, hold⟩ := hget victim hmem
      have hne := hmap.filled other queue hqueue
      have hother' : within globalRateWindow now (history other outcomes) = queue := by
        rw [← hwindow, queueOf, hqueue]
        rfl
      have hvictim : within globalRateWindow now (history victim outcomes) = old := by
        rw [← hwindow, queueOf, hold]
        rfl
      rw [hother', hvictim]
      refine ⟨hne, fun t ht => ⟨queue.getLast hne, List.getLast_mem hne, ?_⟩⟩
      -- a history is in order, so its last time bounds the others
      have hleast : latest mapping victim ≤ latest mapping other := List.le_of_mem_argmin hother hdrops
      have holdne := hmap.filled victim old hold
      rw [latest, latest, hqueue, hold, Option.bind_some, Option.bind_some, List.getLast?_eq_getLast_of_ne_nil hne,
        List.getLast?_eq_getLast_of_ne_nil holdne] at hleast
      have hordered : old.Pairwise (· ≤ ·) := hvictim ▸ (hmap.kept victim).ordered.filter _
      exact (hordered.rel_getLast ht).trans hleast
  · cases hdrops

/-! ### Every sequence of calls -/

variable {calls : List (String × ℚ)}

theorem requests_concat (calls : List (String × ℚ)) (call : String × ℚ) : requests (calls ++ [call]) =
    ((requests calls).1 ++ [((requests calls).2.request call.1 call.2).1], ((requests calls).2.request call.1 call.2).2) := by
  rw [requests, List.foldl_append]
  rfl

theorem le_last {call : String × ℚ} (hclock : ((calls ++ [call]).map Prod.snd).Pairwise (· ≤ ·)) :
    (calls.map Prod.snd).Pairwise (· ≤ ·) ∧ ∀ c ∈ calls, c.2 ≤ call.2 := by
  rw [List.map_append, List.pairwise_append] at hclock
  exact ⟨hclock.1, fun c hc => hclock.2.2 c.2 (List.mem_map_of_mem hc) call.2 (List.mem_singleton_self _)⟩

theorem requests_inv (hclock : (calls.map Prod.snd).Pairwise (· ≤ ·)) (hnow : ∀ call ∈ calls, call.2 ≤ now) :
    ∃ last ≤ now, RequestInv (requests calls).1 last (requests calls).2 := by
  induction calls using List.reverseRecOn generalizing now with
  | nil => exact ⟨now, le_rfl, requestInv_start now⟩
  | append_singleton calls call ih =>
      obtain ⟨hclock, hbefore⟩ := le_last hclock
      obtain ⟨last, hle, hinv⟩ := ih hclock hbefore
      rw [requests_concat]
      exact ⟨call.2, hnow call (List.mem_append_right _ (List.mem_singleton_self _)), request_inv hinv hle call.1⟩

/-- In every window the total is bounded, and so is what each address is allowed since its history
was last dropped; the map holds no more than its limit. A refused call has reached a limit in its
window, and a history is only dropped if it is the oldest of a full map. What an address is allowed
is bounded if its history was never dropped. -/
theorem request_limits (hclock : (calls.map Prod.snd).Pairwise (· ≤ ·)) :
    Bounded globalRateWindow globalAllRateRequests (allowedTimes (requests calls).1) ∧
    (∀ ip, Bounded globalRateWindow globalRateRequests (history ip (requests calls).1)) ∧
    (requests calls).2.global.length ≤ rateMapLimit ∧
    (∀ ip now, (∀ call ∈ calls, call.2 ≤ now) →
      (((requests calls).2.globalRateAllowed ip now).1 = false → LimitReached (requests calls).1 ip now) ∧
      ∀ victim, (requests calls).2.drops ip now = some victim → DropsOldest (requests calls).1 ip now victim) ∧
    ∀ ip, (∀ o ∈ (requests calls).1, o.dropped ≠ some ip) →
      Bounded globalRateWindow globalRateRequests (allowedTimesOf ip (requests calls).1) := by
  have hlast : ∃ now, ∀ call ∈ calls, call.2 ≤ now := by
    rcases List.eq_nil_or_concat' calls with rfl | ⟨before, call, rfl⟩
    · exact ⟨0, List.forall_mem_nil _⟩
    · refine ⟨call.2, fun c hc => ?_⟩
      rcases List.mem_append.mp hc with hc | hc
      · exact (le_last hclock).2 c hc
      · exact (congrArg Prod.snd (List.mem_singleton.mp hc)).le
  obtain ⟨now, hnow⟩ := hlast
  obtain ⟨last, -, hinv⟩ := requests_inv hclock hnow
  refine ⟨hinv.bounded, hinv.boundedEach, hinv.each.size, fun ip now hnow => ?_, fun ip hkept => ?_⟩
  · obtain ⟨last, hle, hinv⟩ := requests_inv hclock hnow
    exact ⟨limitReached_of_refused hinv hle, fun victim hdrops => dropsOldest hinv hle hdrops⟩
  · rw [← history_eq hkept]
    exact hinv.boundedEach ip

/-- Three calls of two addresses. -/
theorem request_limits_three :
    Bounded globalRateWindow globalAllRateRequests (allowedTimes (requests [("a", 0), ("b", 1), ("a", 1)]).1) :=
  (request_limits (by decide)).1

/-! ### More addresses than the map holds -/

/-- All calls were allowed. -/
def AllAllowed (calls : List (String × ℚ)) : Prop := ∀ o ∈ (requests calls).1, o.allowed = true

/-- The calls of one address. -/
def callsOf (ip : String) (calls : List (String × ℚ)) : List ℚ := (calls.filter (·.1 = ip)).map Prod.snd

theorem outcomes_calls (calls : List (String × ℚ)) : (requests calls).1.map (fun o => (o.ip, o.now)) = calls := by
  induction calls using List.reverseRecOn with
  | nil => rfl
  | append_singleton calls call ih =>
      rw [requests_concat, List.map_append, ih]
      rfl

theorem allowedTimesOf_sublist (ip : String) (calls : List (String × ℚ)) :
    List.Sublist (allowedTimesOf ip (requests calls).1) (callsOf ip calls) := by
  rw [callsOf]
  nth_rewrite 2 [← outcomes_calls calls]
  rw [List.filter_map, List.map_map]
  refine List.Sublist.map _ (List.monotone_filter_right _ fun o ho => ?_)
  simp only [Bool.and_eq_true, decide_eq_true_eq] at ho
  simpa using ho.2

theorem allowedTimesOf_eq (h : AllAllowed calls) (ip : String) : allowedTimesOf ip (requests calls).1 = callsOf ip calls := by
  rw [callsOf]
  nth_rewrite 2 [← outcomes_calls calls]
  rw [List.filter_map, List.map_map, allowedTimesOf]
  congr 1
  exact List.filter_congr fun o ho => by simp [h o ho]

theorem length_allowed_le (width now : ℚ) (calls : List (String × ℚ)) :
    (within width now (allowedTimes (requests calls).1)).length ≤ calls.length := by
  have hlength : (requests calls).1.length = calls.length := by
    rw [← List.length_map (fun o : Outcome => (o.ip, o.now)), outcomes_calls]
  rw [← hlength, allowedTimes]
  exact (List.length_filter_le _ _).trans ((List.length_map _).le.trans (List.length_filter_le _ _))

/-- Another call is allowed while neither limit is reached. -/
theorem AllAllowed.concat {call : String × ℚ} (h : AllAllowed calls)
    (hclock : ((calls ++ [call]).map Prod.snd).Pairwise (· ≤ ·)) (htotal : calls.length < globalAllRateRequests)
    (heach : (history call.1 (requests calls).1).length < globalRateRequests) : AllAllowed (calls ++ [call]) := by
  obtain ⟨hbefore, hnow⟩ := le_last hclock
  obtain ⟨last, hle, hinv⟩ := requests_inv hbefore hnow
  intro o ho
  rw [requests_concat] at ho
  rcases List.mem_append.mp ho with ho | ho
  · exact h o ho
  · rw [List.mem_singleton.mp ho]
    rcases request_cases hinv hle call.1 with ⟨hreached, -⟩ | ⟨hreached, -⟩ | ⟨-, -, hcall⟩
    · have hfew := length_allowed_le globalRateWindow call.2 calls
      omega
    · have hfew : (within globalRateWindow call.2 (history call.1 (requests calls).1)).length ≤
          (history call.1 (requests calls).1).length := List.length_filter_le _ _
      omega
    · rw [hcall]

theorem length_history_le (ip : String) (calls : List (String × ℚ)) :
    (history ip (requests calls).1).length ≤ (callsOf ip calls).length :=
  ((history_sublist ip _).trans (allowedTimesOf_sublist ip calls)).length_le

/-- No history was dropped. -/
def NoneDropped (calls : List (String × ℚ)) : Prop := ∀ o ∈ (requests calls).1, o.dropped = none

/-- While fewer addresses than the limit have called, nothing is dropped. -/
theorem NoneDropped.concat {call : String × ℚ} {ips : List String} (h : NoneDropped calls)
    (hclock : ((calls ++ [call]).map Prod.snd).Pairwise (· ≤ ·)) (hips : ∀ c ∈ calls, c.1 ∈ ips)
    (hfew : ips.length < rateMapLimit) : NoneDropped (calls ++ [call]) := by
  obtain ⟨hbefore, hnow⟩ := le_last hclock
  obtain ⟨last, hle, hinv⟩ := requests_inv hbefore hnow
  intro o ho
  rw [requests_concat] at ho
  rcases List.mem_append.mp ho with ho | ho
  · exact h o ho
  rw [List.mem_singleton.mp ho]
  show (requests calls).2.drops call.1 call.2 = none
  cases hdrops : (requests calls).2.drops call.1 call.2 with
  | none => rfl
  | some victim =>
      obtain ⟨others, hnodup, hlength, -, hothers⟩ := (dropsOldest hinv hle hdrops).others
      have hsub : others ⊆ ips := by
        intro other hother
        obtain ⟨t, ht⟩ := List.exists_mem_of_ne_nil _ (hothers other hother).1
        have hcall : t ∈ callsOf other calls :=
          ((history_sublist other _).trans (allowedTimesOf_sublist other calls)).subset (List.mem_of_mem_filter ht)
        obtain ⟨c, hc, -⟩ := List.mem_map.mp hcall
        obtain ⟨hc, hip⟩ := List.mem_filter.mp hc
        exact of_decide_eq_true hip ▸ hips c hc
      have hle := (List.subperm_of_subset hnodup hsub).length_le
      omega

theorem history_eq_callsOf (hnone : NoneDropped calls) (hall : AllAllowed calls) (ip : String) :
    history ip (requests calls).1 = callsOf ip calls := by
  have hkept : ∀ o ∈ (requests calls).1, o.dropped ≠ some ip := fun o ho hdropped =>
    nomatch (hnone o ho).symm.trans hdropped
  rw [history_eq hkept, allowedTimesOf_eq hall]

theorem noneDropped_of_few {ips : List String} (hclock : (calls.map Prod.snd).Pairwise (· ≤ ·))
    (hips : ∀ c ∈ calls, c.1 ∈ ips) (hfew : ips.length < rateMapLimit) : NoneDropped calls := by
  induction calls using List.reverseRecOn with
  | nil => exact List.forall_mem_nil _
  | append_singleton calls call ih =>
      have hips' : ∀ c ∈ calls, c.1 ∈ ips := fun c hc => hips c (List.mem_append_left _ hc)
      exact (ih (le_last hclock).1 hips').concat hclock hips' hfew

/-- The address of a visitor. -/
def visitor (k : Nat) : String := String.ofList (List.replicate (k + 1) 'b')

/-- `k` calls of one address, one call each of `n` visitors, and `m` more of the first address. -/
def stage (k n m : Nat) : List (String × ℚ) :=
  List.replicate k ("a", 0) ++ ((List.range n).map fun i => (visitor i, 1)) ++ List.replicate m ("a", 2)

theorem clock_stage (k n m : Nat) : ((stage k n m).map Prod.snd).Pairwise (· ≤ ·) := by
  have htimes : (stage k n m).map Prod.snd = List.replicate k 0 ++ List.replicate n 1 ++ List.replicate m 2 := by
    simp [stage, Function.comp_def, List.map_const']
  rw [htimes, List.pairwise_append, List.pairwise_append]
  refine ⟨⟨?_, ?_, fun s hs t ht => ?_⟩, ?_, fun s hs t ht => ?_⟩
  · exact List.pairwise_replicate.mpr (.inr le_rfl)
  · exact List.pairwise_replicate.mpr (.inr le_rfl)
  · rw [List.eq_of_mem_replicate hs, List.eq_of_mem_replicate ht]
    exact zero_le_one
  · exact List.pairwise_replicate.mpr (.inr le_rfl)
  · rw [List.eq_of_mem_replicate ht]
    rcases List.mem_append.mp hs with hs | hs
    · rw [List.eq_of_mem_replicate hs]
      exact zero_le_two
    · rw [List.eq_of_mem_replicate hs]
      exact one_le_two

theorem visitor_inj {i j : Nat} : visitor i = visitor j ↔ i = j := by
  constructor
  · intro h
    have hlength := congrArg List.length (String.ofList_injective h)
    rw [List.length_replicate, List.length_replicate] at hlength
    omega
  · exact congrArg visitor

theorem visitor_ne (i : Nat) : visitor i ≠ "a" := by
  intro h
  have hchars := congrArg String.toList h
  rw [visitor, String.toList_ofList, List.replicate_succ] at hchars
  cases hchars

theorem callsOf_busy (k n m : Nat) : callsOf "a" (stage k n m) = List.replicate k 0 ++ List.replicate m 2 := by
  have hvisitors : ((List.range n).map fun i => (visitor i, (1 : ℚ))).filter (·.1 = "a") = [] := by
    rw [List.filter_eq_nil_iff]
    intro c hc
    obtain ⟨i, -, rfl⟩ := List.mem_map.mp hc
    simpa using visitor_ne i
  simp [callsOf, stage, List.filter_append, hvisitors]

theorem callsOf_visitor (j k n : Nat) : callsOf (visitor j) (stage k n 0) = if j < n then [1] else [] := by
  have hbusy : (List.replicate k ("a", (0 : ℚ))).filter (·.1 = visitor j) = [] := by
    simp [(visitor_ne j).symm]
  rw [callsOf, stage, List.replicate_zero, List.append_nil, List.filter_append, hbusy, List.nil_append]
  induction n with
  | zero => rfl
  | succ n ih =>
      rw [List.range_succ, List.map_append, List.filter_append, List.map_append, ih]
      by_cases hj : j = n
      · simp [hj]
      · have hother : ¬ visitor n = visitor j := by
          rw [visitor_inj]
          exact Ne.symm hj
        simp only [List.map_cons, List.map_nil, List.filter_cons, hother, decide_false, Bool.false_eq_true, if_false, List.filter_nil,
          List.append_nil]
        congr 1
        have hlt : j < n ↔ j < n + 1 := by omega
        exact propext hlt

theorem stage_ips (k n : Nat) : ∀ c ∈ stage k n 0, c.1 ∈ "a" :: (List.range n).map visitor := by
  intro c hc
  rw [stage, List.replicate_zero, List.append_nil] at hc
  rcases List.mem_append.mp hc with hc | hc
  · rw [List.eq_of_mem_replicate hc]
    exact List.mem_cons_self
  · obtain ⟨i, hi, rfl⟩ := List.mem_map.mp hc
    exact List.mem_cons_of_mem _ (List.mem_map_of_mem hi)

theorem stage_busy (k : Nat) : stage (k + 1) 0 0 = stage k 0 0 ++ [("a", 0)] := by
  simp [stage, List.replicate_succ']

theorem stage_visitor (k n : Nat) : stage k (n + 1) 0 = stage k n 0 ++ [(visitor n, 1)] := by
  simp [stage, List.range_succ]

theorem stage_return (k n m : Nat) : stage k n (m + 1) = stage k n m ++ [("a", 2)] := by
  simp [stage, List.replicate_succ']

theorem length_stage (k n m : Nat) : (stage k n m).length = k + n + m := by
  simp [stage, Nat.add_assoc]

/-- The first calls of the address are allowed. -/
theorem allAllowed_busy {k : Nat} (h : k ≤ globalRateRequests) : AllAllowed (stage k 0 0) := by
  induction k with
  | zero => exact List.forall_mem_nil _
  | succ k ih =>
      have hclock := clock_stage (k + 1) 0 0
      rw [stage_busy] at hclock ⊢
      have hlength : (stage k 0 0).length < globalAllRateRequests := by
        rw [length_stage]
        unfold globalRateRequests at h
        unfold globalAllRateRequests
        omega
      refine (ih (Nat.le_of_succ_le h)).concat hclock hlength ((length_history_le _ _).trans_lt ?_)
      rw [callsOf_busy, List.replicate_zero, List.append_nil, List.length_replicate]
      exact h

/-- The calls of the visitors are allowed. -/
theorem allAllowed_visitors {n : Nat} (h : n ≤ rateMapLimit) : AllAllowed (stage globalRateRequests n 0) := by
  induction n with
  | zero => exact allAllowed_busy le_rfl
  | succ n ih =>
      have hclock := clock_stage globalRateRequests (n + 1) 0
      rw [stage_visitor] at hclock ⊢
      have hlength : (stage globalRateRequests n 0).length < globalAllRateRequests := by
        rw [length_stage]
        unfold rateMapLimit at h
        unfold globalRateRequests globalAllRateRequests
        omega
      refine (ih (Nat.le_of_succ_le h)).concat hclock hlength ((length_history_le _ _).trans_lt ?_)
      rw [callsOf_visitor, if_neg (lt_irrefl n)]
      exact Nat.succ_pos _

/-- Up to the last visitor but one nothing is dropped. -/
theorem noneDropped_visitors : NoneDropped (stage globalRateRequests 1023 0) := by
  have hfew : ("a" :: (List.range 1022).map visitor).length < rateMapLimit := by
    rw [List.length_cons, List.length_map, List.length_range]
    decide
  have hclock := clock_stage globalRateRequests 1023 0
  rw [stage_visitor] at hclock ⊢
  exact (noneDropped_of_few (le_last hclock).1 (stage_ips _ _) hfew).concat hclock (stage_ips _ _) hfew

/-- The last visitor drops the history of the first address. -/
theorem drops_busy : (requests (stage globalRateRequests 1023 0)).2.drops (visitor 1023) 1 = some "a" := by
  have hclock := clock_stage globalRateRequests 1024 0
  rw [stage_visitor] at hclock
  obtain ⟨hbefore, hnow⟩ := le_last hclock
  obtain ⟨last, hle, hinv⟩ := requests_inv hbefore hnow
  have hhistory := history_eq_callsOf noneDropped_visitors (allAllowed_visitors (by decide))
  have hwindow : ∀ ip, queueOf (pruneMap (requests (stage globalRateRequests 1023 0)).2.global (1 - globalRateWindow)) ip =
      within globalRateWindow 1 (callsOf ip (stage globalRateRequests 1023 0)) := by
    intro ip
    rw [hinv.each.queueOf_eq hle ip, hhistory]
  have htotal : (prune (requests (stage globalRateRequests 1023 0)).2.allRequests (1 - globalRateWindow)).length <
      globalAllRateRequests := by
    rw [hinv.all.prune_eq hle]
    refine (length_allowed_le _ _ _).trans_lt ?_
    rw [length_stage]
    decide
  have hmap := hinv.each.pruned hle
  unfold SecurityState.drops
  rw [if_neg (not_le.mpr htotal)]
  generalize pruneMap (requests (stage globalRateRequests 1023 0)).2.global (1 - globalRateWindow) = mapping at hwindow hmap
  have hbusy : queueOf mapping "a" = List.replicate globalRateRequests 0 := by
    rw [hwindow, callsOf_busy, List.replicate_zero, List.append_nil, within, List.filter_replicate_of_pos (by norm_num [globalRateWindow])]
  have hvisitor : ∀ j, queueOf mapping (visitor j) = if j < 1023 then [1] else [] := by
    intro j
    rw [hwindow, callsOf_visitor]
    split
    · exact List.filter_cons_of_pos (by norm_num [globalRateWindow])
    · rfl
  have hbusyKey : "a" ∈ mapping.keys := by
    rw [hmap.mem_keys_iff, hbusy]
    exact List.cons_ne_nil _ _
  have hips : ∀ ip ∈ mapping.keys, ip ∈ "a" :: (List.range 1023).map visitor := by
    intro ip hip
    rw [hmap.mem_keys_iff, hwindow] at hip
    obtain ⟨t, ht⟩ := List.exists_mem_of_ne_nil _ hip
    obtain ⟨c, hc, -⟩ := List.mem_map.mp (List.mem_of_mem_filter ht)
    obtain ⟨hc, heq⟩ := List.mem_filter.mp hc
    exact of_decide_eq_true heq ▸ stage_ips _ _ c hc
  have hfull : rateMapLimit ≤ mapping.length := by
    have hnodup : ("a" :: (List.range 1023).map visitor).Nodup := by
      refine List.nodup_cons.mpr ⟨fun hin => ?_, List.nodup_range.map fun i j h => visitor_inj.mp h⟩
      obtain ⟨i, -, hi⟩ := List.mem_map.mp hin
      exact visitor_ne i hi
    have hsub : "a" :: (List.range 1023).map visitor ⊆ mapping.keys := by
      refine List.cons_subset.mpr ⟨hbusyKey, fun ip hip => ?_⟩
      obtain ⟨j, hj, rfl⟩ := List.mem_map.mp hip
      rw [hmap.mem_keys_iff, hvisitor, if_pos (List.mem_range.mp hj)]
      exact List.cons_ne_nil _ _
    have hlength := (List.subperm_of_subset hnodup hsub).length_le
    rw [List.length_cons, List.length_map, List.length_range, Dict.keys, List.length_map] at hlength
    exact hlength
  have hfresh : mapping.contains (visitor 1023) = false := by
    rw [Bool.eq_false_iff]
    intro hin
    exact hmap.mem_keys_iff.mp (Dict.get?_isSome_iff.mp hin) (hvisitor 1023)
  unfold evicted
  rw [if_pos ⟨hfresh, hfull⟩]
  cases holdest : mapping.keys.argmin (latest mapping) with
  | none => exact absurd hbusyKey (List.argmin_eq_none.mp holdest ▸ List.not_mem_nil)
  | some victim =>
      -- its last call is older than that of every visitor
      have hleast : latest mapping victim ≤ latest mapping "a" := List.le_of_mem_argmin hbusyKey holdest
      rcases List.mem_cons.mp (hips victim (List.argmin_mem holdest)) with rfl | hvictim
      · rfl
      · obtain ⟨j, hj, rfl⟩ := List.mem_map.mp hvictim
        rw [latest_eq, latest_eq, hbusy, hvisitor, if_pos (List.mem_range.mp hj)] at hleast
        exact absurd hleast (by decide)

/-- The calls of the first address after that are allowed once more. -/
theorem allAllowed_return {m : Nat} (h : m ≤ globalRateRequests) : AllAllowed (stage globalRateRequests rateMapLimit m) ∧
    (history "a" (requests (stage globalRateRequests rateMapLimit m)).1).length ≤ m := by
  induction m with
  | zero =>
      refine ⟨allAllowed_visitors le_rfl, ?_⟩
      have hlast : stage globalRateRequests rateMapLimit 0 = stage globalRateRequests 1023 0 ++ [(visitor 1023, 1)] :=
        stage_visitor _ _
      rw [hlast, requests_concat, history_concat, remember, SecurityState.request, if_pos drops_busy,
        if_neg fun hown => visitor_ne 1023 hown.2]
      exact le_rfl
  | succ m ih =>
      obtain ⟨hall, hhistory⟩ := ih (Nat.le_of_succ_le h)
      have hclock := clock_stage globalRateRequests rateMapLimit (m + 1)
      rw [stage_return] at hclock ⊢
      constructor
      · refine hall.concat hclock ?_ (hhistory.trans_lt h)
        rw [length_stage]
        unfold globalRateRequests at h
        unfold globalRateRequests rateMapLimit globalAllRateRequests
        omega
      · rw [requests_concat, history_concat]
        exact (length_remember_le _ _ _).trans (Nat.succ_le_succ hhistory)

/-- One address makes 240 calls, each of 1024 others makes one, and the first makes 240 calls again:
all are allowed, 480 of them to one address within two seconds. -/
theorem busy_exceeds : ((stage globalRateRequests rateMapLimit globalRateRequests).map Prod.snd).Pairwise (· ≤ ·) ∧
    ¬ Bounded globalRateWindow globalRateRequests
      (allowedTimesOf "a" (requests (stage globalRateRequests rateMapLimit globalRateRequests)).1) := by
  refine ⟨clock_stage _ _ _, fun hbounded => ?_⟩
  have hwindow := hbounded 2
  rw [allowedTimesOf_eq (allAllowed_return le_rfl).1, callsOf_busy, within, List.filter_append,
    List.filter_replicate_of_pos (by norm_num [globalRateWindow]), List.filter_replicate_of_pos (by norm_num [globalRateWindow]),
    List.length_append, List.length_replicate, List.length_replicate] at hwindow
  unfold globalRateRequests at hwindow
  omega

end ProxyGateway.Web
