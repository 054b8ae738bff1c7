import ProxyGateway.Web.Attempts

set_option autoImplicit false

/-!
# ProxyGateway.Web.Throttled

The limits of failed logins, in every interleaving of attempts.

What an attempt has reserved counts as if it had failed already: the failures of the window and the
open reservations together stay within the limits (`Throttled`). Every reservation is released
exactly once, because the `finally` of a handler releases what no branch has released before
(`spec_login`, `spec_exportConfig`).
-/

namespace ProxyGateway.Web

open Window

variable {ι : Type}

/-! ### What the log says -/

/-- A failed attempt. -/
def failure : Event ι → Option (String × ℚ)
  | .finished _ ip true now => some (ip, now)
  | _ => none

/-- The failed attempts. -/
def failures (log : List (Event ι)) : List (String × ℚ) := log.filterMap failure

/-- A turn of `failuresSince`. -/
def recalled (ip : String) (times : List ℚ) : Event ι → List ℚ
  | .finished _ other true now => if other = ip then times ++ [now] else times
  | .cleared other => if other = ip then [] else times
  | _ => times

/-- The failed attempts of an address since its last success. -/
def failuresSince (ip : String) (log : List (Event ι)) : List ℚ := log.foldl (recalled ip) []

theorem failures_concat (log : List (Event ι)) (e : Event ι) : failures (log ++ [e]) = failures log ++ (failure e).toList := by
  rw [failures, List.filterMap_append, ← failures]
  cases hfailure : failure e with
  | none => simp [hfailure]
  | some entry => simp [hfailure]

theorem failuresSince_concat (ip : String) (log : List (Event ι)) (e : Event ι) :
    failuresSince ip (log ++ [e]) = recalled ip (failuresSince ip log) e := by
  rw [failuresSince, List.foldl_append]
  rfl

/-- What is since the last success is among all failures. -/
theorem failuresSince_sublist (ip : String) (log : List (Event ι)) :
    List.Sublist (failuresSince ip log) (((failures log).filter (·.1 = ip)).map Prod.snd) := by
  induction log using List.reverseRecOn with
  | nil => exact .refl _
  | append_singleton log e ih =>
      rw [failuresSince_concat, failures_concat, List.filter_append, List.map_append]
      have hsame := ih.trans (List.sublist_append_left _ (((failure e).toList.filter (·.1 = ip)).map Prod.snd))
      cases e with
      | reserved i other => exact hsame
      | cleared other =>
          by_cases heq : other = ip
          · have hrecalled : recalled ip (failuresSince ip log) (.cleared other : Event ι) = [] := if_pos heq
            rw [hrecalled]
            exact List.nil_sublist _
          · have hrecalled : recalled ip (failuresSince ip log) (.cleared other : Event ι) = failuresSince ip log := if_neg heq
            rw [hrecalled]
            exact hsame
      | finished i other failed now =>
          cases failed with
          | false => exact hsame
          | true =>
              by_cases heq : other = ip
              · have hrecalled : recalled ip (failuresSince ip log) (.finished i other true now) = failuresSince ip log ++ [now] :=
                  if_pos heq
                rw [hrecalled]
                exact ih.append (by simp [failure, heq])
              · have hrecalled : recalled ip (failuresSince ip log) (.finished i other true now) = failuresSince ip log :=
                  if_neg heq
                rw [hrecalled]
                exact hsame

variable [DecidableEq ι]

/-- An event of the attempt `i`. -/
def isOwn (i : ι) : Event ι → Bool
  | .reserved j _ => j = i
  | .finished j _ _ _ => j = i
  | .cleared _ => false

/-- The events of the attempt `i`. -/
def own (i : ι) (log : List (Event ι)) : List (Event ι) := log.filter (isOwn i)

/-- A turn of `held`. -/
def hold (open_ : List (ι × String)) : Event ι → List (ι × String)
  | .reserved i ip => (i, ip) :: open_
  | .finished i ip _ _ => open_.erase (i, ip)
  | .cleared _ => open_

/-- The reservations that are not released. -/
def held (log : List (Event ι)) : List (ι × String) := log.foldl hold []

/-! ### The invariant -/

/-- The reservations of one attempt: none, an open one, or one that was released. -/
inductive Progress (i : ι) : List (Event ι) → Prop where
  | idle : Progress i []
  | holding (ip : String) : Progress i [.reserved i ip]
  | released (ip : String) (failed : Bool) (now : ℚ) : Progress i [.reserved i ip, .finished i ip failed now]

/-- The counters count the open reservations. -/
structure Booked (w : Service ι) : Prop where
  total : w.security.pendingLoginTotal = (held w.log).length
  pending : ∀ ip, w.security.pendingLogins.get? ip =
    if ((held w.log).map Prod.snd).count ip = 0 then none else some (((held w.log).map Prod.snd).count ip)
  holds : ∀ i ip, (i, ip) ∈ held w.log ↔ own i w.log = [.reserved i ip]
  nodup : (held w.log).Nodup
  progress : ∀ i, Progress i (own i w.log)

/-- Failures and open reservations together stay within the limits. -/
structure Throttled (w : Service ι) : Prop where
  all : Kept loginRateWindow w.clock w.security.allLoginFailures ((failures w.log).map Prod.snd)
  each : Histories loginRateWindow w.clock w.security.logins (fun ip => failuresSince ip w.log)
  room : (within loginRateWindow w.clock ((failures w.log).map Prod.snd)).length + (held w.log).length ≤ loginAllRateAttempts
  roomEach : ∀ ip, (within loginRateWindow w.clock (failuresSince ip w.log)).length +
    ((held w.log).map Prod.snd).count ip ≤ loginRateAttempts
  bounded : Bounded loginRateWindow loginAllRateAttempts ((failures w.log).map Prod.snd)
  boundedEach : ∀ ip, Bounded loginRateWindow loginRateAttempts (failuresSince ip w.log)

variable {w w' : Service ι} {i j : ι} {ip key : String} {c : Choice} {now : ℚ} {log : List (Event ι)} {e : Event ι}

theorem own_concat (i : ι) (log : List (Event ι)) (e : Event ι) :
    own i (log ++ [e]) = own i log ++ (if isOwn i e then [e] else []) := by
  rw [own, List.filter_append, ← own]
  cases hown : isOwn i e <;> simp [hown]

theorem held_concat (log : List (Event ι)) (e : Event ι) : held (log ++ [e]) = hold (held log) e := by
  rw [held, List.foldl_append]
  rfl

theorem pending_getD (h : Booked w) (ip : String) :
    (w.security.pendingLogins.get? ip).getD 0 = ((held w.log).map Prod.snd).count ip := by
  rw [h.pending]
  split
  next hzero => exact hzero.symm
  · rfl

/-- At the start. -/
theorem booked_start (clock : ℚ) : Booked (⟨.start, clock, []⟩ : Service ι) :=
  ⟨rfl, fun _ => rfl, fun _ _ => ⟨fun h => (nomatch h), fun h => (nomatch h)⟩, List.nodup_nil, fun _ => .idle⟩

theorem throttled_start (clock : ℚ) : Throttled (⟨.start, clock, []⟩ : Service ι) :=
  ⟨kept_nil _ _, histories_nil _ _, Nat.zero_le _, fun _ => Nat.zero_le _, bounded_nil _ _, fun _ => bounded_nil _ _⟩

/-! ### Reservations -/

/-- The counts when a reservation is open no longer. -/
theorem count_erase (hin : (i, ip) ∈ held log) (key : String) : ((held log).map Prod.snd).count key =
    (((held log).erase (i, ip)).map Prod.snd).count key + if ip = key then 1 else 0 := by
  have hperm := (List.perm_cons_erase hin).map Prod.snd
  rw [hperm.count_eq, List.map_cons, List.count_cons]
  simp

/-- The counters after a release. -/
theorem release_counts (h : Booked w) (hin : (i, ip) ∈ held w.log) :
    (w.security.release ip).pendingLoginTotal = ((held w.log).erase (i, ip)).length ∧
    (∀ key, (w.security.release ip).pendingLogins.get? key =
      if (((held w.log).erase (i, ip)).map Prod.snd).count key = 0 then none
      else some ((((held w.log).erase (i, ip)).map Prod.snd).count key)) := by
  have hlength : (held w.log).length = ((held w.log).erase (i, ip)).length + 1 := by
    rw [(List.perm_cons_erase hin).length_eq, List.length_cons]
  have htotal : w.security.pendingLoginTotal - 1 = ((held w.log).erase (i, ip)).length := by
    rw [h.total, hlength]
    omega
  have hcount := fun key => count_erase hin key
  have hget := pending_getD h ip
  have hown := hcount ip
  rw [if_pos rfl] at hown
  have hother : ∀ key, key ≠ ip → w.security.pendingLogins.get? key =
      if (((held w.log).erase (i, ip)).map Prod.snd).count key = 0 then none
      else some ((((held w.log).erase (i, ip)).map Prod.snd).count key) := by
    intro key hkey
    rw [h.pending, hcount key, if_neg (Ne.symm hkey), Nat.add_zero]
  unfold SecurityState.release
  rw [hget, hown]
  cases hleft : (((held w.log).erase (i, ip)).map Prod.snd).count ip with
  | zero =>
      refine ⟨htotal, fun key => ?_⟩
      by_cases hkey : key = ip
      · rw [hkey, hleft, if_pos rfl]
        exact Dict.get?_erase_self _ _
      · exact (Dict.get?_erase_ne (Ne.symm hkey) _).trans (hother key hkey)
  | succ left =>
      refine ⟨htotal, fun key => ?_⟩
      by_cases hkey : key = ip
      · rw [hkey, hleft, if_neg (Nat.succ_ne_zero left)]
        exact Dict.get?_set_self _ _ _
      · exact (Dict.get?_set_ne (Ne.symm hkey) _ _).trans (hother key hkey)

/-- An attempt reserves once. -/
theorem booked_reserved {security : SecurityState} {clock : ℚ} (h : Booked w) (hidle : own i w.log = [])
    (htotal : security.pendingLoginTotal = w.security.pendingLoginTotal + 1)
    (hpending : security.pendingLogins = w.security.pendingLogins.set ip ((w.security.pendingLogins.get? ip).getD 0 + 1)) :
    Booked ⟨security, clock, w.log ++ [.reserved i ip]⟩ := by
  have hheld : held (w.log ++ [.reserved i ip]) = (i, ip) :: held w.log := held_concat _ _
  -- a handler reserves before it holds anything
  have hfresh : ∀ other, (i, other) ∉ held w.log := fun other hin => by
    have howned := (h.holds i other).mp hin
    rw [hidle] at howned
    cases howned
  have hown : ∀ j, own j (w.log ++ [.reserved i ip]) = if i = j then [.reserved i ip] else own j w.log := by
    intro j
    rw [own_concat]
    by_cases hj : i = j
    · subst hj
      simp [isOwn, hidle]
    · simp [isOwn, hj]
  refine ⟨?_, fun key => ?_, fun j other => ?_, ?_, fun j => ?_⟩
  · show security.pendingLoginTotal = _
    rw [htotal, h.total, hheld, List.length_cons]
    rfl
  · show security.pendingLogins.get? key = _
    rw [hpending, hheld, List.map_cons, List.count_cons, Dict.get?_set, pending_getD h]
    by_cases hkey : ip = key
    · simp [hkey]
    · simp [hkey, h.pending key]
  · show (j, other) ∈ held (w.log ++ [.reserved i ip]) ↔ own j (w.log ++ [.reserved i ip]) = _
    rw [hheld, hown, List.mem_cons, h.holds]
    by_cases hj : i = j
    · subst hj
      rw [if_pos rfl, hidle]
      simp [eq_comm]
    · rw [if_neg hj]
      simp [Ne.symm hj]
  · show (held (w.log ++ [.reserved i ip])).Nodup
    rw [hheld]
    exact List.nodup_cons.mpr ⟨hfresh ip, h.nodup⟩
  · show Progress j (own j (w.log ++ [.reserved i ip]))
    rw [hown]
    split
    next heq =>
      subst heq
      exact .holding ip
    · exact h.progress j

/-- An attempt releases what it has reserved. -/
theorem booked_finished {security : SecurityState} {clock : ℚ} {failed : Bool} (h : Booked w)
    (hholding : own i w.log = [.reserved i ip])
    (htotal : security.pendingLoginTotal = (w.security.release ip).pendingLoginTotal)
    (hpending : security.pendingLogins = (w.security.release ip).pendingLogins) :
    Booked ⟨security, clock, w.log ++ [.finished i ip failed now]⟩ := by
  have hheld : held (w.log ++ [.finished i ip failed now]) = (held w.log).erase (i, ip) := held_concat _ _
  have hin : (i, ip) ∈ held w.log := (h.holds i ip).mpr hholding
  obtain ⟨hcount, hcounts⟩ := release_counts h hin
  have hown : ∀ j, own j (w.log ++ [.finished i ip failed now]) =
      if i = j then [.reserved i ip, .finished i ip failed now] else own j w.log := by
    intro j
    rw [own_concat]
    by_cases hj : i = j
    · subst hj
      simp [isOwn, hholding]
    · simp [isOwn, hj]
  refine ⟨?_, fun key => ?_, fun j other => ?_, ?_, fun j => ?_⟩
  · show security.pendingLoginTotal = _
    rw [htotal, hheld, hcount]
  · show security.pendingLogins.get? key = _
    rw [hpending, hheld, hcounts]
  · show (j, other) ∈ held (w.log ++ [.finished i ip failed now]) ↔ own j (w.log ++ [.finished i ip failed now]) = _
    rw [hheld, hown, h.nodup.mem_erase_iff, h.holds]
    by_cases hj : i = j
    · subst hj
      rw [if_pos rfl, hholding]
      simp [eq_comm]
    · rw [if_neg hj]
      simp [Ne.symm hj]
  · show (held (w.log ++ [.finished i ip failed now])).Nodup
    rw [hheld]
    exact h.nodup.erase _
  · show Progress j (own j (w.log ++ [.finished i ip failed now]))
    rw [hown]
    split
    next heq =>
      subst heq
      exact .released ip failed now
    · exact h.progress j

/-- A success reserves and releases nothing. -/
theorem booked_cleared {security : SecurityState} {clock : ℚ} (h : Booked w)
    (htotal : security.pendingLoginTotal = w.security.pendingLoginTotal)
    (hpending : security.pendingLogins = w.security.pendingLogins) :
    Booked ⟨security, clock, w.log ++ [.cleared ip]⟩ := by
  have hheld : held (w.log ++ [.cleared ip]) = held w.log := held_concat _ _
  have hown : ∀ j, own j (w.log ++ [.cleared ip]) = own j w.log := fun j => by
    rw [own_concat]
    exact List.append_nil _
  refine ⟨?_, fun key => ?_, fun j other => ?_, ?_, fun j => ?_⟩
  · exact htotal.trans (h.total.trans (by rw [hheld]))
  · show security.pendingLogins.get? key = _
    rw [hpending, hheld, h.pending]
  · show (j, other) ∈ held (w.log ++ [.cleared ip]) ↔ own j (w.log ++ [.cleared ip]) = _
    rw [hheld, hown, h.holds]
  · exact hheld ▸ h.nodup
  · exact hown j ▸ h.progress j

/-! ### Failures -/

/-- Time passes. -/
theorem throttled_later (h : Throttled w) (hle : w.clock ≤ now) : Throttled ⟨w.security, now, w.log⟩ := by
  refine ⟨h.all.later hle, h.each.later hle, ?_, fun ip => ?_, h.bounded, h.boundedEach⟩
  · exact (Nat.add_le_add_right (within_later hle h.all.past) _).trans h.room
  · exact (Nat.add_le_add_right (within_later hle (h.each.kept ip).past) _).trans (h.roomEach ip)

/-- Old failures are dropped. -/
theorem throttled_pruned (h : Throttled w) (hle : w.clock ≤ now) : Throttled ⟨w.security.pruneLogins now, now, w.log⟩ := by
  have hlater := throttled_later h hle
  exact ⟨h.all.pruned hle, h.each.pruned hle, hlater.room, hlater.roomEach, h.bounded, h.boundedEach⟩

/-- An event that is no failure and no success. -/
theorem throttled_quiet {security : SecurityState} {e : Event ι} (h : Throttled ⟨security, now, log⟩)
    (hfailure : failure e = none) (hrecalled : ∀ key times, recalled key times e = times)
    (hroom : (within loginRateWindow now ((failures log).map Prod.snd)).length + (hold (held log) e).length
      ≤ loginAllRateAttempts)
    (hroomEach : ∀ key, (within loginRateWindow now (failuresSince key log)).length +
      ((hold (held log) e).map Prod.snd).count key ≤ loginRateAttempts)
    (pendingLogins : Dict String Nat) (pendingLoginTotal : Int) :
    Throttled ⟨{ security with pendingLogins, pendingLoginTotal }, now, log ++ [e]⟩ := by
  have hfailures : failures (log ++ [e]) = failures log := by
    rw [failures_concat, hfailure]
    exact List.append_nil _
  have hsince : ∀ key, failuresSince key (log ++ [e]) = failuresSince key log := fun key =>
    (failuresSince_concat key log e).trans (hrecalled key _)
  refine ⟨?_, ?_, ?_, fun key => ?_, ?_, fun key => ?_⟩
  · exact hfailures ▸ h.all
  · exact (funext hsince : (fun key => failuresSince key (log ++ [e])) = _) ▸ h.each
  · show (within loginRateWindow now ((failures (log ++ [e])).map Prod.snd)).length + (held (log ++ [e])).length ≤ _
    rw [hfailures, held_concat]
    exact hroom
  · show (within loginRateWindow now (failuresSince key (log ++ [e]))).length +
      ((held (log ++ [e])).map Prod.snd).count key ≤ _
    rw [hsince, held_concat]
    exact hroomEach key
  · exact hfailures ▸ h.bounded
  · exact hsince key ▸ h.boundedEach key

/-- A reservation takes room that is there. -/
theorem throttled_reserved {security : SecurityState} (h : Throttled ⟨security, now, log⟩)
    (hall : (within loginRateWindow now ((failures log).map Prod.snd)).length + (held log).length < loginAllRateAttempts)
    (heach : (within loginRateWindow now (failuresSince ip log)).length + ((held log).map Prod.snd).count ip < loginRateAttempts)
    (pendingLogins : Dict String Nat) (pendingLoginTotal : Int) :
    Throttled ⟨{ security with pendingLogins, pendingLoginTotal }, now, log ++ [.reserved i ip]⟩ := by
  have hheld : hold (held log) (.reserved i ip) = (i, ip) :: held log := rfl
  refine throttled_quiet h rfl (fun _ _ => rfl) (hheld ▸ hall) (fun key => ?_) _ _
  rw [hheld, List.map_cons, List.count_cons]
  by_cases hkey : ip = key
  · subst hkey
    simpa [Nat.add_assoc] using Nat.succ_le_of_lt heach
  · simpa [hkey] using h.roomEach key

/-- A release without a failure. -/
theorem throttled_released {security : SecurityState} (h : Throttled ⟨security, now, log⟩)
    (pendingLogins : Dict String Nat) (pendingLoginTotal : Int) :
    Throttled ⟨{ security with pendingLogins, pendingLoginTotal }, now, log ++ [.finished i ip false now]⟩ := by
  refine throttled_quiet h rfl (fun _ _ => rfl) ?_ (fun key => ?_) _ _
  · exact (Nat.add_le_add_left (List.erase_sublist.length_le) _).trans h.room
  · exact (Nat.add_le_add_left ((List.erase_sublist.map _).count_le _) _).trans (h.roomEach key)

/-- The histories are few, as each of them has a failure in the window. -/
theorem logins_few (h : Throttled w) (hle : w.clock ≤ now) :
    (pruneMap w.security.logins (now - loginRateWindow)).length ≤
      (within loginRateWindow now ((failures w.log).map Prod.snd)).length := by
  have hpruned := h.each.pruned hle
  have hlater : within loginRateWindow now ((failures w.log).map Prod.snd) =
      ((failures w.log).filter (fun entry => now - loginRateWindow < entry.2 ∧ entry.2 ≤ now)).map Prod.snd := by
    rw [within, List.filter_map]
    rfl
  have hsub : (pruneMap w.security.logins (now - loginRateWindow)).keys ⊆
      ((failures w.log).filter (fun entry => now - loginRateWindow < entry.2 ∧ entry.2 ≤ now)).map Prod.fst := by
    intro key hkey
    have hsome := hpruned.mem_keys_iff.mp hkey
    rw [h.each.queueOf_eq hle] at hsome
    obtain ⟨t, ht⟩ := List.exists_mem_of_ne_nil _ hsome
    obtain ⟨htimes, hwindow⟩ := List.mem_filter.mp ht
    obtain ⟨entry, hentry, rfl⟩ := List.mem_map.mp ((failuresSince_sublist key w.log).subset htimes)
    obtain ⟨hin, hip⟩ := List.mem_filter.mp hentry
    exact List.mem_map.mpr ⟨entry, List.mem_filter.mpr ⟨hin, hwindow⟩, by simpa using hip⟩
  have hlength := (List.subperm_of_subset hpruned.uniq hsub).length_le
  rw [List.length_map] at hlength
  rw [hlater, List.length_map]
  exact (List.length_map _).symm.le.trans hlength

/-- A reservation that becomes a failure. -/
theorem throttled_failed (h : Throttled w) (hle : w.clock ≤ now) (hin : (i, ip) ∈ held w.log) :
    Throttled ⟨w.security.recordLoginFailureLocked ip now, now, w.log ++ [.finished i ip true now]⟩ := by
  have hheld : held (w.log ++ [.finished i ip true now]) = (held w.log).erase (i, ip) := held_concat _ _
  have hlength : (held w.log).length = ((held w.log).erase (i, ip)).length + 1 := by
    rw [(List.perm_cons_erase hin).length_eq, List.length_cons]
  have hfailures : (failures (w.log ++ [.finished i ip true now])).map Prod.snd =
      (failures w.log).map Prod.snd ++ [now] := by
    rw [failures_concat, List.map_append]
    rfl
  have hsince : (fun key => failuresSince key (w.log ++ [.finished i ip true now])) =
      Function.update (fun key => failuresSince key w.log) ip (failuresSince ip w.log ++ [now]) := by
    funext key
    rw [failuresSince_concat]
    by_cases hkey : key = ip
    · rw [hkey, Function.update_self]
      exact if_pos rfl
    · rw [Function.update_of_ne hkey]
      exact if_neg (Ne.symm hkey)
  have hpruned := throttled_pruned h hle
  have hroom : (within loginRateWindow now ((failures w.log).map Prod.snd)).length + (held w.log).length
      ≤ loginAllRateAttempts := hpruned.room
  have hroomEach : ∀ key, (within loginRateWindow now (failuresSince key w.log)).length +
      ((held w.log).map Prod.snd).count key ≤ loginRateAttempts := hpruned.roomEach
  have hown := count_erase hin ip
  rw [if_pos rfl] at hown
  -- nothing is evicted, as there are fewer histories than the map may hold
  have hfew : (w.security.pruneLogins now).logins.length < rateMapLimit := by
    have hwindow := (logins_few h hle).trans ((Nat.le_add_right _ _).trans hroom)
    exact lt_of_le_of_lt hwindow (by decide)
  have hlogins : (w.security.recordLoginFailureLocked ip now).logins =
      (w.security.pruneLogins now).logins.set ip (queueOf (w.security.pruneLogins now).logins ip ++ [now]) := by
    show (makeRoom (w.security.pruneLogins now).logins ip).set ip _ = _
    rw [makeRoom_of_room hfew]
  have hsinceAt : ∀ key, failuresSince key (w.log ++ [.finished i ip true now]) =
      if key = ip then failuresSince ip w.log ++ [now] else failuresSince key w.log := fun key => by
    rw [congrFun hsince key, Function.update_apply]
  refine ⟨?_, ?_, ?_, fun key => ?_, ?_, fun key => ?_⟩
  · exact hfailures ▸ hpruned.all.concat
  · rw [hlogins, hsince]
    exact hpruned.each.append (.inr hfew)
  · -- one failure more, one reservation less
    show (within _ now ((failures (w.log ++ [.finished i ip true now])).map Prod.snd)).length +
      (held (w.log ++ [.finished i ip true now])).length ≤ _
    rw [hfailures, hheld]
    have hmore := length_within_concat_le loginRateWindow now ((failures w.log).map Prod.snd)
    omega
  · show (within _ now (failuresSince key (w.log ++ [.finished i ip true now]))).length +
      ((held (w.log ++ [.finished i ip true now])).map Prod.snd).count key ≤ _
    rw [hsinceAt, hheld]
    by_cases hkey : key = ip
    · rw [if_pos hkey, hkey]
      have hmore := length_within_concat_le loginRateWindow now (failuresSince ip w.log)
      have hbound := hroomEach ip
      omega
    · rw [if_neg hkey]
      exact (Nat.add_le_add_left ((List.erase_sublist.map _).count_le _) _).trans (hroomEach key)
  · rw [hfailures]
    exact h.bounded.concat (by omega) (throttled_later h hle).all.past
  · show Bounded _ _ (failuresSince key (w.log ++ [.finished i ip true now]))
    rw [hsinceAt]
    by_cases hkey : key = ip
    · rw [if_pos hkey]
      have hbound := hroomEach ip
      exact (h.boundedEach ip).concat (by omega) ((throttled_later h hle).each.kept ip).past
    · rw [if_neg hkey]
      exact h.boundedEach key

/-- A success drops the failures of its address. -/
theorem throttled_cleared (h : Throttled w) (ip : String) :
    Throttled ⟨w.security.clearLoginFailures ip, w.clock, w.log ++ [.cleared ip]⟩ := by
  have hfailures : failures (w.log ++ [.cleared ip]) = failures w.log := (failures_concat _ _).trans (List.append_nil _)
  have hsince : (fun key => failuresSince key (w.log ++ [.cleared ip])) =
      Function.update (fun key => failuresSince key w.log) ip [] := by
    funext key
    rw [failuresSince_concat]
    by_cases hkey : key = ip
    · rw [hkey, Function.update_self]
      exact if_pos rfl
    · rw [Function.update_of_ne hkey]
      exact if_neg (Ne.symm hkey)
  have hsinceAt : ∀ key, failuresSince key (w.log ++ [.cleared ip]) = if key = ip then [] else failuresSince key w.log :=
    fun key => by rw [congrFun hsince key, Function.update_apply]
  have hheld : held (w.log ++ [.cleared ip]) = held w.log := held_concat _ _
  refine ⟨?_, ?_, ?_, fun key => ?_, ?_, fun key => ?_⟩
  · exact hfailures ▸ h.all
  · rw [hsince]
    exact h.each.erase ip
  · show (within _ w.clock ((failures (w.log ++ [.cleared ip])).map Prod.snd)).length + (held (w.log ++ [.cleared ip])).length ≤ _
    rw [hfailures, hheld]
    exact h.room
  · show (within _ w.clock (failuresSince key (w.log ++ [.cleared ip]))).length +
      ((held (w.log ++ [.cleared ip])).map Prod.snd).count key ≤ _
    have hbound := h.roomEach key
    rw [hsinceAt, hheld]
    split
    · exact (Nat.add_le_add_right (Nat.zero_le _) _).trans hbound
    · exact hbound
  · exact hfailures ▸ h.bounded
  · show Bounded _ _ (failuresSince key (w.log ++ [.cleared ip]))
    rw [hsinceAt]
    split
    · exact bounded_nil _ _
    · exact h.boundedEach key

end ProxyGateway.Web
