import ProxyGateway.Http.Guarded

set_option autoImplicit false

/-!
# ProxyGateway.Http.Sessions

The store of the sessions under any number of threads, one section of one of them at a time. The ledger
says which session is open under a key (`opened`): the last one that was created with it, unless it was
closed since. The store never has another (`Kept`), so that every call of the control layer goes back to a
login with the right password, whatever the other threads do in between (`calls_warranted`).
-/

namespace ProxyGateway.Http

open Ledger

variable {P : Python} {config : Config} {ι : Type}

/-! ### The store -/

/-- The session that is open under the key, and the thread that opened it. -/
def opened (key : Bytes) : List (Event ι) → Option (ι × Session)
  | [] => none
  | ⟨i, .create key' _ _, session⟩ :: past => if key' = key then some (i, session) else opened key past
  | ⟨_, .destroy key', _⟩ :: past => if key' = key then none else opened key past
  | _ :: past => opened key past

/-- What the answers of the store say. -/
def Truthful (config : Config) : Event ι → List (Event ι) → Prop
  | ⟨_, .create _ csrf now, session⟩, _ => session = ⟨csrf, now + config.sessionSeconds⟩
  | ⟨_, .session key now, some session⟩, past => now < session.expires ∧ ∃ j, opened key past = some (j, session)
  | _, _ => True

/-- The store has open sessions only, and not too many of them. -/
structure Kept (config : Config) (s : Shared ι) : Prop where
  uniq : s.world.sessions.Uniq
  bounded : s.world.sessions.length ≤ maxSessions
  holds : ∀ key session, s.world.sessions.get? key = some session → ∃ j, opened key s.past = some (j, session)
  truthful : Lawful (Truthful config) s.past

theorem kept_start : Kept config (⟨.start, []⟩ : Shared ι) where
  uniq := List.nodup_nil
  bounded := Nat.zero_le _
  holds := fun _ _ h => by cases h
  truthful := trivial

section Parts

variable {sessions left : Dict Bytes Session}

theorem uniq_of_sublist (hsub : List.Sublist left sessions) (h : sessions.Uniq) : left.Uniq :=
  (hsub.map Prod.fst).nodup h

theorem get?_of_sublist (hsub : List.Sublist left sessions) (h : sessions.Uniq) {key : Bytes} {session : Session}
    (hget : left.get? key = some session) : sessions.get? key = some session :=
  h.get?_of_mem (hsub.subset (Dict.mem_of_get? hget))

theorem sublist_cleanup (sessions : Dict Bytes Session) (now : ℚ) : List.Sublist (cleanup sessions now) sessions :=
  List.filter_sublist

theorem sublist_makeRoom (sessions : Dict Bytes Session) : List.Sublist (makeRoom sessions) sessions := by
  unfold makeRoom
  split
  · split
    · exact List.filter_sublist
    · exact List.Sublist.refl _
  · exact List.Sublist.refl _

/-- There is room for one more. -/
theorem length_makeRoom (h : sessions.length ≤ maxSessions) : (makeRoom sessions).length < maxSessions := by
  unfold makeRoom
  split
  next hfull =>
    split
    next oldest holdest =>
      have hmem : oldest ∈ sessions := List.argmin_mem holdest
      have hshorter : (sessions.erase oldest.1).length < sessions.length :=
        List.length_filter_lt_length_iff_exists.mpr ⟨oldest, hmem, by simp⟩
      omega
    next hnone =>
      rw [List.argmin_eq_none.mp hnone] at hfull
      exact absurd hfull (by decide)
  next hroom => omega

theorem length_set_le (sessions : Dict Bytes Session) (key : Bytes) (session : Session) :
    (sessions.set key session).length ≤ sessions.length + 1 := by
  have hlength : ∀ d : Dict Bytes Session, d.length = d.keys.length := fun d => (List.length_map _).symm
  rw [hlength, hlength, Dict.keys_set]
  split
  · exact Nat.le_succ _
  · rw [List.length_append]
    exact Nat.le_refl _

end Parts

/-- Every section keeps the store. -/
theorem kept_exec (i : ι) (e : Section) (s : Shared ι) (h : Kept config s) :
    Kept config (exec (Section.run config) i e () s).2 := by
  cases e with
  | create key csrf now =>
      have hsub : List.Sublist (makeRoom (cleanup s.world.sessions now)) s.world.sessions :=
        (sublist_makeRoom _).trans (sublist_cleanup _ _)
      have huniq := uniq_of_sublist hsub h.uniq
      have hroom : (makeRoom (cleanup s.world.sessions now)).length < maxSessions :=
        length_makeRoom ((sublist_cleanup _ _).length_le.trans h.bounded)
      refine ⟨huniq.set _ _, (length_set_le _ _ _).trans hroom, fun key' session hget => ?_, ⟨rfl, h.truthful⟩⟩
      have hget : ((makeRoom (cleanup s.world.sessions now)).set key ⟨csrf, now + config.sessionSeconds⟩).get? key' =
        some session := hget
      show ∃ j, (if key = key' then some (i, _) else opened key' s.past) = some (j, session)
      by_cases hkey : key = key'
      · subst hkey
        rw [Dict.get?_set_self] at hget
        cases hget
        exact ⟨i, if_pos rfl⟩
      · rw [Dict.get?_set_ne hkey] at hget
        rw [if_neg hkey]
        exact h.holds _ _ (get?_of_sublist hsub h.uniq hget)
  | session key now =>
      have hsub := sublist_cleanup s.world.sessions now
      refine ⟨uniq_of_sublist hsub h.uniq, hsub.length_le.trans h.bounded, fun key' session hget => ?_, ?_, h.truthful⟩
      · exact h.holds _ _ (get?_of_sublist hsub h.uniq hget)
      · show Truthful config ⟨i, .session key now, (lookup s.world.sessions key now).1⟩ s.past
        cases hfound : (lookup s.world.sessions key now).1 with
        | none => trivial
        | some session =>
            obtain ⟨hget, hlive⟩ := Option.filter_eq_some_iff.mp hfound
            exact ⟨of_decide_eq_true hlive, h.holds _ _ (get?_of_sublist hsub h.uniq hget)⟩
  | destroy key =>
      have hsub : List.Sublist (s.world.sessions.erase key) s.world.sessions := List.filter_sublist
      refine ⟨h.uniq.erase _, hsub.length_le.trans h.bounded, fun key' session hget => ?_, trivial, h.truthful⟩
      have hget : (s.world.sessions.erase key).get? key' = some session := hget
      show ∃ j, (if key = key' then none else opened key' s.past) = some (j, session)
      by_cases hkey : key = key'
      · subst hkey
        rw [Dict.get?_erase_self] at hget
        cases hget
      · rw [if_neg hkey]
        exact h.holds _ _ (get?_of_sublist hsub h.uniq hget)
  -- the other sections leave the sessions alone
  | rate ip now => exact ⟨h.uniq, h.bounded, h.holds, trivial, h.truthful⟩
  | reserve ip now => exact ⟨h.uniq, h.bounded, h.holds, trivial, h.truthful⟩
  | finish ip failed now => exact ⟨h.uniq, h.bounded, h.holds, trivial, h.truthful⟩
  | clear ip => exact ⟨h.uniq, h.bounded, h.holds, trivial, h.truthful⟩
  | control c => exact ⟨h.uniq, h.bounded, h.holds, trivial, h.truthful⟩
  | send r => exact ⟨h.uniq, h.bounded, h.holds, trivial, h.truthful⟩

/-- An open session was created by its thread, with nothing about it since. -/
theorem created_of_opened {key : Bytes} {past : List (Event ι)} {j : ι} {session : Session}
    (h : opened key past = some (j, session)) : ∃ csrf now, (⟨j, .create key csrf now, session⟩ : Event ι) ∈ past := by
  induction past with
  | nil => cases h
  | cons entry past ih =>
      have hrest : opened key past = some (j, session) →
          ∃ csrf now, (⟨j, .create key csrf now, session⟩ : Event ι) ∈ entry :: past := by
        intro hopened
        obtain ⟨csrf, now, hmem⟩ := ih hopened
        exact ⟨csrf, now, List.mem_cons_of_mem _ hmem⟩
      obtain ⟨i, e, answer⟩ := entry
      cases e with
      | create key' csrf now =>
          have hlatest : (if key' = key then some (i, answer) else opened key past) = some (j, session) := h
          by_cases hkey : key' = key
          · rw [if_pos hkey] at hlatest
            cases hlatest
            subst hkey
            exact ⟨csrf, now, List.mem_cons_self⟩
          · rw [if_neg hkey] at hlatest
            exact hrest hlatest
      | destroy key' =>
          have hlatest : (if key' = key then none else opened key past) = some (j, session) := h
          by_cases hkey : key' = key
          · rw [if_pos hkey] at hlatest
            cases hlatest
          · rw [if_neg hkey] at hlatest
            exact hrest hlatest
      | _ => exact hrest h

/-! ### The service -/

/-- A thread serves one request. -/
structure Thread where
  around : Around
  request : Request

/-- The shared state after the steps of the threads in the given order. -/
def serving [DecidableEq ι] (P : Python) (config : Config) (threads : ι → Thread) (order : List ι) : Shared ι :=
  (play (Section.run config) order
    (fun i => handle P config (threads i).around (threads i).request false, ⟨.start, []⟩)).2

/-- A call of the control layer by thread `i`, behind what the ledger says: the store has given the thread
a session that was open then, and a thread with the right password had opened it. -/
structure Warranted (P : Python) (config : Config) (threads : ι → Thread) (i : ι) (c : Call) (past : List (Event ι)) :
    Prop where
  passed : Passed P config (threads i).request
  session : ∃ token session before j, cookieToken P (threads i).request = some token ∧
    (⟨i, .session (config.sessionKey token) ((threads i).around.clock .session), some session⟩ : Event ι) :: before <:+
      past ∧
    opened (config.sessionKey token) before = some (j, session) ∧
    (threads i).around.clock .session < session.expires ∧
    ((threads i).request.command.mutation = true →
      getAll P (threads i).request csrfHeaderName = [session.csrf.text]) ∧
    Verified P config (threads j).around (threads j).request ∧
    config.sessionKey token = config.sessionKey (threads j).around.newToken.text ∧
    session = ⟨(threads j).around.newCsrf, (threads j).around.clock .create + config.sessionSeconds⟩
  password : ∀ kind, c = .exportConfig kind → RightPassword P config (threads i).request

/-- In every order of steps every call of the control layer is warranted, and there are never more than
`maxSessions` sessions. -/
theorem calls_warranted [DecidableEq ι] (P : Python) (config : Config) (threads : ι → Thread) (order : List ι) :
    Lawful (fun entry past => ∀ c, entry.op = .control c → Warranted P config threads entry.author c past)
        (serving P config threads order).past ∧
      (serving P config threads order).world.sessions.length ≤ maxSessions := by
  have hsat : ∀ i, Prog.Sat
      (among (Section.run config) (Kept config) (lawOf P config (threads i).around (threads i).request i) i)
      (fun _ _ => True) (handle P config (threads i).around (threads i).request false) (⟨.start, []⟩ : Shared ι) :=
    fun i => Prog.Sat.mono (abides_handle.keeps false _ trivial) fun _ _ _ => trivial
  obtain ⟨-, hkept, hlaw⟩ := play_lawful kept_exec order hsat kept_start trivial
  refine ⟨(hlaw.and hkept.truthful).mono ?_, hkept.bounded⟩
  rintro ⟨i, e, answer⟩ past hpast ⟨hentry, -⟩ c rfl
  obtain ⟨hpassed, ⟨token, session, htoken, hmem, hcsrf⟩, hpassword⟩ := hentry
  refine ⟨hpassed, ?_, hpassword⟩
  -- the store gave what was open
  obtain ⟨before, hbefore, -, hlive, j, hopened⟩ := hpast.of_mem hmem
  -- and the thread that opened it knew the password
  obtain ⟨csrf, now, hcreated⟩ := created_of_opened hopened
  have hcreated := hbefore.subset (List.mem_cons_of_mem _ hcreated)
  obtain ⟨_, -, hlawful, htrue⟩ := hpast.of_mem hcreated
  obtain ⟨hverified, hkey, hnewCsrf, hnow⟩ := hlawful
  have hsession : session = ⟨csrf, now + config.sessionSeconds⟩ := htrue
  rw [hnewCsrf, hnow] at hsession
  exact ⟨token, session, before, j, htoken, hbefore, hopened, hlive, hcsrf, hverified, hkey, hsession⟩

end ProxyGateway.Http
