import ProxyGateway.Health.Sound

set_option autoImplicit false

/-!
# ProxyGateway.Health.Checks

A check performs only operations that its history permits, whatever fails and whatever is answered.
Every sequence of checks, each cut anywhere, therefore has a sound history.
-/

namespace ProxyGateway.Health

variable {initial : Option Json} {recipients : List Nat} {problems : Problems} {state : HealthState}

/-- Which operations may be performed in which world. -/
def permit (initial : Option Json) (op : Op) (w : World) : Prop :=
  match op with
  | .load => True
  | .save value => FitsEvent initial w.log (.saved value)
  | .post uid text => FitsEvent initial w.log (.sent uid text true)

/-- A check by itself: any call may fail, any answer may come. -/
abbrev alone (initial : Option Json) : Setting Op Op.Answer Choice World :=
  Setting.solo exec (fun _ => True) (permit initial)

/-- The file is the one that the history leaves, and the history is sound. -/
structure Inv (initial : Option Json) (w : World) : Prop where
  file : w.file = lastSaved initial w.log
  sound : Sound initial w.log

/-- A permitted operation keeps the invariant. -/
theorem exec_inv (op : Op) (c : Choice) (w : World)
    (hpermit : permit initial op w) (h : Inv initial w) : Inv initial (exec op c w).2 := by
  cases op with
  | load => exact h
  | save value =>
      by_cases hfail : c.fail = .before
      · simpa only [exec, if_pos hfail] using h
      · simp only [exec, if_neg hfail]
        exact ⟨rfl, hpermit, h.sound⟩
  | post uid text => exact ⟨h.file, hpermit, h.sound⟩


/-! ### The parts of a check -/

theorem saveState_sat (host : Host) {w : World} (hnodup : recipients.Nodup)
    (hcurrent : current w.log = some (recipients, problems))
    (h : Follows initial w.log recipients problems state) :
    Prog.Sat (alone initial) (fun ok w' => ok = true → Stored initial w'.log recipients problems state)
      (saveState host state) w := by
  by_cases hsize : maxStateBytes < host.size (encode state)
  · rw [saveState, if_pos hsize]
    intro w' _ hok
    cases hok
  · rw [saveState, if_neg hsize]
    refine Prog.sat_perform (fun v hv => ?_)
    cases hv
    refine ⟨⟨recipients, problems, hcurrent, h.fits hnodup⟩, fun c _ w' hw' hok => ?_⟩
    have hfail : c.fail = .never := of_decide_eq_true hok
    rw [← hw']
    simpa [alone, Setting.solo, exec, hfail] using h.stored hnodup hcurrent

theorem loadState_sat {w : World} (hinv : Inv initial w) :
    Prog.Sat (alone initial) (fun loaded w' => w' = w ∧ ∀ state, loaded = some state →
      Loads (lastSaved initial w.log) recipients state) (loadState recipients) w := by
  refine Prog.Sat.seq (M := fun answer w' => w' = w ∧ (answer = .absent → w.file = none) ∧
    ∀ v, answer = .value v → w.file = some v) ?_ (fun answer v hv => ?_)
  · refine Prog.sat_perform (fun v hv => ?_)
    cases hv
    refine ⟨trivial, fun c _ w' hw' => ⟨hw'.symm, ?_⟩⟩
    by_cases hfail : c.fail = .never
    · cases hfile : w.file <;> simp [alone, Setting.solo, exec, hfail, hfile]
    · simp [alone, Setting.solo, exec, hfail]
  · obtain ⟨rfl, habsent, hvalue⟩ := hv
    rw [← hinv.file]
    cases answer with
    | unavailable => exact fun w' hw' => ⟨hw'.symm, by simp⟩
    | absent =>
        refine fun w' hw' => ⟨hw'.symm, fun state hstate => ?_⟩
        rw [habsent rfl, ← Option.some_inj.mp hstate]
        exact loads_absent recipients
    | value value =>
        refine fun w' hw' => ⟨hw'.symm, fun state hstate => ?_⟩
        rw [hvalue value rfl]
        cases hread : decodeState value recipients with
        | error e => simp [hread, Except.toOption] at hstate
        | ok decoded =>
            rw [hread, Except.toOption, Option.some_inj] at hstate
            exact loads_decoded (hstate ▸ hread)

theorem deliver_sat (host : Host) (now : Time) (hnodup : recipients.Nodup) (uids : List Nat)
    (failed : Bool) {w : World} (h : Stored initial w.log recipients problems state) :
    Prog.Sat (alone initial) (fun _ _ => True) (deliver host now uids failed state) w := by
  induction uids generalizing failed state w with
  | nil => exact fun _ _ => trivial
  | cons uid uids ih =>
      rw [deliver]
      cases hready : ready state now uid with
      | none => exact ih failed h
      | some p =>
          have hsent : permit initial (.post uid (message p)) w :=
            ⟨recipients, problems, h.current, h.fitsSent hnodup hready⟩
          refine Prog.Sat.seq (M := fun reply w' => Follows initial w'.log recipients problems
            (receipt host now uid (confirmed reply) state) ∧
            current w'.log = some (recipients, problems)) ?_ (fun reply v hv => ?_)
          · refine Prog.sat_perform (fun v hv => ?_)
            cases hv
            refine ⟨hsent, fun c _ w' hw' => ?_⟩
            rw [← hw']
            exact ⟨h.follows_receipt hnodup host now uid (message p) (confirmed c.reply), h.current⟩
          · refine Prog.Sat.seq (saveState_sat host hnodup hv.2 hv.1) (fun ok v' hv' => ?_)
            cases ok with
            | false => exact fun _ _ => trivial
            | true => exact ih _ (hv' rfl)

/-- A check performs only operations that its history permits. -/
theorem run_sat (hlegacy : ∀ v, initial = some v → v.get? "schema" = none) (host : Host)
    (now : Time) {w : World} (hnodup : recipients.Nodup) (hinv : Inv initial w)
    (hcurrent : current w.log = some (recipients, problems)) :
    Prog.Sat (alone initial) (fun _ _ => True) (run host recipients problems now) w := by
  refine Prog.Sat.seq (loadState_sat hinv) (fun loaded v hv => ?_)
  obtain ⟨rfl, hloads⟩ := hv
  cases loaded with
  | none => exact fun _ _ => trivial
  | some state =>
      have hfollows := (hloads state rfl).follows_observed hlegacy hinv.sound host problems now
      refine Prog.Sat.seq (saveState_sat host hnodup hcurrent hfollows) (fun ok v' hv' => ?_)
      cases ok with
      | false => exact fun _ _ => trivial
      | true => exact deliver_sat host now hnodup recipients false (hv' rfl)

/-! ### Sequences of checks -/

theorem checkFrom_inv (hlegacy : ∀ v, initial = some v → v.get? "schema" = none) (host : Host)
    (allowed : List Nat) (problems : Problems) (now : Time) (choices : List Choice) {w : World}
    (hinv : Inv initial w) : Inv initial (checkFrom host allowed problems now choices w) := by
  have hbegan : Inv initial { w with log := .began (sortedSet allowed) problems :: w.log } :=
    ⟨hinv.file, trivial, hinv.sound⟩
  have hsat := run_sat hlegacy host now (sortedSet_nodup allowed) hbegan
    (by rfl : current _ = some (sortedSet allowed, problems))
  exact hsat.run_invariant exec_inv hbegan choices (fun _ _ => trivial)

/-- A host where sums are exact and every state is small. -/
def exactHost : Host := ⟨fun _ => 0, fun now seconds => now + seconds⟩

def mosdnsDown : Problems := ⟨["❌ mosdns: inactive"], by decide⟩

/-- What `bot.post` returns for a message that was accepted. -/
def accepted : Json := .obj [("ok", .bool true)]

/-- A check whose message is not acknowledged, then one that is cut before the receipt is saved. -/
def afterTwoChecks : World :=
  checkFrom exactHost [7] mosdnsDown 2000 [⟨.never, none⟩, ⟨.never, none⟩, ⟨.never, some accepted⟩]
    (checkFrom exactHost [7] mosdnsDown 1000
      [⟨.never, none⟩, ⟨.never, none⟩, ⟨.never, none⟩, ⟨.never, none⟩] ⟨none, []⟩)

end ProxyGateway.Health
