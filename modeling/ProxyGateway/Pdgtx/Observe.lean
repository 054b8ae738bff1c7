import ProxyGateway.Pdgtx.Commit

set_option autoImplicit false

/-!
# ProxyGateway.Pdgtx.Observe

The verdict of `_observe`. It asks for a rollback because of what it saw and of the baseline
alone (`observeWith`): because of a unit or a gate that was good and is bad now, or a unit that
misses the state an action asks for (`Degraded`), but also because of a bad one that the baseline
does not know (`Unknown`). Such a unit is `pdg-mitm` that was not loaded, which is kept as it is
everywhere else.
-/

namespace ProxyGateway.Pdgtx

open Method Prog

variable {base : Dict Gate Bool} {exp : Dict ServiceUnit Want} {us services : List ServiceUnit}
  {reached : ServiceUnit → Bool} {after : List (Gate × Bool)} {good : Bool} {t t' : Tx}

/-- What `_observe` asks of one unit. -/
def unitCheck (exp : Dict ServiceUnit Want) (u : ServiceUnit) : Proc Bool :=
  if exp.get? u = some .inactive then svcInactiveStable u else svcStable u

/-- No action names the unit, and it was not running before. -/
def leftAlone (base : Dict Gate Bool) (exp : Dict ServiceUnit Want) (u : ServiceUnit) : Bool :=
  (exp.get? u).isNone && base.get? (.svc u) == some false

/-- `observeUnits` with any check of a unit. -/
def observeUnitsWith (check : ServiceUnit → Proc Bool) (base : Dict Gate Bool)
    (exp : Dict ServiceUnit Want) : List ServiceUnit → Proc Bool
  | [] => .ret true
  | u :: rest => (check u).bind fun ok =>
      if ok || leftAlone base exp u then observeUnitsWith check base exp rest else .ret false

/-- `_observe` with any check of a unit and any snapshot. -/
def observeWith (check : ServiceUnit → Proc Bool) (snapshot : Proc (List (Gate × Bool)))
    (base : Dict Gate Bool) : TxM Bool := do
  let t ← self
  let good ← call (observeUnitsWith check base (expectedStates t.actions) t.services)
  if good then do
    let after ← call snapshot
    saveMeta
    return after.all (fun p => p.2 || base.get? p.1 == some false)
  else return false

theorem observeUnits_eq : observeUnits base exp us = observeUnitsWith (unitCheck exp) base exp us := by
  induction us with
  | nil => rfl
  | cons u us ih =>
      unfold observeUnits observeUnitsWith
      rw [← ih]
      rfl

/-- `_observe` checks its units, then takes the snapshot of its services. -/
theorem observe_eq (base : Dict Gate Bool) (t : Tx) : observe base t =
    observeWith (unitCheck (expectedStates t.actions))
      (healthSnapshot t.services (relaxUnits t.actions)) base t := by
  have hunits := @observeUnits_eq base (expectedStates t.actions) t.services
  unfold observe observeWith
  show (Prog.bind (observeUnits base (expectedStates t.actions) t.services) _).bind _ = _
  rw [hunits]
  rfl

/-- `_observe`, where the checks and the snapshot have these answers. -/
def observed (reached : ServiceUnit → Bool) (after : List (Gate × Bool)) (base : Dict Gate Bool) :
    TxM Bool :=
  observeWith (fun u => .ret (reached u)) (.ret after) base

/-! ### Every run is such an observation -/

/-- What a system answers that knows of nothing. -/
def silentAnswer : (e : Op) → e.Answer
  | .lock => LockAnswer.busy
  | .unlock => ()
  | .readTarget _ => Node.absent
  | .targetExists _ => false
  | .replaceTarget .. | .unlinkTarget .. | .makeTx _ => false
  | .listTx => []
  | .loadMeta _ => none
  | .storeMeta .. | .storeDiff _ | .storeSub .. | .storeIndex .. => false
  | .loadSub .. => none
  | .loadIndex _ => none
  | .listSub .. => none
  | .unlinkSub .. | .unlinkIndex _ | .rmdirSub .. => false
  | .listTop _ => []
  | .unlinkMeta _ | .rmdirTx _ => false
  | .validate .. => Verdict.pass
  | .derive .. => Derived.nothing
  | .run _ => (0, "")
  | .dnsAnswers | .tcpListening _ => false

theorem nonempty_answer (e : Op) : Nonempty e.Answer := ⟨silentAnswer e⟩

theorem services_nodup : t.services.Nodup :=
  List.Nodup.filter _ (by decide)

theorem observeUnitsWith_congr {check check' : ServiceUnit → Proc Bool}
    (h : ∀ u ∈ us, check u = check' u) :
    observeUnitsWith check base exp us = observeUnitsWith check' base exp us := by
  induction us with
  | nil => rfl
  | cons u us ih =>
      unfold observeUnitsWith
      rw [h u (by simp), ih fun w hw => h w (by simp [hw])]

/-- The loop over the units depends on their answers only. -/
theorem observeUnitsWith_answers {check : ServiceUnit → Proc Bool} {v : Bool} (hus : us.Nodup)
    (h : Yields (observeUnitsWith check base exp us) v) :
    ∃ reached : ServiceUnit → Bool, (∀ u ∈ us, Yields (check u) (reached u)) ∧
      Yields (observeUnitsWith (fun u => .ret (reached u)) base exp us) v := by
  induction us generalizing v with
  | nil => exact ⟨fun _ => true, by simp, h⟩
  | cons u us ih =>
      obtain ⟨hu, hus⟩ := List.nodup_cons.mp hus
      obtain ⟨ok, hok, hrest⟩ := yields_bind_iff.mp h
      -- the answers for the rest, whether or not the loop gets there
      obtain ⟨reached, hreached, hloop⟩ : ∃ reached : ServiceUnit → Bool,
          (∀ u ∈ us, Yields (check u) (reached u)) ∧
            ((ok || leftAlone base exp u) = true →
              Yields (observeUnitsWith (fun u => .ret (reached u)) base exp us) v) := by
        cases hgo : ok || leftAlone base exp u with
        | true =>
            rw [hgo] at hrest
            obtain ⟨reached, hreached, hloop⟩ := ih hus hrest
            exact ⟨reached, hreached, fun _ => hloop⟩
        | false =>
            have hany : ∀ w, ∃ b, Yields (check w) b := fun w => exists_yields nonempty_answer _
            exact ⟨fun w => (hany w).choose, fun w _ => (hany w).choose_spec, fun hno => by cases hno⟩
      have hother : ∀ w ∈ us, Function.update reached u ok w = reached w := fun w hw =>
        Function.update_of_ne (show w ≠ u from fun heq => hu (heq ▸ hw)) ok reached
      refine ⟨Function.update reached u ok, ?_, ?_⟩
      · intro w hw
        rcases List.mem_cons.mp hw with rfl | hw
        · rwa [Function.update_self]
        · rw [hother w hw]
          exact hreached w hw
      · have hsame : observeUnitsWith (fun w => .ret (Function.update reached u ok w)) base exp us =
            observeUnitsWith (fun w => .ret (reached w)) base exp us := by
          exact observeUnitsWith_congr fun w hw => by rw [hother w hw]
        unfold observeUnitsWith
        rw [Function.update_self, ret_bind, hsame]
        cases hgo : ok || leftAlone base exp u with
        | true => exact hloop hgo
        | false =>
            rw [hgo] at hrest
            exact hrest

/-- Every run of `_observe` is an observation with answers that its probes can give. -/
theorem observe_answers {r : Except Exn Bool} (h : Yields (observe base t) (r, t')) :
    ∃ reached after,
      (∀ u ∈ t.services, Yields (unitCheck (expectedStates t.actions) u) (reached u)) ∧
      Yields (healthSnapshot t.services (relaxUnits t.actions)) after ∧
      Yields (observed reached after base t) (r, t') := by
  rw [observe_eq] at h
  obtain ⟨object, hself, hrest⟩ := yields_bind_iff.mp h
  obtain rfl := yields_ret_iff.mp hself
  obtain ⟨units, hunits, hrest⟩ := yields_bind_iff.mp hrest
  obtain ⟨good, hgood, hunits⟩ := yields_bind_iff.mp hunits
  obtain rfl := yields_ret_iff.mp hunits
  obtain ⟨reached, hreached, hloop⟩ := observeUnitsWith_answers services_nodup hgood
  obtain ⟨after₀, hafter₀⟩ :=
    exists_yields nonempty_answer (healthSnapshot t.services (relaxUnits t.actions))
  have hfront : Yields ((observeUnitsWith (fun u => .ret (reached u)) base
      (expectedStates t.actions) t.services).bind fun a => .ret ((.ok a : Except Exn Bool), t))
        (.ok good, t) :=
    yields_bind_iff.mpr ⟨good, hloop, .ret _⟩
  cases good with
  | false =>
      refine ⟨reached, after₀, hreached, hafter₀, yields_bind_iff.mpr ⟨_, .ret _, ?_⟩⟩
      exact yields_bind_iff.mpr ⟨_, hfront, hrest⟩
  | true =>
      obtain ⟨snapshot, hsnapshot, hsave⟩ := yields_bind_iff.mp hrest
      obtain ⟨after, hafter, hsnapshot⟩ := yields_bind_iff.mp hsnapshot
      obtain rfl := yields_ret_iff.mp hsnapshot
      refine ⟨reached, after, hreached, hafter, yields_bind_iff.mpr ⟨_, .ret _, ?_⟩⟩
      refine yields_bind_iff.mpr ⟨_, hfront, ?_⟩
      exact yields_bind_iff.mpr ⟨_, yields_bind_iff.mpr ⟨after, .ret _, .ret _⟩, hsave⟩

/-! ### The verdict -/

theorem observeUnitsWith_ret : observeUnitsWith (fun u => .ret (reached u)) base exp us =
    .ret (us.all fun u => reached u || leftAlone base exp u) := by
  induction us with
  | nil => rfl
  | cons u us ih =>
      unfold observeUnitsWith
      rw [ret_bind, ih, List.all_cons]
      cases reached u || leftAlone base exp u <;> rfl

/-- `_observe` answers with both tests. -/
theorem observed_verdict (h : Yields (observed reached after base t) (.ok good, t')) :
    good = ((t.services.all fun u => reached u || leftAlone base (expectedStates t.actions) u) &&
      after.all fun p => p.2 || base.get? p.1 == some false) := by
  obtain ⟨object, hself, hrest⟩ := yields_bind_iff.mp h
  obtain rfl := yields_ret_iff.mp hself
  obtain ⟨units, hunits, hrest⟩ := yields_bind_iff.mp hrest
  obtain ⟨all, hall, hunits⟩ := yields_bind_iff.mp hunits
  obtain rfl := yields_ret_iff.mp hunits
  rw [observeUnitsWith_ret] at hall
  rw [← yields_ret_iff.mp hall]
  cases all with
  | false =>
      have hret := yields_ret_iff.mp hrest
      cases hret
      rfl
  | true =>
      obtain ⟨snapshot, hsnapshot, hsave⟩ := yields_bind_iff.mp hrest
      obtain ⟨seen, hseen, hsnapshot⟩ := yields_bind_iff.mp hsnapshot
      obtain rfl := yields_ret_iff.mp hsnapshot
      obtain rfl := yields_ret_iff.mp hseen
      obtain ⟨⟨saved, t''⟩, -, hverdict⟩ := yields_bind_iff.mp hsave
      cases saved with
      | ok u =>
          have hret := yields_ret_iff.mp hverdict
          cases hret
          rfl
      | error e =>
          have hret := yields_ret_iff.mp hverdict
          cases hret

/-- A gate is bad after the operation: the snapshot says so, or it is a unit that no action names
and that is not stable. -/
def BadNow (exp : Dict ServiceUnit Want) (services : List ServiceUnit) (reached : ServiceUnit → Bool)
    (after : List (Gate × Bool)) (gate : Gate) : Prop :=
  (gate, false) ∈ after ∨
    ∃ u ∈ services, gate = .svc u ∧ exp.get? u = none ∧ reached u = false

/-- A unit named by an action did not reach its state, or a gate that was good is bad. -/
def Degraded (base : Dict Gate Bool) (exp : Dict ServiceUnit Want) (services : List ServiceUnit)
    (reached : ServiceUnit → Bool) (after : List (Gate × Bool)) : Prop :=
  (∃ u ∈ services, exp.get? u ≠ none ∧ reached u = false) ∨
    ∃ gate, base.get? gate = some true ∧ BadNow exp services reached after gate

/-- A gate that the baseline does not hold is bad. -/
def Unknown (base : Dict Gate Bool) (exp : Dict ServiceUnit Want) (services : List ServiceUnit)
    (reached : ServiceUnit → Bool) (after : List (Gate × Bool)) : Prop :=
  ∃ gate, base.get? gate = none ∧ BadNow exp services reached after gate

theorem not_leftAlone_iff {u : ServiceUnit} : leftAlone base exp u = false ↔
    exp.get? u ≠ none ∨ base.get? (.svc u) = some true ∨ base.get? (.svc u) = none := by
  unfold leftAlone
  cases exp.get? u with
  | some want => simp
  | none =>
      cases base.get? (.svc u) with
      | none => simp
      | some b => cases b <;> simp

/-- A rollback is due to what degraded, or to what the baseline does not hold. -/
theorem rollback_iff :
    ((services.all fun u => reached u || leftAlone base exp u) &&
        after.all fun p => p.2 || base.get? p.1 == some false) = false ↔
      Degraded base exp services reached after ∨ Unknown base exp services reached after := by
  rw [Bool.and_eq_false_iff, List.all_eq_false, List.all_eq_false]
  constructor
  · intro h
    rcases h with ⟨u, hu, hbad⟩ | ⟨⟨gate, b⟩, hgate, hbad⟩
    · rw [Bool.not_eq_true, Bool.or_eq_false_iff, not_leftAlone_iff] at hbad
      -- a unit that was not reached: one that an action names, one that ran before, one nothing is known of
      obtain ⟨hreached, hnamed | hgood | hnone⟩ := hbad
      · exact .inl (.inl ⟨u, hu, hnamed, hreached⟩)
      · cases hexp : exp.get? u with
        | some want => exact .inl (.inl ⟨u, hu, by simp [hexp], hreached⟩)
        | none => exact .inl (.inr ⟨.svc u, hgood, .inr ⟨u, hu, rfl, hexp, hreached⟩⟩)
      · cases hexp : exp.get? u with
        | some want => exact .inl (.inl ⟨u, hu, by simp [hexp], hreached⟩)
        | none => exact .inr ⟨.svc u, hnone, .inr ⟨u, hu, rfl, hexp, hreached⟩⟩
    · rw [Bool.not_eq_true, Bool.or_eq_false_iff] at hbad
      obtain ⟨rfl, hbase⟩ := hbad
      cases hget : base.get? gate with
      | none => exact .inr ⟨gate, hget, .inl hgate⟩
      | some before =>
          cases before with
          | true => exact .inl (.inr ⟨gate, hget, .inl hgate⟩)
          | false => simp [hget] at hbase
  · intro h
    have hbad : ∀ gate, base.get? gate ≠ some false → BadNow exp services reached after gate →
        (∃ u ∈ services, ¬ (reached u || leftAlone base exp u) = true) ∨
          ∃ p ∈ after, ¬ (p.2 || base.get? p.1 == some false) = true := by
      intro gate hgate hnow
      rcases hnow with hafter | ⟨u, hu, rfl, -, hreached⟩
      · exact .inr ⟨(gate, false), hafter, by simpa using hgate⟩
      · refine .inl ⟨u, hu, ?_⟩
        rw [Bool.not_eq_true, Bool.or_eq_false_iff]
        refine ⟨hreached, ?_⟩
        unfold leftAlone
        rw [Bool.and_eq_false_iff]
        exact .inr (by simpa using hgate)
    rcases h with (⟨u, hu, hnamed, hreached⟩ | ⟨gate, hgate, hnow⟩) | ⟨gate, hgate, hnow⟩
    · refine .inl ⟨u, hu, ?_⟩
      rw [Bool.not_eq_true, Bool.or_eq_false_iff, not_leftAlone_iff]
      exact ⟨hreached, .inl hnamed⟩
    · exact hbad gate (by simp [hgate]) hnow
    · exact hbad gate (by simp [hgate]) hnow

/-- Every run of `_observe` is an observation, and an observation asks for a rollback exactly
when something degraded, iff that is so or nothing is bad that the baseline does not hold. -/
theorem observe_exact_iff (base : Dict Gate Bool) (t : Tx) :
    (∀ r t', Yields (observe base t) (r, t') → ∃ reached after,
      (∀ u ∈ t.services, Yields (unitCheck (expectedStates t.actions) u) (reached u)) ∧
      Yields (healthSnapshot t.services (relaxUnits t.actions)) after ∧
      Yields (observed reached after base t) (r, t')) ∧
    ∀ reached after good t', Yields (observed reached after base t) (.ok good, t') →
      ((good = false ↔ Degraded base (expectedStates t.actions) t.services reached after) ↔
        (Degraded base (expectedStates t.actions) t.services reached after ∨
          ¬ Unknown base (expectedStates t.actions) t.services reached after)) := by
  refine ⟨fun r t' h => observe_answers h, fun reached after good t' h => ?_⟩
  rw [observed_verdict h, rollback_iff]
  by_cases hdegraded : Degraded base (expectedStates t.actions) t.services reached after
  · simp [hdegraded]
  · simp [hdegraded]

/-- `mitm.json`, which the service `pdg-mitm` reads. -/
def mitmTarget : Target where
  path := "/opt/pdg-bot/mitm.json"
  mode := 0o600
  validators := []
  data := some []
  candidate := none
  expect := none
  existed := false

/-- A transaction on this file, without an action. -/
def mitmTx : Tx where
  txid := "20260101-000000-ab"
  mode := .normal
  targets := [("mitm_json", mitmTarget)]
  metaJson := ⟨"20260101-000000-ab", 1, "", .normal, .observing, [], [], [], [], [], none, none, [],
    [], [], "", none⟩

/-- Where `pdg-mitm` is not loaded, the baseline has no gate for it and nothing is bad; it is as it
was afterwards, and `_observe` asks for a rollback. -/
theorem absentUnit_rolls_back :
    Yields (healthSnapshot mitmTx.services (relaxUnits mitmTx.actions)) [] ∧
      Yields (observe [] mitmTx) (.ok false, mitmTx) ∧
      Yields (observed (fun _ => false) [] [] mitmTx) (.ok false, mitmTx) ∧
      ¬ Degraded [] (expectedStates mitmTx.actions) mitmTx.services (fun _ => false) [] := by
  have hsilent : ∀ {α : Type} (p : Proc α) (a : α),
      (complete (fun e _ w => (silentAnswer e, w)) (fun _ => ()) p ()).1 = a → Yields p a := by
    intro α p a ha
    rw [← ha]
    exact yields_complete _ p _ ()
  refine ⟨hsilent _ _ rfl, hsilent _ _ rfl, hsilent _ _ rfl, ?_⟩
  intro h
  rcases h with ⟨u, -, hnamed, -⟩ | ⟨gate, hgate, -⟩
  · exact hnamed rfl
  · cases hgate

end ProxyGateway.Pdgtx
