import ProxyGateway.Pdgtx.Machine

set_option autoImplicit false

/-!
# ProxyGateway.Pdgtx.Service

Services and health: the programs of the transaction core that only ask
(`systemctl show`, `is-active`, DNS and port probes) or only act on the running
system (service actions, restoring the runtime state). None of them writes a
production file or a transaction directory, which is all the state machine needs
to know about them (`Quiet`); what the commands answer is up to the environment.

The texts these functions build for reports are left out; where the source returns
a message or `""`, the model returns whether it was `""`.
-/

namespace ProxyGateway.Pdgtx

/-- Operations that leave the world as it is. -/
def Op.quiet : Op → Bool
  | .readTarget _ | .targetExists _ | .listTx | .loadMeta _ | .loadSub .. | .loadIndex _
  | .listSub .. | .listTop _ | .validate .. | .derive .. | .run _ | .dnsAnswers
  | .tcpListening _ => true
  | _ => false

theorem exec_quiet {H : Host} {pid : Pid} {e : Op} (h : e.quiet = true) (c : Choice) (w : World) :
    (exec H pid e c w).2 = w := by
  cases e <;> first | rfl | simp [Op.quiet] at h

/-- A program of quiet operations. -/
abbrev Quiet {α : Type} (p : Proc α) : Prop := p.Only (fun e => e.quiet = true)

/-- `s.strip()` on command output. -/
def trim (s : String) : String := String.ofList (Text.strip s.toList)

/-- `_run`. -/
def run (cmd : List String) : Proc (Int × String) := perform (.run cmd)

/-- `_svc_prop_ex`: a property's value and whether the query succeeded. -/
def svcPropEx (unit : ServiceUnit) (prop : String) : Proc (String × Bool) := do
  let (rc, out) ← run ["systemctl", "show", "-p", prop, "--value", unit.name]
  return (trim out, rc == 0)

/-- `_svc_prop`. -/
def svcProp (unit : ServiceUnit) (prop : String) : Proc String := do
  let (value, _) ← svcPropEx unit prop
  return value

/-- `_svc_active`. -/
def svcActive (unit : ServiceUnit) : Proc Bool := do
  let (_, out) ← run ["systemctl", "is-active", unit.name]
  return trim out == "active"

/-- `PDG_STABLE_SAMPLES`, the number of consecutive good samples. -/
def stableSamples : Nat := 3

/-- `max_polls`. -/
def maxPolls : Nat := 15

/-- The polling loop of both stability criteria: sample until `stableSamples` good
answers came in a row or the polls are used up; returns the last streak. -/
def pollStreak (sample : Proc Bool) : Nat → Nat → Proc Nat
  | 0, streak => .ret streak
  | polls + 1, streak => sample.bind (fun good =>
      if good then
        if streak + 1 ≥ stableSamples then .ret (streak + 1)
        else pollStreak sample polls (streak + 1)
      else pollStreak sample polls 0)

/-- `int(text)` for the optional sign and decimal digits `systemctl` prints. -/
def parseInt (s : String) : Option Int :=
  let digits (cs : List Char) : Option Int :=
    if cs ≠ [] ∧ cs.all Char.isDigit then
      some (cs.foldl (fun n c => n * 10 + Int.ofNat (c.toNat - '0'.toNat)) 0)
    else none
  match Text.strip s.toList with
  | '-' :: cs => (digits cs).map (fun n => -n)
  | '+' :: cs => digits cs
  | cs => digits cs

/-- `value or "0"`. -/
def orZero (s : String) : String := if s = "" then "0" else s

/-- `svc_stable`: active in enough consecutive samples, without a restart in between. -/
def svcStable (unit : ServiceUnit) : Proc Bool := do
  let r0 ← svcProp unit "NRestarts"
  let streak ← pollStreak (svcActive unit) maxPolls 0
  if streak < stableSamples then return false
  let r1 ← svcProp unit "NRestarts"
  match parseInt (orZero r1), parseInt (orZero r0) with
  | some after, some before => return !decide (after > before)
  | _, _ => return true

/-- `svc_inactive_stable`: `ActiveState` is `inactive` in enough consecutive samples. -/
def svcInactiveStable (unit : ServiceUnit) : Proc Bool := do
  let streak ← pollStreak
    ((svcProp unit "ActiveState").bind (fun st => .ret (trim st == "inactive"))) maxPolls 0
  return decide (streak ≥ stableSamples)

/-- A hard gate of the health snapshot. -/
inductive Gate where
  | svc (u : ServiceUnit)
  | dns
  | port (n : Nat)
  deriving DecidableEq, Repr

/-- `DOT_PROBE`. -/
def dotProbe : Nat := 853

/-- `REDIR_PROBE`. -/
def redirProbe : Nat := 7893

/-- The gate of one unit in scope; a relaxed unit, and a `pdg-mitm` that is not
loaded, has none. -/
def unitGate (relax : List ServiceUnit) (u : ServiceUnit) : Proc (List (Gate × Bool)) :=
  if relax.contains u then .ret []
  else if u = .pdgMitm then do
    let load ← svcProp u "LoadState"
    if load ≠ "loaded" then return []
    let up ← svcActive u
    return [(Gate.svc u, up)]
  else do
    let up ← svcActive u
    return [(Gate.svc u, up)]

/-- The gates of the DNS service: it answers, and the phone's DoT port listens. -/
def dnsGates (inScope : Bool) : Proc (List (Gate × Bool)) :=
  if inScope then do
    let answers ← perform .dnsAnswers
    let dot ← perform (.tcpListening dotProbe)
    return [(Gate.dns, answers), (Gate.port dotProbe, dot)]
  else .ret []

/-- The gate of the proxy core: its redirect port listens. -/
def redirGates (inScope : Bool) : Proc (List (Gate × Bool)) :=
  if inScope then do
    let up ← perform (.tcpListening redirProbe)
    return [(Gate.port redirProbe, up)]
  else .ret []

/-- `health_snapshot`: the hard gates of the services in scope. -/
def healthSnapshot (services relax : List ServiceUnit) : Proc (List (Gate × Bool)) := do
  let svcs ← Prog.collect (unitGate relax) (sortedUnits services.contains)
  let dns ← dnsGates (services.contains .mosdns)
  let redir ← redirGates (services.contains .mihomo)
  return svcs ++ dns ++ redir

/-- `/etc/nftables.conf`. -/
def nftPath : Path := "/etc/nftables.conf"

/-- `/etc/sysctl.d/99-pdg-tfo.conf`. -/
def sysctlPath : Path := "/etc/sysctl.d/99-pdg-tfo.conf"

/-- The sysctl part of `_restore_runtime`; returns whether every value is back. -/
def restoreSysctl : List (String × String) → Proc Bool
  | [] => .ret true
  | (key, val) :: rest => do
      let ok ← (if val = "" then return true
        else do
          let (rc, _) ← run ["sysctl", "-w", key ++ "=" ++ val]
          if rc ≠ 0 then return false
          let (rc2, cur) ← run ["sysctl", "-n", key]
          return rc2 == 0 && trim cur == trim val)
      let others ← restoreSysctl rest
      return ok && others

/-- The firewall part of `_restore_runtime`. -/
def restoreNft (H : Host) (loaded : Option Bool) : Proc Bool :=
  if loaded = some true then
    match H.nftBin with
    | none => .ret false
    | some exe => do
        let (rc, _) ← run [exe, "-f", nftPath]
        if rc ≠ 0 then return false
        let (rc2, _) ← run [exe, "list", "table", "inet", "pdg"]
        return rc2 == 0
  else .ret true

/-- One unit of `_restore_runtime`: bring it back to running or stopped, then check
that it is enabled exactly as before. -/
def restoreUnit (u : ServiceUnit) (st : SvcRec) : Proc Bool := do
  if st.active then
    let _ ← run ["systemctl", "reset-failed", u.name]
    let (rc, _) ← run ["systemctl", "restart", u.name]
    if rc ≠ 0 then return false
    let stable ← svcStable u
    let (now, ok) ← svcPropEx u "UnitFileState"
    return stable && ok && trim st.enabled == trim now
  else
    let (rc, _) ← run ["systemctl", "stop", u.name]
    let stopped ← (if rc ≠ 0 then return false else svcInactiveStable u)
    let (now, ok) ← svcPropEx u "UnitFileState"
    return stopped && ok && trim st.enabled == trim now

/-- The service part of `_restore_runtime`. -/
def restoreUnits : List (ServiceUnit × SvcRec) → Proc Bool
  | [] => .ret true
  | (u, st) :: rest => do
      let ok ← restoreUnit u st
      let others ← restoreUnits rest
      return ok && others

/-- `_restore_runtime`: `true` when nothing is left unrestored. -/
def restoreRuntime (H : Host) (bi : BeforeIndex) : Proc Bool := do
  let sysctl ← restoreSysctl bi.sysctl
  let nft ← restoreNft H bi.nftLoaded
  let units ← restoreUnits bi.services
  return sysctl && nft && units

/-- The settings a sysctl file asks for. -/
def sysctlWants (text : List Char) : Dict String String :=
  (Text.lines text).foldl (fun want line =>
    let ln := Text.strip ((Text.splitAt '#' line).headD [])
    match Text.afterFirst '=' ln with
    | some v => want.set (String.ofList (Text.strip (ln.takeWhile (· ≠ '='))))
        (String.ofList (Text.strip v))
    | none => want) []

/-- Read every setting back after `sysctl -p`. -/
def sysctlReadback : List (String × String) → Proc Bool
  | [] => .ret true
  | (k, v) :: rest => do
      let (rc, cur) ← run ["sysctl", "-n", k]
      if rc ≠ 0 ∨ trim cur ≠ v then return false
      sysctlReadback rest

/-- One action of `_do_actions`: did it succeed? -/
def doAction (H : Host) : Action → Proc Bool
  | .daemonReload => do
      let (rc, _) ← run ["systemctl", "daemon-reload"]
      return rc == 0
  | .nftApply => match H.nftBin with
      | none => .ret false
      | some exe => do
          let (rc, _) ← run [exe, "-f", nftPath]
          return rc == 0
  | .sysctlApply => do
      let there ← perform (.targetExists sysctlPath)
      if !there then return false
      let (rc, _) ← run ["sysctl", "-p", sysctlPath]
      if rc ≠ 0 then return false
      let node ← perform (.readTarget sysctlPath)
      sysctlReadback (sysctlWants (H.decodeReplace (node.data?.getD [])))
  | .start u => do
      let _ ← run ["systemctl", "reset-failed", u.name]
      let (rc, _) ← run ["systemctl", "start", u.name]
      return rc == 0
  | .stop u => do
      let (rc, _) ← run ["systemctl", "stop", u.name]
      return rc == 0
  | .restart u => do
      let _ ← run ["systemctl", "reset-failed", u.name]
      let (rc, _) ← run ["systemctl", "restart", u.name]
      return rc == 0

/-- `_do_actions`: stop at the first action that fails. -/
def doActions (H : Host) : List Action → Proc Bool
  | [] => .ret true
  | a :: rest => do
      let ok ← doAction H a
      if ok then doActions H rest else return false

/-! ### All of these are quiet -/

section Quiet

variable (H : Host) (u : ServiceUnit)

theorem quiet_run (cmd : List String) : Quiet (run cmd) := Prog.only_perform rfl

theorem quiet_svcPropEx (prop : String) : Quiet (svcPropEx u prop) :=
  (quiet_run _).bind (fun _ => Prog.only_ret _)

theorem quiet_svcProp (prop : String) : Quiet (svcProp u prop) :=
  (quiet_svcPropEx u prop).bind (fun _ => Prog.only_ret _)

theorem quiet_svcActive : Quiet (svcActive u) := (quiet_run _).bind (fun _ => Prog.only_ret _)

theorem quiet_pollStreak {sample : Proc Bool} (h : Quiet sample) (polls streak : Nat) :
    Quiet (pollStreak sample polls streak) := by
  induction polls generalizing streak with
  | zero => exact Prog.only_ret _
  | succ polls ih =>
      refine h.bind (fun good => ?_)
      split
      · split
        · exact Prog.only_ret _
        · exact ih _
      · exact ih _

theorem quiet_svcStable : Quiet (svcStable u) := by
  unfold svcStable
  refine (quiet_svcProp u _).bind (fun r0 => ?_)
  refine (quiet_pollStreak (quiet_svcActive u) _ _).bind (fun streak => ?_)
  split
  · exact Prog.only_ret _
  · refine (quiet_svcProp u _).bind (fun r1 => ?_)
    split <;> exact Prog.only_ret _

theorem quiet_svcInactiveStable : Quiet (svcInactiveStable u) := by
  unfold svcInactiveStable
  refine (quiet_pollStreak ?_ _ _).bind (fun _ => Prog.only_ret _)
  exact (quiet_svcProp u _).bind (fun _ => Prog.only_ret _)

theorem quiet_unitGate (relax : List ServiceUnit) : Quiet (unitGate relax u) := by
  unfold unitGate
  split
  · exact Prog.only_ret _
  · split
    · refine (quiet_svcProp u _).bind (fun load => ?_)
      split
      · exact Prog.only_ret _
      · exact (quiet_svcActive u).bind (fun _ => Prog.only_ret _)
    · exact (quiet_svcActive u).bind (fun _ => Prog.only_ret _)

theorem quiet_dnsGates (inScope : Bool) : Quiet (dnsGates inScope) := by
  unfold dnsGates
  split
  · refine Prog.Only.bind (Prog.only_perform rfl) (fun answers => ?_)
    exact Prog.Only.bind (Prog.only_perform rfl) (fun _ => Prog.only_ret _)
  · exact Prog.only_ret _

theorem quiet_redirGates (inScope : Bool) : Quiet (redirGates inScope) := by
  unfold redirGates
  split
  · exact Prog.Only.bind (Prog.only_perform rfl) (fun _ => Prog.only_ret _)
  · exact Prog.only_ret _

theorem quiet_healthSnapshot (services relax : List ServiceUnit) :
    Quiet (healthSnapshot services relax) := by
  unfold healthSnapshot
  refine (Prog.Only.collect (fun v => quiet_unitGate v relax) _).bind (fun svcs => ?_)
  refine (quiet_dnsGates _).bind (fun dns => ?_)
  exact (quiet_redirGates _).bind (fun _ => Prog.only_ret _)

theorem quiet_restoreSysctl (xs : List (String × String)) : Quiet (restoreSysctl xs) := by
  induction xs with
  | nil => exact Prog.only_ret _
  | cons x xs ih =>
      unfold restoreSysctl
      refine Prog.Only.bind ?_ (fun ok => ih.bind (fun _ => Prog.only_ret _))
      split
      · exact Prog.only_ret _
      · refine (quiet_run _).bind (fun r => ?_)
        obtain ⟨rc, out⟩ := r
        dsimp only
        split
        · exact Prog.only_ret _
        · exact (quiet_run _).bind (fun _ => Prog.only_ret _)

theorem quiet_restoreNft (loaded : Option Bool) : Quiet (restoreNft H loaded) := by
  unfold restoreNft
  split
  · split
    · exact Prog.only_ret _
    · refine (quiet_run _).bind (fun r => ?_)
      obtain ⟨rc, out⟩ := r
      dsimp only
      split
      · exact Prog.only_ret _
      · exact (quiet_run _).bind (fun _ => Prog.only_ret _)
  · exact Prog.only_ret _

theorem quiet_restoreUnit (st : SvcRec) : Quiet (restoreUnit u st) := by
  unfold restoreUnit
  split
  · refine (quiet_run _).bind (fun _ => (quiet_run _).bind (fun r => ?_))
    obtain ⟨rc, out⟩ := r
    dsimp only
    split
    · exact Prog.only_ret _
    · refine (quiet_svcStable u).bind (fun stable => ?_)
      exact (quiet_svcPropEx u _).bind (fun _ => Prog.only_ret _)
  · refine (quiet_run _).bind (fun r => Prog.Only.bind ?_ (fun stopped => ?_))
    · obtain ⟨rc, out⟩ := r
      dsimp only
      split
      · exact Prog.only_ret _
      · exact quiet_svcInactiveStable u
    · exact (quiet_svcPropEx u _).bind (fun _ => Prog.only_ret _)

theorem quiet_restoreUnits (xs : List (ServiceUnit × SvcRec)) : Quiet (restoreUnits xs) := by
  induction xs with
  | nil => exact Prog.only_ret _
  | cons x xs ih =>
      unfold restoreUnits
      exact (quiet_restoreUnit _ _).bind (fun _ => ih.bind (fun _ => Prog.only_ret _))

theorem quiet_restoreRuntime (bi : BeforeIndex) : Quiet (restoreRuntime H bi) := by
  unfold restoreRuntime
  refine (quiet_restoreSysctl _).bind (fun sysctl => ?_)
  refine (quiet_restoreNft H _).bind (fun nft => ?_)
  exact (quiet_restoreUnits _).bind (fun _ => Prog.only_ret _)

theorem quiet_sysctlReadback (xs : List (String × String)) : Quiet (sysctlReadback xs) := by
  induction xs with
  | nil => exact Prog.only_ret _
  | cons x xs ih =>
      unfold sysctlReadback
      refine (quiet_run _).bind (fun r => ?_)
      obtain ⟨rc, cur⟩ := r
      dsimp only
      split
      · exact Prog.only_ret _
      · exact ih

theorem quiet_doAction (a : Action) : Quiet (doAction H a) := by
  cases a with
  | daemonReload => exact (quiet_run _).bind (fun _ => Prog.only_ret _)
  | nftApply =>
      simp only [doAction]
      split
      · exact Prog.only_ret _
      · exact (quiet_run _).bind (fun _ => Prog.only_ret _)
  | sysctlApply =>
      simp only [doAction]
      refine Prog.Only.bind (Prog.only_perform rfl) (fun there => ?_)
      split
      · exact Prog.only_ret _
      · refine (quiet_run _).bind (fun r => ?_)
        obtain ⟨rc, out⟩ := r
        dsimp only
        split
        · exact Prog.only_ret _
        · exact Prog.Only.bind (Prog.only_perform rfl) (fun _ => quiet_sysctlReadback _)
  | start u => exact (quiet_run _).bind (fun _ => (quiet_run _).bind (fun _ => Prog.only_ret _))
  | stop u => exact (quiet_run _).bind (fun _ => Prog.only_ret _)
  | restart u => exact (quiet_run _).bind (fun _ => (quiet_run _).bind (fun _ => Prog.only_ret _))

theorem quiet_doActions (as : List Action) : Quiet (doActions H as) := by
  induction as with
  | nil => exact Prog.only_ret _
  | cons a as ih =>
      unfold doActions
      refine (quiet_doAction H a).bind (fun ok => ?_)
      split
      · exact ih
      · exact Prog.only_ret _

end Quiet

end ProxyGateway.Pdgtx
