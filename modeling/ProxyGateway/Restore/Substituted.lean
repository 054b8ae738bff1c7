import ProxyGateway.Restore.Identity

set_option autoImplicit false

/-!
# ProxyGateway.Restore.Substituted

What the substitution does to a text with places that denote the machine. The text is given by the parts in
front of, between and behind these places, with the old address in between. It is restored as it should be,
with the new address between the same parts, where the items of the identity occur nowhere else
(`restored_of_kept`), and for every new machine only there (`restored_iff`).
-/

namespace ProxyGateway.Restore

open Text

variable {bak cur : MachineId} {b c : Option (List Char)} {old new text : List Char} {parts : List (List Char)}

/-! ### One item -/

/-- The pass for an item. -/
def pass (sub : Option (List Char × List Char)) (text : List Char) : List Char :=
  match sub with
  | none => text
  | some (old, new) => replace old new text

theorem subbed_eq (bak cur : MachineId) (text : List Char) :
    subbed (substitutions bak cur) text =
      pass (pair bak.certDir cur.certDir) (pass (pair bak.cidr cur.cidr) (pass (pair bak.ip cur.ip) text)) := by
  rw [subbed, substitutions]
  cases pair bak.ip cur.ip <;> cases pair bak.cidr cur.cidr <;> cases pair bak.certDir cur.certDir <;> rfl

theorem pair_eq_some : pair b c = some (old, new) ↔ b = some old ∧ c = some new ∧ old ≠ [] ∧ new ≠ [] ∧ old ≠ new := by
  unfold pair
  split
  · simp only [Option.ite_none_right_eq_some, Bool.and_eq_true, decide_eq_true_eq, Option.some.injEq, Prod.mk.injEq]
    constructor
    · rintro ⟨⟨⟨hold, hnew⟩, hne⟩, rfl, rfl⟩
      exact ⟨rfl, rfl, hold, hnew, hne⟩
    · rintro ⟨rfl, rfl, hold, hnew, hne⟩
      exact ⟨⟨⟨hold, hnew⟩, hne⟩, rfl, rfl⟩
  next hnone =>
    refine ⟨nofun, fun ⟨hb, hc, _⟩ => (hnone old new hb hc).elim⟩

/-- An item that both machines share is not replaced. -/
theorem pair_self (b : Option (List Char)) : pair b b = none := by
  cases h : pair b b with
  | none => rfl
  | some sub =>
      obtain ⟨hold, hnew, -, -, hne⟩ := pair_eq_some.mp h
      exact (hne (Option.some.inj (hold.symm.trans hnew))).elim

/-! ### What should be restored -/

/-- The address between the parts of the text in the backup; empty where none was read. -/
def MachineId.address (m : MachineId) : List Char := m.ip.getD []

/-- The address between the parts of the text that is restored. -/
def rebound (bak cur : MachineId) : List Char :=
  match pair bak.ip cur.ip with
  | some (_, new) => new
  | none => bak.address

/-- The items that differ occur nowhere but in the places that denote the machine: splitting the text at the
old address gives the parts, and the other items are not in the text, nor in the one with the new address. -/
structure Kept (bak cur : MachineId) (parts : List (List Char)) : Prop where
  address : ∀ old new, pair bak.ip cur.ip = some (old, new) → splitOn old (old.intercalate parts) = parts
  network : ∀ old new, pair bak.cidr cur.cidr = some (old, new) → ¬old <:+: (rebound bak cur).intercalate parts
  certDir : ∀ old new, pair bak.certDir cur.certDir = some (old, new) → ¬old <:+: (rebound bak cur).intercalate parts

/-- The text is restored with the new address between the same parts. -/
def Restores (bak cur : MachineId) (parts : List (List Char)) : Prop :=
  subbed (substitutions bak cur) (bak.address.intercalate parts) = (rebound bak cur).intercalate parts

theorem pass_address (h : ∀ old new, pair bak.ip cur.ip = some (old, new) → splitOn old (old.intercalate parts) = parts) :
    pass (pair bak.ip cur.ip) (bak.address.intercalate parts) = (rebound bak cur).intercalate parts := by
  rw [rebound]
  cases hpair : pair bak.ip cur.ip with
  | none => rfl
  | some sub =>
      obtain ⟨old, new⟩ := sub
      have hbak : bak.address = old := by rw [MachineId.address, (pair_eq_some.mp hpair).1, Option.getD_some]
      rw [hbak]
      show replace old new _ = _
      rw [← intercalate_splitOn, h old new hpair]

theorem pass_of_free (h : ∀ old new, pair b c = some (old, new) → ¬old <:+: text) : pass (pair b c) text = text := by
  cases hpair : pair b c with
  | none => rfl
  | some sub => exact replace_eq_self (h _ _ hpair) sub.2

theorem free_of_pass (h : pass (pair b c) text = text) (old new : List Char) (hpair : pair b c = some (old, new)) :
    ¬old <:+: text := by
  obtain ⟨-, -, hold, -, hne⟩ := pair_eq_some.mp hpair
  rw [hpair] at h
  exact (replace_eq_self_iff hold hne).mp h

/-- Where the items occur in their places only, each pass replaces what it should. -/
theorem restores_of_kept (h : Kept bak cur parts) : Restores bak cur parts := by
  rw [Restores, subbed_eq, pass_address h.address, pass_of_free h.network, pass_of_free h.certDir]

/-! ### Every new machine -/

/-- The passes for a machine that differs in the address, -/
theorem subbed_address (ip : Option (List Char)) (text : List Char) :
    subbed (substitutions bak { bak with ip }) text = pass (pair bak.ip ip) text := by
  rw [subbed_eq]
  show pass (pair bak.certDir bak.certDir) (pass (pair bak.cidr bak.cidr) _) = _
  rw [pair_self, pair_self]
  rfl

/-- in the address and the network, -/
theorem subbed_network (ip cidr : Option (List Char)) (text : List Char) :
    subbed (substitutions bak { bak with ip, cidr }) text = pass (pair bak.cidr cidr) (pass (pair bak.ip ip) text) := by
  rw [subbed_eq]
  show pass (pair bak.certDir bak.certDir) _ = _
  rw [pair_self]
  rfl

/-- and in the address and the directory. -/
theorem subbed_certDir (ip certDir : Option (List Char)) (text : List Char) :
    subbed (substitutions bak { bak with ip, certDir }) text = pass (pair bak.certDir certDir) (pass (pair bak.ip ip) text) := by
  rw [subbed_eq]
  show pass _ (pass (pair bak.cidr bak.cidr) _) = _
  rw [pair_self]
  rfl

/-- A backup that is restored as it should be on every machine has the old items in their places only. -/
theorem kept_of_restores (hparts : parts ≠ []) (h : ∀ cur, Restores bak cur parts) (cur : MachineId) : Kept bak cur parts := by
  -- after the pass for the address the text is as it should be, whatever the other items are
  have haddress : pass (pair bak.ip cur.ip) (bak.address.intercalate parts) = (rebound bak cur).intercalate parts := by
    have hsame := h { bak with ip := cur.ip }
    rwa [Restores, subbed_address] at hsame
  constructor
  · intro old new hpair
    obtain ⟨hbak, -, hold, -, -⟩ := pair_eq_some.mp hpair
    have hbak' : bak.address = old := by rw [MachineId.address, hbak, Option.getD_some]
    have hsplit : old.intercalate (splitOn old (old.intercalate parts)) = old.intercalate parts := by
      rw [intercalate_splitOn, replace_self hold]
    -- one machine for each character: its address is that character alone
    have hall : ∀ c : Char, [c] ≠ old → [c].intercalate (splitOn old (old.intercalate parts)) = [c].intercalate parts := by
      intro c hc
      have hsame := h { bak with ip := some [c] }
      have hpair' : pair bak.ip (some [c]) = some (old, [c]) :=
        pair_eq_some.mpr ⟨hbak, rfl, hold, List.cons_ne_nil _ _, Ne.symm hc⟩
      rw [Restores, subbed_address, rebound, hpair', hbak'] at hsame
      exact (intercalate_splitOn _ _ _).trans hsame
    exact intercalate_inj (splitOnFrom_ne_nil _ _ _) hparts hsplit hall
  · refine free_of_pass ?_
    have hsame := h { bak with ip := cur.ip, cidr := cur.cidr }
    rwa [Restores, subbed_network, haddress] at hsame
  · refine free_of_pass ?_
    have hsame := h { bak with ip := cur.ip, certDir := cur.certDir }
    rwa [Restores, subbed_certDir, haddress] at hsame

/-- The configuration of a machine at `1.2.3.4` with one exit. -/
def exitDocument (server : String) : Json :=
  .obj [("outbounds", .arr [.obj [("server", .str server)]]),
    ("route", .obj [("rules", .arr [.obj [("action", .str "reject"), ("ip_cidr", .arr [.str "1.2.3.4/32"])]])])]

/-- Its text in front of the address and behind it. -/
def exitParts (server : String) : List (List Char) :=
  [("\x7b\"outbounds\":[\x7b\"server\":\"" ++ server ++
      "\"\x7d],\"route\":\x7b\"rules\":[\x7b\"action\":\"reject\",\"ip_cidr\":[\"").toList,
    "/32\"]\x7d]\x7d\x7d".toList]

/-- A reader of plain texts. -/
def plainReader (server : String) : Reader where
  decode data := some (data.map fun x => Char.ofNat x.toNat)
  loads _ := some (exitDocument server)

/-- The bytes of the text. -/
def exitBytes (server : String) : List UInt8 :=
  ("1.2.3.4".toList.intercalate (exitParts server)).map fun c => UInt8.ofNat c.toNat

/-- Another machine. -/
def newMachine : MachineId where
  ip := some "9.9.9.9".toList
  cidr := none
  certDir := none

theorem kept_exit :
    Kept (machineIdFrom (plainReader "5.6.7.8") (some (exitBytes "5.6.7.8")) none) newMachine (exitParts "5.6.7.8") := by
  have hold : machineIdFrom (plainReader "5.6.7.8") (some (exitBytes "5.6.7.8")) none =
      { ip := some "1.2.3.4".toList, cidr := none, certDir := none } := by decide
  rw [hold]
  refine ⟨fun old new hpair => ?_, fun _ _ hpair => ?_, fun _ _ hpair => ?_⟩
  · obtain ⟨rfl, rfl⟩ := Prod.mk.inj (Option.some.inj hpair)
    decide
  · cases hpair
  · cases hpair

end ProxyGateway.Restore
