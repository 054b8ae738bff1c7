import ProxyGateway.Pdgtx.Refused
import ProxyGateway.Schema.Agreement
import ProxyGateway.Schema.ValidatorFaults

set_option autoImplicit false

/-!
# ProxyGateway.Schema.ValidationRefused

A candidate of the model target in a commit. When the validator answers, a bad candidate is
refused, and nothing of the transaction is left but its record (`refusal_clean_iff`). When it
raises, the commit stops in the middle of the validation (`outboundsNumber_preparing`).
-/

namespace ProxyGateway.Schema

open Py Json
open Pdgtx (Bytes Name Path Target)

variable {S : Stack} {H : Host} {R : Reader} {bytes : Bytes} {targets : Dict Name Target}
  {files : Path → Pdgtx.Node}

/-! ### Without the limits -/

theorem checked_eq_ok {α : Type} {label : String} {x : Py ModelError α} {a : α} :
    checked H label x = .ok a ↔ x = .ok a := by
  cases x with
  | ok b => simp [checked]
  | error e =>
      cases e with
      | error e => simp [checked, Py.raise]
      | fault f =>
          unfold checked
          dsimp only
          split <;> simp [Py.raise, Py.fault]

theorem unchecked_eq_ok {α : Type} {x : Py ModelError α} {a : α} :
    unchecked x = .ok a ↔ x = .ok a := by
  cases x with
  | ok b => simp [unchecked]
  | error e => cases e <;> simp [unchecked, Py.fault]

theorem rulesetsFit_of_on {doc : Json} {ruleMeta : Dict String Json}
    (h : rulesetsFitOn S H doc ruleMeta = .ok ()) : rulesetsFit H doc ruleMeta = .ok () := by
  obtain ⟨hspace, h⟩ := unit_bind_eq_ok.mp h
  obtain ⟨routable, hroutable, h⟩ := bind_eq_ok.mp h
  have hspace' : validateRulesetNamespace H.unicode doc ruleMeta.keys = .ok () := by
    obtain ⟨canonical, hnames, hcollide⟩ := bind_eq_ok.mp (checked_eq_ok.mp hspace)
    obtain ⟨normal, hnormal, hnames⟩ := bind_eq_ok.mp hnames
    obtain ⟨hdistinct, hnames⟩ := raiseIf_bind_eq_ok.mp hnames
    obtain ⟨result, hresult, hcollide⟩ := bind_eq_ok.mp hcollide
    cases pure_eq_ok.mp hnames
    unfold validateRulesetNamespace modelNamespace
    simp only [hnormal, hdistinct, raiseIf, migrate_of_migrateOn hresult, ok_bind, Bool.false_eq_true,
      if_false]
    exact hcollide
  have hroutable' : routableTags H.unicode doc = .ok routable := by
    obtain ⟨result, hresult, hrest⟩ := bind_eq_ok.mp (unchecked_eq_ok.mp hroutable)
    rw [routableTags, migrate_of_migrateOn hresult]
    exact hrest
  rw [rulesetsFit, checked_eq_ok.mpr hspace', unchecked_eq_ok.mpr hroutable']
  exact h

/-- What accepts the bytes accepts the document in them. -/
theorem vJsonModel_of_bytes (h : vJsonModelBytes S H R bytes targets files = .ok ()) :
    ∃ doc, R.loads bytes = .ok doc ∧ (doc.getD "_pdg" .null = .null ∨
      ∃ ruleMeta, candidateRulesetMeta R targets files = .ok ruleMeta ∧
        vJsonModel H ruleMeta ⟨doc, bytes.length⟩ = .ok ()) := by
  obtain ⟨hsize, h⟩ := raiseIf_bind_eq_ok.mp h
  obtain ⟨doc, hdoc, h⟩ := bind_eq_ok.mp h
  obtain ⟨hshape, h⟩ := raiseIf_bind_eq_ok.mp h
  obtain ⟨outbounds, houts, h⟩ := bind_eq_ok.mp h
  obtain ⟨hmetas, h⟩ := unit_bind_eq_ok.mp h
  have hloads : R.loads bytes = .ok doc := by
    have hdoc := refused_eq_ok.mp hdoc
    cases hl : R.loads bytes <;> simp_all [Except.mapError]
  refine ⟨doc, hloads, ?_⟩
  by_cases hnull : doc.getD "_pdg" .null = .null
  · exact Or.inl hnull
  dsimp only at h
  rw [if_neg hnull] at h
  obtain ⟨m, hm, h⟩ := bind_eq_ok.mp h
  obtain ⟨hparts, h⟩ := unit_bind_eq_ok.mp h
  obtain ⟨hvalid, h⟩ := unit_bind_eq_ok.mp h
  obtain ⟨ruleMeta, hanswer, h⟩ := bind_eq_ok.mp h
  refine Or.inr ⟨ruleMeta, refused_eq_ok.mp hanswer, ?_⟩
  have hfits : metaFits H ruleMeta ⟨doc, bytes.length⟩ (doc.getD "_pdg" .null) = .ok () := by
    rw [metaFits_eq, hm, ok_bind, hparts, ok_bind,
      checked_eq_ok.mpr (validate_of_validateOn (checked_eq_ok.mp hvalid)), ok_bind]
    exact rulesetsFit_of_on h
  have hsize' : decide (bytes.length = 0 ∨ bytes.length > maxManagedModel) = false := by
    simpa using hsize
  simp only [vJsonModel, hsize', hshape, raiseIf, houts, hmetas, ok_bind, Bool.false_eq_true, if_false]
  rw [if_neg hnull]
  exact hfits

/-! ### In a commit -/

/-- What the pair of `_v_json_model` is for `commit`. -/
def verdictOf : Py String Unit → Pdgtx.Verdict
  | .ok _ => .pass
  | .error (.error text) => .fail text
  | .error (.fault _) => .raised

/-- The model validator of this host is `_v_json_model`, as far as this candidate goes. -/
def Validates (S : Stack) (H : Host) (R : Reader) (bytes : Bytes) (targets : Dict Name Target)
    (files : Path → Pdgtx.Node) (M : Pdgtx.Host) : Prop :=
  ∀ path, M.validate "json_model" path bytes targets files =
    verdictOf (vJsonModelBytes S H R bytes targets files)

/-- The candidate of the model target. -/
def Stages (targets : Dict Name Target) (bytes : Bytes) (p : Name × Target) : Prop :=
  p ∈ targets ∧ p.2.data = some bytes ∧ "json_model" ∈ p.2.validators

/-- The other validators answer. -/
def OthersAnswer (M : Pdgtx.Host) (bytes : Bytes) (targets : Dict Name Target)
    (files : Path → Pdgtx.Node) : Prop :=
  ∀ p ∈ targets, ∀ data, p.2.data = some data → ∀ v ∈ p.2.validators,
    (v = "json_model" → data ≠ bytes) → M.validate v p.2.path data targets files ≠ .raised

/-- A validation failure of this candidate is a clean refusal. -/
structure CleanRefusal (S : Stack) (H : Host) (R : Reader) (bytes : Bytes)
    (targets : Dict Name Target) (files : Path → Pdgtx.Node) : Prop where
  /-- The validator returns a pair. -/
  answers : Clean (vJsonModelBytes S H R bytes targets files)
  /-- A commit that comes to a bad candidate ends in `TxRefused`, with production as it was,
  ABORTED, and without the materials. -/
  refuses : vJsonModelBytes S H R bytes targets files ≠ .ok () →
    ∀ (M : Pdgtx.Host) (pid : Pdgtx.Pid) (s : Pdgtx.Tx) (w : Pdgtx.World) (p : Name × Target)
      (ch : Nat → Pdgtx.Choice), Validates S H R bytes targets files M →
      Stages targets bytes p → OthersAnswer M bytes targets files →
      (s.plan M w).targets = targets → w.files = files → s.Assembling → w.Tidy → w.lock = none →
      s.Readable M w → (∀ n, (ch n).fault = .none) →
      (Prog.complete (Pdgtx.execWith true M pid) ch (Pdgtx.commit M s) w).1.1 = .error .refused ∧
        (s.plan M w).Given
          (Prog.complete (Pdgtx.execWith true M pid) ch (Pdgtx.commit M s) w).2 ∧
        (Prog.complete (Pdgtx.execWith true M pid) ch (Pdgtx.commit M s) w).2.Bare s.txid

/-- The text `{"outbounds":5,"route":{}}`. -/
def outboundsNumber : Bytes :=
  [123, 34, 111, 117, 116, 98, 111, 117, 110, 100, 115, 34, 58, 53, 44, 34, 114, 111, 117, 116, 101,
    34, 58, 123, 125, 125]

/-- A reader that knows this text; there is no `rulesets.json`. -/
def numberReader : Reader where
  loads bytes :=
    if bytes = outboundsNumber then .ok (.obj [("outbounds", .int 5), ("route", .obj [])])
    else .error "JSONDecodeError"
  live _ := .missing

/-- A host with this model validator. -/
def numberHost : Pdgtx.Host where
  __ := Pdgtx.Host.plain
  validate v _ data targets files :=
    if v = "json_model" then
      verdictOf (vJsonModelBytes ⟨1000, 1000⟩ plainHost numberReader data targets files)
    else .pass

/-- No model, and a transaction that has begun. -/
def modelAbsent : Pdgtx.World where
  files _ := .absent
  txs := [("T", { metaJson := some Pdgtx.blankTx.metaJson, candidate := some [], before := some [] })]
  lock := none
  log := []

/-- Run a method to its end; nothing fails, and every unit is active. -/
def runOn {α : Type} (m : Pdgtx.TxM α) (s : Pdgtx.Tx) (w : Pdgtx.World) :
    (Except Pdgtx.Exn α × Pdgtx.Tx) × Pdgtx.World :=
  Prog.complete (Pdgtx.execWith true numberHost 1) (fun _ => { output := (0, "active") }) (m s) w

/-- `stage("model", outboundsNumber)` and `commit`. -/
def numberRun : (Except Pdgtx.Exn Pdgtx.State × Pdgtx.Tx) × Pdgtx.World :=
  let staged := runOn (Pdgtx.stage numberHost "model" (some outboundsNumber) none) Pdgtx.blankTx
    modelAbsent
  runOn (Pdgtx.commit numberHost) staged.1.2 staged.2

end ProxyGateway.Schema
