import ProxyGateway.Pdgtx.Preflight

set_option autoImplicit false

/-!
# ProxyGateway.Pdgtx.Snapshot

Step 5) of a commit alone in the world: VALIDATED is written and the before-images are
saved. Afterwards the object carries the plan (`Plan.Equipped`) and the materials are on
disk (`Plan.Imaged`); whatever goes wrong on the way becomes a refusal.
-/

namespace ProxyGateway.Pdgtx

open Method

namespace Plan

variable (H : Host) (pl : Plan) (Q : Prop)

/-- The object carries everything the plan says. -/
structure Equipped (s : Tx) : Prop where
  of : pl.Of s
  targets : s.targets = pl.targets
  names : s.metaJson.targets = pl.names
  intended : s.metaJson.intendedSha = pl.intended H
  index : ∃ bi, s.before = some bi ∧ bi.files = pl.records H

/-- Not started: production is as it was. -/
def Untouched (s : Tx) (w : World) : Prop :=
  pl.Of s ∧ s.state.unstarted = true ∧ pl.Calm Q pl.files w

/-- VALIDATED, with production as it was. -/
def Approved (s : Tx) (w : World) : Prop :=
  pl.Of s ∧ s.targets = pl.targets ∧ s.metaJson.targets = pl.names ∧ s.state = .validated ∧
    pl.Calm Q pl.files w

/-- VALIDATED, with production as it was and the materials on disk. -/
def Stocked (s : Tx) (w : World) : Prop :=
  pl.Equipped H s ∧ s.state = .validated ∧ pl.Calm Q pl.files w ∧ pl.Imaged H (w.dir pl.txid)

variable {H pl Q}

/-- What such an object saves is the plan. -/
theorem Equipped.recorded {s : Tx} (h : pl.Equipped H s) : pl.Recorded H s.saved.metaJson where
  txid := h.of.metaId
  schema := h.of.schema
  targets := h.names
  paths := h.of.paths
  intended := h.intended

end Plan

section Snapshot

variable {steady : Bool} {H : Host} {pid : Pid} {pl : Plan} {Q B : Prop} {w : World} {s : Tx}
  {α : Type}

/-- Holding more images. -/
theorem holds_set {images : Dict Leaf Bytes} {leaf : Leaf} {data : Bytes} {d : TxDir}
    (h : Plan.Holds images d) :
    Plan.Holds (images.set leaf data)
      (d.setSub .before (some (((d.sub .before).getD []).set leaf data))) := by
  intro l x hl
  show (((d.before).getD []).set leaf data).get? l = some x
  rw [Dict.get?_set] at hl ⊢
  split at hl
  · next hleaf =>
    rw [if_pos hleaf]
    exact hl
  · next hleaf =>
    rw [if_neg hleaf]
    exact h l x hl

/-- Storing one image. -/
theorem sat_storeImage_alone {images : Dict Leaf Bytes} {leaf : Leaf} {data : Bytes}
    (hcalm : pl.Calm Q pl.files w) (h : Plan.Holds images (w.dir pl.txid)) :
    Prog.Sat (planned steady H pid pl Q) (fun done v => pl.Calm Q pl.files v ∧
      (done = true → Plan.Holds (images.set leaf data) (v.dir pl.txid)))
      (perform (.storeSub pl.txid .before leaf data) : Proc Done) w := by
  refine sat_alone (fun c => ?_)
  have hstep : pl.Calm Q pl.files
      (execWith steady H pid (.storeSub pl.txid .before leaf data) c w).2 :=
    calm_exec hcalm rfl (fun m hm => by cases hm) c
  refine ⟨hstep.sound, hstep, fun hdone => ?_⟩
  have hchoice : Op.choice steady (.storeSub pl.txid .before leaf data) c = c := by
    simp [Op.choice, Op.bookkeeping]
  rw [execWith, hchoice] at hdone ⊢
  cases hfault : c.fault with
  | none =>
      simp only [exec, faulty, hfault, World.dir_setDir_self]
      exact holds_set h
  | before => simp [exec, faulty, hfault] at hdone
  | after => simp [exec, faulty, hfault] at hdone

theorem readAt_none {files : Path → Node} {p : Path} (h : readAt files p = .ok none) :
    files p = .absent := by
  unfold readAt at h
  cases hf : files p <;> simp_all

theorem readAt_some {files : Path → Node} {p : Path} {data : Bytes} {st : Stat}
    (h : readAt files p = .ok (some (data, st))) : files p = .file data st := by
  unfold readAt at h
  cases hf : files p <;> simp_all

/-- Saving the files: the records are the plan's and the images are stored in order. -/
theorem meets_saveFiles_alone (hid : s.txid = pl.txid) (ps : List (Name × Target)) :
    ∀ (images : Dict Leaf Bytes) (w : World), pl.Calm Q pl.files w →
      Plan.Holds images (w.dir pl.txid) →
      Meets (planned steady H pid pl Q) (saveFiles H ps) s w (fun r s' v =>
        s' = s ∧ pl.Calm Q pl.files v ∧ ∀ recs, r = .ok recs →
          recs = pl.recordsOf H ps ∧ Plan.Holds (ps.foldl pl.addImage images) (v.dir pl.txid)) := by
  induction ps with
  | nil =>
      intro images w hcalm himg
      exact meets_ret_alone ⟨rfl, hcalm, fun recs hr => by cases hr; exact ⟨rfl, himg⟩⟩
  | cons p rest ih =>
      obtain ⟨name, t⟩ := p
      intro images w hcalm himg
      unfold saveFiles
      refine (computes_readTarget hcalm.sound t.path).bind ?_ ?_
      case refine_2 => exact fun e he => ⟨rfl, hcalm, fun recs hr => (by cases hr)⟩
      intro cur hcur
      rw [hcalm.1] at hcur
      cases cur with
      | none =>
          -- an absent target leaves a record and no image
          have habsent := readAt_none hcur
          refine meets_bind (ih images w hcalm himg) ?_ ?_
          · rintro more s' v ⟨rfl, hv, hrest⟩
            obtain ⟨rfl, hholds⟩ := hrest more rfl
            refine meets_ret_alone ⟨rfl, hv, fun recs hr => ?_⟩
            cases hr
            refine ⟨?_, ?_⟩
            · simp [Plan.recordsOf, Plan.recordOf, habsent]
            · simpa [Plan.addImage, habsent] using hholds
          · rintro e s' v ⟨rfl, hv, -⟩
            exact meets_raise_alone ⟨rfl, hv, fun recs hr => (by cases hr)⟩
      | some c =>
          obtain ⟨data, st⟩ := c
          have hfile := readAt_some hcur
          dsimp only
          refine meets_self_bind ?_
          rw [hid]
          refine meets_bind (meets_must_alone (sat_storeImage_alone hcalm himg)) ?_ ?_
          · rintro _ s' v ⟨rfl, hv, hholds⟩
            refine meets_bind (ih _ v hv (hholds rfl)) ?_ ?_
            · rintro more s' u ⟨rfl, hu, hrest⟩
              obtain ⟨rfl, hholds'⟩ := hrest more rfl
              refine meets_ret_alone ⟨rfl, hu, fun recs hr => ?_⟩
              cases hr
              refine ⟨?_, ?_⟩
              · simp [Plan.recordsOf, Plan.recordOf, hfile]
              · simpa [Plan.addImage, hfile] using hholds'
            · rintro e s' u ⟨rfl, hu, -⟩
              exact meets_raise_alone ⟨rfl, hu, fun recs hr => (by cases hr)⟩
          · rintro e s' v ⟨rfl, hv, -⟩
            exact meets_raise_alone ⟨rfl, hv, fun recs hr => (by cases hr)⟩

/-- The services part only asks. -/
theorem keeps_saveServices_alone {J : Tx → World → Prop} (hJ : ∀ s w, J s w → pl.Sound H Q w)
    (us : List ServiceUnit) : Keeps (planned steady H pid pl Q) J (saveServices us) := by
  have hask : ∀ (u : ServiceUnit) (prop : String),
      Keeps (planned steady H pid pl Q) J (call (svcPropEx u prop) : TxM _) := by
    refine fun u prop => keeps_call (fun s w h => ?_)
    exact (sat_quiet_alone (quiet_svcPropEx u prop) (hJ s w h)).mono
      (fun _ v hv u hu => by rw [← hu, hv]; exact h)
  have hrequire : ∀ b, Keeps (planned steady H pid pl Q) J (require b .refused : TxM Unit) := by
    intro b
    cases b with
    | true => exact keeps_ret (stable_alone J) ()
    | false => exact keeps_raise (stable_alone J) _
  induction us with
  | nil => exact keeps_ret (stable_alone J) _
  | cons u rest ih =>
      unfold saveServices
      refine (hask _ _).bind (stable_alone J) (fun en => ?_)
      refine (hask _ _).bind (stable_alone J) (fun nr => ?_)
      refine (hask _ _).bind (stable_alone J) (fun st => ?_)
      refine (hrequire _).bind (stable_alone J) (fun _ => ?_)
      refine (hrequire _).bind (stable_alone J) (fun _ => ?_)
      refine (hrequire _).bind (stable_alone J) (fun _ => ?_)
      exact ih.bind (stable_alone J) (fun _ => keeps_ret (stable_alone J) _)

/-- Storing the index completes the materials. -/
theorem sat_storeIndex_alone {bi : BeforeIndex} (hfiles : bi.files = pl.records H)
    (hcalm : pl.Calm Q pl.files w) (h : Plan.Holds pl.images (w.dir pl.txid)) :
    Prog.Sat (planned steady H pid pl Q) (fun done v => pl.Calm Q pl.files v ∧
      (done = true → pl.Imaged H (v.dir pl.txid)))
      (perform (.storeIndex pl.txid bi) : Proc Done) w := by
  refine sat_alone (fun c => ?_)
  have hstep : pl.Calm Q pl.files (execWith steady H pid (.storeIndex pl.txid bi) c w).2 :=
    calm_exec hcalm rfl (fun m hm => by cases hm) c
  refine ⟨hstep.sound, hstep, fun hdone => ?_⟩
  have hchoice : Op.choice steady (.storeIndex pl.txid bi) c = c := by
    simp [Op.choice, Op.bookkeeping]
  rw [execWith, hchoice] at hdone ⊢
  cases hfault : c.fault with
  | none =>
      simp only [exec, faulty, hfault, World.dir_setDir_self]
      exact ⟨⟨bi, rfl, hfiles⟩, fun leaf data hl => h leaf data hl⟩
  | before => simp [exec, faulty, hfault] at hdone
  | after => simp [exec, faulty, hfault] at hdone

theorem Plan.Approved.untouched (h : pl.Approved Q s w) : pl.Untouched Q s w := by
  obtain ⟨hof, -, -, hst, hcalm⟩ := h
  exact ⟨hof, by rw [hst]; rfl, hcalm⟩

/-- `_save_before`. -/
theorem meets_saveBefore_alone (h : pl.Approved Q s w) :
    Meets (planned steady H pid pl Q) (saveBefore H) s w (fun r s' v => match r with
      | .ok _ => pl.Stocked H Q s' v
      | .error _ => pl.Untouched Q s' v) := by
  have hraise : ∀ {e : Exn} {s' : Tx} {v : World}, pl.Untouched Q s' v →
      Meets (planned steady H pid pl Q) (raise e : TxM Unit) s' v (fun r s' v => match r with
        | .ok _ => pl.Stocked H Q s' v
        | .error _ => pl.Untouched Q s' v) := fun hu => meets_raise_alone hu
  have hstart := h.untouched
  obtain ⟨hof, htargets, hnames, hst, hcalm⟩ := h
  -- while services, sysctl and firewall are asked nothing moves
  have hask : ∀ (s' : Tx) (v : World), s' = s → pl.Calm Q pl.files v → pl.Untouched Q s' v :=
    fun s' v hs hv => ⟨hs ▸ hof, hs ▸ hstart.2.1, hv⟩
  unfold saveBefore
  refine meets_self_bind ?_
  rw [htargets]
  refine meets_bind (meets_saveFiles_alone hof.txid _ [] w hcalm
    (fun leaf data hl => by cases hl)) ?_ ?_
  case refine_2 => exact fun e s' v hv => hraise (hask s' v hv.1 hv.2.1)
  intro files s' v hv
  obtain ⟨rfl, hv, hfiles⟩ := hv
  obtain ⟨rfl, hholds⟩ := hfiles files rfl
  let J : Tx → World → Prop := fun s'' u => s'' = s' ∧ u = v
  have hJ : ∀ s'' u, J s'' u → pl.Sound H Q u := fun s'' u hu => by rw [hu.2]; exact hv.sound
  refine meets_bind (keeps_saveServices_alone hJ _ s' v ⟨rfl, rfl⟩) ?_ ?_
  case refine_2 => exact fun e s'' u hu => hraise (hask s'' u hu.1 (by rw [hu.2]; exact hv))
  intro services s'' u hu
  obtain ⟨rfl, rfl⟩ := hu
  refine meets_call_bind (sat_quiet_alone (quiet_saveSysctl _) hv.sound) ?_
  intro sysctl u hu
  cases hu
  refine meets_call_bind (sat_quiet_alone (quiet_saveNft H _) hv.sound) ?_
  intro nft u hu
  cases hu
  rw [hof.txid]
  refine meets_bind (meets_must_alone (sat_storeIndex_alone rfl hv hholds)) ?_ ?_
  case refine_2 => exact fun e x y hy => hraise (hask x y hy.1 hy.2.1)
  intro _ x y hy
  obtain ⟨rfl, hcalm', himaged⟩ := hy
  refine meets_assign_bind ?_
  have hequipped : pl.Equipped H { x with
      before := some ⟨pl.recordsOf H pl.targets.sorted, services, sysctl, nft⟩
      metaJson := { x.metaJson with intendedSha := x.intended H } } :=
    ⟨⟨hof.txid, hof.metaId, hof.schema, hof.paths⟩, htargets, hnames,
      by rw [Tx.intended, htargets]; rfl, ⟨_, rfl, rfl⟩⟩
  have hwrite : pl.Calm Q pl.files (y.writeMeta x.txid (Tx.saved { x with
      before := some ⟨pl.recordsOf H pl.targets.sorted, services, sysctl, nft⟩
      metaJson := { x.metaJson with intendedSha := x.intended H } }).metaJson) := by
    rw [hof.txid]
    refine calm_writeMeta hcalm' ?_
    show x.state.unstarted = true
    rw [hst]
    rfl
  refine (meets_saveMeta_alone hcalm'.sound hwrite.sound).mono ?_
  rintro r s' v ⟨rfl, ⟨rfl, rfl⟩ | ⟨-, rfl, hv⟩⟩
  · refine ⟨⟨⟨hof.txid, hof.metaId, hof.schema, hof.paths⟩, hequipped.targets, hequipped.names,
      hequipped.intended, hequipped.index⟩, hst, hwrite, ?_⟩
    rw [hof.txid, World.writeMeta_dir_self]
    exact himaged rfl
  · refine ⟨⟨hof.txid, hof.metaId, hof.schema, hof.paths⟩, hstart.2.1, ?_⟩
    rcases hv with rfl | rfl
    · exact hcalm'
    · exact hwrite

/-- Step 5) ends with the plan in the object and on disk, or in a refusal. -/
theorem meets_takeBefore_alone (hB : steady = false → B) (h : pl.Scoped Q s w) :
    Meets (planned steady H pid pl Q) (takeBefore H) s w (fun r s' v => match r with
      | .ok _ => pl.Stocked H Q s' v
      | .error e => pl.Untouched Q s' v ∧ Err B e) := by
  obtain ⟨⟨⟨hof, hst, hcalm⟩, htargets⟩, hnames⟩ := h
  have hwrite : pl.Calm Q pl.files
      (w.writeMeta s.txid { s with state := .validated }.saved.metaJson) := by
    rw [hof.txid]
    exact calm_writeMeta hcalm rfl
  have hof' : pl.Of { s with state := .validated }.saved :=
    ⟨hof.txid, hof.metaId, hof.schema, hof.paths⟩
  unfold takeBefore
  refine meets_bind (meets_setState_alone .validated (by rw [hst]; rfl) hcalm.sound
    hwrite.sound) ?_ ?_
  · rintro _ s' v ⟨rfl, ⟨-, rfl⟩ | ⟨-, hr, -⟩⟩
    case inr => cases hr
    refine meets_tryCatch (meets_saveBefore_alone ⟨hof', htargets, hnames, rfl, hwrite⟩) ?_ ?_
    · exact fun _ s' v hv => meets_ret_alone hv
    · exact fun e s' v hv => meets_raise_alone ⟨hv, Or.inl rfl⟩
  · rintro e s' v ⟨rfl, ⟨hr, -⟩ | ⟨hs, hr, hv⟩⟩
    · cases hr
    · cases hr
      refine meets_raise_alone ⟨⟨hof', rfl, ?_⟩, Or.inr (Or.inr ⟨rfl, hB hs⟩)⟩
      rcases hv with rfl | rfl
      · exact hcalm
      · exact hwrite

end Snapshot

end ProxyGateway.Pdgtx
