import ProxyGateway.Pdgtx.Atomic

set_option autoImplicit false

/-!
# ProxyGateway.Pdgtx.CrashRecovery

`recover` after a crash. Wherever a commit, or an earlier `recover`, is cut, what is on
disk can be recovered from (`Plan.Recoverable`): `recover` without force then finds no
conflict and no damaged material, and when its own writes work every path holds again
what it held before the transaction.

The condition (`Plan.Restorable`) is where the three name spaces have to agree: a
target's leaf holds its own image, targets with one path write one content, and the name
still leads to the path that was written.
-/

namespace ProxyGateway.Pdgtx

open Method

/-- `_trusted_cert_dir` on the content of the profile. -/
def certDirFrom (H : Host) (profile : Option Bytes) : Except Exn String :=
  match profile with
  | none => .ok (trustedCertDir H.certDirEnv H.noSymlink [])
  | some raw => match H.decodeUtf8 raw with
    | some text => .ok (trustedCertDir H.certDirEnv H.noSymlink text)
    | none => .error .other

/-- `resolve_target` on the content of the profile. -/
def resolveFrom (H : Host) (profile : Option Bytes) (name : Name) : Except Exn Resolved :=
  if isCert name then (certDirFrom H profile).bind (fun dir => whitelisted (resolveIn dir name))
  else whitelisted (resolveIn certDirDefault name)

theorem resolveAt_eq (H : Host) (files : Path → Node) (name : Name) :
    resolveAt H files name = resolveFrom H (files profilePath).data? name := rfl

namespace Plan

/-- The name spaces agree on the targets of a plan. -/
structure Restorable (H : Host) (pl : Plan) : Prop where
  /-- Every target that existed has its own image. -/
  own : pl.OwnImages
  /-- What the plan puts at a path has another digest than what was there, unless it is
  the same content. -/
  distinct : ∀ p ∈ pl.targets, p.2.applies = true →
    p.2.data.map H.sha = (pl.before p.2.path).map H.sha → p.2.data = pl.before p.2.path
  /-- Targets with one path write one content. -/
  agree : ∀ p ∈ pl.targets, ∀ q ∈ pl.targets, q.2.path = p.2.path → q.2.applies = true →
    q.2.data = pl.before p.2.path ∨ q.2.data.map H.sha = p.2.data.map H.sha
  /-- Whatever the profile may hold, a name leads to the path of its target. -/
  traceable : ∀ p ∈ pl.targets, ∀ profile, pl.Allowed profilePath profile →
    ∃ r, resolveFrom H profile p.1 = .ok r ∧ (pl.paths.get? p.1).getD r.path = p.2.path

/-- There is something to recover from, or nothing left to do. -/
def Recoverable (H : Host) (pl : Plan) (w : World) : Prop :=
  (∃ m, w.metaOf pl.txid = some m ∧ m.state.needsRecovery = true ∧ pl.Midway H m w) ∨
  (w.contents = pl.before ∧ ∀ m, w.metaOf pl.txid = some m → m.state = .rolledBack)

/-- At work: this meta is on disk and needs recovery. -/
structure Undoing (H : Host) (pl : Plan) (m : Meta) (w : World) : Prop where
  onDisk : w.metaOf pl.txid = some m
  needs : m.state.needsRecovery = true
  midway : pl.Midway H m w

variable {H : Host} {pl : Plan} {m : Meta} {w : World} {p : Name × Target}

theorem Undoing.recoverable (h : pl.Undoing H m w) : pl.Recoverable H w :=
  Or.inl ⟨m, h.onDisk, h.needs, h.midway⟩

theorem Undoing.touch (h : pl.Undoing H m w) (hp : p ∈ pl.targets) {n : Node} (hplain : n ≠ .link)
    (hn : pl.Allowed p.2.path n.data?) : pl.Undoing H m (w.touch pl.txid p.2.path n) where
  onDisk := h.onDisk
  needs := h.needs
  midway := ⟨h.midway.recorded, h.midway.imaged, h.midway.within.update hp hplain hn⟩

/-- What any path may hold. -/
theorem Within.contents {files : Path → Node} (h : pl.Within files) (path : Path) :
    pl.Allowed path (files path).data? := by
  by_cases htarget : ∃ q ∈ pl.targets, q.2.path = path
  · obtain ⟨q, hq, rfl⟩ := htarget
    exact h.allowed q hq
  · rw [h.others path (fun q hq he => htarget ⟨q, hq, he⟩)]
    exact Or.inl rfl

/-- Paths of targets that hold what they held are all there is to restore. -/
theorem Within.undone (h : pl.Within w.files)
    (hback : ∀ q ∈ pl.targets, w.contents q.2.path = pl.before q.2.path) :
    w.contents = pl.before := by
  funext path
  by_cases htarget : ∃ q ∈ pl.targets, q.2.path = path
  · obtain ⟨q, hq, rfl⟩ := htarget
    exact hback q hq
  · rw [World.contents, h.others path (fun q hq he => htarget ⟨q, hq, he⟩)]
    rfl

theorem before_of_file {path : Path} {data : Bytes} {st : Stat}
    (h : pl.files path = .file data st) : pl.before path = some data := by
  rw [before, h]
  rfl

/-- The digest a record expects. -/
theorem beforeSha_records (huniq : pl.targets.Uniq) (hp : p ∈ pl.targets) :
    beforeSha ((pl.records H).get? p.1) = (pl.before p.2.path).map H.sha := by
  rw [get?_records huniq hp, beforeSha]
  cases hrec : (some (pl.recordOf H p)).filter BeforeRec.existed with
  | some r =>
      obtain ⟨data, st, hfile, rfl⟩ := recordOf_existed hrec
      rw [before_of_file hfile]
      rfl
  | none =>
      rw [recordOf_absent hrec]
      rfl

end Plan

section Recover

variable {ok : Choice → Prop} {H : Host} {pid : Pid} {pl : Plan} {m : Meta} {bi : BeforeIndex}
  {w : World} {s : Unit} {p : Name × Target}

/-- The setting of a `recover` that nobody disturbs, under the choices considered. -/
abbrev recoveringAlone (ok : Choice → Prop) (H : Host) (pid : Pid) (pl : Plan) :
    Setting Op Op.Answer Choice World :=
  aloneIf ok false H pid (pl.Recoverable H)

/-- Nothing fails under the choices considered. -/
def Flawless (ok : Choice → Prop) : Prop := ∀ c, ok c → c.fault = .none ∧ c.yes = true

/-! ### Checking -/

/-- What the precheck of a target may find. -/
inductive Found (pl : Plan) (w : World) (p : Name × Target) : Check → Prop where
  | same : w.contents p.2.path = pl.before p.2.path → Found pl w p .same
  | saved (name : Name) (r : BeforeRec) (data : Bytes) (there : Bool) :
      pl.before p.2.path = some data →
      Found pl w p (.planned ⟨name, p.2.path, some (r, data), there⟩)
  | absent (name : Name) (there : Bool) :
      pl.before p.2.path = none → (there = false → w.contents p.2.path = none) →
      Found pl w p (.planned ⟨name, p.2.path, none, there⟩)

/-- A target's path holds what it held, or something with the digest the plan recorded. -/
theorem intended_or_before (hres : pl.Restorable H) (huniq : pl.targets.Uniq) (hp : p ∈ pl.targets)
    {content : Option Bytes} (h : pl.Allowed p.2.path content) :
    content = pl.before p.2.path ∨
      (content.map H.sha ≠ (pl.before p.2.path).map H.sha ∧
        content.map H.sha = ((pl.intended H).get? p.1).getD none) := by
  rcases h with h | ⟨q, hq, hpath, happ, rfl⟩
  · exact Or.inl h
  · rcases hres.agree p hp q hq hpath happ with h | h
    · exact Or.inl h
    · by_cases hd : q.2.data.map H.sha = (pl.before p.2.path).map H.sha
      · rw [← hpath] at hd ⊢
        exact Or.inl (hres.distinct q hq happ hd)
      · refine Or.inr ⟨hd, ?_⟩
        rw [Plan.get?_intended huniq hp]
        exact h

/-- Reading a target's path under a plan. -/
theorem readAt_within {files : Path → Node} (h : pl.Within files) (hp : p ∈ pl.targets) :
    ∃ cur, readAt files p.2.path = .ok cur ∧ digestOf H cur = ((files p.2.path).data?).map H.sha ∧
      cur.isSome = ((files p.2.path).data?).isSome := by
  have hplain := h.plain p hp
  unfold readAt
  cases hf : files p.2.path with
  | absent => exact ⟨none, rfl, rfl, rfl⟩
  | file data st => exact ⟨some (data, st), rfl, rfl, rfl⟩
  | link => exact absurd hf hplain

/-- The precheck of one target finds no conflict and no damaged material. -/
theorem meets_precheckOne_alone (hres : pl.Restorable H) (huniq : pl.targets.Uniq) (hp : p ∈ pl.targets)
    (hfiles : bi.files = pl.records H) (h : pl.Undoing H m w) :
    Meets (recoveringAlone ok H pid pl) (precheckOne H pl.txid m bi false p.1) s w
      (fun r _ v => v = w ∧ ∃ c, r = .ok c ∧ Found pl w p c) := by
  have hI := h.recoverable
  have hwithin := h.midway.within
  obtain ⟨r, hr, hpath⟩ := hres.traceable p hp _ (hwithin.contents profilePath)
  unfold precheckOne
  refine meets_outcome (computes_resolveTarget hI p.1) ?_
  rintro _ s' v ⟨rfl, rfl, rfl⟩
  rw [resolveAt_eq, hr]
  dsimp only
  rw [h.midway.recorded.paths, hpath]
  obtain ⟨cur, hcur, hdigest, hsome⟩ := readAt_within (H := H) hwithin hp
  unfold precheckAt
  dsimp only
  rw [hfiles, Plan.beforeSha_records huniq hp]
  refine (computes_readTarget hI p.2.path).bind ?_ ?_
  case refine_2 =>
    intro e he
    rw [hcur] at he
    cases he
  intro cur' hcur'
  rw [hcur] at hcur'
  cases hcur'
  rw [hdigest]
  rcases intended_or_before hres huniq hp (hwithin.allowed p hp) with hsame | ⟨hdiff, hint⟩
  · -- nothing to do for this target
    rw [if_pos (by rw [hsame])]
    exact meets_ret_alone ⟨rfl, _, rfl, .same hsame⟩
  · rw [if_neg hdiff, h.midway.recorded.intended, ← hint]
    simp only [Bool.not_false, Bool.true_and, bne_self_eq_false, Bool.false_eq_true, if_false]
    rw [Plan.get?_records huniq hp]
    cases hrec : (some (pl.recordOf H p)).filter BeforeRec.existed with
    | none =>
        have hbefore := Plan.recordOf_absent hrec
        refine meets_ret_alone ⟨rfl, _, rfl, .absent _ _ hbefore (fun hno => ?_)⟩
        rw [hsome] at hno
        simpa [World.contents] using hno
    | some rec' =>
        obtain ⟨data, st, hfile, rfl⟩ := Plan.recordOf_existed hrec
        refine meets_call_bind (M := fun a u => u = v ∧ a = some data) ?_ ?_
        · refine sat_alone (fun c => ?_)
          rw [execWith_quiet rfl]
          exact ⟨hI, rfl, load_image h.midway.imaged hres.own hp hfile⟩
        · rintro a u ⟨rfl, rfl⟩
          dsimp only
          rw [if_pos rfl]
          exact meets_ret_alone ⟨rfl, _, rfl, .saved _ _ _ _ (Plan.before_of_file hfile)⟩

/-- The precheck of all targets. -/
theorem meets_precheckAll_alone (hres : pl.Restorable H) (huniq : pl.targets.Uniq)
    (hfiles : bi.files = pl.records H) (h : pl.Undoing H m w) (ps : List (Name × Target))
    (hps : ∀ p ∈ ps, p ∈ pl.targets) :
    Meets (recoveringAlone ok H pid pl)
      (precheckAll H pl.txid m bi false (ps.map Prod.fst)) s w
      (fun r _ v => v = w ∧ ∃ checks, r = .ok checks ∧
        List.Forall₂ (fun p c => c.1 = p.1 ∧ Found pl w p c.2) ps checks) := by
  induction ps with
  | nil => exact meets_ret_alone ⟨rfl, [], rfl, .nil⟩
  | cons p rest ih =>
      refine meets_bind (meets_precheckOne_alone hres huniq (hps p (by simp)) hfiles h) ?_ ?_
      · rintro c s' v ⟨rfl, c', hc, hfound⟩
        cases hc
        refine meets_bind (ih (fun q hq => hps q (by simp [hq]))) ?_ ?_
        · rintro more s'' u ⟨rfl, checks, hchecks, hall⟩
          cases hchecks
          exact meets_ret_alone ⟨rfl, _, rfl, .cons ⟨rfl, hfound⟩ hall⟩
        · rintro e s'' u ⟨-, checks, he, -⟩
          cases he
      · rintro e s' v ⟨-, c, he, -⟩
        cases he

/-! ### Restoring -/

/-- An entry of the plan undoes a target of the transaction. -/
def Undoes (pl : Plan) (item : PlanItem) : Prop :=
  ∃ p ∈ pl.targets, item.path = p.2.path ∧
    match item.restore with
    | some (_, data) => pl.before item.path = some data
    | none => pl.before item.path = none

/-- An entry that writes. -/
def PlanItem.writes (item : PlanItem) : Bool := item.restore.isSome || item.exists'

/-- What the checks found leads to a plan that undoes every target that has to be. -/
theorem found_planOf {ps : List (Name × Target)} {checks : List (Name × Check)}
    (hps : ∀ p ∈ ps, p ∈ pl.targets)
    (h : List.Forall₂ (fun p c => c.1 = p.1 ∧ Found pl w p c.2) ps checks) :
    (∀ item ∈ planOf checks, Undoes pl item) ∧
    (∀ p ∈ ps, w.contents p.2.path = pl.before p.2.path ∨
      ∃ item ∈ planOf checks, item.path = p.2.path ∧ item.writes = true) ∧
    withCheck .material checks = [] ∧ withCheck .conflict checks = [] := by
  -- on the checks, one for each target
  induction h with
  | nil => exact ⟨by simp [planOf], by simp, rfl, rfl⟩
  | cons hc hrest ih =>
      next p c ps checks =>
      obtain ⟨name, c⟩ := c
      obtain ⟨-, hfound⟩ := hc
      obtain ⟨hitems, hcover, hmaterial, hconflict⟩ := ih (fun q hq => hps q (by simp [hq]))
      have hp : p ∈ pl.targets := hps p (by simp)
      have hlater : ∀ item, ∀ q ∈ ps, w.contents q.2.path = pl.before q.2.path ∨
          ∃ x ∈ item :: planOf checks, x.path = q.2.path ∧ x.writes = true := by
        intro item q hq
        rcases hcover q hq with hsame | ⟨x, hx, hpath⟩
        · exact Or.inl hsame
        · exact Or.inr ⟨x, List.mem_cons_of_mem _ hx, hpath⟩
      cases hfound with
      | same hsame =>
          refine ⟨hitems, ?_, hmaterial, hconflict⟩
          intro q hq
          rcases List.mem_cons.1 hq with rfl | hq
          · exact Or.inl hsame
          · exact hcover q hq
      | saved name' r data there hbefore =>
          refine ⟨?_, ?_, hmaterial, hconflict⟩
          · intro item hitem
            rcases List.mem_cons.1 hitem with rfl | hitem
            · exact ⟨p, hp, rfl, hbefore⟩
            · exact hitems item hitem
          · intro q hq
            rcases List.mem_cons.1 hq with rfl | hq
            · exact Or.inr ⟨_, List.mem_cons_self .., rfl, rfl⟩
            · exact hlater _ q hq
      | absent name' there hbefore hfree =>
          refine ⟨?_, ?_, hmaterial, hconflict⟩
          · intro item hitem
            rcases List.mem_cons.1 hitem with rfl | hitem
            · exact ⟨p, hp, rfl, hbefore⟩
            · exact hitems item hitem
          · intro q hq
            rcases List.mem_cons.1 hq with rfl | hq
            · cases there with
              | true => exact Or.inr ⟨_, List.mem_cons_self .., rfl, rfl⟩
              | false =>
                  rw [hbefore]
                  exact Or.inl (hfree rfl)
            · exact hlater _ q hq

/-- One update at a target's path that puts back what was there. -/
theorem undoing_putBack {n : Node} (hp : p ∈ pl.targets) (hplain : n ≠ .link)
    (hn : n.data? = pl.before p.2.path) (h : pl.Undoing H m w) :
    pl.Undoing H m (w.touch pl.txid p.2.path n) ∧
      (∀ path, w.contents path = pl.before path →
        (w.touch pl.txid p.2.path n).contents path = pl.before path) ∧
      (w.touch pl.txid p.2.path n).contents p.2.path = pl.before p.2.path := by
  refine ⟨h.touch hp hplain (Or.inl hn), fun path hpath => ?_, ?_⟩
  · rw [contents_touch]
    by_cases he : path = p.2.path
    · subst he
      rw [Function.update_self, hn]
    · rw [Function.update_of_ne he]
      exact hpath
  · rw [contents_touch, Function.update_self, hn]

/-- What one write of `recover` leaves: what was restored stays, and unless the write fails
its path is restored. -/
def PutBack (ok : Choice → Prop) (H : Host) (pl : Plan) (m : Meta) (w : World) (path : Path)
    (done : Done) (v : World) : Prop :=
  pl.Undoing H m v ∧
    (∀ q, w.contents q = pl.before q → v.contents q = pl.before q) ∧
    (done = true ∨ Flawless ok → v.contents path = pl.before path)

theorem putBack_faulty {c : Choice} {n : Node} (hc : ok c) (hp : p ∈ pl.targets)
    (hplain : n ≠ .link) (hn : n.data? = pl.before p.2.path) (h : pl.Undoing H m w) :
    PutBack ok H pl m w p.2.path (faulty c.fault w (w.touch pl.txid p.2.path n)).1
      (faulty c.fault w (w.touch pl.txid p.2.path n)).2 := by
  obtain ⟨hundoing, hmono, hback⟩ := undoing_putBack hp hplain hn h
  cases hfault : c.fault with
  | none => exact ⟨hundoing, hmono, fun _ => hback⟩
  | after => exact ⟨hundoing, hmono, fun _ => hback⟩
  | before =>
      refine ⟨h, fun _ hq => hq, fun hdone => ?_⟩
      rcases hdone with hdone | hok
      · cases hdone
      · rw [(hok c hc).1] at hfault
        cases hfault

theorem putBack_attempt {c : Choice} (hc : ok c) (hp : p ∈ pl.targets)
    (hn : pl.before p.2.path = none) (h : pl.Undoing H m w) :
    PutBack ok H pl m w p.2.path
      (attempt (w.files p.2.path != .absent) c.fault w (w.touch pl.txid p.2.path .absent)).1
      (attempt (w.files p.2.path != .absent) c.fault w (w.touch pl.txid p.2.path .absent)).2 := by
  unfold attempt
  split
  · exact putBack_faulty hc hp (by simp) hn.symm h
  · next hgone =>
    -- an earlier entry has removed it
    have habsent : w.files p.2.path = .absent := by simpa using hgone
    refine ⟨h, fun _ hq => hq, fun _ => ?_⟩
    rw [World.contents, habsent, hn]
    rfl

/-- One entry: what was restored stays, and unless something fails its path is restored. -/
theorem sat_recoverOne_alone {item : PlanItem} (hitem : Undoes pl item) (h : pl.Undoing H m w) :
    Prog.Sat (recoveringAlone ok H pid pl) (fun done v => pl.Undoing H m v ∧
      (∀ q, w.contents q = pl.before q → v.contents q = pl.before q) ∧
      (done = true ∨ Flawless ok → item.writes = true →
        v.contents item.path = pl.before item.path)) (recoverOne pl.txid item) w := by
  obtain ⟨name, path, restore, there⟩ := item
  obtain ⟨p, hp, hpath, hdata⟩ := hitem
  obtain rfl : path = p.2.path := hpath
  cases restore with
  | some rd =>
      obtain ⟨r, data⟩ := rd
      let n : Node := .file data ⟨r.stat.mode, r.stat.uid, r.stat.gid⟩
      have hn : n.data? = pl.before p.2.path := Eq.symm hdata
      have hnew := (undoing_putBack hp (by simp [n]) hn h).1
      have hone : Prog.Sat (recoveringAlone ok H pid pl) (PutBack ok H pl m w p.2.path)
          (perform (.replaceTarget pl.txid p.2.path data r.stat.mode
            (some (r.stat.uid, r.stat.gid))) : Proc Done) w :=
        sat_aloneIf (fun c =>
          ⟨(faulty_keeps (I := pl.Undoing H m) c.fault h hnew).recoverable,
            fun hc => putBack_faulty hc hp (by simp) hn h⟩)
      refine Prog.Sat.mono hone ?_
      rintro done v ⟨hv, hmono, hback⟩
      exact ⟨hv, hmono, fun hdone _ => hback hdone⟩
  | none =>
      cases there with
      | false =>
          rintro v rfl
          exact ⟨h, fun _ hq => hq, fun _ hno => nomatch hno⟩
      | true =>
          have hn : pl.before p.2.path = none := hdata
          have hnew := (undoing_putBack (n := .absent) hp (by simp) hn.symm h).1
          have hone : Prog.Sat (recoveringAlone ok H pid pl) (PutBack ok H pl m w p.2.path)
              (perform (.unlinkTarget pl.txid p.2.path) : Proc Done) w :=
            sat_aloneIf (fun c =>
              ⟨(attempt_keeps (I := pl.Undoing H m) _ c.fault h hnew).recoverable,
                fun hc => putBack_attempt hc hp hn h⟩)
          refine Prog.Sat.mono hone ?_
          rintro done v ⟨hv, hmono, hback⟩
          exact ⟨hv, hmono, fun hdone _ => hback hdone⟩

/-- The whole plan. -/
theorem sat_recoverAll_alone (items : List PlanItem) (hitems : ∀ item ∈ items, Undoes pl item)
    (h : pl.Undoing H m w) :
    Prog.Sat (recoveringAlone ok H pid pl) (fun done v => pl.Undoing H m v ∧
      (done = true ∨ Flawless ok → ∀ q, (w.contents q = pl.before q ∨
        ∃ item ∈ items, item.path = q ∧ item.writes = true) → v.contents q = pl.before q))
      (recoverAll pl.txid items) w := by
  induction items generalizing w with
  | nil =>
      rintro v rfl
      exact ⟨h, fun _ q hq => by simpa using hq⟩
  | cons item rest ih =>
      unfold recoverAll
      refine Prog.Sat.seq (sat_recoverOne_alone (hitems item (by simp)) h) ?_
      rintro done v ⟨hv, hmono, hback⟩
      refine Prog.Sat.seq (ih (fun x hx => hitems x (by simp [hx])) hv) ?_
      rintro others u ⟨hu, hrest⟩ x rfl
      refine ⟨hu, fun hdone q hq => ?_⟩
      have hboth : (done = true ∨ Flawless ok) ∧ (others = true ∨ Flawless ok) := by
        rcases hdone with hdone | hok
        · have hand : done = true ∧ others = true := by simpa using hdone
          exact ⟨Or.inl hand.1, Or.inl hand.2⟩
        · exact ⟨Or.inr hok, Or.inr hok⟩
      refine hrest hboth.2 q ?_
      rcases hq with hq | ⟨y, hy, hpath, hwrites⟩
      · exact Or.inl (hmono q hq)
      · rcases List.mem_cons.1 hy with rfl | hy
        · rw [← hpath]
          exact Or.inl (hback hboth.1 hwrites)
        · exact Or.inr ⟨y, hy, hpath, hwrites⟩

/-! ### The end of `recover` -/

/-- Undone, and `meta.json` says so or is gone. -/
def Plan.Back (pl : Plan) (w : World) : Prop :=
  w.contents = pl.before ∧ ∀ m, w.metaOf pl.txid = some m → m.state = .rolledBack

/-- How `recover` ends. -/
structure Healed (ok : Choice → Prop) (H : Host) (pl : Plan) (r : Except Exn Recovered)
    (w : World) : Prop where
  recoverable : pl.Recoverable H w
  noConflicts : ∀ names, r ≠ .ok (.conflicts names)
  noMaterialErr : ∀ names, r ≠ .ok (.materialErr names)
  back : Flawless ok → w.contents = pl.before ∧ ∃ x, r = .ok x

theorem Plan.Back.recoverable (h : pl.Back w) : pl.Recoverable H w := Or.inr h

/-- `_gc` keeps an assertion that the removal of any settled transaction keeps. -/
theorem sat_gc_keeps {J : World → Prop} {D : Txid → Prop} (hJ : ∀ v, J v → pl.Recoverable H v)
    (hremove : ∀ d, D d → ∀ e c v, e.removes d = true → J v → J (exec H pid e c v).2)
    (hterm : ∀ d v x, J v → v.metaOf d = some x → x.state.gcTerminal = true → D d) (h : J w) :
    Prog.Sat (recoveringAlone ok H pid pl) (fun _ v => J v) (gc H) w := by
  have hquiet : ∀ {α : Type} {q : Proc α} {v : World}, Quiet q → J v →
      Prog.Sat (recoveringAlone ok H pid pl) (fun _ u => u = v) q v :=
    fun hq hv => sat_quiet_alone hq (hJ _ hv)
  unfold gc
  refine Prog.Sat.seq (hquiet (Prog.only_perform rfl) h) ?_
  rintro names v rfl
  generalize names.insertionSort (fun a b => b ≤ a) = sorted
  generalize 0 = kept
  induction sorted generalizing kept v with
  | nil =>
      rintro u rfl
      exact h
  | cons d rest ih =>
      refine Prog.Sat.seq (M := fun x u => u = v ∧ x = v.metaOf d) ?_ ?_
      · refine sat_alone (fun c => ?_)
        rw [execWith_quiet rfl]
        exact ⟨hJ _ h, rfl, rfl⟩
      rintro x u ⟨rfl, rfl⟩
      cases hmeta : u.metaOf d with
      | none => exact ih u h kept
      | some x =>
          dsimp only
          split
          · next hsettled =>
            refine Prog.Sat.seq (M := fun _ y => J y) ?_ (fun _ y hy => ih y hy (kept + 1))
            unfold dropOld
            split
            · refine Prog.Only.sat_keeps (removing_rmtreeTx d) ?_ ?_ h
              · rintro a b ha rfl
                exact ha
              · intro e he y hy
                have hstep : ∀ c, J (exec H pid e c y).2 := by
                  intro c
                  rcases he with hq | hr
                  · rw [exec_quiet hq]
                    exact hy
                  · exact hremove d (hterm d u x h hmeta hsettled) e c y hr hy
                exact ⟨fun c => hJ _ (hstep _), fun c _ => hstep _⟩
            · rintro y rfl
              exact h
          · exact ih u h kept

/-- Removing another transaction's directory. -/
theorem undoing_removes {d : Txid} (hd : d ≠ pl.txid) {e : Op} (he : e.removes d = true)
    (c : Choice) (h : pl.Undoing H m w) : pl.Undoing H m (exec H pid e c w).2 := by
  have hother : e.writesFor pl.txid = false := by
    cases e <;> simp_all [Op.removes, Op.writesFor]
  have hdir := (@exec_other pl.txid w H pid e hother c).1
  have hfiles := @exec_files w H pid e (@not_touches_of_removes pl _ _ he).1 c
  refine ⟨?_, h.needs, h.midway.recorded, ?_, ?_⟩
  · rw [World.metaOf, hdir]
    exact h.onDisk
  · rw [hdir]
    exact h.midway.imaged
  · rw [hfiles]
    exact h.midway.within

theorem back_tidies {e : Op} (he : e.quiet = true ∨ ∃ T, e.removes T = true) (c : Choice)
    (h : pl.Back w) : pl.Back (exec H pid e c w).2 := by
  have htame : e.touches = false ∧ ∀ m, e ≠ .storeMeta pl.txid m := by
    rcases he with hq | ⟨T, hr⟩
    · exact not_touches_of_quiet hq
    · exact not_touches_of_removes hr
  refine ⟨?_, fun m hm => ?_⟩
  · rw [← h.1]
    funext q
    rw [World.contents, exec_files htame.1]
    rfl
  · rcases exec_metaOf hm with hold | hnew
    · exact h.2 m hold
    · exact absurd hnew (htame.2 m)

/-- Writing ROLLBACK_FAILED keeps everything there is to recover from. -/
theorem undoing_writeMeta {m' : Meta} (hneeds : m'.state.needsRecovery = true)
    (hrec : pl.Recorded H m') (h : pl.Undoing H m w) :
    pl.Undoing H m' (w.writeMeta pl.txid m') where
  onDisk := by simp [World.metaOf]
  needs := hneeds
  midway := by
    refine ⟨hrec, ?_, h.midway.within⟩
    rw [World.writeMeta_dir_self]
    exact h.midway.imaged

/-- Restoring, the runtime state, the final state and cleaning up. -/
theorem meets_recoverPlan_alone {items : List PlanItem} (hitems : ∀ item ∈ items, Undoes pl item)
    (hcover : ∀ p ∈ pl.targets, w.contents p.2.path = pl.before p.2.path ∨
      ∃ item ∈ items, item.path = p.2.path ∧ item.writes = true)
    (h : pl.Undoing H m w) :
    Meets (recoveringAlone ok H pid pl) (recoverPlan H pl.txid m bi items) s w
      (fun r _ v => Healed ok H pl r v) := by
  unfold recoverPlan
  refine meets_call_bind (sat_recoverAll_alone items hitems h) ?_
  rintro files v ⟨hv, hrestored⟩
  refine meets_call_bind (sat_quiet_alone (quiet_restoreRuntime H bi) hv.recoverable) ?_
  rintro runtime u rfl
  have hback : files = true ∨ Flawless ok → u.contents = pl.before := by
    intro hdone
    exact hv.midway.within.undone (fun q hq => hrestored hdone _ (hcover q hq))
  dsimp only
  -- what is written last, and what holds once it is
  let m' : Meta := { m with
    state := if files && runtime then .rolledBack else .rollbackFailed
    rollbackComplete := some (files && runtime) }
  let J : World → Prop := fun y =>
    (files && runtime) = true ∧ pl.Back y ∨
      (files && runtime) = false ∧ pl.Undoing H m' y ∧ (Flawless ok → y.contents = pl.before)
  have hJ : ∀ y, J y → pl.Recoverable H y := by
    rintro y (⟨-, hy⟩ | ⟨-, hy, -⟩)
    · exact hy.recoverable
    · exact hy.recoverable
  have hwritten : J (u.writeMeta pl.txid m') := by
    cases hboth : files && runtime with
    | true =>
        have hfiles : files = true := by
          simp only [Bool.and_eq_true] at hboth
          exact hboth.1
        refine Or.inl ⟨hboth, hback (Or.inl hfiles), fun x hx => ?_⟩
        simp only [World.metaOf, World.writeMeta_dir_self, Option.some.injEq] at hx
        rw [← hx]
        simp [m', hboth]
    | false =>
        refine Or.inr ⟨hboth, undoing_writeMeta (by simp [m', hboth, State.needsRecovery]) ?_ hv,
          fun hok => hback (Or.inr hok)⟩
        obtain ⟨h1, h2, h3, h4, h5⟩ := hv.midway.recorded
        exact ⟨h1, h2, h3, h4, h5⟩
  have hend : ∀ {y : World}, J y → Healed ok H pl (.ok (.restored (files && runtime))) y := by
    intro y hy
    refine ⟨hJ y hy, fun _ hr => (by cases hr), fun _ hr => (by cases hr), fun hok => ⟨?_, _, rfl⟩⟩
    rcases hy with ⟨-, hy⟩ | ⟨-, -, hy⟩
    · exact hy.1
    · exact hy hok
  have hstore : Prog.Sat (recoveringAlone ok H pid pl) (fun done y =>
      (done = true ∧ J y) ∨ (done = false ∧ pl.Recoverable H y ∧ ¬ Flawless ok))
      (perform (.storeMeta pl.txid m') : Proc Done) u := by
    refine sat_aloneIf (fun c => ⟨?_, fun hc => ?_⟩)
    · exact faulty_keeps (I := pl.Recoverable H) c.fault hv.recoverable (hJ _ hwritten)
    · show ((faulty c.fault u (u.writeMeta pl.txid m')).1 = true ∧
          J (faulty c.fault u (u.writeMeta pl.txid m')).2) ∨ _
      cases hfault : c.fault with
      | none => exact Or.inl ⟨rfl, hwritten⟩
      | before =>
          refine Or.inr ⟨?_, ?_, fun hok => ?_⟩
          · simp [execWith, Op.choice, exec, faulty, hfault]
          · simpa [execWith, Op.choice, exec, faulty, hfault] using hv.recoverable
          · rw [(hok c hc).1] at hfault
            cases hfault
      | after =>
          refine Or.inr ⟨?_, ?_, fun hok => ?_⟩
          · simp [execWith, Op.choice, exec, faulty, hfault]
          · simpa [execWith, Op.choice, exec, faulty, hfault] using hJ _ hwritten
          · rw [(hok c hc).1] at hfault
            cases hfault
  refine meets_bind (M := fun r _ y => (r = .ok () ∧ J y) ∨
    (r = .error .other ∧ pl.Recoverable H y ∧ ¬ Flawless ok)) ?_ ?_ ?_
  · unfold must
    refine meets_call_bind hstore ?_
    rintro done y (⟨rfl, hy⟩ | ⟨rfl, hy⟩)
    · exact meets_ret_alone (Or.inl ⟨rfl, hy⟩)
    · exact meets_raise_alone (Or.inr ⟨rfl, hy⟩)
  · rintro _ s' y (⟨-, hy⟩ | ⟨hr, -⟩)
    case inr => cases hr
    refine meets_call_bind (M := fun _ z => J z) ?_ ?_
    · rcases hy with ⟨hboth, hy⟩ | ⟨hboth, hy⟩
      · rw [if_pos hboth]
        refine Prog.Sat.mono (P := fun _ z => pl.Back z) ?_ (fun _ z hz => Or.inl ⟨hboth, hz⟩)
        refine Prog.Only.sat_keeps (removing_removeMaterials pl.txid).tidying ?_ ?_ hy
        · rintro a b ha rfl
          exact ha
        · exact fun e he z hz => ⟨fun c => (back_tidies he _ hz).recoverable,
            fun c _ => back_tidies he _ hz⟩
      · rw [if_neg (by rw [hboth]; simp)]
        rintro z rfl
        exact Or.inr ⟨hboth, hy⟩
    · rintro _ z hz
      refine meets_call_bind (M := fun _ x => J x) ?_ (fun _ x hx => meets_ret_alone (hend hx))
      rcases hz with ⟨hboth, hz⟩ | ⟨hboth, hz⟩
      · refine Prog.Sat.mono (P := fun _ x => pl.Back x) ?_ (fun _ x hx => Or.inl ⟨hboth, hx⟩)
        exact sat_gc_keeps (D := fun _ => True) (fun v hv => hv.recoverable)
          (fun d _ e c v he hv => back_tidies (Or.inr ⟨d, he⟩) c hv) (fun _ _ _ _ _ _ => trivial) hz
      · refine Prog.Sat.mono
          (P := fun _ x => pl.Undoing H m' x ∧ (Flawless ok → x.contents = pl.before)) ?_
          (fun _ x hx => Or.inr ⟨hboth, hx⟩)
        refine sat_gc_keeps (D := fun d => d ≠ pl.txid) (fun v hv => hv.1.recoverable) ?_ ?_ hz
        · rintro d hd e c v he ⟨hv, hcontents⟩
          refine ⟨undoing_removes hd he c hv, fun hok => ?_⟩
          rw [← hcontents hok]
          funext q
          rw [World.contents, @exec_files v H pid e (@not_touches_of_removes pl _ _ he).1 c]
          rfl
        · rintro d v x ⟨hv, -⟩ hx hterm rfl
          rw [hv.onDisk] at hx
          cases hx
          rw [State.not_gcTerminal_of_needsRecovery hv.needs] at hterm
          cases hterm
  · rintro e s' y (⟨hr, -⟩ | ⟨-, hy, hflaw⟩)
    · cases hr
    · exact meets_raise_alone ⟨hy, fun _ hr => (by cases hr), fun _ hr => (by cases hr),
        fun hok => absurd hok hflaw⟩

/-- The part under the lock. -/
theorem meets_recoverLocked_alone (hres : pl.Restorable H) (huniq : pl.targets.Uniq)
    (hfiles : bi.files = pl.records H) (h : pl.Undoing H m w) :
    Meets (recoveringAlone ok H pid pl) (recoverLocked H pl.txid m bi false) s w
      (fun r _ v => Healed ok H pl r v) := by
  have hmem : ∀ p ∈ pl.targets.sorted, p ∈ pl.targets := fun p hp => by simpa using hp
  unfold recoverLocked
  rw [h.midway.recorded.targets]
  refine meets_bind (meets_precheckAll_alone hres huniq hfiles h _ hmem) ?_ ?_
  · rintro checks s' v ⟨rfl, checks', hchecks, hall⟩
    cases hchecks
    obtain ⟨hitems, hcover, hmaterial, hconflict⟩ := found_planOf hmem hall
    rw [hmaterial, hconflict]
    exact meets_recoverPlan_alone hitems (fun p hp => hcover p (by simpa using hp)) h
  · rintro e s' v ⟨-, checks, he, -⟩
    cases he

theorem Plan.Recoverable.congr {w' : World} (h : pl.Recoverable H w) (hfiles : w'.files = w.files)
    (hdir : w'.dir pl.txid = w.dir pl.txid) : pl.Recoverable H w' := by
  have hmeta : w'.metaOf pl.txid = w.metaOf pl.txid := by rw [World.metaOf, hdir]; rfl
  rcases h with ⟨m, hm, hneeds, hrec, himg, hwithin⟩ | ⟨hcontents, hm⟩
  · exact Or.inl ⟨m, hmeta.trans hm, hneeds, hrec, by rw [hdir]; exact himg,
      by rw [hfiles]; exact hwithin⟩
  · refine Or.inr ⟨?_, fun m hm' => hm m (hmeta ▸ hm')⟩
    rw [← hcontents]
    funext q
    rw [World.contents, hfiles]
    rfl

/-- **`recover`**, whatever fails: it finds no conflict and no damaged material, and leaves
something to recover from or nothing to do; when nothing fails, every path is back. -/
theorem meets_recover_alone (hres : pl.Restorable H) (huniq : pl.targets.Uniq)
    (hlock : Flawless ok → w.lock = none) (h : pl.Recoverable H w) :
    Meets (recoveringAlone ok H pid pl) (recover H pl.txid false) s w
      (fun r _ v => Healed ok H pl r v) := by
  unfold recover
  refine meets_call_bind (M := fun x v => v = w ∧ x = w.metaOf pl.txid) ?_ ?_
  · refine sat_alone (fun c => ?_)
    rw [execWith_quiet rfl]
    exact ⟨h, rfl, rfl⟩
  rintro x v ⟨rfl, rfl⟩
  have hdone : ∀ {r : Recovered}, (∀ names, r ≠ .conflicts names) →
      (∀ names, r ≠ .materialErr names) → v.contents = pl.before → Healed ok H pl (.ok r) v :=
    fun hc hm hback => ⟨h, fun names hr => hc names (by cases hr; rfl),
      fun names hr => hm names (by cases hr; rfl), fun _ => ⟨hback, _, rfl⟩⟩
  have hrec := h
  rcases h with ⟨m, hm, hneeds, hmid⟩ | ⟨hback, hm⟩
  -- production is back already, and there is nothing to do
  case inr =>
    cases hmeta : v.metaOf pl.txid with
    | none => exact meets_ret_alone (hdone (fun _ hr => (by cases hr)) (fun _ hr => (by cases hr)) hback)
    | some m =>
        dsimp only
        split
        · exact meets_ret_alone (hdone (fun _ hr => (by cases hr)) (fun _ hr => (by cases hr)) hback)
        · rw [hm m hmeta, if_pos (show State.rolledBack.needsRecovery = false from rfl)]
          exact meets_ret_alone (hdone (fun _ hr => (by cases hr)) (fun _ hr => (by cases hr)) hback)
  rw [hm]
  dsimp only
  rw [if_neg (by rw [hmid.recorded.schema]; simp), if_neg (by rw [hneeds]; simp)]
  obtain ⟨bi, hindex, hfiles⟩ := hmid.imaged.1
  refine meets_call_bind (M := fun x u => u = v ∧ x = some bi) ?_ ?_
  · refine sat_alone (fun c => ?_)
    rw [execWith_quiet rfl]
    exact ⟨hrec, rfl, hindex⟩
  rintro x u ⟨rfl, rfl⟩
  dsimp only
  unfold withLock
  refine meets_call_bind (M := fun a y => (pl.Undoing H m y) ∧
    (Flawless ok → a = LockAnswer.acquired)) ?_ ?_
  · refine sat_aloneIf (fun c => ?_)
    obtain ⟨hsame, hdir⟩ := @exec_lock_same H pid u _ (Or.inl rfl)
      (Op.choice false .lock c) pl.txid
    refine ⟨hrec.congr hsame hdir, fun hc => ⟨⟨?_, hneeds, hmid.recorded, ?_, ?_⟩, fun hok => ?_⟩⟩
    · rw [World.metaOf]
      exact (congrArg TxDir.metaJson hdir).trans hm
    · exact hdir ▸ hmid.imaged
    · exact hsame ▸ hmid.within
    · have hyes : c.yes = true := (hok c hc).2
      simp [execWith, Op.choice, exec, hyes, hlock hok]
  rintro a y ⟨hy, hacquired⟩
  have hfail : ∀ e : Exn, a ≠ .acquired → Healed ok H pl (.error e) y := fun e ha =>
    ⟨hy.recoverable, fun _ hr => (by cases hr), fun _ hr => (by cases hr),
      fun hok => absurd (hacquired hok) ha⟩
  cases a with
  | unusable => exact meets_raise_alone (hfail _ (by simp))
  | busy => exact meets_raise_alone (hfail _ (by simp))
  | acquired =>
      -- the lock is given back, however the recovery ends
      refine meets_outcome (meets_recoverLocked_alone hres huniq hfiles hy) ?_
      intro r s' z hz
      refine meets_call_bind (M := fun _ x => Healed ok H pl r x) ?_ ?_
      · refine sat_alone (fun c => ?_)
        obtain ⟨hsame, hdir⟩ := @exec_lock_same H pid z _ (Or.inr rfl)
          (Op.choice false .unlock c) pl.txid
        have hkept := hz.recoverable.congr hsame hdir
        refine ⟨hkept, hkept, hz.noConflicts, hz.noMaterialErr, fun hok => ⟨?_, (hz.back hok).2⟩⟩
        rw [← (hz.back hok).1]
        funext q
        exact congrArg Node.data? (congrFun hsame q)
      · intro _ x hx
        cases r with
        | ok v => exact meets_ret_alone hx
        | error e => exact meets_raise_alone hx

end Recover

/-! ### Crashes -/

/-- The world after a process was killed: its lock is released. -/
def World.release (w : World) (pid : Pid) : World :=
  { w with lock := if w.lock = some pid then none else w.lock }

/-- A process, killed after some operations. -/
def crashed {α : Type} (H : Host) (p : Proc α) (w : World) (pid : Pid) (cs : List Choice) : World :=
  (Prog.run (exec H pid) cs (p, w)).2.release pid

/-- Any number of `recover` processes, each of them killed. -/
def retried (H : Host) (T : Txid) (w : World) (retries : List (Pid × List Choice)) : World :=
  retries.foldl (fun v r => crashed H (recover H T false ()) v r.1 r.2) w

section Crashes

variable {H : Host} {pid : Pid} {pl : Plan} {w : World} {s : Tx} {α : Type}

theorem exec_ownLock (e : Op) (c : Choice) (h : w.lock = none ∨ w.lock = some pid) :
    (exec H pid e c w).2.lock = none ∨ (exec H pid e c w).2.lock = some pid := by
  by_cases hl : e = .lock
  · subst hl
    simp only [exec]
    split
    · exact h
    · split
      · exact Or.inr rfl
      · exact h
  · by_cases hu : e = .unlock
    · subst hu
      simp only [exec]
      split
      · exact Or.inl rfl
      · exact h
    · rw [exec_lock hl hu]
      exact h

/-- A killed process leaves the lock free. -/
theorem crashed_lock (p : Proc α) (cs : List Choice) (h : w.lock = none) :
    (crashed H p w pid cs).lock = none := by
  have hrun : ∀ (cs : List Choice) (q : Proc α) (v : World), (v.lock = none ∨ v.lock = some pid) →
      ((Prog.run (exec H pid) cs (q, v)).2.lock = none ∨
        (Prog.run (exec H pid) cs (q, v)).2.lock = some pid) := by
    intro cs
    induction cs with
    | nil => exact fun q v hv => hv
    | cons c cs ih =>
        intro q v hv
        cases q with
        | ret a => exact ih _ _ hv
        | op e k => exact ih _ _ (exec_ownLock e c hv)
  unfold crashed World.release
  rcases hrun cs p w (Or.inl h) with hl | hl
  · simp [hl]
  · simp [hl]

/-- The plan's targets are the ones that `commit` will have. -/
theorem plan_derives (H : Host) (s : Tx) (w : World) : (s.plan H w).Derives H s := by
  intro targets hd
  show (deriveAt H w.files s.readSha s.derivers s.targets).toOption.getD s.targets = targets
  have hd' : deriveAt H w.files s.readSha s.derivers s.targets = .ok targets := hd
  rw [hd']
  rfl

/-- Wherever a commit is cut, `meta.json` says what is true. -/
theorem crashed_commit_sound (hs : s.Assembling)
    (hdisk : ∀ m, w.metaOf s.txid = some m → m.state.unstarted = true)
    (hown : (s.plan H w).OwnImages) (cs : List Choice) :
    (s.plan H w).Sound H True (crashed H (commit H s) w pid cs) := by
  have hfits : (s.plan H w).Fits false H True s :=
    ⟨plan_derives H s w, ⟨fun _ => trivial, fun _ _ _ _ _ _ _ => trivial⟩, fun _ => trivial,
      hs.plan_uniq, hown⟩
  have hbegun : (s.plan H w).Begun True s w :=
    ⟨⟨rfl, hs.metaId, hs.schema, rfl⟩, hs.state, rfl, fun _ => hdisk⟩
  have hmeets := @meets_commit_alone false H pid _ _ _ _ _ hfits hbegun
  have hrun := Prog.Sat.run_invariant (I := (s.plan H w).Sound H True) hmeets
    (fun e c v hp _ => hp c) hbegun.2.2.sound cs (fun _ _ => trivial)
  exact hrun.congr rfl rfl

/-- Wherever a `recover` is cut, there is something to recover from or nothing to do. -/
theorem crashed_recover_recoverable (hres : pl.Restorable H) (huniq : pl.targets.Uniq)
    (hlock : w.lock = none) (h : pl.Recoverable H w) (cs : List Choice) :
    pl.Recoverable H (crashed H (recover H pl.txid false ()) w pid cs) := by
  have hmeets := @meets_recover_alone (fun _ => True) H pid pl w () hres huniq (fun _ => hlock) h
  have hrun := Prog.Sat.run_invariant (I := pl.Recoverable H) hmeets
    (fun e c v hp _ => hp c) h cs (fun _ _ => trivial)
  exact hrun.congr rfl rfl

theorem retried_recoverable (hres : pl.Restorable H) (huniq : pl.targets.Uniq)
    (retries : List (Pid × List Choice)) (hlock : w.lock = none) (h : pl.Recoverable H w) :
    pl.Recoverable H (retried H pl.txid w retries) ∧
      (retried H pl.txid w retries).lock = none := by
  induction retries generalizing w with
  | nil => exact ⟨h, hlock⟩
  | cons r rest ih =>
      exact ih (crashed_lock _ _ hlock) (crashed_recover_recoverable hres huniq hlock h r.2)

/-- A true `meta.json` in a state that needs recovery, or in ROLLED_BACK. -/
theorem recoverable_of_sound {st : State} (h : pl.Sound H True w)
    (hst : w.stateOf pl.txid = some st) (hneeds : st.needsRecovery = true ∨ st = .rolledBack) :
    pl.Recoverable H w := by
  obtain ⟨m, hm, rfl⟩ := Option.map_eq_some_iff.1 hst
  obtain ⟨hmid, hback⟩ := h trivial m hm
  rcases hneeds with hneeds | hrolled
  · exact Or.inl ⟨m, hm, hneeds, hmid hneeds⟩
  · refine Or.inr ⟨hback hrolled, fun m' hm' => ?_⟩
    rw [hm] at hm'
    cases hm'
    exact hrolled

/-- **Crash recovery.** A commit is cut somewhere between APPLYING and COMMITTED, and any
number of `recover` processes are cut as well. The next `recover` reports neither
conflicts nor damaged materials, and when nothing fails in it every path holds what it
held before the transaction. -/
theorem recover_after_crashes (hs : s.Assembling) (hlock : w.lock = none)
    (hdisk : ∀ m, w.metaOf s.txid = some m → m.state.unstarted = true)
    (hres : (s.plan H w).Restorable H) (cs : List Choice) {st : State}
    (hst : (crashed H (commit H s) w pid cs).stateOf s.txid = some st)
    (hneeds : st.needsRecovery = true ∨ st = .rolledBack)
    (retries : List (Pid × List Choice)) (pid' : Pid) (ch : Nat → Choice) :
    let v := retried H s.txid (crashed H (commit H s) w pid cs) retries
    let r := Prog.complete (exec H pid') ch (recover H s.txid false ()) v
    (∀ names, r.1.1 ≠ .ok (.conflicts names) ∧ r.1.1 ≠ .ok (.materialErr names)) ∧
      ((∀ n, (ch n).fault = .none ∧ (ch n).yes = true) →
        (∃ x, r.1.1 = .ok x) ∧ r.2.contents = w.contents) := by
  intro v r
  have hsound : (s.plan H w).Sound H True (crashed H (commit H s) w pid cs) :=
    crashed_commit_sound hs hdisk hres.own cs
  have hrec : (s.plan H w).Recoverable H (crashed H (commit H s) w pid cs) :=
    recoverable_of_sound hsound hst hneeds
  obtain ⟨hv, hfree⟩ := retried_recoverable hres hs.plan_uniq retries (crashed_lock _ _ hlock) hrec
  -- judged for the choices that actually come
  let ok : Choice → Prop := fun c => ∃ n, ch n = c
  have hmeets := @meets_recover_alone ok H pid' _ v () hres hs.plan_uniq (fun _ => hfree) hv
  have hend := Prog.Sat.complete hmeets ch (fun n => ⟨n, rfl⟩)
  refine ⟨fun names => ⟨hend.noConflicts names, hend.noMaterialErr names⟩, fun hflaw => ?_⟩
  obtain ⟨hback, hx⟩ := hend.back (by rintro c ⟨n, rfl⟩; exact hflaw n)
  exact ⟨hx, hback⟩

end Crashes

/-! ### A new file, and two files with one leaf -/

/-- The commit of a new file, cut after the file was written. -/
def cutCommit : World :=
  crashed Host.plain (commit Host.plain stagedTx) (oneFile aService .absent) 1 (List.replicate 17 {})

/-- A `recover` is cut after it removed the file, the next one is not cut. -/
def healedRun : (Except Exn Recovered × Unit) × World :=
  Prog.complete (exec Host.plain 3) (fun _ => {}) (recover Host.plain "T" false ())
    (retried Host.plain "T" cutCommit [(2, List.replicate 5 {})])

theorem stagedTx_assembling : stagedTx.Assembling :=
  ⟨by decide +kernel, by decide +kernel, by decide +kernel, by unfold Dict.Uniq; decide +kernel⟩

theorem stagedTx_restorable :
    (stagedTx.plan Host.plain (oneFile aService .absent)).Restorable Host.plain := by
  have hbefore : (stagedTx.plan Host.plain (oneFile aService .absent)).before aService = none := by
    decide +kernel
  have hprofile : aService ≠ profilePath := by decide
  refine ⟨?_, ?_, ?_, ?_⟩
  · intro p hp data st hfile
    rw [stagedTx_targets] at hp
    rw [List.mem_singleton.1 hp] at hfile
    have hnone : (stagedTx.plan Host.plain (oneFile aService .absent)).files aService = .absent := by
      decide +kernel
    have hfile' : (stagedTx.plan Host.plain (oneFile aService .absent)).files aService =
        .file data st := hfile
    rw [hnone] at hfile'
    cases hfile'
  · intro p hp _ hd
    rw [stagedTx_targets] at hp
    rw [List.mem_singleton.1 hp] at hd
    have hd' : some (Host.plain.sha [2]) = Option.map Host.plain.sha
        ((stagedTx.plan Host.plain (oneFile aService .absent)).before aService) := hd
    rw [hbefore] at hd'
    cases hd'
  · intro p hp q hq _ _
    rw [stagedTx_targets] at hp hq
    rw [List.mem_singleton.1 hp, List.mem_singleton.1 hq]
    exact Or.inr rfl
  · intro p hp profile _
    rw [stagedTx_targets] at hp
    rw [List.mem_singleton.1 hp]
    exact ⟨⟨aService, 0o644, false, ["systemd_unit"]⟩, rfl, by decide +kernel⟩

theorem healedRun_heals :
    (∀ names, healedRun.1.1 ≠ .ok (.conflicts names) ∧ healedRun.1.1 ≠ .ok (.materialErr names)) ∧
      ((∀ n : Nat, ((fun _ => {} : Nat → Choice) n).fault = .none ∧
          ((fun _ => {} : Nat → Choice) n).yes = true) →
        (∃ x, healedRun.1.1 = .ok x) ∧ healedRun.2.contents = (oneFile aService .absent).contents) :=
  recover_after_crashes stagedTx_assembling rfl
    (fun m hm => by
      have hnone : (oneFile aService .absent).metaOf "T" = none := rfl
      have hm' : (oneFile aService .absent).metaOf "T" = some m := hm
      rw [hnone] at hm'
      cases hm')
    stagedTx_restorable (List.replicate 17 {})
    (show cutCommit.stateOf "T" = some .observing by decide +kernel) (Or.inl rfl)
    [(2, List.replicate 5 {})] 3 (fun _ => {})

/-- Two unit files whose names differ in one character that a leaf cannot hold. -/
def twoFiles : World where
  files := fun p =>
    if p = "/etc/systemd/system/a@b.service" then .file [1] ⟨0o644, 0, 0⟩
    else if p = "/etc/systemd/system/a_b.service" then .file [2] ⟨0o644, 0, 0⟩
    else .absent
  txs := [("T", { candidate := some [], before := some [] })]
  lock := none
  log := []

/-- Both are staged. -/
def sharedLeafTx : Tx :=
  (runTx (stage Host.plain "unit:a_b.service" (some [4]) none)
    (runTx (stage Host.plain "unit:a@b.service" (some [3]) none) blankTx twoFiles).1.2 twoFiles).1.2

/-- The commit is cut after both were written. -/
def cutShared : World :=
  crashed Host.plain (commit Host.plain sharedLeafTx) twoFiles 1 (List.replicate 22 {})

/-- **One before-image for two files**: `recover` finds a damaged material and restores
nothing. -/
theorem shared_leaf_not_recovered :
    sharedLeafTx.Assembling ∧ twoFiles.lock = none ∧ twoFiles.metaOf "T" = none ∧
      cutShared.stateOf "T" = some .applying ∧
      (Prog.complete (exec Host.plain 2) (fun _ => {}) (recover Host.plain "T" false ())
        cutShared).1.1 = .ok (.materialErr ["unit:a@b.service"]) ∧
      (Prog.complete (exec Host.plain 2) (fun _ => {}) (recover Host.plain "T" false ())
        cutShared).2.contents "/etc/systemd/system/a@b.service" ≠
          twoFiles.contents "/etc/systemd/system/a@b.service" := by
  refine ⟨⟨by decide +kernel, by decide +kernel, by decide +kernel,
    by unfold Dict.Uniq; decide +kernel⟩, rfl, rfl, by decide +kernel, by decide +kernel,
    by decide +kernel⟩

end ProxyGateway.Pdgtx
