import ProxyGateway.Pdgtx.Alone

set_option autoImplicit false

/-!
# ProxyGateway.Pdgtx.Plan

What a commit is about to do, as a function of the world in which it got the lock: the
before-images and records it saves, the contents it leaves when everything works, and
the contents production may have while it is at work or being undone.

The plan ties `recover` to the commit. `Recorded` says that `meta.json` holds the plan's
targets, digests and paths, `Imaged` that the materials are on disk, `Within` that
production holds nothing but what was there or what is planned. `Sound` asks for all of
them whenever the transaction needs recovery.
-/

namespace ProxyGateway.Pdgtx

/-- Does applying a target write to its path? -/
def Target.applies (t : Target) : Bool := t.data.isSome || t.existed

/-- The bytes at every path. -/
def World.contents (w : World) (p : Path) : Option Bytes := (w.files p).data?

/-- A commit seen from the lock: the transaction, production, all targets (derived ones
included), and the paths recorded when they were staged. -/
structure Plan where
  txid : Txid
  files : Path → Node
  targets : Dict Name Target
  paths : Dict Name Path

namespace Plan

variable (H : Host) (pl : Plan)

/-- The bytes at a path when the lock was taken. -/
def before (p : Path) : Option Bytes := (pl.files p).data?

/-- The record `_save_before` makes of one target. -/
def recordOf (p : Name × Target) : BeforeRec :=
  match pl.files p.2.path with
  | .file data st => ⟨true, safeLeaf p.1, H.sha data, st⟩
  | _ => ⟨false, "", "", ⟨0, 0, 0⟩⟩

/-- The records of some targets. -/
def recordsOf (ps : List (Name × Target)) : Dict Name BeforeRec :=
  ps.map (fun p => (p.1, pl.recordOf H p))

/-- All records, in the order of the index. -/
def records : Dict Name BeforeRec := pl.recordsOf H pl.targets.sorted

/-- The images stored so far, and that of one more target. -/
def addImage (stored : Dict Leaf Bytes) (p : Name × Target) : Dict Leaf Bytes :=
  match pl.files p.2.path with
  | .file data _ => stored.set (safeLeaf p.1) data
  | _ => stored

/-- The images of some targets, stored one after the other: a later one may take the leaf
of an earlier one. -/
def imagesOf (ps : List (Name × Target)) : Dict Leaf Bytes := ps.foldl pl.addImage []

/-- All images. -/
def images : Dict Leaf Bytes := pl.imagesOf pl.targets.sorted

/-- The leaves hold these images. -/
def Holds (images : Dict Leaf Bytes) (d : TxDir) : Prop :=
  ∀ leaf data, images.get? leaf = some data → (d.before.getD []).get? leaf = some data

/-- `intended_sha`. -/
def intended : Dict Name (Option Digest) := pl.targets.map (fun p => (p.1, p.2.data.map H.sha))

/-- The names, in the order of the meta. -/
def names : List Name := pl.targets.sorted.map Prod.fst

/-- Contents after one more target was applied. -/
def applyTo (content : Path → Option Bytes) (p : Name × Target) : Path → Option Bytes :=
  if p.2.applies then Function.update content p.2.path p.2.data else content

/-- Contents after some targets were applied in order. -/
def applied (ps : List (Name × Target)) : Path → Option Bytes := ps.foldl applyTo pl.before

/-- No target is a link. -/
def NoLinks : Prop := ∀ p ∈ pl.targets, pl.files p.2.path ≠ .link

/-- Every target that existed has its own bytes in the leaf its record names. -/
def OwnImages : Prop :=
  ∀ p ∈ pl.targets, ∀ data st, pl.files p.2.path = .file data st →
    pl.images.get? (safeLeaf p.1) = some data

/-- `meta.json` holds the plan. -/
structure Recorded (m : Meta) : Prop where
  txid : m.txid = pl.txid
  schema : m.schemaVersion = schemaVersion
  targets : m.targets = pl.names
  paths : m.targetPaths = pl.paths
  intended : m.intendedSha = pl.intended H

/-- The materials are on disk. -/
def Imaged (d : TxDir) : Prop :=
  (∃ bi, d.index = some bi ∧ bi.files = pl.records H) ∧ Holds pl.images d

/-- What a target's path may hold while the commit is at work: what it held, or what the
plan puts there. -/
def Allowed (p : Path) (content : Option Bytes) : Prop :=
  content = pl.before p ∨
    ∃ q ∈ pl.targets, q.2.path = p ∧ q.2.applies = true ∧ content = q.2.data

/-- Production holds nothing but what was there and what is planned. -/
structure Within (files : Path → Node) : Prop where
  others : ∀ p, (∀ q ∈ pl.targets, q.2.path ≠ p) → files p = pl.files p
  plain : ∀ q ∈ pl.targets, files q.2.path ≠ .link
  allowed : ∀ q ∈ pl.targets, pl.Allowed q.2.path (files q.2.path).data?

/-- On disk the transaction is somewhere in the plan. -/
structure Midway (m : Meta) (w : World) : Prop where
  recorded : pl.Recorded H m
  imaged : pl.Imaged H (w.dir pl.txid)
  within : pl.Within w.files

/-- What `meta.json` says is true: a transaction that needs recovery is somewhere in the
plan, one that is ROLLED_BACK has left every byte as it was. `Q` switches the clauses on. -/
def Sound (Q : Prop) (w : World) : Prop :=
  Q → ∀ m, w.metaOf pl.txid = some m →
    (m.state.needsRecovery = true → pl.Midway H m w) ∧
    (m.state = .rolledBack → w.contents = pl.before)

/-! ### Records, images and contents -/

variable {H pl}

theorem get?_recordsOf {ps : List (Name × Target)} (hps : (ps.map Prod.fst).Nodup)
    {p : Name × Target} (h : p ∈ ps) : (pl.recordsOf H ps).get? p.1 = some (pl.recordOf H p) := by
  have huniq : Dict.Uniq (pl.recordsOf H ps) := by
    simpa [Dict.Uniq, Dict.keys, recordsOf, Function.comp_def] using hps
  exact huniq.get?_of_mem (List.mem_map.2 ⟨p, h, rfl⟩)

theorem get?_records (huniq : pl.targets.Uniq) {p : Name × Target} (h : p ∈ pl.targets) :
    (pl.records H).get? p.1 = some (pl.recordOf H p) :=
  get?_recordsOf (Dict.sorted_keys_nodup huniq) (by simpa using h)

/-- A record says whether the target existed, and where its image is. -/
theorem recordOf_existed {p : Name × Target} {r : BeforeRec}
    (h : (some (pl.recordOf H p)).filter BeforeRec.existed = some r) :
    ∃ data st, pl.files p.2.path = .file data st ∧ r = ⟨true, safeLeaf p.1, H.sha data, st⟩ := by
  obtain ⟨hr, hexisted⟩ : pl.recordOf H p = r ∧ r.existed = true := by
    simpa [Option.filter_eq_some_iff] using h
  unfold recordOf at hr
  cases hf : pl.files p.2.path with
  | file data st =>
      rw [hf] at hr
      exact ⟨data, st, rfl, hr.symm⟩
  | absent =>
      rw [hf] at hr
      subst hr
      cases hexisted
  | link =>
      rw [hf] at hr
      subst hr
      cases hexisted

theorem recordOf_absent {p : Name × Target} (h : (some (pl.recordOf H p)).filter
    BeforeRec.existed = none) : pl.before p.2.path = none := by
  unfold recordOf at h
  unfold before
  cases hf : pl.files p.2.path with
  | file data st =>
      rw [hf] at h
      simp at h
  | absent => rfl
  | link => rfl

theorem get?_intended (huniq : pl.targets.Uniq) {p : Name × Target} (h : p ∈ pl.targets) :
    (pl.intended H).get? p.1 = some (p.2.data.map H.sha) := by
  have hkeys : Dict.Uniq (pl.intended H) := by
    simpa [Dict.Uniq, Dict.keys, intended, Function.comp_def] using huniq
  exact hkeys.get?_of_mem (List.mem_map.2 ⟨p, h, rfl⟩)

/-- A leaf that no later target uses keeps its image. -/
theorem get?_foldl_addImage {ps : List (Name × Target)} {stored : Dict Leaf Bytes} {leaf : Leaf}
    (h : ∀ p ∈ ps, safeLeaf p.1 ≠ leaf) :
    (ps.foldl pl.addImage stored).get? leaf = stored.get? leaf := by
  induction ps generalizing stored with
  | nil => rfl
  | cons p ps ih =>
      rw [List.foldl_cons, ih (fun q hq => h q (by simp [hq]))]
      unfold addImage
      split
      · exact Dict.get?_set_ne (h p (by simp)) _ _
      · rfl

/-- With distinct leaves every target has its own image. -/
theorem ownImages_of_leaves
    (hleaves : (pl.targets.map (fun p => safeLeaf p.1)).Nodup) : pl.OwnImages := by
  have hnodup : (pl.targets.sorted.map (fun p => safeLeaf p.1)).Nodup :=
    ((Dict.sorted_perm pl.targets).map _).nodup_iff.mpr hleaves
  intro p hp data st hfile
  obtain ⟨xs, ys, hsplit⟩ := List.append_of_mem (show p ∈ pl.targets.sorted by simpa using hp)
  have hlater : ∀ q ∈ ys, safeLeaf q.1 ≠ safeLeaf p.1 := by
    intro q hq he
    rw [hsplit, List.map_append, List.map_cons] at hnodup
    have hcons := (List.nodup_append.1 hnodup).2.1
    exact (List.nodup_cons.1 hcons).1 (he ▸ List.mem_map.2 ⟨q, hq, rfl⟩)
  unfold images imagesOf
  rw [hsplit, List.foldl_append, List.foldl_cons, get?_foldl_addImage hlater]
  simp [addImage, hfile]

theorem foldl_applyTo_of_ne {ps : List (Name × Target)} {content : Path → Option Bytes} {path : Path}
    (h : ∀ p ∈ ps, p.2.path ≠ path) : (ps.foldl applyTo content) path = content path := by
  induction ps generalizing content with
  | nil => rfl
  | cons p ps ih =>
      rw [List.foldl_cons, ih (fun q hq => h q (by simp [hq]))]
      unfold applyTo
      split
      · exact Function.update_of_ne (Ne.symm (h p (by simp))) _ _
      · rfl

/-- With distinct paths a target that is applied leaves its data at its path. -/
theorem applied_path (hpaths : (pl.targets.map (fun p => p.2.path)).Nodup) {p : Name × Target}
    (hp : p ∈ pl.targets) :
    pl.applied pl.targets.sorted p.2.path =
      if p.2.applies then p.2.data else pl.before p.2.path := by
  have hnodup : (pl.targets.sorted.map (fun p => p.2.path)).Nodup :=
    ((Dict.sorted_perm pl.targets).map _).nodup_iff.mpr hpaths
  obtain ⟨xs, ys, hsplit⟩ := List.append_of_mem (show p ∈ pl.targets.sorted by simpa using hp)
  rw [hsplit, List.map_append, List.map_cons] at hnodup
  obtain ⟨-, hcons, hdisj⟩ := List.nodup_append.1 hnodup
  have hlater : ∀ q ∈ ys, q.2.path ≠ p.2.path := fun q hq he =>
    (List.nodup_cons.1 hcons).1 (he ▸ List.mem_map.2 ⟨q, hq, rfl⟩)
  have hearlier : ∀ q ∈ xs, q.2.path ≠ p.2.path := fun q hq he =>
    hdisj _ (List.mem_map.2 ⟨q, hq, rfl⟩) _ (List.mem_cons_self ..) he
  unfold applied
  rw [hsplit, List.foldl_append, List.foldl_cons, foldl_applyTo_of_ne hlater]
  unfold applyTo
  split
  · exact Function.update_self ..
  · exact foldl_applyTo_of_ne hearlier

/-! ### Staying within the plan -/

theorem within_start (h : pl.NoLinks) : pl.Within pl.files where
  others := fun _ _ => rfl
  plain := h
  allowed := fun _ _ => Or.inl rfl

/-- Putting an allowed content at a target's path. -/
theorem Within.update {files : Path → Node} (h : pl.Within files) {q : Name × Target}
    (hq : q ∈ pl.targets) {n : Node} (hplain : n ≠ .link) (hn : pl.Allowed q.2.path n.data?) :
    pl.Within (Function.update files q.2.path n) where
  others := by
    intro p hp
    rw [Function.update_of_ne (Ne.symm (hp q hq))]
    exact h.others p hp
  plain := by
    intro x hx
    by_cases he : x.2.path = q.2.path
    · rw [he, Function.update_self]
      exact hplain
    · rw [Function.update_of_ne he]
      exact h.plain x hx
  allowed := by
    intro x hx
    by_cases he : x.2.path = q.2.path
    · rw [he, Function.update_self]
      exact hn
    · rw [Function.update_of_ne he]
      exact h.allowed x hx

/-- A target's path that holds no bytes is free. -/
theorem Within.absent {files : Path → Node} (h : pl.Within files) {q : Name × Target}
    (hq : q ∈ pl.targets) (hnone : (files q.2.path).data? = none) : files q.2.path = .absent := by
  have hplain := h.plain q hq
  cases hf : files q.2.path with
  | absent => rfl
  | file data st =>
      rw [hf] at hnone
      cases hnone
  | link => exact absurd hf hplain

end Plan

end ProxyGateway.Pdgtx
