import ProxyGateway.Restore.Extract

set_option autoImplicit false

/-!
# ProxyGateway.Restore.Rejected

What an archive leaves behind when it is refused. The files that an archive writes are read off its members
(`trail`), and a run of the loop is an update by them (`safeExtractLoop_trail`). The clean-up then removes
those that are complete, and only those: the file that is open when the extraction stops stays
(`leaves_nothing_iff`).
-/

namespace ProxyGateway.Restore

open Schema Py

variable {limits : Limits} {dest : Destination} {c c' : Counters} {m : Member} {members : List Member}
  {archive : Archive} {files : Files} {s : Extraction} {broken : Bool} {path target : Path} {bytes : Bytes}
  {e : Raised ExtractError}

/-! ### The files that an archive writes -/

/-- What is written until the extraction stops: the complete files, and the one that is open then. -/
structure Trail where
  complete : Files := []
  opened : Option (Path × Bytes) := none

/-- A complete file in front. -/
def Trail.behind (w : Path × Bytes) (t : Trail) : Trail := { t with complete := w :: t.complete }

/-- All that is written. -/
def Trail.writes (t : Trail) : Files := t.complete ++ t.opened.toList

/-- The trail of the members that follow, by the counters in front of them. -/
def trail (limits : Limits) (dest : Destination) : Counters → List Member → Trail
  | _, [] => {}
  | c, m :: members =>
      match acceptMember limits dest c m with
      | .error _ => {}
      | .ok (c, none) => trail limits dest c members
      | .ok (c, some target) =>
          match copyMember limits c m with
          | (bytes, .error _) => { opened := some (target, bytes) }
          | (bytes, .ok c) => (trail limits dest c members).behind (target, bytes)

/-- The trail of an archive. -/
def Archive.trail (limits : Limits) (dest : Destination) (archive : Archive) : Trail :=
  Restore.trail limits dest {} archive.members

/-- The loop writes the trail, and it lists what is complete. -/
theorem safeExtractLoop_trail (limits : Limits) (dest : Destination) (broken : Bool) (c : Counters)
    (members : List Member) (s : Extraction) :
    (safeExtractLoop limits dest broken c members s).1 =
      { files := s.files.update (trail limits dest c members).writes
        written := s.written ++ (trail limits dest c members).complete.keys } := by
  induction members generalizing c s with
  | nil => simp [safeExtractLoop, trail, Trail.writes, Dict.update]
  | cons m members ih =>
      rw [safeExtractLoop, trail]
      cases haccept : acceptMember limits dest c m with
      | error e => simp [Trail.writes, Dict.update]
      | ok accepted =>
          obtain ⟨c', opened⟩ := accepted
          cases opened with
          | none => exact ih c' s
          | some target =>
              rcases hcopy : copyMember limits c' m with ⟨bytes, copied⟩
              cases copied with
              | error e => simp [hcopy, Trail.writes, Dict.update]
              | ok c'' =>
                  simp only [hcopy]
                  rw [ih]
                  simp [Trail.behind, Trail.writes, Dict.update]

/-! ### What is left -/

/-- What an extraction leaves: all that it wrote, less the complete files where it raises. -/
theorem safeExtract_files (limits : Limits) (dest : Destination) (archive : Archive) (files : Files) :
    (safeExtract limits dest archive files).1 =
      match (safeExtract limits dest archive files).2 with
      | .ok _ => files.update (archive.trail limits dest).writes
      | .error _ => (archive.trail limits dest).complete.keys.reverse.foldl Dict.erase
          (files.update (archive.trail limits dest).writes) := by
  have hloop := safeExtractLoop_trail limits dest archive.broken {} archive.members { files }
  unfold safeExtract
  rcases hrun : safeExtractLoop limits dest archive.broken {} archive.members { files } with ⟨s, result⟩
  rw [hrun] at hloop
  change s = _ at hloop
  subst hloop
  cases result with
  | ok u => rfl
  | error e => rfl

theorem safeExtract_ok {u : Unit} (h : (safeExtract limits dest archive files).2 = .ok u) :
    (safeExtract limits dest archive files).1 = files.update (archive.trail limits dest).writes := by
  rw [safeExtract_files, h]

theorem safeExtract_error (h : (safeExtract limits dest archive files).2 = .error e) :
    (safeExtract limits dest archive files).1 =
      (archive.trail limits dest).complete.keys.reverse.foldl Dict.erase
        (files.update (archive.trail limits dest).writes) := by
  rw [safeExtract_files, h]

/-! ### Outside the destination -/

theorem isInside_of_acceptFile (h : acceptFile limits dest c m = .ok (c', target)) : isInside dest.root target = true := by
  simp only [acceptFile, raiseIf_bind_eq_ok, pure_eq_ok, Prod.mk.injEq] at h
  obtain ⟨-, -, -, -, -, hinside, -, -, -, -, -, rfl⟩ := h
  simpa using hinside

/-- What is opened is at or below the root. -/
theorem isInside_of_accepted (h : acceptMember limits dest c m = .ok (c', some target)) : isInside dest.root target = true := by
  simp only [acceptMember, raiseIf_bind_eq_ok] at h
  obtain ⟨-, hfile⟩ := unit_bind_eq_ok.mp h.2
  split at hfile
  · cases pure_eq_ok.mp hfile
  · obtain ⟨⟨c'', opened⟩, haccept, hreturn⟩ := bind_eq_ok.mp hfile
    cases pure_eq_ok.mp hreturn
    exact isInside_of_acceptFile haccept

theorem isInside_of_trail (h : path ∈ (trail limits dest c members).writes.keys) : isInside dest.root path = true := by
  induction members generalizing c with
  | nil => simp [trail, Trail.writes] at h
  | cons m members ih =>
      rw [trail] at h
      cases haccept : acceptMember limits dest c m with
      | error e => simp [haccept, Trail.writes] at h
      | ok accepted =>
          obtain ⟨c', opened⟩ := accepted
          rw [haccept] at h
          cases opened with
          | none => exact ih h
          | some target =>
              have htarget := isInside_of_accepted haccept
              rcases hcopy : copyMember limits c' m with ⟨bytes, copied⟩
              simp only [hcopy] at h
              cases copied with
              | error e =>
                  have hpath : path = target := by simpa [Trail.writes] using h
                  rwa [hpath]
              | ok c'' =>
                  rcases List.mem_cons.mp h with rfl | hlater
                  · exact htarget
                  · exact ih hlater

/-- Nothing outside the destination changes, whether the archive is refused or not. -/
theorem safeExtract_outside (hpath : isInside dest.root path = false) :
    (safeExtract limits dest archive files).1.get? path = files.get? path := by
  have hother : path ∉ (archive.trail limits dest).writes.keys := fun hin => by
    rw [isInside_of_trail hin] at hpath
    cases hpath
  have hwrites := Dict.get?_update_of_not_mem (d := files) hother
  have hloop := safeExtractLoop_trail limits dest archive.broken {} archive.members { files }
  cases hresult : (safeExtract limits dest archive files).2 with
  | error e =>
      have hcomplete : path ∉ (archive.trail limits dest).complete.keys := fun hin =>
        hother (by simp [Trail.writes, Dict.keys] at hin ⊢; exact .inl hin)
      rw [safeExtract_error hresult, Dict.get?_eraseAll, if_neg (by simpa using hcomplete), hwrites]
  | ok u => rw [safeExtract_ok hresult, hwrites]

/-! ### A refused archive -/

/-- What is read after a refused archive: nothing at the target of a complete file, and the content that
was written at the target of the open one. -/
theorem get?_safeExtract_error (h : (safeExtract limits dest archive files).2 = .error e) (path : Path) :
    (safeExtract limits dest archive files).1.get? path =
      if path ∈ (archive.trail limits dest).complete.keys then none
      else (Dict.get? (archive.trail limits dest).opened.toList path).or (files.get? path) := by
  rw [safeExtract_error h, Dict.get?_eraseAll]
  simp only [List.mem_reverse]
  split
  · rfl
  next hother =>
    have hsplit : files.update (archive.trail limits dest).writes =
        Dict.update (files.update (archive.trail limits dest).complete) (archive.trail limits dest).opened.toList :=
      List.foldl_append
    rw [hsplit]
    cases (archive.trail limits dest).opened with
    | none => exact Dict.get?_update_of_not_mem hother
    | some w =>
        obtain ⟨target, bytes⟩ := w
        by_cases htarget : target = path
        · subst htarget
          simp [Dict.update]
        · simp only [Option.toList_some, Dict.update, List.foldl_cons, List.foldl_nil]
          rw [Dict.get?_set_ne htarget, Dict.get?_cons_ne htarget]
          exact Dict.get?_update_of_not_mem hother

/-- No file that was created remains, and each file that was there is as before. -/
structure LeavesNothing (files files' : Files) : Prop where
  created : ∀ path, files.get? path = none → files'.get? path = none
  kept : ∀ path bytes, files.get? path = some bytes → files'.get? path = some bytes

theorem leavesNothing_iff {files' : Files} : LeavesNothing files files' ↔ ∀ path, files'.get? path = files.get? path := by
  constructor
  · intro h path
    cases hpath : files.get? path with
    | none => exact h.created path hpath
    | some bytes => exact h.kept path bytes hpath
  · exact fun h => ⟨fun path hpath => (h path).trans hpath, fun path bytes hpath => (h path).trans hpath⟩

/-- The clean-up undoes what an archive writes: there was no file at the target of a complete file, and none
is open, unless its target is one of these or had the content that was written. -/
structure Undoable (limits : Limits) (dest : Destination) (archive : Archive) (files : Files) : Prop where
  fresh : ∀ path ∈ (archive.trail limits dest).complete.keys, files.get? path = none
  closed : ∀ path bytes, (archive.trail limits dest).opened = some (path, bytes) →
    path ∈ (archive.trail limits dest).complete.keys ∨ files.get? path = some bytes

/-- A refused archive leaves nothing behind exactly if its trail is one that the clean-up undoes. -/
theorem leaves_nothing_iff (limits : Limits) (dest : Destination) (archive : Archive) (files : Files)
    (e : Raised ExtractError) (h : (safeExtract limits dest archive files).2 = .error e) :
    LeavesNothing files (safeExtract limits dest archive files).1 ↔ Undoable limits dest archive files := by
  rw [leavesNothing_iff]
  simp only [get?_safeExtract_error h]
  constructor
  · intro hsame
    refine ⟨fun path hpath => ?_, fun path bytes hopened => ?_⟩
    · rw [← hsame path, if_pos hpath]
    · by_cases hpath : path ∈ (archive.trail limits dest).complete.keys
      · exact .inl hpath
      · have hread := hsame path
        rw [if_neg hpath, hopened] at hread
        exact .inr (hread.symm.trans (by simp))
  · intro hundo path
    split
    next hpath => exact (hundo.fresh path hpath).symm
    next hpath =>
      cases hopened : (archive.trail limits dest).opened with
      | none => rfl
      | some w =>
          obtain ⟨target, bytes⟩ := w
          by_cases htarget : target = path
          · subst htarget
            have hsame := (hundo.closed target bytes hopened).resolve_left hpath
            simp [hsame]
          · simp [Dict.get?_cons_ne htarget]

/-- A destination without links. -/
def plainDestination (root : Path) : Destination where
  root := root
  resolve name := root ++ "/" ++ name

/-- A manifest, with a symbolic link behind it. -/
def linkedArchive : Archive where
  members := [{ name := "manifest.json", kind := .regular, size := 2, chunks := [[123, 125]] },
    { name := "etc/mosdns/config.yaml", kind := .symlink, size := 0, chunks := [] }]

/-- A manifest whose content cannot be read. -/
def truncatedArchive : Archive where
  members := [{ name := "manifest.json", kind := .regular, size := 2, chunks := [], broken := true }]

theorem leaves_nothing_iff_linked :
    LeavesNothing [] (safeExtract defaultLimits (plainDestination "/tmp/pdgrs") linkedArchive []).1 ↔
      Undoable defaultLimits (plainDestination "/tmp/pdgrs") linkedArchive [] :=
  leaves_nothing_iff _ _ _ _
    (.error (.value "备份含链接成员(可用于写穿解压目录), 拒绝整个备份: etc/mosdns/config.yaml")) (by decide)

/-- The file that is open when the stream ends stays. -/
theorem truncated_file_left :
    ¬∀ (limits : Limits) (dest : Destination) (archive : Archive) (files : Files) (e : Raised ExtractError),
      (safeExtract limits dest archive files).2 = .error e →
        LeavesNothing files (safeExtract limits dest archive files).1 := by
  intro hclaim
  have hleaves := hclaim defaultLimits (plainDestination "/tmp/pdgrs") truncatedArchive [] (.error .stream) (by decide)
  have hnone := hleaves.created "/tmp/pdgrs/manifest.json" rfl
  have hsome : (safeExtract defaultLimits (plainDestination "/tmp/pdgrs") truncatedArchive []).1.get?
      "/tmp/pdgrs/manifest.json" = some [] := by decide
  rw [hsome] at hnone
  cases hnone

end ProxyGateway.Restore
