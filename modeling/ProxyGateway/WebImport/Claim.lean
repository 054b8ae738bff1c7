import ProxyGateway.WebImport.Staging

set_option autoImplicit false

/-!
# ProxyGateway.WebImport.Claim

The operations on a staged import: `prepare_apply`, `release_claim`, `discard`,
`cancel` and the janitor `_gc`.

`prepare_apply`, `cancel` and `_gc` start by creating the import's claim marker
exclusively and hold it while they work; a successful `prepare_apply` leaves it in
place. `release_claim` and `discard` take no claim: they are called for an import
whose claim is known to be theirs. `_gc` renames a marker away when its clock says
that the marker is two hours old.

The checks of `prepare_apply` on the request (`chosen`, `rulesetChoice`) are pure.
What the merged model looks like is asked of the environment (`Op.mergeable`): it
depends on the current model, which other programs change.
-/

namespace ProxyGateway.WebImport

open Method

/-- `PREVIEW_TTL`, in seconds. -/
def previewTtl : Rat := 30 * 60

/-- `CLAIM_PROTECTION_TTL`, in seconds. -/
def claimProtectionTtl : Rat := 2 * 60 * 60

/-- `MAX_UPLOAD` and `MAX_LEGACY_PDG_UPLOAD`. -/
def uploadLimit : Kind → Nat
  | .pdg => 68 * 1024 * 1024
  | _ => 36 * 1024 * 1024

/-- What lies outside the module: the digest of an upload and the rule for names. -/
structure Host where
  sha : Bytes → String
  validName : String → Bool

/-- `int(value)` of a clock reading: the fraction is cut off. -/
def pyInt (t : Rat) : Int := t.num.tdiv t.den

/-- `_IMPORT_ID_RE`: `imp-` and 32 lower-case hexadecimal digits. -/
def validId (X : ImportId) : Bool :=
  match X.toList with
  | 'i' :: 'm' :: 'p' :: '-' :: hex =>
      hex.length == 32 && hex.all (fun c => ('a' ≤ c && c ≤ 'f') || ('0' ≤ c && c ≤ '9'))
  | _ => false

/-- The check of `_path`. A later `_path` of the same id passes it again. -/
def checkedPath (X : ImportId) : Call Unit := if validId X then .ret () else .raise notFound

/-- `discard`, on behalf of `why`. -/
def discardFiles (why : Why) (X : ImportId) : Call Unit := do
  safeUnlink why X .json
  safeUnlink why X .upload
  safeUnlink why X .claim

/-! ### Reading a record -/

/-- Is the record's claim younger than two hours? -/
def activeClaim (r : Record) : Call (Bool × Option Rat) :=
  match r.apply with
  | some a =>
      if a.claimed then
        (perform .clock).bind (fun (now : Rat) =>
          .ret (decide (now - a.claimedAt < claimProtectionTtl), some now))
      else .ret (false, none)
  | none => .ret (false, none)

/-- The freshness check of `_record`: a record past its time is discarded unless its
claim is active. -/
def requireFresh (X : ImportId) (r : Record) : Call Unit :=
  (perform .clock).bind (fun (now : Rat) =>
    if now - r.created > previewTtl then
      (activeClaim r).bind (fun active =>
        if active.1 then .ret ()
        else (discardFiles (.expired (active.2.getD now)) X).bind (fun _ =>
          .raise ⟨.expired, "preview expired"⟩))
    else .ret ())

/-- The integrity check of the upload in `_record`. -/
def readUpload (H : Host) (X : ImportId) (r : Record) : Call Unit :=
  (perform (.readUpload X)).bind (fun (raw : Option Bytes) => match raw with
    | none => .raise notFound
    | some raw =>
        if raw = [] ∨ uploadLimit r.kind < raw.length then .raise notFound
        else if raw.length ≠ r.uploadSize ∨ H.sha raw ≠ r.uploadSha256 then
          .raise ⟨.conflict, "staged upload integrity check failed"⟩
        else .ret ())

/-- `_record`. -/
def record (H : Host) (X : ImportId) (fresh : Bool) : Call Record := do
  checkedPath X
  let found ← perform (.readJson X)
  match (found : Option Record) with
  | none => raise notFound
  | some r =>
      if r.id ≠ X then raise notFound
      else do
        if fresh then requireFresh X r else ret ()
        readUpload H X r
        return r

/-! ### The request -/

/-- `set(a) == set(b)` for two lists of keys. -/
def sameKeys (a b : List String) : Bool := a.all (fun k => k ∈ b) && b.all (fun k => k ∈ a)

/-- An exception of the language itself: a list or an object used as a member of a set. -/
def unhashable : ImportError := ⟨.type, "unhashable type"⟩

/-- Can the value be a member of a set? -/
def hashable : Json → Bool
  | .arr _ | .obj _ => false
  | _ => true

/-- `body.get("mode", "merge")` among the modes allowed for the kind. -/
def chosenMode (kind : Kind) (body : Json) : Except ImportError ApplyMode :=
  match body.getD "mode" (.str "merge") with
  | .str "merge" => if kind = .mosdns then .error ⟨.invalid, "apply mode is invalid"⟩ else .ok .merge
  | .str "replace" => .ok .replace
  | mode => .error (if hashable mode then ⟨.invalid, "apply mode is invalid"⟩ else unhashable)

/-- The sides of the given choices, in order, up to the first that is none. -/
def sides : List (String × Json) → Except ImportError (Dict String Side)
  | [] => .ok []
  | (key, .str "incoming") :: rest => (sides rest).map (fun d => (key, .incoming) :: d)
  | (key, .str "existing") :: rest => (sides rest).map (fun d => (key, .existing) :: d)
  | (_, value) :: _ =>
      .error (if hashable value then ⟨.invalid, "conflict choices are invalid"⟩ else unhashable)

/-- `body.get("conflicts") or {}`: exactly one choice for each conflict. -/
def chosenSides (conflicts : List Conflict) (body : Json) :
    Except ImportError (Dict String Side) :=
  let given := body.getD "conflicts" .null
  match if given.truthy then given else .obj [] with
  | .obj choices =>
      if sameKeys (Dict.keys choices) (conflicts.map Conflict.conflictId) then sides choices
      else .error ⟨.invalid, "conflict choices are invalid"⟩
  | _ => .error ⟨.invalid, "conflict choices are invalid"⟩

/-- The checks of the request: the mode and the choices. -/
def chosen (r : Record) (body : Json) : Except ImportError (ApplyMode × Dict String Side) := do
  match body with
  | .obj kvs =>
      if !(Dict.keys kvs).all (fun k => k ∈ ["confirm", "mode", "conflicts"])
          || body.get? "confirm" != some (.bool true) then
        .error ⟨.invalid, "apply confirmation is invalid"⟩
      else do
        let mode ← chosenMode r.kind body
        let choices ← chosenSides r.conflicts body
        if mode = .replace ∧ ∃ p ∈ choices, p.2 ≠ Side.incoming then
          .error ⟨.invalid, "replace mode requires all conflicts to use imported content"⟩
        else .ok (mode, choices)
  | _ => .error ⟨.invalid, "apply confirmation is invalid"⟩

/-- The ruleset side that a pdg import selects: its collisions must be empty. Returns the
names of the selected side. -/
def rulesetChoice (H : Host) (r : Record) (mode : ApplyMode) (choices : Dict String Side) :
    Except ImportError (List String) :=
  match r.collisions with
  | none => .error ⟨.invalid, "ruleset collision state is invalid"⟩
  | some s =>
      if !(s.incoming ++ s.existing ++ s.incomingNames ++ s.existingNames).all H.validName then
        .error ⟨.invalid, "ruleset collision state is invalid"⟩
      else
        let ruleset := r.conflicts.find? (fun c => c.kind == "component" && c.name == "rulesets")
        let incoming := s.incomingPresent && (mode == .replace ||
          (ruleset.bind (fun c => choices.get? c.conflictId)) == some .incoming)
        let selected := if incoming then s.incoming else s.existing
        if selected ≠ [] then
          .error ⟨.invalid,
            "imported rule-provider collides with the selected PDG ruleset state: "
              ++ ", ".intercalate (selected.mergeSort (fun a b => decide (a ≤ b)))⟩
        else .ok (if incoming then s.incomingNames else s.existingNames)

/-- `semantic_resolutions`: the choices by kind and name. -/
def semanticResolutions (r : Record) (choices : Dict String Side) : Dict String Side :=
  (r.conflicts.filterMap (fun c =>
    (choices.get? c.conflictId).map (fun side => (c.kind ++ ":" ++ c.name, side)))).foldl
      (fun acc p => acc.set p.1 p.2) []

/-- Raise the error of a check. -/
def lift {α : Type} : Except ImportError α → Call α
  | .ok a => ret a
  | .error e => raise e

/-- The checks that only a pdg import has. -/
def checkMerged (H : Host) (r : Record) (mode : ApplyMode) (choices : Dict String Side) :
    Call Unit :=
  if r.kind = .pdg then do
    let names ← lift (rulesetChoice H r mode choices)
    let refusal ← perform (.mergeable r mode (semanticResolutions r choices) names)
    match (refusal : Option String) with
    | none => ret ()
    | some text => raise ⟨.invalid, text⟩
  else ret ()

/-! ### The operations -/

/-- The claim that `prepare_apply` writes into the record. -/
def accepted (mode : ApplyMode) (choices : Dict String Side) (now : Rat) : Apply where
  mode := mode
  conflicts := choices
  confirmed := true
  claimed := true
  claimedAt := pyInt now

/-- The body of `prepare_apply`, under the claim. -/
def prepareClaimed (H : Host) (X : ImportId) (body : Json) : Call (ImportId × Kind × ApplyMode) := do
  let r ← record H X true
  if r.apply.isSome then raise ⟨.conflict, "preview has already been claimed"⟩
  else do
    let (mode, choices) ← lift (chosen r body)
    checkMerged H r mode choices
    let now ← perform .clock
    storeRecord X { r with apply := some (accepted mode choices now) }
    return (X, r.kind, mode)

/-- `prepare_apply`. -/
def prepareApply (H : Host) (X : ImportId) (body : Json) :
    Call (ImportId × Kind × ApplyMode) := do
  checkedPath X
  let claim ← perform (.createExclusive X)
  match (claim : Created) with
  | .existed => raise ⟨.conflict, "preview has already been claimed"⟩
  | .failed => raise osError
  | .created =>
      tryCatch (prepareClaimed H X body) (fun e => (safeUnlink .own X .claim).bind (fun _ => raise e))

/-- `release_claim`. -/
def releaseClaim (H : Host) (X : ImportId) : Call Unit := do
  let r ← record H X false
  storeRecord X { r with apply := none }
  safeUnlink .release X .claim

/-- `discard`. -/
def discard (X : ImportId) : Call Unit := do
  checkedPath X
  discardFiles .discard X

/-- `finally: self._safe_unlink(claim_path)`. -/
def finallyUnclaim {α : Type} (X : ImportId) (m : Call α) : Call α :=
  outcome m (fun r => (safeUnlink .own X .claim).bind (fun _ => lift r))

/-- `cancel`. -/
def cancel (H : Host) (X : ImportId) : Call Unit := do
  checkedPath X
  let claim ← perform (.createExclusive X)
  match (claim : Created) with
  | .existed => raise ⟨.conflict, "claimed preview cannot be cancelled"⟩
  | .failed => raise osError
  | .created =>
      finallyUnclaim X (do
        let r ← record H X true
        if r.apply.isSome then raise ⟨.conflict, "claimed preview cannot be cancelled"⟩
        else discardFiles .cancel X)

/-! ### The janitor -/

/-- Drop a suffix. -/
def dropSuffix? (suffix name : List Char) : Option (List Char) :=
  if suffix.isSuffixOf name then some (name.take (name.length - suffix.length)) else none

/-- The stem of a staged file's name. -/
def stagedId? (name : String) : Option ImportId :=
  ((dropSuffix? ".json".toList name.toList).orElse (fun _ =>
    (dropSuffix? ".upload".toList name.toList).orElse (fun _ =>
      dropSuffix? ".claim".toList name.toList))).map String.ofList

/-- The modification time of a file that `os.path.lexists` reports; `none` when it was
gone a moment later. -/
def newestOf (X : ImportId) : List Suffix → List Rat → Call (Option Rat)
  | [], times => .ret (some (times.foldl max (times.headD 0)))
  | s :: rest, times =>
      (perform (.lexists X s)).bind (fun (found : Bool) =>
        if found then
          (perform (.lstat X s)).bind (fun (time : Option Rat) => match time with
            | some t => newestOf X rest (times ++ [t])
            | none => .ret none)
        else newestOf X rest times)

/-- Does the record's claim protect it at `now`? -/
def protectedAt (now : Rat) (found : Option Record) : Bool :=
  match found.bind Record.apply with
  | some a => a.claimed && decide (now - a.claimedAt < claimProtectionTtl)
  | none => false

/-- The removal of one import, under the janitor's claim. -/
def collect (now : Rat) (X : ImportId) : Call Unit :=
  finallyUnclaim X (do
    let found ← perform (.readJson X)
    if protectedAt now (found : Option Record) then ret ()
    else do
      safeUnlink (.collect now) X .json
      safeUnlink (.collect now) X .upload)

/-- The claim is somebody else's: take it over when it is two hours old. -/
def takeOver (now : Rat) (X : ImportId) : Call Unit := do
  let info ← perform (.lstat X .claim)
  match (info : Option Rat) with
  | none => ret ()
  | some mtime =>
      if now - mtime < claimProtectionTtl then ret ()
      else do
        let moved ← perform (.takeOver X)
        match (moved : Done) with
        | false => unlinkStale
        | true => do
            let claim ← perform (.createExclusive X)
            unlinkStale
            match (claim : Created) with
            | .created => collect now X
            | _ => ret ()

/-- One round of the janitor's loop. -/
def gcOne (now : Rat) (X : ImportId) : Call Unit :=
  if validId X = false then ret ()
  else do
    let newest ← newestOf X [.json, .upload] []
    if newest.getD 0 ≥ now - previewTtl then ret ()
    else do
      let claim ← perform (.createExclusive X)
      match (claim : Created) with
      | .created => collect now X
      | .existed => takeOver now X
      | .failed => raise osError

/-- `_gc`. -/
def gc : Call Unit := do
  let now ← perform .clock
  let names ← perform .listdir
  each (gcOne (now : Rat)) ((names : List String).filterMap stagedId?).dedup

end ProxyGateway.WebImport
