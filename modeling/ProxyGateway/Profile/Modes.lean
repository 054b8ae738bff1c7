import ProxyGateway.Profile.Retarget

set_option autoImplicit false

/-!
# ProxyGateway.Profile.Modes

The two other readers of `PDG_FIREWALL_MODE`: `nftmerge._persisted_mode` and
`nftscan.persisted_mode`. Both look at the state file first, and then for the lines of `profile.env`
that a pattern matches.
-/

namespace ProxyGateway.Profile

open Text

/-! ### Modes -/

/-- `VALID_MODES` -/
def validMode (text : List Char) : Option FirewallMode :=
  if text = "managed".toList then some .managed
  else if text = "external".toList then some .external
  else none

/-- The key that is looked for. -/
def modeKey : String := "PDG_FIREWALL_MODE"

/-- `re.match(r"^\s*PDG_FIREWALL_MODE=(.*)$", raw)`, and its group. -/
def modeMatch (raw : List Char) : Option (List Char) :=
  if (modeKey.toList ++ ['=']).isPrefixOf (lstrip raw) then some ((lstrip raw).drop (modeKey.toList.length + 1)) else none

/-- `MODE_FILE`. A file that is no UTF-8 can be read with replacements. -/
inductive StateFile where
  | absent
  | unreadable
  | undecodable (replaced : List Char) (h : '\uFFFD' ∈ replaced)
  | text (cs : List Char)

def modeFile : String := "/etc/privdns-gateway/firewall-mode"

def profileFile : String := "/etc/privdns-gateway/profile.env"

/-! ### `nftmerge` -/

/-- What `_persisted_mode` raises. -/
inductive MergeError where
  | undecodable
  | invalid (source : String) (value : List Char)
  | duplicate
  | mismatch
  deriving DecidableEq

/-- `_strict_mode` -/
def strictMode (value : List Char) (source : String) : Except MergeError FirewallMode :=
  match validMode (strip value) with
  | some mode => .ok mode
  | none => .error (.invalid source (strip value))

/-- `marker` of `_persisted_mode`; none stands for `""`. -/
def mergeMarker : StateFile → Except MergeError (Option FirewallMode)
  | .absent => .ok none
  | .unreadable => some <$> strictMode [] modeFile
  | .undecodable _ _ => .error .undecodable
  | .text cs => some <$> strictMode cs modeFile

/-- `_persisted_mode`; `owner` is the mode that `OWNER_MODE` finds in the block. -/
def mergePersistedMode (state : StateFile) (profile : List Char) (owner : Option (List Char)) :
    Except MergeError FirewallMode := do
  let marker ← mergeMarker state
  let values := (splitlines profile).filterMap modeMatch
  if values.length > 1 then throw .duplicate
  match values.head?, marker with
  | some value, some marker => do
      let profileMode ← strictMode value profileFile
      if marker ≠ profileMode then throw .mismatch else return profileMode
  | some value, none => strictMode value profileFile
  | none, some marker => return marker
  | none, none => return (owner.bind validMode).getD .managed

/-! ### `nftscan` -/

/-- `marker` of `persisted_mode`; none stands for `""`. -/
def scanMarker (state : StateFile) : Except String (Option FirewallMode) :=
  match state with
  | .absent => .ok none
  | .unreadable => .error ("invalid firewall mode in " ++ modeFile)
  | .undecodable cs _ | .text cs =>
      match validMode (strip cs) with
      | some mode => .ok (some mode)
      | none => .error ("invalid firewall mode in " ++ modeFile)

/-- `persisted_mode` -/
def scanPersistedMode (state : StateFile) (profile : List Char) : Except String FirewallMode := do
  let marker ← scanMarker state
  let values := (splitlines profile).filterMap modeMatch
  if values.length > 1 then throw ("duplicate PDG_FIREWALL_MODE in " ++ profileFile)
  match values.head? with
  | some value =>
      match validMode (strip value) with
      | none => throw ("invalid firewall mode in " ++ profileFile)
      | some mode =>
          if marker.any (· ≠ mode) then throw "firewall mode mismatch between state and profile" else return mode
  | none => return marker.getD .managed

end ProxyGateway.Profile
