import ProxyGateway.Lib.Pieces
import ProxyGateway.Ruleset.Aggregate

set_option autoImplicit false

/-!
# ProxyGateway.Restore.Identity

The identity of a machine in a backup: `_machine_id_from` reads the address, the client network and the
directory of the certificates, and `_subbed` puts those of the present machine into the text of
`config.json`. It replaces every occurrence, also in the names, addresses and rules of the user
(`restored_iff`).
-/

namespace ProxyGateway.Restore

open Text

/-! ### Reading the identity -/

/-- `data.decode("utf-8")` and `json.loads`. -/
structure Reader where
  decode : List UInt8 → Option (List Char)
  loads : List Char → Option Json

/-- `(server_ip, internal_cidr, cert_dir)` -/
structure MachineId where
  ip : Option (List Char)
  cidr : Option (List Char)
  certDir : Option (List Char)
  deriving DecidableEq

/-- The loop over `ip_cidr`, from the address found so far: it ends early where an entry is no text. -/
def scanCidrs : Option (List Char) → List Json → Option (List Char) × Bool
  | ip, [] => (ip, true)
  | ip, .str x :: xs =>
      if "/32".toList.isSuffixOf x.toList && !"127.".toList.isPrefixOf x.toList then
        scanCidrs (some (x.toList.takeWhile (· ≠ '/'))) xs
      else scanCidrs ip xs
  | ip, _ :: _ => (ip, false)

/-- The loop over the rules. -/
def scanRules : Option (List Char) → List Json → Option (List Char)
  | ip, [] => ip
  | ip, rule :: rules =>
      if rule.fields?.isNone then ip
      else if rule.get? "action" = some (.str "reject") then
        match (rule.getD "ip_cidr" (.arr [])).items (ε := Unit) with
        | .error _ => ip
        | .ok xs =>
            match scanCidrs ip xs with
            | (ip, true) => scanRules ip rules
            | (ip, false) => ip
      else scanRules ip rules

/-- The address of the anti-loop rule. -/
def rejectedAddress (c : Json) : Option (List Char) :=
  match c.fields?, (c.getD "route" (.obj [])).fields? with
  | some _, some _ =>
      match ((c.getD "route" (.obj [])).getD "rules" (.arr [])).items (ε := Unit) with
      | .ok rules => scanRules none rules
      | .error _ => none
  | _, _ => none

/-- `"([^"]+)"` at the front of a text. -/
def quoted : List Char → Option (List Char)
  | '"' :: cs =>
      let group := cs.takeWhile (· ≠ '"')
      if group ≠ [] && (cs.drop group.length).head? = some '"' then some group else none
  | _ => none

/-- `ips:\s*\[\s*"([^"]+)"` at the front of a text. -/
def ipsAt (cs : List Char) : Option (List Char) :=
  if "ips:".toList.isPrefixOf cs then
    match (cs.drop 4).dropWhile isSpace with
    | '[' :: rest => quoted (rest.dropWhile isSpace)
    | _ => none
  else none

/-- `cert:\s*"([^"]+)"` at the front of a text. -/
def certAt (cs : List Char) : Option (List Char) :=
  if "cert:".toList.isPrefixOf cs then quoted ((cs.drop 5).dropWhile isSpace) else none

/-- `black_hole\s+([0-9.]+)` at the front of a text. -/
def blackHoleAt (cs : List Char) : Option (List Char) :=
  if "black_hole".toList.isPrefixOf cs && ((cs.drop 10).head?.any isSpace) then
    let group := ((cs.drop 10).dropWhile isSpace).takeWhile fun c => c.isDigit || c = '.'
    if group ≠ [] then some group else none
  else none

/-- `re.search`: the group of the first match. -/
def search (pattern : List Char → Option (List Char)) : List Char → Option (List Char)
  | [] => pattern []
  | c :: cs => (pattern (c :: cs)).or (search pattern cs)

/-- Is the value true for `if`? -/
def given (value : Option (List Char)) : Bool := value.any (· ≠ [])

/-- `_machine_id_from` -/
def machineIdFrom (R : Reader) (sbData mosData : Option (List UInt8)) : MachineId :=
  let ip := ((R.decode (sbData.getD [])).bind R.loads).bind rejectedAddress
  match R.decode (mosData.getD []) with
  | none => { ip, cidr := none, certDir := none }
  | some t =>
      { ip := if given ip then ip else search blackHoleAt t
        cidr := search ipsAt t
        certDir := (search certAt t).map Ruleset.dirname }

/-! ### Replacing it -/

/-- An item of the two identities: what is replaced by what. -/
def pair (bak cur : Option (List Char)) : Option (List Char × List Char) :=
  match bak, cur with
  | some old, some new => if old ≠ [] && new ≠ [] && old ≠ new then some (old, new) else none
  | _, _ => none

/-- `subs` -/
def substitutions (bak cur : MachineId) : List (List Char × List Char) :=
  [pair bak.ip cur.ip, pair bak.cidr cur.cidr, pair bak.certDir cur.certDir].reduceOption

/-- The loop of `_subbed`. -/
def subbed (subs : List (List Char × List Char)) (text : List Char) : List Char :=
  subs.foldl (fun text sub => replace sub.1 sub.2 text) text

/-- `_subbed(newsb)`: the text of `config.json` that is restored. -/
def restored (R : Reader) (sb : List UInt8) (mos : Option (List UInt8)) (cur : MachineId) : Option (List Char) :=
  (R.decode sb).map (subbed (substitutions (machineIdFrom R (some sb) mos) cur))

end ProxyGateway.Restore
