import ProxyGateway.Schema.Shape

set_option autoImplicit false

/-!
# ProxyGateway.Mosdns.Contract

`_mosdns_contract`: an imported MosDNS document must have the plugin graph that the gateway
manages, and what belongs to the machine (addresses, listeners, certificates, rule files, the
hijack sequence) is taken from the document in force.

The plugin entries of a checked document are kept as a dictionary by tag, in the order of the
list. Type guards on entries that were checked before are left out.
-/

namespace ProxyGateway.Mosdns

open Py Json Schema

/-- What the contract takes from outside: the directories of the rules and of the certificates,
and what `ipaddress` accepts. -/
structure Host where
  ruleDir : String
  certDir : String
  ipNetwork : Json → Bool
  ipAddress : Json → Bool

/-- A plugin entry. -/
abbrev Plugin := Dict String Json

/-- The plugin entries by tag. -/
abbrev Graph := Dict String Plugin

/-- `_REQUIRED_MOSDNS`. -/
def requiredMosdns : Dict String String :=
  [("remote_upstream", "forward"), ("local_upstream", "forward"), ("unlock_upstream", "forward"),
    ("geosite_unlock", "domain_set"), ("geosite_cn", "domain_set"), ("npn_clients", "ip_set"),
    ("hijack_set", "domain_set"), ("explicit_hijack", "domain_set"), ("force_hijack", "domain_set"),
    ("ecs_china", "ecs_handler"), ("ecs_neutral", "ecs_handler"), ("has_resp", "sequence"),
    ("client_limiter", "rate_limiter"), ("lazy_cache", "cache"), ("force_hijack_seq", "sequence"),
    ("internal_sequence", "sequence"), ("main_sequence", "sequence"), ("udp_server", "udp_server"),
    ("tcp_server", "tcp_server"), ("dot_server", "tcp_server")]

/-- The arguments of a plugin. -/
def argsOf (graph : Graph) (tag : String) : Json :=
  (Json.obj ((Dict.get? graph tag).getD [])).getD "args" .null

/-- The type of a plugin. -/
def typeOf (plugin : Plugin) : Json := (Json.obj plugin).getD "type" .null

/-! ### The arguments of each type -/

/-- `re.fullmatch(r"(?:https|udp|tcp|tls)://[^\s\x00]+", addr)`. -/
def upstreamRe (addr : String) : Bool :=
  ["https://", "udp://", "tcp://", "tls://"].any (fun scheme =>
    let rest := addr.toList.drop scheme.length
    scheme.toList.isPrefixOf addr.toList && !rest.isEmpty &&
      rest.all (fun c => !Text.isSpace c && c ≠ '\x00'))

/-- An upstream has an address and nothing else. -/
def isUpstream (upstream : Json) : Bool :=
  sameKeys (upstream.fields?.getD []) ["addr"] &&
    (upstream.getD "addr" .null).str?.any (fun addr => decide (addr.length ≤ 2048) && upstreamRe addr)

def checkForward (args : Json) : Py String Unit := do
  let upstreams := (args.getD "upstreams" .null).entries
  raiseIf (!(sameKeys (args.fields?.getD []) ["concurrent", "upstreams"] &&
      isIntIn 1 16 (args.getD "concurrent" .null) && isList (args.getD "upstreams" .null) &&
      decide (1 ≤ upstreams.length ∧ upstreams.length ≤ 16)))
    "MosDNS forward args are invalid"
  raiseIf (!upstreams.all isUpstream) "MosDNS upstream is invalid"

/-- A path of a rule file. -/
def isRulePath (path : Json) : Bool :=
  path.str?.any (fun s => decide (s.length ≤ 4096) && !s.toList.any (· = '\x00'))

def isFileList (files : Json) : Bool :=
  isList files && !files.entries.isEmpty && files.entries.all isRulePath

def checkDomainSet (args : Json) : Py String Unit :=
  raiseIf (!(sameKeys (args.fields?.getD []) ["files"] && isFileList (args.getD "files" .null)))
    "MosDNS domain_set args are invalid"

/-- `value != "__INTERNAL_CIDR__"` is a network. -/
def isNetwork (H : Host) (value : Json) : Bool :=
  decide (value = .str "__INTERNAL_CIDR__") || H.ipNetwork value

def checkIpSet (H : Host) (args : Json) : Py String Unit := do
  let ips := args.getD "ips" .null
  raiseIf (!(sameKeys (args.fields?.getD []) ["ips"] && isList ips && !ips.entries.isEmpty))
    "MosDNS ip_set args are invalid"
  raiseIf (!ips.entries.all (isNetwork H)) "MosDNS client network is invalid"

def checkEcs (H : Host) (args : Json) : Py String Unit := do
  raiseIf (!(sameKeys (args.fields?.getD []) ["forward", "send", "preset", "mask4", "mask6"] &&
      isBool (args.getD "forward" .null) && isBool (args.getD "send" .null) &&
      isIntIn 0 32 (args.getD "mask4" .null) && isIntIn 0 128 (args.getD "mask6" .null)))
    "MosDNS ECS args are invalid"
  raiseIf (!H.ipAddress (args.getD "preset" .null)) "MosDNS ECS preset is invalid"

/-- The burst is at least the rate. -/
def isBurst (qps burst : Json) : Bool :=
  match qps with
  | .int n => isIntIn n 200000 burst
  | _ => false

def checkRateLimiter (args : Json) : Py String Unit :=
  raiseIf (!(sameKeys (args.fields?.getD []) ["qps", "burst", "mask4", "mask6"] &&
      isIntIn 1 100000 (args.getD "qps" .null) &&
      isBurst (args.getD "qps" .null) (args.getD "burst" .null) &&
      isIntIn 0 32 (args.getD "mask4" .null) && isIntIn 0 128 (args.getD "mask6" .null)))
    "MosDNS rate limiter args are invalid"

/-- A size in entries, or the placeholder for it. -/
def isCacheSize (size : Json) : Bool :=
  decide (size = .str "__MOSDNS_CACHE__") || isIntIn 128 1048576 size

def checkCache (args : Json) : Py String Unit :=
  raiseIf (!(sameKeys (args.fields?.getD []) ["size", "lazy_cache_ttl"] &&
      isCacheSize (args.getD "size" .null) && isIntIn 60 604800 (args.getD "lazy_cache_ttl" .null)))
    "MosDNS cache args are invalid"

/-- `isinstance(value, str)`. -/
def isStr (value : Json) : Bool := value.str?.isSome

def checkServer (tag : String) (args : Json) : Py String Unit :=
  raiseIf (!(sameKeys (args.fields?.getD [])
        (if tag = "dot_server" then ["entry", "listen", "cert", "key"] else ["entry", "listen"]) &&
      decide (args.getD "entry" .null = .str "main_sequence") && isStr (args.getD "listen" .null) &&
      (tag ≠ "dot_server" || isStr (args.getD "cert" .null) && isStr (args.getD "key" .null))))
    "MosDNS listener args are invalid"

/-- The arguments of a plugin, by its type. -/
def checkArgs (H : Host) (tag : String) (typ args : Json) : Py String Unit :=
  match typ with
  | .str "forward" => checkForward args
  | .str "domain_set" => checkDomainSet args
  | .str "ip_set" => checkIpSet H args
  | .str "ecs_handler" => checkEcs H args
  | .str "rate_limiter" => checkRateLimiter args
  | .str "cache" => checkCache args
  | .str "udp_server" | .str "tcp_server" => checkServer tag args
  | .str "sequence" => raiseIf (!isList args) "MosDNS sequence args are invalid"
  | _ => .ok ()

/-! ### The graph -/

/-- The top-level fields. -/
def checkTop (fields : Dict String Json) : Py String Unit := do
  raiseIf (extraKeys fields ["log", "plugins"]) "MosDNS top-level fields are not managed by PDG"
  let log := (Json.obj fields).getD "log" .null
  let log := if log.truthy then log else .obj []
  raiseIf (!isDict log || extraKeys (log.fields?.getD []) ["level"])
    "MosDNS log configuration is invalid"
  let known ← (log.getD "level" (.str "warn")).within ["debug", "info", "warn", "error"]
  raiseIf (!known) "MosDNS log configuration is invalid"

/-- The type that the contract has for a tag; `null` for any other. -/
def requiredType (tag : String) : Json := ((Dict.get? requiredMosdns tag).map Json.str).getD .null

/-- One turn of the loop over the plugin entries. -/
def collectPlugin (graph : Graph) (entry : Json) : Py String Graph := do
  let .obj plugin := entry | Py.raise "MosDNS plugin entry is invalid"
  raiseIf (!sameKeys plugin ["tag", "type", "args"]) "MosDNS plugin entry is invalid"
  let .str tag := entry.getD "tag" .null
    | Py.raise "MosDNS configuration does not match the PDG contract"
  raiseIf (graph.contains tag || decide (requiredType tag ≠ typeOf plugin))
    "MosDNS configuration does not match the PDG contract"
  return graph.set tag plugin

/-- `checked_graph`. -/
def checkedGraph (H : Host) (document : Json) : Py String Graph := do
  let .obj fields := document | Py.raise "MosDNS top-level fields are not managed by PDG"
  checkTop fields
  let .arr entries := document.getD "plugins" .null | Py.raise "MosDNS plugin graph is invalid"
  raiseIf (decide (entries.length ≠ requiredMosdns.length)) "MosDNS plugin graph is invalid"
  let graph ← entries.foldlM collectPlugin []
  raiseIf (!(graph.keys.all (fun tag => decide (tag ∈ requiredMosdns.keys)) &&
      requiredMosdns.keys.all (fun tag => decide (tag ∈ graph.keys))))
    "MosDNS configuration does not match the PDG contract"
  graph.forM (fun entry => checkArgs H entry.1 (typeOf entry.2) ((Json.obj entry.2).getD "args" .null))
  return graph

/-! ### The document in force -/

/-- `pathlib.PurePosixPath`: a root of at most two slashes, and the names behind it. -/
structure PurePath where
  root : String
  parts : List String
  deriving DecidableEq

def purePath (path : String) : PurePath where
  root :=
    if "//".toList.isPrefixOf path.toList && !"///".toList.isPrefixOf path.toList then "//"
    else if "/".toList.isPrefixOf path.toList then "/" else ""
  parts := ((Text.splitAt '/' path.toList).filter (fun p => p ≠ [] ∧ p ≠ ['.'])).map String.ofList

def PurePath.parent (path : PurePath) : PurePath := { path with parts := path.parts.dropLast }

def PurePath.name (path : PurePath) : String := path.parts.getLast?.getD ""

def PurePath.join (path : PurePath) (name : String) : PurePath :=
  { path with parts := path.parts ++ [name] }

def expectedRuleFiles : Dict String (List String) :=
  [("geosite_unlock", ["unlock.txt"]),
    ("geosite_cn", ["geosite_cn.txt", "geosite_apple.txt", "custom_direct.txt", "ruleset_direct.txt"]),
    ("explicit_hijack", ["custom_hijack.txt", "ruleset_hijack.txt"]),
    ("force_hijack", ["mitm_hijack.txt"])]

/-- The first rule file of `hijack_set`, by hijack mode. -/
def hijackFiles : List String := ["geosite_geolocation-!cn.txt", "geosite_gfw.txt", "ruleset_hijack.txt"]

/-- The rule files of a plugin in force. -/
def checkRuleFiles (H : Host) (tag : String) (plugin : Plugin) : Py String Unit :=
  if typeOf plugin ≠ .str "domain_set" then .ok ()
  else do
    let files := ((Json.obj plugin).getD "args" .null).getD "files" .null
    let paths := (files.entries.filterMap Json.str?).map purePath
    raiseIf (paths.any (fun path => path.parent ≠ purePath H.ruleDir))
      "current managed MosDNS rule path is invalid"
    let leaves := paths.map PurePath.name
    if tag = "hijack_set" then
      raiseIf (!(decide (leaves.length = 2 ∧ leaves[1]? = some "custom_hijack.txt") &&
          leaves.head?.any (· ∈ hijackFiles)))
        "current managed MosDNS rule path is invalid"
    else
      raiseIf (decide (Dict.get? expectedRuleFiles tag ≠ some leaves))
        "current managed MosDNS rule path is invalid"

def expectedListeners : Dict String String :=
  [("udp_server", "0.0.0.0:53"), ("tcp_server", "0.0.0.0:53"), ("dot_server", "0.0.0.0:853")]

def checkListeners (live : Graph) : Py String Unit :=
  expectedListeners.forM (fun entry =>
    raiseIf (decide ((argsOf live entry.1).getD "listen" .null ≠ .str entry.2))
      "current managed MosDNS listener is invalid")

def checkCertificates (H : Host) (live : Graph) : Py String Unit :=
  let args := argsOf live "dot_server"
  let isAt (name : String) (value : Json) : Bool :=
    decide (value.str?.map purePath = some ((purePath H.certDir).join name))
  raiseIf (!(isAt "fullchain.pem" (args.getD "cert" .null) && isAt "privkey.pem" (args.getD "key" .null)))
    "current managed MosDNS certificate paths are invalid"

/-! ### Sequences -/

/-- A step of a managed sequence: what it matches, and what it executes. -/
abbrev Step := Option String × String

def gfwInternalSequence : List Step :=
  [(some "!$client_limiter", "reject 5"), (none, "$lazy_cache"), (none, "jump has_resp"),
    (some "qname $force_hijack", "goto force_hijack_seq"),
    (some "qname $explicit_hijack", "goto force_hijack_seq"), (some "qname $geosite_cn", "$ecs_china"),
    (some "qname $geosite_cn", "$local_upstream"), (none, "jump has_resp"),
    (some "!qname $hijack_set", "$ecs_neutral"), (some "!qname $hijack_set", "$remote_upstream"),
    (none, "jump has_resp"), (some "qtype 28", "reject 0"), (some "qtype 65", "reject 0"),
    (none, "jump has_resp"), (some "qtype 1", "black_hole "), (none, "jump has_resp"),
    (none, "$ecs_neutral"), (none, "$remote_upstream")]

def allInternalSequence : List Step := gfwInternalSequence.take 8 ++ gfwInternalSequence.drop 10

/-- The shapes that each managed sequence may have. -/
def expectedSequences : Dict String (List (List Step)) :=
  [("force_hijack_seq", [[(some "qtype 28", "reject 0"), (some "qtype 65", "reject 0"),
      (none, "jump has_resp"), (some "qtype 1", "black_hole ")]]),
    ("internal_sequence", [gfwInternalSequence, allInternalSequence]),
    ("main_sequence", [[(some "client_ip $npn_clients", "goto internal_sequence"),
      (some "qname $geosite_unlock", "$unlock_upstream"), (none, "jump has_resp"),
      (none, "$remote_upstream")]])]

/-- `actual.startswith("black_hole ")`. -/
def isBlackHole (actual : String) : Bool := "black_hole ".toList.isPrefixOf actual.toList

/-- Does a step execute what is expected? The address of `black_hole ` may be any. -/
def executes (expected : String) (actual : Json) : Bool :=
  actual.str?.any (fun s => if expected = "black_hole " then isBlackHole s else decide (s = expected))

/-- Does the item match on what is expected? -/
def conditioned (expected : Option String) (item : Json) : Bool :=
  match expected with
  | none => (item.get? "matches").isNone
  | some condition => decide (item.getD "matches" .null = .str condition)

/-- What is wrong with one item of a sequence. -/
def itemError (item : Json) (expected : Step) : Option String :=
  let order := some "MosDNS managed sequence order is invalid"
  match item with
  | .obj fields =>
      if extraKeys fields ["matches", "exec"] then some "MosDNS managed sequence entry is invalid"
      else if conditioned expected.1 item && executes expected.2 (item.getD "exec" .null) then none
      else order
  | _ => some "MosDNS managed sequence entry is invalid"

/-- The first error of the items. -/
def itemErrors : List Json → List Step → Option String
  | item :: items, step :: steps => (itemError item step).or (itemErrors items steps)
  | _, _ => none

/-- `sequence_error`. -/
def sequenceError (args : Json) (expected : List Step) : Option String :=
  match args with
  | .arr items =>
      if items.length ≠ expected.length then some "MosDNS managed sequence shape is invalid"
      else itemErrors items expected
  | _ => some "MosDNS managed sequence shape is invalid"

/-- The error that is reported when no shape fits: one of the same length, if there is one. -/
def shapeError (args : Json) (variants : List (List Step)) : String :=
  let specific := variants.find? (fun expected => isList args && args.entries.length = expected.length)
  (specific.bind (sequenceError args)).getD "MosDNS managed sequence shape is invalid"

def hasRespArgs : Json := .arr [.obj [("matches", .str "has_resp"), ("exec", .str "accept")]]

/-- `validate_managed_sequences`. -/
def validateManagedSequences (graph : Graph) : Py String Unit := do
  expectedSequences.forM (fun entry =>
    let args := argsOf graph entry.1
    raiseIf (entry.2.all (fun expected => (sequenceError args expected).isSome))
      (shapeError args entry.2))
  raiseIf (!(argsOf graph "has_resp").equal hasRespArgs) "MosDNS has_resp sequence is invalid"

/-! ### References -/

/-- `([A-Za-z0-9_.-]+)`, and what is left. -/
def refName (cs : List Char) : Option (String × List Char) :=
  if cs.takeWhile tagChar = [] then none
  else some (String.ofList (cs.takeWhile tagChar), cs.dropWhile tagChar)

/-- `\$([A-Za-z0-9_.-]+)`. -/
def dollarRef : List Char → Option (String × List Char)
  | c :: cs => if c = '$' then refName cs else none
  | [] => none

/-- `(?:jump|goto)\s+([A-Za-z0-9_.-]+)`. -/
def jumpRef (cs : List Char) : Option (String × List Char) :=
  let rest := cs.drop 4
  if ("jump".toList.isPrefixOf cs || "goto".toList.isPrefixOf cs) && rest.head?.any Text.isSpace then
    refName (rest.dropWhile Text.isSpace)
  else none

/-- A reference that begins here; `start` says whether this is the start of the text. -/
def referenceAt (start : Bool) (cs : List Char) : Option (String × List Char) :=
  ((if start then dollarRef cs else none).or
    (if cs.head?.any Text.isSpace then dollarRef cs.tail else none)).or (jumpRef cs)

/-- `references.finditer`; each turn takes a character at least. -/
def referencesFrom : Nat → Bool → List Char → List String
  | 0, _, _ => []
  | turns + 1, start, cs =>
      match referenceAt start cs with
      | some (name, rest) => name :: referencesFrom turns false rest
      | none => if cs = [] then [] else referencesFrom turns false cs.tail

def references (text : String) : List String :=
  referencesFrom (text.length + 1) true text.toList

/-- The texts of an item that may refer to plugins. -/
def itemTexts (item : Json) : List String :=
  ["matches", "exec"].filterMap (fun field => (item.getD field .null).str?)

/-- The items of a plugin whose arguments are a list. -/
def itemsOf (plugin : Plugin) : List Json :=
  match (Json.obj plugin).getD "args" .null with
  | .arr items => items
  | _ => []

/-- Every reference is to a plugin of the graph. -/
def checkReferences (graph : Graph) : Py String Unit :=
  raiseIf (!graph.all (fun entry => (itemsOf entry.2).all (fun item =>
      (itemTexts item).all (fun text => (references text).all (fun target => graph.contains target)))))
    "MosDNS sequence has an unresolved plugin reference"

/-! ### Binding to the machine -/

/-- `isinstance(value, int)`. -/
def isInteger : Json → Bool
  | .int _ | .bool _ => true
  | _ => false

/-- The fields of a plugin's arguments that belong to the machine. -/
def machineFields (live : Graph) (tag : String) : List String :=
  if tag = "npn_clients" then ["ips"]
  else if tag = "dot_server" then ["cert", "key", "listen"]
  else if tag = "udp_server" ∨ tag = "tcp_server" then ["listen"]
  else if typeOf ((Dict.get? live tag).getD []) = .str "domain_set" then ["files"]
  else if tag = "lazy_cache" ∧ isInteger ((argsOf live tag).getD "size" .null) then ["size"]
  else []

/-- `args[field] = live[field]`. -/
def takeField (live args : Json) (field : String) : Json :=
  match args with
  | .obj fields => .obj (Dict.set fields field (live.getD field .null))
  | _ => args

/-- The arguments with what belongs to the machine; the hijack sequence belongs to it whole. -/
def boundArgs (live : Graph) (tag : String) (args : Json) : Json :=
  if tag = "internal_sequence" then argsOf live tag
  else (machineFields live tag).foldl (takeField (argsOf live tag)) args

def ipChar (c : Char) : Bool :=
  c.isDigit || ('a' ≤ c && c ≤ 'f') || ('A' ≤ c && c ≤ 'F') || c = ':' || c = '.'

/-- The group of `re.fullmatch(r"black_hole ([0-9a-fA-F:.]+)", exec)`. -/
def blackHoleIp (exec : String) : Option String :=
  let rest := exec.toList.drop 11
  if isBlackHole exec && !rest.isEmpty && rest.all ipChar then some (String.ofList rest) else none

/-- The addresses that the sequences answer with. -/
def serverIps (live : Graph) : List String :=
  (live.flatMap (fun entry =>
    if typeOf entry.2 = .str "sequence" then
      (itemsOf entry.2).filterMap (fun item => (item.getD "exec" .null).str?.bind blackHoleIp)
    else [])).dedup

/-- The one address of the document in force. -/
def serverIp (H : Host) (live : Graph) : Py String String :=
  match serverIps live with
  | [ip] =>
      if H.ipAddress (.str ip) then .ok ip
      else Py.raise "current managed MosDNS server identity is invalid"
  | _ => Py.raise "current managed MosDNS server identity is invalid"

/-- `item["exec"] = "black_hole " + server_ip`. -/
def answering (ip : String) (item : Json) : Json :=
  match item with
  | .obj fields =>
      if (item.getD "exec" .null).str?.any isBlackHole then
        .obj (Dict.set fields "exec" (.str ("black_hole " ++ ip)))
      else item
  | _ => item

/-- The arguments of a sequence, with the address of the machine. -/
def answeringArgs (ip : String) (typ args : Json) : Json :=
  match typ, args with
  | .str "sequence", .arr items => .arr (items.map (answering ip))
  | _, _ => args

/-- A plugin bound to the machine. -/
def boundPlugin (live : Graph) (ip tag : String) (plugin : Plugin) : Plugin :=
  Dict.set plugin "args" (answeringArgs ip (typeOf plugin)
    (boundArgs live tag ((Json.obj plugin).getD "args" .null)))

def boundGraph (live : Graph) (ip : String) (graph : Graph) : Graph :=
  graph.map (fun entry => (entry.1, boundPlugin live ip entry.1 entry.2))

/-- The document with the plugins of a graph. -/
def withPlugins (doc : Json) (graph : Graph) : Json :=
  match doc with
  | .obj fields => .obj (Dict.set fields "plugins" (.arr (graph.map (fun entry => .obj entry.2))))
  | _ => doc

/-! ### Placeholders -/

def placeholderChar (c : Char) : Bool := ('A' ≤ c && c ≤ 'Z') || c.isDigit || c = '_'

/-- `[A-Z0-9_]*__`, at the start of a text. -/
def closes : List Char → Bool
  | [] => false
  | c :: cs => "__".toList.isPrefixOf (c :: cs) || placeholderChar c && closes cs

/-- `__[A-Z0-9_]+__`, at the start of a text. -/
def opens (cs : List Char) : Bool :=
  "__".toList.isPrefixOf cs && (cs.drop 2).head?.any placeholderChar && closes (cs.drop 3)

/-- `placeholder.search(value)`. -/
def placeholderIn (text : String) : Bool := text.toList.tails.any opens

mutual

/-- Does `reject_placeholders` raise? -/
def hasPlaceholder : Json → Bool
  | .str s => placeholderIn s
  | .obj fields => hasPlaceholderFields fields
  | .arr items => hasPlaceholderItems items
  | _ => false

/-- The loop over a list. -/
def hasPlaceholderItems : List Json → Bool
  | [] => false
  | item :: items => hasPlaceholder item || hasPlaceholderItems items

/-- The loop over the values of an object. -/
def hasPlaceholderFields : List (String × Json) → Bool
  | [] => false
  | (_, value) :: fields => hasPlaceholder value || hasPlaceholderFields fields

end

/-! ### The contract -/

/-- `_mosdns_contract`. -/
def mosdnsContract (H : Host) (doc : Json) (current : Option Json) : Py String Json := do
  let some current := current
    | Py.raise "current managed MosDNS configuration is unavailable"
  let graph ← checkedGraph H doc
  let live ← checkedGraph H current
  live.forM (fun entry => checkRuleFiles H entry.1 entry.2)
  checkListeners live
  checkCertificates H live
  validateManagedSequences graph
  validateManagedSequences live
  checkReferences graph
  let ip ← serverIp H live
  let result := withPlugins doc (boundGraph live ip graph)
  raiseIf (hasPlaceholder result) "MosDNS configuration contains an unresolved placeholder"
  return result

end ProxyGateway.Mosdns
