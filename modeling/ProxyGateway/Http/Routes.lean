import Mathlib.Data.List.Basic
import ProxyGateway.Http.Request

set_option autoImplicit false

/-!
# ProxyGateway.Http.Routes

The routes of `_dispatch_api` behind the session check, in their order: which method of the control
layer a command and a path lead to, and with which helper it is called. The path patterns are those of
the source; a part in parentheses is what `segment` finds.
-/

namespace ProxyGateway.Http

/-! ### Methods of the control layer -/

/-- `get_routes` -/
inductive View where
  | overview | exits | groups | policyGroups | rules | rulesets | dns | settings | traffic | runtime
  | snapshots | jobs
  deriving DecidableEq, Repr

/-- The methods that take a body. -/
inductive Submission where
  | addExit | reorderExits | setDefaultExit | setDirectTag | addGroup | addPolicyGroup | addRule
  | addRuleset | diagnoseExits | diagnoseDomain | setTfo
  deriving DecidableEq, Repr

/-- The methods that take a name. -/
inductive ItemOp where
  | renameExit | replaceExit | deleteExit | selectGroupRuntime | diagnoseGroupMembers
  | patchPolicyGroup | deletePolicyGroup | patchGroup | deleteGroup | patchRule | deleteRule
  | patchRuleset | deleteRuleset | setRulesetTarget | job
  deriving DecidableEq, Repr

/-- A call of the control layer. -/
inductive Call where
  | view (view : View)
  | logs (lineLimit : Nat)
  | submit (op : Submission) (body : Dict String Json)
  | item (op : ItemOp) (name : String) (body : Option (Dict String Json))
  | exportConfig (kind : String)
  | previewImport (kind : String) (size : Nat) (contentType : String)
  | applyImport (id : String) (body : Dict String Json)
  | cancelImport (id : String)
  | setDns (which : String) (body : Dict String Json)
  | action (name : String) (body : Dict String Json)

/-! ### Routes -/

/-- What a command and a path lead to. -/
inductive Route where
  | logout
  | exportConfig (kind : String)
  | previewImport (kind : String)
  | applyImport (id : String)
  | cancelImport (id : String)
  | view (view : View)
  | logs
  | submit (op : Submission) (status : Nat)
  | item (raw : String) (kind : SegmentKind) (op : ItemOp) (body : Bool)
  | optionalItem (raw : String) (kind : SegmentKind) (op : ItemOp)
  | dns (which : String)
  | action (name : String)

/-- The text between two parts of a path. -/
def between (before after path : String) : Option String :=
  let cs := path.toList
  if before.toList <+: cs ∧ after.toList <:+ cs.drop before.length then
    some (String.ofList ((cs.drop before.length).take (cs.length - before.length - after.length)))
  else none

/-- `before([^/]+)after` -/
def segment (before after path : String) : Option String :=
  (between before after path).filter fun part => part ≠ "" && !('/' ∈ part.toList)

/-- `before(a|b|c)after` -/
def choice (before after : String) (choices : List String) (path : String) : Option String :=
  (between before after path).filter (· ∈ choices)

/-- `imp-[a-f0-9]{32}` -/
def importId (part : String) : Bool :=
  ['i', 'm', 'p', '-'].isPrefixOf part.toList && part.length = 36 &&
    (part.toList.drop 4).all fun c => ('a' ≤ c && c ≤ 'f') || ('0' ≤ c && c ≤ '9')

/-- `(pdg|mihomo|mosdns)` -/
def kinds : List String := ["pdg", "mihomo", "mosdns"]

/-- `(restart|rules-update|snapshot|rollback|software-update)` -/
def actions : List String := ["restart", "rules-update", "snapshot", "rollback", "software-update"]

/-- `get_routes` -/
def getRoutes : Dict String View :=
  [("/api/v1/overview", .overview), ("/api/v1/exits", .exits), ("/api/v1/groups", .groups),
   ("/api/v1/policy-groups", .policyGroups), ("/api/v1/rules", .rules), ("/api/v1/rulesets", .rulesets),
   ("/api/v1/dns", .dns), ("/api/v1/settings", .settings), ("/api/v1/traffic", .traffic),
   ("/api/v1/runtime", .runtime), ("/api/v1/snapshots", .snapshots), ("/api/v1/jobs", .jobs)]

/-- The routes whose body goes to a method as it is. -/
def bodyRoutes : List (Command × String × Submission × Nat) :=
  [(.post, "/api/v1/exits", .addExit, 201), (.put, "/api/v1/exits/order", .reorderExits, 200),
   (.put, "/api/v1/default-exit", .setDefaultExit, 200), (.put, "/api/v1/direct-tag", .setDirectTag, 200),
   (.post, "/api/v1/groups", .addGroup, 201), (.post, "/api/v1/policy-groups", .addPolicyGroup, 201),
   (.post, "/api/v1/rules", .addRule, 201), (.post, "/api/v1/rulesets", .addRuleset, 201),
   (.post, "/api/v1/diagnostics/exits", .diagnoseExits, 200),
   (.post, "/api/v1/diagnostics/domain", .diagnoseDomain, 200), (.put, "/api/v1/settings/tfo", .setTfo, 200)]

/-- Imports and exports. -/
def importRoute (m : Command) (path : String) : List (Option Route) :=
  [(choice "/api/v1/exports/" "" kinds path).bind fun kind =>
      if m = .post then some (.exportConfig kind) else none,
   (choice "/api/v1/imports/" "/preview" kinds path).bind fun kind =>
      if m = .post then some (.previewImport kind) else none,
   ((between "/api/v1/imports/" "/apply" path).filter importId).bind fun id =>
      if m = .post then some (.applyImport id) else none,
   ((between "/api/v1/imports/" "" path).filter importId).bind fun id =>
      if m = .delete then some (.cancelImport id) else none]

/-- The routes with a name in the path. -/
def itemRoute (m : Command) (path : String) : List (Option Route) :=
  [(segment "/api/v1/exits/" "" path).bind fun raw =>
      match m with
      | .patch => some (.item raw .tag .renameExit true)
      | .put => some (.item raw .tag .replaceExit true)
      | .delete => some (.item raw .tag .deleteExit false)
      | _ => none,
   (segment "/api/v1/groups/" "/runtime" path).bind fun raw =>
      if m = .put then some (.item raw .tag .selectGroupRuntime true) else none,
   (segment "/api/v1/policy-groups/" "/delays" path).bind fun raw =>
      if m = .post then some (.item raw .tag .diagnoseGroupMembers true) else none,
   (segment "/api/v1/policy-groups/" "/runtime" path).bind fun raw =>
      if m = .put then some (.item raw .tag .selectGroupRuntime true) else none,
   (segment "/api/v1/policy-groups/" "" path).bind fun raw =>
      match m with
      | .patch => some (.item raw .tag .patchPolicyGroup true)
      | .delete => some (.item raw .tag .deletePolicyGroup true)
      | _ => none,
   (segment "/api/v1/groups/" "" path).bind fun raw =>
      match m with
      | .delete => some (.optionalItem raw .tag .deleteGroup)
      | .patch => some (.item raw .tag .patchGroup true)
      | _ => none,
   (segment "/api/v1/rules/" "" path).bind fun raw =>
      match m with
      | .patch => some (.item raw .domain .patchRule true)
      | .delete => some (.item raw .domain .deleteRule false)
      | _ => none,
   (segment "/api/v1/rulesets/" "" path).bind fun raw =>
      match m with
      | .patch => some (.item raw .tag .patchRuleset true)
      | .delete => some (.item raw .tag .deleteRuleset false)
      | _ => none,
   (segment "/api/v1/rulesets/" "/target" path).bind fun raw =>
      if m = .put then some (.item raw .tag .setRulesetTarget true) else none,
   (segment "/api/v1/jobs/" "" path).bind fun raw =>
      if m = .get then some (.item raw .tag .job false) else none]

/-- The remaining routes. -/
def otherRoute (m : Command) (path : String) : List (Option Route) :=
  [(choice "/api/v1/dns/" "" ["remote", "local"] path).bind fun which =>
      if m = .put then some (.dns which) else none,
   (choice "/api/v1/actions/" "" actions path).bind fun name =>
      if m = .post then some (.action name) else none]

/-- The routes with a fixed path. -/
def fixedRoute (m : Command) (path : String) : List (Option Route) :=
  [if m = .get then (getRoutes.get? path).map .view else none,
   if m = .get ∧ path = "/api/v1/logs" then some .logs else none,
   (bodyRoutes.find? fun entry => entry.1 = m ∧ entry.2.1 = path).map fun entry =>
      .submit entry.2.2.1 entry.2.2.2]

/-- The routes of `_dispatch_api` behind the session check, the first match first. -/
def route (m : Command) (path : String) : Option Route :=
  let logout := if path = "/api/v1/logout" ∧ m = .post then some .logout else none
  ([logout] ++ importRoute m path ++ fixedRoute m path ++ itemRoute m path ++ otherRoute m path).findSome? id

end ProxyGateway.Http
