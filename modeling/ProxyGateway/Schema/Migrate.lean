import ProxyGateway.Schema.Shape

set_option autoImplicit false

/-!
# ProxyGateway.Schema.Migrate

`pdgmodel.migrate`: the schema-v3 copy of a document, or a refusal. A document that declares
schema 3 must have its envelope already; an older one gets its policy groups from the group
outbounds and their mirrors. Then every name of the user and every reference to one is
normalized, and the result is validated.

In `_canonicalize_user_names` the dictionary `aliases` only ever holds `normalize_name` of
its keys, so that `reference` is `normalize_name` here.
-/

namespace ProxyGateway.Schema

/-! ### The declared envelope -/

/-- `validate_declared_schema_shape`. -/
def validateDeclaredSchemaShape (model : Json) : Py ModelError Unit :=
  match model.getD "_pdg" .null with
  | .obj pdg =>
      if !(Json.obj pdg |>.getD "schema" .null).isNumber schemaVersion then .ok ()
      else do
        let meta_ := Json.obj pdg
        raiseIf (!sameKeys pdg v3MetaFields || !isList (meta_.getD "policy-groups" .null))
          (.text "declared schema v3 metadata has an invalid shape")
        let mihomo := meta_.getD "mihomo" .null
        raiseIf (!isDict mihomo || !sameKeys (mihomo.fields?.getD []) v3MihomoFields ||
            v3MihomoFields.any (fun key => !isDict (mihomo.getD key .null)))
          (.text "declared schema v3 Mihomo metadata has an invalid shape")
  | _ => .ok ()

/-! ### Legacy policy groups -/

/-- The factor of a unit in `(\d+)([smh]?)`. -/
def durationUnit : List Char → Option Int
  | [] => some 1
  | ['s'] => some 1
  | ['m'] => some 60
  | ['h'] => some 3600
  | _ => none

/-- `_duration_seconds`; the interpreter reads numbers of at most 4300 digits. -/
def durationSeconds (U : Unicode) (value : Json) : Py ModelError Int :=
  match value with
  | .int n => .ok n
  | .str s =>
      let digits := s.toList.takeWhile (fun c => (U.decimal c).isSome)
      match durationUnit (s.toList.drop digits.length) with
      | none => .ok (-1)
      | some factor =>
          if digits.isEmpty then .ok (-1)
          else if digits.length > 4300 then Py.fault .value
          else
            let n := (digits.filterMap U.decimal).foldl (fun (acc d : Nat) => 10 * acc + d) 0
            .ok ((n : Int) * factor)
  | _ => .ok (-1)

/-- `direct if item == "DIRECT" else item`. -/
def toDirect (direct : String) (item : Json) : Json :=
  if item = .str "DIRECT" then .str direct else item

/-- `_canonical_group`, for an outbound that is a legacy group. -/
def canonicalGroup (U : Unicode) (outbound : Json) (direct : String) :
    Py ModelError (String × Dict String Json) := do
  let name ← validateName U (outbound.getD "tag" .null) "group name"
  let isTest := hasType "urltest" outbound
  let probe : Dict String Json ←
    if isTest then do
      let interval ← durationSeconds U (outbound.getD "interval" (.str "180s"))
      pure [("url", outbound.getD "url" (.str defaultTestUrl)), ("interval", .int interval),
        ("tolerance", outbound.getD "tolerance" (.int 50))]
    else pure []
  let members ← (outbound.getD "outbounds" (.arr [])).items
  return (name, [("name", .str name), ("type", .str (if isTest then "url-test" else "select")),
    ("proxies", .arr (members.map (toDirect direct))), ("use", .arr [])] ++ probe)

/-- The groups that the outbounds hold. -/
def canonicalGroups (U : Unicode) (direct : String) (groups : Dict String (Dict String Json))
    (item : Json) : Py ModelError (Dict String (Dict String Json)) := do
  if !(← if isDict item then (item.getD "type" .null).within groupOutboundTypes
      else pure false) then return groups
  let (name, group) ← canonicalGroup U item direct
  raiseIf (groups.contains name) (.text ("duplicate legacy canonical group: " ++ name))
  return groups.set name group

/-- The groups that the Mihomo metadata holds. -/
def mirrorGroups (U : Unicode) (direct : String) (groups : Dict String (Dict String Json))
    (raw : Json) : Py ModelError (Dict String (Dict String Json)) := do
  let .obj fields := raw | Py.raise (.text "invalid legacy proxy group")
  let name ← validateName U (raw.getD "name" .null) "group name"
  raiseIf (groups.contains name) (.text ("duplicate legacy proxy group: " ++ name))
  let group := match Dict.get? fields "proxies" with
    | some (.arr members) => Dict.set fields "proxies" (.arr (members.map (toDirect direct)))
    | _ => fields
  return groups.set name group

/-- `not raw.get("use") and "REJECT" not in raw.get("proxies", [])`. -/
def representable (raw : Json) : Py ModelError Bool := do
  if (raw.getD "use" .null).truthy then return false
  return !(← (raw.getD "proxies" (.arr [])).has "REJECT")

/-- A group of the outbounds and its mirror must agree; one without a mirror is taken over
from schema 1. -/
def reconcileGroup (isV2 : Bool) (groups : Dict String (Dict String Json))
    (entry : String × Dict String Json) : Py ModelError (Dict String (Dict String Json)) := do
  let (name, mirror) := entry
  match groups.get? name with
  | none =>
      raiseIf isV2
        (.text ("legacy canonical policy group is missing its mirror: " ++ name))
      return groups.set name mirror
  | some fields =>
      let raw := Json.obj fields
      let own := Json.obj mirror
      let isWhole ← representable raw
      raiseIf (decide (raw.get? "type" ≠ own.get? "type") || !isWhole)
        (.text ("legacy policy-group representations disagree: " ++ name))
      raiseIf (!(raw.getD "proxies" (.arr [])).equal (own.getD "proxies" .null))
        (.text ("legacy policy-group memberships disagree: " ++ name))
      raiseIf (hasType "url-test" own &&
          (!(raw.getD "url" (.str defaultTestUrl)).equal (own.getD "url" (.str defaultTestUrl)) ||
            !(raw.getD "interval" (.int 180)).equal (own.getD "interval" (.int 180)) ||
            !(raw.getD "tolerance" (.int 50)).equal (own.getD "tolerance" (.int 50))))
        (.text ("legacy policy-group probe settings disagree: " ++ name))
      return groups

/-- A mirror that an outbound could hold must have its outbound. -/
def checkMirrored (canonical : Dict String (Dict String Json))
    (entry : String × Dict String Json) : Py ModelError Unit := do
  let raw := Json.obj entry.2
  if canonical.contains entry.1 then return ()
  if !(← (raw.getD "type" .null).within ["select", "url-test"]) then return ()
  raiseIf (← representable raw)
    (.text ("legacy editable policy group is missing its mirror: " ++ entry.1))

/-- `_legacy_groups`. -/
def legacyGroups (U : Unicode) (model : Json) (outbounds : List Json) (mihomo : Json)
    (isV2 : Bool) : Py ModelError (List Json) := do
  let direct ← directTag model
  let canonical ← outbounds.foldlM (canonicalGroups U direct) []
  let .arr rawGroups := mihomo.getD "proxy-groups" (.arr [])
    | Py.raise (.text "invalid legacy proxy-groups metadata")
  let mirrors ← rawGroups.foldlM (mirrorGroups U direct) []
  let groups ← canonical.foldlM (reconcileGroup isV2) mirrors
  groups.forM (checkMirrored canonical)
  return groups.map (fun entry => .obj entry.2)

/-! ### Names and references -/

/-- `reference`. -/
def reference (U : Unicode) (label : String) (value : Json) : Py ModelError Json :=
  match value with
  | .str _ => do return .str (← normalizeName U value label)
  | _ => Py.raise (.text (label ++ " is not a valid name"))

/-- Normalize the reference in a field, if the field holds a text. -/
def referField (U : Unicode) (key label : String) (fields : Dict String Json) :
    Py ModelError (Dict String Json) :=
  match Dict.get? fields key with
  | some (.str s) => do return Dict.set fields key (← reference U label (.str s))
  | _ => .ok fields

/-- Normalize the tag of a proxy. -/
def nameOutbound (U : Unicode) (outbound : Json) : Py ModelError Json := do
  let .obj fields := outbound | return outbound
  if !(← (outbound.getD "type" .null).within proxyOutboundTypes) then return outbound
  let name ← normalizeName U (outbound.getD "tag" .null) "outbound tag"
  return .obj (Dict.set fields "tag" (.str name))

/-- Normalize the name of a group. -/
def nameGroup (U : Unicode) (group : Json) : Py ModelError Json := do
  let .obj fields := group | return group
  let name ← normalizeName U (group.getD "name" .null) "group name"
  return .obj (Dict.set fields "name" (.str name))

/-- Normalize the keys of a provider map. -/
def nameProviders (U : Unicode) (label : String) (providers : Dict String Json) :
    Py ModelError (Dict String Json) :=
  providers.foldlM (fun rebuilt entry => do
    let name ← normalizeName U (.str entry.1) label
    raiseIf (rebuilt.contains name) (.text (label ++ " collides after Unicode normalization"))
    return rebuilt.set name entry.2) []

/-- Normalize the references of an outbound. -/
def referOutbound (U : Unicode) (outbound : Json) : Py ModelError Json := do
  let .obj fields := outbound | return outbound
  let fields ← referField U "detour" "outbound detour" fields
  match Dict.get? fields "outbounds" with
  | some (.arr members) =>
      let members ← members.mapM (reference U "outbound member")
      return .obj (Dict.set fields "outbounds" (.arr members))
  | _ => return .obj fields

/-- `group.get(key) or []`, as the loop visits it. -/
def membersOf (group : Json) (key : String) : Py ModelError (List Json) :=
  let value := group.getD key .null
  if value.truthy then value.items else .ok []

/-- Normalize the members and providers of a group. -/
def referGroup (U : Unicode) (group : Json) : Py ModelError Json := do
  let .obj fields := group | return group
  let proxies ← (← membersOf group "proxies").mapM (fun item =>
    if item = .str "REJECT" then .ok item else reference U "group member" item)
  let uses ← (← membersOf group "use").mapM (reference U "proxy provider name")
  return .obj (Dict.set (Dict.set fields "proxies" (.arr proxies)) "use" (.arr uses))

/-- Normalize the references of a route rule. -/
def referRule (U : Unicode) (rule : Json) : Py ModelError Json := do
  let .obj fields := rule | return rule
  let fields ← referField U "outbound" "route target" fields
  return .obj (← referField U "rule_set" "rule provider name" fields)

/-- Normalize the tag of a rule-set entry. -/
def referRuleSet (U : Unicode) (ruleSet : Json) : Py ModelError Json := do
  let .obj fields := ruleSet | return ruleSet
  return .obj (← referField U "tag" "rule provider name" fields)

/-- Rebuild the elements of a list in a field; a field of another type is only visited. -/
def referList (key : String) (f : Json → Py ModelError Json) (fields : Dict String Json) :
    Py ModelError (Dict String Json) := do
  let value := (Dict.get? fields key).getD .null
  match value with
  | .arr items => return Dict.set fields key (.arr (← items.mapM f))
  | _ =>
      if value.truthy then discard (value.items (ε := ModelError))
      return fields

/-- Normalize the references of the route. -/
def referRoute (U : Unicode) (route : Dict String Json) : Py ModelError (Dict String Json) := do
  let route ← referField U "final" "route target" route
  let route ← referList "rules" (referRule U) route
  referList "rule_set" (referRuleSet U) route

/-- The four Mihomo fields of a document. -/
structure MihomoMeta where
  proxyProviders : Dict String Json
  ruleProviders : Dict String Json
  advanced : Dict String Json
  managedFiles : Dict String Json

def MihomoMeta.toJson (m : MihomoMeta) : Json :=
  .obj [("proxy-providers", .obj m.proxyProviders), ("rule-providers", .obj m.ruleProviders),
    ("advanced", .obj m.advanced), ("managed-files", .obj m.managedFiles)]

/-- The value of `_pdg` in a canonical document. -/
def metaJson (groups : Json) (m : MihomoMeta) : Json :=
  .obj [("schema", .int schemaVersion), ("policy-groups", groups), ("mihomo", m.toJson)]

/-- `_canonicalize_user_names`, on the parts of a document. -/
def canonicalizeUserNames (U : Unicode) (outbounds groups : List Json) (m : MihomoMeta)
    (route : Dict String Json) :
    Py ModelError (List Json × List Json × MihomoMeta × Dict String Json) := do
  let outbounds ← outbounds.mapM (nameOutbound U)
  let groups ← groups.mapM (nameGroup U)
  let proxyProviders ← nameProviders U "proxy provider name" m.proxyProviders
  let ruleProviders ← nameProviders U "rule provider name" m.ruleProviders
  let outbounds ← outbounds.mapM (referOutbound U)
  let groups ← groups.mapM (referGroup U)
  let route ← referRoute U route
  return (outbounds, groups, { m with proxyProviders, ruleProviders }, route)

/-! ### `migrate` -/

/-- The declared schema, where a document without one has schema 1. -/
def declaredSchema (pdg : Json) : Py ModelError Int := do
  let schema := pdg.getD "schema" (.int 1)
  if !schema.hashable then Py.fault .type
  match [1, 2, 3].find? schema.isNumber with
  | some n => return n
  | none => Py.raise (.text "unsupported model schema")

/-- A Mihomo field, empty where it is missing. -/
def mihomoField (mihomo : Json) (key : String) : Py ModelError (Dict String Json) :=
  match mihomo.getD key (.obj []) with
  | .obj fields => .ok fields
  | _ => Py.raise (.text ("invalid Mihomo metadata field: " ++ key))

/-- The outbounds and the policy groups of a document of any schema. -/
def groupsOf (U : Unicode) (model pdg mihomo : Json) (outbounds : List Json) (schema : Int) :
    Py ModelError (List Json × List Json) := do
  let isGroup := fun item : Json =>
    if isDict item then (item.getD "type" .null).within (ε := ModelError) groupOutboundTypes
    else .ok false
  if schema = 3 then
    raiseIf (← outbounds.anyM isGroup)
      (.text "schema v3 forbids canonical group outbounds")
    let groups ← (pdg.getD "policy-groups" .null).items
    return (outbounds, groups)
  else
    raiseIf (extraKeys (pdg.fields?.getD []) ["schema", "mihomo"])
      (.text "invalid legacy PDG metadata")
    let groups ← legacyGroups U model outbounds mihomo (schema = 2)
    let outbounds ← outbounds.filterM (fun item => return !(← isGroup item))
    return (outbounds, groups)

/-- `value or {}`. -/
def orEmpty (value : Json) : Json := if value.truthy then value else .obj []

/-- `migrate`. -/
def migrate (U : Unicode) (model : Json) : Py ModelError Json := do
  let .obj fields := model | Py.raise (.text "model root must be an object")
  validateDeclaredSchemaShape model
  let .arr outbounds := model.getD "outbounds" .null
    | Py.raise (.text "model is missing outbounds or route")
  let .obj route := model.getD "route" .null
    | Py.raise (.text "model is missing outbounds or route")
  let _ ← directTag model
  let pdg := orEmpty (model.getD "_pdg" .null)
  raiseIf (!isDict pdg) (.text "invalid PDG metadata")
  let schema ← declaredSchema pdg
  let mihomo := orEmpty (pdg.getD "mihomo" .null)
  raiseIf (!isDict mihomo) (.text "invalid Mihomo metadata")
  raiseIf (extraKeys (mihomo.fields?.getD []) (v3MihomoFields ++ ["proxy-groups"]))
    (.text "invalid Mihomo metadata field")
  let (outbounds, groups) ← groupsOf U model pdg mihomo outbounds schema
  let proxyProviders ← mihomoField mihomo "proxy-providers"
  let ruleProviders ← mihomoField mihomo "rule-providers"
  let advanced ← mihomoField mihomo "advanced"
  let managedFiles ← mihomoField mihomo "managed-files"
  let (outbounds, groups, m, route) ← canonicalizeUserNames U outbounds groups
    ⟨proxyProviders, ruleProviders, advanced, managedFiles⟩ route
  let result := Json.obj (((Dict.set fields "outbounds" (.arr outbounds)).set "_pdg"
    (metaJson (.arr groups) m)).set "route" (.obj route))
  validate U result
  return result

/-! ### The namespace of a document -/

/-- `item["tag"] for item in outbounds`, where the tag is a text. -/
def outboundTags (outbounds : List Json) : List String :=
  outbounds.filterMap (fun item => (item.get? "tag").bind Json.str?)

/-- The tags of the direct outbounds. -/
def directTags (outbounds : List Json) : List String :=
  outboundTags (outbounds.filter (hasType "direct"))

/-- `group["name"] for group in groups`, where the name is a text. -/
def groupNames (groups : List Json) : List String :=
  groups.filterMap (fun group => (group.get? "name").bind Json.str?)

/-- `policy_groups`. -/
def policyGroups (model : Json) : List Json :=
  match (model.getD "_pdg" .null).getD "policy-groups" .null with
  | .arr groups => groups
  | _ => []

/-- The keys of a map in the Mihomo metadata. -/
def mihomoKeys (model : Json) (field : String) : List String :=
  ((((model.getD "_pdg" .null).getD "mihomo" .null).getD field .null).fields?.getD []).keys

/-- The outbounds of a document. -/
def outboundsOf (model : Json) : List Json :=
  match model.getD "outbounds" .null with
  | .arr outbounds => outbounds
  | _ => []

/-- `model_namespace`. -/
def modelNamespace (U : Unicode) (model : Json) : Py ModelError (List String) := do
  let canonical ← migrate U model
  return outboundTags (outboundsOf canonical) ++ groupNames (policyGroups canonical) ++
    mihomoKeys canonical "proxy-providers" ++ mihomoKeys canonical "rule-providers"

/-- `routable_tags`. -/
def routableTags (U : Unicode) (model : Json) : Py ModelError (List String) := do
  let canonical ← migrate U model
  let outbounds ← (outboundsOf canonical).filterM (fun item =>
    if isDict item then (item.getD "type" .null).within routableOutboundTypes else .ok false)
  return outboundTags outbounds ++ groupNames (policyGroups canonical)

/-- `validate_ruleset_namespace`. -/
def validateRulesetNamespace (U : Unicode) (model : Json) (names : List String) :
    Py ModelError Unit := do
  let canonical ← names.mapM (fun name => normalizeName U (.str name) "ruleset provider name")
  raiseIf (decide (¬ canonical.Nodup))
    (.text "ruleset provider names collide after Unicode normalization")
  let occupied := (← modelNamespace U model) ++ reservedTargets
  let collisions := (canonical.filter (· ∈ occupied)).insertionSort (· ≤ ·)
  raiseIf (!collisions.isEmpty)
    (.text ("ruleset provider names 与 Mihomo 命名空间同名: " ++ String.intercalate ", " collisions))

end ProxyGateway.Schema
