import ProxyGateway.Lib.Clean
import ProxyGateway.Schema.Migrate

set_option autoImplicit false

/-!
# ProxyGateway.Schema.Limits

`validate` and `migrate` in an interpreter whose recursion is limited: `copy.deepcopy` calls
itself once for each level of nesting, `visit` once for each policy group on a chain. The
functions of `Shape` and `Migrate` are the same programs without a limit (`validate_eq`,
`migrate_eq`).
-/

namespace ProxyGateway.Schema

/-- How many nested calls the interpreter has left for `copy.deepcopy` and for `visit`. -/
structure Stack where
  copy : Nat
  visit : Nat

mutual

/-- How many containers are inside each other. -/
def nesting : Json → Nat
  | .arr xs => nestingItems xs + 1
  | .obj kvs => nestingFields kvs + 1
  | _ => 0

/-- `nesting` of the deepest element. -/
def nestingItems : List Json → Nat
  | [] => 0
  | x :: xs => max (nesting x) (nestingItems xs)

/-- `nesting` of the deepest value. -/
def nestingFields : List (String × Json) → Nat
  | [] => 0
  | (_, x) :: kvs => max (nesting x) (nestingFields kvs)

end

/-- `copy.deepcopy`. -/
def deepcopy (S : Stack) (value : Json) : Py ModelError Json :=
  if nesting value ≤ S.copy then .ok value else Py.fault .recursion

/-- The message for a cycle of policy groups. -/
def dependencyCycle : ModelError := .text "policy groups contain a dependency cycle"

/-- `validate`, where `search` looks for a cycle of policy groups. -/
def validateWith (U : Unicode) (search : (String → List String) → List String → Py ModelError Unit)
    (model : Json) : Py ModelError Names := do
  let (outbounds, groups, providers, ruleProviders) ← envelope model
  let (tags, routable) ← outbounds.foldlM (validateOutbound U) ([], [])
  let parts ← (← groups.items).foldlM (validateGroupIn U) []
  let groupNames := parts.map GroupPart.name
  validateNamespace U tags groupNames providers.keys ruleProviders.keys
  parts.forM (validateMembers (routable ++ groupNames ++ ["REJECT"]) (blockTags outbounds)
    providers.keys)
  search (groupGraph parts) groupNames
  validateRoute (routable ++ groupNames) (model.getD "route" .null)
  return ⟨tags, routable, parts⟩

theorem validateNames_eq (U : Unicode) (model : Json) :
    validateNames U model = validateWith U (Search.visitAll dependencyCycle) model := rfl

/-- `validate`, with the limit of the interpreter. -/
def validateOn (S : Stack) (U : Unicode) (model : Json) : Py ModelError Unit :=
  discard (validateWith U (Search.visitAllWithin S.visit dependencyCycle) model)

/-- `migrate` up to the call of `validate`, for a document that was copied. -/
def canonicalized (U : Unicode) (model : Json) : Py ModelError Json := do
  let .obj fields := model | Py.raise (.text "model root must be an object")
  let .arr outbounds := model.getD "outbounds" .null
    | Py.raise (.text "model is missing outbounds or route")
  let .obj route := model.getD "route" .null
    | Py.raise (.text "model is missing outbounds or route")
  let _ ← directTag model
  let pdg := orEmpty (model.getD "_pdg" .null)
  raiseIf (!isDict pdg) (.text "invalid PDG metadata")
  let schema ← declaredSchema pdg
  let mihomo := orEmpty (pdg.getD "mihomo" .null)
  raiseIf (!isDict mihomo) (.text "invalid Mihomo metadata")
  raiseIf (extraKeys (mihomo.fields?.getD []) (v3MihomoFields ++ ["proxy-groups"]))
    (.text "invalid Mihomo metadata field")
  let (outbounds, groups) ← groupsOf U model pdg mihomo outbounds schema
  let proxyProviders ← mihomoField mihomo "proxy-providers"
  let ruleProviders ← mihomoField mihomo "rule-providers"
  let advanced ← mihomoField mihomo "advanced"
  let managedFiles ← mihomoField mihomo "managed-files"
  let (outbounds, groups, m, route) ← canonicalizeUserNames U outbounds groups
    ⟨proxyProviders, ruleProviders, advanced, managedFiles⟩ route
  return .obj (((Dict.set fields "outbounds" (.arr outbounds)).set "_pdg"
    (metaJson (.arr groups) m)).set "route" (.obj route))

/-- `migrate`, with the limits of the interpreter. -/
def migrateOn (S : Stack) (U : Unicode) (model : Json) : Py ModelError Json := do
  raiseIf (!isDict model) (.text "model root must be an object")
  validateDeclaredSchemaShape model
  let model ← deepcopy S model
  let result ← canonicalized U model
  validateOn S U result
  return result

theorem migrate_eq (U : Unicode) (model : Json) : migrate U model = (do
    raiseIf (!isDict model) (.text "model root must be an object")
    validateDeclaredSchemaShape model
    let result ← canonicalized U model
    validate U result
    return result) := by
  cases model with
  | obj fields =>
      show (validateDeclaredSchemaShape (.obj fields) >>= _) =
        (validateDeclaredSchemaShape (.obj fields) >>= _)
      refine congrArg _ (funext fun _ => ?_)
      unfold canonicalized
      simp only
      cases (Json.obj fields).getD "outbounds" .null with
      | arr outbounds =>
          simp only
          cases (Json.obj fields).getD "route" .null with
          | obj route =>
              simp only [bind_assoc]
              rfl
          | _ => rfl
      | _ => rfl
  | _ => rfl

end ProxyGateway.Schema
