import ProxyGateway.Pdgtx.Machine
import ProxyGateway.Schema.Committer
import ProxyGateway.Schema.Faults

set_option autoImplicit false

/-!
# ProxyGateway.Schema.Validator

`_v_json_model` on the bytes of a candidate, in an interpreter whose recursion is limited,
with the metadata of the rulesets that `_candidate_ruleset_meta` reads. `vJsonModel` is the
same validator of a document, without a limit.
-/

namespace ProxyGateway.Schema

open Py Json
open Pdgtx (Bytes Name Path Target)

/-- What `open` and `read` make of `rulesets.json` in production. -/
inductive LiveFile where
  | missing | unreadable | bytes (raw : Bytes)

/-- `json.loads(raw.decode("utf-8"))`, with the type of the exception where it raises, and the
file in production. -/
structure Reader where
  loads : Bytes → Except String Json
  live : (Path → Pdgtx.Node) → LiveFile

/-- The mapping in the bytes of a `rulesets.json`. -/
def Reader.mapping (R : Reader) (label : String) (raw : Bytes) : Except String (Dict String Json) :=
  match R.loads raw with
  | .error _ => .error (label ++ " rulesets.json 无法安全解析")
  | .ok (.obj fields) => .ok fields
  | .ok _ => .error (label ++ " rulesets.json 不是映射")

/-- `_candidate_ruleset_meta`. -/
def candidateRulesetMeta (R : Reader) (targets : Dict Name Target) (files : Path → Pdgtx.Node) :
    Except String (Dict String Json) :=
  match targets.get? "rs_meta" with
  | some target => match target.data with
    | none => .ok []
    | some raw =>
        if raw = [] ∨ raw.length > maxManagedFile then .error "候选 rulesets.json 为空或过大"
        else R.mapping "候选" raw
  | none => match R.live files with
    | .missing => .ok []
    | .unreadable => .error "现网 rulesets.json 无法安全解析"
    | .bytes raw =>
        if raw.length > maxManagedFile then .error "现网 rulesets.json 超过受管上限"
        else R.mapping "现网" raw

/-! ### The checks against the rulesets -/

/-- `model_namespace` of the migrated document. -/
def canonicalNamespace (canonical : Json) : List String :=
  outboundTags (outboundsOf canonical) ++ groupNames (policyGroups canonical) ++
    mihomoKeys canonical "proxy-providers" ++ mihomoKeys canonical "rule-providers"

/-- The names of the rulesets, each in its normal form. -/
def rulesetNames (U : Unicode) (names : List String) : Py ModelError (List String) := do
  let canonical ← names.mapM (fun name => normalizeName U (.str name) "ruleset provider name")
  raiseIf (decide (¬ canonical.Nodup))
    (.text "ruleset provider names collide after Unicode normalization")
  return canonical

/-- `validate_ruleset_namespace`, with the limits of the interpreter. -/
def validateRulesetNamespaceOn (S : Stack) (U : Unicode) (model : Json) (names : List String) :
    Py ModelError Unit := do
  let canonical ← rulesetNames U names
  let occupied := canonicalNamespace (← migrateOn S U model) ++ reservedTargets
  let collisions := (canonical.filter (· ∈ occupied)).insertionSort (· ≤ ·)
  raiseIf (!collisions.isEmpty)
    (.text ("ruleset provider names 与 Mihomo 命名空间同名: " ++ String.intercalate ", " collisions))

/-- `routable_tags`, with the limits of the interpreter. -/
def routableTagsOn (S : Stack) (U : Unicode) (model : Json) : Py ModelError (List String) := do
  let canonical ← migrateOn S U model
  let outbounds ← (outboundsOf canonical).filterM (fun item =>
    if isDict item then (item.getD "type" .null).within routableOutboundTypes else .ok false)
  return outboundTags outbounds ++ groupNames (policyGroups canonical)

/-- `rulesetsFit`, with the limits of the interpreter. -/
def rulesetsFitOn (S : Stack) (H : Host) (doc : Json) (ruleMeta : Dict String Json) :
    Py String Unit := do
  checked H "PDG 规则集 provider 命名空间冲突: "
    (validateRulesetNamespaceOn S H.unicode doc ruleMeta.keys)
  let routable ← unchecked (routableTagsOn S H.unicode doc)
  let invalid ← ruleMeta.filterM (fun entry => badRulesetTarget routable entry.2)
  raiseIf (!invalid.isEmpty)
    ("PDG 规则集引用不可路由或不存在的出口: " ++
      String.intercalate ", " ((invalid.map Prod.fst).insertionSort (· ≤ ·)))

/-- The checks of providers and groups in front of `validate`, for a document with the
metadata `m`. -/
def metaParts (H : Host) (data : ModelData) (pdg : Json) (m : MihomoMeta) : Py String Unit := do
  advancedSafe m.advanced
  let sizes ← m.managedFiles.mapM (fun entry => managedSize H entry.1 entry.2)
  raiseIf (decide (data.size + sizes.sum > maxManagedBundle))
    "config.json 与 managed provider 超过可恢复总量"
  let proxy ← m.proxyProviders.mapM
    (fun entry => providerClosed H m.managedFiles .proxy entry.1 entry.2)
  let rule ← m.ruleProviders.mapM
    (fun entry => providerClosed H m.managedFiles .rule entry.1 entry.2)
  raiseIf (!sameSet (proxy.flatten ++ rule.flatten) m.managedFiles.keys)
    "config.json 的 managed provider 引用闭包不完整"
  let .arr groups := pdg.getD "policy-groups" .null
    | Py.raise "config.json 的 policy-groups 类型不合法"
  groups.forM groupSafe

theorem metaFits_eq (H : Host) (ruleMeta : Dict String Json) (data : ModelData) (pdg : Json) :
    metaFits H ruleMeta data pdg = (do
      let m ← metaShape pdg
      metaParts H data pdg m
      checked H "config.json 的 policy-group/路由闭包不合法: " (validate H.unicode data.doc)
      rulesetsFit H data.doc ruleMeta) := by
  unfold metaFits metaParts
  simp only [bind_assoc]
  refine bind_congr fun m => bind_congr fun _ => bind_congr fun _ => bind_congr fun _ =>
    bind_congr fun _ => bind_congr fun _ => bind_congr fun _ => ?_
  cases pdg.getD "policy-groups" .null <;> rfl

/-- `if not ok: return False, error`. -/
def refused {α : Type} (answer : Except String α) : Py String α :=
  match answer with
  | .ok a => .ok a
  | .error e => Py.raise e

theorem refused_eq_ok {α : Type} {answer : Except String α} {a : α} :
    refused answer = .ok a ↔ answer = .ok a := by
  cases answer <;> simp [refused, Py.raise]

/-- The checks on a document with metadata, with the limits of the interpreter. -/
def metaFitsOn (S : Stack) (H : Host) (answer : Except String (Dict String Json))
    (data : ModelData) (pdg : Json) : Py String Unit := do
  let m ← metaShape pdg
  metaParts H data pdg m
  checked H "config.json 的 policy-group/路由闭包不合法: " (validateOn S H.unicode data.doc)
  let ruleMeta ← refused answer
  rulesetsFitOn S H data.doc ruleMeta

/-- `_v_json_model` of the bytes of a candidate. -/
def vJsonModelBytes (S : Stack) (H : Host) (R : Reader) (bytes : Bytes) (targets : Dict Name Target)
    (files : Path → Pdgtx.Node) : Py String Unit := do
  raiseIf (decide (bytes = [] ∨ bytes.length > maxManagedModel))
    "config.json 为空或超过受管模型上限"
  let doc ← refused ((R.loads bytes).mapError ("不是合法 JSON: " ++ ·))
  raiseIf (!isDict doc || (doc.get? "outbounds").isNone || (doc.get? "route").isNone)
    "config.json 缺 outbounds/route, 不像本项目的数据模型"
  (← (doc.getD "outbounds" .null).items).forM proxyMetaSafe
  let pdg := doc.getD "_pdg" .null
  if pdg = .null then return ()
  else metaFitsOn S H (candidateRulesetMeta R targets files) ⟨doc, bytes.length⟩ pdg

end ProxyGateway.Schema
