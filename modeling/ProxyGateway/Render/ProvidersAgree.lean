import ProxyGateway.Render.RuleProviders
import ProxyGateway.Schema.Validated

set_option autoImplicit false

/-!
# ProxyGateway.Render.ProvidersAgree

When the Bot renders the rule-providers that the verifier expects. The two agree on which
entries are passed over, on the URL, the format and the recorded behavior. They differ in the
path of a name that is no plain leaf, which the Bot writes as it stands and the verifier
replaces by a digest, and in the file from which an unrecorded behavior is read, which is the
live one for the Bot and the staged one for the verifier (`Alike`).
-/

namespace ProxyGateway.Render

open Schema

variable {S : Site} {targets : Dict String (Option Bytes)} {rulesets : RulesetMeta}
  {name stem url behavior format : String} {info u : Json}

/-! ### Single entries -/

/-- The condition on an entry: if it is rendered, its name is a plain leaf, and if it is an
MRS file without a recorded behavior, the Bot reads the one that the file in force has. -/
def Alike (S : Site) (targets : Dict String (Option Bytes)) (name : String) (info : Json) : Prop :=
  S.kindOf info ≠ none → legacySafeLeaf name = true ∧
    (S.kindOf info = some .mrs → S.recordedBehavior info ∉ mrsBehaviors →
      mrsBehaviorOfFile S (info.getD "path" .null) =
        (rulesetSource S targets (basename ((info.getD "path" .null).str?.getD ""))).bind
          (fun data => (mrsValidationHead S data).bind behaviorOf))

theorem rulesetCacheStem_cases {H : Host} (h : rulesetCacheStem H name = some stem) :
    name.length ≤ nameMaxCodepoints ∧
      stem = if legacySafeLeaf name = true then name else "u-" ++ H.shaText name := by
  unfold rulesetCacheStem at h
  split at h
  next canonical hnorm =>
    by_cases hname : canonical = name
    · subst hname
      refine ⟨normalizeName_length hnorm, ?_⟩
      by_cases hsafe : legacySafeLeaf canonical = true <;> simpa [hsafe] using h.symm
    · simp [hname] at h
  next => simp at h

/-- The digest in a cache path is longer than a name. -/
theorem stem_eq_name_iff {H : Host} (hsha : ∀ data, (H.sha256 data).length = 64)
    (h : rulesetCacheStem H name = some stem) : stem = name ↔ legacySafeLeaf name = true := by
  obtain ⟨hlen, rfl⟩ := rulesetCacheStem_cases h
  by_cases hsafe : legacySafeLeaf name = true
  · simp [hsafe]
  · rw [if_neg hsafe]
    refine iff_of_false (fun he => ?_) hsafe
    have hlong := congrArg String.length he
    rw [String.length_append, Host.shaText, hsha] at hlong
    have hprefix : "u-".length = 2 := by decide
    rw [nameMaxCodepoints] at hlen
    omega

theorem provider_inj {stem' behavior' : String} :
    provider u behavior format stem = provider u behavior' format stem' ↔
      behavior = behavior' ∧ stem = stem' := by
  simp [provider]

theorem mrsSource_cases {data : Bytes} {sniffed : Option String}
    (h : mrsSource S targets info = .ok (data, sniffed)) :
    (rulesetSource S targets (basename ((info.getD "path" .null).str?.getD ""))).bind
      (fun data => (mrsValidationHead S data).bind behaviorOf) = sniffed := by
  unfold mrsSource at h
  split at h
  next path hpath =>
    obtain ⟨-, h⟩ := raiseIf_bind_eq_ok.mp h
    split at h
    next source hsource =>
      obtain ⟨-, h⟩ := raiseIf_bind_eq_ok.mp h
      split at h
      next head hhead =>
        obtain ⟨-, h⟩ := raiseIf_bind_eq_ok.mp h
        have hpath' : (info.getD "path" .null).str?.getD "" = path := by
          unfold Json.getD at hpath ⊢
          cases hg : info.get? "path" with
          | none =>
              rw [hg, Option.getD_none] at hpath
              obtain rfl := Json.str.inj hpath
              rfl
          | some value =>
              rw [hg, Option.getD_some] at hpath
              rw [Option.getD_some, hpath]
              rfl
        rw [hpath', hsource, Option.bind_some, hhead, Option.bind_some]
        exact (Prod.mk.inj (Py.pure_eq_ok.mp h)).2
      next => simp at h
    next => simp at h
  next => simp at h

/-- An MRS file without a recorded behavior is rendered as the verifier expects exactly if the
Bot reads the behavior that the verifier has read. -/
theorem sniffed_iff {read : Option String} (hb : behavior ∈ mrsBehaviors) :
    (if read.getD "" ∈ mrsBehaviors then some (read.getD "", "mrs") else none).map
        (fun ruleset => provider u ruleset.1 ruleset.2 name) =
      some (provider u behavior "mrs" stem) ↔ stem = name ∧ read = some behavior := by
  have hempty : "" ∉ mrsBehaviors := by decide
  cases read with
  | none => simp [hempty]
  | some b =>
      by_cases hmem : b ∈ mrsBehaviors
      · simp [hmem, provider_inj, and_comm, eq_comm]
      · have hne : b ≠ behavior := fun he => hmem (he ▸ hb)
        simp [hmem, hne]

/-- For an entry that the verifier accepts, the Bot renders what the verifier expects exactly
if the entry meets the condition. -/
theorem entry_iff (hsha : ∀ data, (S.host.sha256 data).length = 64)
    {expected : Option (Json × Option Bytes)}
    (h : expectedProvider S targets name info = .ok expected) :
    generatedProvider S name info = expected.map Prod.fst ↔ Alike S targets name info := by
  rw [expectedProvider, raiseIf_bind_eq_ok] at h
  obtain ⟨-, h⟩ := h
  split at h
  next stem hstem =>
    have hname := stem_eq_name_iff hsha hstem
    obtain ⟨-, h⟩ := raiseIf_bind_eq_ok.mp h
    unfold generatedProvider mihomoRuleset Alike
    cases hkind : S.kindOf info with
    | none =>
        rw [hkind] at h
        obtain rfl := Py.pure_eq_ok.mp h
        simp
    | some kind =>
        rw [hkind] at h
        cases kind with
        | yaml =>
            obtain rfl := Py.pure_eq_ok.mp h
            simp [provider_inj, ← hname, eq_comm]
        | text =>
            obtain rfl := Py.pure_eq_ok.mp h
            simp [provider_inj, ← hname, eq_comm]
        | mrs =>
            obtain ⟨⟨data, sniffed⟩, hsource, h⟩ := Py.bind_eq_ok.mp h
            obtain ⟨hbehavior, h⟩ := raiseIf_bind_eq_ok.mp h
            obtain rfl := Py.pure_eq_ok.mp h
            rw [decide_eq_false_iff_not, not_or, not_not, not_not] at hbehavior
            rw [mrsSource_cases hsource]
            by_cases hrecorded : S.recordedBehavior info ∈ mrsBehaviors
            · simp [hrecorded, provider_inj, ← hname, eq_comm]
            · simp only [hrecorded, if_false] at hbehavior ⊢
              rw [← hbehavior.2]
              simpa [← hname] using sniffed_iff hbehavior.1
  next => simp at h

/-! ### All entries -/

/-- What the verifier expects for an entry that it accepts. -/
def accepted (S : Site) (targets : Dict String (Option Bytes)) (name : String) (info : Json) :
    Option Json :=
  match expectedProvider S targets name info with
  | .ok expected => expected.map Prod.fst
  | .error _ => none

/-- The expected providers are those of the entries, each of which is accepted. -/
theorem pdgMihomoRuleProviders_cases {expected : Dict String Json} {probes : Dict String Bytes}
    (h : pdgMihomoRuleProviders S targets rulesets = .ok (expected, probes)) :
    (∀ entry ∈ rulesets.entries, ∃ e, expectedProvider S targets entry.1 entry.2 = .ok e) ∧
      expected = rulesets.entries.filterMap
        (fun entry => (accepted S targets entry.1 entry.2).map (fun p => (entry.1, p))) := by
  obtain ⟨founds, hfounds, hpure⟩ := Py.bind_eq_ok.mp h
  obtain ⟨rfl, -⟩ := Prod.mk.inj (Py.pure_eq_ok.mp hpure)
  have hall := Py.mapM_forall₂ hfounds
  clear hfounds hpure h
  generalize rulesets.entries = entries at hall ⊢
  induction hall with
  | nil => simp
  | @cons entry found entries founds hentry _ ih =>
      obtain ⟨e, he, hfound⟩ := Py.bind_eq_ok.mp hentry
      obtain rfl := Py.pure_eq_ok.mp hfound
      refine ⟨List.forall_mem_cons.mpr ⟨⟨e, he⟩, ih.1⟩, ?_⟩
      have hhead : accepted S targets entry.1 entry.2 = e.map Prod.fst := by
        rw [accepted, he]
      cases e with
      | none => simpa [hhead] using ih.2
      | some e => simpa [hhead] using ih.2

/-- Each single provider is the expected one exactly if its entry meets the condition. -/
theorem generated_iff {expected : Dict String Json} {probes : Dict String Bytes}
    (hsha : ∀ data, (S.host.sha256 data).length = 64)
    (h : pdgMihomoRuleProviders S targets rulesets = .ok (expected, probes))
    (hget : rulesets.entries.get? name = some info) :
    (generatedRuleProviders S rulesets).get? name = expected.get? name ↔
      Alike S targets name info := by
  obtain ⟨hok, rfl⟩ := pdgMihomoRuleProviders_cases h
  obtain ⟨e, he⟩ := hok _ (Dict.mem_of_get? hget)
  rw [generatedRuleProviders, rulesets.uniq.get?_filterMap (generatedProvider S),
    rulesets.uniq.get?_filterMap (accepted S targets), hget, Option.bind_some, Option.bind_some,
    ← entry_iff hsha he, accepted, he]

theorem normalizeName_of_stem {H : Host} (h : rulesetCacheStem H name = some stem) :
    normalizeName H.unicode (.str name) "ruleset provider name" = .ok name := by
  unfold rulesetCacheStem at h
  split at h
  next canonical hnorm =>
    by_cases hname : canonical = name
    · rw [hnorm, hname]
    · simp [hname] at h
  next => simp at h

theorem mem_canonical {H : Host} {names canonical : List String}
    (h : names.mapM (fun name => normalizeName H.unicode (.str name) "ruleset provider name") =
      .ok canonical)
    (hname : name ∈ names) (hstem : rulesetCacheStem H name = some stem) : name ∈ canonical := by
  have hall := Py.mapM_forall₂ h
  clear h
  induction hall with
  | nil => simp at hname
  | @cons first c names canonical hc _ ih =>
      rcases List.mem_cons.mp hname with rfl | hname
      · rw [normalizeName_of_stem hstem] at hc
        cases hc
        exact List.mem_cons_self
      · exact List.mem_cons_of_mem _ (ih hname)

/-- The name of a ruleset is none of the imported ones. -/
theorem importedRuleProviders_get? {model sb : Json} {names : List String}
    (hspace : validateRulesetNamespace S.host.unicode model names = .ok ())
    (hmigrate : migrate S.host.unicode model = .ok sb) (hname : name ∈ names)
    (hstem : rulesetCacheStem S.host name = some stem) :
    (importedRuleProviders sb).get? name = none := by
  obtain ⟨canonical, hcanonical, h⟩ := Py.bind_eq_ok.mp hspace
  obtain ⟨-, h⟩ := raiseIf_bind_eq_ok.mp h
  obtain ⟨occupied, hoccupied, h⟩ := Py.bind_eq_ok.mp h
  have hfree := raiseIf_eq_ok.mp h
  rw [modelNamespace, hmigrate, Py.ok_bind] at hoccupied
  obtain rfl := Py.pure_eq_ok.mp hoccupied
  have hcollide : (canonical.filter (· ∈ outboundTags (outboundsOf sb) ++
      groupNames (policyGroups sb) ++ mihomoKeys sb "proxy-providers" ++
        mihomoKeys sb "rule-providers" ++ reservedTargets)) = [] := by
    simpa [← List.length_eq_zero_iff, List.length_insertionSort] using hfree
  have hnot : name ∉ mihomoKeys sb "rule-providers" := by
    have := List.filter_eq_nil_iff.mp hcollide name (mem_canonical hcanonical hname hstem)
    simp_all
  rw [Dict.get?_eq_none_iff]
  refine fun hmem => hnot ?_
  rw [importedRuleProviders, Dict.keys, List.map_map] at hmem
  obtain ⟨entry, hentry, rfl⟩ := List.mem_map.mp hmem
  exact List.mem_map.mpr ⟨entry, List.mem_of_mem_filter hentry, rfl⟩

/-- Every accepted entry has a cache path. -/
theorem expectedProvider_stem {e : Option (Json × Option Bytes)}
    (h : expectedProvider S targets name info = .ok e) :
    ∃ stem, rulesetCacheStem S.host name = some stem := by
  rw [expectedProvider, raiseIf_bind_eq_ok] at h
  obtain ⟨-, h⟩ := h
  split at h
  next stem hstem => exact ⟨stem, hstem⟩
  next => simp at h

theorem expectedProvider_none (h : expectedProvider S targets name info = .ok none) :
    S.kindOf info = none := by
  rw [expectedProvider, raiseIf_bind_eq_ok] at h
  obtain ⟨-, h⟩ := h
  split at h
  next stem hstem =>
    obtain ⟨-, h⟩ := raiseIf_bind_eq_ok.mp h
    cases hkind : S.kindOf info with
    | none => rfl
    | some kind =>
        rw [hkind] at h
        cases kind with
        | yaml => simp at h
        | text => simp at h
        | mrs =>
            obtain ⟨_, -, h⟩ := Py.bind_eq_ok.mp h
            simp at h
  next => simp at h

/-- **Renderer and verifier.** For rulesets whose names are free in the model and for which the
verifier has an expectation, the Bot renders exactly the expected providers if and only if every
entry meets the condition, and the verifier accepts the rendered configuration in no other
case. -/
theorem providers_agree_iff {model sb : Json} {expected : Dict String Json}
    {probes : Dict String Bytes} (hsha : ∀ data, (S.host.sha256 data).length = 64)
    (hspace : validateRulesetNamespace S.host.unicode model rulesets.entries.keys = .ok ())
    (hmigrate : migrate S.host.unicode model = .ok sb)
    (hexpected : pdgMihomoRuleProviders S targets rulesets = .ok (expected, probes)) :
    (generatedRuleProviders S rulesets = expected ↔
        ∀ entry ∈ rulesets.entries, Alike S targets entry.1 entry.2) ∧
      (providersAccepted expected (combinedRuleProviders S sb rulesets) = true ↔
        ∀ entry ∈ rulesets.entries, Alike S targets entry.1 entry.2) := by
  obtain ⟨hok, hexp⟩ := pdgMihomoRuleProviders_cases hexpected
  have hsame : generatedRuleProviders S rulesets = expected ↔
      ∀ entry ∈ rulesets.entries, Alike S targets entry.1 entry.2 := by
    constructor
    · intro heq entry hentry
      rw [← generated_iff hsha hexpected (rulesets.uniq.get?_of_mem hentry), heq]
    · intro halike
      rw [hexp, generatedRuleProviders]
      refine List.filterMap_congr (fun entry hentry => ?_)
      obtain ⟨e, he⟩ := hok entry hentry
      rw [(entry_iff hsha he).mpr (halike entry hentry), accepted, he]
  refine ⟨hsame, ?_⟩
  have huniq : (generatedRuleProviders S rulesets).Uniq :=
    rulesets.uniq.filterMap (generatedProvider S)
  have hcombined (name : String) : (combinedRuleProviders S sb rulesets).get? name =
      ((generatedRuleProviders S rulesets).get? name).or ((importedRuleProviders sb).get? name) :=
    huniq.get?_update _ name
  constructor
  · intro hacc entry hentry
    obtain ⟨e, he⟩ := hok entry hentry
    cases e with
    | none => exact fun hkind => absurd (expectedProvider_none he) hkind
    | some e =>
        -- the provider is no imported one, so it is the generated one that is compared
        have hget := rulesets.uniq.get?_of_mem hentry
        obtain ⟨stem, hstem⟩ := expectedProvider_stem he
        have himported := importedRuleProviders_get? hspace hmigrate
          (Dict.mem_keys_of_get? hget) hstem
        have hfound : expected.get? entry.1 = some e.1 := by
          rw [hexp, rulesets.uniq.get?_filterMap (accepted S targets), hget, Option.bind_some,
            accepted, he]
          rfl
        have hthere := List.all_eq_true.mp hacc _ (Dict.mem_of_get? hfound)
        rw [decide_eq_true_iff, hcombined, himported, Option.or_none] at hthere
        rw [← generated_iff hsha hexpected hget, hthere, hfound]
  · intro halike
    refine List.all_eq_true.mpr (fun e hmem => ?_)
    rw [hsame.mpr halike] at hcombined huniq
    rw [decide_eq_true_iff, hcombined, huniq.get?_of_mem hmem, Option.some_or]

/-! ### Two rulesets -/

/-- A canonical document with a direct outbound. -/
def directDocument : Json :=
  .obj [
    ("outbounds", .arr [.obj [("type", .str "direct"), ("tag", .str "JP")]]),
    ("route", .obj [("final", .str "JP")]),
    ("_pdg", metaJson (.arr []) ⟨[], [], [], []⟩)]

/-- One ruleset with a list of rules. -/
def oneRuleset (name : String) : RulesetMeta where
  entries := [(name, .obj [("url", .str "https://a.example/r.list"), ("outbound", .str "JP")])]
  uniq := List.nodup_singleton _

theorem plainSite_sha256 (data : ByteArray) : (plainSite.host.sha256 data).length = 64 := by
  have h : (String.ofList (List.replicate 64 '0')).length = 64 := by decide
  exact h

/-- A name that is a plain leaf. -/
theorem providers_agree_ads :
    ∃ expected, pdgMihomoRuleProviders plainSite [] (oneRuleset "ads") = .ok (expected, []) ∧
      expected.keys = ["ads"] ∧
      (generatedRuleProviders plainSite (oneRuleset "ads") = expected ↔
        ∀ entry ∈ (oneRuleset "ads").entries, Alike plainSite [] entry.1 entry.2) := by
  have hspace : validateRulesetNamespace plainSite.host.unicode directDocument
      (oneRuleset "ads").entries.keys = .ok () := by decide +kernel
  have hmigrate : migrate plainSite.host.unicode directDocument = .ok directDocument := by
    decide +kernel
  have hexpected : pdgMihomoRuleProviders plainSite [] (oneRuleset "ads") =
      .ok (generatedRuleProviders plainSite (oneRuleset "ads"), []) := by decide +kernel
  have hkeys : (generatedRuleProviders plainSite (oneRuleset "ads")).keys = ["ads"] := by
    decide +kernel
  exact ⟨_, hexpected, hkeys,
    (providers_agree_iff plainSite_sha256 hspace hmigrate hexpected).1⟩

/-- A name of two characters that is none: the verifier refuses what the Bot renders. -/
theorem chinese_name_refused :
    validateRulesetNamespace plainSite.host.unicode directDocument
        (oneRuleset "测试").entries.keys = .ok () ∧
      migrate plainSite.host.unicode directDocument = .ok directDocument ∧
      ∃ expected, pdgMihomoRuleProviders plainSite [] (oneRuleset "测试") = .ok (expected, []) ∧
        generatedRuleProviders plainSite (oneRuleset "测试") ≠ expected ∧
        providersAccepted expected
          (combinedRuleProviders plainSite directDocument (oneRuleset "测试")) = false := by
  refine ⟨by decide +kernel, by decide +kernel, _, rfl, ?_⟩
  decide +kernel

end ProxyGateway.Render
