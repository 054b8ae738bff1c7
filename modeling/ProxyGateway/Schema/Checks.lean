import ProxyGateway.Schema.Committer

set_option autoImplicit false

/-!
# ProxyGateway.Schema.Checks

The checks that both gates make on single values accept the same values: safe values, the
advanced fields, providers with their paths, embedded files and policy groups. The one check
on which they differ is that of an outbound whose `_pdg_mihomo` is null
(`proxyMetaSafe_iff`).
-/

namespace ProxyGateway.Schema

variable {H : Host} {kind : ProviderKind} {value provider group outbound : Json}
  {depth budget budget' : Nat}

/-! ### Safe values -/

mutual

theorem safeAdvanced_eq (value : Json) (depth budget : Nat) :
    safeAdvanced value depth budget = validateSafeValue value depth budget := by
  rw [safeAdvanced.eq_def, validateSafeValue.eq_def]
  by_cases hd : depth > 12
  · simp [hd]
  by_cases hb : budget + 1 > 4096
  · simp [hb]
  simp only [hd, hb, or_self, if_false]
  cases value with
  | arr xs => exact safeAdvancedItems_eq xs (depth + 1) (budget + 1)
  | obj kvs => exact safeAdvancedFields_eq kvs (depth + 1) (budget + 1)
  | float v => cases v <;> rfl
  | _ => rfl

theorem safeAdvancedItems_eq (xs : List Json) (depth budget : Nat) :
    safeAdvancedItems xs depth budget = validateSafeItems xs depth budget := by
  cases xs with
  | nil => rfl
  | cons x xs =>
      rw [safeAdvancedItems, validateSafeItems, safeAdvanced_eq x depth budget]
      congr 1
      funext b
      exact safeAdvancedItems_eq xs depth b

theorem safeAdvancedFields_eq (kvs : List (String × Json)) (depth budget : Nat) :
    safeAdvancedFields kvs depth budget = validateSafeFields kvs depth budget := by
  cases kvs with
  | nil => rfl
  | cons p kvs =>
      obtain ⟨key, x⟩ := p
      have hkey : (key ≠ "") = (0 < key.length) := by
        simp [Nat.pos_iff_ne_zero]
      rw [safeAdvancedFields, validateSafeFields, safeAdvanced_eq x depth budget]
      have hrest : safeAdvancedFields kvs depth = validateSafeFields kvs depth := by
        funext b
        exact safeAdvancedFields_eq kvs depth b
      simp only [hkey, hrest, Bool.decide_and]

end

mutual

theorem validateProxyAdvanced_eq_ok (value : Json) (depth budget budget' : Nat) :
    validateProxyAdvanced value depth budget = .ok budget' ↔
      validateSafeValue value depth budget = some budget' := by
  rw [validateProxyAdvanced.eq_def, validateSafeValue.eq_def]
  by_cases hd : depth > 12
  · simp [hd]
  by_cases hb : budget + 1 > 4096
  · simp [hd, hb]
  simp only [hd, hb, or_self, if_false]
  cases value with
  | arr xs => exact validateProxyAdvancedItems_eq_ok xs (depth + 1) (budget + 1) budget'
  | obj kvs => exact validateProxyAdvancedFields_eq_ok kvs (depth + 1) (budget + 1) budget'
  | float v => cases v <;> simp
  | str s => by_cases h : (decide (s.length ≤ 16384) && !hasNul s) = true <;> simp [h]
  | _ => simp

theorem validateProxyAdvancedItems_eq_ok (xs : List Json) (depth budget budget' : Nat) :
    validateProxyAdvancedItems xs depth budget = .ok budget' ↔
      validateSafeItems xs depth budget = some budget' := by
  cases xs with
  | nil => simp [validateProxyAdvancedItems, validateSafeItems]
  | cons x xs =>
      rw [validateProxyAdvancedItems, validateSafeItems, Py.bind_eq_ok, Option.bind_eq_some_iff]
      exact exists_congr fun b => and_congr (validateProxyAdvanced_eq_ok x depth budget b)
        (validateProxyAdvancedItems_eq_ok xs depth b budget')

theorem validateProxyAdvancedFields_eq_ok (kvs : List (String × Json))
    (depth budget budget' : Nat) :
    validateProxyAdvancedFields kvs depth budget = .ok budget' ↔
      validateSafeFields kvs depth budget = some budget' := by
  cases kvs with
  | nil => simp [validateProxyAdvancedFields, validateSafeFields]
  | cons p kvs =>
      obtain ⟨key, x⟩ := p
      rw [validateProxyAdvancedFields, validateSafeFields, raiseIf_bind_eq_ok, Py.bind_eq_ok]
      have hrest : (∃ b, validateProxyAdvanced x depth budget = .ok b ∧
          validateProxyAdvancedFields kvs depth b = .ok budget') ↔
          (validateSafeValue x depth budget).bind (validateSafeFields kvs depth) =
            some budget' := by
        rw [Option.bind_eq_some_iff]
        exact exists_congr fun b => and_congr (validateProxyAdvanced_eq_ok x depth budget b)
          (validateProxyAdvancedFields_eq_ok kvs depth b budget')
      rw [hrest]
      by_cases hkey : key = ""
      · simp [hkey]
      by_cases hlen : key.length > 128
      · simp [hlen, Nat.not_le.mpr hlen]
      have hpos : 0 < key.length := Nat.pos_of_ne_zero (by simpa using hkey)
      cases hnul : hasNul key <;> simp [hkey, hlen, hpos, Nat.not_lt.mp hlen]

end

/-- An advanced map that both gates find safe. -/
theorem validateProxyAdvanced_ok_iff :
    (∃ b, validateProxyAdvanced value 0 0 = .ok b) ↔ (safeAdvanced value 0 0).isNone = false := by
  rw [safeAdvanced_eq, Option.isNone_eq_false_iff, Option.isSome_iff_exists]
  exact exists_congr fun b => validateProxyAdvanced_eq_ok value 0 0 b

/-! ### Fields with few values -/

theorem raiseIf_not_within {names : List String} {message : String} :
    ((value.within names : Py String Bool) >>= fun isIn => raiseIf (!isIn) message) = .ok () ↔
      value.within (ε := String) names = .ok true := by
  rw [Py.bind_eq_ok]
  simp

theorem validateChoice_eq_ok {key : String} {allowed : List String} {message : String} :
    validateChoice value key allowed message = .ok () ↔ choiceIn value key allowed = .ok true := by
  cases h : value.get? key with
  | none => simp [choiceIn, validateChoice, h]
  | some v => simp only [choiceIn, validateChoice, h, raiseIf_not_within]

theorem httpUrl_eq : httpUrl value = validHttpUrl value := by
  cases value <;> rfl

theorem schemaFields_eq : schemaFields kind = providerFields kind := by
  cases kind <;> rfl

/-! ### Outbounds -/

/-- The advanced fields of a proxy. -/
theorem advanced_iff {advanced : Dict String Json} {refusal : String} :
    (raiseIf ((Dict.keys advanced).any (· ∈ blockedAdvanced) ||
        (safeAdvanced (.obj advanced) 0 0).isNone ||
        (Dict.get? advanced "udp").any (!isBool ·)) refusal >>= fun _ =>
      choiceIn (.obj advanced) "packet-encoding" ["packetaddr", "xudp"] >>= fun isIn =>
        raiseIf (!isIn) refusal) = .ok () ↔
    (raiseIf ((Dict.keys advanced).any (· ∈ proxyAdvancedBlocked))
        "per-proxy Mihomo metadata overrides a canonical field" >>= fun _ =>
      validateProxyAdvanced (.obj advanced) 0 0 >>= fun _ => validateRuntimeProxy advanced) =
        .ok () := by
  have hblocked : blockedAdvanced = proxyAdvancedBlocked := rfl
  have hchoice : (choiceIn (.obj advanced) "packet-encoding" ["packetaddr", "xudp"] >>=
      fun isIn => raiseIf (!isIn) refusal) = .ok () ↔
      choiceIn (.obj advanced) "packet-encoding" ["packetaddr", "xudp"] = .ok true := by
    rw [Py.bind_eq_ok]
    simp
  rw [raiseIf_bind_eq_ok, hchoice, raiseIf_bind_eq_ok, Py.bind_eq_ok, exists_and_right,
    validateProxyAdvanced_ok_iff, validateRuntimeProxy, raiseIf_bind_eq_ok, hblocked,
    validateChoice_eq_ok]
  simp only [Bool.or_eq_false_iff, and_assoc]

theorem proxyMetaSafe_iff :
    proxyMetaSafe outbound = .ok () ↔
      checkProxyMeta outbound = .ok () ∧ outbound.get? "_pdg_mihomo" ≠ some .null := by
  cases h : outbound.get? "_pdg_mihomo" with
  | none => simp [proxyMetaSafe, checkProxyMeta, Json.getD, h]
  | some proxyMeta =>
      cases proxyMeta with
      | null =>
          -- the importer takes a null for no metadata, the committer for bad metadata
          simp [proxyMetaSafe, checkProxyMeta, Json.getD, h, isDict]
      | obj fields =>
          simp only [proxyMetaSafe, checkProxyMeta, h, Json.getD, Option.getD_some]
          rw [raiseIf_bind_eq_ok, raiseIf_bind_eq_ok, Bool.or_comm]
          cases ((Json.obj fields).get? "advanced").getD .null with
          | obj advanced =>
              simp only
              rw [advanced_iff]
              simp
          | _ => simp
      | _ => simp [proxyMetaSafe, checkProxyMeta, Json.getD, h, isDict]

/-! ### Providers -/

theorem any_not {p : Json → Bool} (o : Option Json) : o.any (fun x => !p x) = !o.all p := by
  cases o <;> simp

/-- `if bad: return False` in front of the rest of a test. -/
theorem returnIf_eq_ok {ε : Type} {bad : Bool} {rest : Py ε Bool} :
    (if bad = true then pure false else rest) = .ok true ↔ bad = false ∧ rest = .ok true := by
  cases bad <;> simp

theorem health_eq : healthSchema value = !badHealth value := by
  simp [healthSchema, badHealth, providerHealthFields, any_not, httpUrl_eq]

theorem override_iff (kind : ProviderKind) :
    nullOr overrideSchema value = true ↔ validateOverride kind value = .ok () := by
  by_cases h : value = .null
  · simp [nullOr, validateOverride, h]
  · simp [nullOr, validateOverride, h, overrideSchema, providerOverrideFields, any_not, and_assoc]

theorem nullOr_eq (test : Json → Bool) (value : Json) :
    nullOr test value = !(decide (value ≠ .null) && !test value) := by
  by_cases h : value = .null <;> simp [nullOr, h]

/-- A choice in front of the rest of a test. -/
theorem choiceIn_then {key : String} {allowed : List String} {rest : Py String Bool} :
    (choiceIn value key allowed >>= fun isIn => if (!isIn) = true then pure false else rest) =
        .ok true ↔
      choiceIn value key allowed = .ok true ∧ rest = .ok true := by
  rw [Py.bind_eq_ok]
  constructor
  · intro h
    obtain ⟨isIn, hin, h⟩ := h
    rw [returnIf_eq_ok, Bool.not_eq_false'] at h
    exact ⟨h.1 ▸ hin, h.2⟩
  · intro h
    exact ⟨true, h.1, by simpa using h.2⟩

theorem providerSchema_iff :
    providerSchema kind provider = .ok true ↔ validateProviderSchema kind provider = .ok () := by
  simp only [providerSchema, validateProviderSchema, returnIf_eq_ok, choiceIn_then,
    Py.unit_bind_eq_ok, raiseIf_eq_ok, schemaFields_eq, Bool.not_eq_false', override_iff kind,
    validateChoice_eq_ok]
  simp [nullOr_eq, health_eq, or_iff_not_imp_left]

/-- A test whose failure raises, in front of the rest. -/
theorem require_bind_eq_ok {ε α : Type} {test : Py ε Bool} {refusal : ε} {rest : Py ε α} {a : α} :
    (test >>= fun isIn => raiseIf (!isIn) refusal >>= fun _ => rest) = .ok a ↔
      test = .ok true ∧ rest = .ok a := by
  rw [Py.bind_eq_ok]
  simp

theorem within_eq_ok {names : List String} :
    value.within (ε := String) names = .ok true ↔ ∃ s ∈ names, value = .str s := by
  cases value <;> simp [Json.within]

/-- A path that is no text leads nowhere. -/
theorem pathLeaf_other {path : Json} {leaf : Option String} (hs : path.str? = none)
    (h : pathLeaf path = .ok leaf) : leaf = none := by
  cases path with
  | str s => simp [Json.str?] at hs
  | _ =>
      simp only [pathLeaf] at h
      split at h
      · simp at h
      · simpa using h.symm

/-- Both gates ask for a known source, a managed path and, for a local file, no URL; for a
remote one, an URL, the path that its name digests to, and no embedded file at that path. -/
theorem providerClosed_iff {m : MihomoMeta} {name : String} {leaves : List String} :
    providerClosed H m.managedFiles kind name provider = .ok leaves ↔
      nativeProvider H m kind name provider = .ok leaves := by
  unfold providerClosed nativeProvider
  rw [raiseIf_bind_eq_ok, raiseIf_bind_eq_ok, require_bind_eq_ok, Py.unit_bind_eq_ok,
    providerSchema_iff, safeAdvanced_eq]
  refine and_congr_right fun _ => and_congr_right fun _ => ?_
  generalize provider.getD "type" (.str "http") = typ
  generalize provider.getD "path" .null = path
  cases hstr : path.str? with
  | none =>
      -- the committer reads the path first, the importer the source
      refine iff_of_false (fun h => ?_) (fun h => ?_)
      · obtain ⟨leaf, hleaf, h⟩ := Py.bind_eq_ok.mp h
        rw [pathLeaf_other hstr hleaf] at h
        simp at h
      · obtain ⟨isKnown, -, h⟩ := Py.bind_eq_ok.mp h
        cases path <;> simp [Json.str?] at hstr h
  | some text =>
      obtain rfl : path = .str text := by cases path <;> simp_all [Json.str?]
      cases hleaf : providerLeaf text with
      | none => simp [pathLeaf, hleaf, Py.bind_eq_ok]
      | some leaf =>
          by_cases hfile : typ = .str "file"
          · simp [pathLeaf, hleaf, hfile, Json.within, and_assoc]
          by_cases hhttp : typ = .str "http"
          · simp [pathLeaf, hleaf, hhttp, Json.within, and_assoc, and_left_comm, httpUrl_eq]
          · -- a source that is neither is refused, or cannot be looked up in a set
            have hnone : typ.within (ε := String) ["http", "file"] ≠ .ok true := by
              intro h
              obtain ⟨s, hs, rfl⟩ := within_eq_ok.mp h
              simp_all
            simp [pathLeaf, hleaf, hfile, hhttp, hnone, Py.bind_eq_ok]

theorem groupSchema_iff :
    groupSchema group = .ok true ↔ validateGroupSchema group = .ok () := by
  unfold groupSchema validateGroupSchema
  by_cases hhash : (group.getD "type" .null).hashable = true
  · cases (group.getD "type" .null).str?.bind groupFields with
    | none => simp [hhash]
    | some allowed =>
        simp only [hhash, Bool.not_true, Bool.false_eq_true, if_false, returnIf_eq_ok,
          Py.unit_bind_eq_ok, raiseIf_eq_ok, validateChoice_eq_ok, Option.all_some, httpUrl_eq]
  · simp [hhash]

/-! ### Embedded files -/

theorem managedSize_iff {leaf : String} {n : Nat} :
    managedSize H leaf value = .ok n ↔ managedFileSize H leaf value = .ok n := by
  cases value with
  | str text =>
      simp only [managedSize, managedFileSize, Json.str?, Option.bind_some,
        maxManagedFile, maxArchiveFile]
      cases H.b64decode text with
      | none => simp
      | some raw => simp
  | _ => simp [managedSize, managedFileSize, Json.str?]

end ProxyGateway.Schema
