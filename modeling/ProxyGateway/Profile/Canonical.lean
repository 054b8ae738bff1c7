import ProxyGateway.Profile.Written

set_option autoImplicit false

/-!
# ProxyGateway.Profile.Canonical

The normal form of a profile. What `resolve` returns depends on the managed entries only, not on their
order (`resolve_rearranged`), and with the lines of `profile_lines` in place of its own data plane the
profile resolves to the same value (`canonical_round_trip`).
-/

namespace ProxyGateway.Profile

open Text Render Py

variable {call : Call} {path name value : String} {text raw : List Char} {values values' : Dict String String}
  {lines lines' : List (List Char)} {platform : Platform} {plane : DataPlane} {config : Config} {n : Nat}

/-! ### What a data plane is once it was read -/

/-- What the checks on the data plane leave. -/
structure Sound (plane : DataPlane) : Prop where
  tls : Ports plane.tlsPorts
  http : Ports plane.httpPorts
  apart : plane.tlsPorts.filter (· ∈ plane.httpPorts) = []
  mark : 1 ≤ plane.mark ∧ plane.mark ≤ 0xffffffff
  mask : 1 ≤ plane.mask ∧ plane.mask ≤ 0xffffffff
  masked : plane.mark &&& plane.mask = plane.mark
  routeTable : 1 ≤ plane.routeTable ∧ plane.routeTable ≤ 0xffffffff ∧ plane.routeTable ∉ [253, 254, 255]
  rulePriority : 1 ≤ plane.rulePriority ∧ plane.rulePriority ≤ 0xffffffff

theorem mark_range (h : mark value name = .ok n) : 1 ≤ n ∧ n ≤ 0xffffffff := by
  obtain ⟨number, -, h⟩ := bind_eq_ok.mp h
  rw [raiseIf_bind_eq_ok, Bool.or_eq_false_iff, decide_eq_false_iff_not, decide_eq_false_iff_not, pure_eq_ok] at h
  obtain ⟨⟨hlow, hhigh⟩, rfl⟩ := h
  omega

theorem uint_range {maximum : Nat} {forbidden : List Nat} (h : uint value name maximum forbidden = .ok n) :
    1 ≤ n ∧ n ≤ maximum ∧ n ∉ forbidden := by
  unfold uint at h
  rw [raiseIf_bind_eq_ok] at h
  obtain ⟨-, h⟩ := h
  obtain ⟨number, -, h⟩ := bind_eq_ok.mp h
  rw [raiseIf_bind_eq_ok, Bool.or_eq_false_iff, Bool.or_eq_false_iff, decide_eq_false_iff_not, decide_eq_false_iff_not,
    decide_eq_false_iff_not, pure_eq_ok] at h
  obtain ⟨⟨⟨hlow, hhigh⟩, hallowed⟩, rfl⟩ := h
  exact ⟨by omega, by omega, hallowed⟩

/-- What is read for each key of the data plane, and the checks on it. -/
structure PlaneRead (values environ : Dict String String) (platform : Platform) (plane : DataPlane) : Prop where
  quicMode : parseQuicMode (envOrProfile "PDG_QUIC_MODE" values environ (.str "tproxy")) = .ok plane.quicMode
  tls : parsePortList (envOrProfile "PDG_HIJACK_TLS_TCP_PORTS" values environ (portsJson (defaultTlsPorts platform)))
    "PDG_HIJACK_TLS_TCP_PORTS" = .ok plane.tlsPorts
  http : parsePortList (envOrProfile "PDG_HIJACK_HTTP_TCP_PORTS" values environ (portsJson [80]))
    "PDG_HIJACK_HTTP_TCP_PORTS" = .ok plane.httpPorts
  apart : plane.tlsPorts.filter (· ∈ plane.httpPorts) = []
  mark : mark (textOr "PDG_QUIC_MARK" values environ (hexText 0x504447)) "PDG_QUIC_MARK" = .ok plane.mark
  mask : Profile.mark (textOr "PDG_QUIC_MARK_MASK" values environ (hexText 0xffffffff)) "PDG_QUIC_MARK_MASK" = .ok plane.mask
  masked : plane.mark &&& plane.mask = plane.mark
  routeTable : uint (textOr "PDG_QUIC_ROUTE_TABLE" values environ "7895") "PDG_QUIC_ROUTE_TABLE" 0xffffffff [253, 254, 255] =
    .ok plane.routeTable
  rulePriority : uint (textOr "PDG_QUIC_RULE_PRIORITY" values environ "17895") "PDG_QUIC_RULE_PRIORITY" 0xffffffff [] =
    .ok plane.rulePriority

theorem dataPlane_eq_ok {environ : Dict String String} :
    dataPlane values environ platform = .ok plane ↔ PlaneRead values environ platform plane := by
  constructor
  · intro h
    obtain ⟨quicMode, hquic, h⟩ := bind_eq_ok.mp h
    obtain ⟨tlsPorts, htls, h⟩ := bind_eq_ok.mp h
    obtain ⟨httpPorts, hhttp, h⟩ := bind_eq_ok.mp h
    rw [raiseIf_bind_eq_ok] at h
    obtain ⟨hapart, h⟩ := h
    obtain ⟨fwmark, hmark, h⟩ := bind_eq_ok.mp h
    obtain ⟨mask, hmask, h⟩ := bind_eq_ok.mp h
    rw [raiseIf_bind_eq_ok] at h
    obtain ⟨hmasked, h⟩ := h
    obtain ⟨routeTable, htable, h⟩ := bind_eq_ok.mp h
    obtain ⟨rulePriority, hpriority, h⟩ := bind_eq_ok.mp h
    obtain rfl := pure_eq_ok.mp h
    exact ⟨hquic, htls, hhttp, by simpa using hapart, hmark, hmask, by simpa using hmasked, htable, hpriority⟩
  · intro h
    have hapart : decide (plane.tlsPorts.filter (· ∈ plane.httpPorts) ≠ []) = false := by simpa using h.apart
    have hmasked : decide (plane.mark &&& plane.mask ≠ plane.mark) = false := by simpa using h.masked
    rw [dataPlane, h.quicMode, ok_bind, h.tls, ok_bind, h.http, ok_bind]
    simp only [raiseIf_bind_eq_ok, hapart, true_and, h.mark, h.mask, ok_bind, hmasked, h.routeTable, h.rulePriority]
    rfl

theorem sound_of_dataPlane {environ : Dict String String} (h : dataPlane values environ platform = .ok plane) : Sound plane := by
  have hread := dataPlane_eq_ok.mp h
  have hrange := uint_range hread.rulePriority
  exact
    { tls := parsePortList_ports hread.tls
      http := parsePortList_ports hread.http
      apart := hread.apart
      mark := mark_range hread.mark
      mask := mark_range hread.mask
      masked := hread.masked
      routeTable := uint_range hread.routeTable
      rulePriority := ⟨hrange.1, hrange.2.1⟩ }

/-- The texts of the data plane, by key. -/
def planeTexts (plane : DataPlane) : Dict String String :=
  [("PDG_QUIC_MODE", plane.quicMode.name), ("PDG_HIJACK_TLS_TCP_PORTS", portsText plane.tlsPorts),
    ("PDG_HIJACK_HTTP_TCP_PORTS", portsText plane.httpPorts), ("PDG_QUIC_MARK", hexText plane.mark),
    ("PDG_QUIC_MARK_MASK", hexText plane.mask), ("PDG_QUIC_ROUTE_TABLE", decimalText plane.routeTable),
    ("PDG_QUIC_RULE_PRIORITY", decimalText plane.rulePriority)]

theorem envOrProfile_of_get? {default : Json} (h : values.get? name = some value) :
    envOrProfile name values [] default = .str value := by
  rw [envOrProfile, h]
  rfl

theorem textOr_of_get? {default : String} (h : values.get? name = some value) : textOr name values [] default = value := by
  rw [textOr, h]
  rfl

theorem parseQuicMode_name (mode : QuicMode) : parseQuicMode (.str mode.name) = .ok mode := by
  cases mode <;> rfl

/-- The texts of a data plane are read as this data plane. -/
theorem dataPlane_planeTexts (hsound : Sound plane) (h : ∀ key ∈ dataKeys, values.get? key = (planeTexts plane).get? key) :
    dataPlane values [] platform = .ok plane := by
  have htext : ∀ p ∈ planeTexts plane, values.get? p.1 = some p.2 := by
    intro p hp
    have huniq : Dict.Uniq (planeTexts plane) := by
      show dataKeys.Nodup
      decide
    have hkey : p.1 ∈ dataKeys := List.mem_map_of_mem hp (f := Prod.fst)
    rw [h p.1 hkey, huniq.get?_of_mem hp]
  simp only [planeTexts, List.forall_mem_cons] at htext
  obtain ⟨hquic, htls, hhttp, hmark, hmask, htable, hpriority, -⟩ := htext
  refine dataPlane_eq_ok.mpr ⟨?_, ?_, ?_, hsound.apart, ?_, ?_, hsound.masked, ?_, ?_⟩
  · rw [envOrProfile_of_get? hquic, parseQuicMode_name]
  · rw [envOrProfile_of_get? htls, parsePortList_portsText hsound.tls]
  · rw [envOrProfile_of_get? hhttp, parsePortList_portsText hsound.http]
  · rw [textOr_of_get? hmark, mark_hexText hsound.mark.1 hsound.mark.2]
  · rw [textOr_of_get? hmask, mark_hexText hsound.mask.1 hsound.mask.2]
  · rw [textOr_of_get? htable,
      uint_decimalText hsound.routeTable.1 hsound.routeTable.2.1 (Nat.le_refl _) hsound.routeTable.2.2]
  · rw [textOr_of_get? hpriority,
      uint_decimalText hsound.rulePriority.1 hsound.rulePriority.2 (Nat.le_refl _) List.not_mem_nil]

/-! ### The entries decide -/

/-- What `resolve` checks, one after the other. -/
structure Resolved (call : Call) (values : Dict String String) (config : Config) : Prop where
  platform : choosePlatform call values = .ok config.platform
  plane : dataPlane values call.environ config.platform = .ok config.plane
  sshPort : chooseSshPort call values = .ok config.sshPort
  free : conflicts config.tcpPorts ((localPorts config.platform config.plane.quicMode config.sshPort).map Prod.fst) = []
  unoccupied : conflicts config.tcpPorts call.occupied = []
  cidr : chooseCidr call values = .ok config.internalCidr
  firewall : chooseFirewallMode values = .ok config.firewallMode

theorem resolveValues_eq_ok : resolveValues call values = .ok config ↔ Resolved call values config := by
  constructor
  · intro h
    obtain ⟨platform, hplatform, h⟩ := bind_eq_ok.mp h
    obtain ⟨plane, hplane, h⟩ := bind_eq_ok.mp h
    obtain ⟨sshPort, hssh, h⟩ := bind_eq_ok.mp h
    simp only [raiseIf_bind_eq_ok, decide_eq_false_iff_not, ne_eq, not_not] at h
    obtain ⟨hfree, hunoccupied, h⟩ := h
    obtain ⟨internalCidr, hcidr, h⟩ := bind_eq_ok.mp h
    obtain ⟨firewallMode, hfirewall, h⟩ := bind_eq_ok.mp h
    obtain rfl := pure_eq_ok.mp h
    exact ⟨hplatform, hplane, hssh, hfree, hunoccupied, hcidr, hfirewall⟩
  · intro h
    have hfree := h.free
    have hunoccupied := h.unoccupied
    rw [Config.tcpPorts] at hfree hunoccupied
    rw [resolveValues, h.platform, ok_bind, h.plane, ok_bind, h.sshPort, ok_bind]
    simp only [raiseIf_bind_eq_ok, decide_eq_false_iff_not, ne_eq, not_not, hfree, hunoccupied, true_and, h.cidr,
      h.firewall, ok_bind, pure_eq_ok]

/-- What does not belong to the data plane is read by key. -/
theorem others_congr (call : Call) (h : ∀ key ∈ ["PDG_FIREWALL_MODE", "PDG_INTERNAL_CIDR", "PDG_SSH_PORT"], values'.get? key = values.get? key) :
    chooseSshPort call values' = chooseSshPort call values ∧ chooseCidr call values' = chooseCidr call values ∧
      chooseFirewallMode values' = chooseFirewallMode values := by
  simp only [List.forall_mem_cons] at h
  obtain ⟨hfirewall, hcidr, hssh, -⟩ := h
  have hsame : sameSshPort values' = sameSshPort values := by
    funext port
    rw [sameSshPort, sameSshPort, hssh]
  refine ⟨?_, ?_, ?_⟩
  · simp only [chooseSshPort, textOr, hssh, hsame]
    rfl
  · simp only [chooseCidr, hcidr]
  · simp only [chooseFirewallMode, hfirewall]

/-- The values of `MODE_KEYS` decide what does not belong to the data plane. -/
theorem modes_congr (call : Call) (h : ∀ key ∈ modeKeys, values'.get? key = values.get? key) :
    choosePlatform call values' = choosePlatform call values ∧ chooseSshPort call values' = chooseSshPort call values ∧
      chooseCidr call values' = chooseCidr call values ∧ chooseFirewallMode values' = chooseFirewallMode values := by
  have hothers : ∀ key ∈ ["PDG_FIREWALL_MODE", "PDG_INTERNAL_CIDR", "PDG_SSH_PORT"], key ∈ modeKeys := by decide
  have hplatform := h "PDG_PLATFORM" (by decide)
  refine ⟨?_, others_congr call fun key hkey => h key (hothers key hkey)⟩
  simp only [choosePlatform, textOr, hplatform]

/-- With other texts for the data plane the same values are found. -/
theorem resolved_of_modes (hresolved : Resolved call values config) (h : ∀ key ∈ modeKeys, values'.get? key = values.get? key)
    (hplane : dataPlane values' call.environ config.platform = .ok config.plane) : Resolved call values' config := by
  obtain ⟨hplatform, hssh, hcidr, hfirewall⟩ := modes_congr call h
  exact ⟨hplatform.trans hresolved.platform, hplane, hssh.trans hresolved.sshPort, hresolved.free, hresolved.unoccupied,
    hcidr.trans hresolved.cidr, hfirewall.trans hresolved.firewall⟩

/-- The data plane is read by key. -/
theorem dataPlane_congr {environ : Dict String String} (h : ∀ key, values'.get? key = values.get? key) :
    dataPlane values' environ platform = dataPlane values environ platform := by
  simp only [dataPlane, envOrProfile, textOr, h]

/-! ### Lines in another order -/

/-- Does `read_values` read something in the line? -/
def isManaged (raw : List Char) : Bool := lineKind raw ≠ .other

/-- The managed lines are the same, up to their order. -/
def Rearranged (lines lines' : List (List Char)) : Prop := (lines'.filter isManaged).Perm (lines.filter isManaged)

theorem mem_filter_isManaged {p : List Char → Prop} (hother : ∀ raw, lineKind raw = .other → p raw) :
    (∀ raw ∈ lines, p raw) ↔ ∀ raw ∈ lines.filter isManaged, p raw := by
  constructor
  · exact fun h raw hraw => h raw (List.mem_filter.mp hraw).1
  · intro h raw hraw
    by_cases hkind : lineKind raw = .other
    · exact hother raw hkind
    · exact h raw (List.mem_filter.mpr ⟨hraw, decide_eq_true hkind⟩)

theorem entries_filter_isManaged (lines : List (List Char)) : entries (lines.filter isManaged) = entries lines := by
  rw [entries, entries, List.filterMap_filter]
  refine List.filterMap_congr fun raw _ => ?_
  rw [isManaged, entryOf]
  cases lineKind raw <;> rfl

/-- Lines that were rearranged are as well formed, and have the same entries. -/
theorem wellFormed_rearranged (h : Rearranged lines lines') (hformed : WellFormed lines) :
    WellFormed lines' ∧ ∀ key, (entries lines').get? key = (entries lines).get? key := by
  have hentries : (entries lines').Perm (entries lines) := by
    rw [← entries_filter_isManaged lines, ← entries_filter_isManaged lines']
    exact h.filterMap entryOf
  have huniq : Dict.Uniq (entries lines') := (hentries.map Prod.fst).nodup_iff.mpr hformed.uniq
  refine ⟨⟨?_, huniq⟩, fun key => ?_⟩
  · have hall := hformed.formed
    have hother : ∀ raw, lineKind raw = .other → ∀ key, lineKind raw ≠ .malformed key := by
      intro raw hkind key hmalformed
      rw [hkind] at hmalformed
      cases hmalformed
    rw [mem_filter_isManaged hother] at hall ⊢
    exact fun raw hraw => hall raw (h.subset hraw)
  · cases hget : (entries lines).get? key with
    | some value => exact huniq.get?_of_mem (hentries.symm.subset (Dict.mem_of_get? hget))
    | none =>
        rw [Dict.get?_eq_none_iff] at hget ⊢
        exact fun hin => hget ((hentries.map Prod.fst).subset hin)

/-- Order, comments and unmanaged keys do not matter. -/
theorem resolve_rearranged {text' : List Char} (h : resolve call path text = .ok config)
    (hrearranged : Rearranged (splitlines text) (splitlines text')) : resolve call path text' = .ok config := by
  obtain ⟨values, hvalues, hresolve⟩ := bind_eq_ok.mp h
  obtain ⟨hformed, rfl⟩ := readValues_eq_ok.mp hvalues
  obtain ⟨hformed', hget⟩ := wellFormed_rearranged hrearranged hformed
  have hresolved := resolveValues_eq_ok.mp hresolve
  rw [resolve, readValues_eq_ok.mpr ⟨hformed', rfl⟩, ok_bind]
  refine resolveValues_eq_ok.mpr (resolved_of_modes hresolved (fun key _ => hget key) ?_)
  rw [dataPlane_congr hget]
  exact hresolved.plane

/-! ### The canonical lines -/

/-- Does the line set a value of the data plane? -/
def isDataLine (raw : List Char) : Bool := (entryOf raw).any (fun entry => entry.1 ∈ dataKeys)

/-- The lines without the data plane, and the lines of `profile_lines`. -/
def canonicalLines (lines : List (List Char)) (config : Config) : List (List Char) :=
  lines.filter (fun raw => !isDataLine raw) ++ (profileLines config).map String.toList

def canonicalText (text : List Char) (config : Config) : List Char :=
  (canonicalLines (splitlines text) config).flatMap (· ++ ['\n'])

/-- The line of an entry. -/
def entryLine (entry : String × String) : List Char := entry.1.toList ++ '=' :: entry.2.toList

theorem profileLines_eq (config : Config) : (profileLines config).map String.toList = (planeTexts config.plane).map entryLine := by
  simp [profileLines, planeTexts, entryLine, String.toList_append]

theorem managedKey_plain {key : String} (h : key ∈ managedKeys) : keyShape key.toList = true ∧ '=' ∉ key.toList ∧
    (∀ c ∈ key.toList, isSpace c = false) ∧ key.toList.head? ≠ some '#' ∧ key.toList ≠ [] := by
  have hall : ∀ key ∈ managedKeys, keyShape key.toList = true ∧ '=' ∉ key.toList ∧
      key.toList.all (fun c => !isSpace c) = true ∧ key.toList.head? ≠ some '#' ∧ key.toList ≠ [] := by decide
  obtain ⟨hshape, hequals, hspace, hhead, hne⟩ := hall key h
  exact ⟨hshape, hequals, fun c hc => by simpa using List.all_eq_true.mp hspace c hc, hhead, hne⟩

theorem managedKey_front {key : String} (h : key ∈ managedKeys) : ∀ c ∈ key.toList, decide (c ≠ '=') = true := by
  intro c hc
  rw [decide_eq_true_eq]
  rintro rfl
  exact (managedKey_plain h).2.1 hc

/-- A line that begins with a managed key and `=`. -/
theorem lineKind_of_strip {key : String} {back : List Char} (hkey : key ∈ managedKeys)
    (hstrip : strip raw = key.toList ++ '=' :: back) (hlstrip : (key.toList ++ ['=']).isPrefixOf (lstrip raw) = true) :
    lineKind raw = .entry key (String.ofList (strip back)) := by
  obtain ⟨hshape, hequals, hspace, hhead, hne⟩ := managedKey_plain hkey
  have hsplit : splitEquals (key.toList ++ '=' :: back) = some (key.toList, back) := by
    have hfront := managedKey_front hkey
    rw [splitEquals, if_pos (by simp), List.takeWhile_append_of_pos hfront, List.dropWhile_append_of_pos hfront]
    simp
  have hfull : ¬(key.toList ++ '=' :: back = [] ∨ (key.toList ++ '=' :: back).head? = some '#') := by
    rw [List.head?_append_of_ne_nil _ hne, not_or]
    exact ⟨by simp, hhead⟩
  rw [lineKind, hstrip]
  simp only [if_neg hfull, hsplit, assignment, strip_eq_self hspace, String.ofList_toList, hkey, not_true_eq_false,
    if_false, hshape, hlstrip]
  rfl

/-- A line with a managed key and a value without blanks is read as this entry. -/
theorem lineKind_entryLine {entry : String × String} (hkey : entry.1 ∈ managedKeys)
    (hvalue : ∀ c ∈ entry.2.toList, isSpace c = false) : lineKind (entryLine entry) = .entry entry.1 entry.2 := by
  obtain ⟨key, value⟩ := entry
  have hsolid : ∀ c ∈ entryLine (key, value), isSpace c = false := by
    intro c hc
    rcases List.mem_append.mp hc with hc | hc
    · exact (managedKey_plain hkey).2.2.1 c hc
    · rcases List.mem_cons.mp hc with rfl | hc
      · decide
      · exact hvalue c hc
  have hprefix : (key.toList ++ ['=']).isPrefixOf (lstrip (entryLine (key, value))) = true := by
    rw [lstrip, dropWhile_isSpace hsolid]
    exact List.isPrefixOf_iff_prefix.mpr ⟨value.toList, by simp [entryLine]⟩
  have hkind := lineKind_of_strip hkey (strip_eq_self hsolid) hprefix
  rwa [strip_eq_self hvalue, String.ofList_toList] at hkind

theorem entryOf_entryLine {entry : String × String} (hkey : entry.1 ∈ managedKeys)
    (hvalue : ∀ c ∈ entry.2.toList, isSpace c = false) : entryOf (entryLine entry) = some entry := by
  rw [entryOf, lineKind_entryLine hkey hvalue]

/-- The texts of a data plane have no blanks. -/
theorem planeTexts_solid : ∀ entry ∈ planeTexts plane, entry.1 ∈ managedKeys ∧ ∀ c ∈ entry.2.toList, isSpace c = false := by
  have hdecimal : ∀ n c, c ∈ (decimalText n).toList → isSpace c = false := by
    intro n c hc
    rw [decimalText, String.toList_ofList] at hc
    exact space_of_isDigit (isDigit_toDigits hc)
  have hhex : ∀ n c, c ∈ (hexText n).toList → isSpace c = false := by
    intro n c hc
    rw [hexText, String.toList_ofList] at hc
    rcases List.mem_cons.mp hc with rfl | hc
    · decide
    · rcases List.mem_cons.mp hc with rfl | hc
      · decide
      · obtain ⟨d, hd⟩ := hexValue_toDigits hc
        exact space_of_hexValue hd
  have hquic : ∀ c ∈ plane.quicMode.name.toList, isSpace c = false := by
    cases plane.quicMode <;> exact space_of_all (by decide)
  simp only [planeTexts, List.forall_mem_cons]
  exact ⟨⟨by decide, hquic⟩, ⟨by decide, fun _ => space_portsText⟩, ⟨by decide, fun _ => space_portsText⟩,
    ⟨by decide, hhex _⟩, ⟨by decide, hhex _⟩, ⟨by decide, hdecimal _⟩, ⟨by decide, hdecimal _⟩, List.forall_mem_nil _⟩

theorem entries_profileLines (config : Config) :
    entries ((profileLines config).map String.toList) = planeTexts config.plane := by
  rw [profileLines_eq, entries, List.filterMap_map]
  calc (planeTexts config.plane).filterMap (entryOf ∘ entryLine)
      _ = (planeTexts config.plane).filterMap some := List.filterMap_congr fun entry hentry =>
        entryOf_entryLine (planeTexts_solid entry hentry).1 (planeTexts_solid entry hentry).2
      _ = planeTexts config.plane := List.filterMap_some

theorem entries_canonicalLines (lines : List (List Char)) (config : Config) : entries (canonicalLines lines config) =
    (entries lines).filter (fun entry => decide (entry.1 ∉ dataKeys)) ++ planeTexts config.plane := by
  rw [canonicalLines, entries, List.filterMap_append]
  refine congrArg₂ (· ++ ·) ?_ (entries_profileLines config)
  rw [entries, List.filterMap_filter, List.filter_filterMap]
  refine List.filterMap_congr fun raw _ => ?_
  rw [isDataLine]
  cases entryOf raw with
  | none => rfl
  | some entry => by_cases hdata : entry.1 ∈ dataKeys <;> simp [hdata, Option.filter_some]

/-- The canonical lines are well formed and set the data plane as it was, and the other keys as the lines
did. -/
theorem wellFormed_canonicalLines (hformed : WellFormed lines) (config : Config) :
    WellFormed (canonicalLines lines config) ∧
      (∀ key ∈ dataKeys, (entries (canonicalLines lines config)).get? key = (planeTexts config.plane).get? key) ∧
      ∀ key, key ∉ dataKeys → (entries (canonicalLines lines config)).get? key = (entries lines).get? key := by
  have hkeys : Dict.keys (planeTexts config.plane) = dataKeys := rfl
  refine ⟨⟨fun raw hraw key hkind => ?_, ?_⟩, fun key hkey => ?_, fun key hkey => ?_⟩
  · rcases List.mem_append.mp hraw with hraw | hraw
    · exact hformed.formed raw (List.mem_filter.mp hraw).1 key hkind
    · rw [profileLines_eq] at hraw
      obtain ⟨entry, hentry, rfl⟩ := List.mem_map.mp hraw
      rw [lineKind_entryLine (planeTexts_solid entry hentry).1 (planeTexts_solid entry hentry).2] at hkind
      cases hkind
  · rw [entries_canonicalLines, Dict.Uniq, Dict.keys, List.map_append, List.nodup_append]
    refine ⟨(List.filter_sublist.map _).nodup hformed.uniq, ?_, ?_⟩
    · show dataKeys.Nodup
      decide
    · intro key hkey key' hkey' heq
      obtain ⟨entry, hentry, rfl⟩ := List.mem_map.mp hkey
      have hnot := (List.mem_filter.mp hentry).2
      rw [decide_eq_true_eq, heq] at hnot
      exact hnot (hkeys ▸ hkey')
  · have hnone : Dict.get? ((entries lines).filter (fun entry => decide (entry.1 ∉ dataKeys))) key = none := by
      rw [Dict.get?_eq_none_iff]
      intro hin
      obtain ⟨entry, hentry, rfl⟩ := List.mem_map.mp hin
      have hnot := (List.mem_filter.mp hentry).2
      rw [decide_eq_true_eq] at hnot
      exact hnot hkey
    rw [entries_canonicalLines, Dict.get?_append, hnone, Option.none_or]
  · have hnone : Dict.get? (planeTexts config.plane) key = none := Dict.get?_eq_none_iff.mpr (hkeys ▸ hkey)
    rw [entries_canonicalLines, Dict.get?_append, hnone, Option.or_none,
      Dict.get?_filter (fun key => decide (key ∉ dataKeys)) (decide_eq_true hkey)]

/-- The line of an entry has no line break. -/
theorem isLineBreak_entryLine {entry : String × String} (hkey : entry.1 ∈ managedKeys)
    (hvalue : ∀ c ∈ entry.2.toList, isSpace c = false) {c : Char} (hc : c ∈ entryLine entry) : isLineBreak c = false := by
  have hspace : isSpace c = false := by
    rcases List.mem_append.mp hc with hc | hc
    · exact (managedKey_plain hkey).2.2.1 c hc
    · rcases List.mem_cons.mp hc with rfl | hc
      · decide
      · exact hvalue c hc
  by_contra hbreak
  rw [isSpace_of_isLineBreak (by simpa using hbreak)] at hspace
  cases hspace

theorem splitlines_canonicalText (text : List Char) (config : Config) :
    splitlines (canonicalText text config) = canonicalLines (splitlines text) config := by
  refine splitlines_flatMap fun line hline c hc => ?_
  rcases List.mem_append.mp hline with hline | hline
  · exact isLineBreak_of_mem_splitlines (List.mem_filter.mp hline).1 hc
  · rw [profileLines_eq] at hline
    obtain ⟨entry, hentry, rfl⟩ := List.mem_map.mp hline
    obtain ⟨hkey, hvalue⟩ := planeTexts_solid entry hentry
    exact isLineBreak_entryLine hkey hvalue hc

/-- In its canonical form the profile resolves to the same value. -/
theorem resolve_canonicalText (henviron : call.environ = []) (h : resolve call path text = .ok config) :
    resolve call path (canonicalText text config) = .ok config := by
  obtain ⟨values, hvalues, hresolve⟩ := bind_eq_ok.mp h
  obtain ⟨hformed, rfl⟩ := readValues_eq_ok.mp hvalues
  have hresolved := resolveValues_eq_ok.mp hresolve
  obtain ⟨hcanonical, hdata, hother⟩ := wellFormed_canonicalLines hformed config
  rw [resolve, readValues_eq_ok.mpr ⟨splitlines_canonicalText text config ▸ hcanonical, rfl⟩, ok_bind,
    splitlines_canonicalText]
  have hmodes : ∀ key ∈ modeKeys, key ∉ dataKeys := by decide
  refine resolveValues_eq_ok.mpr (resolved_of_modes hresolved (fun key hkey => hother key (hmodes key hkey)) ?_)
  have hsound := hresolved.plane
  rw [henviron] at hsound ⊢
  exact dataPlane_planeTexts (sound_of_dataPlane hsound) hdata

/-- The canonical form resolves to the same value, and so does every text with the same managed lines in
any order, whatever the other lines are. -/
theorem canonical_round_trip (call : Call) (henviron : call.environ = []) (path : String) (text : List Char)
    (config : Config) (h : resolve call path text = .ok config) :
    resolve call path (canonicalText text config) = .ok config ∧
      ∀ text', Rearranged (splitlines text) (splitlines text') → resolve call path text' = .ok config :=
  ⟨resolve_canonicalText henviron h, fun _ => resolve_rearranged h⟩

/-- A call with the default arguments and an empty environment. -/
def plainCall (network : String → Option (Nat × Nat × String)) : Call := ⟨network, none, [], none, []⟩

/-- The data plane of an empty profile. -/
def defaultPlane : DataPlane := ⟨.tproxy, [443, 5228, 5229, 5230], [80], 0x504447, 0xffffffff, 7895, 17895⟩

/-- A profile with a comment, a foreign key and a port list. -/
theorem canonical_round_trip_sample : resolve (plainCall fun _ => none) "profile.env"
    (canonicalText "# mine\nFOO=1\nPDG_HIJACK_HTTP_TCP_PORTS=8080, 80\n".toList
      ⟨.android, none, none, none, { defaultPlane with httpPorts := [80, 8080] }⟩) =
    .ok ⟨.android, none, none, none, { defaultPlane with httpPorts := [80, 8080] }⟩ := by
  have hresolve : resolve (plainCall fun _ => none) "profile.env" "# mine\nFOO=1\nPDG_HIJACK_HTTP_TCP_PORTS=8080, 80\n".toList =
      .ok ⟨.android, none, none, none, { defaultPlane with httpPorts := [80, 8080] }⟩ := by decide +kernel
  exact (canonical_round_trip (plainCall fun _ => none) rfl _ _ _ hresolve).1

end ProxyGateway.Profile
