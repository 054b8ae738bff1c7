import ProxyGateway.Profile.Retarget

set_option autoImplicit false

/-!
# ProxyGateway.Profile.Switch

What `retarget_platform_text` returns, read again and resolved (`retarget_edits`).
-/

namespace ProxyGateway.Profile

open Text Render Py

variable {call : Call} {path : String} {text text' : List Char} {lines : List (List Char)} {target : Platform}
  {port : Nat} {ports : List Nat} {values values' environ : Dict String String} {config config' : Config}
  {plane plane' : DataPlane} {platform : Platform}

/-! ### The ports -/

theorem mem_retargetPorts_ios : port ∈ retargetPorts .ios ports ↔ port ∈ ports ∧ port ∉ gmsPorts := by
  rw [retargetPorts, List.mem_filter, decide_eq_true_eq]

theorem mem_retargetPorts_android : port ∈ retargetPorts .android ports ↔ port ∈ ports ∨ port ∈ gmsPorts := by
  rw [retargetPorts, mem_sortedSet, List.mem_append]

/-- A port of another service stays. -/
theorem mem_retargetPorts (h : port ∈ ports) (hgms : port ∉ gmsPorts) : port ∈ retargetPorts target ports := by
  cases target with
  | ios => exact mem_retargetPorts_ios.mpr ⟨h, hgms⟩
  | android => exact mem_retargetPorts_android.mpr (.inl h)

theorem sortedSet_retargetPorts (h : sortedSet ports = ports) :
    sortedSet (retargetPorts target ports) = retargetPorts target ports := by
  cases target with
  | android => exact sortedSet_sortedSet _
  | ios =>
      have hnodup := sortedSet_nodup ports
      have hsorted := sortedSet_sorted ports
      rw [h] at hnodup hsorted
      exact sortedSet_eq_self (hnodup.filter _) (hsorted.filter _)

theorem ports_retargetPorts (h : Ports ports) (hne : retargetPorts target ports ≠ []) : Ports (retargetPorts target ports) := by
  refine ⟨hne, fun port hport => ?_, sortedSet_retargetPorts h.sorted⟩
  cases target with
  | ios => exact h.range port (mem_retargetPorts_ios.mp hport).1
  | android =>
      rcases mem_retargetPorts_android.mp hport with hport | hgms
      · exact h.range port hport
      · have hall : ∀ port ∈ gmsPorts, 1 ≤ port ∧ port ≤ 65535 := by decide
        exact hall port hgms

theorem retargetPorts_retargetPorts (target : Platform) (ports : List Nat) :
    retargetPorts target (retargetPorts target ports) = retargetPorts target ports := by
  cases target with
  | ios => exact List.filter_eq_self.mpr fun port hport => (List.mem_filter.mp hport).2
  | android =>
      refine (sortedSet_congr fun port => ?_).trans (sortedSet_sortedSet _)
      rw [List.mem_append]
      exact or_iff_left_of_imp fun hgms => mem_retargetPorts_android.mpr (.inr hgms)

/-- Some port is left. -/
theorem retargetPorts_ne_nil (h : ports ≠ []) :
    retargetPorts target ports ≠ [] ↔ ∃ port ∈ ports, target = .ios → port ∉ gmsPorts := by
  cases target with
  | ios =>
      rw [← List.length_pos_iff, List.length_pos_iff_exists_mem]
      simp only [mem_retargetPorts_ios, true_imp_iff]
  | android =>
      obtain ⟨port, hport⟩ := List.exists_mem_of_ne_nil ports h
      exact iff_of_true (List.ne_nil_of_mem (mem_retargetPorts_android.mpr (.inl hport))) ⟨port, hport, nofun⟩

theorem ports_defaultTlsPorts (platform : Platform) : Ports (defaultTlsPorts platform) := by
  cases platform <;> exact ⟨by decide, by decide, by decide⟩

theorem ports_currentTlsPorts (h : currentTlsPorts values target = .ok ports) : Ports ports := by
  rw [currentTlsPorts] at h
  split at h
  · exact parsePortList_ports h
  · cases h
    exact ports_defaultTlsPorts target

/-! ### The text -/

theorem writable_updates (target : Platform) (ports : List Nat) : Writable (updates target ports) := by
  have hname : ∀ c ∈ target.name.toList, isSpace c = false := by
    cases target <;> exact space_of_all (by decide)
  refine ⟨?_, ?_, ?_⟩
  · simp only [updates, List.forall_mem_cons]
    exact ⟨by decide, by decide, List.forall_mem_nil _⟩
  · simp only [updates, List.forall_mem_cons]
    exact ⟨hname, fun _ => space_portsText, List.forall_mem_nil _⟩
  · show ["PDG_PLATFORM", "PDG_HIJACK_TLS_TCP_PORTS"].Nodup
    decide

theorem isLineBreak_rewritten {new : Dict String String} (hnew : Writable new) (huniq : Dict.Uniq (entries lines))
    (hlines : ∀ line ∈ lines, ∀ c ∈ line, isLineBreak c = false) :
    ∀ line ∈ rewritten new lines, ∀ c ∈ line, isLineBreak c = false := by
  rw [rewritten_eq hnew huniq]
  intro line hline c hc
  rcases List.mem_append.mp hline with hline | hline
  · obtain ⟨old, hold, rfl⟩ := List.mem_map.mp hline
    rw [rewriteLine] at hc
    split at hc
    · exact hlines old hold c hc
    · next hget =>
      have hmem := Dict.mem_of_get? hget
      exact isLineBreak_entryLine (hnew.managed _ hmem) (hnew.solid _ hmem) hc
  · obtain ⟨entry, hentry, rfl⟩ := List.mem_map.mp hline
    have hin := (List.mem_filter.mp hentry).1
    exact isLineBreak_entryLine (hnew.managed _ hin) (hnew.solid _ hin) hc

/-- The text that is returned. -/
def retargetText (target : Platform) (ports : List Nat) (lines : List (List Char)) : List Char :=
  joinWith '\n' (rewritten (updates target ports) lines) ++ ['\n']

theorem splitlines_retargetText (huniq : Dict.Uniq (entries lines)) (hlines : ∀ line ∈ lines, ∀ c ∈ line, isLineBreak c = false) :
    splitlines (retargetText target ports lines) = rewritten (updates target ports) lines := by
  have hnew := writable_updates target ports
  have hne : rewritten (updates target ports) lines ≠ [] := by
    rw [rewritten_eq hnew huniq]
    cases lines with
    | nil => exact List.cons_ne_nil _ _
    | cons line lines => exact List.cons_ne_nil _ _
  rw [retargetText, joinWith_concat hne]
  exact splitlines_flatMap (isLineBreak_rewritten hnew huniq hlines)

theorem retarget_eq_ok (hread : readValues path text = .ok values) : retarget path target text = .ok text' ↔
    ∃ ports, currentTlsPorts values target = .ok ports ∧ retargetPorts target ports ≠ [] ∧
      text' = retargetText target (retargetPorts target ports) (splitlines text) := by
  rw [retarget, hread, ok_bind, bind_eq_ok]
  simp only [raiseIf_bind_eq_ok, decide_eq_false_iff_not, pure_eq_ok]
  exact exists_congr fun ports => and_congr_right fun _ => and_congr_right fun _ => eq_comm

/-! ### Resolving it -/

/-- Neither the arguments nor the environment set the platform or the TLS ports. -/
structure Neutral (call : Call) : Prop where
  platform : call.platform = none
  environPlatform : call.environ.get? "PDG_PLATFORM" = none
  environTls : call.environ.get? "PDG_HIJACK_TLS_TCP_PORTS" = none

/-- The value of the profile on the other platform. -/
def switched (config : Config) (target : Platform) : Config :=
  { config with
    platform := target
    plane := { config.plane with tlsPorts := retargetPorts target config.plane.tlsPorts } }

/-- No port that is hijacked on the other platform is in use there. -/
def Portable (call : Call) (config : Config) : Platform → Prop
  | .ios => ∀ port ∈ config.tcpPorts, port ∉ iosLocalPorts.map Prod.fst
  | .android => ∀ port ∈ gmsPorts, port ∉ config.plane.httpPorts ∧ config.sshPort ≠ some port ∧ port ∉ call.occupied

/-- The values differ in the platform and in the TLS ports only. -/
structure Retargeted (values values' : Dict String String) (target : Platform) (ports : List Nat) : Prop where
  platform : values'.get? "PDG_PLATFORM" = some target.name
  tls : values'.get? "PDG_HIJACK_TLS_TCP_PORTS" = some (portsText ports)
  other : ∀ key, key ≠ "PDG_PLATFORM" → key ≠ "PDG_HIJACK_TLS_TCP_PORTS" → values'.get? key = values.get? key

theorem platformOf_name (target : Platform) : platformOf target.name = .ok target := by
  cases target <;> rfl

theorem choosePlatform_retargeted (hcall : Neutral call) (h : Retargeted values values' target ports) :
    choosePlatform call values' = .ok target := by
  rw [choosePlatform, hcall.platform, textOr, hcall.environPlatform, h.platform]
  exact platformOf_name target

/-- The data plane that is read, but for the TLS ports. -/
theorem planeRead_retargeted (htls : environ.get? "PDG_HIJACK_TLS_TCP_PORTS" = none) (hports : Ports ports)
    (h : Retargeted values values' target ports) (hread : PlaneRead values environ platform plane) :
    PlaneRead values' environ target plane' ↔
      plane' = { plane with tlsPorts := ports } ∧ ports.filter (· ∈ plane.httpPorts) = [] := by
  -- all keys but two are read as before
  have hvalue : ∀ name default, name ≠ "PDG_PLATFORM" → name ≠ "PDG_HIJACK_TLS_TCP_PORTS" →
      envOrProfile name values' environ default = envOrProfile name values environ default := by
    intro name default hplatform hother
    rw [envOrProfile, envOrProfile, h.other name hplatform hother]
  have htext : ∀ name default, name ≠ "PDG_PLATFORM" → name ≠ "PDG_HIJACK_TLS_TCP_PORTS" →
      textOr name values' environ default = textOr name values environ default := by
    intro name default hplatform hother
    rw [textOr, textOr, h.other name hplatform hother]
  have hnew : ∀ default, envOrProfile "PDG_HIJACK_TLS_TCP_PORTS" values' environ default = .str (portsText ports) := by
    intro default
    rw [envOrProfile, htls, h.tls]
  have hquic := hvalue "PDG_QUIC_MODE" (.str "tproxy") (by decide) (by decide)
  have hhttp := hvalue "PDG_HIJACK_HTTP_TCP_PORTS" (portsJson [80]) (by decide) (by decide)
  have hmark := htext "PDG_QUIC_MARK" (hexText 0x504447) (by decide) (by decide)
  have hmask := htext "PDG_QUIC_MARK_MASK" (hexText 0xffffffff) (by decide) (by decide)
  have htable := htext "PDG_QUIC_ROUTE_TABLE" "7895" (by decide) (by decide)
  have hpriority := htext "PDG_QUIC_RULE_PRIORITY" "17895" (by decide) (by decide)
  constructor
  · intro hafter
    obtain ⟨quicMode, tlsPorts, httpPorts, fwmark, mask, routeTable, rulePriority⟩ := plane'
    obtain rfl := Except.ok.inj (hafter.quicMode.symm.trans (hquic ▸ hread.quicMode))
    obtain rfl := Except.ok.inj (hafter.http.symm.trans (hhttp ▸ hread.http))
    obtain rfl := Except.ok.inj (hafter.mark.symm.trans (hmark ▸ hread.mark))
    obtain rfl := Except.ok.inj (hafter.mask.symm.trans (hmask ▸ hread.mask))
    obtain rfl := Except.ok.inj (hafter.routeTable.symm.trans (htable ▸ hread.routeTable))
    obtain rfl := Except.ok.inj (hafter.rulePriority.symm.trans (hpriority ▸ hread.rulePriority))
    have hsame := hafter.tls
    rw [hnew, parsePortList_portsText hports] at hsame
    obtain rfl := Except.ok.inj hsame
    exact ⟨rfl, hafter.apart⟩
  · rintro ⟨rfl, hapart⟩
    exact
      { quicMode := hquic ▸ hread.quicMode
        tls := by rw [hnew, parsePortList_portsText hports]
        http := hhttp ▸ hread.http
        apart := hapart
        mark := hmark ▸ hread.mark
        mask := hmask ▸ hread.mask
        masked := hread.masked
        routeTable := htable ▸ hread.routeTable
        rulePriority := hpriority ▸ hread.rulePriority }

theorem conflicts_eq_nil {inUse : List Nat} :
    conflicts ports inUse = [] ↔ ∀ port ∈ ports, port ≠ 80 → port ≠ 443 → port ∉ inUse := by
  simp [conflicts, List.filter_eq_nil_iff]

theorem mem_localPorts {quicMode : QuicMode} {sshPort : Option Nat} :
    port ∈ (localPorts platform quicMode sshPort).map Prod.fst ↔
      sshPort = some port ∨ quicMode = .tproxy ∧ port = 7895 ∨ platform = .ios ∧ port ∈ iosLocalPorts.map Prod.fst ∨
        port ∈ commonLocalPorts.map Prod.fst := by
  unfold localPorts
  simp only [List.map_append, List.mem_append, or_assoc]
  refine or_congr ?_ (or_congr ?_ (or_congr_left ?_))
  · cases sshPort <;> simp [eq_comm]
  · cases quicMode <;> simp
  · cases platform <;> simp

theorem mem_tcpPorts : port ∈ config.tcpPorts ↔ port ∈ config.plane.tlsPorts ∨ port ∈ config.plane.httpPorts := by
  rw [Config.tcpPorts, mem_sortedSet, List.mem_append]

/-- No port is used twice, by the two lists or by what listens. -/
def Free (call : Call) (config : Config) : Prop :=
  (∀ port ∈ config.plane.tlsPorts, port ∉ config.plane.httpPorts) ∧
    ∀ port ∈ config.tcpPorts, port ≠ 80 → port ≠ 443 →
      port ∉ (localPorts config.platform config.plane.quicMode config.sshPort).map Prod.fst ∧ port ∉ call.occupied

theorem free_switched_ios (h : Free call config) :
    Free call (switched config .ios) ↔ ∀ port ∈ config.tcpPorts, port ∉ iosLocalPorts.map Prod.fst := by
  have hios : ∀ port ∈ iosLocalPorts.map Prod.fst, port ∉ gmsPorts ∧ port ≠ 80 ∧ port ≠ 443 := by decide
  have hsub : ∀ port, port ∈ (switched config .ios).tcpPorts → port ∈ config.tcpPorts := by
    intro port hport
    rcases mem_tcpPorts.mp hport with htls | hhttp
    · exact mem_tcpPorts.mpr (.inl (mem_retargetPorts_ios.mp htls).1)
    · exact mem_tcpPorts.mpr (.inr hhttp)
  constructor
  · rintro ⟨-, hfree⟩ port hport hlocal
    obtain ⟨hgms, h80, h443⟩ := hios port hlocal
    have hafter : port ∈ (switched config .ios).tcpPorts := by
      rcases mem_tcpPorts.mp hport with htls | hhttp
      · exact mem_tcpPorts.mpr (.inl (mem_retargetPorts_ios.mpr ⟨htls, hgms⟩))
      · exact mem_tcpPorts.mpr (.inr hhttp)
    exact (hfree port hafter h80 h443).1 (mem_localPorts.mpr (.inr (.inr (.inl ⟨rfl, hlocal⟩))))
  · intro hportable
    refine ⟨fun port hport => h.1 port (mem_retargetPorts_ios.mp hport).1, fun port hport h80 h443 => ?_⟩
    obtain ⟨hlocal, hoccupied⟩ := h.2 port (hsub port hport) h80 h443
    refine ⟨fun hin => hlocal (mem_localPorts.mpr ?_), hoccupied⟩
    rcases mem_localPorts.mp hin with hssh | hquic | ⟨-, hios⟩ | hcommon
    · exact .inl hssh
    · exact .inr (.inl hquic)
    · exact absurd hios (hportable port (hsub port hport))
    · exact .inr (.inr (.inr hcommon))

theorem free_switched_android (h : Free call config) : Free call (switched config .android) ↔
    ∀ port ∈ gmsPorts, port ∉ config.plane.httpPorts ∧ config.sshPort ≠ some port ∧ port ∉ call.occupied := by
  have hgms : ∀ port ∈ gmsPorts, port ≠ 80 ∧ port ≠ 443 ∧ port ≠ 7895 ∧ port ∉ commonLocalPorts.map Prod.fst := by decide
  have hmem : ∀ port, port ∈ (switched config .android).tcpPorts ↔ port ∈ config.tcpPorts ∨ port ∈ gmsPorts := by
    intro port
    rw [mem_tcpPorts, mem_tcpPorts]
    show port ∈ retargetPorts .android config.plane.tlsPorts ∨ _ ↔ _
    rw [mem_retargetPorts_android, or_right_comm]
    rfl
  constructor
  · rintro ⟨hapart, hfree⟩ port hport
    obtain ⟨h80, h443, -, -⟩ := hgms port hport
    obtain ⟨hlocal, hoccupied⟩ := hfree port ((hmem port).mpr (.inr hport)) h80 h443
    exact ⟨hapart port (mem_retargetPorts_android.mpr (.inr hport)), fun hssh => hlocal (mem_localPorts.mpr (.inl hssh)), hoccupied⟩
  · intro hportable
    refine ⟨fun port hport => ?_, fun port hport h80 h443 => ?_⟩
    · rcases mem_retargetPorts_android.mp hport with htls | hnew
      · exact h.1 port htls
      · exact (hportable port hnew).1
    · rcases (hmem port).mp hport with hold | hnew
      · obtain ⟨hlocal, hoccupied⟩ := h.2 port hold h80 h443
        refine ⟨fun hin => hlocal (mem_localPorts.mpr ?_), hoccupied⟩
        exact (mem_localPorts.mp hin).imp_right (Or.imp_right (Or.imp_left fun hios => nomatch hios.1))
      · obtain ⟨-, -, hquic, hcommon⟩ := hgms port hnew
        refine ⟨fun hin => ?_, (hportable port hnew).2.2⟩
        rcases mem_localPorts.mp hin with hssh | ⟨-, h7895⟩ | ⟨hios, -⟩ | hin
        · exact (hportable port hnew).2.1 hssh
        · exact hquic h7895
        · cases hios
        · exact hcommon hin

theorem free_switched (h : Free call config) (target : Platform) :
    Free call (switched config target) ↔ Portable call config target := by
  cases target with
  | ios => exact free_switched_ios h
  | android => exact free_switched_android h

/-- The parts of `Resolved` that look at the ports. -/
theorem free_iff : Free call config ↔ config.plane.tlsPorts.filter (· ∈ config.plane.httpPorts) = [] ∧
    conflicts config.tcpPorts ((localPorts config.platform config.plane.quicMode config.sshPort).map Prod.fst) = [] ∧
      conflicts config.tcpPorts call.occupied = [] := by
  rw [Free, conflicts_eq_nil, conflicts_eq_nil, List.filter_eq_nil_iff]
  simp only [decide_eq_true_eq]
  refine and_congr_right fun _ => ⟨fun h => ⟨fun port hport h80 h443 => (h port hport h80 h443).1,
    fun port hport h80 h443 => (h port hport h80 h443).2⟩, fun h port hport h80 h443 => ?_⟩
  exact ⟨h.1 port hport h80 h443, h.2 port hport h80 h443⟩

theorem resolved_retargeted (hcall : Neutral call) (hports : Ports (retargetPorts target config.plane.tlsPorts))
    (h : Retargeted values values' target (retargetPorts target config.plane.tlsPorts)) (hresolved : Resolved call values config) :
    Resolved call values' config' ↔ Portable call config target ∧ config' = switched config target := by
  have hread := dataPlane_eq_ok.mp hresolved.plane
  have hfree : Free call config := free_iff.mpr ⟨hread.apart, hresolved.free, hresolved.unoccupied⟩
  have hplane : ∀ plane', PlaneRead values' call.environ target plane' ↔
      plane' = (switched config target).plane ∧ (switched config target).plane.tlsPorts.filter (· ∈ config.plane.httpPorts) = [] :=
    fun plane' => planeRead_retargeted hcall.environTls hports h hread
  have hplatform := choosePlatform_retargeted hcall h
  have hsame : ∀ key ∈ ["PDG_FIREWALL_MODE", "PDG_INTERNAL_CIDR", "PDG_SSH_PORT"], values'.get? key = values.get? key := by
    simp only [List.forall_mem_cons]
    exact ⟨h.other _ (by decide) (by decide), h.other _ (by decide) (by decide), h.other _ (by decide) (by decide),
      List.forall_mem_nil _⟩
  obtain ⟨hssh, hcidr, hfirewall⟩ := others_congr call hsame
  rw [hresolved.sshPort] at hssh
  rw [hresolved.cidr] at hcidr
  rw [hresolved.firewall] at hfirewall
  rw [← free_switched hfree target, free_iff]
  constructor
  · intro hafter
    obtain ⟨platform', firewallMode', internalCidr', sshPort', plane'⟩ := config'
    obtain rfl := Except.ok.inj (hplatform.symm.trans hafter.platform)
    obtain rfl := Except.ok.inj (hssh.symm.trans hafter.sshPort)
    obtain rfl := Except.ok.inj (hcidr.symm.trans hafter.cidr)
    obtain rfl := Except.ok.inj (hfirewall.symm.trans hafter.firewall)
    obtain ⟨rfl, hapart⟩ := (hplane plane').mp (dataPlane_eq_ok.mp hafter.plane)
    exact ⟨⟨hapart, hafter.free, hafter.unoccupied⟩, rfl⟩
  · rintro ⟨⟨hapart, hlocal, hoccupied⟩, rfl⟩
    exact ⟨hplatform, dataPlane_eq_ok.mpr ((hplane _).mpr ⟨rfl, hapart⟩), hssh, hlocal, hoccupied, hcidr, hfirewall⟩

/-! ### The edit -/

/-- The text that is returned, read again. -/
theorem read_retargetText (target : Platform) (ports : List Nat) (hread : readValues path text = .ok values) :
    ∃ values', readValues path (retargetText target ports (splitlines text)) = .ok values' ∧ values'.Uniq ∧
      Retargeted values values' target ports := by
  obtain ⟨hformed, rfl⟩ := readValues_eq_ok.mp hread
  have hnew := writable_updates target ports
  obtain ⟨hformed', hget⟩ := wellFormed_rewritten hnew hformed
  have hsplit : splitlines (retargetText target ports (splitlines text)) = rewritten (updates target ports) (splitlines text) :=
    splitlines_retargetText hformed.uniq fun line hline c hc => isLineBreak_of_mem_splitlines hline hc
  refine ⟨entries (rewritten (updates target ports) (splitlines text)), ?_, hformed'.uniq, hget _, hget _, ?_⟩
  · rw [readValues_eq_ok, hsplit]
    exact ⟨hformed', rfl⟩
  · intro key hplatform htls
    have hnone : (updates target ports).get? key = none := by
      rw [updates, Dict.get?_cons_ne hplatform.symm, Dict.get?_cons_ne htls.symm, Dict.get?_nil]
    rw [hget, hnone, Option.none_or]

theorem currentTlsPorts_retargeted (hports : Ports ports) (h : Retargeted values values' target ports) :
    currentTlsPorts values' target = .ok ports := by
  rw [currentTlsPorts, h.tls]
  exact parsePortList_portsText hports

/-- The ports that are changed are those the profile resolves to, or the ones of the other platform. -/
theorem retargetPorts_plane (hcall : Neutral call) (hresolved : Resolved call values config)
    (h : currentTlsPorts values target = .ok ports) :
    retargetPorts target config.plane.tlsPorts = retargetPorts target ports := by
  have htls := (dataPlane_eq_ok.mp hresolved.plane).tls
  rw [envOrProfile, hcall.environTls] at htls
  rw [currentTlsPorts] at h
  cases hget : values.get? "PDG_HIJACK_TLS_TCP_PORTS" with
  | some text =>
      rw [hget] at h htls
      rw [Except.ok.inj (htls.symm.trans h)]
  | none =>
      rw [hget] at h htls
      rw [← Except.ok.inj h, ← Except.ok.inj ((parsePortList_portsJson (ports_defaultTlsPorts _) _).symm.trans htls)]
      cases target <;> cases config.platform <;> decide

/-- Lines that were written for the same ports stay as they are. -/
theorem retargetText_retargetText (hread : readValues path text = .ok values) :
    retargetText target ports (splitlines (retargetText target ports (splitlines text))) =
      retargetText target ports (splitlines text) := by
  obtain ⟨hformed, rfl⟩ := readValues_eq_ok.mp hread
  rw [splitlines_retargetText hformed.uniq fun line hline c hc => isLineBreak_of_mem_splitlines hline hc, retargetText,
    rewritten_rewritten (writable_updates target ports) hformed, retargetText]

/-- A text that is read has its TLS ports and its platform changed, and is refused where the TLS ports do
not parse or none is left. -/
theorem retarget_edits (path : String) (target : Platform) (text : List Char) (values : Dict String String)
    (hread : readValues path text = .ok values) :
    ((∃ text', retarget path target text = .ok text') ↔
      ∃ ports, currentTlsPorts values target = .ok ports ∧ ∃ port ∈ ports, target = .ios → port ∉ gmsPorts) ∧
    ∀ text', retarget path target text = .ok text' →
      (∃ values' ports ports', readValues path text' = .ok values' ∧ values'.Uniq ∧
        currentTlsPorts values target = .ok ports ∧ currentTlsPorts values' target = .ok ports' ∧
        (∀ port ∈ ports, port ∉ gmsPorts → port ∈ ports') ∧ Retargeted values values' target ports') ∧
      retarget path target text' = .ok text' ∧
      ∀ call, Neutral call → ∀ config, resolve call path text = .ok config → ∀ config',
        resolve call path text' = .ok config' ↔ Portable call config target ∧ config' = switched config target := by
  constructor
  · constructor
    · rintro ⟨text', h⟩
      obtain ⟨ports, hports, hne, -⟩ := (retarget_eq_ok hread).mp h
      exact ⟨ports, hports, (retargetPorts_ne_nil (ports_currentTlsPorts hports).nonempty).mp hne⟩
    · rintro ⟨ports, hports, hleft⟩
      have hne := (retargetPorts_ne_nil (ports_currentTlsPorts hports).nonempty).mpr hleft
      exact ⟨_, (retarget_eq_ok hread).mpr ⟨ports, hports, hne, rfl⟩⟩
  · intro text' h
    obtain ⟨ports, hports, hne, rfl⟩ := (retarget_eq_ok hread).mp h
    have hnew := ports_retargetPorts (ports_currentTlsPorts hports) hne
    obtain ⟨values', hread', huniq, hretargeted⟩ :=
      read_retargetText target (retargetPorts target ports) hread
    have hports' := currentTlsPorts_retargeted hnew hretargeted
    refine ⟨⟨values', ports, _, hread', huniq, hports, hports', fun port hport => mem_retargetPorts hport, hretargeted⟩, ?_, ?_⟩
    · refine (retarget_eq_ok hread').mpr ⟨_, hports', ?_, ?_⟩
      · rwa [retargetPorts_retargetPorts]
      · rw [retargetPorts_retargetPorts, retargetText_retargetText hread]
    · intro call hcall config hresolve config'
      rw [resolve, hread, ok_bind, resolveValues_eq_ok] at hresolve
      have hplane := retargetPorts_plane hcall hresolve hports
      rw [resolve, hread', ok_bind, resolveValues_eq_ok]
      rw [← hplane] at hnew hretargeted
      exact resolved_retargeted hcall hnew hretargeted hresolve

/-- A profile with a comment and an own TLS port. -/
theorem retarget_edits_sample : ∃ text', retarget "profile.env" .ios "# mine\nPDG_HIJACK_TLS_TCP_PORTS=443,5228,8444\n".toList =
    .ok text' := by
  have hread : readValues "profile.env" "# mine\nPDG_HIJACK_TLS_TCP_PORTS=443,5228,8444\n".toList =
      .ok [("PDG_HIJACK_TLS_TCP_PORTS", "443,5228,8444")] := by decide +kernel
  exact (retarget_edits _ .ios _ _ hread).1.mpr ⟨[443, 5228, 8444], by decide +kernel, 443, by decide, fun _ => by decide⟩

/-- A profile that hijacks port 81, which the probe of iOS needs. -/
theorem probe_port_refused : ∃ config text',
    resolve (plainCall fun _ => none) "profile.env" "PDG_HIJACK_HTTP_TCP_PORTS=81\n".toList = .ok config ∧
      retarget "profile.env" .ios "PDG_HIJACK_HTTP_TCP_PORTS=81\n".toList = .ok text' ∧
      ∀ config', resolve (plainCall fun _ => none) "profile.env" text' ≠ .ok config' := by
  refine ⟨⟨.android, none, none, none, { defaultPlane with httpPorts := [81] }⟩,
    "PDG_HIJACK_HTTP_TCP_PORTS=81\nPDG_PLATFORM=ios\nPDG_HIJACK_TLS_TCP_PORTS=443\n".toList, by decide +kernel,
    by decide +kernel, ?_⟩
  have hrefused : (resolve (plainCall fun _ => none) "profile.env"
      "PDG_HIJACK_HTTP_TCP_PORTS=81\nPDG_PLATFORM=ios\nPDG_HIJACK_TLS_TCP_PORTS=443\n".toList).toOption = none := by
    decide +kernel
  intro config' h
  rw [h] at hrefused
  cases hrefused

end ProxyGateway.Profile
