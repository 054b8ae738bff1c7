import ProxyGateway.Profile.Modes

set_option autoImplicit false

/-!
# ProxyGateway.Profile.Agreement

The three readers of the firewall mode. The two of the firewall tools agree on everything; `resolve`
takes an empty value for none, and refuses a line whose key is not followed by `=` at once.
-/

namespace ProxyGateway.Profile

open Text Py

variable {state : StateFile} {lines : List (List Char)} {text raw rest : List Char} {mode mode' : FirewallMode}
  {marker : Option FirewallMode} {path key value : String} {values : Dict String String} {call : Call} {config config' : Config}

/-! ### What both firewall tools make of it -/

/-- The state file names this mode, or there is none. -/
inductive Says : StateFile → Option FirewallMode → Prop where
  | absent : Says .absent none
  | text {cs : List Char} {mode : FirewallMode} (h : validMode (strip cs) = some mode) : Says (.text cs) (some mode)

/-- The values of the matched lines say this mode, next to what the state file says. -/
inductive Chosen : Option FirewallMode → List (List Char) → FirewallMode → Prop where
  | none_ : Chosen none [] .managed
  | marker {mode : FirewallMode} : Chosen (some mode) [] mode
  | value {marker : Option FirewallMode} {value : List Char} {mode : FirewallMode}
      (h : validMode (strip value) = some mode) (hsame : ∀ m ∈ marker, m = mode) : Chosen marker [value] mode

/-- The state file and the matched lines can be read, and say this mode. -/
def Readable (state : StateFile) (lines : List (List Char)) (mode : FirewallMode) : Prop :=
  ∃ marker, Says state marker ∧ Chosen marker (lines.filterMap modeMatch) mode

/-- Stripping takes blanks away. -/
theorem mem_dropWhile {c : Char} {cs : List Char} (h : c ∈ cs) (hc : isSpace c = false) : c ∈ cs.dropWhile isSpace := by
  rw [← List.takeWhile_append_dropWhile (p := isSpace) (l := cs), List.mem_append] at h
  rcases h with h | h
  · rw [List.mem_takeWhile_imp h] at hc
    cases hc
  · exact h

theorem mem_strip {c : Char} {cs : List Char} (h : c ∈ cs) (hc : isSpace c = false) : c ∈ strip cs := by
  rw [strip, stripBy_eq, List.rdropWhile, List.mem_reverse]
  exact mem_dropWhile (List.mem_reverse.mpr (mem_dropWhile h hc)) hc

/-- A replacement makes no mode. -/
theorem validMode_replaced {cs : List Char} (h : '\uFFFD' ∈ cs) : validMode (strip cs) = none := by
  have hin : '\uFFFD' ∈ strip cs := mem_strip h (by decide)
  unfold validMode
  rw [if_neg fun heq => absurd (heq ▸ hin) (by decide), if_neg fun heq => absurd (heq ▸ hin) (by decide)]

theorem mergeMarker_eq_ok : mergeMarker state = .ok marker ↔ Says state marker := by
  constructor
  · intro h
    cases state with
    | absent =>
        cases h
        exact .absent
    | unreadable => cases h
    | undecodable cs hreplaced => cases h
    | text cs =>
        simp only [mergeMarker, strictMode] at h
        cases hmode : validMode (strip cs) with
        | none =>
            rw [hmode] at h
            cases h
        | some mode =>
            rw [hmode] at h
            cases h
            exact .text hmode
  · intro h
    cases h with
    | absent => rfl
    | text hmode =>
        rw [mergeMarker, strictMode, hmode]
        rfl

theorem scanMarker_eq_ok : scanMarker state = .ok marker ↔ Says state marker := by
  constructor
  · intro h
    cases state with
    | absent =>
        cases h
        exact .absent
    | unreadable => cases h
    | undecodable cs hreplaced =>
        simp only [scanMarker, validMode_replaced hreplaced] at h
        cases h
    | text cs =>
        unfold scanMarker at h
        cases hmode : validMode (strip cs) with
        | none =>
            simp only [hmode] at h
            cases h
        | some mode =>
            simp only [hmode] at h
            cases h
            exact .text hmode
  · intro h
    cases h with
    | absent => rfl
    | text hmode => simp only [scanMarker, hmode]

theorem strictMode_eq_ok {source : String} : strictMode raw source = .ok mode ↔ validMode (strip raw) = some mode := by
  rw [strictMode]
  cases validMode (strip raw) with
  | none => simp
  | some m => simp

/-- What is made of the matched lines, once the state file is read. -/
theorem chosen_iff {values : List (List Char)} : Chosen marker values mode ↔
    ¬ values.length > 1 ∧ match values.head? with
      | some value => validMode (strip value) = some mode ∧ ∀ m ∈ marker, m = mode
      | none => marker.getD .managed = mode := by
  constructor
  · intro h
    cases h with
    | none_ => exact ⟨by decide, rfl⟩
    | marker => exact ⟨by simp, rfl⟩
    | value h hsame => exact ⟨by simp, h, hsame⟩
  · rintro ⟨hfew, hvalue⟩
    match values, hfew, hvalue with
    | [], _, hvalue =>
        cases marker with
        | none =>
            obtain rfl : FirewallMode.managed = mode := hvalue
            exact .none_
        | some m =>
            obtain rfl : m = mode := hvalue
            exact .marker
    | [value], _, hvalue => exact .value hvalue.1 hvalue.2
    | _ :: _ :: _, hfew, _ => exact absurd (by simp) hfew

theorem mergePersistedMode_eq_ok : mergePersistedMode state text none = .ok mode ↔ Readable state (splitlines text) mode := by
  unfold mergePersistedMode Readable
  simp only [← mergeMarker_eq_ok, chosen_iff]
  cases mergeMarker state with
  | error e => simp [bind, Except.bind]
  | ok marker =>
      by_cases hmany : ((splitlines text).filterMap modeMatch).length > 1
      · simp [bind, Except.bind, hmany, throw, throwThe, MonadExceptOf.throw]
      · cases hhead : ((splitlines text).filterMap modeMatch).head? with
        | none =>
            cases marker <;> simp [bind, Except.bind, hmany, pure, Except.pure]
        | some value =>
            cases marker with
            | none => simp [bind, Except.bind, hmany, strictMode_eq_ok]
            | some m =>
                cases hvalue : validMode (strip value) with
                | none => simp [bind, Except.bind, hmany, strictMode, hvalue]
                | some mode' =>
                    by_cases hsame : m = mode'
                    · simp [bind, Except.bind, hmany, strictMode, hvalue, hsame, pure, Except.pure]
                    · have hother : mode' = mode → m ≠ mode := fun heq => heq ▸ hsame
                      simpa [bind, Except.bind, hmany, strictMode, hvalue, hsame, throw, throwThe, MonadExceptOf.throw]
                        using hother

theorem scanPersistedMode_eq_ok : scanPersistedMode state text = .ok mode ↔ Readable state (splitlines text) mode := by
  unfold scanPersistedMode Readable
  simp only [← scanMarker_eq_ok, chosen_iff]
  cases scanMarker state with
  | error e => simp [bind, Except.bind]
  | ok marker =>
      by_cases hmany : ((splitlines text).filterMap modeMatch).length > 1
      · simp [bind, Except.bind, hmany, throw, throwThe, MonadExceptOf.throw]
      · cases hhead : ((splitlines text).filterMap modeMatch).head? with
        | none => simp [bind, Except.bind, hmany, pure, Except.pure]
        | some value =>
            cases hvalue : validMode (strip value) with
            | none => simp [bind, Except.bind, hmany, hvalue, throw, throwThe, MonadExceptOf.throw]
            | some mode' =>
                cases marker with
                | none => simp [bind, Except.bind, hmany, hvalue, pure, Except.pure]
                | some m =>
                    by_cases hsame : m = mode'
                    · simp [bind, Except.bind, hmany, hvalue, hsame, pure, Except.pure]
                    · have hother : mode' = mode → m ≠ mode := fun heq => heq ▸ hsame
                      simpa [bind, Except.bind, hmany, hvalue, hsame, throw, throwThe, MonadExceptOf.throw] using hother

/-! ### The lines of the mode -/

/-- Blanks at the end are stripped once. -/
theorem strip_rdropWhile (cs : List Char) : strip (cs.rdropWhile isSpace) = strip cs := by
  obtain ⟨tail, htail, hspace⟩ : ∃ tail, cs.rdropWhile isSpace ++ tail = cs ∧ ∀ c ∈ tail, isSpace c = true :=
    ⟨cs.rtakeWhile isSpace, List.rdropWhile_append_rtakeWhile, fun c hc => List.mem_rtakeWhile_imp hc⟩
  have hfront : ∀ front : List Char, (front ++ tail).rdropWhile isSpace = front.rdropWhile isSpace := by
    intro front
    rw [List.rdropWhile, List.reverse_append, List.dropWhile_append_of_pos fun c hc => hspace c (List.mem_reverse.mp hc)]
    rfl
  rw [strip, stripBy_eq, strip, stripBy_eq]
  conv_rhs => rw [← htail, List.dropWhile_append]
  split
  next hempty =>
    have hnil : tail.dropWhile isSpace = [] := List.dropWhile_eq_nil_iff.mpr hspace
    rw [List.isEmpty_iff.mp hempty, hnil]
  · exact (hfront _).symm

theorem modeMatch_eq_some : modeMatch raw = some rest ↔ lstrip raw = modeKey.toList ++ '=' :: rest := by
  unfold modeMatch
  constructor
  · intro h
    split at h
    next hprefix =>
      cases h
      obtain ⟨back, hback⟩ := List.isPrefixOf_iff_prefix.mp hprefix
      rw [← hback, List.append_assoc, List.singleton_append]
      rfl
    · cases h
  · intro h
    have hprefix : (modeKey.toList ++ ['=']).isPrefixOf (lstrip raw) = true := by
      rw [h]
      exact List.isPrefixOf_iff_prefix.mpr ⟨rest, by simp⟩
    rw [if_pos hprefix, h]
    rfl

/-- A line is matched where `read_values` has an entry for the mode. -/
theorem entryOf_mode : entryOf raw = some (modeKey, value) ↔
    ∃ rest, modeMatch raw = some rest ∧ value = String.ofList (strip rest) := by
  have hkey : modeKey ∈ managedKeys := by decide
  have hread : ∀ rest, lstrip raw = modeKey.toList ++ '=' :: rest →
      entryOf raw = some (modeKey, String.ofList (strip rest)) := by
    intro rest h
    have hstrip : strip raw = modeKey.toList ++ '=' :: rest.rdropWhile isSpace := by
      rw [strip, stripBy_eq]
      exact (congrArg (List.rdropWhile isSpace) h).trans (rdropWhile_append (by decide) _ _)
    have hprefix : (modeKey.toList ++ ['=']).isPrefixOf (lstrip raw) = true := by
      rw [h]
      exact List.isPrefixOf_iff_prefix.mpr ⟨rest, by simp⟩
    rw [entryOf, lineKind_of_strip hkey hstrip hprefix, strip_rdropWhile]
  simp only [modeMatch_eq_some]
  constructor
  · intro h
    obtain ⟨-, rest, hrest⟩ := lstrip_of_entryOf h
    rw [hread rest hrest] at h
    exact ⟨rest, hrest, (Prod.mk.inj (Option.some.inj h)).2.symm⟩
  · rintro ⟨rest, hrest, rfl⟩
    exact hread rest hrest

/-- The entries of the mode, and the matched lines. -/
theorem entries_mode (lines : List (List Char)) : ((entries lines).filter (·.1 = modeKey)).map Prod.snd =
    (lines.filterMap modeMatch).map fun rest => String.ofList (strip rest) := by
  induction lines with
  | nil => rfl
  | cons raw lines ih =>
      rw [entries, List.filterMap_cons, List.filterMap_cons, ← entries]
      cases hmatch : modeMatch raw with
      | none =>
          cases hentry : entryOf raw with
          | none => exact ih
          | some entry =>
              have hother : ¬ entry.1 = modeKey := fun heq => by
                obtain ⟨rest, hrest, -⟩ := entryOf_mode.mp (hentry.trans (congrArg some (Prod.ext heq rfl)))
                rw [hmatch] at hrest
                cases hrest
              simpa [hother] using ih
      | some rest =>
          have hentry := entryOf_mode.mpr ⟨rest, hmatch, rfl⟩
          rw [hentry]
          simpa using ih

/-- The entries of one key, where keys are unique. -/
theorem filter_key {d : Dict String String} (huniq : d.Uniq) (key : String) :
    (d.filter (·.1 = key)).map Prod.snd = (d.get? key).toList := by
  induction d with
  | nil => rfl
  | cons entry d ih =>
      obtain ⟨k, value⟩ := entry
      obtain ⟨hnew, hrest⟩ := List.nodup_cons.mp huniq
      by_cases heq : k = key
      · have hnone : Dict.get? d key = none := by
          rw [← Option.not_isSome_iff_eq_none, Dict.get?_isSome_iff]
          exact heq ▸ hnew
        have hempty := ih hrest
        rw [hnone] at hempty
        simp [heq, hempty]
      · simp [Dict.get?_cons, heq, ih hrest]

/-- The value that `read_values` has for the mode. -/
theorem get?_mode (huniq : Dict.Uniq (entries lines)) :
    ((entries lines).get? modeKey).toList = (lines.filterMap modeMatch).map fun rest => String.ofList (strip rest) := by
  rw [← entries_mode, filter_key huniq]

/-! ### What `resolve` makes of it -/

/-- The key of the line at which `read_values` raises. -/
def culprit (found : Dict String String) : List (List Char) → Option String
  | [] => none
  | raw :: lines =>
      match lineKind raw with
      | .other => culprit found lines
      | .malformed key => some key
      | .entry key value => if found.contains key then some key else culprit (found.set key value) lines

/-- `read_values` raises there, and names the key. -/
theorem readFrom_culprit {found : Dict String String} (h : culprit found lines = some key) (number : Nat) :
    (∃ number' : Nat, readFrom path number found lines =
      Py.raise (path ++ ":" ++ toString number' ++ " 受管 profile 键格式错误: " ++ key)) ∨
    readFrom path number found lines = Py.raise (path ++ " 存在重复键: " ++ key) := by
  induction lines generalizing found number with
  | nil => cases h
  | cons raw lines ih =>
      rw [culprit] at h
      rw [readFrom]
      cases hkind : lineKind raw with
      | other =>
          rw [hkind] at h
          exact ih h (number + 1)
      | malformed other =>
          rw [hkind] at h
          cases h
          exact .inl ⟨number, rfl⟩
      | entry other value =>
          simp only [hkind] at h ⊢
          split at h
          next htwice =>
            cases h
            exact .inr (if_pos htwice)
          next hnew =>
            rw [if_neg hnew]
            exact ih h (number + 1)

/-- `resolve` refuses the text, and it is a line with the mode, or the check of its value, that does. -/
structure RejectsMode (call : Call) (path : String) (text : List Char) : Prop where
  rejected : ∀ config, resolve call path text ≠ .ok config
  blamed : culprit [] (splitlines text) = some modeKey ∨
    ∃ values, readValues path text = .ok values ∧ ∀ mode, chooseFirewallMode values ≠ .ok mode

/-- The readers agree on the text, next to the state file. -/
structure ModesAgree (call : Call) (path : String) (text : List Char) (state : StateFile) : Prop where
  tools : (∃ mode, mergePersistedMode state text none = .ok mode ∧ scanPersistedMode state text = .ok mode) ∨
    (∃ e, mergePersistedMode state text none = .error e) ∧ ∃ e, scanPersistedMode state text = .error e
  accepted : state = .absent → ∀ config, resolve call path text = .ok config →
    mergePersistedMode state text none = .ok (config.firewallMode.getD .managed) ∧
    scanPersistedMode state text = .ok (config.firewallMode.getD .managed)
  unblamed : ∀ mode mode', mergePersistedMode state text none = .ok mode → scanPersistedMode state text = .ok mode' →
    ¬ RejectsMode call path text

/-- A line of the mode without a value. -/
def HasEmpty (lines : List (List Char)) : Prop := ∃ raw ∈ lines, entryOf raw = some (modeKey, "")

/-- The other values of the file are accepted. -/
def RestAccepted (call : Call) (lines : List (List Char)) : Prop :=
  WellFormed lines ∧ ∃ config, resolveValues call ((entries lines).erase modeKey) = .ok config

/-- A line of the mode in another form, with well-formed lines in front of it. -/
def HasMalformed (lines : List (List Char)) : Prop :=
  ∃ front raw back, lines = front ++ raw :: back ∧ WellFormed front ∧ lineKind raw = .malformed modeKey

theorem tools_agree (state : StateFile) (text : List Char) :
    (∃ mode, mergePersistedMode state text none = .ok mode ∧ scanPersistedMode state text = .ok mode) ∨
    (∃ e, mergePersistedMode state text none = .error e) ∧ ∃ e, scanPersistedMode state text = .error e := by
  cases hmerge : mergePersistedMode state text none with
  | ok mode => exact .inl ⟨mode, rfl, scanPersistedMode_eq_ok.mpr (mergePersistedMode_eq_ok.mp hmerge)⟩
  | error e =>
      cases hscan : scanPersistedMode state text with
      | ok mode =>
          rw [mergePersistedMode_eq_ok.mpr (scanPersistedMode_eq_ok.mp hscan)] at hmerge
          cases hmerge
      | error e' => exact .inr ⟨⟨e, rfl⟩, e', rfl⟩

/-- An empty value is none. -/
theorem resolved_erase (h : values.get? modeKey = some "") :
    Resolved call (values.erase modeKey) config ↔ Resolved call values config := by
  have hother : ∀ key, key ≠ modeKey → (values.erase modeKey).get? key = values.get? key := fun key hne =>
    Dict.get?_erase_ne (Ne.symm hne) _
  have hfirewall : chooseFirewallMode (values.erase modeKey) = chooseFirewallMode values := by
    rw [modeKey] at h
    rw [chooseFirewallMode, chooseFirewallMode, modeKey, Dict.get?_erase_self, h]
    rfl
  have hdata : ∀ key ∈ dataKeys, (values.erase modeKey).get? key = values.get? key := fun key hkey => by
    have hne : ∀ key ∈ dataKeys, key ≠ modeKey := by decide
    exact hother key (hne key hkey)
  have hplane : ∀ platform, dataPlane (values.erase modeKey) call.environ platform = dataPlane values call.environ platform := by
    simp only [dataKeys, List.forall_mem_cons] at hdata
    obtain ⟨hquic, htls, hhttp, hmark, hmask, htable, hpriority, -⟩ := hdata
    intro platform
    simp only [dataPlane, envOrProfile, textOr, hquic, htls, hhttp, hmark, hmask, htable, hpriority]
  have hplatform : choosePlatform call (values.erase modeKey) = choosePlatform call values := by
    simp only [choosePlatform, textOr, hother "PDG_PLATFORM" (by decide)]
  have hcidr : chooseCidr call (values.erase modeKey) = chooseCidr call values := by
    simp only [chooseCidr, hother "PDG_INTERNAL_CIDR" (by decide)]
  have hssh : chooseSshPort call (values.erase modeKey) = chooseSshPort call values := by
    have hsame : sameSshPort (values.erase modeKey) = sameSshPort values := by
      funext port
      rw [sameSshPort, sameSshPort, hother "PDG_SSH_PORT" (by decide)]
    simp only [chooseSshPort, textOr, hother "PDG_SSH_PORT" (by decide), hsame]
    rfl
  constructor
  · intro hr
    exact ⟨hplatform ▸ hr.platform, hplane _ ▸ hr.plane, hssh ▸ hr.sshPort, hr.free, hr.unoccupied, hcidr ▸ hr.cidr,
      hfirewall ▸ hr.firewall⟩
  · intro hr
    exact ⟨hplatform.trans hr.platform, (hplane _).trans hr.plane, hssh.trans hr.sshPort, hr.free, hr.unoccupied,
      hcidr.trans hr.cidr, hfirewall.trans hr.firewall⟩

theorem resolve_eq_ok : resolve call path text = .ok config ↔
    WellFormed (splitlines text) ∧ Resolved call (entries (splitlines text)) config := by
  rw [resolve, bind_eq_ok]
  simp only [readValues_eq_ok, resolveValues_eq_ok]
  constructor
  · rintro ⟨_, ⟨hformed, rfl⟩, hr⟩
    exact ⟨hformed, hr⟩
  · rintro ⟨hformed, hr⟩
    exact ⟨_, ⟨hformed, rfl⟩, hr⟩

/-- The mode that `resolve` returns is the one of the entry, if it has a value. -/
theorem chooseFirewallMode_eq_ok {chosen : Option FirewallMode} : chooseFirewallMode values = .ok chosen ↔
    match values.get? modeKey with
    | none => chosen = none
    | some value => if value = "" then chosen = none else ∃ mode, validMode value.toList = some mode ∧ chosen = some mode := by
  rw [chooseFirewallMode, modeKey]
  cases values.get? "PDG_FIREWALL_MODE" with
  | none => simp [eq_comm]
  | some value =>
      simp only [Option.getD_some, validMode, String.toList_inj]
      by_cases hempty : value = ""
      · rw [if_pos hempty, if_pos hempty, Except.ok.injEq]
        exact eq_comm
      · rw [if_neg hempty, if_neg hempty]
        by_cases hmanaged : value = "managed"
        · rw [if_pos hmanaged, if_pos hmanaged]
          simp [eq_comm]
        · by_cases hexternal : value = "external"
          · rw [if_neg hmanaged, if_pos hexternal, if_neg hmanaged, if_pos hexternal]
            simp [eq_comm]
          · rw [if_neg hmanaged, if_neg hexternal, if_neg hmanaged, if_neg hexternal]
            simp

/-- The line at which `read_values` raises: it is malformed, or has a key again. -/
def Blamed (found : Dict String String) (key : String) (front : List (List Char)) (raw : List Char) : Prop :=
  (∀ r ∈ front, ∀ k, lineKind r ≠ .malformed k) ∧ Dict.Uniq (found ++ entries front) ∧
  (lineKind raw = .malformed key ∨ ∃ value, lineKind raw = .entry key value ∧ key ∈ Dict.keys (found ++ entries front))

theorem blamed_cons_other {found : Dict String String} {front : List (List Char)} {first : List Char}
    (hkind : lineKind first = .other) : Blamed found key (first :: front) raw ↔ Blamed found key front raw := by
  have hentries : entries (first :: front) = entries front := by
    rw [entries, List.filterMap_cons, entryOf, hkind]
    rfl
  rw [Blamed, hentries, List.forall_mem_cons, hkind]
  simp [Blamed]

theorem blamed_cons_entry {found : Dict String String} {front : List (List Char)} {first : List Char} {k : String}
    (hkind : lineKind first = .entry k value) (hnew : k ∉ found.keys) :
    Blamed found key (first :: front) raw ↔ Blamed (found.set k value) key front raw := by
  have hentries : found ++ entries (first :: front) = found.set k value ++ entries front := by
    rw [entries, List.filterMap_cons, entryOf, hkind, Dict.set_of_not_mem hnew, List.append_assoc]
    rfl
  rw [Blamed, hentries, List.forall_mem_cons, hkind]
  simp [Blamed]

theorem culprit_eq_some {found : Dict String String} (hfound : found.Uniq) : culprit found lines = some key ↔
    ∃ front raw back, lines = front ++ raw :: back ∧ Blamed found key front raw := by
  induction lines generalizing found with
  | nil => simp [culprit]
  | cons first lines ih =>
      -- either the first line is the one, or it stands in front of the one
      have hsplit : (∃ front raw back, first :: lines = front ++ raw :: back ∧ Blamed found key front raw) ↔
          Blamed found key [] first ∨ ∃ front raw back, lines = front ++ raw :: back ∧ Blamed found key (first :: front) raw := by
        constructor
        · rintro ⟨front, raw, back, heq, hblamed⟩
          cases front with
          | nil =>
              obtain ⟨rfl, -⟩ := List.cons.inj heq
              exact .inl hblamed
          | cons r front =>
              obtain ⟨rfl, rfl⟩ := List.cons.inj heq
              exact .inr ⟨front, raw, back, rfl, hblamed⟩
        · rintro (hblamed | ⟨front, raw, back, rfl, hblamed⟩)
          · exact ⟨[], first, lines, rfl, hblamed⟩
          · exact ⟨first :: front, raw, back, rfl, hblamed⟩
      rw [hsplit, culprit]
      cases hkind : lineKind first with
      | other =>
          simp only [blamed_cons_other hkind, ih hfound]
          simp [Blamed, hkind]
      | malformed other =>
          simp only [Option.some.injEq]
          constructor
          · rintro rfl
            exact .inl ⟨List.forall_mem_nil _, by simpa [entries] using hfound, .inl hkind⟩
          · rintro (⟨-, -, hmalformed | ⟨value, hentry, -⟩⟩ | ⟨front, raw, back, -, hformed, -⟩)
            · rw [hkind] at hmalformed
              exact LineKind.malformed.inj hmalformed
            · rw [hkind] at hentry
              cases hentry
            · exact absurd hkind (hformed first List.mem_cons_self other)
      | entry k value =>
          simp only
          by_cases hin : k ∈ found.keys
          · have hcontains : found.contains k = true := Dict.get?_isSome_iff.mpr hin
            rw [if_pos hcontains, Option.some.injEq]
            constructor
            · rintro rfl
              refine .inl ⟨List.forall_mem_nil _, by simpa [entries] using hfound, .inr ⟨value, hkind, ?_⟩⟩
              simpa [entries] using hin
            · rintro (⟨-, -, hmalformed | ⟨value', hentry, -⟩⟩ | ⟨front, raw, back, -, -, huniq, -⟩)
              · rw [hkind] at hmalformed
                cases hmalformed
              · rw [hkind] at hentry
                exact (LineKind.entry.inj hentry).1
              · -- the key stands twice in front of that line
                rw [entries, List.filterMap_cons, entryOf, hkind, Dict.Uniq, Dict.keys, List.map_append, List.map_cons] at huniq
                exact absurd rfl ((List.nodup_append.mp huniq).2.2 k hin k List.mem_cons_self)
          · have hcontains : ¬ found.contains k = true := fun h => hin (Dict.get?_isSome_iff.mp h)
            rw [if_neg hcontains, ih (hfound.set k value)]
            simp only [blamed_cons_entry hkind hin]
            refine (or_iff_right ?_).symm
            rintro ⟨-, -, hmalformed | ⟨value', hentry, hkey⟩⟩
            · rw [hkind] at hmalformed
              cases hmalformed
            · rw [hkind] at hentry
              rw [← (LineKind.entry.inj hentry).1] at hkey
              exact hin (by simpa [entries] using hkey)

/-! ### Agreement -/

theorem uniq_nil : Dict.Uniq ([] : Dict String String) := List.nodup_nil

/-- The matched lines, where `read_values` has no entry. -/
theorem matched_of_none (huniq : Dict.Uniq (entries lines)) (h : (entries lines).get? modeKey = none) :
    lines.filterMap modeMatch = [] := by
  have hget := get?_mode huniq
  rw [h] at hget
  exact List.map_eq_nil_iff.mp hget.symm

/-- The matched line, where `read_values` has an entry. -/
theorem matched_of_some (huniq : Dict.Uniq (entries lines)) (h : (entries lines).get? modeKey = some value) :
    ∃ rest, lines.filterMap modeMatch = [rest] ∧ strip rest = value.toList := by
  have hget := get?_mode huniq
  rw [h] at hget
  obtain ⟨rest, hrest, hvalue⟩ := List.map_eq_singleton_iff.mp hget.symm
  exact ⟨rest, hrest, by rw [← hvalue, String.toList_ofList]⟩

/-- What the tools read, `resolve` does not refuse. -/
theorem exists_chosen (huniq : Dict.Uniq (entries lines)) (h : Chosen marker (lines.filterMap modeMatch) mode) :
    ∃ chosen, chooseFirewallMode (entries lines) = .ok chosen := by
  simp only [chooseFirewallMode_eq_ok]
  cases hget : (entries lines).get? modeKey with
  | none => exact ⟨none, rfl⟩
  | some value =>
      obtain ⟨rest, hrest, hstrip⟩ := matched_of_some huniq hget
      rw [hrest] at h
      cases h with
      | value hmode _ =>
          rw [hstrip] at hmode
          by_cases hempty : value = ""
          · exact ⟨none, by simp only [if_pos hempty]⟩
          · exact ⟨some mode, by simp only [if_neg hempty]; exact ⟨mode, hmode, rfl⟩⟩

/-- A malformed line of the mode, behind well-formed lines, is the one that is refused. -/
theorem rejectsMode_of_hasMalformed (h : HasMalformed (splitlines text)) : RejectsMode call path text := by
  obtain ⟨front, raw, back, heq, hformed, hkind⟩ := h
  have hculprit : culprit [] (splitlines text) = some modeKey := by
    rw [culprit_eq_some uniq_nil]
    exact ⟨front, raw, back, heq, hformed.formed, by simpa using hformed.uniq, .inl hkind⟩
  refine ⟨fun config hok => ?_, .inl hculprit⟩
  rw [resolve_eq_ok] at hok
  exact hok.1.formed raw (heq ▸ List.mem_append_right _ List.mem_cons_self) modeKey hkind

/-- Nothing else is, where the tools read a mode. -/
theorem hasMalformed_of_rejectsMode (hmode : Readable state (splitlines text) mode) (h : RejectsMode call path text) :
    HasMalformed (splitlines text) := by
  obtain ⟨marker, -, hchosen⟩ := hmode
  rcases h.blamed with hculprit | ⟨values, hread, hnone⟩
  · obtain ⟨front, raw, back, heq, hformed, huniq, hkind | ⟨value, hkind, hagain⟩⟩ :=
      (culprit_eq_some uniq_nil).mp hculprit
    · exact ⟨front, raw, back, heq, ⟨hformed, by simpa using huniq⟩, hkind⟩
    · -- two lines are matched
      exfalso
      rw [List.nil_append] at hagain
      have hfront : 0 < (front.filterMap modeMatch).length := by
        obtain ⟨entry, hentry, hkey⟩ := List.mem_map.mp hagain
        obtain ⟨r, hr, hread⟩ := List.mem_filterMap.mp hentry
        obtain ⟨rest, hrest, -⟩ := entryOf_mode.mp (hread.trans (congrArg some (Prod.ext hkey rfl)))
        exact List.length_pos_of_mem (List.mem_filterMap.mpr ⟨r, hr, hrest⟩)
      obtain ⟨rest, hrest, -⟩ := entryOf_mode.mp (by rw [entryOf, hkind])
      refine (chosen_iff.mp hchosen).1 ?_
      rw [heq, List.filterMap_append, List.filterMap_cons, hrest, List.length_append, List.length_cons]
      omega
  · obtain ⟨hformed, rfl⟩ := readValues_eq_ok.mp hread
    obtain ⟨chosen, hok⟩ := exists_chosen hformed.uniq hchosen
    exact absurd hok (hnone chosen)

theorem get?_of_hasEmpty (huniq : Dict.Uniq (entries lines)) (h : HasEmpty lines) : (entries lines).get? modeKey = some "" := by
  obtain ⟨raw, hraw, hentry⟩ := h
  exact huniq.get?_of_mem (List.mem_filterMap.mpr ⟨raw, hraw, hentry⟩)

/-- The tools always agree. All readers do exactly where neither an empty value is all that `resolve`
takes from the line, nor a line in another form stops it. -/
theorem modes_agree_iff (call : Call) (path : String) (text : List Char) (state : StateFile) :
    ModesAgree call path text state ↔
      ¬ (state = .absent ∧ HasEmpty (splitlines text) ∧ RestAccepted call (splitlines text)) ∧
      ¬ ((∃ mode, Readable state (splitlines text) mode) ∧ HasMalformed (splitlines text)) := by
  constructor
  · intro h
    refine ⟨?_, ?_⟩
    · rintro ⟨rfl, hempty, hformed, config, hok⟩
      have hget := get?_of_hasEmpty hformed.uniq hempty
      have hresolve : resolve call path text = .ok config :=
        resolve_eq_ok.mpr ⟨hformed, (resolved_erase hget).mp (resolveValues_eq_ok.mp hok)⟩
      -- the tools refuse the empty value
      obtain ⟨rest, hrest, hstrip⟩ := matched_of_some hformed.uniq hget
      obtain ⟨marker, -, hchosen⟩ := mergePersistedMode_eq_ok.mp (h.accepted rfl config hresolve).1
      rw [hrest] at hchosen
      cases hchosen with
      | value hmode _ =>
          rw [hstrip] at hmode
          cases hmode
    · rintro ⟨⟨mode, hmode⟩, hmalformed⟩
      exact h.unblamed mode mode (mergePersistedMode_eq_ok.mpr hmode) (scanPersistedMode_eq_ok.mpr hmode)
        (rejectsMode_of_hasMalformed hmalformed)
  · rintro ⟨hempty, hmalformed⟩
    refine ⟨tools_agree state text, ?_, ?_⟩
    · rintro rfl config hok
      obtain ⟨hformed, hresolved⟩ := resolve_eq_ok.mp hok
      have hreadable : Readable .absent (splitlines text) (config.firewallMode.getD .managed) := by
        have hfirewall := chooseFirewallMode_eq_ok.mp hresolved.firewall
        refine ⟨none, .absent, ?_⟩
        cases hget : (entries (splitlines text)).get? modeKey with
        | none =>
            rw [hget] at hfirewall
            rw [matched_of_none hformed.uniq hget, (hfirewall : config.firewallMode = none)]
            exact .none_
        | some value =>
            simp only [hget] at hfirewall
            obtain ⟨rest, hrest, hstrip⟩ := matched_of_some hformed.uniq hget
            split at hfirewall
            next hnothing =>
              subst hnothing
              have hentry : HasEmpty (splitlines text) := by
                obtain ⟨raw, hraw, hread⟩ := List.mem_filterMap.mp (Dict.mem_of_get? hget)
                exact ⟨raw, hraw, hread⟩
              exact absurd ⟨rfl, hentry, hformed, config, resolveValues_eq_ok.mpr ((resolved_erase hget).mpr hresolved)⟩ hempty
            next hsome =>
              obtain ⟨mode, hmode, hchosen⟩ := hfirewall
              rw [hrest, hchosen]
              exact .value (hstrip ▸ hmode) fun m hm => (by cases hm)
      exact ⟨mergePersistedMode_eq_ok.mpr hreadable, scanPersistedMode_eq_ok.mpr hreadable⟩
    · intro mode mode' hmerge _ hrejects
      have hmode := mergePersistedMode_eq_ok.mp hmerge
      exact hmalformed ⟨⟨mode, hmode⟩, hasMalformed_of_rejectsMode hmode hrejects⟩

/-- A blank in front of `=`: the tools read no mode there, and `resolve` refuses the line. -/
theorem blank_before_equals : ¬ ∀ call path text state, ModesAgree call path text state := by
  intro hclaim
  have h := hclaim (plainCall fun _ => none) "profile.env" "PDG_FIREWALL_MODE =managed".toList .absent
  have hmalformed : HasMalformed (splitlines "PDG_FIREWALL_MODE =managed".toList) :=
    ⟨[], "PDG_FIREWALL_MODE =managed".toList, [], by decide, ⟨List.forall_mem_nil _, uniq_nil⟩, by decide⟩
  have hreadable : Readable .absent (splitlines "PDG_FIREWALL_MODE =managed".toList) .managed :=
    ⟨none, .absent, by
      have hnone : (splitlines "PDG_FIREWALL_MODE =managed".toList).filterMap modeMatch = [] := by decide
      rw [hnone]
      exact .none_⟩
  exact h.unblamed .managed .managed (mergePersistedMode_eq_ok.mpr hreadable) (scanPersistedMode_eq_ok.mpr hreadable)
    (rejectsMode_of_hasMalformed hmalformed)

end ProxyGateway.Profile
