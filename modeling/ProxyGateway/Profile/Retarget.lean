import ProxyGateway.Profile.Canonical

set_option autoImplicit false

/-!
# ProxyGateway.Profile.Retarget

`retarget_platform_text`: the profile for the other platform. Only the platform and the TLS ports are
set, in the first line that sets them or at the end (`retarget_edits`).
-/

namespace ProxyGateway.Profile

open Text Render Py

/-! ### The code -/

/-- `gms` -/
def gmsPorts : List Nat := [5228, 5229, 5230]

/-- `ports`, before the platform is looked at. -/
def currentTlsPorts (values : Dict String String) (target : Platform) : Py String (List Nat) :=
  match values.get? "PDG_HIJACK_TLS_TCP_PORTS" with
  | some text => parsePortList (.str text) "PDG_HIJACK_TLS_TCP_PORTS"
  | none => .ok (defaultTlsPorts target)

def retargetPorts (target : Platform) (ports : List Nat) : List Nat :=
  match target with
  | .ios => ports.filter (· ∉ gmsPorts)
  | .android => sortedSet (ports ++ gmsPorts)

/-- `updates` -/
def updates (target : Platform) (ports : List Nat) : Dict String String :=
  [("PDG_PLATFORM", target.name), ("PDG_HIJACK_TLS_TCP_PORTS", portsText ports)]

/-- The key of a line as the rewriting sees it. -/
def lineKey (line : List Char) : String :=
  let stripped := lstrip line
  if '=' ∈ stripped then String.ofList (stripped.takeWhile (· ≠ '=')) else ""

/-- The loop over the lines, with what it puts out and the keys it has seen. -/
def rewriteLines (new : Dict String String) (seen : List String) : List (List Char) → List (List Char) × List String
  | [] => ([], seen)
  | line :: lines =>
      let key := lineKey line
      match new.get? key with
      | none =>
          let (output, seen) := rewriteLines new seen lines
          (line :: output, seen)
      | some value =>
          if key ∈ seen then rewriteLines new seen lines
          else
            let (output, seen) := rewriteLines new (key :: seen) lines
            (entryLine (key, value) :: output, seen)

/-- `output`, with the lines for the keys that were not seen. -/
def rewritten (new : Dict String String) (lines : List (List Char)) : List (List Char) :=
  let (output, seen) := rewriteLines new [] lines
  output ++ (new.filter (fun entry => decide (entry.1 ∉ seen))).map entryLine

/-- `retarget_platform_text` -/
def retarget (path : String) (target : Platform) (text : List Char) : Py String (List Char) := do
  let values ← readValues path text
  let ports ← currentTlsPorts values target
  raiseIf (retargetPorts target ports = []) "切换到 iOS 后 TLS 端口集合为空；请先保留至少一个非 GMS 目的端口"
  return joinWith '\n' (rewritten (updates target (retargetPorts target ports)) (splitlines text)) ++ ['\n']

variable {path : String} {text text' line : List Char} {lines : List (List Char)} {new : Dict String String}
  {seen : List String} {key value : String} {target : Platform} {ports : List Nat} {values : Dict String String}

/-! ### The keys of the lines -/

theorem lineKey_of_lstrip {rest : List Char} (hkey : key ∈ managedKeys) (h : lstrip line = key.toList ++ '=' :: rest) :
    lineKey line = key := by
  rw [lineKey, h]
  simp only [List.mem_append, List.mem_cons, true_or, or_true, if_true]
  rw [List.takeWhile_append_of_pos (managedKey_front hkey)]
  simp

/-- What is known of a line that is read as an entry. -/
theorem lstrip_of_entryOf (h : entryOf line = some (key, value)) :
    key ∈ managedKeys ∧ ∃ rest, lstrip line = key.toList ++ '=' :: rest := by
  have hkind : lineKind line = .entry key value := by
    rw [entryOf] at h
    split at h
    · next hkind =>
      cases h
      exact hkind
    · cases h
  rw [lineKind] at hkind
  split at hkind
  · cases hkind
  · split at hkind
    · rw [bareWord] at hkind
      split at hkind <;> cases hkind
    · rw [assignment] at hkind
      split at hkind
      · cases hkind
      · next hmanaged =>
        split at hkind
        · cases hkind
        · next hform =>
          cases hkind
          simp only [Bool.or_eq_true, Bool.not_eq_true', not_or, Bool.not_eq_false] at hform
          obtain ⟨rest, hrest⟩ := List.isPrefixOf_iff_prefix.mp hform.2
          refine ⟨not_not.mp hmanaged, rest, ?_⟩
          rw [String.toList_ofList, ← hrest, List.append_assoc, List.singleton_append]

/-- The rewriting and the reader see a managed key in the same lines. -/
theorem lineKey_eq_iff (hkey : key ∈ managedKeys) : lineKey line = key ↔ ∃ value, entryOf line = some (key, value) := by
  constructor
  · intro h
    have hin : '=' ∈ lstrip line := by
      by_contra hnot
      rw [lineKey, if_neg hnot] at h
      rw [← h] at hkey
      exact absurd hkey (by decide)
    obtain ⟨front, rest, hsplit, hfront⟩ := List.eq_append_cons_of_mem hin
    have hfree : ∀ c ∈ front, decide (c ≠ '=') = true := by
      intro c hc
      rw [decide_eq_true_eq]
      rintro rfl
      exact hfront hc
    obtain rfl : String.ofList front = key := by
      rw [lineKey, if_pos hin, hsplit, List.takeWhile_append_of_pos hfree] at h
      simpa using h
    have hstrip : strip line = (String.ofList front).toList ++ '=' :: rest.rdropWhile isSpace := by
      rw [strip, stripBy_eq, String.toList_ofList]
      exact (congrArg (List.rdropWhile isSpace) hsplit).trans (rdropWhile_append (by decide) _ _)
    have hprefix : ((String.ofList front).toList ++ ['=']).isPrefixOf (lstrip line) = true := by
      rw [hsplit, String.toList_ofList]
      exact List.isPrefixOf_iff_prefix.mpr ⟨rest, by simp⟩
    exact ⟨_, by rw [entryOf, lineKind_of_strip hkey hstrip hprefix]⟩
  · rintro ⟨value, h⟩
    obtain ⟨-, rest, hrest⟩ := lstrip_of_entryOf h
    exact lineKey_of_lstrip hkey hrest

/-! ### The rewritten lines -/

/-- A line as it is put out. -/
def rewriteLine (new : Dict String String) (line : List Char) : List Char :=
  match new.get? (lineKey line) with
  | none => line
  | some value => entryLine (lineKey line, value)

/-- What is written: managed keys, and values without blanks. -/
structure Writable (new : Dict String String) : Prop where
  managed : ∀ entry ∈ new, entry.1 ∈ managedKeys
  solid : ∀ entry ∈ new, ∀ c ∈ entry.2.toList, isSpace c = false
  uniq : new.Uniq

theorem mem_keys_entries (hkey : key ∈ managedKeys) : key ∈ Dict.keys (entries lines) ↔ ∃ line ∈ lines, lineKey line = key := by
  simp only [entries, Dict.keys, List.mem_map, List.mem_filterMap, lineKey_eq_iff hkey]
  constructor
  · rintro ⟨⟨key', value⟩, ⟨line, hline, hentry⟩, rfl⟩
    exact ⟨line, hline, value, hentry⟩
  · rintro ⟨line, hline, value, hentry⟩
    exact ⟨(key, value), ⟨line, hline, hentry⟩, rfl⟩

/-- Where no key stands twice, every line is put out. -/
theorem rewriteLines_eq (hnew : Writable new) (huniq : Dict.Uniq (entries lines))
    (hseen : ∀ key ∈ seen, key ∉ Dict.keys (entries lines)) :
    (rewriteLines new seen lines).1 = lines.map (rewriteLine new) ∧
      ∀ key, key ∈ (rewriteLines new seen lines).2 ↔ key ∈ seen ∨ (key ∈ new.keys ∧ key ∈ Dict.keys (entries lines)) := by
  -- on the lines; no key has two, so none is dropped as seen
  induction lines generalizing seen with
  | nil =>
      rw [rewriteLines]
      exact ⟨rfl, fun key => ⟨.inl, fun h => h.resolve_right fun hin => nomatch hin.2⟩⟩
  | cons line lines ih =>
      have hkeys : ∀ key, key ∈ Dict.keys (entries lines) → key ∈ Dict.keys (entries (line :: lines)) := fun key hin =>
        ((List.sublist_cons_self line lines).filterMap entryOf |>.map Prod.fst).subset hin
      have hrest : Dict.Uniq (entries lines) :=
        ((List.sublist_cons_self line lines).filterMap entryOf |>.map Prod.fst).nodup huniq
      rw [rewriteLines, List.map_cons, rewriteLine]
      cases hget : new.get? (lineKey line) with
      | none =>
          obtain ⟨houtput, hafter⟩ := ih hrest fun key hkey hin => hseen key hkey (hkeys key hin)
          refine ⟨congrArg (line :: ·) houtput, fun key => (hafter key).trans (or_congr_right ?_)⟩
          refine and_congr_right fun hkey => ?_
          have hmanaged : key ∈ managedKeys := by
            obtain ⟨entry, hentry, rfl⟩ := List.mem_map.mp hkey
            exact hnew.managed entry hentry
          rw [mem_keys_entries hmanaged, mem_keys_entries hmanaged, List.exists_mem_cons_iff]
          refine (or_iff_right fun heq => ?_).symm
          rw [heq, Dict.get?_eq_none_iff] at hget
          exact hget hkey
      | some value =>
          have hmem := Dict.mem_of_get? hget
          have hmanaged : lineKey line ∈ managedKeys := hnew.managed _ hmem
          obtain ⟨old, hentry⟩ := (lineKey_eq_iff hmanaged).mp rfl
          have hkeysLine : Dict.keys (entries (line :: lines)) = lineKey line :: Dict.keys (entries lines) := by
            rw [entries, List.filterMap_cons, hentry]
            rfl
          have hfresh : lineKey line ∉ seen := fun hin => hseen _ hin (hkeysLine ▸ List.mem_cons_self)
          have hnot : lineKey line ∉ Dict.keys (entries lines) := by
            rw [Dict.Uniq, hkeysLine] at huniq
            exact (List.nodup_cons.mp huniq).1
          obtain ⟨houtput, hafter⟩ := @ih (lineKey line :: seen) hrest (List.forall_mem_cons.mpr
            ⟨hnot, fun key hkey hin => hseen key hkey (hkeys key hin)⟩)
          simp only [if_neg hfresh]
          refine ⟨congrArg (entryLine (lineKey line, value) :: ·) houtput, fun key => ?_⟩
          rw [hafter, hkeysLine, List.mem_cons, List.mem_cons]
          constructor
          · rintro ((rfl | hin) | ⟨hkey, hin⟩)
            · exact .inr ⟨Dict.mem_keys_of_get? hget, .inl rfl⟩
            · exact .inl hin
            · exact .inr ⟨hkey, .inr hin⟩
          · rintro (hin | ⟨hkey, rfl | hin⟩)
            · exact .inl (.inr hin)
            · exact .inl (.inl rfl)
            · exact .inr ⟨hkey, hin⟩

/-- The entries whose key no line has. -/
def missing (new : Dict String String) (lines : List (List Char)) : Dict String String :=
  new.filter (fun entry => decide (entry.1 ∉ Dict.keys (entries lines)))

theorem rewritten_eq (hnew : Writable new) (huniq : Dict.Uniq (entries lines)) :
    rewritten new lines = lines.map (rewriteLine new) ++ (missing new lines).map entryLine := by
  obtain ⟨houtput, hafter⟩ := @rewriteLines_eq lines new [] hnew huniq fun _ hin => nomatch hin
  have hmissing : new.filter (fun entry => decide (entry.1 ∉ (rewriteLines new [] lines).2)) = missing new lines := by
    refine List.filter_congr fun entry hentry => decide_eq_decide.mpr (not_congr ?_)
    rw [hafter]
    exact ⟨fun h => (h.resolve_left List.not_mem_nil).2, fun h => .inr ⟨List.mem_map_of_mem hentry, h⟩⟩
  show (rewriteLines new [] lines).1 ++ (new.filter (fun entry => decide (entry.1 ∉ (rewriteLines new [] lines).2))).map entryLine = _
  rw [houtput, hmissing]

/-- Only the values change. -/
theorem lineKind_rewriteLine (hnew : Writable new) (line : List Char) : lineKind (rewriteLine new line) =
    match lineKind line with
    | .entry key value => .entry key ((new.get? key).getD value)
    | kind => kind := by
  rw [rewriteLine]
  cases hget : new.get? (lineKey line) with
  | some value =>
      have hmem := Dict.mem_of_get? hget
      obtain ⟨old, hentry⟩ := (lineKey_eq_iff (hnew.managed _ hmem)).mp rfl
      have hkind : lineKind line = .entry (lineKey line) old := by
        rw [entryOf] at hentry
        split at hentry
        · next hkind =>
          cases hentry
          exact hkind
        · cases hentry
      simp only [hkind, hget, Option.getD_some]
      exact lineKind_entryLine (hnew.managed _ hmem) (hnew.solid _ hmem)
  | none =>
      cases hkind : lineKind line with
      | entry key value =>
          have hentry : entryOf line = some (key, value) := by rw [entryOf, hkind]
          obtain rfl := (lineKey_eq_iff (lstrip_of_entryOf hentry).1).mpr ⟨value, hentry⟩
          simp only [hget, Option.getD_none]
      | other => rfl
      | malformed key => rfl

theorem entryOf_rewriteLine (hnew : Writable new) (line : List Char) :
    entryOf (rewriteLine new line) = (entryOf line).map (fun entry => (entry.1, (new.get? entry.1).getD entry.2)) := by
  rw [entryOf, entryOf, lineKind_rewriteLine hnew]
  cases lineKind line <;> rfl

theorem entries_missing (hnew : Writable new) (lines : List (List Char)) : entries ((missing new lines).map entryLine) = missing new lines := by
  rw [entries, List.filterMap_map]
  calc (missing new lines).filterMap (entryOf ∘ entryLine)
      _ = (missing new lines).filterMap some := List.filterMap_congr fun entry hentry =>
        entryOf_entryLine (hnew.managed entry (List.mem_filter.mp hentry).1) (hnew.solid entry (List.mem_filter.mp hentry).1)
      _ = missing new lines := List.filterMap_some

theorem entries_rewritten (hnew : Writable new) (huniq : Dict.Uniq (entries lines)) : entries (rewritten new lines) =
    (entries lines).map (fun entry => (entry.1, (new.get? entry.1).getD entry.2)) ++ missing new lines := by
  have hmapped : entries (lines.map (rewriteLine new)) =
      (entries lines).map (fun entry => (entry.1, (new.get? entry.1).getD entry.2)) := by
    rw [entries, entries, List.filterMap_map, List.map_filterMap]
    exact List.filterMap_congr fun line _ => entryOf_rewriteLine hnew line
  have hmissing := entries_missing hnew lines
  rw [entries] at hmapped hmissing
  rw [rewritten_eq hnew huniq, entries, List.filterMap_append, hmapped, hmissing]

/-- The rewritten lines are well formed; what is written is read for its key, and for every other key what
was read before. -/
theorem wellFormed_rewritten (hnew : Writable new) (hformed : WellFormed lines) : WellFormed (rewritten new lines) ∧
    ∀ key, (entries (rewritten new lines)).get? key = (new.get? key).or ((entries lines).get? key) := by
  refine ⟨⟨fun line hline key hkind => ?_, ?_⟩, fun key => ?_⟩
  · rw [rewritten_eq hnew hformed.uniq] at hline
    rcases List.mem_append.mp hline with hline | hline
    · obtain ⟨old, hold, rfl⟩ := List.mem_map.mp hline
      rw [lineKind_rewriteLine hnew] at hkind
      cases hbefore : lineKind old with
      | malformed key => exact hformed.formed old hold key hbefore
      | other => rw [hbefore] at hkind; cases hkind
      | entry key value => rw [hbefore] at hkind; cases hkind
    · obtain ⟨entry, hentry, rfl⟩ := List.mem_map.mp hline
      have hin := (List.mem_filter.mp hentry).1
      rw [lineKind_entryLine (hnew.managed entry hin) (hnew.solid entry hin)] at hkind
      cases hkind
  · rw [entries_rewritten hnew hformed.uniq, Dict.Uniq, Dict.keys, List.map_append, List.map_map, List.nodup_append]
    refine ⟨hformed.uniq, (List.filter_sublist.map _).nodup hnew.uniq, ?_⟩
    intro key hkey key' hkey' heq
    obtain ⟨entry, hentry, rfl⟩ := List.mem_map.mp hkey'
    have hnot := of_decide_eq_true (List.mem_filter.mp hentry).2
    exact hnot (heq ▸ hkey)
  · rw [entries_rewritten hnew hformed.uniq, Dict.get?_append,
      Dict.get?_map (fun key value => (new.get? key).getD value)]
    cases hget : (entries lines).get? key with
    | some value => cases new.get? key <;> rfl
    | none =>
        have hnot := Dict.get?_eq_none_iff.mp hget
        rw [missing, Dict.get?_filter (fun key => decide (key ∉ Dict.keys (entries lines))) (decide_eq_true hnot)]
        simp

theorem lineKey_entryLine (hnew : Writable new) {entry : String × String} (hentry : entry ∈ new) :
    lineKey (entryLine entry) = entry.1 :=
  (lineKey_eq_iff (hnew.managed entry hentry)).mpr
    ⟨entry.2, entryOf_entryLine (hnew.managed entry hentry) (hnew.solid entry hentry)⟩

/-- Lines that were rewritten stay as they are. -/
theorem rewritten_rewritten (hnew : Writable new) (hformed : WellFormed lines) :
    rewritten new (rewritten new lines) = rewritten new lines := by
  obtain ⟨hformed', hget⟩ := wellFormed_rewritten hnew hformed
  have hmissing : missing new (rewritten new lines) = [] := by
    rw [missing, List.filter_eq_nil_iff]
    intro entry hentry hnot
    refine of_decide_eq_true hnot (Dict.mem_keys_of_get? (b := entry.2) ?_)
    rw [hget, hnew.uniq.get?_of_mem hentry]
    rfl
  have hfixed : ∀ line ∈ rewritten new lines, rewriteLine new line = line := by
    have hentry : ∀ entry ∈ new, rewriteLine new (entryLine entry) = entryLine entry := by
      intro entry hentry
      rw [rewriteLine, lineKey_entryLine hnew hentry, hnew.uniq.get?_of_mem hentry]
    intro line hline
    rw [rewritten_eq hnew hformed.uniq] at hline
    rcases List.mem_append.mp hline with hline | hline
    · obtain ⟨old, -, rfl⟩ := List.mem_map.mp hline
      cases hold : new.get? (lineKey old) with
      | none => simp only [rewriteLine, hold]
      | some value =>
          have hline : rewriteLine new old = entryLine (lineKey old, value) := by rw [rewriteLine, hold]
          rw [hline, hentry _ (Dict.mem_of_get? hold)]
    · obtain ⟨entry, hin, rfl⟩ := List.mem_map.mp hline
      exact hentry entry (List.mem_filter.mp hin).1
  rw [rewritten_eq hnew hformed'.uniq, hmissing, List.map_nil, List.append_nil, List.map_congr_left hfixed, List.map_id']

end ProxyGateway.Profile
