import ProxyGateway.Schema.Declared

set_option autoImplicit false

/-!
# ProxyGateway.Schema.Canonical

The canonical form of a document: every name of the user and every reference to one is
replaced by its normal form, a group without a member list gets an empty one, and nothing
else changes. `_canonicalize_user_names` computes it where the member lists are lists
(`canonicalizeUserNames_canonical`).
-/

namespace ProxyGateway.Schema

open Py Json

variable {U : Unicode} {value result outbound group : Json} {name label key : String}
  {fields fields' : Dict String Json} {f : Json → Py ModelError Json}

/-! ### The canonical form -/

/-- The normal form of a text. -/
def canonicalText (U : Unicode) (s : String) : String := String.ofList (Text.strip (U.nfc s).toList)

/-- The normal form of a reference. -/
def canonicalRef (U : Unicode) : Json → Json
  | .str s => .str (canonicalText U s)
  | value => value

/-- A member of a group; `REJECT` is no name. -/
def canonicalMember (U : Unicode) (item : Json) : Json :=
  if item = .str "REJECT" then item else canonicalRef U item

/-- Replace the text in a field. -/
def canonicalField (U : Unicode) (key : String) (fields : Dict String Json) : Dict String Json :=
  match Dict.get? fields key with
  | some (.str s) => Dict.set fields key (.str (canonicalText U s))
  | _ => fields

/-- Replace the elements of a list. -/
def mapItems (g : Json → Json) : Json → Json
  | .arr xs => .arr (xs.map g)
  | value => value

/-- Replace the elements of the list in a field. -/
def canonicalItems (key : String) (g : Json → Json) (fields : Dict String Json) :
    Dict String Json :=
  match Dict.get? fields key with
  | some (.arr xs) => Dict.set fields key (.arr (xs.map g))
  | _ => fields

/-- Replace the elements of the list in a field that is added where it is missing. -/
def canonicalList (key : String) (g : Json → Json) (fields : Dict String Json) :
    Dict String Json :=
  match Dict.get? fields key with
  | none => Dict.set fields key (.arr [])
  | some _ => canonicalItems key g fields

/-- Apply a change of fields to an object. -/
def onFields (g : Dict String Json → Dict String Json) : Json → Json
  | .obj fields => .obj (g fields)
  | value => value

/-- Is the outbound a proxy, which the user names? -/
def isProxyOutbound (outbound : Json) : Bool :=
  (outbound.getD "type" .null).str?.any (· ∈ proxyOutboundTypes)

def canonicalOutbound (U : Unicode) (outbound : Json) : Json :=
  onFields (fun fields => canonicalItems "outbounds" (canonicalRef U) (canonicalField U "detour"
    (if isProxyOutbound outbound then canonicalField U "tag" fields else fields))) outbound

def canonicalGroupOf (U : Unicode) (group : Json) : Json :=
  onFields (fun fields => canonicalList "use" (canonicalRef U)
    (canonicalList "proxies" (canonicalMember U) (canonicalField U "name" fields))) group

def canonicalRule (U : Unicode) (rule : Json) : Json :=
  onFields (fun fields => canonicalField U "rule_set" (canonicalField U "outbound" fields)) rule

def canonicalRuleSet (U : Unicode) (ruleSet : Json) : Json :=
  onFields (canonicalField U "tag") ruleSet

def canonicalRoute (U : Unicode) (route : Dict String Json) : Dict String Json :=
  canonicalItems "rule_set" (canonicalRuleSet U) (canonicalItems "rules" (canonicalRule U)
    (canonicalField U "final" route))

def canonicalProviders (U : Unicode) (providers : Dict String Json) : Dict String Json :=
  providers.map (fun entry => (canonicalText U entry.1, entry.2))

def canonicalMeta (U : Unicode) (m : MihomoMeta) : MihomoMeta :=
  { m with
    proxyProviders := canonicalProviders U m.proxyProviders
    ruleProviders := canonicalProviders U m.ruleProviders }

theorem get?_canonicalField :
    Dict.get? (canonicalField U key fields) key = (Dict.get? fields key).map (canonicalRef U) := by
  unfold canonicalField
  split
  · rename_i s hget
    rw [Dict.get?_set_self, hget]
    rfl
  · rename_i hno
    cases hget : Dict.get? fields key with
    | none => rfl
    | some value =>
        cases value with
        | str s => exact absurd hget (hno s)
        | _ => rfl

theorem get?_canonicalField_ne {key' : String} (h : key ≠ key') :
    Dict.get? (canonicalField U key fields) key' = Dict.get? fields key' := by
  unfold canonicalField
  split
  · rw [Dict.get?_set_ne h]
  · rfl

theorem get?_canonicalItems {g : Json → Json} :
    Dict.get? (canonicalItems key g fields) key = (Dict.get? fields key).map (mapItems g) := by
  unfold canonicalItems
  split
  · rename_i xs hget
    rw [Dict.get?_set_self, hget]
    rfl
  · rename_i hno
    cases hget : Dict.get? fields key with
    | none => rfl
    | some value =>
        cases value with
        | arr xs => exact absurd hget (hno xs)
        | _ => rfl

theorem get?_canonicalItems_ne {g : Json → Json} {key' : String} (h : key ≠ key') :
    Dict.get? (canonicalItems key g fields) key' = Dict.get? fields key' := by
  unfold canonicalItems
  split
  · rw [Dict.get?_set_ne h]
  · rfl

theorem get?_canonicalList {g : Json → Json} :
    Dict.get? (canonicalList key g fields) key =
      some (mapItems g ((Dict.get? fields key).getD (.arr []))) := by
  unfold canonicalList
  split
  · rename_i hget
    rw [Dict.get?_set_self, hget]
    rfl
  · rename_i value hget
    rw [get?_canonicalItems, hget]
    rfl

theorem get?_canonicalList_ne {g : Json → Json} {key' : String} (h : key ≠ key') :
    Dict.get? (canonicalList key g fields) key' = Dict.get? fields key' := by
  unfold canonicalList
  split
  · rw [Dict.get?_set_ne h]
  · exact get?_canonicalItems_ne h

/-! ### What the passes compute -/

theorem normalizeName_canonical (h : normalizeName U value label = .ok name) :
    ∃ s, value = .str s ∧ name = canonicalText U s := by
  cases value with
  | str s =>
      simp only [normalizeName, raiseIf_bind_eq_ok, pure_eq_ok] at h
      exact ⟨s, rfl, h.2.2.symm⟩
  | _ => simp [normalizeName] at h

theorem reference_canonical (h : reference U label value = .ok result) :
    (∃ s, value = .str s) ∧ result = canonicalRef U value := by
  cases value with
  | str s =>
      obtain ⟨name, hname, h⟩ := bind_eq_ok.mp h
      obtain ⟨t, ht, rfl⟩ := normalizeName_canonical hname
      cases ht
      exact ⟨⟨s, rfl⟩, (pure_eq_ok.mp h).symm⟩
  | _ => simp [reference] at h

theorem referField_canonical (h : referField U key label fields = .ok fields') :
    fields' = canonicalField U key fields := by
  unfold referField at h
  unfold canonicalField
  cases hget : Dict.get? fields key with
  | none =>
      rw [hget] at h
      exact (Except.ok.inj h).symm
  | some value =>
      rw [hget] at h
      cases value with
      | str s =>
          obtain ⟨result, hresult, h⟩ := bind_eq_ok.mp h
          rw [← pure_eq_ok.mp h, (reference_canonical hresult).2]
          rfl
      | _ => exact (Except.ok.inj h).symm

/-- A loop each turn of which computes a function. -/
theorem mapM_eq_map {g : Json → Json} {xs ys : List Json} (h : xs.mapM f = .ok ys)
    (hf : ∀ x ∈ xs, ∀ y, f x = .ok y → y = g x) : ys = xs.map g := by
  have hpairs := mapM_forall₂ h
  clear h
  induction hpairs with
  | nil => rfl
  | cons hx _ ih =>
      rw [List.map_cons, hf _ (by simp) _ hx, ih fun x hx => hf x (by simp [hx])]

theorem referList_canonical {g : Json → Json} (h : referList key f fields = .ok fields')
    (hf : ∀ x y, f x = .ok y → y = g x) : fields' = canonicalItems key g fields := by
  unfold canonicalItems
  cases hlist : isList ((Dict.get? fields key).getD .null) with
  | true =>
      unfold referList at h
      cases hget : Dict.get? fields key with
      | none => simp [hget, isList] at hlist
      | some value =>
          rw [hget] at h hlist
          cases value with
          | arr items =>
              obtain ⟨new, hnew, h⟩ := bind_eq_ok.mp h
              rw [← pure_eq_ok.mp h, mapM_eq_map hnew fun x _ y => hf x y]
          | _ => simp [isList] at hlist
  | false =>
      rw [referList_other hlist] at h
      have heq : fields' = fields := by
        split at h
        · obtain ⟨-, -, h⟩ := bind_eq_ok.mp h
          exact (Except.ok.inj h).symm
        · exact (Except.ok.inj h).symm
      rw [heq]
      split
      · rename_i items hget
        rw [hget] at hlist
        simp [isList] at hlist
      · rfl

/-- Both passes over an outbound. -/
theorem outbound_canonical {named : Json} (hname : nameOutbound U outbound = .ok named)
    (hrefer : referOutbound U named = .ok result) : result = canonicalOutbound U outbound := by
  cases outbound with
  | obj fields =>
      obtain ⟨isProxy, hproxy, hname⟩ := bind_eq_ok.mp hname
      have hproxy : isProxy = isProxyOutbound (.obj fields) := within_str hproxy
      have hnamed : named = .obj (if isProxyOutbound (.obj fields) then canonicalField U "tag" fields
          else fields) := by
        rw [← hproxy]
        cases isProxy with
        | false => exact (pure_eq_ok.mp hname).symm
        | true =>
            obtain ⟨name, hnormal, hname⟩ := bind_eq_ok.mp hname
            obtain ⟨s, hs, rfl⟩ := normalizeName_canonical hnormal
            have hget : Dict.get? fields "tag" = some (.str s) := get?_of_getD hs (by simp)
            rw [← pure_eq_ok.mp hname, if_pos rfl, canonicalField, hget]
      subst hnamed
      obtain ⟨mid, hmid, hrefer⟩ := bind_eq_ok.mp hrefer
      have hmid := referField_canonical hmid
      show result = .obj (canonicalItems "outbounds" (canonicalRef U) (canonicalField U "detour"
        (if isProxyOutbound (.obj fields) then canonicalField U "tag" fields else fields)))
      rw [← hmid]
      unfold canonicalItems
      cases hget : Dict.get? mid "outbounds" with
      | none =>
          rw [hget] at hrefer
          exact (pure_eq_ok.mp hrefer).symm
      | some value =>
          rw [hget] at hrefer
          cases value with
          | arr members =>
              obtain ⟨new, hnew, hrefer⟩ := bind_eq_ok.mp hrefer
              rw [← pure_eq_ok.mp hrefer, mapM_eq_map hnew fun x _ y hy => (reference_canonical hy).2]
          | _ => exact (pure_eq_ok.mp hrefer).symm
  | _ =>
      cases pure_eq_ok.mp hname
      exact (pure_eq_ok.mp hrefer).symm

/-- The member lists of a group, where they are there, are lists. -/
def MembersListed (group : Json) : Prop :=
  (group.get? "proxies").all isList = true ∧ (group.get? "use").all isList = true

theorem membersOf_listed {members : List Json} (hlist : (Dict.get? fields key).all isList = true)
    (h : membersOf (.obj fields) key = .ok members) (g : Json → Json) :
    canonicalList key g fields = Dict.set fields key (.arr (members.map g)) := by
  unfold canonicalList canonicalItems
  unfold membersOf at h
  cases hget : Dict.get? fields key with
  | none =>
      rw [show (Json.obj fields).getD key .null = .null from by simp [Json.getD, Json.get?, hget]] at h
      cases h
      rfl
  | some value =>
      rw [hget] at hlist
      rw [getD_obj hget] at h
      cases value with
      | arr xs =>
          cases xs <;> (cases h; rfl)
      | _ => simp [isList] at hlist

theorem members_canonical {members proxies : List Json}
    (h : members.mapM (fun item => if item = .str "REJECT" then .ok item
      else reference U "group member" item) = .ok proxies) :
    proxies = members.map (canonicalMember U) := by
  refine mapM_eq_map h fun x _ y hy => ?_
  unfold canonicalMember
  split at hy
  · rename_i hreject
    rw [if_pos hreject]
    exact (Except.ok.inj hy).symm
  · rename_i hno
    rw [if_neg hno]
    exact (reference_canonical hy).2

/-- What both passes over a group write. -/
theorem group_passes {named : Json} (hname : nameGroup U (.obj fields) = .ok named)
    (hrefer : referGroup U named = .ok result) :
    ∃ s members, Dict.get? fields "name" = some (.str s) ∧
      membersOf (.obj fields) "proxies" = .ok members ∧
      result.get? "name" = some (.str (canonicalText U s)) ∧
      result.get? "proxies" = some (.arr (members.map (canonicalMember U))) ∧
      ∀ key, key ∉ ["name", "proxies", "use"] → result.get? key = Dict.get? fields key := by
  obtain ⟨name, hnormal, hname⟩ := bind_eq_ok.mp hname
  obtain ⟨s, hs, rfl⟩ := normalizeName_canonical hnormal
  cases pure_eq_ok.mp hname
  obtain ⟨members, hmembers, hrefer⟩ := bind_eq_ok.mp hrefer
  obtain ⟨proxies, hproxies, hrefer⟩ := bind_eq_ok.mp hrefer
  obtain ⟨providers, -, hrefer⟩ := bind_eq_ok.mp hrefer
  obtain ⟨uses, -, hrefer⟩ := bind_eq_ok.mp hrefer
  have hsame : (Json.obj (Dict.set fields "name" (.str (canonicalText U s)))).getD "proxies" .null =
      (Json.obj fields).getD "proxies" .null := by
    simp [Json.getD, Json.get?, Dict.get?_set_ne]
  refine ⟨s, members, get?_of_getD hs (by simp), ?_, ?_, ?_, ?_⟩
  · unfold membersOf at hmembers ⊢
    rwa [hsame] at hmembers
  · rw [← pure_eq_ok.mp hrefer, Json.get?, Dict.get?_set_ne (by simp), Dict.get?_set_ne (by simp),
      Dict.get?_set_self]
  · rw [← pure_eq_ok.mp hrefer, Json.get?, Dict.get?_set_ne (by simp), Dict.get?_set_self,
      members_canonical hproxies]
  · intro key hkey
    simp only [List.mem_cons, List.not_mem_nil, or_false, not_or] at hkey
    rw [← pure_eq_ok.mp hrefer, Json.get?, Dict.get?_set_ne (Ne.symm hkey.2.2),
      Dict.get?_set_ne (Ne.symm hkey.2.1), Dict.get?_set_ne (Ne.symm hkey.1)]

/-- Both passes over a group with such lists. -/
theorem group_canonical {named : Json} (hlisted : MembersListed group)
    (hname : nameGroup U group = .ok named) (hrefer : referGroup U named = .ok result) :
    result = canonicalGroupOf U group := by
  cases group with
  | obj fields =>
      obtain ⟨name, hnormal, hname⟩ := bind_eq_ok.mp hname
      obtain ⟨s, hs, rfl⟩ := normalizeName_canonical hnormal
      have hget : Dict.get? fields "name" = some (.str s) := get?_of_getD hs (by simp)
      have hnamed : Dict.set fields "name" (.str (canonicalText U s)) = canonicalField U "name" fields := by
        rw [canonicalField, hget]
      rw [hnamed] at hname
      cases pure_eq_ok.mp hname
      obtain ⟨members, hmembers, hrefer⟩ := bind_eq_ok.mp hrefer
      obtain ⟨proxies, hproxies, hrefer⟩ := bind_eq_ok.mp hrefer
      obtain ⟨providers, hproviders, hrefer⟩ := bind_eq_ok.mp hrefer
      obtain ⟨uses, huses, hrefer⟩ := bind_eq_ok.mp hrefer
      have hother : ∀ key, key ≠ "name" →
          Dict.get? (canonicalField U "name" fields) key = Dict.get? fields key := by
        intro key hkey
        rw [← hnamed, Dict.get?_set_ne (Ne.symm hkey)]
      have hproxies := members_canonical hproxies
      have huses : uses = providers.map (canonicalRef U) :=
        mapM_eq_map huses fun x _ y hy => (reference_canonical hy).2
      have hfirst := membersOf_listed (by rw [hother _ (by simp)]; exact hlisted.1) hmembers
        (canonicalMember U)
      have hread : membersOf (.obj (Dict.set (canonicalField U "name" fields) "proxies"
          (.arr proxies))) "use" = .ok providers := by
        rw [← hproviders]
        have hsame : (Json.obj (Dict.set (canonicalField U "name" fields) "proxies"
            (.arr proxies))).getD "use" .null =
              (Json.obj (canonicalField U "name" fields)).getD "use" .null := by
          simp [Json.getD, Json.get?, Dict.get?_set_ne]
        unfold membersOf
        rw [hsame]
      have hsecond := membersOf_listed (by
        rw [Dict.get?_set_ne (by simp), hother _ (by simp)]; exact hlisted.2) hread (canonicalRef U)
      rw [← pure_eq_ok.mp hrefer]
      show _ = Json.obj (canonicalList "use" (canonicalRef U)
        (canonicalList "proxies" (canonicalMember U) (canonicalField U "name" fields)))
      rw [hfirst, ← hproxies, hsecond, ← huses]
  | _ =>
      cases pure_eq_ok.mp hname
      exact (pure_eq_ok.mp hrefer).symm

theorem referRule_canonical {rule : Json} (h : referRule U rule = .ok result) :
    result = canonicalRule U rule := by
  cases rule with
  | obj fields =>
      obtain ⟨mid, hmid, h⟩ := bind_eq_ok.mp h
      obtain ⟨final, hfinal, h⟩ := bind_eq_ok.mp h
      rw [← pure_eq_ok.mp h, referField_canonical hfinal, referField_canonical hmid]
      rfl
  | _ => exact (pure_eq_ok.mp h).symm

theorem referRuleSet_canonical {ruleSet : Json} (h : referRuleSet U ruleSet = .ok result) :
    result = canonicalRuleSet U ruleSet := by
  cases ruleSet with
  | obj fields =>
      obtain ⟨mid, hmid, h⟩ := bind_eq_ok.mp h
      rw [← pure_eq_ok.mp h, referField_canonical hmid]
      rfl
  | _ => exact (pure_eq_ok.mp h).symm

theorem referRoute_canonical {route route' : Dict String Json}
    (h : referRoute U route = .ok route') : route' = canonicalRoute U route := by
  obtain ⟨final, hfinal, h⟩ := bind_eq_ok.mp h
  obtain ⟨rules, hrules, h⟩ := bind_eq_ok.mp h
  rw [referList_canonical h fun _ _ => referRuleSet_canonical,
    referList_canonical hrules fun _ _ => referRule_canonical, referField_canonical hfinal]
  rfl

/-- No two keys collide, so that the rebuilt map has the entries in their order. -/
theorem nameProviders_canonical {providers providers' : Dict String Json}
    (h : nameProviders U label providers = .ok providers') :
    providers' = canonicalProviders U providers := by
  suffices hacc : ∀ (entries acc result : Dict String Json),
      entries.foldlM (fun rebuilt entry => do
        let name ← normalizeName U (.str entry.1) label
        raiseIf (rebuilt.contains name) (.text (label ++ " collides after Unicode normalization"))
        return rebuilt.set name entry.2) acc = .ok result →
      result = acc ++ canonicalProviders U entries from by
    simpa using hacc providers [] providers' h
  intro entries
  induction entries with
  | nil =>
      intro acc result h
      simp [canonicalProviders, (pure_eq_ok.mp h).symm]
  | cons entry entries ih =>
      intro acc result h
      rw [List.foldlM_cons] at h
      obtain ⟨next, hnext, h⟩ := bind_eq_ok.mp h
      obtain ⟨name, hname, hnext⟩ := bind_eq_ok.mp hnext
      obtain ⟨hfresh, hnext⟩ := raiseIf_bind_eq_ok.mp hnext
      obtain ⟨s, hs, rfl⟩ := normalizeName_canonical hname
      cases hs
      have hmem : canonicalText U entry.1 ∉ Dict.keys acc := by
        intro hmem
        rw [Dict.contains, Option.isSome_eq_false_iff, Option.isNone_iff_eq_none] at hfresh
        exact Dict.get?_eq_none_iff.mp hfresh hmem
      rw [ih _ _ h, ← pure_eq_ok.mp hnext, Dict.set_of_not_mem hmem]
      simp [canonicalProviders]

/-- Two loops one after the other, both turns of which compute a function together. -/
theorem twice_eq_map {g : Json → Py ModelError Json} {k : Json → Json} {xs ys zs : List Json}
    (hf : xs.mapM f = .ok ys) (hg : ys.mapM g = .ok zs)
    (hk : ∀ x ∈ xs, ∀ y z, f x = .ok y → g y = .ok z → z = k x) : zs = xs.map k := by
  have hpairs := mapM_forall₂ hf
  have hpairs' := mapM_forall₂ hg
  clear hf hg
  induction hpairs generalizing zs with
  | nil =>
      cases hpairs'
      rfl
  | cons hxy _ ih =>
      cases hpairs' with
      | cons hyz hrest =>
          rw [List.map_cons, hk _ (by simp) _ _ hxy hyz, ih (fun x hx => hk x (by simp [hx])) hrest]

/-- The outbounds that `_canonicalize_user_names` returns. -/
theorem canonicalizeUserNames_outbounds {outbounds groups outbounds' groups' : List Json}
    {m m' : MihomoMeta} {route route' : Dict String Json}
    (h : canonicalizeUserNames U outbounds groups m route = .ok (outbounds', groups', m', route')) :
    outbounds' = outbounds.map (canonicalOutbound U) := by
  obtain ⟨outs, houts, h⟩ := bind_eq_ok.mp h
  obtain ⟨gs, -, h⟩ := bind_eq_ok.mp h
  obtain ⟨proxies, -, h⟩ := bind_eq_ok.mp h
  obtain ⟨rules, -, h⟩ := bind_eq_ok.mp h
  obtain ⟨outs', houts', h⟩ := bind_eq_ok.mp h
  obtain ⟨gs', -, h⟩ := bind_eq_ok.mp h
  obtain ⟨final, -, h⟩ := bind_eq_ok.mp h
  cases pure_eq_ok.mp h
  exact twice_eq_map houts houts' fun x _ y z => outbound_canonical

theorem get?_canonicalOutbound_type :
    (canonicalOutbound U outbound).get? "type" = outbound.get? "type" := by
  cases outbound with
  | obj fields =>
      rw [canonicalOutbound, onFields, Json.get?, get?_canonicalItems_ne (by simp),
        get?_canonicalField_ne (by simp)]
      split
      · exact get?_canonicalField_ne (by simp)
      · rfl
  | _ => rfl

/-- The tag of an outbound that is no proxy is not the user's. -/
theorem get?_canonicalOutbound_tag (h : isProxyOutbound outbound = false) :
    (canonicalOutbound U outbound).get? "tag" = outbound.get? "tag" := by
  cases outbound with
  | obj fields =>
      rw [canonicalOutbound, h, onFields, Json.get?, get?_canonicalItems_ne (by simp),
        get?_canonicalField_ne (by simp)]
      rfl
  | _ => rfl

theorem isProxyOutbound_direct (h : hasType "direct" outbound = true) :
    isProxyOutbound outbound = false := by
  rw [hasType, decide_eq_true_eq] at h
  rw [isProxyOutbound, getD_of_get? h]
  simp [Json.str?, proxyOutboundTypes]

theorem directTags_canonical {outbounds : List Json} :
    directTags (outbounds.map (canonicalOutbound U)) = directTags outbounds := by
  induction outbounds with
  | nil => rfl
  | cons outbound outbounds ih =>
      have htype : hasType "direct" (canonicalOutbound U outbound) = hasType "direct" outbound := by
        rw [hasType, hasType, get?_canonicalOutbound_type]
      unfold directTags outboundTags at ih ⊢
      cases hdirect : hasType "direct" outbound with
      | false =>
          rw [List.map_cons, List.filter_cons_of_neg (by rw [htype, hdirect]; simp),
            List.filter_cons_of_neg (by rw [hdirect]; simp), ih]
      | true =>
          rw [List.map_cons, List.filter_cons_of_pos (by rw [htype, hdirect]),
            List.filter_cons_of_pos hdirect, List.filterMap_cons, List.filterMap_cons, ih,
            get?_canonicalOutbound_tag (isProxyOutbound_direct hdirect)]

/-- The whole of `_canonicalize_user_names`, where the member lists are lists. -/
theorem canonicalizeUserNames_canonical {outbounds groups outbounds' groups' : List Json}
    {m m' : MihomoMeta} {route route' : Dict String Json}
    (hlisted : ∀ group ∈ groups, MembersListed group)
    (h : canonicalizeUserNames U outbounds groups m route = .ok (outbounds', groups', m', route')) :
    outbounds' = outbounds.map (canonicalOutbound U) ∧ groups' = groups.map (canonicalGroupOf U) ∧
      m' = canonicalMeta U m ∧ route' = canonicalRoute U route := by
  obtain ⟨outs, houts, h⟩ := bind_eq_ok.mp h
  obtain ⟨gs, hgs, h⟩ := bind_eq_ok.mp h
  obtain ⟨proxies, hproxies, h⟩ := bind_eq_ok.mp h
  obtain ⟨rules, hrules, h⟩ := bind_eq_ok.mp h
  obtain ⟨outs', houts', h⟩ := bind_eq_ok.mp h
  obtain ⟨gs', hgs', h⟩ := bind_eq_ok.mp h
  obtain ⟨final, hfinal, h⟩ := bind_eq_ok.mp h
  cases pure_eq_ok.mp h
  refine ⟨twice_eq_map houts houts' fun x _ y z => outbound_canonical, twice_eq_map hgs hgs' fun x hx y z => group_canonical (hlisted x hx), ?_,
    referRoute_canonical hfinal⟩
  rw [canonicalMeta, nameProviders_canonical hproxies, nameProviders_canonical hrules]

end ProxyGateway.Schema
