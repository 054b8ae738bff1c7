import ProxyGateway.Mosdns.Contract

set_option autoImplicit false

/-!
# ProxyGateway.Mosdns.Graph

What `checked_graph` establishes, as an equivalence (`checkedGraph_iff`), and that it is kept when
the plugins are bound to the machine (`Checked.bound`).
-/

namespace ProxyGateway.Mosdns

open Py Json Schema

variable {H : Host} {doc current : Json} {graph live : Graph} {fields : Dict String Json} {ip : String}

/-! ### Fields -/

theorem mem_keys_of_sameKeys {names : List String} (h : sameKeys fields names = true) {key : String} :
    key ∈ Dict.keys fields ↔ key ∈ names := by
  rw [sameKeys, Bool.and_eq_true, List.all_eq_true, List.all_eq_true] at h
  exact ⟨fun hkey => of_decide_eq_true (h.1 key hkey), fun hkey => of_decide_eq_true (h.2 key hkey)⟩

theorem sameKeys_set {names : List String} {key : String} {v : Json} (h : sameKeys fields names = true)
    (hkey : key ∈ names) : sameKeys (Dict.set fields key v) names = true := by
  rwa [sameKeys, Dict.keys_set, if_pos ((mem_keys_of_sameKeys h).mpr hkey)]

theorem getD_set_self {key : String} {v d : Json} : (Json.obj (Dict.set fields key v)).getD key d = v := by
  simp [getD, get?]

theorem getD_set_ne {key key' : String} {v d : Json} (h : key ≠ key') :
    (Json.obj (Dict.set fields key v)).getD key' d = (Json.obj fields).getD key' d := by
  simp [getD, get?, Dict.get?_set_ne h]

/-! ### Entries -/

/-- An entry of the graph: a plugin with its tag, of the type that the contract has for it. -/
structure Entry (entry : String × Plugin) : Prop where
  keys : sameKeys entry.2 ["tag", "type", "args"] = true
  tag : (Json.obj entry.2).getD "tag" .null = .str entry.1
  type : typeOf entry.2 = requiredType entry.1

/-- The loop over the plugin entries. -/
theorem collectPlugins_iff {entries : List Json} {acc : Graph} :
    entries.foldlM collectPlugin acc = .ok graph ↔
      ∃ new : Graph, entries = new.map (fun entry => .obj entry.2) ∧ graph = acc ++ new ∧
        (∀ entry ∈ new, Entry entry) ∧ new.keys.Nodup ∧ ∀ tag ∈ new.keys, tag ∉ acc.keys := by
  induction entries generalizing acc with
  | nil =>
      rw [List.foldlM_nil, pure_eq_ok]
      constructor
      · rintro rfl
        exact ⟨[], rfl, (List.append_nil _).symm, by simp, List.nodup_nil, by simp⟩
      · rintro ⟨new, hnil, rfl, -⟩
        rw [List.map_eq_nil_iff.mp hnil.symm, List.append_nil]
  | cons value entries ih =>
      rw [List.foldlM_cons]
      constructor
      · intro h
        obtain ⟨mid, hmid, h⟩ := bind_eq_ok.mp h
        obtain ⟨new, hentries, rfl, hnew, hnodup, hfresh⟩ := ih.mp h
        cases value with
        | obj plugin =>
            obtain ⟨hkeys, hmid⟩ := raiseIf_bind_eq_ok.mp hmid
            split at hmid
            · next tag htag =>
              obtain ⟨hknown, hmid⟩ := raiseIf_bind_eq_ok.mp hmid
              rw [Bool.or_eq_false_iff, decide_eq_false_iff_not, not_not] at hknown
              obtain ⟨hcontains, htype⟩ := hknown
              have hnot : tag ∉ acc.keys := by
                rw [← Dict.get?_eq_none_iff, ← Option.isNone_iff_eq_none]
                simpa [Dict.contains] using hcontains
              -- a new tag stands behind the others
              have hset : mid = acc ++ [(tag, plugin)] := by
                rw [← pure_eq_ok.mp hmid]
                exact Dict.set_of_not_mem hnot
              subst hset
              refine ⟨(tag, plugin) :: new, by rw [List.map_cons, hentries], by simp,
                List.forall_mem_cons.mpr ⟨⟨by simpa using hkeys, htag, htype.symm⟩, hnew⟩, ?_, ?_⟩
              · rw [Dict.keys_cons, List.nodup_cons]
                exact ⟨fun hmem => hfresh tag hmem (by simp [Dict.keys]), hnodup⟩
              · rw [Dict.keys_cons, List.forall_mem_cons]
                exact ⟨hnot, fun t ht hacc => hfresh t ht (by simp [Dict.keys] at hacc ⊢; exact .inl hacc)⟩
            · simp at hmid
        | _ => simp [collectPlugin] at hmid
      · rintro ⟨new, hentries, rfl, hnew, hnodup, hfresh⟩
        cases new with
        | nil => simp at hentries
        | cons entry new =>
            obtain ⟨tag, plugin⟩ := entry
            rw [List.map_cons, List.cons.injEq] at hentries
            obtain ⟨rfl, hentries⟩ := hentries
            obtain ⟨hentry, hrest⟩ := List.forall_mem_cons.mp hnew
            rw [Dict.keys_cons, List.nodup_cons] at hnodup
            rw [Dict.keys_cons, List.forall_mem_cons] at hfresh
            have hcontains : Dict.contains acc tag = false := by
              rw [Dict.contains, Dict.get?_eq_none_iff.mpr hfresh.1]
              rfl
            have hturn : collectPlugin acc (.obj plugin) = .ok (acc ++ [(tag, plugin)]) := by
              have hkeys := hentry.keys
              have htag := hentry.tag
              have htype := hentry.type
              simp only at hkeys htag htype
              simp only [collectPlugin, hkeys, htag, htype, hcontains, raiseIf, ← Dict.set_of_not_mem hfresh.1,
                ne_eq, not_true_eq_false, decide_false, Bool.or_self, Bool.not_true, Bool.false_eq_true,
                if_false, ok_bind]
              rfl
            rw [hturn, ok_bind, ih]
            refine ⟨new, hentries, by simp, hrest, hnodup.2, fun t ht hmem => ?_⟩
            simp only [Dict.keys, List.map_append, List.mem_append, List.map_cons, List.map_nil,
              List.mem_singleton] at hmem
            rcases hmem with hmem | rfl
            · exact hfresh.2 t ht hmem
            · exact hnodup.1 ht

/-- The plugin entries of a graph, as a document lists them. -/
def pluginList (graph : Graph) : List Json := graph.map (fun entry => .obj entry.2)

/-- The checks on one entry. -/
def checkEntry (H : Host) (entry : String × Plugin) : Py String Unit :=
  checkArgs H entry.1 (typeOf entry.2) ((Json.obj entry.2).getD "args" .null)

/-- What is known of a graph. -/
structure Managed (H : Host) (graph : Graph) : Prop where
  entries : ∀ entry ∈ graph, Entry entry
  nodup : graph.keys.Nodup
  tags : ∀ tag, tag ∈ graph.keys ↔ tag ∈ requiredMosdns.keys
  args : ∀ entry ∈ graph, checkEntry H entry = .ok ()

/-- What is known of a document with its graph. -/
structure Checked (H : Host) (fields : Dict String Json) (graph : Graph) : Prop where
  top : checkTop fields = .ok ()
  plugins : Dict.get? fields "plugins" = some (.arr (pluginList graph))
  managed : Managed H graph

theorem Managed.length (h : Managed H graph) : graph.length = requiredMosdns.length := by
  have hperm : graph.keys.Perm requiredMosdns.keys :=
    (List.perm_ext_iff_of_nodup h.nodup (by decide)).mpr h.tags
  simpa [Dict.keys] using hperm.length_eq

theorem checkedGraph_iff : checkedGraph H doc = .ok graph ↔
    ∃ fields, doc = .obj fields ∧ Checked H fields graph := by
  constructor
  · intro h
    cases doc with
    | obj fields =>
        obtain ⟨htop, h⟩ := unit_bind_eq_ok.mp h
        split at h
        · next entries hentries =>
          obtain ⟨-, h⟩ := raiseIf_bind_eq_ok.mp h
          obtain ⟨found, hfound, h⟩ := bind_eq_ok.mp h
          obtain ⟨htags, h⟩ := raiseIf_bind_eq_ok.mp h
          obtain ⟨hargs, h⟩ := unit_bind_eq_ok.mp h
          have hsame := pure_eq_ok.mp h
          subst hsame
          obtain ⟨new, hlist, hgraph, hnew, hnodup, -⟩ := collectPlugins_iff.mp hfound
          rw [List.nil_append] at hgraph
          subst hgraph
          simp only [Bool.not_eq_false', Bool.and_eq_true, List.all_eq_true, decide_eq_true_eq] at htags
          have hget : Dict.get? fields "plugins" = some (.arr entries) := by
            cases hvalue : Dict.get? fields "plugins" with
            | none => simp [getD, get?, hvalue] at hentries
            | some value => simpa [getD, get?, hvalue] using hentries
          exact ⟨fields, rfl, htop, by rw [hget, hlist]; rfl,
            hnew, hnodup, fun tag => ⟨htags.1 tag, htags.2 tag⟩, forM_eq_ok.mp hargs⟩
        · simp at h
    | _ => simp [checkedGraph] at h
  · rintro ⟨fields, rfl, h⟩
    have hentries : (Json.obj fields).getD "plugins" .null = .arr (pluginList graph) := by
      simp [getD, get?, h.plugins]
    have hcollect : (pluginList graph).foldlM collectPlugin [] = .ok graph :=
      collectPlugins_iff.mpr ⟨graph, rfl, rfl, h.managed.entries, h.managed.nodup, by simp⟩
    have htags : (graph.keys.all (fun tag => decide (tag ∈ requiredMosdns.keys)) &&
        requiredMosdns.keys.all (fun tag => decide (tag ∈ graph.keys))) = true := by
      simp only [Bool.and_eq_true, List.all_eq_true, decide_eq_true_eq]
      exact ⟨fun tag => (h.managed.tags tag).mp, fun tag => (h.managed.tags tag).mpr⟩
    have hlength : (pluginList graph).length = requiredMosdns.length := by
      rw [pluginList, List.length_map, h.managed.length]
    have hargs : graph.forM (fun entry => checkArgs H entry.1 (typeOf entry.2)
        ((Json.obj entry.2).getD "args" .null)) = .ok () := forM_eq_ok.mpr h.managed.args
    rw [checkedGraph]
    simp only [h.top, hentries, hlength, hcollect, htags, hargs, ok_bind, raiseIf]
    rfl

/-! ### Binding keeps the graph -/

/-- The type of a tag of the contract. -/
theorem requiredType_cases {tag : String} (h : tag ∈ requiredMosdns.keys) :
    ∃ typ ∈ ["forward", "domain_set", "ip_set", "ecs_handler", "rate_limiter", "cache", "udp_server",
      "tcp_server", "sequence"], requiredType tag = .str typ := by
  have hall : ∀ tag ∈ requiredMosdns.keys, ∃ typ ∈ ["forward", "domain_set", "ip_set", "ecs_handler",
      "rate_limiter", "cache", "udp_server", "tcp_server", "sequence"], requiredType tag = .str typ := by
    decide
  exact hall tag h

/-- The plugin of a tag. -/
theorem Managed.get (h : Managed H graph) {tag : String} (htag : tag ∈ requiredMosdns.keys) :
    ∃ plugin, Dict.get? graph tag = some plugin ∧ Entry (tag, plugin) ∧ checkEntry H (tag, plugin) = .ok () := by
  obtain ⟨plugin, hget⟩ := Option.isSome_iff_exists.mp (Dict.get?_isSome_iff.mpr ((h.tags tag).mpr htag))
  have hmem := Dict.mem_of_get? hget
  exact ⟨plugin, hget, h.entries _ hmem, h.args _ hmem⟩

theorem argsOf_eq {tag : String} {plugin : Plugin} (h : Dict.get? graph tag = some plugin) :
    argsOf graph tag = (Json.obj plugin).getD "args" .null := by
  rw [argsOf, h]
  rfl

/-- The arguments of a tag are checked. -/
theorem Managed.checkArgs (h : Managed H graph) {tag : String} (htag : tag ∈ requiredMosdns.keys) :
    checkArgs H tag (requiredType tag) (argsOf graph tag) = .ok () := by
  obtain ⟨plugin, hget, hentry, hargs⟩ := h.get htag
  rw [argsOf_eq hget, ← hentry.type]
  exact hargs

/-- Which fields belong to the machine, by the type of the plugin. -/
theorem machineFields_eq (h : Managed H live) {tag : String} (htag : tag ∈ requiredMosdns.keys) :
    machineFields live tag =
      if requiredType tag = .str "ip_set" then ["ips"]
      else if tag = "dot_server" then ["cert", "key", "listen"]
      else if requiredType tag = .str "udp_server" ∨ requiredType tag = .str "tcp_server" then ["listen"]
      else if requiredType tag = .str "domain_set" then ["files"]
      else if requiredType tag = .str "cache" ∧ isInteger ((argsOf live tag).getD "size" .null) then ["size"]
      else [] := by
  obtain ⟨plugin, hget, hentry, -⟩ := h.get htag
  have htype : typeOf ((Dict.get? live tag).getD []) = requiredType tag := by
    rw [hget]
    exact hentry.type
  have htags : (tag = "npn_clients" ↔ requiredType tag = .str "ip_set") ∧
      (tag = "lazy_cache" ↔ requiredType tag = .str "cache") ∧
      ((tag = "udp_server" ∨ tag = "tcp_server" ∨ tag = "dot_server") ↔
        (requiredType tag = .str "udp_server" ∨ requiredType tag = .str "tcp_server")) := by
    have hall : ∀ tag ∈ requiredMosdns.keys, (tag = "npn_clients" ↔ requiredType tag = .str "ip_set") ∧
      (tag = "lazy_cache" ↔ requiredType tag = .str "cache") ∧
      ((tag = "udp_server" ∨ tag = "tcp_server" ∨ tag = "dot_server") ↔
        (requiredType tag = .str "udp_server" ∨ requiredType tag = .str "tcp_server")) := by
      decide
    exact hall tag htag
  unfold machineFields
  rw [htype]
  by_cases hdot : tag = "dot_server"
  · subst hdot
    rfl
  · have hservers := htags.2.2
    simp only [hdot, or_false] at hservers
    simp only [htags.1, htags.2.1, hservers, hdot, if_false]

/-- A value with a known field is an object. -/
theorem obj_of_sameKeys {args : Json} {name : String} {names : List String}
    (h : sameKeys (args.fields?.getD []) (name :: names) = true) :
    ∃ fields, args = .obj fields ∧ sameKeys fields (name :: names) = true := by
  cases args with
  | obj fields => exact ⟨fields, rfl, h⟩
  | _ => simp [sameKeys, fields?] at h

/-- Fields that are taken over, one after the other. -/
theorem takeFields (theirs : Json) (taken : List String) (fields : Dict String Json) :
    ∃ fields', taken.foldl (takeField theirs) (.obj fields) = .obj fields' ∧
      (∀ key, Dict.get? fields' key =
        if key ∈ taken then some (theirs.getD key .null) else Dict.get? fields key) ∧
      ∀ names, sameKeys fields names = true → (∀ name ∈ taken, name ∈ names) →
        sameKeys fields' names = true := by
  induction taken generalizing fields with
  | nil => exact ⟨fields, rfl, fun key => by simp, fun names h _ => h⟩
  | cons name taken ih =>
      obtain ⟨fields', hfold, hget, hkeys⟩ := ih (Dict.set fields name (theirs.getD name .null))
      refine ⟨fields', hfold, fun key => ?_, fun names h hsub => ?_⟩
      · rw [hget key]
        by_cases hkey : key ∈ taken
        · simp [hkey]
        · by_cases hname : name = key
          · simp [hname]
          · simp [hkey, Dict.get?_set_ne hname, Ne.symm hname]
      · exact hkeys names (sameKeys_set h (hsub name (by simp))) fun n hn =>
          hsub n (List.mem_cons_of_mem name hn)

/-- A field of arguments with fields that were taken over. -/
theorem getD_taken {theirs : Json} {taken : List String} {fields' : Dict String Json}
    (h : ∀ key, Dict.get? fields' key =
      if key ∈ taken then some (theirs.getD key .null) else Dict.get? fields key) (key : String) :
    (Json.obj fields').getD key .null =
      if key ∈ taken then theirs.getD key .null else (Json.obj fields).getD key .null := by
  rw [getD, get?, h key]
  split
  · rfl
  · rfl

theorem checkDomainSet_iff {args : Json} : checkDomainSet args = .ok () ↔
    sameKeys (args.fields?.getD []) ["files"] = true ∧ isFileList (args.getD "files" .null) = true := by
  rw [checkDomainSet, raiseIf_eq_ok, Bool.not_eq_false', Bool.and_eq_true]

theorem checkIpSet_iff {args : Json} : checkIpSet H args = .ok () ↔
    sameKeys (args.fields?.getD []) ["ips"] = true ∧
      (isList (args.getD "ips" .null) && !(args.getD "ips" .null).entries.isEmpty &&
        (args.getD "ips" .null).entries.all (isNetwork H)) = true := by
  rw [checkIpSet, raiseIf_bind_eq_ok, raiseIf_eq_ok]
  simp only [Bool.not_eq_false', Bool.and_eq_true]
  tauto

theorem checkCache_iff {args : Json} : checkCache args = .ok () ↔
    sameKeys (args.fields?.getD []) ["size", "lazy_cache_ttl"] = true ∧
      isCacheSize (args.getD "size" .null) = true ∧
      isIntIn 60 604800 (args.getD "lazy_cache_ttl" .null) = true := by
  rw [checkCache, raiseIf_eq_ok]
  simp only [Bool.not_eq_false', Bool.and_eq_true, and_assoc]

theorem checkServer_iff {tag : String} {args : Json} : checkServer tag args = .ok () ↔
    sameKeys (args.fields?.getD [])
        (if tag = "dot_server" then ["entry", "listen", "cert", "key"] else ["entry", "listen"]) = true ∧
      args.getD "entry" .null = .str "main_sequence" ∧ isStr (args.getD "listen" .null) = true ∧
      (tag = "dot_server" → isStr (args.getD "cert" .null) = true ∧ isStr (args.getD "key" .null) = true) := by
  rw [checkServer, raiseIf_eq_ok]
  simp only [Bool.not_eq_false', Bool.and_eq_true, and_assoc, decide_eq_true_eq, Bool.or_eq_true,
    ne_eq, decide_not, Bool.not_eq_true', decide_eq_false_iff_not, imp_iff_not_or]

/-- Arguments of a type that the machine has no fields of are left as they are. -/
theorem boundArgs_nil {tag : String} {args : Json} (hne : tag ≠ "internal_sequence")
    (h : machineFields live tag = []) : boundArgs live tag args = args := by
  rw [boundArgs, if_neg hne, h]
  rfl

/-- Arguments that take fields over keep their keys. -/
theorem boundArgs_taken {tag name : String} {names taken : List String} {args : Json}
    (hne : tag ≠ "internal_sequence") (h : machineFields live tag = taken)
    (hkeys : sameKeys (args.fields?.getD []) (name :: names) = true)
    (hsub : ∀ field ∈ taken, field ∈ name :: names) :
    sameKeys ((boundArgs live tag args).fields?.getD []) (name :: names) = true ∧
      ∀ key, (boundArgs live tag args).getD key .null =
        if key ∈ taken then (argsOf live tag).getD key .null else args.getD key .null := by
  obtain ⟨fields, rfl, hfields⟩ := obj_of_sameKeys hkeys
  obtain ⟨fields', hfold, hget, hnames⟩ := takeFields (argsOf live tag) taken fields
  rw [boundArgs, if_neg hne, h, hfold]
  exact ⟨hnames _ hfields hsub, getD_taken hget⟩

/-- Only a sequence answers. -/
theorem answeringArgs_of_ne {typ : String} {args : Json} (h : typ ≠ "sequence") :
    answeringArgs ip (.str typ) args = args := by
  unfold answeringArgs
  split
  · next heq => exact absurd (Json.str.inj heq) h
  · rfl

/-- Arguments that are bound to the machine pass the check of their type. -/
theorem checkArgs_bound (hg : Managed H graph) (hl : Managed H live) {tag : String}
    (htag : tag ∈ requiredMosdns.keys) :
    checkArgs H tag (requiredType tag)
      (answeringArgs ip (requiredType tag) (boundArgs live tag (argsOf graph tag))) = .ok () := by
  have hown := hg.checkArgs htag
  have htheirs := hl.checkArgs htag
  have hmachine := machineFields_eq hl htag
  obtain ⟨typ, htyp, hreq⟩ := requiredType_cases htag
  have hne : typ ≠ "sequence" → tag ≠ "internal_sequence" := by
    rintro hne rfl
    exact hne (Json.str.inj hreq).symm
  have hdot : typ ≠ "tcp_server" → tag ≠ "dot_server" := by
    rintro htcp rfl
    exact htcp (Json.str.inj hreq).symm
  have hsame : typ ≠ "sequence" → answeringArgs ip (.str typ) (boundArgs live tag (argsOf graph tag)) =
      boundArgs live tag (argsOf graph tag) := answeringArgs_of_ne
  rw [hreq] at hown htheirs hmachine ⊢
  simp only [List.mem_cons, List.not_mem_nil, or_false] at htyp
  rcases htyp with rfl | rfl | rfl | rfl | rfl | rfl | rfl | rfl | rfl
  -- forward, ecs_handler, rate_limiter: nothing of theirs belongs to the machine
  · rw [hsame (by decide)]
    have hfields : machineFields live tag = [] := by simpa [hdot] using hmachine
    rwa [boundArgs_nil (hne (by decide)) hfields]
  · rw [hsame (by decide)]
    have hfields : machineFields live tag = ["files"] := by simpa [hdot] using hmachine
    obtain ⟨hkeys, hfiles⟩ := checkDomainSet_iff.mp hown
    obtain ⟨-, htheirs⟩ := checkDomainSet_iff.mp htheirs
    obtain ⟨hkeys', hget⟩ := boundArgs_taken (hne (by decide)) hfields hkeys (by simp)
    exact checkDomainSet_iff.mpr ⟨hkeys', by rw [hget]; exact htheirs⟩
  · rw [hsame (by decide)]
    have hfields : machineFields live tag = ["ips"] := by simpa using hmachine
    obtain ⟨hkeys, hips⟩ := checkIpSet_iff.mp hown
    obtain ⟨-, htheirs⟩ := checkIpSet_iff.mp htheirs
    obtain ⟨hkeys', hget⟩ := boundArgs_taken (hne (by decide)) hfields hkeys (by simp)
    exact checkIpSet_iff.mpr ⟨hkeys', by rw [hget]; exact htheirs⟩
  · rw [hsame (by decide)]
    have hfields : machineFields live tag = [] := by simpa [hdot] using hmachine
    rwa [boundArgs_nil (hne (by decide)) hfields]
  · rw [hsame (by decide)]
    have hfields : machineFields live tag = [] := by simpa [hdot] using hmachine
    rwa [boundArgs_nil (hne (by decide)) hfields]
  · rw [hsame (by decide)]
    obtain ⟨hkeys, hsize, httl⟩ := checkCache_iff.mp hown
    obtain ⟨-, htheirs, -⟩ := checkCache_iff.mp htheirs
    by_cases hint : isInteger ((argsOf live tag).getD "size" .null) = true
    · have hfields : machineFields live tag = ["size"] := by simpa [hdot, hint] using hmachine
      obtain ⟨hkeys', hget⟩ := boundArgs_taken (hne (by decide)) hfields hkeys (by simp)
      exact checkCache_iff.mpr ⟨hkeys', by rw [hget]; exact htheirs, by rw [hget]; exact httl⟩
    · have hfields : machineFields live tag = [] := by simpa [hdot, hint] using hmachine
      rwa [boundArgs_nil (hne (by decide)) hfields]
  · rw [hsame (by decide)]
    have hfields : machineFields live tag = ["listen"] := by simpa [hdot] using hmachine
    obtain ⟨hkeys, hentry, -, -⟩ := checkServer_iff.mp hown
    obtain ⟨-, -, hlisten, -⟩ := checkServer_iff.mp htheirs
    rw [if_neg (hdot (by decide))] at hkeys
    obtain ⟨hkeys', hget⟩ := boundArgs_taken (hne (by decide)) hfields hkeys (by simp)
    exact checkServer_iff.mpr ⟨by rwa [if_neg (hdot (by decide))], by rw [hget]; exact hentry,
      by rw [hget]; exact hlisten, fun heq => absurd heq (hdot (by decide))⟩
  · rw [hsame (by decide)]
    obtain ⟨hkeys, hentry, -, -⟩ := checkServer_iff.mp hown
    obtain ⟨-, -, hlisten, hpair⟩ := checkServer_iff.mp htheirs
    by_cases heq : tag = "dot_server"
    · have hfields : machineFields live tag = ["cert", "key", "listen"] := by simpa [heq] using hmachine
      rw [if_pos heq] at hkeys
      obtain ⟨hkeys', hget⟩ := boundArgs_taken (hne (by decide)) hfields hkeys (by simp)
      exact checkServer_iff.mpr ⟨by rwa [if_pos heq], by rw [hget]; exact hentry,
        by rw [hget]; exact hlisten, fun _ => ⟨by rw [hget]; exact (hpair heq).1,
          by rw [hget]; exact (hpair heq).2⟩⟩
    · have hfields : machineFields live tag = ["listen"] := by simpa [heq] using hmachine
      rw [if_neg heq] at hkeys
      obtain ⟨hkeys', hget⟩ := boundArgs_taken (hne (by decide)) hfields hkeys (by simp)
      exact checkServer_iff.mpr ⟨by rwa [if_neg heq], by rw [hget]; exact hentry,
        by rw [hget]; exact hlisten, fun h => absurd h heq⟩
  -- a sequence stays a list
  · have hfields : tag ≠ "internal_sequence" → machineFields live tag = [] := fun _ => by
      simpa [hdot] using hmachine
    have hlist : isList (boundArgs live tag (argsOf graph tag)) = true := by
      by_cases heq : tag = "internal_sequence"
      · rw [boundArgs, if_pos heq]
        simpa using raiseIf_eq_ok.mp htheirs
      · rw [boundArgs_nil heq (hfields heq)]
        simpa using raiseIf_eq_ok.mp hown
    refine raiseIf_eq_ok.mpr ?_
    cases hargs : boundArgs live tag (argsOf graph tag) with
    | arr items => rfl
    | _ => simp [hargs, isList] at hlist

/-! ### The bound graph -/

/-- The arguments that a plugin is bound to. -/
def newArgs (live : Graph) (ip tag : String) (plugin : Plugin) : Json :=
  answeringArgs ip (typeOf plugin) (boundArgs live tag ((Json.obj plugin).getD "args" .null))

theorem getD_boundPlugin {tag key : String} {plugin : Plugin} (h : key ≠ "args") :
    (Json.obj (boundPlugin live ip tag plugin)).getD key .null = (Json.obj plugin).getD key .null :=
  getD_set_ne h.symm

@[simp] theorem typeOf_boundPlugin {tag : String} {plugin : Plugin} :
    typeOf (boundPlugin live ip tag plugin) = typeOf plugin :=
  getD_boundPlugin (by decide)

@[simp] theorem args_boundPlugin {tag : String} {plugin : Plugin} :
    (Json.obj (boundPlugin live ip tag plugin)).getD "args" .null = newArgs live ip tag plugin :=
  getD_set_self

@[simp] theorem keys_boundGraph : (boundGraph live ip graph).keys = graph.keys := by
  simp [boundGraph, Dict.keys]

theorem get?_boundGraph {tag : String} :
    Dict.get? (boundGraph live ip graph) tag = (Dict.get? graph tag).map (boundPlugin live ip tag) := by
  induction graph with
  | nil => rfl
  | cons entry graph ih =>
      obtain ⟨name, plugin⟩ := entry
      change Dict.get? ((name, boundPlugin live ip name plugin) :: boundGraph live ip graph) tag = _
      rw [Dict.get?_cons, Dict.get?_cons, ih]
      split
      · next heq => rw [heq, Option.map_some]
      · rfl

/-- The arguments of a tag in the bound graph. -/
theorem argsOf_boundGraph {tag : String} {plugin : Plugin} (h : Dict.get? graph tag = some plugin) :
    argsOf (boundGraph live ip graph) tag = newArgs live ip tag plugin := by
  have hget : Dict.get? (boundGraph live ip graph) tag = some (boundPlugin live ip tag plugin) := by
    rw [get?_boundGraph, h, Option.map_some]
  rw [argsOf_eq hget, args_boundPlugin]

theorem Entry.bound {tag : String} {plugin : Plugin} (h : Entry (tag, plugin)) :
    Entry (tag, boundPlugin live ip tag plugin) where
  keys := sameKeys_set h.keys (by simp)
  tag := by rw [getD_boundPlugin (by decide)]; exact h.tag
  type := by rw [typeOf_boundPlugin]; exact h.type

/-- Binding keeps what is known of a graph. -/
theorem Managed.bound (hg : Managed H graph) (hl : Managed H live) :
    Managed H (boundGraph live ip graph) where
  entries := by
    rintro entry hentry
    obtain ⟨⟨tag, plugin⟩, hmem, rfl⟩ := List.mem_map.mp hentry
    exact (hg.entries _ hmem).bound
  nodup := by rw [keys_boundGraph]; exact hg.nodup
  tags := by simpa using hg.tags
  args := by
    rintro entry hentry
    obtain ⟨⟨tag, plugin⟩, hmem, rfl⟩ := List.mem_map.mp hentry
    have htag : tag ∈ requiredMosdns.keys := (hg.tags tag).mp (List.mem_map_of_mem hmem)
    have hget : Dict.get? graph tag = some plugin := Dict.Uniq.get?_of_mem hg.nodup hmem
    have htype : typeOf plugin = requiredType tag := (hg.entries _ hmem).type
    rw [checkEntry, typeOf_boundPlugin, args_boundPlugin, newArgs, htype, ← argsOf_eq hget]
    exact checkArgs_bound hg hl htag

theorem withPlugins_obj : withPlugins (.obj fields) graph =
    .obj (Dict.set fields "plugins" (.arr (pluginList graph))) := rfl

/-- Other top-level fields decide the check of the top level. -/
theorem checkTop_set (h : Dict.get? fields "plugins" ≠ none) {v : Json} :
    checkTop (Dict.set fields "plugins" v) = checkTop fields := by
  have hmem : "plugins" ∈ Dict.keys fields := by
    by_contra hnot
    exact h (Dict.get?_eq_none_iff.mpr hnot)
  have hlog : (Json.obj (Dict.set fields "plugins" v)).getD "log" .null =
      (Json.obj fields).getD "log" .null := getD_set_ne (by decide)
  have hkeys : extraKeys (Dict.set fields "plugins" v) ["log", "plugins"] =
      extraKeys fields ["log", "plugins"] := by
    rw [extraKeys, extraKeys, Dict.keys_set, if_pos hmem]
  rw [checkTop, checkTop, hlog, hkeys]

/-- Binding keeps what is known of a document. -/
theorem Checked.bound (hd : Checked H fields graph) (hl : Managed H live) :
    Checked H (Dict.set fields "plugins" (.arr (pluginList (boundGraph live ip graph))))
      (boundGraph live ip graph) where
  top := by
    rw [checkTop_set (by simp [hd.plugins])]
    exact hd.top
  plugins := Dict.get?_set_self _ _ _
  managed := hd.managed.bound hl

end ProxyGateway.Mosdns
