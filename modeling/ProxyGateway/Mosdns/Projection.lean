import ProxyGateway.Mosdns.Sequences

set_option autoImplicit false

/-!
# ProxyGateway.Mosdns.Projection

The contract as a projection: the merged document has what belongs to the machine from the
document in force and the rest from the incoming one (`Projected`), it is the result of merging
itself, and it can take the place of the document in force.
-/

namespace ProxyGateway.Mosdns

open Py Json Schema

variable {H : Host} {doc current result : Json} {graph live incoming : Graph}
  {fields currentFields : Dict String Json} {ip tag : String} {plugin : Plugin}

/-! ### The contract as an equivalence -/

/-- A graph that may come in. -/
structure Incoming (H : Host) (graph : Graph) : Prop where
  managed : Managed H graph
  sequences : validateManagedSequences graph = .ok ()
  references : checkReferences graph = .ok ()

/-- A graph that may be in force, with its address. -/
structure InForce (H : Host) (live : Graph) (ip : String) : Prop where
  managed : Managed H live
  files : ∀ entry ∈ live, checkRuleFiles H entry.1 entry.2 = .ok ()
  listeners : checkListeners live = .ok ()
  certificates : checkCertificates H live = .ok ()
  sequences : validateManagedSequences live = .ok ()
  identity : serverIp H live = .ok ip

theorem mosdnsContract_iff : mosdnsContract H doc (some current) = .ok result ↔
    ∃ fields graph currentFields live ip, doc = .obj fields ∧ Checked H fields graph ∧
      current = .obj currentFields ∧ Checked H currentFields live ∧ Incoming H graph ∧
      InForce H live ip ∧ result = withPlugins doc (boundGraph live ip graph) ∧
      hasPlaceholder result = false := by
  constructor
  · intro h
    obtain ⟨graph, hgraph, h⟩ := bind_eq_ok.mp h
    obtain ⟨live, hlive, h⟩ := bind_eq_ok.mp h
    obtain ⟨hfiles, h⟩ := unit_bind_eq_ok.mp h
    obtain ⟨hlisteners, h⟩ := unit_bind_eq_ok.mp h
    obtain ⟨hcertificates, h⟩ := unit_bind_eq_ok.mp h
    obtain ⟨hown, h⟩ := unit_bind_eq_ok.mp h
    obtain ⟨htheirs, h⟩ := unit_bind_eq_ok.mp h
    obtain ⟨hreferences, h⟩ := unit_bind_eq_ok.mp h
    obtain ⟨ip, hip, h⟩ := bind_eq_ok.mp h
    obtain ⟨hplaceholder, h⟩ := raiseIf_bind_eq_ok.mp h
    obtain rfl := pure_eq_ok.mp h
    obtain ⟨fields, rfl, hchecked⟩ := checkedGraph_iff.mp hgraph
    obtain ⟨currentFields, rfl, hcurrent⟩ := checkedGraph_iff.mp hlive
    exact ⟨fields, graph, currentFields, live, ip, rfl, hchecked, rfl, hcurrent,
      ⟨hchecked.managed, hown, hreferences⟩,
      ⟨hcurrent.managed, forM_eq_ok.mp hfiles, hlisteners, hcertificates, htheirs, hip⟩, rfl, hplaceholder⟩
  · rintro ⟨fields, graph, currentFields, live, ip, rfl, hchecked, rfl, hcurrent, hin, hforce, rfl, hplaceholder⟩
    have hgraph : checkedGraph H (.obj fields) = .ok graph := checkedGraph_iff.mpr ⟨fields, rfl, hchecked⟩
    have hlive : checkedGraph H (.obj currentFields) = .ok live :=
      checkedGraph_iff.mpr ⟨currentFields, rfl, hcurrent⟩
    have hfiles : live.forM (fun entry => checkRuleFiles H entry.1 entry.2) = .ok () :=
      forM_eq_ok.mpr hforce.files
    simp only [mosdnsContract, hgraph, hlive, hfiles, hforce.listeners, hforce.certificates, hin.sequences,
      hforce.sequences, hin.references, hforce.identity, hplaceholder, ok_bind, raiseIf]
    rfl

/-- The graph of a document is the only one. -/
theorem Checked.unique {graph' : Graph} (h : Checked H fields graph) (h' : Checked H fields graph') :
    graph = graph' := by
  have hgraph : checkedGraph H (.obj fields) = .ok graph := checkedGraph_iff.mpr ⟨fields, rfl, h⟩
  rw [checkedGraph_iff.mpr ⟨fields, rfl, h'⟩] at hgraph
  exact (Except.ok.inj hgraph).symm

/-! ### The arguments of the bound graph -/

theorem isObj_of_sameKeys {args : Json} {name : String} {names : List String}
    (h : sameKeys (args.fields?.getD []) (name :: names) = true) : ∃ fields, args = .obj fields :=
  (obj_of_sameKeys h).imp fun _ hfields => hfields.1

theorem isObj_of_checkServer {args : Json} (h : checkServer tag args = .ok ()) : ∃ fields, args = .obj fields := by
  have hkeys := (checkServer_iff.mp h).1
  split at hkeys
  · exact isObj_of_sameKeys hkeys
  · exact isObj_of_sameKeys hkeys

/-- The arguments of a type that is no sequence are an object. -/
theorem obj_of_checkArgs {args : Json} (htag : tag ∈ requiredMosdns.keys)
    (hne : requiredType tag ≠ .str "sequence") (h : checkArgs H tag (requiredType tag) args = .ok ()) :
    ∃ fields, args = .obj fields := by
  obtain ⟨name, hname, hrequired⟩ := requiredType_cases htag
  rw [hrequired] at h hne
  simp only [List.mem_cons, List.not_mem_nil, or_false] at hname
  rcases hname with rfl | rfl | rfl | rfl | rfl | rfl | rfl | rfl | rfl
  · have hkeys := (raiseIf_bind_eq_ok.mp h).1
    simp only [Bool.not_eq_false', Bool.and_eq_true, and_assoc] at hkeys
    exact isObj_of_sameKeys hkeys.1
  · exact isObj_of_sameKeys (checkDomainSet_iff.mp h).1
  · exact isObj_of_sameKeys (checkIpSet_iff.mp h).1
  · have hkeys := (raiseIf_bind_eq_ok.mp h).1
    simp only [Bool.not_eq_false', Bool.and_eq_true, and_assoc] at hkeys
    exact isObj_of_sameKeys hkeys.1
  · have hkeys := raiseIf_eq_ok.mp h
    simp only [Bool.not_eq_false', Bool.and_eq_true, and_assoc] at hkeys
    exact isObj_of_sameKeys hkeys.1
  · exact isObj_of_sameKeys (checkCache_iff.mp h).1
  · exact isObj_of_checkServer h
  · exact isObj_of_checkServer h
  · exact absurd rfl hne

theorem newArgs_of_ne (htype : typeOf plugin ≠ .str "sequence") (hne : tag ≠ "internal_sequence") :
    newArgs live ip tag plugin =
      (machineFields live tag).foldl (takeField (argsOf live tag)) ((Json.obj plugin).getD "args" .null) := by
  rw [newArgs, boundArgs, if_neg hne]
  unfold answeringArgs
  split
  · next heq _ => exact absurd heq htype
  · rfl

theorem ne_internal (h : requiredType tag ≠ .str "sequence") : tag ≠ "internal_sequence" := by
  rintro rfl
  exact h (by decide)

/-- The fields of the machine are those of the graph in force, the other fields are as they came in. -/
theorem argsOf_bound (hg : Managed H graph) (htag : tag ∈ requiredMosdns.keys)
    (hne : requiredType tag ≠ .str "sequence") (field : String) :
    (argsOf (boundGraph live ip graph) tag).getD field .null =
      if field ∈ machineFields live tag then (argsOf live tag).getD field .null
      else (argsOf graph tag).getD field .null := by
  obtain ⟨plugin, hget, hentry, hargs⟩ := hg.get htag
  have htype : typeOf plugin = requiredType tag := hentry.type
  rw [checkEntry, htype] at hargs
  obtain ⟨fields, hfields⟩ := obj_of_checkArgs htag hne hargs
  obtain ⟨fields', hfold, hget', -⟩ := takeFields (argsOf live tag) (machineFields live tag) fields
  rw [argsOf_boundGraph hget, argsOf_eq hget, newArgs_of_ne (by rwa [htype]) (ne_internal hne), hfields, hfold]
  exact getD_taken hget' field

/-- A sequence of the bound graph answers with the address of the machine; the hijack sequence is
that of the graph in force. -/
theorem argsOf_bound_sequence (hg : Managed H graph) (hl : Managed H live)
    (htag : tag ∈ requiredMosdns.keys) (hreq : requiredType tag = .str "sequence") :
    argsOf (boundGraph live ip graph) tag = answeringArgs ip (.str "sequence")
      (if tag = "internal_sequence" then argsOf live tag else argsOf graph tag) := by
  obtain ⟨plugin, hget, hentry, -⟩ := hg.get htag
  rw [argsOf_boundGraph hget, newArgs_sequence hl htag hreq hentry, argsOf_eq hget]

/-! ### Binding twice -/

theorem answeringArgs_twice {typ args : Json} :
    answeringArgs ip typ (answeringArgs ip typ args) = answeringArgs ip typ args := by
  cases hargs : args with
  | arr items =>
      by_cases htyp : typ = .str "sequence"
      · rw [htyp, answeringArgs, answeringArgs, List.map_map]
        congr 1
        exact List.map_congr_left fun item _ => answering_answering
      · have hsame : answeringArgs ip typ (.arr items) = .arr items := by
          unfold answeringArgs
          split
          · exact absurd rfl htyp
          · rfl
        rw [hsame, hsame]
  | _ =>
      unfold answeringArgs
      split
      · next heq => simp at heq
      · rfl

/-- Fields that are there already are taken over for nothing. -/
theorem takeFields_same {theirs : Json} {taken : List String}
    (h : ∀ field ∈ taken, Dict.get? fields field = some (theirs.getD field .null)) :
    taken.foldl (takeField theirs) (.obj fields) = .obj fields := by
  induction taken with
  | nil => rfl
  | cons field taken ih =>
      obtain ⟨hfield, hrest⟩ := List.forall_mem_cons.mp h
      rw [List.foldl_cons, takeField, Dict.set_of_get? hfield]
      exact ih hrest

/-- Only the values of these fields are taken over. -/
theorem takeFields_congr {theirs theirs' args : Json} {taken : List String}
    (h : ∀ field ∈ taken, theirs.getD field .null = theirs'.getD field .null) :
    taken.foldl (takeField theirs) args = taken.foldl (takeField theirs') args := by
  induction taken generalizing args with
  | nil => rfl
  | cons field taken ih =>
      obtain ⟨hfield, hrest⟩ := List.forall_mem_cons.mp h
      have hturn : takeField theirs args field = takeField theirs' args field := by
        cases args with
        | obj fields => rw [takeField, takeField, hfield]
        | _ => rfl
      rw [List.foldl_cons, List.foldl_cons, hturn]
      exact ih hrest

/-- A plugin that is bound is bound for good. -/
theorem newArgs_twice (hl : Managed H live) (htag : tag ∈ requiredMosdns.keys)
    (hentry : Entry (tag, plugin)) (hargs : checkEntry H (tag, plugin) = .ok ()) :
    newArgs live ip tag (boundPlugin live ip tag plugin) = newArgs live ip tag plugin := by
  have htype : typeOf plugin = requiredType tag := hentry.type
  by_cases hreq : requiredType tag = .str "sequence"
  · rw [newArgs_sequence hl htag hreq hentry.bound, args_boundPlugin, newArgs_sequence hl htag hreq hentry]
    split
    · rfl
    · exact answeringArgs_twice
  · have hne : typeOf plugin ≠ .str "sequence" := htype ▸ hreq
    rw [checkEntry, htype] at hargs
    obtain ⟨fields, hfields⟩ := obj_of_checkArgs htag hreq hargs
    obtain ⟨fields', hfold, hget, -⟩ := takeFields (argsOf live tag) (machineFields live tag) fields
    have hnew : newArgs live ip tag plugin = .obj fields' := by
      rw [newArgs_of_ne hne (ne_internal hreq), hfields, hfold]
    rw [newArgs_of_ne (by rwa [typeOf_boundPlugin]) (ne_internal hreq), args_boundPlugin, hnew]
    exact takeFields_same fun field hfield => by rw [hget, if_pos hfield]

/-- A graph in force that has the same of the machine binds to the same. -/
theorem newArgs_rebound (hl : Managed H live) (hl' : Managed H incoming) (htag : tag ∈ requiredMosdns.keys)
    (hentry : Entry (tag, plugin)) (hmachine : machineFields incoming tag = machineFields live tag)
    (hargs : ∀ field ∈ machineFields live tag,
      (argsOf incoming tag).getD field .null = (argsOf live tag).getD field .null)
    (hinternal : tag = "internal_sequence" →
      argsOf incoming tag = answeringArgs ip (.str "sequence") (argsOf live tag)) :
    newArgs incoming ip tag plugin = newArgs live ip tag plugin := by
  by_cases hreq : requiredType tag = .str "sequence"
  · rw [newArgs_sequence hl htag hreq hentry, newArgs_sequence hl' htag hreq hentry]
    split
    · next heq => rw [hinternal heq, answeringArgs_twice]
    · rfl
  · have hne : typeOf plugin ≠ .str "sequence" := by
      have htype : typeOf plugin = requiredType tag := hentry.type
      rwa [htype]
    rw [newArgs_of_ne hne (ne_internal hreq), newArgs_of_ne hne (ne_internal hreq), hmachine]
    exact takeFields_congr hargs

theorem boundGraph_congr {live' : Graph}
    (h : ∀ entry ∈ graph, newArgs live' ip entry.1 entry.2 = newArgs live ip entry.1 entry.2) :
    boundGraph live' ip graph = boundGraph live ip graph := by
  refine List.map_congr_left fun entry hentry => ?_
  have hargs := h entry hentry
  rw [newArgs, newArgs] at hargs
  rw [boundPlugin, boundPlugin, hargs]

/-- Binding twice is binding once. -/
theorem boundGraph_twice (hg : Managed H graph) (hl : Managed H live) :
    boundGraph live ip (boundGraph live ip graph) = boundGraph live ip graph := by
  rw [boundGraph, boundGraph, List.map_map]
  refine List.map_congr_left fun entry hentry => ?_
  obtain ⟨tag, plugin⟩ := entry
  have htag : tag ∈ requiredMosdns.keys := (hg.tags tag).mp (List.mem_map_of_mem hentry)
  have htwice : newArgs live ip tag (boundPlugin live ip tag plugin) = newArgs live ip tag plugin :=
    newArgs_twice hl htag (hg.entries _ hentry) (hg.args _ hentry)
  change (tag, Dict.set (Dict.set plugin "args" (newArgs live ip tag plugin)) "args"
    (newArgs live ip tag (boundPlugin live ip tag plugin))) = _
  rw [htwice, Dict.set_set]
  rfl

/-! ### The bound graph in force -/

theorem checkRuleFiles_congr {other : Plugin} (htype : typeOf plugin = typeOf other)
    (hfiles : typeOf plugin = .str "domain_set" → ((Json.obj plugin).getD "args" .null).getD "files" .null =
      ((Json.obj other).getD "args" .null).getD "files" .null) :
    checkRuleFiles H tag plugin = checkRuleFiles H tag other := by
  unfold checkRuleFiles
  rw [← htype]
  split
  · rfl
  · next hset => rw [hfiles (not_not.mp hset)]

theorem files_bound (hg : Managed H graph) (hl : InForce H live ip) :
    ∀ entry ∈ boundGraph live ip graph, checkRuleFiles H entry.1 entry.2 = .ok () := by
  rintro entry hentry
  obtain ⟨⟨tag, plugin⟩, hmem, rfl⟩ := List.mem_map.mp hentry
  have htag : tag ∈ requiredMosdns.keys := (hg.tags tag).mp (List.mem_map_of_mem hmem)
  have hown : Dict.get? graph tag = some plugin := Dict.Uniq.get?_of_mem hg.nodup hmem
  have htype : typeOf plugin = requiredType tag := (hg.entries _ hmem).type
  obtain ⟨theirs, htheirs, hentry', -⟩ := hl.managed.get htag
  have htype' : typeOf theirs = requiredType tag := hentry'.type
  have hsame : checkRuleFiles H tag (boundPlugin live ip tag plugin) = checkRuleFiles H tag theirs := by
    refine checkRuleFiles_congr (by rw [typeOf_boundPlugin, htype, htype']) fun hset => ?_
    rw [typeOf_boundPlugin, htype] at hset
    have hdot : tag ≠ "dot_server" := by
      rintro rfl
      exact absurd hset (by decide)
    have hfields : machineFields live tag = ["files"] := by
      simpa [hset, hdot] using machineFields_eq hl.managed htag
    rw [args_boundPlugin, ← argsOf_boundGraph hown, argsOf_bound hg htag (by rw [hset]; decide), hfields,
      if_pos (by simp), argsOf_eq htheirs]
  exact hsame.trans (hl.files _ (Dict.mem_of_get? htheirs))

theorem listeners_bound (hg : Managed H graph) (hl : checkListeners live = .ok ()) :
    checkListeners (boundGraph live ip graph) = .ok () := by
  rw [checkListeners, forM_eq_ok] at hl ⊢
  intro entry hentry
  have hserver : entry.1 ∈ requiredMosdns.keys ∧ requiredType entry.1 ≠ .str "sequence" ∧
      ∀ live, "listen" ∈ machineFields live entry.1 := by
    have hall : ∀ entry ∈ expectedListeners, entry.1 ∈ requiredMosdns.keys ∧
        requiredType entry.1 ≠ .str "sequence" := by
      decide
    have hlisten : ∀ entry ∈ expectedListeners, ∀ live, "listen" ∈ machineFields live entry.1 := by
      simp [expectedListeners, machineFields]
    exact ⟨(hall entry hentry).1, (hall entry hentry).2, hlisten entry hentry⟩
  rw [argsOf_bound hg hserver.1 hserver.2.1, if_pos (hserver.2.2 live)]
  exact hl entry hentry

theorem certificates_bound (hg : Managed H graph) (hl : checkCertificates H live = .ok ()) :
    checkCertificates H (boundGraph live ip graph) = .ok () := by
  have hdot : ∀ field ∈ ["cert", "key"], (argsOf (boundGraph live ip graph) "dot_server").getD field .null =
      (argsOf live "dot_server").getD field .null := by
    intro field hfield
    have hmachine : field ∈ machineFields live "dot_server" := List.mem_append_left ["listen"] hfield
    rw [argsOf_bound hg (by decide) (by decide), if_pos hmachine]
  rw [checkCertificates, hdot _ (by simp), hdot _ (by simp)]
  exact hl

/-- The addresses are those of the items of the sequences. -/
theorem mem_serverIps {address : String} : address ∈ serverIps graph ↔
    ∃ entry ∈ graph, typeOf entry.2 = .str "sequence" ∧ ∃ item ∈ itemsOf entry.2,
      (item.getD "exec" .null).str?.bind blackHoleIp = some address := by
  rw [serverIps, List.mem_dedup, List.mem_flatMap]
  refine exists_congr fun entry => and_congr_right fun _ => ?_
  split
  · next h => simp [h]
  · next h => simp [h]

theorem serverIp_eq_ok : serverIp H live = .ok ip ↔ serverIps live = [ip] ∧ H.ipAddress (.str ip) = true := by
  rw [serverIp]
  split
  · next address heq =>
    rw [heq]
    split
    · next h =>
      rw [Except.ok.injEq, List.cons.injEq]
      constructor
      · rintro rfl
        exact ⟨⟨rfl, rfl⟩, h⟩
      · exact fun hip => hip.1.1
    · next h =>
      constructor
      · intro hip
        cases hip
      · rintro ⟨hlist, hip⟩
        rw [(List.cons.inj hlist).1] at h
        exact absurd hip h
  · next hne =>
    constructor
    · intro hip
      cases hip
    · exact fun hip => absurd hip.1 (hne ip)

theorem InForce.address (h : InForce H live ip) : IsAddress ip := by
  have hmem : ip ∈ serverIps live := by simp [(serverIp_eq_ok.mp h.identity).1]
  obtain ⟨-, -, -, item, -, hitem⟩ := mem_serverIps.mp hmem
  obtain ⟨exec, -, hexec⟩ := Option.bind_eq_some_iff.mp hitem
  exact isAddress_of_blackHoleIp hexec

theorem answers_of_blackHoleIp {item : Json} {address : String}
    (h : (item.getD "exec" .null).str?.bind blackHoleIp = some address) : answers item = true := by
  obtain ⟨exec, hexec, haddress⟩ := Option.bind_eq_some_iff.mp h
  rw [answers, hexec, Option.any_some]
  by_contra hnot
  simp [blackHoleIp, hnot] at haddress

/-- The items of a sequence of the bound graph have the address of the machine. -/
theorem mem_itemsOf_bound {item : Json} (htype : typeOf plugin = .str "sequence")
    (h : item ∈ itemsOf (boundPlugin live ip tag plugin)) : ∃ own, item = answering ip own := by
  obtain ⟨items, hitems, hmem⟩ := mem_itemsOf.mp h
  rw [args_boundPlugin, newArgs, htype] at hitems
  obtain ⟨own, hown, -⟩ := answeringArgs_arr hitems
  rw [hown, answeringArgs] at hitems
  rw [← Json.arr.inj hitems] at hmem
  obtain ⟨mine, -, rfl⟩ := List.mem_map.mp hmem
  exact ⟨mine, rfl⟩

theorem answering_address {item : Json} (hip : IsAddress ip) (h : answers item = true) :
    ((answering ip item).getD "exec" .null).str?.bind blackHoleIp = some ip := by
  rw [getD_answering_exec h, str?, Option.bind_some, blackHoleIp_append hip]

theorem mem_of_itemErrors {items : List Json} {steps : List Step} {step : Step}
    (hlength : items.length = steps.length) (h : itemErrors items steps = none) (hstep : step ∈ steps) :
    ∃ item ∈ items, itemError item step = none := by
  induction items generalizing steps with
  | nil =>
      rw [List.length_eq_zero_iff.mp hlength.symm] at hstep
      cases hstep
  | cons item items ih =>
      cases steps with
      | nil => cases hlength
      | cons first steps =>
          rw [itemErrors, Option.or_eq_none_iff] at h
          rcases List.mem_cons.mp hstep with rfl | hrest
          · exact ⟨item, by simp, h.1⟩
          · obtain ⟨found, hfound, hnone⟩ := ih (by simpa using hlength) h.2 hrest
            exact ⟨found, List.mem_cons_of_mem item hfound, hnone⟩

/-- The hijack sequence has an item that answers. -/
theorem Shaped.answer {args : Json} (h : Shaped "internal_sequence" args) :
    ∃ items, args = .arr items ∧ ∃ item ∈ items, answers item = true := by
  obtain ⟨variants, hvariants, expected, hexpected, hnone⟩ := h
  obtain ⟨items, rfl, hlength, herrors⟩ := sequenceError_iff.mp hnone
  have hstep : (some "qtype 1", "black_hole ") ∈ expected := by
    have hall : ∀ entry ∈ expectedSequences, entry.1 = "internal_sequence" → ∀ expected ∈ entry.2,
        ((some "qtype 1", "black_hole ") : Step) ∈ expected := by
      decide
    exact hall _ hvariants rfl expected hexpected
  obtain ⟨item, hitem, herror⟩ := mem_of_itemErrors hlength herrors hstep
  cases item with
  | obj fields =>
      obtain ⟨-, -, hexecutes⟩ := itemError_obj.mp herror
      exact ⟨items, rfl, _, hitem, hexecutes⟩
  | _ => cases herror

/-- The bound graph answers with the address of the machine and no other. -/
theorem serverIps_bound (hip : IsAddress ip) (hg : Managed H graph) (hl : Managed H live)
    (htheirs : validateManagedSequences live = .ok ()) : serverIps (boundGraph live ip graph) = [ip] := by
  have honly : ∀ address, address ∈ serverIps (boundGraph live ip graph) → address = ip := by
    intro address haddress
    obtain ⟨entry, hentry, htype, item, hitem, hexec⟩ := mem_serverIps.mp haddress
    obtain ⟨⟨tag, plugin⟩, hmem, rfl⟩ := List.mem_map.mp hentry
    rw [typeOf_boundPlugin] at htype
    obtain ⟨own, rfl⟩ := mem_itemsOf_bound htype hitem
    have hanswers : answers own = true := by
      rw [← answers_answering ip]
      exact answers_of_blackHoleIp hexec
    rw [answering_address hip hanswers] at hexec
    exact (Option.some.inj hexec).symm
  have hsome : ip ∈ serverIps (boundGraph live ip graph) := by
    have htag : "internal_sequence" ∈ requiredMosdns.keys := by decide
    have hreq : requiredType "internal_sequence" = .str "sequence" := by decide
    obtain ⟨plugin, hget, hentry, -⟩ := hg.get htag
    obtain ⟨items, hitems, item, hitem, hanswers⟩ :=
      ((validateManagedSequences_iff.mp htheirs).1 "internal_sequence" (by decide)).answer
    have hargs : (Json.obj (boundPlugin live ip "internal_sequence" plugin)).getD "args" .null =
        .arr (items.map (answering ip)) := by
      rw [args_boundPlugin, newArgs_sequence hl htag hreq hentry, if_pos rfl, hitems, answeringArgs]
    refine mem_serverIps.mpr ⟨_, List.mem_map_of_mem (Dict.mem_of_get? hget), ?_, answering ip item,
      mem_itemsOf.mpr ⟨_, hargs, List.mem_map_of_mem hitem⟩, answering_address hip hanswers⟩
    rw [typeOf_boundPlugin]
    exact hentry.type.trans hreq
  have hperm : (serverIps (boundGraph live ip graph)).Perm [ip] := by
    refine (List.perm_ext_iff_of_nodup (List.nodup_dedup _) (List.nodup_singleton ip)).mpr fun address => ?_
    rw [List.mem_singleton]
    exact ⟨honly address, fun heq => heq ▸ hsome⟩
  exact List.perm_singleton.mp hperm

theorem InForce.bound (hg : Incoming H graph) (hl : InForce H live ip) :
    InForce H (boundGraph live ip graph) ip where
  managed := hg.managed.bound hl.managed
  files := files_bound hg.managed hl
  listeners := listeners_bound hg.managed hl.listeners
  certificates := certificates_bound hg.managed hl.certificates
  sequences := validateManagedSequences_bound hg.managed hl.managed hg.sequences hl.sequences
  identity := serverIp_eq_ok.mpr
    ⟨serverIps_bound hl.address hg.managed hl.managed hl.sequences, (serverIp_eq_ok.mp hl.identity).2⟩

/-! ### Placeholders -/

theorem hasPlaceholderFields_eq : hasPlaceholderFields fields = fields.any (fun field => hasPlaceholder field.2) := by
  induction fields with
  | nil => rfl
  | cons field fields ih => rw [hasPlaceholderFields, ih, List.any_cons]

theorem hasPlaceholderItems_eq {items : List Json} : hasPlaceholderItems items = items.any hasPlaceholder := by
  induction items with
  | nil => rfl
  | cons item items ih => rw [hasPlaceholderItems, ih, List.any_cons]

theorem hasPlaceholder_set (key : String) {value : Json} (h : hasPlaceholder (.obj fields) = false)
    (hvalue : hasPlaceholder value = false) : hasPlaceholder (.obj (Dict.set fields key value)) = false := by
  rw [hasPlaceholder] at h ⊢
  induction fields with
  | nil => simp [hasPlaceholderFields, hvalue]
  | cons field fields ih =>
      obtain ⟨name, own⟩ := field
      rw [hasPlaceholderFields, Bool.or_eq_false_iff] at h
      rw [Dict.set]
      split
      · rw [hasPlaceholderFields, hvalue, h.2, Bool.or_self]
      · rw [hasPlaceholderFields, h.1, ih h.2, Bool.or_self]

theorem hasPlaceholder_of_get? {key : String} {value : Json} (h : hasPlaceholder (.obj fields) = false)
    (hget : Dict.get? fields key = some value) : hasPlaceholder value = false := by
  rw [hasPlaceholder, hasPlaceholderFields_eq, List.any_eq_false] at h
  simpa using h _ (Dict.mem_of_get? hget)

/-- A document without placeholders has none in its plugins. -/
theorem hasPlaceholder_plugin (h : hasPlaceholder (.obj (Dict.set fields "plugins" (.arr (pluginList graph)))) = false)
    (hget : Dict.get? graph tag = some plugin) : hasPlaceholder (.obj plugin) = false := by
  have hlist := hasPlaceholder_of_get? h (Dict.get?_set_self _ _ _)
  rw [hasPlaceholder, hasPlaceholderItems_eq, List.any_eq_false] at hlist
  simpa using hlist _ (List.mem_map_of_mem (Dict.mem_of_get? hget))

/-! ### A later merge -/

/-- The bound graph has the same of the machine, where the size of the cache is the machine's. -/
theorem machineFields_bound (hg : Managed H graph) (hl : Managed H live) (htag : tag ∈ requiredMosdns.keys)
    (hcache : requiredType tag = .str "cache" → isInteger ((argsOf live tag).getD "size" .null) = true) :
    machineFields (boundGraph live ip graph) tag = machineFields live tag := by
  rw [machineFields_eq (hg.bound hl) htag, machineFields_eq hl htag]
  by_cases hreq : requiredType tag = .str "cache"
  · have hsize : (argsOf (boundGraph live ip graph) tag).getD "size" .null = (argsOf live tag).getD "size" .null := by
      have hdot : tag ≠ "dot_server" := by
        rintro rfl
        exact absurd hreq (by decide)
      have hmachine : "size" ∈ machineFields live tag := by
        rw [machineFields_eq hl htag]
        simp [hreq, hdot, hcache hreq]
      rw [argsOf_bound hg htag (by rw [hreq]; decide), if_pos hmachine]
    rw [hsize]
  · simp only [hreq, false_and]

theorem newArgs_later (hg : Managed H graph) (hl : Managed H live) (htag : tag ∈ requiredMosdns.keys)
    (hentry : Entry (tag, plugin))
    (hcache : requiredType tag = .str "cache" → isInteger ((argsOf live tag).getD "size" .null) = true) :
    newArgs (boundGraph live ip graph) ip tag plugin = newArgs live ip tag plugin := by
  refine newArgs_rebound hl (hg.bound hl) htag hentry (machineFields_bound hg hl htag hcache) ?_ ?_
  · intro field hfield
    have hne : requiredType tag ≠ .str "sequence" := by
      intro hreq
      rw [hl.fields_sequence htag hreq] at hfield
      cases hfield
    rw [argsOf_bound hg htag hne, if_pos hfield]
  · intro heq
    subst heq
    rw [argsOf_bound_sequence hg hl htag (by decide), if_pos rfl]

/-- A cache size without a placeholder is a number. -/
theorem isInteger_of_isCacheSize {size : Json} (h : isCacheSize size = true)
    (hplain : hasPlaceholder size = false) : isInteger size = true := by
  rw [isCacheSize, Bool.or_eq_true, decide_eq_true_eq] at h
  rcases h with rfl | hint
  · have hplaceholder : hasPlaceholder (.str "__MOSDNS_CACHE__") = true := by decide
    rw [hplaceholder] at hplain
    cases hplain
  · cases size with
    | int n => rfl
    | _ => cases hint

theorem hasPlaceholder_getD {args : Json} (h : hasPlaceholder args = false) (key : String) :
    hasPlaceholder (args.getD key .null) = false := by
  cases args with
  | obj fields =>
      cases hget : Dict.get? fields key with
      | none => simp [getD, get?, hget, hasPlaceholder]
      | some value =>
          rw [getD, get?, hget, Option.getD_some]
          exact hasPlaceholder_of_get? h hget
  | _ => simp [getD, get?, hasPlaceholder]

/-- The arguments in a document without placeholders. -/
theorem hasPlaceholder_newArgs
    (h : hasPlaceholder (.obj (Dict.set fields "plugins" (.arr (pluginList (boundGraph live ip graph))))) = false)
    (hget : Dict.get? graph tag = some plugin) : hasPlaceholder (newArgs live ip tag plugin) = false := by
  have hplugin : hasPlaceholder (.obj (boundPlugin live ip tag plugin)) = false :=
    hasPlaceholder_plugin h (by rw [get?_boundGraph, hget, Option.map_some])
  rw [← args_boundPlugin]
  exact hasPlaceholder_getD hplugin "args"

/-- Where the size of the cache was a placeholder, a later merge takes a number for it. -/
theorem hasPlaceholder_cache (hg : Managed H graph) (hl : Managed H live) (htag : tag ∈ requiredMosdns.keys)
    (hentry : Entry (tag, plugin)) (hreq : requiredType tag = .str "cache")
    (hsize : ¬isInteger ((argsOf live tag).getD "size" .null) = true)
    (h : hasPlaceholder (.obj (Dict.set fields "plugins" (.arr (pluginList (boundGraph live ip graph))))) = false)
    (hown : hasPlaceholder (newArgs live ip tag plugin) = false) :
    hasPlaceholder (newArgs (boundGraph live ip graph) ip tag plugin) = false := by
  have hdot : tag ≠ "dot_server" := by
    rintro rfl
    exact absurd hreq (by decide)
  have htype : typeOf plugin ≠ .str "sequence" := by
    have hsame : typeOf plugin = requiredType tag := hentry.type
    rw [hsame, hreq]
    decide
  have hinternal : tag ≠ "internal_sequence" := ne_internal (by rw [hreq]; decide)
  have hargs : hasPlaceholder (argsOf (boundGraph live ip graph) tag) = false := by
    obtain ⟨mine, hmine, -, -⟩ := hg.get htag
    rw [argsOf_boundGraph hmine]
    exact hasPlaceholder_newArgs h hmine
  have hmanaged : Managed H (boundGraph live ip graph) := hg.bound hl
  have hcheck := hmanaged.checkArgs htag
  rw [hreq] at hcheck
  have hnumber := isInteger_of_isCacheSize (checkCache_iff.mp hcheck).2.1 (hasPlaceholder_getD hargs "size")
  have hfields : machineFields (boundGraph live ip graph) tag = ["size"] := by
    simpa [hreq, hdot, hnumber] using machineFields_eq hmanaged htag
  have hnone : machineFields live tag = [] := by
    simpa [hreq, hdot, hsize] using machineFields_eq hl htag
  rw [newArgs_of_ne htype hinternal, hnone, List.foldl_nil] at hown
  rw [newArgs_of_ne htype hinternal, hfields, List.foldl_cons, List.foldl_nil]
  cases hobj : (Json.obj plugin).getD "args" .null with
  | obj fields =>
      rw [hobj] at hown
      exact hasPlaceholder_set "size" hown (hasPlaceholder_getD hargs "size")
  | _ => rwa [hobj] at hown

/-- Without placeholders in the merged document, a later merge has none either. -/
theorem hasPlaceholder_later (hg : Managed H graph) (hl : Managed H live) (hlater : Managed H incoming)
    (h : hasPlaceholder (.obj (Dict.set fields "plugins" (.arr (pluginList (boundGraph live ip graph))))) = false)
    {laterFields : Dict String Json}
    (h' : hasPlaceholder (.obj (Dict.set laterFields "plugins"
      (.arr (pluginList (boundGraph live ip incoming))))) = false) :
    hasPlaceholder (.obj (Dict.set laterFields "plugins"
      (.arr (pluginList (boundGraph (boundGraph live ip graph) ip incoming))))) = false := by
  have hplugin : ∀ entry ∈ incoming,
      hasPlaceholder (.obj (boundPlugin (boundGraph live ip graph) ip entry.1 entry.2)) = false := by
    rintro ⟨tag, plugin⟩ hmem
    have htag : tag ∈ requiredMosdns.keys := (hlater.tags tag).mp (List.mem_map_of_mem hmem)
    have hget : Dict.get? incoming tag = some plugin := Dict.Uniq.get?_of_mem hlater.nodup hmem
    have hentry := hlater.entries _ hmem
    have hbound : hasPlaceholder (.obj (boundPlugin live ip tag plugin)) = false :=
      hasPlaceholder_plugin h' (by rw [get?_boundGraph, hget, Option.map_some])
    have hnew : hasPlaceholder (newArgs (boundGraph live ip graph) ip tag plugin) = false := by
      by_cases hcache : requiredType tag = .str "cache" → isInteger ((argsOf live tag).getD "size" .null) = true
      · rw [newArgs_later hg hl htag hentry hcache]
        exact hasPlaceholder_newArgs h' hget
      · obtain ⟨hreq, hsize⟩ := Classical.not_imp.mp hcache
        exact hasPlaceholder_cache hg hl htag hentry hreq hsize h (hasPlaceholder_newArgs h' hget)
    have hset := hasPlaceholder_set "args" hbound hnew
    have hsame : Dict.set (boundPlugin live ip tag plugin) "args" (newArgs (boundGraph live ip graph) ip tag plugin) =
        boundPlugin (boundGraph live ip graph) ip tag plugin := Dict.set_set _ _ _ _
    rwa [hsame] at hset
  have hlist : hasPlaceholder (.arr (pluginList (boundGraph (boundGraph live ip graph) ip incoming))) = false := by
    rw [hasPlaceholder, hasPlaceholderItems_eq, List.any_eq_false]
    intro item hitem
    obtain ⟨entry, hentry, rfl⟩ := List.mem_map.mp hitem
    obtain ⟨own, hown, rfl⟩ := List.mem_map.mp hentry
    simpa using hplugin own hown
  have hset := hasPlaceholder_set "plugins" h' hlist
  rwa [Dict.set_set] at hset

/-! ### The projection -/

/-- The merged graph: the plugins, their order, tags and types are those that came in; the fields of
the machine are those in force, and so is the hijack sequence; the sequences answer with the
address in force; everything else is as it came in. -/
structure Projected (live graph merged : Graph) (ip : String) : Prop where
  tags : merged.keys = graph.keys
  types : ∀ tag ∈ graph.keys, ∀ key ≠ "args",
    (Json.obj ((Dict.get? merged tag).getD [])).get? key = (Json.obj ((Dict.get? graph tag).getD [])).get? key
  machine : ∀ tag ∈ graph.keys, ∀ field ∈ machineFields live tag,
    (argsOf merged tag).getD field .null = (argsOf live tag).getD field .null
  own : ∀ tag ∈ graph.keys, requiredType tag ≠ .str "sequence" → ∀ field, field ∉ machineFields live tag →
    (argsOf merged tag).getD field .null = (argsOf graph tag).getD field .null
  hijack : argsOf merged "internal_sequence" =
    answeringArgs ip (.str "sequence") (argsOf live "internal_sequence")
  sequences : ∀ tag ∈ graph.keys, requiredType tag = .str "sequence" → tag ≠ "internal_sequence" →
    argsOf merged tag = answeringArgs ip (.str "sequence") (argsOf graph tag)
  verbatim : ∀ items, argsOf live "internal_sequence" = .arr items →
    (∀ item ∈ items, answers item = true → ((item.getD "exec" .null).str?.bind blackHoleIp).isSome) →
    argsOf merged "internal_sequence" = argsOf live "internal_sequence"

theorem eq_of_blackHoleIp {exec address : String} (h : blackHoleIp exec = some address) :
    exec = "black_hole " ++ address := by
  rw [blackHoleIp] at h
  split at h
  · next hall =>
    rw [Bool.and_eq_true, Bool.and_eq_true] at hall
    obtain ⟨rest, hrest⟩ := List.isPrefixOf_iff_prefix.mp hall.1.1
    have hdrop : exec.toList.drop 11 = rest := by
      rw [← hrest]
      exact List.drop_left' rfl
    rw [hdrop] at h
    rw [← Option.some.inj h, ← String.toList_inj]
    simpa using hrest.symm
  · cases h

/-- An item that answers with the address has it already. -/
theorem answering_same {item : Json} (h : (item.getD "exec" .null).str?.bind blackHoleIp = some ip) :
    answering ip item = item := by
  obtain ⟨fields, exec, rfl, hexec, heq⟩ := answering_eq ip (answers_of_blackHoleIp h)
  obtain ⟨text, htext, haddress⟩ := Option.bind_eq_some_iff.mp h
  rw [getD, get?, hexec, Option.getD_some] at htext
  cases exec with
  | str text' =>
      obtain rfl := Option.some.inj htext
      rw [heq, ← eq_of_blackHoleIp haddress, Dict.set_of_get? hexec]
  | _ => cases htext

/-- Where every answer in force is an address, the hijack sequence in force is taken as it is. -/
theorem InForce.verbatim (h : InForce H live ip) {items : List Json}
    (hitems : argsOf live "internal_sequence" = .arr items)
    (hanswers : ∀ item ∈ items, answers item = true →
      ((item.getD "exec" .null).str?.bind blackHoleIp).isSome) :
    answeringArgs ip (.str "sequence") (.arr items) = .arr items := by
  have hreq : requiredType "internal_sequence" = .str "sequence" := by decide
  obtain ⟨plugin, hget, hentry, -⟩ := h.managed.get (show "internal_sequence" ∈ requiredMosdns.keys by decide)
  have hsame : ∀ item ∈ items, answering ip item = item := by
    intro item hitem
    cases hans : answers item with
    | false => exact answering_of_not hans
    | true =>
        obtain ⟨address, haddress⟩ := Option.isSome_iff_exists.mp (hanswers item hitem hans)
        have hmem : address ∈ serverIps live := mem_serverIps.mpr ⟨_, Dict.mem_of_get? hget,
          hentry.type.trans hreq, item, mem_itemsOf.mpr ⟨items, (argsOf_eq hget).symm.trans hitems, hitem⟩,
          haddress⟩
        rw [(serverIp_eq_ok.mp h.identity).1, List.mem_singleton] at hmem
        exact answering_same (hmem ▸ haddress)
  rw [answeringArgs, List.map_congr_left hsame, List.map_id']

theorem projected_boundGraph (hg : Managed H graph) (hforce : InForce H live ip) :
    Projected live graph (boundGraph live ip graph) ip where
  tags := keys_boundGraph
  types := by
    intro tag htag key hkey
    obtain ⟨plugin, hget⟩ := Option.isSome_iff_exists.mp (Dict.get?_isSome_iff.mpr htag)
    rw [get?_boundGraph, hget]
    exact Dict.get?_set_ne hkey.symm _ _
  machine := by
    intro tag htag field hfield
    have hrequired := (hg.tags tag).mp htag
    have hne : requiredType tag ≠ .str "sequence" := by
      intro hreq
      rw [hforce.managed.fields_sequence hrequired hreq] at hfield
      cases hfield
    rw [argsOf_bound hg hrequired hne, if_pos hfield]
  own := fun tag htag hne field hfield => by
    rw [argsOf_bound hg ((hg.tags tag).mp htag) hne, if_neg hfield]
  hijack := by rw [argsOf_bound_sequence hg hforce.managed (by decide) (by decide), if_pos rfl]
  sequences := fun tag htag hreq hne => by
    rw [argsOf_bound_sequence hg hforce.managed ((hg.tags tag).mp htag) hreq, if_neg hne]
  verbatim := fun items hitems hanswers => by
    rw [argsOf_bound_sequence hg hforce.managed (by decide) (by decide), if_pos rfl, hitems,
      hforce.verbatim hitems hanswers]

/-- Merging the incoming document into the one in force takes what belongs to the machine from the
one in force and the rest from the incoming one, merging the result again changes nothing, and every
document that the one in force lets in is let in by the result. -/
theorem mosdnsContract_projection (h : mosdnsContract H doc (some current) = .ok result) :
    (∃ graph live merged ip, checkedGraph H doc = .ok graph ∧ checkedGraph H current = .ok live ∧
      checkedGraph H result = .ok merged ∧ serverIps live = [ip] ∧ Projected live graph merged ip ∧
      ∀ key ≠ "plugins", result.get? key = doc.get? key) ∧
    mosdnsContract H result (some current) = .ok result ∧
    ∀ later merged, mosdnsContract H later (some current) = .ok merged →
      ∃ next, mosdnsContract H later (some result) = .ok next := by
  obtain ⟨fields, graph, currentFields, live, ip, rfl, hchecked, rfl, hcurrent, hin, hforce, rfl, hplain⟩ :=
    mosdnsContract_iff.mp h
  have hbound : Checked H (Dict.set fields "plugins" (.arr (pluginList (boundGraph live ip graph))))
      (boundGraph live ip graph) := hchecked.bound hcurrent.managed
  have hresult : withPlugins (.obj fields) (boundGraph live ip graph) =
      .obj (Dict.set fields "plugins" (.arr (pluginList (boundGraph live ip graph)))) := rfl
  have hincoming : Incoming H (boundGraph live ip graph) := ⟨hbound.managed,
    validateManagedSequences_bound hin.managed hforce.managed hin.sequences hforce.sequences,
    checkReferences_bound hforce.address hin.managed hin.references hforce.sequences⟩
  refine ⟨⟨graph, live, boundGraph live ip graph, ip, checkedGraph_iff.mpr ⟨fields, rfl, hchecked⟩,
    checkedGraph_iff.mpr ⟨currentFields, rfl, hcurrent⟩, checkedGraph_iff.mpr ⟨_, hresult, hbound⟩,
    (serverIp_eq_ok.mp hforce.identity).1, projected_boundGraph hin.managed hforce,
    fun key hkey => Dict.get?_set_ne hkey.symm _ _⟩, ?_, ?_⟩
  · refine mosdnsContract_iff.mpr ⟨_, _, currentFields, live, ip, hresult, hbound, rfl, hcurrent, hincoming,
      hforce, ?_, hplain⟩
    rw [boundGraph_twice hin.managed hforce.managed, hresult, withPlugins_obj, Dict.set_set]
  · intro later merged hmerged
    obtain ⟨laterFields, laterGraph, currentFields', live', ip', rfl, hlater, hsame, hcurrent', hin', hforce',
      rfl, hplain'⟩ := mosdnsContract_iff.mp hmerged
    obtain rfl := Json.obj.inj hsame
    obtain rfl := hcurrent.unique hcurrent'
    have hip : ip = ip' := by
      have hidentity := hforce'.identity
      rw [hforce.identity] at hidentity
      exact Except.ok.inj hidentity
    subst hip
    exact ⟨_, mosdnsContract_iff.mpr ⟨laterFields, laterGraph, _, _, ip, rfl, hlater, hresult, hbound, hin',
      hforce.bound hin, rfl, hasPlaceholder_later hin.managed hforce.managed hlater.managed hplain hplain'⟩⟩

/-- A host that knows the addresses of the sample. -/
def sampleHost : Host where
  ruleDir := "/etc/mosdns/rules"
  certDir := "/etc/mosdns/certs"
  ipNetwork value := decide (value = .str "10.0.0.0/8")
  ipAddress value := decide (value ∈ [Json.str "1.2.3.4", .str "5.6.7.8"])

def sampleItem (ip : String) (step : Step) : Json :=
  .obj ((step.1.toList.map (fun condition => ("matches", Json.str condition))) ++
    [("exec", .str (if step.2 = "black_hole " then step.2 ++ ip else step.2))])

def sampleSequence (ip tag : String) : Json :=
  .arr ((((Dict.get? expectedSequences tag).getD []).headD []).map (sampleItem ip))

def sampleFiles (names : List String) : Json :=
  .obj [("files", .arr (names.map (fun name => .str ("/etc/mosdns/rules/" ++ name))))]

/-- The arguments of a small managed document. -/
def sampleArgs (ip : String) (size : Json) : String → Json
  | "npn_clients" => .obj [("ips", .arr [.str "10.0.0.0/8"])]
  | "hijack_set" => sampleFiles ["geosite_gfw.txt", "custom_hijack.txt"]
  | "ecs_china" | "ecs_neutral" => .obj [("forward", .bool false), ("send", .bool true),
      ("preset", .str "1.2.3.4"), ("mask4", .int 24), ("mask6", .int 48)]
  | "has_resp" => hasRespArgs
  | "client_limiter" => .obj [("qps", .int 10), ("burst", .int 20), ("mask4", .int 32), ("mask6", .int 64)]
  | "lazy_cache" => .obj [("size", size), ("lazy_cache_ttl", .int 3600)]
  | "udp_server" | "tcp_server" => .obj [("entry", .str "main_sequence"), ("listen", .str "0.0.0.0:53")]
  | "dot_server" => .obj [("entry", .str "main_sequence"), ("listen", .str "0.0.0.0:853"),
      ("cert", .str "/etc/mosdns/certs/fullchain.pem"), ("key", .str "/etc/mosdns/certs/privkey.pem")]
  | tag =>
      match Dict.get? expectedRuleFiles tag with
      | some names => sampleFiles names
      | none =>
          if expectedSequences.contains tag then sampleSequence ip tag
          else .obj [("concurrent", .int 2), ("upstreams", .arr [.obj [("addr", .str "https://1.1.1.1/dns-query")]])]

def sampleDocument (ip : String) (size : Json) : Json :=
  .obj [("plugins", .arr (requiredMosdns.map (fun entry =>
    .obj [("tag", .str entry.1), ("type", .str entry.2), ("args", sampleArgs ip size entry.1)])))]

theorem mosdnsContract_sample : ∃ result,
    mosdnsContract sampleHost result (some (sampleDocument "1.2.3.4" (.str "__MOSDNS_CACHE__"))) = .ok result := by
  have hok : (mosdnsContract sampleHost (sampleDocument "5.6.7.8" (.int 200))
      (some (sampleDocument "1.2.3.4" (.str "__MOSDNS_CACHE__")))).isOk = true := by
    decide +kernel
  cases hresult : mosdnsContract sampleHost (sampleDocument "5.6.7.8" (.int 200))
      (some (sampleDocument "1.2.3.4" (.str "__MOSDNS_CACHE__"))) with
  | ok result => exact ⟨result, (mosdnsContract_projection hresult).2.1⟩
  | error _ => simp [hresult, Except.isOk, Except.toBool] at hok

end ProxyGateway.Mosdns
