import ProxyGateway.Mosdns.Graph

set_option autoImplicit false

/-!
# ProxyGateway.Mosdns.Sequences

The managed sequences and the references between plugins, for a graph that is bound to the
machine: an item that executes what is expected still does with the address of the machine
(`itemError_answering`), and it refers to nothing that it did not refer to before.
-/

namespace ProxyGateway.Mosdns

open Py Json Schema

variable {H : Host} {graph live : Graph} {fields : Dict String Json} {ip : String} {item : Json}

/-! ### Items that answer -/

/-- The address is made of the characters of an address. -/
def IsAddress (ip : String) : Prop := ip.toList ≠ [] ∧ ∀ c ∈ ip.toList, ipChar c = true

theorem isBlackHole_append : isBlackHole ("black_hole " ++ ip) = true := by
  rw [isBlackHole, String.toList_append]
  exact List.isPrefixOf_iff_prefix.mpr (List.prefix_append _ _)

theorem blackHoleIp_append (h : IsAddress ip) : blackHoleIp ("black_hole " ++ ip) = some ip := by
  have hdrop : ("black_hole " ++ ip).toList.drop 11 = ip.toList := by
    rw [String.toList_append]
    exact List.drop_left' rfl
  rw [blackHoleIp, isBlackHole_append, hdrop, if_pos]
  · rw [String.ofList_toList]
  · rw [Bool.true_and, Bool.and_eq_true, Bool.not_eq_true', List.isEmpty_eq_false_iff, List.all_eq_true]
    exact h

theorem isAddress_of_blackHoleIp {exec : String} (h : blackHoleIp exec = some ip) : IsAddress ip := by
  rw [blackHoleIp] at h
  split at h
  · next hall =>
    rw [Bool.and_eq_true, Bool.and_eq_true, Bool.not_eq_true', List.isEmpty_eq_false_iff,
      List.all_eq_true] at hall
    rw [← Option.some.inj h, IsAddress, String.toList_ofList]
    exact ⟨hall.1.2, hall.2⟩
  · cases h

/-- Which items get the address of the machine. -/
def answers (item : Json) : Bool := (item.getD "exec" .null).str?.any isBlackHole

theorem answering_of_not (h : answers item = false) : answering ip item = item := by
  unfold answering
  cases item with
  | obj fields => exact if_neg (by simpa [answers] using h)
  | _ => rfl

/-- An item that answers is an object with an `exec`. -/
theorem answering_eq (ip : String) (h : answers item = true) : ∃ fields exec, item = .obj fields ∧
    Dict.get? fields "exec" = some exec ∧
    answering ip item = .obj (Dict.set fields "exec" (.str ("black_hole " ++ ip))) := by
  cases item with
  | obj fields =>
      cases hexec : Dict.get? fields "exec" with
      | none => simp [answers, getD, get?, hexec, str?] at h
      | some exec => exact ⟨fields, exec, rfl, hexec, if_pos h⟩
  | _ => simp [answers, getD, get?, str?] at h

theorem getD_answering_exec (h : answers item = true) :
    (answering ip item).getD "exec" .null = .str ("black_hole " ++ ip) := by
  obtain ⟨fields, exec, rfl, -, heq⟩ := answering_eq ip h
  rw [heq, getD_set_self]

theorem get?_answering {key : String} (hkey : key ≠ "exec") :
    (answering ip item).get? key = item.get? key := by
  cases h : answers item with
  | false => rw [answering_of_not h]
  | true =>
      obtain ⟨fields, exec, rfl, -, heq⟩ := answering_eq ip h
      rw [heq, get?, Dict.get?_set_ne hkey.symm]
      rfl

@[simp] theorem answers_answering (ip : String) (item : Json) : answers (answering ip item) = answers item := by
  cases h : answers item with
  | false => rw [answering_of_not h, h]
  | true => rw [answers, getD_answering_exec h, str?, Option.any_some, isBlackHole_append]

theorem answering_answering : answering ip (answering ip item) = answering ip item := by
  cases h : answers item with
  | false => rw [answering_of_not h, answering_of_not h]
  | true =>
      obtain ⟨fields, exec, rfl, -, heq⟩ := answering_eq ip h
      have hagain : answers (answering ip (.obj fields)) = true := by rw [answers_answering, h]
      rw [heq] at hagain ⊢
      obtain ⟨fields', -, hobj, -, heq'⟩ := answering_eq ip hagain
      rw [heq', ← Json.obj.inj hobj, Dict.set_set]

/-! ### The managed sequences -/

/-- Only `black_hole ` itself stands for a text that begins with it. -/
def Answerable (step : Step) : Prop := isBlackHole step.2 = true → step.2 = "black_hole "

instance (step : Step) : Decidable (Answerable step) :=
  inferInstanceAs (Decidable (isBlackHole step.2 = true → step.2 = "black_hole "))

theorem answerable_of_expected {tag : String} {variants : List (List Step)}
    (h : (tag, variants) ∈ expectedSequences) : ∀ expected ∈ variants, ∀ step ∈ expected, Answerable step := by
  have hall : ∀ entry ∈ expectedSequences, ∀ expected ∈ entry.2, ∀ step ∈ expected, Answerable step := by
    decide
  exact hall _ h

theorem itemError_obj {step : Step} : itemError (.obj fields) step = none ↔
    extraKeys fields ["matches", "exec"] = false ∧ conditioned step.1 (.obj fields) = true ∧
      executes step.2 ((Json.obj fields).getD "exec" .null) = true := by
  rw [itemError]
  split
  · next h => simp [h]
  · next h =>
    rw [Bool.not_eq_true] at h
    split
    · next hboth => simpa [h] using hboth
    · next hboth => simpa [h] using hboth

/-- What executes an expected text and answers, answers with any address. -/
theorem executes_answering {step : Step} {exec : Json} (hstep : Answerable step)
    (hans : exec.str?.any isBlackHole = true) (h : executes step.2 exec = true) :
    executes step.2 (.str ("black_hole " ++ ip)) = true := by
  cases exec with
  | str text =>
      have hblack : isBlackHole text = true := hans
      have hexpected : step.2 = "black_hole " := by
        by_contra hne
        have heq : text = step.2 := by simpa [executes, str?, hne] using h
        exact hne (hstep (heq ▸ hblack))
      rw [executes, str?, Option.any_some, if_pos hexpected, isBlackHole_append]
  | _ => cases hans

/-- An item that is as expected stays so with the address of the machine. -/
theorem itemError_answering {step : Step} (hstep : Answerable step) (h : itemError item step = none) :
    itemError (answering ip item) step = none := by
  cases hans : answers item with
  | false => rwa [answering_of_not hans]
  | true =>
      obtain ⟨fields, exec, rfl, hexec, heq⟩ := answering_eq ip hans
      obtain ⟨hkeys, hcond, hexecutes⟩ := itemError_obj.mp h
      rw [heq, itemError_obj, getD_set_self]
      refine ⟨?_, ?_, ?_⟩
      · rwa [extraKeys, Dict.keys_set, if_pos (Dict.mem_keys_of_get? hexec)]
      · have hsame : (Json.obj (Dict.set fields "exec" (.str ("black_hole " ++ ip)))).get? "matches" =
            (Json.obj fields).get? "matches" := Dict.get?_set_ne (by decide) _ _
        cases hmatches : step.1 with
        | none =>
            rw [hmatches] at hcond
            simpa only [conditioned, hsame] using hcond
        | some condition =>
            rw [hmatches] at hcond
            rw [conditioned, getD, hsame]
            exact hcond
      · exact executes_answering hstep hans hexecutes

/-- A sequence of an expected shape keeps it with the address of the machine. -/
theorem itemErrors_answering {items : List Json} {steps : List Step} (hsteps : ∀ step ∈ steps, Answerable step)
    (h : itemErrors items steps = none) : itemErrors (items.map (answering ip)) steps = none := by
  induction items generalizing steps with
  | nil => cases steps with
    | nil => rfl
    | cons step steps => rfl
  | cons item items ih =>
      cases steps with
      | nil => rfl
      | cons step steps =>
          rw [itemErrors, Option.or_eq_none_iff] at h
          obtain ⟨hstep, hrest⟩ := List.forall_mem_cons.mp hsteps
          rw [List.map_cons, itemErrors, Option.or_eq_none_iff]
          exact ⟨itemError_answering hstep h.1, ih hrest h.2⟩

theorem sequenceError_iff {args : Json} {expected : List Step} : sequenceError args expected = none ↔
    ∃ items, args = .arr items ∧ items.length = expected.length ∧ itemErrors items expected = none := by
  cases args with
  | arr items =>
      rw [sequenceError]
      split
      · next h => simp [h]
      · next h =>
        rw [not_not] at h
        simp [h]
  | _ => simp [sequenceError]

/-- Arguments of one of the shapes of a tag. -/
def Shaped (tag : String) (args : Json) : Prop :=
  ∃ variants, (tag, variants) ∈ expectedSequences ∧ ∃ expected ∈ variants, sequenceError args expected = none

theorem Shaped.bound {tag : String} {args : Json} (h : Shaped tag args) :
    Shaped tag (answeringArgs ip (.str "sequence") args) := by
  obtain ⟨variants, hvariants, expected, hexpected, hnone⟩ := h
  obtain ⟨items, rfl, hlength, herrors⟩ := sequenceError_iff.mp hnone
  exact ⟨variants, hvariants, expected, hexpected, sequenceError_iff.mpr
    ⟨_, rfl, by rw [List.length_map, hlength],
      itemErrors_answering (answerable_of_expected hvariants expected hexpected) herrors⟩⟩

theorem validateManagedSequences_iff : validateManagedSequences graph = .ok () ↔
    (∀ tag ∈ expectedSequences.keys, Shaped tag (argsOf graph tag)) ∧
      (argsOf graph "has_resp").equal hasRespArgs = true := by
  have hshapes : (∀ entry ∈ expectedSequences, entry.2.all (fun expected =>
        (sequenceError (argsOf graph entry.1) expected).isSome) = false) ↔
      ∀ tag ∈ expectedSequences.keys, Shaped tag (argsOf graph tag) := by
    constructor
    · intro h tag htag
      obtain ⟨entry, hentry, rfl⟩ := List.mem_map.mp htag
      obtain ⟨expected, hexpected, hnone⟩ := List.all_eq_false.mp (h entry hentry)
      exact ⟨entry.2, hentry, expected, hexpected, by simpa using hnone⟩
    · intro h entry hentry
      obtain ⟨variants, hvariants, expected, hexpected, hnone⟩ := h entry.1 (List.mem_map_of_mem hentry)
      have hsame : variants = entry.2 := by
        have hkeys : expectedSequences.Uniq := show (Dict.keys expectedSequences).Nodup by decide
        have hget := hkeys.get?_of_mem hvariants
        rw [hkeys.get?_of_mem hentry] at hget
        exact (Option.some.inj hget).symm
      exact List.all_eq_false.mpr ⟨expected, hsame ▸ hexpected, by simp [hnone]⟩
  rw [validateManagedSequences, unit_bind_eq_ok, raiseIf_eq_ok, forM_eq_ok, Bool.not_eq_false', ← hshapes]
  simp only [raiseIf_eq_ok]

theorem same_of_sameFields {a b : List (String × Json)} (h : Json.sameFields a b = true) {key : String}
    {v w : Json} (hv : Dict.get? a key = some v) (hw : Dict.get? b key = some w) : v.same w = true := by
  induction a with
  | nil => cases hv
  | cons entry a ih =>
      obtain ⟨name, value⟩ := entry
      rw [Json.sameFields, Bool.and_eq_true] at h
      rw [Dict.get?_cons] at hv
      split at hv
      · next heq =>
        obtain rfl := Option.some.inj hv
        have hhead := h.1
        rw [heq, hw] at hhead
        exact hhead
      · exact ih h.2 hv

/-- What `has_resp` executes is no answer. -/
theorem answering_hasResp {args : Json} (h : args.equal hasRespArgs = true) :
    answeringArgs ip (.str "sequence") args = args := by
  rw [Json.equal, Bool.and_eq_true] at h
  have hsame := h.2
  cases args with
  | arr items =>
      rw [answeringArgs]
      rcases items with _ | ⟨item, _ | ⟨second, items⟩⟩
      · simp [hasRespArgs, Json.same, Json.sameList] at hsame
      · rw [hasRespArgs, Json.same, Json.sameList, Bool.and_eq_true] at hsame
        have hnot : answers item = false := by
          cases item with
          | obj fields =>
              have hfields := hsame.1
              rw [Json.same, Bool.and_eq_true] at hfields
              cases hexec : Dict.get? fields "exec" with
              | none => simp [answers, getD, get?, hexec, str?]
              | some exec =>
                  have haccept : exec.same (.str "accept") = true :=
                    same_of_sameFields hfields.2 hexec (by decide)
                  cases exec with
                  | str text =>
                      obtain rfl : text = "accept" := by simpa [Json.same] using haccept
                      rw [answers, getD, get?, hexec]
                      decide
                  | _ => simp [answers, getD, get?, hexec, str?]
          | _ => rfl
        rw [List.map_cons, List.map_nil, answering_of_not hnot]
      · simp [hasRespArgs, Json.same, Json.sameList] at hsame
  | _ => rfl

/-! ### The bound graph -/

theorem Managed.fields_sequence (h : Managed H live) {tag : String} (htag : tag ∈ requiredMosdns.keys)
    (hreq : requiredType tag = .str "sequence") : machineFields live tag = [] := by
  have hdot : tag ≠ "dot_server" := by
    rintro rfl
    exact absurd hreq (by decide)
  simpa [hreq, hdot] using machineFields_eq h htag

/-- The arguments that a sequence is bound to. -/
theorem newArgs_sequence (hl : Managed H live) {tag : String} {plugin : Plugin}
    (htag : tag ∈ requiredMosdns.keys) (hreq : requiredType tag = .str "sequence")
    (hentry : Entry (tag, plugin)) : newArgs live ip tag plugin = answeringArgs ip (.str "sequence")
      (if tag = "internal_sequence" then argsOf live tag else (Json.obj plugin).getD "args" .null) := by
  have htype : typeOf plugin = .str "sequence" := hentry.type.trans hreq
  rw [newArgs, htype]
  split
  · next heq => rw [boundArgs, if_pos heq]
  · next hne => rw [boundArgs_nil hne (hl.fields_sequence htag hreq)]

/-- The managed sequences of the bound graph are as expected. -/
theorem validateManagedSequences_bound (hg : Managed H graph) (hl : Managed H live)
    (hown : validateManagedSequences graph = .ok ()) (htheirs : validateManagedSequences live = .ok ()) :
    validateManagedSequences (boundGraph live ip graph) = .ok () := by
  obtain ⟨hshaped, hresp⟩ := validateManagedSequences_iff.mp hown
  obtain ⟨hshaped', -⟩ := validateManagedSequences_iff.mp htheirs
  refine validateManagedSequences_iff.mpr ⟨fun tag htag => ?_, ?_⟩
  · have hsequence : tag ∈ requiredMosdns.keys ∧ requiredType tag = .str "sequence" := by
      have hall : ∀ tag ∈ expectedSequences.keys,
          tag ∈ requiredMosdns.keys ∧ requiredType tag = .str "sequence" := by
        decide
      exact hall tag htag
    obtain ⟨plugin, hget, hentry, -⟩ := hg.get hsequence.1
    rw [argsOf_boundGraph hget, newArgs_sequence hl hsequence.1 hsequence.2 hentry]
    split
    · exact (hshaped' tag htag).bound
    · rw [← argsOf_eq hget]
      exact (hshaped tag htag).bound
  · have htag : "has_resp" ∈ requiredMosdns.keys := by decide
    obtain ⟨plugin, hget, hentry, -⟩ := hg.get htag
    rw [argsOf_eq hget] at hresp
    rw [argsOf_boundGraph hget, newArgs_sequence hl htag (by decide) hentry, if_neg (by decide),
      answering_hasResp hresp]
    exact hresp

/-! ### References -/

/-- A text without the characters that begin a reference has none. -/
theorem referencesFrom_nil {turns : Nat} {start : Bool} {cs : List Char}
    (h : ∀ c ∈ cs, c ≠ '$' ∧ c ≠ 'j' ∧ c ≠ 'g') : referencesFrom turns start cs = [] := by
  induction turns generalizing start cs with
  | zero => rfl
  | succ turns ih =>
      have hdollar : ∀ ds : List Char, (∀ c ∈ ds, c ≠ '$') → dollarRef ds = none := by
        intro ds hds
        cases ds with
        | nil => rfl
        | cons c ds => exact if_neg (hds c (by simp))
      have htail : ∀ c ∈ cs.tail, c ≠ '$' ∧ c ≠ 'j' ∧ c ≠ 'g' := fun c hc => h c (List.mem_of_mem_tail hc)
      have hjump : jumpRef cs = none := by
        refine if_neg ?_
        cases cs with
        | nil => simp
        | cons c cs =>
            obtain ⟨-, hj, hg⟩ := h c (by simp)
            simp [List.isPrefixOf, Ne.symm hj, Ne.symm hg]
      have hnone : referenceAt start cs = none := by
        rw [referenceAt, hdollar cs fun c hc => (h c hc).1, hdollar cs.tail fun c hc => (htail c hc).1, hjump]
        simp
      rw [referencesFrom, hnone]
      simp only
      rw [ih htail, ite_self]

theorem references_blackHole (h : IsAddress ip) : references ("black_hole " ++ ip) = [] := by
  refine referencesFrom_nil fun c hc => ?_
  rw [String.toList_append, List.mem_append] at hc
  rcases hc with hc | hc
  · have hall : ("black_hole ".toList.all (fun c => decide (c ≠ '$' ∧ c ≠ 'j' ∧ c ≠ 'g'))) = true := by decide
    exact of_decide_eq_true (List.all_eq_true.mp hall c hc)
  · have hchar := h.2 c hc
    exact ⟨by rintro rfl; revert hchar; decide, by rintro rfl; revert hchar; decide,
      by rintro rfl; revert hchar; decide⟩

/-- An item refers only to these tags. -/
def Resolved (tags : List String) (item : Json) : Prop :=
  ∀ text ∈ itemTexts item, ∀ target ∈ references text, target ∈ tags

theorem checkReferences_iff : checkReferences graph = .ok () ↔
    ∀ entry ∈ graph, ∀ item ∈ itemsOf entry.2, Resolved graph.keys item := by
  have hcontains : ∀ tag, graph.contains tag = true ↔ tag ∈ graph.keys := fun tag => Dict.get?_isSome_iff
  rw [checkReferences, raiseIf_eq_ok, Bool.not_eq_false']
  simp only [List.all_eq_true, hcontains, Resolved]

theorem mem_itemTexts {text : String} :
    text ∈ itemTexts item ↔ item.getD "matches" .null = .str text ∨ item.getD "exec" .null = .str text := by
  have hstr : ∀ v : Json, v.str? = some text ↔ v = .str text := by
    intro v
    cases v <;> simp [str?]
  simp [itemTexts, hstr]

/-- An item that answers refers to nothing more than before. -/
theorem Resolved.bound {tags : List String} (hip : IsAddress ip) (h : Resolved tags item) :
    Resolved tags (answering ip item) := by
  cases hans : answers item with
  | false => rwa [answering_of_not hans]
  | true =>
      intro text htext target htarget
      rcases mem_itemTexts.mp htext with hmatches | hexec
      · rw [getD, get?_answering (by decide)] at hmatches
        exact h text (mem_itemTexts.mpr (.inl hmatches)) target htarget
      · rw [getD_answering_exec hans] at hexec
        rw [← Json.str.inj hexec, references_blackHole hip] at htarget
        cases htarget

/-- The texts of a step refer to tags of the contract. -/
def StepResolved (step : Step) : Prop :=
  ∀ text ∈ step.1.toList ++ [step.2], ∀ target ∈ references text, target ∈ requiredMosdns.keys

instance (step : Step) : Decidable (StepResolved step) :=
  inferInstanceAs (Decidable (∀ text ∈ step.1.toList ++ [step.2], ∀ target ∈ references text,
    target ∈ requiredMosdns.keys))

theorem stepResolved_of_expected {tag : String} {variants : List (List Step)}
    (h : (tag, variants) ∈ expectedSequences) :
    ∀ expected ∈ variants, ∀ step ∈ expected, StepResolved step := by
  have hall : ∀ entry ∈ expectedSequences, ∀ expected ∈ entry.2, ∀ step ∈ expected, StepResolved step := by
    decide +kernel
  exact hall _ h

/-- An item of a managed sequence, with the address of the machine, refers to tags of the contract. -/
theorem resolved_of_itemError {step : Step} (hip : IsAddress ip) (hstep : StepResolved step)
    (hanswerable : Answerable step) (h : itemError item step = none) :
    Resolved requiredMosdns.keys (answering ip item) := by
  have herror : itemError (answering ip item) step = none := itemError_answering hanswerable h
  intro text htext target htarget
  cases hitem : answering ip item with
  | obj fields =>
      rw [hitem] at herror htext
      obtain ⟨-, hcond, hexecutes⟩ := itemError_obj.mp herror
      rcases mem_itemTexts.mp htext with hmatches | hexec
      · cases hcondition : step.1 with
        | none =>
            rw [hcondition, conditioned, Option.isNone_iff_eq_none] at hcond
            rw [getD, hcond] at hmatches
            cases hmatches
        | some condition =>
            rw [hcondition, conditioned, hmatches, decide_eq_true_eq] at hcond
            exact hstep text (by simp [hcondition, Json.str.inj hcond]) target htarget
      · rw [hexec, executes, str?, Option.any_some] at hexecutes
        split at hexecutes
        -- the text begins with `black_hole `, so it is the address of the machine
        · have hans : answers item = true := by
            rw [← answers_answering ip, answers, hitem, hexec]
            exact hexecutes
          have hown : (answering ip item).getD "exec" .null = .str ("black_hole " ++ ip) :=
            getD_answering_exec hans
          rw [hitem, hexec] at hown
          rw [Json.str.inj hown, references_blackHole hip] at htarget
          cases htarget
        · exact hstep text (by simp [of_decide_eq_true hexecutes]) target htarget
  | _ => simp [hitem, itemError] at herror

/-- The items of a shaped sequence, with the address of the machine, refer to tags of the contract. -/
theorem Shaped.resolved {tag : String} {items : List Json} (hip : IsAddress ip)
    (h : Shaped tag (.arr items)) : ∀ item ∈ items, Resolved requiredMosdns.keys (answering ip item) := by
  obtain ⟨variants, hvariants, expected, hexpected, hnone⟩ := h
  obtain ⟨items', heq, hlength, herrors⟩ := sequenceError_iff.mp hnone
  obtain rfl := Json.arr.inj heq
  have hanswerable := answerable_of_expected hvariants expected hexpected
  have hsteps := stepResolved_of_expected hvariants expected hexpected
  clear hexpected hnone heq
  induction items generalizing expected with
  | nil => simp
  | cons item items ih =>
      cases expected with
      | nil => cases hlength
      | cons step steps =>
          rw [itemErrors, Option.or_eq_none_iff] at herrors
          obtain ⟨hfirst, hrest⟩ := List.forall_mem_cons.mp hanswerable
          obtain ⟨hstep, hmore⟩ := List.forall_mem_cons.mp hsteps
          exact List.forall_mem_cons.mpr ⟨resolved_of_itemError hip hstep hfirst herrors.1,
            ih steps (by simpa using hlength) herrors.2 hrest hmore⟩

/-- Only objects take fields over. -/
theorem takeFields_arr {theirs args : Json} {taken : List String} {items : List Json}
    (h : taken.foldl (takeField theirs) args = .arr items) : args = .arr items := by
  induction taken generalizing args with
  | nil => exact h
  | cons name taken ih =>
      have hnext := ih h
      cases args with
      | obj fields => cases hnext
      | _ => exact hnext

theorem mem_itemsOf {plugin : Plugin} :
    item ∈ itemsOf plugin ↔ ∃ items, (Json.obj plugin).getD "args" .null = .arr items ∧ item ∈ items := by
  rw [itemsOf]
  split
  · next items h => simp [h]
  · next h =>
    constructor
    · intro hnil
      cases hnil
    · rintro ⟨items, heq, -⟩
      exact absurd heq (h items)

theorem answeringArgs_arr {typ args : Json} {items : List Json} (h : answeringArgs ip typ args = .arr items) :
    ∃ own, args = .arr own ∧ (items = own ∨ items = own.map (answering ip)) := by
  unfold answeringArgs at h
  split at h
  · next own => exact ⟨own, rfl, .inr (Json.arr.inj h).symm⟩
  · exact ⟨items, h, .inl rfl⟩

/-- The items of a plugin in the bound graph. -/
theorem itemsOf_boundPlugin {tag : String} {plugin : Plugin} (hentry : Entry (tag, plugin))
    (h : item ∈ itemsOf (boundPlugin live ip tag plugin)) :
    (∃ own ∈ itemsOf plugin, item = own ∨ item = answering ip own) ∨
      tag = "internal_sequence" ∧ ∃ items, argsOf live tag = .arr items ∧
        ∃ theirs ∈ items, item = answering ip theirs := by
  obtain ⟨items, hitems, hmem⟩ := mem_itemsOf.mp h
  rw [args_boundPlugin, newArgs] at hitems
  by_cases htag : tag = "internal_sequence"
  · have hrequired : requiredType "internal_sequence" = .str "sequence" := by decide
    have htype : typeOf plugin = .str "sequence" := by
      subst htag
      exact hentry.type.trans hrequired
    rw [htype, boundArgs, if_pos htag] at hitems
    obtain ⟨theirs, htheirs, -⟩ := answeringArgs_arr hitems
    rw [htheirs, answeringArgs] at hitems
    rw [← Json.arr.inj hitems] at hmem
    obtain ⟨their, hin, rfl⟩ := List.mem_map.mp hmem
    exact .inr ⟨htag, theirs, htheirs, their, hin, rfl⟩
  · obtain ⟨own, hown, hsame⟩ := answeringArgs_arr hitems
    rw [boundArgs, if_neg htag] at hown
    have hargs := takeFields_arr hown
    rcases hsame with rfl | rfl
    · exact .inl ⟨item, mem_itemsOf.mpr ⟨_, hargs, hmem⟩, .inl rfl⟩
    · obtain ⟨mine, hin, rfl⟩ := List.mem_map.mp hmem
      exact .inl ⟨mine, mem_itemsOf.mpr ⟨_, hargs, hin⟩, .inr rfl⟩

/-- The references of the bound graph are resolved. -/
theorem checkReferences_bound (hip : IsAddress ip) (hg : Managed H graph)
    (hown : checkReferences graph = .ok ()) (htheirs : validateManagedSequences live = .ok ()) :
    checkReferences (boundGraph live ip graph) = .ok () := by
  obtain ⟨hshaped, -⟩ := validateManagedSequences_iff.mp htheirs
  have hrefs := checkReferences_iff.mp hown
  rw [checkReferences_iff, keys_boundGraph]
  intro entry hentry item hitem
  obtain ⟨⟨tag, plugin⟩, hmem, rfl⟩ := List.mem_map.mp hentry
  rcases itemsOf_boundPlugin (hg.entries _ hmem) hitem with ⟨own, hmine, rfl | rfl⟩ | ⟨rfl, items, hitems, theirs, htheir, rfl⟩
  · exact hrefs _ hmem item hmine
  · exact (hrefs _ hmem own hmine).bound hip
  · have hinternal := hshaped "internal_sequence" (by decide)
    rw [hitems] at hinternal
    intro text htext target htarget
    exact (hg.tags target).mpr (hinternal.resolved hip theirs htheir text htext target htarget)

end ProxyGateway.Mosdns
