import ProxyGateway.Wloc.Reading

set_option autoImplicit false

/-!
# ProxyGateway.Wloc.Rewritten

What `patch_response` does to a response. The rewritten message reads as the one before at every place,
but for the coordinates of its locations (`message_patchPb`), and rewriting it once more is as if the
first time had not been (`patchPb_patchPb`).
-/

namespace ProxyGateway.Wloc

variable {data body : Bytes} {flds : List Field} {one : Field} {latE8 lonE8 : Int} {depth depth' : Nat}

/-! ### Deep enough -/

theorem length_inside {val : Bytes} (hread : tryFields data = some flds) (hmem : one ∈ flds)
    (hval : one.inside = some val) : val.length < data.length := by
  obtain ⟨-, -, hencode⟩ := tryFields_iff.mp hread
  have hone : one.encode.length ≤ data.length := by
    obtain ⟨front, back, rfl⟩ := List.append_of_mem hmem
    rw [← hencode, List.flatMap_append, List.flatMap_cons, List.length_append, List.length_append]
    omega
  cases one with
  | text fn inner =>
      cases hval
      have htag := (length_uvarint (fn * 8 + 2 : Nat)).1
      rw [Field.encode, fBytes, tag, List.length_append, List.length_append] at hone
      omega
  | number fn n => cases hval
  | fixed32 fn inner => cases hval
  | fixed64 fn inner => cases hval

theorem tryFields_nil : tryFields [] = none := by
  rw [tryFields, if_pos rfl]

theorem patchFrom_none (h : tryFields data = none) : patchFrom latE8 lonE8 depth data = data := by
  cases depth with
  | zero => rfl
  | succ depth => rw [patchFrom, h]

theorem patchField_congr {patch patch' : Bytes → Bytes} {loc : Bool}
    (h : ∀ val, one.inside = some val → patch val = patch' val) :
    patchField patch loc latE8 lonE8 one = patchField patch' loc latE8 lonE8 one := by
  cases one with
  | text fn val => rw [patchField, patchField, h val rfl]
  | number fn n => rfl
  | fixed32 fn val => rfl
  | fixed64 fn val => rfl

/-- The recursion ends before its depth does. -/
theorem patchFrom_enough (h : data.length ≤ depth) (h' : data.length ≤ depth') :
    patchFrom latE8 lonE8 depth data = patchFrom latE8 lonE8 depth' data := by
  induction depth generalizing data depth' with
  | zero =>
      have hnil : data = [] := List.length_eq_zero_iff.mp (by omega)
      rw [patchFrom_none (hnil ▸ tryFields_nil), patchFrom_none (hnil ▸ tryFields_nil)]
  | succ depth ih =>
      cases hread : tryFields data with
      | none => rw [patchFrom_none hread, patchFrom_none hread]
      | some flds =>
          obtain ⟨hne, -, hencode⟩ := tryFields_iff.mp hread
          have hpos : flds.length ≤ data.length := hencode ▸ length_le_encode flds
          obtain ⟨depth', rfl⟩ : ∃ d, depth' = d + 1 :=
            ⟨depth' - 1, by have := List.length_pos_iff.mpr hne; omega⟩
          simp only [patchFrom, hread]
          refine List.flatMap_congr fun one hmem => patchField_congr fun val hval => ?_
          have hshort := length_inside hread hmem hval
          exact ih (by omega) (by omega)

theorem patchPb_none (h : tryFields data = none) : patchPb data latE8 lonE8 = data := patchFrom_none h

theorem patchPb_some (h : tryFields data = some flds) : patchPb data latE8 lonE8 =
    flds.flatMap (patchField (fun val => patchPb val latE8 lonE8) (isLoc flds) latE8 lonE8) := by
  have hstep : patchPb data latE8 lonE8 = patchFrom latE8 lonE8 (data.length + 1) data :=
    patchFrom_enough (by omega) (by omega)
  rw [hstep, patchFrom, h]
  refine List.flatMap_congr fun one hmem => patchField_congr fun val hval => ?_
  have hshort := length_inside h hmem hval
  exact patchFrom_enough (by omega) (by omega)

/-! ### The messages inside -/

/-- The message at a place: at each depth, the index of the field to go into. -/
def message : List Nat → Bytes → Option (List Field)
  | [], data => tryFields data
  | i :: path, data => do
      let flds ← tryFields data
      let one ← flds[i]?
      let val ← one.inside
      message path val

theorem message_cons_iff {i : Nat} {path : List Nat} {found : List Field} : message (i :: path) data = some found ↔
    ∃ flds one val, tryFields data = some flds ∧ flds[i]? = some one ∧ one.inside = some val ∧
      message path val = some found := by
  simp only [message, Option.bind_eq_bind, Option.bind_eq_some_iff]
  constructor
  · intro h
    obtain ⟨flds, hread, one, hone, val, hval, hfound⟩ := h
    exact ⟨flds, one, val, hread, hone, hval, hfound⟩
  · intro h
    obtain ⟨flds, one, val, hread, hone, hval, hfound⟩ := h
    exact ⟨flds, hread, one, hone, val, hval, hfound⟩

theorem hasLocFrom_iff (h : data.length ≤ depth) :
    hasLocFrom depth data = true ↔ ∃ path flds, message path data = some flds ∧ isLoc flds = true := by
  -- on the depth, which the bytes of a nested message are fewer than
  induction depth generalizing data with
  | zero =>
      have hnil : data = [] := List.length_eq_zero_iff.mp (by omega)
      have hnone (path : List Nat) : message path data = none := by
        cases path <;> simp [message, hnil, tryFields_nil]
      constructor
      · intro hloc
        cases hloc
      · intro hloc
        obtain ⟨path, flds, hfound, -⟩ := hloc
        rw [hnone path] at hfound
        cases hfound
  | succ depth ih =>
      cases hread : tryFields data with
      | none =>
          have hnone (path : List Nat) : message path data = none := by
            cases path <;> simp [message, hread]
          simp [hasLocFrom, hread, hnone]
      | some flds =>
          simp only [hasLocFrom, hread, Bool.or_eq_true, List.any_eq_true, Option.any_eq_true_iff_get]
          constructor
          · intro hloc
            obtain hhere | ⟨one, hmem, hsome, hdeep⟩ := hloc
            · exact ⟨[], flds, hread, hhere⟩
            · obtain ⟨val, hval⟩ := Option.isSome_iff_exists.mp hsome
              obtain ⟨i, hi⟩ := List.mem_iff_getElem?.mp hmem
              have hshort := length_inside hread hmem hval
              simp only [hval, Option.get_some] at hdeep
              obtain ⟨path, found, hfound, hloc⟩ := (ih (by omega)).mp hdeep
              exact ⟨i :: path, found, message_cons_iff.mpr ⟨flds, one, val, hread, hi, hval, hfound⟩, hloc⟩
          · intro hloc
            obtain ⟨path, found, hfound, hloc⟩ := hloc
            cases path with
            | nil =>
                rw [message, hread] at hfound
                cases hfound
                exact .inl hloc
            | cons i path =>
                obtain ⟨flds', one, val, hread', hi, hval, hfound⟩ := message_cons_iff.mp hfound
                rw [hread] at hread'
                cases hread'
                have hmem : one ∈ flds := List.mem_of_getElem? hi
                have hshort := length_inside hread hmem hval
                refine .inr ⟨one, hmem, by rw [hval]; rfl, ?_⟩
                simp only [hval, Option.get_some]
                exact (ih (by omega)).mpr ⟨path, found, hfound, hloc⟩

/-- `_has_loc` finds a location at any depth. -/
theorem hasLoc_iff : hasLoc data = true ↔ ∃ path flds, message path data = some flds ∧ isLoc flds = true :=
  hasLocFrom_iff (Nat.le_refl _)

/-! ### One message -/

/-- What a field of a message becomes: in a location the coordinates, in any message what is inside. -/
def Field.moved (latE8 lonE8 : Int) (loc : Bool) : Field → Field
  | .number fn n =>
      if loc && fn = 1 then .number 1 (word latE8)
      else if loc && fn = 2 then .number 2 (word lonE8)
      else .number fn n
  | .text fn val => .text fn (patchPb val latE8 lonE8)
  | .fixed32 fn val => .fixed32 fn val
  | .fixed64 fn val => .fixed64 fn val

theorem uvarint_word (n : Int) : uvarint (word n) = uvarint n := by
  unfold uvarint
  rw [word_of_lt (word_lt n)]

theorem encode_moved (loc : Bool) (one : Field) : (one.moved latE8 lonE8 loc).encode =
    patchField (fun val => patchPb val latE8 lonE8) loc latE8 lonE8 one := by
  cases one with
  | number fn n =>
      rw [Field.moved, patchField]
      split
      · rw [Field.encode, fVarint, fVarint, uvarint_word]
      · split
        · rw [Field.encode, fVarint, fVarint, uvarint_word]
        · rfl
  | text fn val => rfl
  | fixed32 fn val => rfl
  | fixed64 fn val => rfl

/-- The rewritten message is what its moved fields are written as. -/
theorem patchPb_eq (h : tryFields data = some flds) :
    patchPb data latE8 lonE8 = (flds.map (Field.moved latE8 lonE8 (isLoc flds))).flatMap Field.encode := by
  rw [patchPb_some h, List.flatMap_map]
  exact List.flatMap_congr fun one _ => (encode_moved (isLoc flds) one).symm

/-- A rewritten field takes at most ten bytes for each of its bytes, if what is inside does. -/
theorem length_moved (loc : Bool)
    (h : ∀ val, one.inside = some val → (patchPb val latE8 lonE8).length ≤ 10 * val.length) :
    (one.moved latE8 lonE8 loc).encode.length ≤ 10 * one.encode.length := by
  have hnumber (fn n fn' n' : Nat) : (Field.number fn n).encode.length ≤ 10 * (Field.number fn' n').encode.length := by
    have htag := length_uvarint (fn * 8 + 0 : Nat)
    have htag' := length_uvarint (fn' * 8 + 0 : Nat)
    have hn := length_uvarint n
    have hn' := length_uvarint n'
    simp only [Field.encode, fVarint, tag, List.length_append]
    omega
  cases one with
  | number fn n =>
      rw [Field.moved]
      split
      · exact hnumber _ _ _ _
      · split
        · exact hnumber _ _ _ _
        · exact hnumber _ _ _ _
  | text fn val =>
      have hval := h val rfl
      have hlen := length_uvarint val.length
      have hlen' := length_uvarint (patchPb val latE8 lonE8).length
      simp only [Field.moved, Field.encode, fBytes, List.length_append]
      omega
  | fixed32 fn val =>
      rw [Field.moved]
      omega
  | fixed64 fn val =>
      rw [Field.moved]
      omega

theorem length_flatMap_le {f g : Field → Bytes} {times : Nat}
    (h : ∀ one ∈ flds, (f one).length ≤ times * (g one).length) :
    (flds.flatMap f).length ≤ times * (flds.flatMap g).length := by
  induction flds with
  | nil => simp
  | cons one more ih =>
      have hone := h one List.mem_cons_self
      have hmore := ih fun one hmem => h one (List.mem_cons_of_mem _ hmem)
      rw [List.flatMap_cons, List.flatMap_cons, List.length_append, List.length_append, Nat.mul_add]
      omega

theorem length_patchPb (data : Bytes) : (patchPb data latE8 lonE8).length ≤ 10 * data.length := by
  induction hn : data.length using Nat.strong_induction_on generalizing data with
  | _ n ih =>
      cases hread : tryFields data with
      | none =>
          rw [patchPb_none hread]
          omega
      | some flds =>
          obtain ⟨-, -, hencode⟩ := tryFields_iff.mp hread
          have hone (one : Field) (hmem : one ∈ flds) :
              (one.moved latE8 lonE8 (isLoc flds)).encode.length ≤ 10 * one.encode.length := by
            refine length_moved _ fun val hval => ?_
            have hshort := length_inside hread hmem hval
            exact ih _ (by omega) val rfl
          rw [patchPb_eq hread, ← hn, ← hencode, List.flatMap_map]
          exact length_flatMap_le hone

/-! ### The rewritten message -/

theorem sound_moved {loc : Bool} (h : one.Sound)
    (hval : ∀ val, one.inside = some val → (patchPb val latE8 lonE8).length < 2 ^ 64) :
    (one.moved latE8 lonE8 loc).Sound := by
  cases one with
  | number fn n =>
      rw [Field.moved]
      split
      · exact ⟨by omega, word_lt _⟩
      · split
        · exact ⟨by omega, word_lt _⟩
        · exact h
  | text fn val => exact ⟨h.1, hval val rfl⟩
  | fixed32 fn val => exact h
  | fixed64 fn val => exact h

theorem full_moved {loc : Bool} (h : one.Full) : (one.moved latE8 lonE8 loc).Full := by
  cases one with
  | number fn n =>
      rw [Field.moved]
      split
      · trivial
      · split <;> trivial
  | text fn val => trivial
  | fixed32 fn val => exact h
  | fixed64 fn val => exact h

theorem sound_map_moved {loc : Bool} (h : Sound flds)
    (hval : ∀ one ∈ flds, ∀ val, one.inside = some val → (patchPb val latE8 lonE8).length < 2 ^ 64) :
    Sound (flds.map (Field.moved latE8 lonE8 loc)) := by
  induction flds with
  | nil => trivial
  | cons one more ih =>
      obtain ⟨hone, hfull, hmore⟩ := h
      refine ⟨sound_moved hone (hval one List.mem_cons_self), ?_, ih hmore fun one hmem => hval one (List.mem_cons_of_mem _ hmem)⟩
      intro hne
      exact full_moved (hfull fun hnil => hne (by rw [hnil]; rfl))

/-- What the rewritten message is read as. -/
theorem tryFields_patchPb (hlength : data.length < 2 ^ 60) : tryFields (patchPb data latE8 lonE8) =
    (tryFields data).map fun flds => flds.map (Field.moved latE8 lonE8 (isLoc flds)) := by
  cases hread : tryFields data with
  | none => rw [patchPb_none hread, hread, Option.map_none]
  | some flds =>
      obtain ⟨hne, hsound, hencode⟩ := tryFields_iff.mp hread
      rw [Option.map_some, tryFields_iff]
      refine ⟨by simpa using hne, sound_map_moved hsound fun one hmem val hval => ?_, (patchPb_eq hread).symm⟩
      have hshort := length_inside hread hmem hval
      have hten : (patchPb val latE8 lonE8).length ≤ 10 * val.length := length_patchPb val
      omega

/-- At every place the rewritten message has the moved fields of the message that was there. -/
theorem message_patchPb (hlength : data.length < 2 ^ 60) (path : List Nat) :
    message path (patchPb data latE8 lonE8) =
      (message path data).map fun flds => flds.map (Field.moved latE8 lonE8 (isLoc flds)) := by
  induction path generalizing data with
  | nil => exact tryFields_patchPb hlength
  | cons i path ih =>
      rw [message, message, tryFields_patchPb hlength]
      cases hread : tryFields data with
      | none => rfl
      | some flds =>
          simp only [Option.map_some, Option.bind_eq_bind, Option.bind_some, List.getElem?_map]
          cases hone : flds[i]? with
          | none => rfl
          | some one =>
              have hmem : one ∈ flds := List.mem_of_getElem? hone
              cases one with
              | text fn val =>
                  have hshort : val.length < data.length := length_inside hread hmem rfl
                  exact ih (by omega)
              | number fn n =>
                  simp only [Option.map_some, Option.bind_some, Field.moved]
                  split
                  · rfl
                  · split <;> rfl
              | fixed32 fn val => rfl
              | fixed64 fn val => rfl

theorem isNumber_moved (loc : Bool) (field : Nat) (one : Field) :
    (one.moved latE8 lonE8 loc).isNumber field = one.isNumber field := by
  cases one with
  | number fn n =>
      rw [Field.moved]
      split
      · next hlat =>
        obtain ⟨-, hfn⟩ := (Bool.and_eq_true_iff).mp hlat
        have hfn : fn = 1 := of_decide_eq_true hfn
        rw [hfn]
        rfl
      · split
        · next hlon =>
          obtain ⟨-, hfn⟩ := (Bool.and_eq_true_iff).mp hlon
          have hfn : fn = 2 := of_decide_eq_true hfn
          rw [hfn]
          rfl
        · rfl
  | text fn val => rfl
  | fixed32 fn val => rfl
  | fixed64 fn val => rfl

theorem isLoc_moved (loc : Bool) (flds : List Field) : isLoc (flds.map (Field.moved latE8 lonE8 loc)) = isLoc flds := by
  simp only [isLoc, List.any_map, Function.comp_def, isNumber_moved]

/-- A location stays one, and nothing else becomes one. -/
theorem hasLoc_patchPb (hlength : data.length < 2 ^ 60) : hasLoc (patchPb data latE8 lonE8) = hasLoc data := by
  rw [Bool.eq_iff_iff, hasLoc_iff, hasLoc_iff]
  constructor
  · intro h
    obtain ⟨path, found, hfound, hloc⟩ := h
    rw [message_patchPb hlength] at hfound
    obtain ⟨flds, hflds, rfl⟩ := Option.map_eq_some_iff.mp hfound
    rw [isLoc_moved] at hloc
    exact ⟨path, flds, hflds, hloc⟩
  · intro h
    obtain ⟨path, flds, hflds, hloc⟩ := h
    refine ⟨path, flds.map (Field.moved latE8 lonE8 (isLoc flds)), ?_, ?_⟩
    · rw [message_patchPb hlength, hflds, Option.map_some]
    · rw [isLoc_moved]
      exact hloc

/-! ### Rewriting again -/

theorem moved_moved {latE8' lonE8' : Int} {loc : Bool} (h : ∀ val, one.inside = some val →
    patchPb (patchPb val latE8 lonE8) latE8' lonE8' = patchPb val latE8' lonE8') :
    (one.moved latE8 lonE8 loc).moved latE8' lonE8' loc = one.moved latE8' lonE8' loc := by
  cases one with
  | number fn n =>
      cases loc with
      | false => rfl
      | true =>
          by_cases hlat : fn = 1
          · simp [Field.moved, hlat]
          · by_cases hlon : fn = 2
            · simp [Field.moved, hlon]
            · simp [Field.moved, hlat, hlon]
  | text fn val =>
      rw [Field.moved, Field.moved, Field.moved, h val rfl]
  | fixed32 fn val => rfl
  | fixed64 fn val => rfl

/-- The second target alone decides. -/
theorem patchPb_patchPb {latE8' lonE8' : Int} (hlength : data.length < 2 ^ 60) :
    patchPb (patchPb data latE8 lonE8) latE8' lonE8' = patchPb data latE8' lonE8' := by
  induction hn : data.length using Nat.strong_induction_on generalizing data with
  | _ n ih =>
      cases hread : tryFields data with
      | none => rw [show patchPb data latE8 lonE8 = data from patchPb_none hread]
      | some flds =>
          have hagain : tryFields (patchPb data latE8 lonE8) =
              (tryFields data).map fun flds => flds.map (Field.moved latE8 lonE8 (isLoc flds)) := tryFields_patchPb hlength
          rw [hread, Option.map_some] at hagain
          rw [patchPb_eq hagain, patchPb_eq hread, isLoc_moved, List.map_map]
          congr 1
          refine List.map_congr_left fun one hmem => moved_moved fun val hval => ?_
          have hshort := length_inside hread hmem hval
          exact ih _ (by omega) (by omega) rfl

/-- The message, rewritten to one target after the other. -/
def rewritten (data : Bytes) (targets : List (Int × Int)) : Bytes :=
  targets.foldl (fun data target => patchPb data target.1 target.2) data

theorem rewritten_append (hlength : data.length < 2 ^ 60) (targets : List (Int × Int)) :
    rewritten data (targets ++ [(latE8, lonE8)]) = patchPb data latE8 lonE8 := by
  have hstep (targets : List (Int × Int)) (target : Int × Int) :
      rewritten data (targets ++ [target]) = patchPb (rewritten data targets) target.1 target.2 := by
    rw [rewritten, List.foldl_append]
    rfl
  induction targets using List.reverseRecOn generalizing latE8 lonE8 with
  | nil => rfl
  | append_singleton targets target ih => rw [hstep, ih, patchPb_patchPb hlength]

/-- The coordinates of a rewritten location are the target's. -/
theorem moved_coordinates {n : Nat} (hloc : isLoc flds = true)
    (hmem : one ∈ flds.map (Field.moved latE8 lonE8 (isLoc flds))) :
    (one = .number 1 n → n = word latE8) ∧ (one = .number 2 n → n = word lonE8) := by
  obtain ⟨old, -, hold⟩ := List.mem_map.mp hmem
  rw [hloc] at hold
  cases old with
  | number fn m =>
      by_cases hlat : fn = 1
      · simp only [Field.moved, hlat, decide_true, Bool.and_self, if_true] at hold
        subst hold
        simp [eq_comm]
      · by_cases hlon : fn = 2
        · simp only [Field.moved, hlon, decide_true, Bool.and_self, if_true] at hold
          simp at hold
          subst hold
          simp [eq_comm]
        · simp only [Field.moved, hlat, hlon, decide_false, Bool.and_false, Bool.false_eq_true, if_false] at hold
          subst hold
          simp [hlat, hlon]
  | text fn val => simp [← hold, Field.moved]
  | fixed32 fn val => simp [← hold, Field.moved]
  | fixed64 fn val => simp [← hold, Field.moved]

/-- Whatever targets a message was rewritten to, only the last one shows: it is what rewriting the first
message to it gives, and each location in it, however deep, has the last target's coordinates. -/
theorem rewritten_shows_last (hlength : data.length < 2 ^ 60) (targets : List (Int × Int)) :
    rewritten data (targets ++ [(latE8, lonE8)]) = patchPb data latE8 lonE8 ∧
      ∀ path flds, message path (rewritten data (targets ++ [(latE8, lonE8)])) = some flds → isLoc flds = true →
        ∀ n, (.number 1 n ∈ flds → n = word latE8) ∧ (.number 2 n ∈ flds → n = word lonE8) := by
  have hlast : rewritten data (targets ++ [(latE8, lonE8)]) = patchPb data latE8 lonE8 := rewritten_append hlength targets
  refine ⟨hlast, fun path found hfound hloc n => ?_⟩
  rw [hlast, message_patchPb hlength] at hfound
  obtain ⟨flds, -, rfl⟩ := Option.map_eq_some_iff.mp hfound
  rw [isLoc_moved] at hloc
  exact ⟨fun hmem => (moved_coordinates hloc hmem).1 rfl, fun hmem => (moved_coordinates hloc hmem).2 rfl⟩

/-- One access point, which has a location. -/
def wifi : Bytes := [0x12, 9, 0x0a, 1, 0x61, 0x12, 4, 0x08, 5, 0x10, 6]

theorem rewritten_shows_last_wifi : rewritten wifi ([(1, 2)] ++ [(3, -4)]) = patchPb wifi 3 (-4) ∧
    ∀ path flds, message path (rewritten wifi ([(1, 2)] ++ [(3, -4)])) = some flds → isLoc flds = true →
      ∀ n, (.number 1 n ∈ flds → n = word 3) ∧ (.number 2 n ∈ flds → n = word (-4)) :=
  rewritten_shows_last (by decide) [(1, 2)]

/-! ### Responses -/

/-- What `_split_resp` takes as the header: what stands before the first bytes with a location. -/
theorem splitResp_cases (body : Bytes) :
    (∃ pre pb, body = pre ++ pb ∧ pre.length < 64 ∧ hasLoc pb = true ∧
      (∀ i < pre.length, hasLoc (body.drop i) = false) ∧ splitResp body = (pre, pb)) ∨
    ((∀ i < 64, hasLoc (body.drop i) = false) ∧ splitResp body = (body, [])) := by
  have hsome (data : Bytes) : ((tryFields data).isSome && hasLoc data) = hasLoc data := by
    cases hread : tryFields data with
    | none =>
        have hfalse : hasLoc data = false := by
          rw [hasLoc]
          cases data.length <;> simp [hasLocFrom, hread]
        rw [hfalse]
        rfl
    | some flds => simp
  simp only [splitResp, hsome]
  cases hfind : (List.range (min body.length 64)).find? fun i => hasLoc (body.drop i) with
  | some i =>
      left
      obtain ⟨hloc, hrange, hbefore⟩ := List.find?_range_eq_some.mp hfind
      have hi : i < min body.length 64 := List.mem_range.mp hrange
      have htake : (body.take i).length = i := by
        rw [List.length_take]
        omega
      refine ⟨body.take i, body.drop i, (List.take_append_drop i body).symm, by omega, hloc, ?_, rfl⟩
      intro j hj
      rw [htake] at hj
      simpa using hbefore j hj
  | none =>
      right
      refine ⟨fun i hi => ?_, rfl⟩
      by_cases hshort : i < body.length
      · simpa using List.find?_range_eq_none.mp hfind i (by omega)
      · rw [List.drop_of_length_le (by omega)]
        rfl

/-- `patch_response` keeps a header of fewer than 64 bytes and rewrites the message behind it, which reads
at every place as before but for the coordinates of its locations. A body with no location behind such a
header is left alone. -/
theorem patchResponse_message (hlength : body.length < 2 ^ 60) :
    (∃ pre pb, body = pre ++ pb ∧ pre.length < 64 ∧ hasLoc pb = true ∧
      (∀ i < pre.length, hasLoc (body.drop i) = false) ∧
      patchResponse body latE8 lonE8 = pre ++ patchPb pb latE8 lonE8 ∧
      hasLoc (patchPb pb latE8 lonE8) = true ∧
      ∀ path, message path (patchPb pb latE8 lonE8) =
        (message path pb).map fun flds => flds.map (Field.moved latE8 lonE8 (isLoc flds))) ∨
    ((∀ i < 64, hasLoc (body.drop i) = false) ∧ patchResponse body latE8 lonE8 = body) := by
  obtain ⟨pre, pb, hbody, hpre, hloc, hbefore, hsplit⟩ | ⟨hnone, hsplit⟩ := splitResp_cases body
  · left
    have hpb : pb.length < 2 ^ 60 := by
      rw [hbody, List.length_append] at hlength
      omega
    have hne : pb ≠ [] := by
      intro hnil
      rw [hnil] at hloc
      cases hloc
    refine ⟨pre, pb, hbody, hpre, hloc, hbefore, ?_, ?_, message_patchPb hpb⟩
    · rw [patchResponse, hsplit]
      exact if_neg hne
    · rw [hasLoc_patchPb hpb, hloc]
  · right
    refine ⟨hnone, ?_⟩
    rw [patchResponse, hsplit]
    exact if_pos rfl

theorem patchResponse_message_wifi :
    (∃ pre pb, 7 :: wifi = pre ++ pb ∧ pre.length < 64 ∧ hasLoc pb = true ∧
      (∀ i < pre.length, hasLoc ((7 :: wifi).drop i) = false) ∧
      patchResponse (7 :: wifi) 3 (-4) = pre ++ patchPb pb 3 (-4) ∧
      hasLoc (patchPb pb 3 (-4)) = true ∧
      ∀ path, message path (patchPb pb 3 (-4)) =
        (message path pb).map fun flds => flds.map (Field.moved 3 (-4) (isLoc flds))) ∨
    ((∀ i < 64, hasLoc ((7 :: wifi).drop i) = false) ∧ patchResponse (7 :: wifi) 3 (-4) = 7 :: wifi) :=
  patchResponse_message (by decide)

end ProxyGateway.Wloc
