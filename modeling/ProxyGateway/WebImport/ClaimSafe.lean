import ProxyGateway.WebImport.Protocol

set_option autoImplicit false

/-!
# ProxyGateway.WebImport.ClaimSafe

Each operation on a staged import keeps to what it may do (`Permit`), whatever the
others do within `Rely`, and what its result means for the import.

`Spec i J m K` is the judgement used here: started where `J` holds, `m` performs only
permitted operations and ends where `K` holds of its outcome.
-/

namespace ProxyGateway.WebImport

open Method

section Specs

variable {i : Pid} {X : ImportId} {α β : Type}

/-- Others keep `J`. -/
def Stable (i : Pid) (J : Staging → Prop) : Prop := ∀ w w', J w → Rely i w w' → J w'

/-- From `J`, the call `m` of process `i` ends in `K`. -/
def Spec (i : Pid) (J : Staging → Prop) (m : Call α) (K : Except ImportError α → Staging → Prop) :
    Prop :=
  ∀ w, J w → Meets (setting i) m () w (fun r _ w => K r w)

theorem Spec.mono {J J' : Staging → Prop} {m : Call α} {K K' : Except ImportError α → Staging → Prop}
    (h : Spec i J m K) (hJ : ∀ w, J' w → J w) (hK : ∀ r w, K r w → K' r w) : Spec i J' m K' :=
  fun w hw => (h w (hJ w hw)).mono (fun r _ v hv => hK r v hv)

theorem spec_ret {J : Staging → Prop} {K : Except ImportError α → Staging → Prop}
    (hJ : Stable i J) {a : α} (h : ∀ w, J w → K (.ok a) w) : Spec i J (ret a) K :=
  fun w hw => meets_ret (fun w' hr => h w' (hJ w w' hw hr))

theorem spec_raise {J : Staging → Prop} {K : Except ImportError α → Staging → Prop}
    (hJ : Stable i J) {e : ImportError} (h : ∀ w, J w → K (.error e) w) :
    Spec i J (raise e : Call α) K :=
  fun w hw => meets_raise (fun w' hr => h w' (hJ w w' hw hr))

/-- Sequencing, when the first part's error ends the call. -/
theorem Spec.bind {J : Staging → Prop} {m : Call α} {f : α → Call β}
    {M : Except ImportError α → Staging → Prop} {K : Except ImportError β → Staging → Prop}
    (h : Spec i J m M) (hok : ∀ a, Spec i (M (.ok a)) (f a) K)
    (hstable : ∀ e, Stable i (K (.error e))) (herr : ∀ e w, M (.error e) w → K (.error e) w) :
    Spec i J (m.bind f) K := by
  intro w hw
  refine meets_bind (h w hw) (fun a _ v hv => hok a v hv) ?_
  intro e _ v hv
  exact meets_raise (fun v' hr => hstable e v v' (herr e v hv) hr)

theorem Spec.outcome {J : Staging → Prop} {m : Call α} {f : Except ImportError α → Call β}
    {M : Except ImportError α → Staging → Prop} {K : Except ImportError β → Staging → Prop}
    (h : Spec i J m M) (hf : ∀ r, Spec i (M r) (f r) K) : Spec i J (m.outcome f) K :=
  fun w hw => meets_outcome (h w hw) (fun r _ v hv => hf r v hv)

theorem Spec.tryCatch {J : Staging → Prop} {m : Call α} {f : ImportError → Call α}
    {M K : Except ImportError α → Staging → Prop}
    (h : Spec i J m M) (hok : ∀ a, Stable i (K (.ok a))) (hMK : ∀ a w, M (.ok a) w → K (.ok a) w)
    (herr : ∀ e, Spec i (M (.error e)) (f e) K) : Spec i J (m.tryCatch f) K := by
  intro w hw
  refine meets_tryCatch (h w hw) ?_ (fun e _ v hv => herr e v hv)
  intro a _ v hv
  exact meets_ret (fun v' hr => hok a v v' (hMK a v hv) hr)

/-- One operation. -/
theorem spec_perform {J : Staging → Prop} {e : Op} {K : e.Answer → Staging → Prop}
    (hJ : Stable i J) (hK : ∀ a, Stable i (K a))
    (h : ∀ w, J w → Permit i e w ∧ ∀ c, K (exec i e c w).1 (exec i e c w).2) :
    Spec i J (perform e) (fun r w => ∃ a, r = .ok a ∧ K a w) := by
  intro w hw
  refine meets_call (Prog.sat_perform ?_)
  intro w' hr
  obtain ⟨hp, hc⟩ := h w' (hJ w w' hw hr)
  refine ⟨hp, fun c _ v hv v' hv' => ⟨_, rfl, hK _ _ _ ?_ hv'⟩⟩
  exact hK _ _ _ (hc c) hv

/-- One operation, and the rest of the call. -/
theorem spec_perform_bind {J : Staging → Prop} {e : Op} {M : e.Answer → Staging → Prop}
    {f : e.Answer → Call β} {K : Except ImportError β → Staging → Prop}
    (hJ : Stable i J) (hM : ∀ a, Stable i (M a))
    (h : ∀ w, J w → Permit i e w ∧ ∀ c, M (exec i e c w).1 (exec i e c w).2)
    (hf : ∀ a, Spec i (M a) (f a) K) : Spec i J ((perform e).bind f) K := by
  intro w hw
  refine meets_bind (spec_perform hJ hM h w hw) ?_ ?_
  · intro a _ v hv
    obtain ⟨b, hb, hv⟩ := hv
    cases hb
    exact hf a v hv
  · intro e _ v hv
    obtain ⟨b, hb, _⟩ := hv
    cases hb

/-- The operations that only look. -/
def Op.looks : Op → Bool
  | .createExclusive _ | .takeOver _ | .storeJson .. | .unlink .. => false
  | _ => true

theorem Op.looks_spec {e : Op} (h : e.looks = true) (c : Choice) (w : Staging) :
    Permit i e w ∧ (exec i e c w).2 = w := by
  cases e <;> first | exact ⟨trivial, rfl⟩ | cases h

/-- Looking, and the rest of the call. -/
theorem spec_look_bind {J : Staging → Prop} {e : Op} {f : e.Answer → Call β}
    {K : Except ImportError β → Staging → Prop} (hJ : Stable i J) (he : e.looks = true)
    (hf : ∀ a, Spec i J (f a) K) : Spec i J ((perform e).bind f) K := by
  refine spec_perform_bind (M := fun _ => J) hJ (fun _ => hJ) ?_ hf
  intro w hw
  exact ⟨(Op.looks_spec he {} w).1, fun c => by rw [(Op.looks_spec (i := i) he c w).2]; exact hw⟩

/-! ### Stable facts -/

theorem stable_inv : Stable i Inv := fun _ _ h hr => hr.inv h

theorem Stable.and {J K : Staging → Prop} (hJ : Stable i J) (hK : Stable i K) :
    Stable i (fun w => J w ∧ K w) := fun w w' h hr => ⟨hJ w w' h.1 hr, hK w w' h.2 hr⟩

theorem stable_mine : Stable i (Mine i X) := fun _ _ h hr => hr.mine X h

theorem stable_gone : Stable i (fun w => w.upload X = none) := fun _ _ h hr => hr.gone X h

theorem stable_imp {P : Prop} {J : Staging → Prop} (hJ : Stable i J) :
    Stable i (fun w => P → J w) := fun w w' h hr hp => hJ w w' (h hp) hr

theorem stable_const {P : Prop} : Stable i (fun _ => P) := fun _ _ h _ => h

/-! ### Removing files -/

/-- `i` may remove the files of `X` for the reason `why`. -/
structure Ready (i : Pid) (why : Why) (X : ImportId) (w : Staging) : Prop where
  inv : Inv w
  mine : why.locked = true → Mine i X w
  follows : Follows w.log (.removed why X .json)

/-- What may be removed first may be removed later. -/
theorem Ready.follows_any {why : Why} {w : Staging} (h : Ready i why X w) (s : Suffix) :
    Follows w.log (.removed why X s) := by
  have hf := h.follows
  cases why with
  | cancel => exact fun _ => hf (by simp)
  | expired now | collect now => exact fun _ => hf (by simp)
  | own | release | discard => trivial

/-- A history in which less stands allows the same removals. -/
theorem Follows.of_standing {why : Why} {s : Suffix} {l l' : List Event}
    (h : Follows l (.removed why X s))
    (hs : why.locked = true → ∀ t, standing l' X = some t → standing l X = some t) :
    Follows l' (.removed why X s) := by
  cases why with
  | cancel =>
      intro hne
      cases hst : standing l' X with
      | none => rfl
      | some t => exact absurd (hs rfl t hst) (by simp [h hne])
  | expired now | collect now => exact fun hne t ht => h hne t (hs rfl t ht)
  | own | release | discard => trivial

theorem stable_ready {why : Why} : Stable i (Ready i why X) := by
  intro w w' h hr
  refine ⟨hr.inv h.inv, fun hl => hr.mine X (h.mine hl), ?_⟩
  exact h.follows.of_standing (fun hl => hr.standing X (h.mine hl))

/-- After one file is gone the next may go: the marker is last. -/
theorem Ready.remove {why : Why} {s : Suffix} {w : Staging} (h : Ready i why X w)
    (hs : s = .claim → w.upload X = none) : Ready i why X (w.remove why X s) := by
  refine ⟨h.inv.remove (h.follows_any s), fun hl => ?_, ?_⟩
  · unfold Mine Owns
    rw [Staging.remove_upload, Staging.remove_claim]
    by_cases hc : s = .claim
    · simp [hc, hs hc]
    · by_cases hu : s = .upload
      · simp [hu]
      · simpa [hc, hu, Mine, Owns] using h.mine hl
  · refine h.follows.of_standing (fun _ t ht => ?_)
    rw [Staging.remove_log, standing_remove] at ht
    split at ht
    · cases ht
    · exact ht

/-- `_safe_unlink` of one file; the marker goes when the upload is gone. -/
theorem spec_safeUnlink {why : Why} {s : Suffix} :
    Spec i (fun w => Ready i why X w ∧ (s = .claim → w.upload X = none)) (safeUnlink why X s)
      (fun r w => Ready i why X w ∧ (s = .claim → w.upload X = none) ∧
        (r = .ok () → s = .upload → w.upload X = none)) := by
  have hpre : Stable i (fun w => Ready i why X w ∧ (s = .claim → w.upload X = none)) :=
    stable_ready.and (stable_imp stable_gone)
  have hmid : ∀ P : Prop, Stable i (fun w => (Ready i why X w ∧ (s = .claim → w.upload X = none)) ∧
      (P → s = .upload → w.upload X = none)) :=
    fun P => hpre.and (stable_imp (stable_imp stable_gone))
  refine spec_perform_bind (e := .lstat X s)
    (M := fun (found : Option Rat) w => (Ready i why X w ∧ (s = .claim → w.upload X = none)) ∧
      (found = none → s = .upload → w.upload X = none)) hpre (fun _ => hmid _) ?_ ?_
  · intro w hw
    refine ⟨trivial, fun c => ⟨hw, fun hnone hs => ?_⟩⟩
    subst hs
    simpa [exec, Staging.mtime] using hnone
  -- between the two operations others may remove the file
  intro found
  cases found with
  | none => exact spec_ret (hmid _) (fun w h => ⟨h.1.1, h.1.2, fun _ => h.2 rfl⟩)
  | some time =>
      refine spec_perform_bind (e := .unlink why X s)
        (M := fun (done : Done) w => (Ready i why X w ∧ (s = .claim → w.upload X = none)) ∧
          (done = true → s = .upload → w.upload X = none)) (hmid _) (fun _ => hmid _) ?_ ?_
      · intro w hw
        obtain ⟨⟨hready, hclaim⟩, _⟩ := hw
        refine ⟨⟨hready.mine, hready.follows_any s⟩, fun c => ?_⟩
        simp only [exec]
        split
        · split
          · refine ⟨⟨hready.remove hclaim, fun hs => ?_⟩, fun _ hs => ?_⟩
            · rw [Staging.remove_upload]
              split
              · rfl
              · exact hclaim hs
            · rw [Staging.remove_upload, if_pos ⟨hs, rfl⟩]
          · exact ⟨⟨hready, hclaim⟩, fun hf => by cases hf⟩
        · next hgone =>
            refine ⟨⟨hready, hclaim⟩, fun _ hs => ?_⟩
            subst hs
            simpa [Staging.mtime] using hgone
      · intro done
        cases done with
        | true => exact spec_ret (hmid _) (fun w h => ⟨h.1.1, h.1.2, fun _ => h.2 rfl⟩)
        | false => exact spec_raise (hmid _) (fun w h => ⟨h.1.1, h.1.2, fun hr => by cases hr⟩)

/-- `discard` on behalf of `why`: on success the upload is gone. -/
theorem spec_discardFiles {why : Why} :
    Spec i (Ready i why X) (discardFiles why X)
      (fun r w => Ready i why X w ∧ (r = .ok () → w.upload X = none)) := by
  have hstable : ∀ P : Prop, Stable i (fun w => Ready i why X w ∧ (P → w.upload X = none)) :=
    fun P => stable_ready.and (stable_imp stable_gone)
  have herr : ∀ e : ImportError, ∀ w, Ready i why X w →
      Ready i why X w ∧ ((Except.error e : Except ImportError Unit) = .ok () → w.upload X = none) :=
    fun e w h => ⟨h, fun hr => by cases hr⟩
  refine Spec.bind (spec_safeUnlink.mono (fun w h => ⟨h, fun hs => by cases hs⟩)
    (fun r w h => h.1)) ?_ (fun _ => hstable _) herr
  intro _
  refine Spec.bind (M := fun r w => Ready i why X w ∧ (r = .ok () → w.upload X = none))
    (spec_safeUnlink.mono (fun w h => ⟨h, fun hs => by cases hs⟩)
      (fun r w h => ⟨h.1, fun hr => h.2.2 hr rfl⟩)) ?_ (fun _ => hstable _) (fun e w h => herr e w h.1)
  intro _
  exact spec_safeUnlink.mono (fun w h => ⟨h.1, fun _ => h.2 rfl⟩)
    (fun r w h => ⟨h.1, fun _ => h.2.1 rfl⟩)

/-- Taking one's own marker away at the end. -/
theorem spec_unclaim {P : Prop} :
    Spec i (fun w => Inv w ∧ Mine i X w ∧ (P → w.upload X = none)) (safeUnlink .own X .claim)
      (fun _ w => Inv w ∧ (P → w.upload X = none)) := by
  have hpre : Stable i (fun w => Inv w ∧ Mine i X w ∧ (P → w.upload X = none)) :=
    stable_inv.and (stable_mine.and (stable_imp stable_gone))
  have hpost : Stable i (fun w => Inv w ∧ (P → w.upload X = none)) :=
    stable_inv.and (stable_imp stable_gone)
  refine spec_look_bind (e := .lstat X .claim) hpre rfl ?_
  intro found
  cases (found : Option Rat) with
  | none => exact spec_ret hpre (fun w h => ⟨h.1, h.2.2⟩)
  | some time =>
      refine spec_perform_bind (e := .unlink .own X .claim)
        (M := fun _ w => Inv w ∧ (P → w.upload X = none)) hpre (fun _ => hpost) ?_ ?_
      · intro w hw
        refine ⟨⟨fun _ => hw.2.1, trivial⟩, fun c => ?_⟩
        refine ⟨inv_exec (e := .unlink .own X .claim) hw.1 ⟨fun _ => hw.2.1, trivial⟩ c, fun hP => ?_⟩
        simp only [exec]
        split
        · split
          · rw [Staging.remove_upload]
            simpa using hw.2.2 hP
          · exact hw.2.2 hP
        · exact hw.2.2 hP
      · intro done
        cases (done : Done) with
        | true => exact spec_ret hpost (fun w h => h)
        | false => exact spec_raise hpost (fun w h => h)

/-! ### Reading a record under the marker -/

/-- The record `r` was read under the marker: what stands of `X` is in it. -/
def Knows (X : ImportId) (r : Record) (w : Staging) : Prop :=
  ∀ t, standing w.log X = some t →
    ∃ a, r.apply = some a ∧ a.claimed = true ∧ a.claimedAt = t

/-- `i` holds the marker, and `r` is the record it read under it. -/
structure Holding (i : Pid) (X : ImportId) (r : Record) (w : Staging) : Prop where
  inv : Inv w
  mine : Mine i X w
  knows : Knows X r w

theorem stable_holding {r : Record} : Stable i (Holding i X r) := by
  intro w w' h hr
  exact ⟨hr.inv h.inv, hr.mine X h.mine, fun t ht => h.knows t (hr.standing X h.mine t ht)⟩

theorem stable_claimed : Stable i (fun w => Inv w ∧ Mine i X w) := stable_inv.and stable_mine

theorem Inv.knows {w : Staging} {r : Record} (h : Inv w) (hr : w.record? X = some r) :
    Knows X r w := by
  intro t ht
  obtain ⟨r', a, hr', ha, hc, hat⟩ := h.record X t ht
  rw [hr] at hr'
  cases hr'
  exact ⟨a, ha, hc, hat⟩

/-- A claim that is not active is two hours old at the reading that said so. -/
theorem spec_activeClaim {J : Staging → Prop} (hJ : Stable i J) (r : Record) :
    Spec i J (activeClaim r) (fun res w => J w ∧ ∀ b, res = .ok b → b.1 = false →
      ∀ a, r.apply = some a → a.claimed = true →
        ∃ now, b.2 = some now ∧ claimProtectionTtl ≤ now - a.claimedAt) := by
  unfold activeClaim
  cases ha : r.apply with
  | none => exact spec_ret hJ (fun w h => ⟨h, fun b _ _ a hr => by cases hr⟩)
  | some a =>
      dsimp only
      cases hc : a.claimed with
      | false =>
          rw [if_neg (by simp)]
          refine spec_ret hJ (fun w h => ⟨h, fun b _ _ a' hr hcl => ?_⟩)
          cases hr
          rw [hc] at hcl
          cases hcl
      | true =>
          rw [if_pos rfl]
          refine spec_look_bind (e := .clock) hJ rfl ?_
          intro (now : Rat)
          refine spec_ret hJ (fun w h => ⟨h, ?_⟩)
          intro b hb hfalse a' hr _
          cases hr
          cases hb
          exact ⟨now, rfl, Rat.not_lt.mp (of_decide_eq_false hfalse)⟩

theorem spec_requireFresh {r : Record} :
    Spec i (Holding i X r) (requireFresh X r)
      (fun res w => match res with
        | .ok _ => Holding i X r w
        | .error _ => Inv w ∧ Mine i X w) := by
  refine spec_look_bind (e := .clock) stable_holding rfl ?_
  intro (now : Rat)
  show Spec i _ (if now - r.created > previewTtl then _ else _) _
  by_cases hexp : now - r.created > previewTtl
  · rw [if_pos hexp]
    refine Spec.bind (spec_activeClaim stable_holding r) ?_ (fun _ => stable_claimed)
      (fun e w h => ⟨h.1.inv, h.1.mine⟩)
    intro active
    cases hb : active.1 with
    | true =>
        simp only [if_true]
        exact spec_ret (stable_holding.and stable_const) (fun w h => h.1)
    | false =>
        simp only [Bool.false_eq_true, if_false]
        -- nothing stands, or the claim is two hours old at the last reading
        refine Spec.bind (spec_discardFiles.mono (fun w h => ?_) (fun _ _ h => h)) ?_
          (fun _ => stable_claimed) (fun e w h => ⟨h.1.inv, h.1.mine rfl⟩)
        · refine ⟨h.1.inv, fun _ => h.1.mine, fun _ t ht => ?_⟩
          obtain ⟨a, ha, hc, hat⟩ := h.1.knows t ht
          obtain ⟨at_, hat', hold⟩ := h.2 active rfl hb a ha hc
          rw [hat', ← hat]
          exact hold
        · intro _
          exact spec_raise (stable_ready.and (stable_imp stable_gone))
            (fun w h => ⟨h.1.inv, h.1.mine rfl⟩)
  · rw [if_neg hexp]
    exact spec_ret stable_holding (fun w h => h)

/-- The upload was there when it was read. -/
theorem spec_readUpload {H : Host} {r : Record} :
    Spec i (Holding i X r) (readUpload H X r)
      (fun res w => match res with
        | .ok _ => Holding i X r w ∧ Locked i X w
        | .error _ => Inv w ∧ Mine i X w) := by
  have hlocked : ∀ P : Prop, Stable i (fun w => Holding i X r w ∧ (P → Locked i X w)) :=
    fun P => stable_holding.and (stable_imp (fun _ _ h hr => h.rely hr))
  refine spec_perform_bind (e := .readUpload X)
    (M := fun (raw : Option Bytes) w => Holding i X r w ∧ (raw ≠ none → Locked i X w))
    stable_holding (fun _ => hlocked _) ?_ ?_
  · intro w hw
    refine ⟨trivial, fun c => ⟨hw, fun hraw => ?_⟩⟩
    have hlive : w.upload X ≠ none := by
      intro hnone
      exact hraw (by simp [exec, hnone])
    cases hw.mine with
    | inl hown => exact ⟨hown, hlive⟩
    | inr hgone => exact absurd hgone hlive
  · intro raw
    cases (raw : Option Bytes) with
    | none => exact spec_raise (hlocked _) (fun w h => ⟨h.1.inv, h.1.mine⟩)
    | some raw =>
        show Spec i _ (if raw = [] ∨ uploadLimit r.kind < raw.length then _ else if _ then _ else _) _
        split
        · exact spec_raise (hlocked _) (fun w h => ⟨h.1.inv, h.1.mine⟩)
        · split
          · exact spec_raise (hlocked _) (fun w h => ⟨h.1.inv, h.1.mine⟩)
          · exact spec_ret (hlocked _) (fun w h => ⟨h.1, h.2 (by simp)⟩)

/-- `_record` under the marker. -/
theorem spec_record {H : Host} :
    Spec i (fun w => Inv w ∧ Mine i X w) (record H X true)
      (fun res w => match res with
        | .ok r => Holding i X r w ∧ Locked i X w
        | .error _ => Inv w ∧ Mine i X w) := by
  unfold record checkedPath
  refine Spec.bind (M := fun _ w => Inv w ∧ Mine i X w) ?_ ?_ (fun _ => stable_claimed)
    (fun _ _ h => h)
  · split
    · exact spec_ret stable_claimed (fun _ h => h)
    · exact spec_raise stable_claimed (fun _ h => h)
  intro _
  refine spec_perform_bind (e := .readJson X)
    (M := fun (found : Option Record) w => (Inv w ∧ Mine i X w) ∧
      ∀ r, found = some r → Holding i X r w) stable_claimed ?_ ?_ ?_
  · intro found w w' h hr
    exact ⟨stable_claimed w w' h.1 hr, fun r hf => stable_holding w w' (h.2 r hf) hr⟩
  · intro w hw
    exact ⟨trivial, fun c => ⟨hw, fun r hf => ⟨hw.1, hw.2, hw.1.knows hf⟩⟩⟩
  intro found
  have hstable : Stable i (fun w => (Inv w ∧ Mine i X w) ∧
      ∀ r, (found : Option Record) = some r → Holding i X r w) := by
    intro w w' h hr
    exact ⟨stable_claimed w w' h.1 hr, fun r hf => stable_holding w w' (h.2 r hf) hr⟩
  cases hf : (found : Option Record) with
  | none => exact spec_raise stable_claimed (fun w h => h) |>.mono (fun w h => h.1) (fun _ _ h => h)
  | some r =>
      refine Spec.mono (J := Holding i X r) ?_ (fun w h => h.2 r rfl) (fun _ _ h => h)
      show Spec i _ (if r.id ≠ X then _ else _) _
      by_cases hid : r.id ≠ X
      · rw [if_pos hid]
        exact spec_raise stable_holding (fun w h => ⟨h.inv, h.mine⟩)
      · rw [if_neg hid]
        refine Spec.bind spec_requireFresh (fun _ => ?_) (fun _ => stable_claimed) (fun _ _ h => h)
        refine Spec.bind spec_readUpload (fun _ => ?_) (fun _ => stable_claimed) (fun _ _ h => h)
        exact spec_ret (stable_holding.and (fun _ _ h hr => h.rely hr)) (fun w h => h)

/-! ### Preparing -/

/-- The import was prepared. -/
def Prepared (X : ImportId) (w : Staging) : Prop := ∃ t, Event.prepared X t ∈ w.log

theorem stable_prepared : Stable i (fun w => Inv w ∧ Prepared X w) := by
  intro w w' h hr
  obtain ⟨hinv, t, ht⟩ := h
  exact ⟨hr.inv hinv, t, hr.log.subset ht⟩

theorem spec_lift {J : Staging → Prop} (hJ : Stable i J) (x : Except ImportError α) :
    Spec i J (lift x) (fun _ w => J w) := by
  cases x with
  | ok a => exact spec_ret hJ (fun _ h => h)
  | error e => exact spec_raise hJ (fun _ h => h)

theorem spec_checkedPath {J : Staging → Prop} (hJ : Stable i J) (Y : ImportId) :
    Spec i J (checkedPath Y) (fun _ w => J w) := by
  unfold checkedPath
  split
  · exact spec_ret hJ (fun _ h => h)
  · exact spec_raise hJ (fun _ h => h)

theorem spec_checkMerged {J : Staging → Prop} (hJ : Stable i J) (H : Host) (r : Record)
    (mode : ApplyMode) (choices : Dict String Side) :
    Spec i J (checkMerged H r mode choices) (fun _ w => J w) := by
  unfold checkMerged
  split
  · refine Spec.bind (spec_lift hJ _) (fun names => ?_) (fun _ => hJ) (fun _ _ h => h)
    refine spec_look_bind (e := .mergeable r mode (semanticResolutions r choices) names) hJ rfl ?_
    intro refusal
    cases (refusal : Option String) with
    | none => exact spec_ret hJ (fun _ h => h)
    | some text => exact spec_raise hJ (fun _ h => h)
  · exact spec_ret hJ (fun _ h => h)

/-- An operation under the marker of `X`: what it does when it gets it, and otherwise. -/
theorem spec_claiming {f : Created → Call β} {K : Except ImportError β → Staging → Prop}
    (hgot : Spec i (fun w => Inv w ∧ Mine i X w) (f .created) K)
    (hnot : ∀ a, a ≠ .created → Spec i Inv (f a) K) :
    Spec i Inv ((perform (.createExclusive X)).bind f) K := by
  refine spec_perform_bind (e := .createExclusive X)
    (M := fun (a : Created) w => Inv w ∧ (a = .created → Mine i X w)) stable_inv
    (fun _ => stable_inv.and (stable_imp stable_mine)) ?_ ?_
  · intro w hw
    refine ⟨trivial, fun c => ⟨inv_exec (e := .createExclusive X) hw trivial c, ?_⟩⟩
    simp only [exec]
    split
    · exact fun h => by cases h
    · exact fun _ => Or.inl ⟨c.time, by simp⟩
    · exact fun h => by cases h
    · exact fun h => by cases h
  · intro (a : Created)
    by_cases ha : a = .created
    · subst ha
      exact hgot.mono (fun w h => ⟨h.1, h.2 rfl⟩) (fun _ _ h => h)
    · exact (hnot a ha).mono (fun w h => h.1) (fun _ _ h => h)

/-- `i` holds the marker of an import that can be prepared and has no claim. -/
structure Free (i : Pid) (X : ImportId) (w : Staging) : Prop where
  inv : Inv w
  locked : Locked i X w
  none : standing w.log X = none

theorem stable_free : Stable i (Free i X) := by
  intro w w' h hr
  refine ⟨hr.inv h.inv, h.locked.rely hr, ?_⟩
  cases hst : standing w'.log X with
  | none => rfl
  | some t => exact absurd (hr.standing X (Or.inl h.locked.1) t hst) (by simp [h.none])

/-- A record read under the marker that has no claim: none stands. -/
theorem Holding.free {r : Record} {w : Staging} (h : Holding i X r w) (hlock : Locked i X w)
    (ha : r.apply = none) : Free i X w := by
  refine ⟨h.inv, hlock, ?_⟩
  cases hst : standing w.log X with
  | none => rfl
  | some t =>
      obtain ⟨a, hr, _⟩ := h.knows t hst
      rw [ha] at hr
      cases hr

/-- Storing the accepted claim: the marker is held and nothing stands. -/
theorem spec_storeAccepted {r : Record} {a : Apply} (ha : r.apply = some a)
    (hc : a.claimed = true) :
    Spec i (Free i X) (storeRecord X r)
      (fun res w => (Inv w ∧ Mine i X w) ∧ (res = .ok () → Prepared X w)) := by
  have hpost : ∀ P : Prop, Stable i (fun w => (Inv w ∧ Mine i X w) ∧ (P → Prepared X w)) := by
    intro P w w' h hr
    exact ⟨stable_claimed w w' h.1 hr,
      fun hp => (stable_prepared w w' ⟨h.1.1, h.2 hp⟩ hr).2⟩
  refine spec_perform_bind (e := .storeJson X r)
    (M := fun (done : Done) w => (Inv w ∧ Mine i X w) ∧ (done = true → Prepared X w)) stable_free
    (fun _ => hpost _) ?_ ?_
  · intro w hw
    have hmine : Mine i X w := Or.inl hw.locked.1
    have hp : Permit i (.storeJson X r) w := by
      intro a' ha'
      rw [ha] at ha'
      cases ha'
      exact ⟨hw.locked, hw.none, hc⟩
    refine ⟨hp, fun c => ?_⟩
    have hinv := inv_exec hw.inv hp c
    revert hinv
    simp only [exec]
    split
    · intro hinv
      refine ⟨⟨hinv, hmine⟩, fun _ => ⟨a.claimedAt, ?_⟩⟩
      simp [Staging.store, Staging.note, ha]
    · exact fun hinv => ⟨⟨hinv, hmine⟩, fun h => by cases h⟩
  · intro done
    cases (done : Done) with
    | true => exact spec_ret (hpost _) (fun w h => ⟨h.1, fun _ => h.2 rfl⟩)
    | false => exact spec_raise (hpost _) (fun w h => ⟨h.1, fun hr => by cases hr⟩)

theorem spec_prepareClaimed {H : Host} {body : Json} :
    Spec i (fun w => Inv w ∧ Mine i X w) (prepareClaimed H X body)
      (fun res w => match res with
        | .ok _ => Inv w ∧ Prepared X w
        | .error _ => Inv w ∧ Mine i X w) := by
  have herr : ∀ w, Free i X w → Inv w ∧ Mine i X w := fun w h => ⟨h.inv, Or.inl h.locked.1⟩
  unfold prepareClaimed
  refine Spec.bind spec_record ?_ (fun _ => stable_claimed) (fun _ _ h => h)
  intro r
  cases ha : r.apply with
  | some a =>
      exact spec_raise (stable_holding.and (fun _ _ h hr => h.rely hr))
        (fun w h => ⟨h.1.inv, h.1.mine⟩)
  | none =>
      refine Spec.mono (J := Free i X) ?_ (fun w h => h.1.free h.2 ha) (fun _ _ h => h)
      refine Spec.bind (spec_lift stable_free _) ?_ (fun _ => stable_claimed) (fun _ => herr)
      intro (mode, choices)
      refine Spec.bind (spec_checkMerged stable_free H r mode choices) ?_ (fun _ => stable_claimed)
        (fun _ => herr)
      intro _
      refine spec_look_bind (e := .clock) stable_free rfl ?_
      intro now
      refine Spec.bind (spec_storeAccepted rfl rfl) ?_ (fun _ => stable_claimed) (fun _ _ h => h.1)
      intro _
      exact (spec_ret stable_prepared (fun w h => h)).mono (fun w h => ⟨h.1.1, h.2 rfl⟩)
        (fun _ _ h => h)

/-- **`prepare_apply`**: on success the import was prepared. -/
theorem spec_prepareApply {H : Host} {body : Json} :
    Spec i Inv (prepareApply H X body)
      (fun res w => Inv w ∧ ∀ a, res = .ok a → Prepared X w) := by
  have hpost : ∀ r : Except ImportError (ImportId × Kind × ApplyMode),
      Stable i (fun w => Inv w ∧ ∀ a, r = .ok a → Prepared X w) :=
    fun r w w' h hr => ⟨hr.inv h.1, fun a hp => (stable_prepared w w' ⟨h.1, h.2 a hp⟩ hr).2⟩
  have hraise : ∀ e : ImportError, ∀ w, Inv w → Inv w ∧ ∀ a,
      (Except.error e : Except ImportError (ImportId × Kind × ApplyMode)) = .ok a → Prepared X w :=
    fun e w h => ⟨h, fun a hr => by cases hr⟩
  refine Spec.bind (spec_checkedPath stable_inv X) ?_ (fun _ => hpost _) hraise
  intro _
  refine spec_claiming ?_ ?_
  · refine Spec.tryCatch spec_prepareClaimed (fun _ => hpost _) (fun a w h => ⟨h.1, fun _ _ => h.2⟩) ?_
    intro e
    refine Spec.bind ((spec_unclaim (P := False)).mono
      (fun w h => ⟨h.1, h.2, fun hf => hf.elim⟩) (fun _ _ h => h.1)) ?_ (fun _ => hpost _) hraise
    intro _
    exact spec_raise stable_inv (hraise e)
  · intro a ha
    cases a with
    | created => exact absurd rfl ha
    | existed => exact spec_raise stable_inv (hraise _)
    | failed => exact spec_raise stable_inv (hraise _)

/-! ### Releasing, discarding, cancelling -/

/-- A record read without marker: nothing is known of it. -/
theorem spec_record_stale {H : Host} : Spec i Inv (record H X false) (fun _ w => Inv w) := by
  refine Spec.bind (spec_checkedPath stable_inv X) ?_ (fun _ => stable_inv) (fun _ _ h => h)
  intro _
  refine spec_look_bind (e := .readJson X) stable_inv rfl ?_
  intro found
  cases (found : Option Record) with
  | none => exact spec_raise stable_inv (fun _ h => h)
  | some r =>
      show Spec i _ (if r.id ≠ X then _ else _) _
      split
      · exact spec_raise stable_inv (fun _ h => h)
      · refine Spec.bind (M := fun _ => Inv) (spec_ret stable_inv (fun _ h => h)) ?_
          (fun _ => stable_inv) (fun _ _ h => h)
        intro _
        refine Spec.bind (M := fun _ => Inv) ?_ (fun _ => spec_ret stable_inv (fun _ h => h))
          (fun _ => stable_inv) (fun _ _ h => h)
        refine spec_look_bind (e := .readUpload X) stable_inv rfl ?_
        intro raw
        cases (raw : Option Bytes) with
        | none => exact spec_raise stable_inv (fun _ h => h)
        | some raw =>
            show Spec i _ (if raw = [] ∨ uploadLimit r.kind < raw.length then _
              else if _ then _ else _) _
            split
            · exact spec_raise stable_inv (fun _ h => h)
            · split
              · exact spec_raise stable_inv (fun _ h => h)
              · exact spec_ret stable_inv (fun _ h => h)

/-- Whoever takes no marker may remove what it likes. -/
theorem Inv.ready {why : Why} {w : Staging} (h : Inv w) (hwhy : why.locked = false) :
    Ready i why X w := by
  refine ⟨h, fun hl => ?_, ?_⟩
  · rw [hwhy] at hl
    cases hl
  · cases why with
    | cancel | expired now | collect now | own => cases hwhy
    | release | discard => trivial

/-- **`release_claim`.** -/
theorem spec_releaseClaim {H : Host} : Spec i Inv (releaseClaim H X) (fun _ w => Inv w) := by
  refine Spec.bind spec_record_stale ?_ (fun _ => stable_inv) (fun _ _ h => h)
  intro r
  refine Spec.bind (M := fun _ => Inv) ?_ ?_ (fun _ => stable_inv) (fun _ _ h => h)
  · refine spec_perform_bind (e := .storeJson X { r with apply := none }) (M := fun _ => Inv)
      stable_inv (fun _ => stable_inv) ?_ ?_
    · intro w hw
      have hp : Permit i (.storeJson X { r with apply := none }) w := fun a ha => by cases ha
      exact ⟨hp, inv_exec hw hp⟩
    · intro done
      cases (done : Done) with
      | true => exact spec_ret stable_inv (fun _ h => h)
      | false => exact spec_raise stable_inv (fun _ h => h)
  · intro _
    refine spec_look_bind (e := .lstat X .claim) stable_inv rfl ?_
    intro found
    cases (found : Option Rat) with
    | none => exact spec_ret stable_inv (fun _ h => h)
    | some time =>
        refine spec_perform_bind (e := .unlink .release X .claim) (M := fun _ => Inv)
          stable_inv (fun _ => stable_inv) ?_ ?_
        · intro w hw
          have hp : Permit i (.unlink .release X .claim) w := ⟨fun hl => Bool.noConfusion hl, trivial⟩
          exact ⟨hp, inv_exec hw hp⟩
        · intro done
          cases (done : Done) with
          | true => exact spec_ret stable_inv (fun _ h => h)
          | false => exact spec_raise stable_inv (fun _ h => h)

/-- **`discard`**: on success the upload is gone. -/
theorem spec_discard :
    Spec i Inv (discard X) (fun res w => Inv w ∧ (res = .ok () → w.upload X = none)) := by
  have hpost : ∀ P : Prop, Stable i (fun w => Inv w ∧ (P → w.upload X = none)) :=
    fun P => stable_inv.and (stable_imp stable_gone)
  refine Spec.bind (spec_checkedPath stable_inv X) ?_ (fun _ => hpost _)
    (fun e w h => ⟨h, fun hr => by cases hr⟩)
  intro _
  exact spec_discardFiles.mono (fun w h => h.ready rfl) (fun r w h => ⟨h.1.inv, h.2⟩)

/-- The marker goes in the end, and what the success says about the upload stays. -/
theorem Spec.finallyUnclaim {m : Call Unit} {P : Prop}
    (h : Spec i (fun w => Inv w ∧ Mine i X w) m
      (fun r w => (Inv w ∧ Mine i X w) ∧ (P ∧ r = .ok () → w.upload X = none))) :
    Spec i (fun w => Inv w ∧ Mine i X w) (finallyUnclaim X m)
      (fun r w => Inv w ∧ (P ∧ r = .ok () → w.upload X = none)) := by
  have hpost : ∀ P' : Prop, Stable i (fun w => Inv w ∧ (P' → w.upload X = none)) :=
    fun P' => stable_inv.and (stable_imp stable_gone)
  refine Spec.outcome h (fun r => ?_)
  refine Spec.bind ((spec_unclaim (P := P ∧ r = .ok ())).mono (fun w h => ⟨h.1.1, h.1.2, h.2⟩)
    (fun _ _ h => h)) ?_ (fun _ => hpost _) (fun e w h => ⟨h.1, fun hc => by cases hc.2⟩)
  intro _
  cases r with
  | ok u => exact spec_ret (hpost _) (fun w h => h)
  | error e => exact spec_raise (hpost _) (fun w h => h)

/-- **`cancel`**: on success the upload is gone. -/
theorem spec_cancel {H : Host} :
    Spec i Inv (cancel H X) (fun res w => Inv w ∧ (res = .ok () → w.upload X = none)) := by
  have hpost : ∀ P : Prop, Stable i (fun w => Inv w ∧ (P → w.upload X = none)) :=
    fun P => stable_inv.and (stable_imp stable_gone)
  have hraise : ∀ e : ImportError, ∀ w, Inv w →
      Inv w ∧ ((Except.error e : Except ImportError Unit) = .ok () → w.upload X = none) :=
    fun e w h => ⟨h, fun hr => by cases hr⟩
  have hstable : ∀ P : Prop,
      Stable i (fun w => (Inv w ∧ Mine i X w) ∧ (P → w.upload X = none)) :=
    fun P => stable_claimed.and (stable_imp stable_gone)
  refine Spec.bind (spec_checkedPath stable_inv X) ?_ (fun _ => hpost _) hraise
  intro _
  refine spec_claiming ?_ ?_
  · refine (Spec.finallyUnclaim (P := True) ?_).mono (fun _ h => h)
      (fun r w h => ⟨h.1, fun hr => h.2 ⟨trivial, hr⟩⟩)
    refine Spec.bind spec_record ?_ (fun _ => hstable _) (fun e w h => ⟨h, fun hc => by cases hc.2⟩)
    intro r
    cases ha : r.apply with
    | some a =>
        exact spec_raise (stable_holding.and (fun _ _ h hr => h.rely hr))
          (fun w h => ⟨⟨h.1.inv, h.1.mine⟩, fun hc => by cases hc.2⟩)
    | none =>
        refine (@spec_discardFiles _ _ .cancel).mono (fun w h => ?_)
          (fun r w h => ⟨⟨h.1.inv, h.1.mine rfl⟩, fun hc => h.2 hc.2⟩)
        exact ⟨h.1.inv, fun _ => h.1.mine, fun _ => (h.1.free h.2 ha).none⟩
  · intro a ha
    cases a with
    | created => exact absurd rfl ha
    | existed => exact spec_raise stable_inv (hraise _)
    | failed => exact spec_raise stable_inv (hraise _)

/-! ### The janitor -/

/-- A record that does not protect: no claim stands, or it is two hours old. -/
theorem follows_collect {now : Rat} {found : Option Record} {w : Staging} (h : Inv w)
    (hf : w.record? X = found) (hp : protectedAt now found = false) :
    Follows w.log (.removed (.collect now) X .json) := by
  intro _ t ht
  obtain ⟨r, a, hr, ha, hc, hat⟩ := h.record X t ht
  rw [hr] at hf
  subst hf
  simp only [protectedAt, Option.bind_some, ha, hc, Bool.true_and, decide_eq_false_iff_not] at hp
  rw [← hat]
  exact Rat.not_lt.mp hp

theorem spec_collect {now : Rat} :
    Spec i (fun w => Inv w ∧ Mine i X w) (collect now X) (fun _ w => Inv w) := by
  refine (Spec.finallyUnclaim (P := False) ?_).mono (fun _ h => h) (fun r w h => h.1)
  have hraise : ∀ (r : Except ImportError Unit) (w : Staging), Inv w ∧ Mine i X w →
      (Inv w ∧ Mine i X w) ∧ (False ∧ r = .ok () → w.upload X = none) :=
    fun r w h => ⟨h, fun hc => hc.1.elim⟩
  have hpost : ∀ P : Prop, Stable i (fun w => (Inv w ∧ Mine i X w) ∧ (P → w.upload X = none)) :=
    fun P => stable_claimed.and (stable_imp stable_gone)
  refine spec_perform_bind (e := .readJson X)
    (M := fun (found : Option Record) w => (Inv w ∧ Mine i X w) ∧
      (protectedAt now found = false → Ready i (.collect now) X w)) stable_claimed
    (fun _ => stable_claimed.and (stable_imp stable_ready)) ?_ ?_
  · intro w hw
    refine ⟨trivial, fun c => ⟨hw, fun hp => ?_⟩⟩
    exact ⟨hw.1, fun _ => hw.2, follows_collect hw.1 rfl hp⟩
  intro found
  cases hp : protectedAt now (found : Option Record) with
  | true =>
      rw [if_pos rfl]
      exact (spec_ret stable_claimed (hraise _)).mono (fun w h => h.1) (fun _ _ h => h)
  | false =>
      rw [if_neg (by simp)]
      refine Spec.mono (J := Ready i (.collect now) X) ?_ (fun w h => h.2 rfl) (fun _ _ h => h)
      refine Spec.bind (spec_safeUnlink.mono (fun w h => ⟨h, fun hs => by cases hs⟩)
        (fun r w h => h.1)) ?_ (fun _ => hpost _) (fun e w h => hraise _ w ⟨h.inv, h.mine rfl⟩)
      intro _
      exact spec_safeUnlink.mono (fun w h => ⟨h, fun hs => by cases hs⟩)
        (fun r w h => hraise _ w ⟨h.1.inv, h.1.mine rfl⟩)

theorem spec_newestOf (ss : List Suffix) (times : List Rat) :
    Spec i Inv (newestOf X ss times) (fun _ w => Inv w) := by
  induction ss generalizing times with
  | nil => exact spec_ret stable_inv (fun _ h => h)
  | cons s rest ih =>
      refine spec_look_bind (e := .lexists X s) stable_inv rfl ?_
      intro found
      cases (found : Bool) with
      | false => exact ih times
      | true =>
          refine spec_look_bind (e := .lstat X s) stable_inv rfl ?_
          intro time
          cases (time : Option Rat) with
          | none => exact spec_ret stable_inv (fun _ h => h)
          | some t => exact ih (times ++ [t])

theorem spec_unlinkStale {J : Staging → Prop} (hJ : Stable i J) :
    Spec i J unlinkStale (fun _ w => J w) := by
  refine spec_look_bind (e := .unlinkStale) hJ rfl ?_
  intro done
  cases (done : Done) with
  | true => exact spec_ret hJ (fun _ h => h)
  | false => exact spec_raise hJ (fun _ h => h)

theorem spec_takeOver {now : Rat} : Spec i Inv (takeOver now X) (fun _ w => Inv w) := by
  refine spec_look_bind (e := .lstat X .claim) stable_inv rfl ?_
  intro info
  cases (info : Option Rat) with
  | none => exact spec_ret stable_inv (fun _ h => h)
  | some mtime =>
      show Spec i _ (if now - mtime < claimProtectionTtl then _ else _) _
      split
      · exact spec_ret stable_inv (fun _ h => h)
      refine spec_perform_bind (e := .takeOver X) (M := fun _ => Inv) stable_inv
        (fun _ => stable_inv) (fun w hw => ⟨trivial, inv_exec hw trivial⟩) ?_
      intro moved
      cases (moved : Done) with
      | false => exact spec_unlinkStale stable_inv
      | true =>
          refine spec_claiming ?_ ?_
          · refine Spec.bind (spec_unlinkStale stable_claimed) (fun _ => spec_collect)
              (fun _ => stable_inv) (fun _ _ h => h.1)
          · intro a ha
            refine Spec.bind (spec_unlinkStale stable_inv) ?_ (fun _ => stable_inv) (fun _ _ h => h)
            intro _
            cases a with
            | created => exact absurd rfl ha
            | existed | failed => exact spec_ret stable_inv (fun _ h => h)

theorem spec_gcOne {now : Rat} : Spec i Inv (gcOne now X) (fun _ w => Inv w) := by
  unfold gcOne
  split
  · exact spec_ret stable_inv (fun _ h => h)
  refine Spec.bind (spec_newestOf _ _) ?_ (fun _ => stable_inv) (fun _ _ h => h)
  intro newest
  split
  · exact spec_ret stable_inv (fun _ h => h)
  refine spec_claiming spec_collect ?_
  intro a ha
  cases a with
  | created => exact absurd rfl ha
  | existed => exact spec_takeOver
  | failed => exact spec_raise stable_inv (fun _ h => h)

/-- **`_gc`.** -/
theorem spec_gc : Spec i Inv gc (fun _ w => Inv w) := by
  refine spec_look_bind (e := .clock) stable_inv rfl ?_
  intro now
  refine spec_look_bind (e := .listdir) stable_inv rfl ?_
  intro names
  generalize ((names : List String).filterMap stagedId?).dedup = ids
  induction ids with
  | nil => exact spec_ret stable_inv (fun _ h => h)
  | cons X ids ih =>
      exact Spec.bind spec_gcOne (fun _ => ih) (fun _ => stable_inv) (fun _ _ h => h)

end Specs

end ProxyGateway.WebImport
