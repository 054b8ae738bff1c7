import Mathlib.Data.List.MinMax
import ProxyGateway.Lib.Champion
import ProxyGateway.Release.Precedence

set_option autoImplicit false

/-!
# ProxyGateway.Release.Newest

`pdg_origin_release_select` without a requested tag. Its loop is a search for the highest that stops
at a tie with the best so far (`selectFrom_eq`): a tie below the highest stops it as well, if it comes
first.
-/

namespace ProxyGateway.Release

open Champion

/-! ### What is said of the tags -/

/-- The tag of `v` has strictly the highest precedence. -/
def StrictlyHighest (tags : List (List Char)) (v : Version) : Prop :=
  v.text ∈ tags ∧ ∀ u : Version, u.text ∈ tags → u.text ≠ v.text → u.precedence < v.precedence

/-- Two tags share the highest precedence. -/
def SharedHighest (tags : List (List Char)) : Prop := ∃ u v : Version,
  u.text ∈ tags ∧ v.text ∈ tags ∧ u.text ≠ v.text ∧ u.precedence = v.precedence ∧
  ∀ w : Version, w.text ∈ tags → w.precedence ≤ v.precedence

/-- A valid tag has the precedence of the highest of the valid tags in front of it. -/
def TiesOnTheWay (tags : List (List Char)) : Prop := ∃ front, ∃ v : Version, ∃ back, tags = front ++ v.text :: back ∧
  (∃ u : Version, u.text ∈ front ∧ u.precedence = v.precedence) ∧
  ∀ w : Version, w.text ∈ front → w.precedence ≤ v.precedence

/-- The commands succeed, and the tags are on `origin/main`. -/
structure Succeeds (git : Git) (tags : List (List Char)) : Prop where
  refresh : originReleaseRefresh git = .ok ()
  refs : git.forEachRef = tags.map (tagRefs ++ ·)
  distinct : tags.Nodup
  resolves : ∀ tag ∈ tags, (git.revParse (tagRefs ++ tag)).isSome = true
  onMain : ∀ tag ∈ tags, ∃ commit, git.revParse (peeled (tagRefs ++ tag)) = some commit ∧ git.isAncestor commit = true

/-- The strictly highest is chosen, and nothing else makes the choice fail but that there is none. -/
def PicksNewest (git : Git) (tags : List (List Char)) : Prop :=
  (∀ v, StrictlyHighest tags v → ∃ commit object, originReleaseSelect git [] = .ok ⟨v.text, commit, object⟩) ∧
  ∀ e, originReleaseSelect git [] = .error e → (∀ v : Version, v.text ∉ tags) ∨ SharedHighest tags

variable {git : Git} {tags : List (List Char)} {vs : List Version} {v u : Version}

/-! ### Tags and versions -/

/-- The precedence of a tag. -/
theorem precedence_congr (h : v.text = u.text) : v.precedence = u.precedence := by
  have hsame := semverCmp_text v u
  rw [h, semverCmp_text, compare_eq_iff_eq.mpr rfl] at hsame
  exact compare_eq_iff_eq.mp (Option.some.inj hsame).symm

/-- The valid tags are texts of versions. -/
theorem exists_versions (tags : List (List Char)) :
    ∃ vs : List Version, vs.map Version.text = tags.filter releaseSemverValid := by
  induction tags with
  | nil => exact ⟨[], rfl⟩
  | cons tag tags ih =>
      obtain ⟨vs, hvs⟩ := ih
      by_cases hvalid : releaseSemverValid tag = true
      · obtain ⟨v, rfl⟩ := exists_version hvalid
        exact ⟨v :: vs, by rw [List.map_cons, hvs, List.filter_cons_of_pos hvalid]⟩
      · exact ⟨vs, by rw [hvs, List.filter_cons_of_neg hvalid]⟩

theorem valid_text (v : Version) : releaseSemverValid v.text = true := valid_iff.mpr ⟨v, rfl⟩

theorem mem_versions (hvs : vs.map Version.text = tags.filter releaseSemverValid) :
    v.text ∈ tags ↔ ∃ u ∈ vs, u.text = v.text := by
  rw [← List.mem_map, hvs, List.mem_filter]
  exact (and_iff_left (valid_text v)).symm

/-- The highest version is the strictly highest tag. -/
theorem strictlyHighest_of_leads (hvs : vs.map Version.text = tags.filter releaseSemverValid)
    (h : Leads Version.precedence vs v) : StrictlyHighest tags v := by
  refine ⟨(mem_versions hvs).mpr ⟨v, h.1, rfl⟩, fun u hu hne => ?_⟩
  obtain ⟨w, hw, heq⟩ := (mem_versions hvs).mp hu
  rw [← precedence_congr heq]
  rcases h.2 w hw with rfl | hlt
  · exact absurd heq.symm hne
  · exact hlt

theorem strictlyHighest_unique (hv : StrictlyHighest tags v) (hu : StrictlyHighest tags u) : u.text = v.text := by
  by_contra hne
  exact lt_asymm (hv.2 u hu.1 hne) (hu.2 v hv.1 (Ne.symm hne))

/-- Ties of tags are ties of versions. -/
theorem tied_iff (hvs : vs.map Version.text = tags.filter releaseSemverValid) :
    Tied Version.precedence [] vs ↔ TiesOnTheWay tags := by
  constructor
  · rintro ⟨front, x, back, rfl, ⟨y, hy, heq⟩, hle⟩
    rw [List.map_append, List.map_cons] at hvs
    obtain ⟨front', rest, rfl, hfront, hrest⟩ := List.filter_eq_append_iff.mp hvs.symm
    obtain ⟨skipped, back', rfl, hskipped, -, -⟩ := List.filter_eq_cons_iff.mp hrest
    have hfront' : front.map Version.text = (front' ++ skipped).filter releaseSemverValid := by
      rw [List.filter_append, hfront, List.filter_eq_nil_iff.mpr hskipped, List.append_nil]
    refine ⟨front' ++ skipped, x, back', by rw [List.append_assoc], ⟨y, ?_, heq⟩, fun w hw => ?_⟩
    · exact (mem_versions hfront').mpr ⟨y, hy, rfl⟩
    · obtain ⟨z, hz, htext⟩ := (mem_versions hfront').mp hw
      rw [← precedence_congr htext]
      exact hle z hz
  · rintro ⟨front, x, back, rfl, ⟨y, hy, heq⟩, hle⟩
    rw [List.filter_append, List.filter_cons_of_pos (valid_text x)] at hvs
    obtain ⟨front', rest, rfl, hfront, hrest⟩ := List.map_eq_append_iff.mp hvs
    obtain ⟨x', back', rfl, hx, -⟩ := List.map_eq_cons_iff.mp hrest
    refine ⟨front', x', back', rfl, ?_, fun z hz => ?_⟩
    · obtain ⟨z, hz, htext⟩ := (mem_versions hfront).mp hy
      exact ⟨z, hz, by rw [precedence_congr htext, heq, precedence_congr hx]⟩
    · rw [precedence_congr hx]
      exact hle z ((mem_versions hfront).mpr ⟨z, hz, rfl⟩)

/-- Without a strictly highest tag, the highest precedence is shared. -/
theorem sharedHighest_of_none (hsome : v.text ∈ tags) (hnone : ∀ v, ¬ StrictlyHighest tags v) : SharedHighest tags := by
  obtain ⟨vs, hvs⟩ := exists_versions tags
  obtain ⟨v', hv', -⟩ := (mem_versions hvs).mp hsome
  obtain ⟨top, htop⟩ : ∃ top, top ∈ vs.argmax Version.precedence := by
    cases hmax : vs.argmax Version.precedence with
    | none => exact absurd (List.argmax_eq_none.mp hmax ▸ hv') List.not_mem_nil
    | some top => exact ⟨top, rfl⟩
  have hin : top.text ∈ tags := (mem_versions hvs).mpr ⟨top, List.argmax_mem htop, rfl⟩
  have hle : ∀ w : Version, w.text ∈ tags → w.precedence ≤ top.precedence := by
    intro w hw
    obtain ⟨z, hz, htext⟩ := (mem_versions hvs).mp hw
    rw [← precedence_congr htext]
    exact List.le_of_mem_argmax hz htop
  have hother := hnone top
  rw [StrictlyHighest, not_and] at hother
  push Not at hother
  obtain ⟨u, hu, hne, hge⟩ := hother hin
  exact ⟨u, top, hu, hin, hne, le_antisymm (hle u hu) hge, hle⟩

/-! ### The loop -/

theorem tagOf_append (tag : List Char) : tagOf (tagRefs ++ tag) = tag := by
  have hprefixed : tagRefs.isPrefixOf (tagRefs ++ tag) = true := List.isPrefixOf_iff_prefix.mpr (List.prefix_append _ _)
  rw [tagOf, if_pos hprefixed, List.drop_left]

/-- What the loop makes of the search over the versions. -/
def Agrees (tags : List (List Char)) (best : Option Version) : Except (Version × Version) (Option Version) → Prop
  | .ok b => selectFrom (tags.map (tagRefs ++ ·)) ((best.map Version.text).getD []) = .ok ((b.map Version.text).getD [])
  | .error _ => ∃ e, selectFrom (tags.map (tagRefs ++ ·)) ((best.map Version.text).getD []) = .error e

/-- The first valid tag. -/
theorem selectFrom_first (x : Version) (tags : List (List Char)) :
    selectFrom ((x.text :: tags).map (tagRefs ++ ·)) [] = selectFrom (tags.map (tagRefs ++ ·)) x.text := by
  simp [selectFrom, tagOf_append, valid_text]

/-- A valid tag, when there is a best so far. -/
theorem selectFrom_next (x b : Version) (tags : List (List Char)) (hne : b.text ≠ x.text) :
    match compare x.precedence b.precedence with
    | .gt => selectFrom ((x.text :: tags).map (tagRefs ++ ·)) b.text = selectFrom (tags.map (tagRefs ++ ·)) x.text
    | .eq => ∃ e, selectFrom ((x.text :: tags).map (tagRefs ++ ·)) b.text = .error e
    | .lt => selectFrom ((x.text :: tags).map (tagRefs ++ ·)) b.text = selectFrom (tags.map (tagRefs ++ ·)) b.text := by
  have hsome : b.text ≠ [] := List.cons_ne_nil _ _
  cases hcmp : compare x.precedence b.precedence with
  | lt => simp [selectFrom, tagOf_append, valid_text, hsome, semverCmp_text, hcmp]
  | gt => simp [selectFrom, tagOf_append, valid_text, hsome, semverCmp_text, hcmp]
  | eq => simp [selectFrom, tagOf_append, valid_text, hsome, semverCmp_text, hcmp, Ne.symm hne]

/-- The loop is the search for the highest. -/
theorem selectFrom_agrees (hvs : vs.map Version.text = tags.filter releaseSemverValid) (hdistinct : tags.Nodup)
    (best : Option Version) (hnew : ∀ b ∈ best, b.text ∉ tags) : Agrees tags best (search Version.precedence vs best) := by
  induction tags generalizing vs best with
  | nil =>
      rw [List.filter_nil, List.map_eq_nil_iff] at hvs
      rw [hvs]
      exact rfl
  | cons tag tags ih =>
      obtain ⟨hfresh, hrest⟩ := List.nodup_cons.mp hdistinct
      have hbest : ∀ b ∈ best, b.text ≠ tag ∧ b.text ∉ tags := fun b hb => by
        simpa only [List.mem_cons, not_or] using hnew b hb
      by_cases hvalid : releaseSemverValid tag = true
      · obtain ⟨x, rfl⟩ := exists_version hvalid
        rw [List.filter_cons_of_pos hvalid] at hvs
        obtain ⟨x', vs, rfl, hx, hvs⟩ := List.map_eq_cons_iff.mp hvs
        have htaken := ih hvs hrest (some x') (fun b hb => by rw [← Option.mem_some_iff.mp hb, hx]; exact hfresh)
        have htext : ((some x').map Version.text).getD [] = x.text := hx
        unfold Agrees at htaken ⊢
        rw [htext] at htaken
        cases best with
        | none => simpa only [search, Option.map_none, Option.getD_none, selectFrom_first] using htaken
        | some b =>
            obtain ⟨hne, hlater⟩ := hbest b rfl
            have hnext := selectFrom_next x b tags hne
            have hkept := ih hvs hrest (some b) fun c hc => by rwa [← Option.mem_some_iff.mp hc]
            unfold Agrees at hkept
            rw [search, precedence_congr hx]
            simp only [Option.map_some, Option.getD_some] at hkept ⊢
            -- the best so far stays, gives way, or the tie ends the selection
            cases hcmp : compare x.precedence b.precedence with
            | lt =>
                rw [hcmp] at hnext
                simpa only [hnext] using hkept
            | gt =>
                rw [hcmp] at hnext
                simpa only [hnext] using htaken
            | eq =>
                rw [hcmp] at hnext
                exact hnext
      · rw [List.filter_cons_of_neg hvalid] at hvs
        have hskip : ∀ text, selectFrom ((tag :: tags).map (tagRefs ++ ·)) text = selectFrom (tags.map (tagRefs ++ ·)) text := by
          intro text
          simp [selectFrom, tagOf_append, hvalid]
        have hsame := ih hvs hrest best fun b hb => (hbest b hb).2
        unfold Agrees at hsame ⊢
        simpa only [hskip] using hsame

/-! ### The choice -/

theorem select_error (h : Succeeds git tags) {e : String} (herror : selectFrom (tags.map (tagRefs ++ ·)) [] = .error e) :
    originReleaseSelect git [] = .error e := by
  unfold originReleaseSelect
  rw [h.refresh, h.refs, herror]
  rfl

theorem select_none (h : Succeeds git tags) (hnone : selectFrom (tags.map (tagRefs ++ ·)) [] = .ok []) :
    originReleaseSelect git [] = .error "origin 没有有效的 v* SemVer release tag" := by
  unfold originReleaseSelect
  rw [h.refresh, h.refs, hnone]
  rfl

theorem select_best (h : Succeeds git tags) (hin : v.text ∈ tags)
    (hbest : selectFrom (tags.map (tagRefs ++ ·)) [] = .ok v.text) :
    ∃ commit object, originReleaseSelect git [] = .ok ⟨v.text, commit, object⟩ := by
  obtain ⟨object, hobject⟩ := Option.isSome_iff_exists.mp (h.resolves _ hin)
  obtain ⟨commit, hcommit, hmain⟩ := h.onMain _ hin
  have hsome : v.text ≠ [] := List.cons_ne_nil _ _
  refine ⟨commit, object, ?_⟩
  unfold originReleaseSelect
  rw [h.refresh, h.refs, hbest]
  simp [bind, Except.bind, pure, Except.pure, hsome, hobject, hcommit, hmain]

/-- The search from the start, and what the loop makes of it. -/
theorem choice_cases (h : Succeeds git tags) : (∀ v : Version, v.text ∉ tags) ∨
    (∃ v, StrictlyHighest tags v ∧ ¬ TiesOnTheWay tags ∧
      ∃ commit object, originReleaseSelect git [] = .ok ⟨v.text, commit, object⟩) ∨
    (TiesOnTheWay tags ∧ ∃ e, originReleaseSelect git [] = .error e) := by
  obtain ⟨vs, hvs⟩ := exists_versions tags
  have hagrees := selectFrom_agrees hvs h.distinct none fun b hb => nomatch hb
  cases vs with
  | nil => exact .inl fun v hv => by simpa using (mem_versions hvs).mp hv
  | cons x xs =>
      rw [← tied_iff hvs]
      rcases search_start Version.precedence x xs with ⟨b, hsearch, hleads, hties⟩ | ⟨e, hsearch, hties⟩
      · rw [hsearch] at hagrees
        have hhighest := strictlyHighest_of_leads hvs hleads
        exact .inr (.inl ⟨b, hhighest, hties, select_best h hhighest.1 hagrees⟩)
      · rw [hsearch] at hagrees
        obtain ⟨e, herror⟩ := hagrees
        exact .inr (.inr ⟨hties, e, select_error h herror⟩)

/-- A tie on the way hides the strictly highest. -/
theorem not_picksNewest (h : Succeeds git tags) (hv : StrictlyHighest tags v) (hties : TiesOnTheWay tags) :
    ¬ PicksNewest git tags := by
  intro hpicks
  obtain ⟨commit, object, hok⟩ := hpicks.1 v hv
  rcases choice_cases h with hnone | ⟨-, -, hnot, -⟩ | ⟨-, e, herror⟩
  · exact hnone v hv.1
  · exact hnot hties
  · rw [hok] at herror
    cases herror

/-! ### Tags of an origin -/

/-- An origin where every command succeeds. -/
def originOf (tags : List (List Char)) : Git where
  repo := "/opt/proxy-gateway"
  isDirectory := true
  remoteGetUrl := true
  fetch := true
  isShallow := some "false"
  unshallow := true
  verifyMain := true
  forEachRef := tags.map (tagRefs ++ ·)
  showRef := fun _ => true
  revParse := fun ref => some (String.ofList ref)
  isAncestor := fun _ => true

theorem originOf_succeeds (hdistinct : tags.Nodup) : Succeeds (originOf tags) tags :=
  ⟨rfl, rfl, hdistinct, fun _ _ => rfl, fun _ _ => ⟨_, rfl, rfl⟩⟩

/-- `0`, `1` and `2` -/
def zero : Number := ⟨['0'], by decide, Text.forall_of_all (by decide), .inl rfl⟩

def one : Number := ⟨['1'], by decide, Text.forall_of_all (by decide), .inr (by decide)⟩

def two : Number := ⟨['2'], by decide, Text.forall_of_all (by decide), .inr (by decide)⟩

/-- Two builds of `v1.0.0`, and `v2.0.0`. -/
def firstBuild : Version := ⟨one, zero, zero, [], [⟨['a'], by decide, Text.forall_of_all (by decide)⟩]⟩

def secondBuild : Version := ⟨one, zero, zero, [], [⟨['b'], by decide, Text.forall_of_all (by decide)⟩]⟩

def newest : Version := ⟨two, zero, zero, [], []⟩

/-- `v1.0.0+a`, `v1.0.0+b`, `v2.0.0` -/
def advertised : List (List Char) := ["v1.0.0+a".toList, "v1.0.0+b".toList, "v2.0.0".toList]

theorem advertised_eq : advertised = [firstBuild.text, secondBuild.text, newest.text] := by decide

theorem newest_strictlyHighest : StrictlyHighest advertised newest := by
  have hbelow : firstBuild.precedence < newest.precedence := Prod.Lex.toLex_lt_toLex.mpr (.inl (by decide))
  rw [advertised_eq]
  refine ⟨by simp, fun u hu hne => ?_⟩
  simp only [List.mem_cons, List.not_mem_nil, or_false] at hu
  rcases hu with hu | hu | hu
  · rw [precedence_congr hu]
    exact hbelow
  · rw [precedence_congr hu]
    exact hbelow
  · exact absurd hu hne

/-- Two builds of an older version stop the choice of the newest. -/
theorem older_builds_hide_newest :
    ¬ ∀ (git : Git) (tags : List (List Char)), Succeeds git tags → PicksNewest git tags := by
  intro hclaim
  have hgit : Succeeds (originOf advertised) advertised := originOf_succeeds (by decide)
  refine not_picksNewest hgit newest_strictlyHighest ?_ (hclaim _ _ hgit)
  refine ⟨[firstBuild.text], secondBuild, [newest.text], advertised_eq, ⟨firstBuild, List.mem_singleton.mpr rfl, rfl⟩, ?_⟩
  intro w hw
  rw [precedence_congr (List.mem_singleton.mp hw)]
  exact le_rfl

/-- The comparison is the one of the SemVer precedence, on the texts of versions, which are the
accepted texts; the newest is picked exactly where no valid tag ties with the highest in front of
it, or none is strictly the highest. -/
theorem newest_release_iff (h : Succeeds git tags) :
    (∀ value, releaseSemverValid value = true ↔ ∃ v : Version, v.text = value) ∧
    (∀ v u : Version, releaseSemverCmp v.text u.text = some (compare v.precedence u.precedence)) ∧
    (PicksNewest git tags ↔ ((∃ v, StrictlyHighest tags v) → ¬ TiesOnTheWay tags)) := by
  refine ⟨fun _ => valid_iff, semverCmp_text, fun hpicks ⟨v, hv⟩ hties => not_picksNewest h hv hties hpicks, fun hcond => ?_⟩
  rcases choice_cases h with hnone | ⟨v, hv, -, commit, object, hok⟩ | ⟨hties, e, herror⟩
  · exact ⟨fun v hv => absurd hv.1 (hnone v), fun _ _ => .inl hnone⟩
  · refine ⟨fun u hu => ?_, fun e herror => ?_⟩
    · rw [strictlyHighest_unique hv hu]
      exact ⟨commit, object, hok⟩
    · rw [hok] at herror
      cases herror
  · have hno : ∀ v, ¬ StrictlyHighest tags v := fun v hv => hcond ⟨v, hv⟩ hties
    refine ⟨fun v hv => absurd hv (hno v), fun _ _ => ?_⟩
    obtain ⟨front, v, back, rfl, -⟩ := hties
    exact .inr (sharedHighest_of_none (List.mem_append_right _ List.mem_cons_self) hno)

theorem newest_release_iff_advertised :
    PicksNewest (originOf advertised) advertised ↔ ((∃ v, StrictlyHighest advertised v) → ¬ TiesOnTheWay advertised) :=
  (newest_release_iff (originOf_succeeds (by decide))).2.2

end ProxyGateway.Release
