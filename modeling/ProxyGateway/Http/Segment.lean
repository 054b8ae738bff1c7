import ProxyGateway.Http.Request
import ProxyGateway.Schema.FixedPoint

set_option autoImplicit false

/-!
# ProxyGateway.Http.Segment

Names in paths: the browser writes a name as `~token` (`identifierPath`), and `_strict_path_segment` reads
it. What it reads in this form are the names that the model takes, each in the spelling of the browser and
in no other (`tokenSegment_iff`).
-/

namespace ProxyGateway.Http

open Schema
open Py

variable {P : Python} {U : Unicode} {name raw : String}

/-- `name.encode("utf-8")` -/
def utf8 (name : String) : Bytes := name.toByteArray.data.toList

/-- `identifierPath` of `app.js`, of a name that is normal already. -/
def identifierPath (name : String) : String :=
  String.ofList ('~' :: (Base64.encode (utf8 name)).rdropWhile (· = '='))

/-- What a name in a path has to be. -/
structure PathName (U : Unicode) (name : String) : Prop where
  nonempty : name ≠ ""
  stripped : Route.strip name = name
  composed : U.nfc name = name
  short : name.length ≤ 64
  small : name.utf8ByteSize ≤ 256
  safe : name.toList.any (Schema.dangerousChar U) = false

theorem badName_eq_false : badName P name = false ↔ PathName P.unicode name := by
  simp only [badName, Bool.or_eq_false_iff, decide_eq_false_iff_not, not_not, not_lt]
  constructor
  · rintro ⟨⟨⟨⟨⟨h1, h2⟩, h3⟩, h4⟩, h5⟩, h6⟩
    exact ⟨h1, h2, h3, h4, h5, h6⟩
  · exact fun h => ⟨⟨⟨⟨⟨h.nonempty, h.stripped⟩, h.composed⟩, h.short⟩, h.small⟩, h.safe⟩

/-! ### Texts and bytes -/

theorem decodeUtf8_utf8 (name : String) : decodeUtf8 (utf8 name) = some name := by
  have hbytes : (⟨(utf8 name).toArray⟩ : ByteArray) = name.toByteArray := by
    rw [utf8, Array.toArray_toList]
  rw [decodeUtf8, hbytes, String.fromUTF8?, dif_pos name.isValidUTF8]
  rfl

/-- Bytes are those of the text that is read from them. -/
theorem utf8_of_decodeUtf8 {data : Bytes} (h : decodeUtf8 data = some name) : utf8 name = data := by
  rw [decodeUtf8, String.fromUTF8?] at h
  split at h
  · cases h
    rfl
  · cases h

theorem length_utf8 (name : String) : (utf8 name).length = name.utf8ByteSize := by
  rw [utf8, Array.length_toList]
  rfl

/-! ### Segments and names -/

theorem nameToken_eq_some {token : List Char} : nameToken raw = some token ↔
    raw.toList = '~' :: token ∧ (2 ≤ token.length ∧ token.length ≤ 342) ∧
      token.all (fun c => c.isAlphanum || c = '-' || c = '_') = true := by
  unfold nameToken
  split
  next cs hraw =>
    rw [hraw, List.cons.injEq, eq_self_iff_true, true_and]
    split
    next hfits =>
      constructor
      · intro h
        cases h
        exact ⟨rfl, hfits⟩
      · rintro ⟨rfl, -⟩
        rfl
    next hfits =>
      refine iff_of_false (fun h => by cases h) ?_
      rintro ⟨rfl, h⟩
      exact hfits h
  next hnot =>
    refine iff_of_false (fun h => by cases h) ?_
    rintro ⟨hraw, -⟩
    exact hnot _ hraw

theorem bare_plain (bytes : Bytes) : (Base64.bare bytes).all (fun c => c.isAlphanum || c = '-' || c = '_') = true := by
  rw [List.all_eq_true]
  intro c hc
  obtain ⟨n, hn, rfl⟩ := Base64.mem_bare hc
  simpa using Base64.digit_alphabet n hn

theorem identifierPath_toList (name : String) : (identifierPath name).toList = '~' :: Base64.bare (utf8 name) := by
  rw [identifierPath, String.toList_ofList, Base64.rdropWhile_encode]

/-- A segment in the form `~token` is taken for a name exactly when the browser writes the name so. -/
theorem nameSegment_eq_ok : nameSegment P raw = .ok name ↔ PathName P.unicode name ∧ raw = identifierPath name := by
  constructor
  · intro h
    unfold nameSegment at h
    split at h
    · cases h
    next token htoken =>
      obtain ⟨hraw, -, -⟩ := nameToken_eq_some.mp htoken
      split at h
      · cases h
      next data hdata =>
        split at h
        · cases h
        next hcanonical =>
          split at h
          · cases h
          next decoded hdecoded =>
            split at h
            · cases h
            next hname =>
              cases h
              -- the text is the one that encodes the bytes of the name
              refine ⟨badName_eq_false.mp (Bool.eq_false_iff.mpr hname), String.toList_injective ?_⟩
              rw [hraw, identifierPath, String.toList_ofList, utf8_of_decodeUtf8 hdecoded, not_not.mp hcanonical]
  · rintro ⟨hname, rfl⟩
    have hlength := Base64.length_bare (utf8 name)
    rw [length_utf8] at hlength
    have hsmall := hname.small
    have hlarge : name.utf8ByteSize ≠ 0 := fun h => hname.nonempty (String.utf8ByteSize_eq_zero_iff.mp h)
    have htoken : nameToken (identifierPath name) = some (Base64.bare (utf8 name)) :=
      nameToken_eq_some.mpr ⟨identifierPath_toList name, by omega, bare_plain _⟩
    have hgood : badName P name = false := badName_eq_false.mpr hname
    unfold nameSegment
    simp only [htoken, Base64.decode_bare, Base64.rdropWhile_encode, ne_eq, not_true_eq_false, if_false, decodeUtf8_utf8,
      hgood, Bool.false_eq_true]
    rfl

/-! ### The checks of the model -/

/-- What a path asks of a name is what the model asks of it. -/
theorem pathName_iff (hU : NfcClosed U) : PathName U name ↔ isValidName U (.str name) = true := by
  rw [isValidName_iff]
  constructor
  · intro h
    have hstrip : String.ofList (Text.strip name.toList) = name := h.stripped
    have hbounds : ¬ (name = "" ∨ name.length > nameMaxCodepoints ∨ name.utf8ByteSize > nameMaxUtf8Bytes) := by
      rintro (hempty | hlong | hlarge)
      · exact h.nonempty hempty
      · exact absurd h.short (not_le.mpr hlong)
      · exact absurd h.small (not_le.mpr hlarge)
    have hnormal : normalizeName U (.str name) "name" = .ok name := by
      simp only [normalizeName, h.composed, h.safe, hstrip, hbounds, raiseIf, decide_false, Bool.false_eq_true, if_false,
        ok_bind]
      rfl
    refine ⟨name, ?_⟩
    rw [validateName, hnormal, ok_bind]
    simp [raiseIf]
  · rintro ⟨normal, hvalid⟩
    obtain ⟨normal', hnormal, hcanonical⟩ := bind_eq_ok.mp hvalid
    obtain ⟨hsame, -⟩ := raiseIf_bind_eq_ok.mp hcanonical
    obtain rfl : normal' = name := by simpa using hsame
    simp only [normalizeName, raiseIf_bind_eq_ok, pure_eq_ok, decide_eq_false_iff_not] at hnormal
    obtain ⟨hsafe, hbounds, hstrip⟩ := hnormal
    rw [hstrip, not_or, not_or, not_lt, not_lt] at hbounds
    -- the name is a part of a composed text
    have hpart : normal'.toList <:+: (U.nfc normal').toList := by
      conv_lhs => rw [← hstrip, String.toList_ofList]
      exact Text.stripBy_infix _ _
    have hcomposed := hU normal' normal' hpart
    rw [hcomposed] at hstrip hsafe
    exact ⟨hbounds.1, hstrip, hcomposed, hbounds.2.1, hbounds.2.2, hsafe⟩

/-! ### The reader of segments -/

theorem percentBad_of_plain {cs : List Char} (h : '%' ∉ cs) : percentBad cs = false := by
  induction cs with
  | nil => rfl
  | cons c cs ih =>
      rw [List.mem_cons, not_or] at h
      rw [percentBad]
      · exact ih h.2
      · exact fun hc => h.1 hc.symm

/-- The spelling of the browser is short and has no percent sign. -/
theorem identifierPath_fits (h : PathName U name) :
    ¬ (identifierPath name = "" ∨ (identifierPath name).length > 768 ∨ percentBad (identifierPath name).toList = true) := by
  have hlength := Base64.length_bare (utf8 name)
  rw [length_utf8] at hlength
  have hsmall := h.small
  rintro (hempty | hlong | hbad)
  · have := congrArg String.toList hempty
    rw [identifierPath_toList] at this
    cases this
  · rw [← String.length_toList, identifierPath_toList, List.length_cons] at hlong
    omega
  · rw [identifierPath_toList, percentBad_of_plain] at hbad
    · cases hbad
    · rw [List.mem_cons, not_or]
      refine ⟨by decide, fun hmem => ?_⟩
      exact absurd (List.all_eq_true.mp (bare_plain _) _ hmem) (by decide)

/-- A segment that begins with a tilde is read as a name exactly when the name is one that the model takes,
and the segment is the browser's spelling of it. -/
theorem tokenSegment_iff (hU : NfcClosed P.unicode) (htoken : raw.toList.head? = some '~') :
    strictPathSegment P raw .tag = .ok name ↔ isValidName P.unicode (.str name) = true ∧ raw = identifierPath name := by
  rw [← pathName_iff hU]
  unfold strictPathSegment
  by_cases hfits : raw = "" ∨ raw.length > 768 ∨ percentBad raw.toList = true
  · rw [if_pos hfits]
    refine iff_of_false (fun h => by cases h) ?_
    rintro ⟨hname, rfl⟩
    exact identifierPath_fits hname hfits
  · rw [if_neg hfits, if_pos ⟨rfl, htoken⟩]
    exact nameSegment_eq_ok

/-- A library that composes nothing and reads plain segments as they are. -/
def plainPython : Python where
  lower := id
  unicode := plainUnicode
  ipAddress := fun _ => none
  compressed := fun _ => ""
  urlsplit := fun _ => none
  parseCookie := fun _ => none
  loads := fun _ => none
  unquote := some

theorem tokenSegment_tokyo : strictPathSegment plainPython "~dG9reW8" .tag = .ok "tokyo" :=
  (tokenSegment_iff (fun _ _ _ => rfl) (by decide)).mpr ⟨by decide, by decide⟩

end ProxyGateway.Http
