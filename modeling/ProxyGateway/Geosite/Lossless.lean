import ProxyGateway.Geosite.Truncated
import ProxyGateway.Lib.Text

set_option autoImplicit false

/-!
# ProxyGateway.Geosite.Lossless

What is written for an encoded list of entries. Unknown fields may stand anywhere, numbers may have
any width, and a field that has its default may be left out: the decoder finds the entries in order,
with the domains whose value is there (`sites_encode`). Each domain of a wanted entry has its line
exactly when the value is there and has no line break (`lossless_iff`).
-/

namespace ProxyGateway.Geosite

open Py

/-! ### Encoded lists -/

/-- `text.encode("utf-8")`. -/
def utf8 (s : String) : List UInt8 := s.toByteArray.data.toList

/-- A `Domain` as it is encoded; of each known field the last one counts. -/
structure EncodedDomain where
  fields : List Wire.Field
  values : List String
  encoded : Wire.texts 2 fields = values.map utf8

def EncodedDomain.type (d : EncodedDomain) : Nat := (Wire.numbers 1 d.fields).getLast?.getD 0

def EncodedDomain.value (d : EncodedDomain) : String := d.values.getLast?.getD ""

/-- Its value was left out. -/
def EncodedDomain.omitted (d : EncodedDomain) : Prop := d.values = []

/-- A `GeoSite` as it is encoded. -/
structure EncodedEntry where
  fields : List Wire.Field
  codes : List String
  domains : List EncodedDomain
  coded : Wire.texts 1 fields = codes.map utf8
  encoded : Wire.texts 2 fields = domains.map (fun d => Wire.encode d.fields)

def EncodedEntry.code (e : EncodedEntry) : Option String := e.codes.getLast?

/-- A `GeoSiteList` as it is encoded. -/
structure EncodedFile where
  fields : List Wire.Field
  entries : List EncodedEntry
  encoded : Wire.texts 1 fields = entries.map (fun e => Wire.encode e.fields)

def EncodedFile.bytes (file : EncodedFile) : List UInt8 := Wire.encode file.fields

/-! ### What is found -/

/-- A domain as the decoder keeps it. -/
def EncodedDomain.shown (d : EncodedDomain) : Option (Nat × String) := d.values.getLast?.map (fun value => (d.type, value))

def EncodedEntry.shown (e : EncodedEntry) : List (Nat × String) := e.domains.filterMap EncodedDomain.shown

variable {upper : String → String}

theorem decodeUtf8_utf8 (s : String) : decodeUtf8 (utf8 s) = .ok s := by
  have hdecode : String.fromUTF8? ⟨(utf8 s).toArray⟩ = some s := by
    rw [utf8, Array.toArray_toList]
    exact dif_pos s.isValidUTF8
  rw [decodeUtf8, hdecode]

theorem bytesOf_readField (number : Nat) (f : Wire.Field) : bytesOf number (readField f) =
    match f.value with
      | .text bytes => if f.number = number then some bytes else none
      | _ => none := by
  rw [readField, bytesOf]
  cases f.value <;> simp [readValue, Wire.Value.wireType]

theorem numberOf_readField (number : Nat) (f : Wire.Field) : numberOf number (readField f) =
    match f.value with
      | .number n => if f.number = number then some n else none
      | _ => none := by
  rw [readField, numberOf]
  cases f.value <;> simp [readValue, Wire.Value.wireType]

theorem texts_eq (number : Nat) (fs : List Wire.Field) :
    (fs.map readField).filterMap (bytesOf number) = Wire.texts number fs := by
  rw [List.filterMap_map, Wire.texts]
  exact congrArg (List.filterMap · fs) (funext fun f => bytesOf_readField number f)

theorem getLast?_cons_or {α : Type} (x : α) (xs : List α) (y : Option α) :
    (x :: xs).getLast?.or y = xs.getLast?.or (some x) := by
  cases xs with
  | nil => rfl
  | cons z zs => simp [List.getLast?_eq_some_getLast]

theorem domainField_readField (read : Nat × Option String) (f : Wire.Field) : domainField read (readField f) =
    match f.value with
      | .number n => .ok (if f.number = 1 then (n, read.2) else read)
      | .text bytes => if f.number = 2 then (do return (read.1, some (← decodeUtf8 bytes))) else .ok read
      | _ => .ok read := by
  rw [domainField, numberOf_readField, bytesOf_readField]
  cases f.value with
  | number n => by_cases hnumber : f.number = 1 <;> simp [hnumber]
  | text bytes => by_cases hnumber : f.number = 2 <;> simp [hnumber]
  | fixed64 bytes => rfl
  | fixed32 bytes => rfl

/-- The last type and the last value of a domain are kept. -/
theorem foldlM_domainField {fs : List Wire.Field} {values : List String} (h : Wire.texts 2 fs = values.map utf8)
    (read : Nat × Option String) : (fs.map readField).foldlM domainField read =
      .ok ((Wire.numbers 1 fs).getLast?.getD read.1, values.getLast?.or read.2) := by
  induction fs generalizing values read with
  | nil =>
      have hnil : values = [] := by simpa [Wire.texts] using h.symm
      rw [hnil]
      rfl
  | cons f fs ih =>
      rw [List.map_cons, List.foldlM_cons, domainField_readField]
      rw [Wire.texts, List.filterMap_cons] at h
      rw [Wire.numbers, List.filterMap_cons]
      cases hvalue : f.value with
      | number n =>
          simp only [hvalue] at h ⊢
          rw [ok_bind, ih h]
          by_cases hnumber : f.number = 1
          · simp only [if_pos hnumber, List.getLast?_cons, Option.getD_some]
            rfl
          · simp only [if_neg hnumber]
            rfl
      | text bytes =>
          simp only [hvalue] at h ⊢
          by_cases hnumber : f.number = 2
          · simp only [if_pos hnumber] at h ⊢
            obtain ⟨value, values, rfl, hbytes, hrest⟩ := List.map_eq_cons_iff.mp h.symm
            rw [← hbytes, decodeUtf8_utf8, ok_bind, pure_bind, ih hrest.symm, getLast?_cons_or]
            rfl
          · simp only [if_neg hnumber] at h ⊢
            rw [ok_bind, ih h]
            rfl
      | fixed64 bytes =>
          simp only [hvalue] at h ⊢
          rw [ok_bind, ih h]
          rfl
      | fixed32 bytes =>
          simp only [hvalue] at h ⊢
          rw [ok_bind, ih h]
          rfl

theorem domain_encode (d : EncodedDomain) : domain (Wire.encode d.fields) = .ok (d.type, d.values.getLast?) := by
  rw [domain, fields_encode, ok_bind, foldlM_domainField d.encoded, Option.or_none]
  rfl

theorem siteField_readField (read : Option String × List (Nat × String)) (f : Wire.Field) :
    siteField upper read (readField f) =
      match f.value with
        | .text bytes =>
            if f.number = 1 then (do return (some (upper (← decodeUtf8 bytes)), read.2))
            else if f.number = 2 then (do
              let domain ← domain bytes
              return match domain.2 with
                | some value => (read.1, read.2 ++ [(domain.1, value)])
                | none => read)
            else .ok read
        | _ => .ok read := by
  rw [siteField, bytesOf_readField, bytesOf_readField]
  cases f.value with
  | number n => rfl
  | text bytes =>
      by_cases hcode : f.number = 1
      · simp [hcode]
      · by_cases hdomain : f.number = 2
        · simp only [if_neg hcode, if_pos hdomain] <;> rfl
        · simp [hcode, hdomain]
  | fixed64 bytes => rfl
  | fixed32 bytes => rfl

/-- The last code of an entry is kept, and its domains in order. -/
theorem foldlM_siteField {fs : List Wire.Field} {codes : List String} {domains : List EncodedDomain}
    (hcodes : Wire.texts 1 fs = codes.map utf8) (hdomains : Wire.texts 2 fs = domains.map (fun d => Wire.encode d.fields))
    (read : Option String × List (Nat × String)) : (fs.map readField).foldlM (siteField upper) read =
      .ok ((codes.getLast?.map upper).or read.1, read.2 ++ domains.filterMap EncodedDomain.shown) := by
  -- on the fields; the last code counts, and the domains are collected
  induction fs generalizing codes domains read with
  | nil =>
      have hnone : codes = [] := by simpa [Wire.texts] using hcodes.symm
      have hnil : domains = [] := by simpa [Wire.texts] using hdomains.symm
      rw [hnone, hnil, List.filterMap_nil, List.append_nil]
      rfl
  | cons f fs ih =>
      rw [List.map_cons, List.foldlM_cons, siteField_readField]
      rw [Wire.texts, List.filterMap_cons] at hcodes hdomains
      cases hvalue : f.value with
      | number n =>
          simp only [hvalue] at hcodes hdomains ⊢
          rw [ok_bind, ih hcodes hdomains]
      | text bytes =>
          simp only [hvalue] at hcodes hdomains ⊢
          by_cases hone : f.number = 1
          · simp only [hone, if_true, if_false, show ¬(1 = 2) from by omega] at hcodes hdomains ⊢
            obtain ⟨code, codes, rfl, hbytes, hrest⟩ := List.map_eq_cons_iff.mp hcodes.symm
            rw [← hbytes, decodeUtf8_utf8, ok_bind, pure_bind, ih hrest.symm hdomains, ← List.getLast?_map,
              ← List.getLast?_map, List.map_cons, getLast?_cons_or]
          · by_cases htwo : f.number = 2
            · simp only [htwo, if_true, if_false, show ¬(2 = 1) from by omega] at hcodes hdomains ⊢
              obtain ⟨d, domains, rfl, hbytes, hrest⟩ := List.map_eq_cons_iff.mp hdomains.symm
              rw [← hbytes, domain_encode, ok_bind, pure_bind, List.filterMap_cons, EncodedDomain.shown]
              cases d.values.getLast? with
              | none => exact ih hcodes hrest.symm read
              | some value =>
                  have hkept := ih hcodes hrest.symm (read.1, read.2 ++ [(d.type, value)])
                  rw [List.append_assoc] at hkept
                  exact hkept
            · simp only [if_neg hone, if_neg htwo] at hcodes hdomains ⊢
              rw [ok_bind, ih hcodes hdomains]
      | fixed64 bytes =>
          simp only [hvalue] at hcodes hdomains ⊢
          rw [ok_bind, ih hcodes hdomains]
      | fixed32 bytes =>
          simp only [hvalue] at hcodes hdomains ⊢
          rw [ok_bind, ih hcodes hdomains]

theorem site_encode (e : EncodedEntry) : site upper (Wire.encode e.fields) = .ok (e.code.map upper, e.shown) := by
  rw [site, fields_encode, ok_bind, foldlM_siteField e.coded e.encoded, Option.or_none, List.nil_append]
  rfl

/-- The entries of the file are found in order, each with its domains. -/
theorem sites_encode (file : EncodedFile) :
    sites upper file.bytes = .ok (file.entries.map (fun e => (e.code.map upper, e.shown))) := by
  rw [sites, EncodedFile.bytes, fields_encode, ok_bind, texts_eq, file.encoded]
  generalize file.entries = entries
  induction entries with
  | nil => rfl
  | cons e entries ih =>
      rw [List.map_cons, List.mapM_cons, site_encode, ok_bind, ih]
      rfl

/-! ### What is written -/

section

variable {found : Found} {files : List (String × String)} {ss : List (Option String × List (Nat × String))}
  {cc : String} {domains : List (Nat × String)}

theorem keys_add (hkeys : Dict.keys found.res = want.map Prod.fst) (s : Option String × List (Nat × String)) :
    Dict.keys (found.add s).res = want.map Prod.fst := by
  obtain ⟨code, domains⟩ := s
  cases code with
  | none => exact hkeys
  | some code =>
      rw [add_some]
      split
      · next hwant =>
        rw [Dict.keys_set, if_pos (hkeys ▸ hwant), hkeys]
      · exact hkeys

theorem keys_foldl (hkeys : Dict.keys found.res = want.map Prod.fst) :
    Dict.keys (ss.foldl Found.add found).res = want.map Prod.fst := by
  induction ss generalizing found with
  | nil => exact hkeys
  | cons s ss ih => exact ih (keys_add hkeys s)

theorem keys_foundIn : Dict.keys (foundIn ss).res = want.map Prod.fst := keys_foldl rfl

theorem domains_add_ne {s : Option String × List (Nat × String)} (h : s.1 ≠ some cc) :
    (found.add s).domains cc = found.domains cc := by
  obtain ⟨code, domains⟩ := s
  cases code with
  | none => rfl
  | some code =>
      have hne : code ≠ cc := fun he => h (congrArg some he)
      rw [add_some]
      split
      · rw [Found.domains, Dict.get?_set_ne hne, Found.domains]
      · rfl

theorem domains_foldl_ne (h : cc ∉ ss.filterMap Prod.fst) : (ss.foldl Found.add found).domains cc = found.domains cc := by
  induction ss generalizing found with
  | nil => rfl
  | cons s ss ih =>
      obtain ⟨code, domains⟩ := s
      have hcode : code ≠ some cc := by
        rintro rfl
        exact h List.mem_cons_self
      have hrest : cc ∉ ss.filterMap Prod.fst := by
        intro hin
        cases code with
        | none => exact h hin
        | some code => exact h (List.mem_cons_of_mem _ hin)
      rw [List.foldl_cons, ih hrest, domains_add_ne hcode]

/-- A category that is there once is found with its domains. -/
theorem domains_foldl (hwant : cc ∈ want.map Prod.fst) (hs : (some cc, domains) ∈ ss)
    (honce : (ss.filterMap Prod.fst).Nodup) : (ss.foldl Found.add found).domains cc = domains := by
  induction ss generalizing found with
  | nil => cases hs
  | cons s ss ih =>
      rw [List.filterMap_cons] at honce
      rcases List.mem_cons.mp hs with rfl | hs
      · rw [List.foldl_cons, domains_foldl_ne (List.nodup_cons.mp honce).1, add_some, if_pos hwant, Found.domains,
          Dict.get?_set_self, Option.getD_some]
      · have hrest : (ss.filterMap Prod.fst).Nodup := by
          obtain ⟨code, ds⟩ := s
          cases code with
          | none => exact honce
          | some code => exact (List.nodup_cons.mp honce).2
        exact ih hs hrest

theorem supported_res (hkeys : Dict.keys found.res = want.map Prod.fst) :
    (∀ entry ∈ found.res, supported entry.2 = true) ↔ ∀ w ∈ want, supported (found.domains w.1) = true := by
  have huniq : Dict.Uniq found.res := by
    rw [Dict.Uniq, hkeys]
    decide
  constructor
  · intro h w hw
    have hkey : w.1 ∈ Dict.keys found.res := hkeys ▸ List.mem_map_of_mem hw
    obtain ⟨domains, hget⟩ := Option.isSome_iff_exists.mp (Dict.get?_isSome_iff.mpr hkey)
    rw [Found.domains, hget]
    exact h _ (Dict.mem_of_get? hget)
  · rintro h ⟨cc, domains⟩ hentry
    have hkey : cc ∈ want.map Prod.fst := hkeys ▸ List.mem_map_of_mem hentry
    obtain ⟨w, hw, rfl⟩ := List.mem_map.mp hkey
    have hsupported := h w hw
    rw [Found.domains, huniq.get?_of_mem hentry] at hsupported
    exact hsupported

/-- The files are written exactly if every category is there with domains, all of types of mosdns. -/
theorem written_eq_ok (hkeys : Dict.keys found.res = want.map Prod.fst) : written found = .ok files ↔
    (∀ w ∈ want, w.1 ∈ found.seen ∧ found.domains w.1 ≠ [] ∧ supported (found.domains w.1) = true) ∧
      files = want.map (fun w => (w.2, fileText (found.domains w.1))) := by
  have hbad : found.bad = [] ↔ ∀ w ∈ want, w.1 ∈ found.seen ∧ found.domains w.1 ≠ [] := by
    simp [Found.bad, List.filter_eq_nil_iff]
  have hcheck : (found.res.forM (fun entry =>
      if supported entry.2 then .ok () else Py.raise ("geosite.dat 包含不支持的域名类型: " ++ entry.1)) : Py String Unit) = .ok () ↔
      ∀ w ∈ want, supported (found.domains w.1) = true := by
    rw [← supported_res hkeys]
    refine Py.forM_eq_ok.trans (forall₂_congr fun entry _ => ?_)
    split <;> simp_all
  unfold written
  constructor
  · intro h
    split at h
    · next hempty =>
      obtain ⟨_, hall, h⟩ := bind_eq_ok.mp h
      have hsupported := hcheck.mp hall
      exact ⟨fun w hw => ⟨(hbad.mp hempty w hw).1, (hbad.mp hempty w hw).2, hsupported w hw⟩, (pure_eq_ok.mp h).symm⟩
    · cases h
  · rintro ⟨hall, rfl⟩
    rw [if_pos (hbad.mpr fun w hw => ⟨(hall w hw).1, (hall w hw).2.1⟩), hcheck.mpr fun w hw => (hall w hw).2.2]
    rfl

end

/-! ### Lines -/

variable {domains : List (Nat × String)}

/-- The lines of a text, each with a line break behind it. -/
def linesOf (text : String) : List (List Char) := (Text.splitAt '\n' text.toList).dropLast

def lineText (domain : Nat × String) : String := (Dict.get? pref domain.1).getD "" ++ domain.2

/-- The line a domain is to have. -/
def EncodedDomain.line (d : EncodedDomain) : List Char := (lineText (d.type, d.value)).toList

theorem toList_fileText (domains : List (Nat × String)) :
    (fileText domains).toList = domains.flatMap (fun d => (lineText d).toList ++ ['\n']) := by
  rw [fileText]
  induction domains with
  | nil => rfl
  | cons d domains ih =>
      rw [List.map_cons, String.join_cons, String.toList_append, ih, String.toList_append]
      rfl

theorem newline_lineText (domain : Nat × String) : '\n' ∈ (lineText domain).toList ↔ '\n' ∈ domain.2.toList := by
  have hpref : '\n' ∉ ((Dict.get? pref domain.1).getD "").toList := by
    cases hget : Dict.get? pref domain.1 with
    | none => simp
    | some text =>
        have hall : ∀ p ∈ pref, '\n' ∉ p.2.toList := by decide
        exact hall _ (Dict.mem_of_get? hget)
  rw [lineText, String.toList_append, List.mem_append, or_iff_right hpref]

/-- Values without a line break have a line each. -/
theorem linesOf_fileText (h : ∀ d ∈ domains, '\n' ∉ d.2.toList) :
    linesOf (fileText domains) = domains.map (fun d => (lineText d).toList) := by
  rw [linesOf, toList_fileText]
  induction domains with
  | nil => rfl
  | cons d domains ih =>
      obtain ⟨hd, hrest⟩ := List.forall_mem_cons.mp h
      have hline : '\n' ∉ (lineText d).toList := fun hin => hd ((newline_lineText d).mp hin)
      rw [List.flatMap_cons, List.append_assoc, List.singleton_append, Text.splitAt_append hline,
        List.dropLast_cons_of_ne_nil (Text.splitAt_ne_nil _ _), ih hrest, List.map_cons]

theorem newline_of_mem_linesOf {text : String} {line : List Char} (h : line ∈ linesOf text) : '\n' ∉ line :=
  Text.not_mem_of_mem_splitAt (List.dropLast_subset _ h)

/-! ### The law -/

/-- Every wanted category is there with a domain that has its value, all of types of mosdns. -/
def Accepted (upper : String → String) (file : EncodedFile) : Prop :=
  ∀ w ∈ want, ∃ e ∈ file.entries, e.code.map upper = some w.1 ∧ e.shown ≠ [] ∧ supported e.shown = true

/-- The domains of the wanted categories have their values, without line breaks. -/
def Plain (upper : String → String) (file : EncodedFile) : Prop :=
  ∀ w ∈ want, ∀ e ∈ file.entries, e.code.map upper = some w.1 → ∀ d ∈ e.domains,
    ¬d.omitted ∧ '\n' ∉ d.value.toList

/-- An exception, or a line for each domain of each wanted category. -/
def Lossless (upper : String → String) (file : EncodedFile) : Prop :=
  (∃ e, main upper file.bytes = .error e) ∨ ∃ files, main upper file.bytes = .ok files ∧
    ∀ w ∈ want, ∃ e ∈ file.entries, e.code.map upper = some w.1 ∧
      ∃ text, Dict.get? files w.2 = some text ∧ linesOf text = e.domains.map EncodedDomain.line

theorem eq_of_nodup_filterMap {α β : Type} {f : α → Option β} {xs : List α} (h : (xs.filterMap f).Nodup) {x y : α} {c : β}
    (hx : x ∈ xs) (hy : y ∈ xs) (hfx : f x = some c) (hfy : f y = some c) : x = y := by
  induction xs with
  | nil => cases hx
  | cons z xs ih =>
      rw [List.filterMap_cons] at h
      rcases List.mem_cons.mp hx with rfl | hxs
      · rcases List.mem_cons.mp hy with rfl | hys
        · rfl
        · simp only [hfx] at h
          exact absurd (List.mem_filterMap.mpr ⟨y, hys, hfy⟩) (List.nodup_cons.mp h).1
      · rcases List.mem_cons.mp hy with rfl | hys
        · simp only [hfy] at h
          exact absurd (List.mem_filterMap.mpr ⟨x, hxs, hfx⟩) (List.nodup_cons.mp h).1
        · refine ih ?_ hxs hys
          split at h
          · exact h
          · exact (List.nodup_cons.mp h).2

section

variable {file : EncodedFile} (hdistinct : (file.entries.filterMap (fun e => e.code.map upper)).Nodup)

/-- What is found in the file. -/
def EncodedFile.found (upper : String → String) (file : EncodedFile) : Found :=
  foundIn (file.entries.map (fun e => (e.code.map upper, e.shown)))

theorem main_found : main upper file.bytes = written (file.found upper) := by
  rw [main_eq, sites_encode, ok_bind]
  rfl

theorem seen_found {w : String × String} (hw : w ∈ want) : w.1 ∈ (file.found upper).seen ↔
    ∃ e ∈ file.entries, e.code.map upper = some w.1 := by
  rw [EncodedFile.found, foundIn, seen_foldl, List.filterMap_map]
  simp [List.mem_map_of_mem hw]

include hdistinct

theorem domains_found {w : String × String} (hw : w ∈ want) {e : EncodedEntry} (he : e ∈ file.entries)
    (hcode : e.code.map upper = some w.1) : (file.found upper).domains w.1 = e.shown := by
  have hin : (some w.1, e.shown) ∈ file.entries.map (fun e => (e.code.map upper, e.shown)) :=
    hcode ▸ List.mem_map_of_mem he
  refine domains_foldl (List.mem_map_of_mem hw) hin ?_
  rw [List.filterMap_map]
  exact hdistinct

theorem main_encode {files : List (String × String)} : main upper file.bytes = .ok files ↔
    Accepted upper file ∧ files = want.map (fun w => (w.2, fileText ((file.found upper).domains w.1))) := by
  rw [main_found, written_eq_ok (show Dict.keys (file.found upper).res = _ from keys_foundIn)]
  refine and_congr_left fun _ => forall₂_congr fun w hw => ?_
  rw [seen_found hw]
  constructor
  · rintro ⟨⟨e, he, hcode⟩, hdomains⟩
    rw [domains_found hdistinct hw he hcode] at hdomains
    exact ⟨e, he, hcode, hdomains⟩
  · rintro ⟨e, he, hcode, hdomains⟩
    rw [domains_found hdistinct hw he hcode]
    exact ⟨⟨e, he, hcode⟩, hdomains⟩

omit hdistinct

theorem shown_of_plain {e : EncodedEntry} (h : ∀ d ∈ e.domains, ¬d.omitted ∧ '\n' ∉ d.value.toList) :
    e.shown = e.domains.map (fun d => (d.type, d.value)) := by
  rw [EncodedEntry.shown, ← List.filterMap_eq_map']
  refine List.filterMap_congr fun d hd => ?_
  have hvalue := List.getLast?_eq_some_getLast (h d hd).1
  rw [EncodedDomain.shown, EncodedDomain.value, hvalue]
  rfl

/-- The lines are those of the domains exactly if the domains are plain. -/
theorem lines_iff {e : EncodedEntry} : linesOf (fileText e.shown) = e.domains.map EncodedDomain.line ↔
    ∀ d ∈ e.domains, ¬d.omitted ∧ '\n' ∉ d.value.toList := by
  constructor
  · intro h
    have hclean : ∀ d ∈ e.domains, '\n' ∉ d.value.toList := by
      intro d hd hin
      exact newline_of_mem_linesOf (h ▸ List.mem_map_of_mem hd) ((newline_lineText (d.type, d.value)).mpr hin)
    have hshown : ∀ s ∈ e.shown, '\n' ∉ s.2.toList := by
      intro s hs
      obtain ⟨d, hd, hsome⟩ := List.mem_filterMap.mp hs
      obtain ⟨value, hvalue, rfl⟩ := Option.map_eq_some_iff.mp hsome
      have hd' := hclean d hd
      rw [EncodedDomain.value, hvalue] at hd'
      exact hd'
    -- as many lines as domains, so that none is left out
    have hlength := congrArg List.length h
    rw [linesOf_fileText hshown, List.length_map, List.length_map, EncodedEntry.shown] at hlength
    have hall := List.filterMap_length_eq_length.mp hlength
    intro d hd
    refine ⟨fun homitted => ?_, hclean d hd⟩
    have hsome := hall d hd
    rw [EncodedDomain.shown, homitted] at hsome
    cases hsome
  · intro h
    have hshown := shown_of_plain h
    rw [hshown, linesOf_fileText, List.map_map]
    · rfl
    · intro s hs
      obtain ⟨d, hd, rfl⟩ := List.mem_map.mp hs
      exact (h d hd).2

theorem get?_files (f : String × String → String) {w : String × String} (hw : w ∈ want) :
    Dict.get? (want.map (fun w => (w.2, f w))) w.2 = some (f w) := by
  have huniq : Dict.Uniq (want.map (fun w => (w.2, f w))) := by
    rw [Dict.Uniq, Dict.keys, List.map_map]
    show (want.map Prod.snd).Nodup
    decide
  exact huniq.get?_of_mem (List.mem_map.mpr ⟨w, hw, rfl⟩)

end

theorem plain_of_lossless {file : EncodedFile} (hdistinct : (file.entries.filterMap (fun e => e.code.map upper)).Nodup)
    (h : Lossless upper file) (haccepted : Accepted upper file) : Plain upper file := by
  have hmain := (main_encode hdistinct).mpr ⟨haccepted, rfl⟩
  obtain ⟨e, herror⟩ | ⟨files, hfiles, hlines⟩ := h
  · rw [hmain] at herror
    cases herror
  · rw [hmain] at hfiles
    cases hfiles
    intro w hw e he hcode
    obtain ⟨e', he', hcode', text, htext, hsame⟩ := hlines w hw
    obtain rfl : e' = e := eq_of_nodup_filterMap hdistinct he' he hcode' hcode
    rw [get?_files (fun w => fileText ((file.found upper).domains w.1)) hw, Option.some.injEq,
      domains_found hdistinct hw he' hcode'] at htext
    exact lines_iff.mp (htext ▸ hsame)

theorem lossless_of_plain {file : EncodedFile} (hdistinct : (file.entries.filterMap (fun e => e.code.map upper)).Nodup)
    (h : Accepted upper file → Plain upper file) : Lossless upper file := by
  cases hmain : main upper file.bytes with
  | error e => exact .inl ⟨e, hmain⟩
  | ok files =>
      obtain ⟨haccepted, rfl⟩ := (main_encode hdistinct).mp hmain
      refine .inr ⟨_, hmain, fun w hw => ?_⟩
      obtain ⟨e, he, hcode, -⟩ := haccepted w hw
      refine ⟨e, he, hcode, _, get?_files (fun w => fileText ((file.found upper).domains w.1)) hw, ?_⟩
      rw [domains_found hdistinct hw he hcode]
      exact lines_iff.mpr (h haccepted w hw e he hcode)

/-- Of a file whose codes are distinct, each domain of a wanted category gets its line exactly if the
file is refused, or the values are all there and have no line break. -/
theorem lossless_iff {upper : String → String} {file : EncodedFile}
    (hdistinct : (file.entries.filterMap (fun e => e.code.map upper)).Nodup) :
    Lossless upper file ↔ (Accepted upper file → Plain upper file) :=
  ⟨plain_of_lossless hdistinct, lossless_of_plain hdistinct⟩

/-! ### Files as short as they can be -/

/-- A domain with its two fields. -/
def shortDomain (type : Nat) (value : String) (htype : type < 2 ^ 64) (hvalue : (utf8 value).length < 2 ^ 64) :
    EncodedDomain where
  fields := [.shortest 1 (.number type) (by omega) htype, .shortest 2 (.text (utf8 value)) (by omega) hvalue]
  values := [value]
  encoded := rfl

/-- An entry with its code and one domain. -/
def shortEntry (code : String) (d : EncodedDomain) (hcode : (utf8 code).length < 2 ^ 64)
    (hdomain : (Wire.encode d.fields).length < 2 ^ 64) : EncodedEntry where
  fields := [.shortest 1 (.text (utf8 code)) (by omega) hcode,
    .shortest 2 (.text (Wire.encode d.fields)) (by omega) hdomain]
  codes := [code]
  domains := [d]
  coded := rfl
  encoded := rfl

/-- A file with these entries. -/
def shortFile (entries : List EncodedEntry) (hentries : ∀ e ∈ entries, (Wire.encode e.fields).length < 2 ^ 64) :
    EncodedFile where
  fields := entries.attach.map (fun e => .shortest 1 (.text (Wire.encode e.1.fields)) (by omega) (hentries e.1 e.2))
  entries := entries
  encoded := by
    rw [Wire.texts, List.filterMap_map]
    calc entries.attach.filterMap _
        _ = entries.attach.map (fun e => Wire.encode e.1.fields) :=
          congrFun List.filterMap_eq_map entries.attach
        _ = entries.map (fun e => Wire.encode e.fields) := List.attach_map_val (f := fun e : EncodedEntry => Wire.encode e.fields)

theorem length_shortDomain {type : Nat} {value : String} (htype : type < 2 ^ 64) (hvalue : (utf8 value).length < 2 ^ 64) :
    (Wire.encode (shortDomain type value htype hvalue).fields).length ≤ 40 + (utf8 value).length := by
  refine (Wire.length_encode _).trans ?_
  show 20 + 0 + (20 + (utf8 value).length + 0) ≤ 40 + (utf8 value).length
  omega

theorem length_shortEntry {code : String} {d : EncodedDomain} (hcode : (utf8 code).length < 2 ^ 64)
    (hdomain : (Wire.encode d.fields).length < 2 ^ 64) : (Wire.encode (shortEntry code d hcode hdomain).fields).length ≤
      40 + (utf8 code).length + (Wire.encode d.fields).length := by
  refine (Wire.length_encode _).trans ?_
  show 20 + (utf8 code).length + (20 + (Wire.encode d.fields).length + 0) ≤
    40 + (utf8 code).length + (Wire.encode d.fields).length
  omega

/-- The domain `value` in the category `code`. -/
def oneDomain (code value : String) (hcode : (utf8 code).length ≤ 100) (hvalue : (utf8 value).length ≤ 100) :
    EncodedEntry :=
  shortEntry code (shortDomain 2 value (by omega) (by omega)) (by omega)
    ((length_shortDomain _ _).trans_lt (by omega))

theorem length_oneDomain {code value : String} (hcode : (utf8 code).length ≤ 100) (hvalue : (utf8 value).length ≤ 100) :
    (Wire.encode (oneDomain code value hcode hvalue).fields).length < 2 ^ 64 := by
  have hdomain : (Wire.encode (shortDomain 2 value (by omega) (by omega)).fields).length ≤ 40 + (utf8 value).length :=
    length_shortDomain _ _
  refine (length_shortEntry _ _).trans_lt ?_
  omega

/-- A file with a domain in each category, the first one `value`. -/
def fourDomains (value : String) (hvalue : (utf8 value).length ≤ 100) : EncodedFile :=
  shortFile [oneDomain "CN" value (by decide) hvalue, oneDomain "GEOLOCATION-!CN" "b.example" (by decide) (by decide),
      oneDomain "APPLE" "c.example" (by decide) (by decide), oneDomain "GFW" "d.example" (by decide) (by decide)]
    (by
      simp only [List.forall_mem_cons, length_oneDomain, true_and]
      exact List.forall_mem_nil _)

/-- A value with a line break is two lines. -/
theorem line_break_adds_line : ¬Lossless id (fourDomains "a.example\nfull:e.example" (by decide)) := by
  intro h
  have hdistinct : ((fourDomains "a.example\nfull:e.example" (by decide)).entries.filterMap (fun e => e.code.map id)).Nodup := by
    decide
  have haccepted : Accepted id (fourDomains "a.example\nfull:e.example" (by decide)) := by
    unfold Accepted
    decide
  have hplain := plain_of_lossless hdistinct h haccepted ("CN", "geosite_cn.txt") List.mem_cons_self _
    List.mem_cons_self rfl _ List.mem_cons_self
  exact hplain.2 (by decide)

/-- The law at a file with plain values. -/
theorem lossless_sample : Lossless id (fourDomains "a.example" (by decide)) := by
  have hplain : Plain id (fourDomains "a.example" (by decide)) := by
    unfold Plain EncodedDomain.omitted
    decide
  exact (lossless_iff (by decide)).mpr fun _ => hplain

end ProxyGateway.Geosite
