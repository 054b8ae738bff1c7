import Mathlib.Tactic.IntervalCases

set_option autoImplicit false

/-!
# ProxyGateway.Jobs.Stamp

The wall clock of the job store: what `datetime.now(timezone.utc)` returns, without the microseconds,
and the text that `_utc_now` makes of it. Every such text is read back (`parseUtc_text`).
-/

namespace ProxyGateway.Jobs

/-! ### Texts of a fixed shape -/

/-- Does a text consist of one character of each class? -/
def hasShape (classes : List (Char → Bool)) (text : List Char) : Bool :=
  classes.length = text.length && (classes.zip text).all (fun p => p.1 p.2)

/-- `[0-9]{n}` -/
def digits (n : Nat) : List (Char → Bool) := List.replicate n Char.isDigit

/-- The class of one character. -/
def only (c : Char) : Char → Bool := fun d => d = c

theorem hasShape_append {classes classes' : List (Char → Bool)} {text text' : List Char} (h : hasShape classes text = true)
    (h' : hasShape classes' text' = true) : hasShape (classes ++ classes') (text ++ text') = true := by
  simp only [hasShape, Bool.and_eq_true, decide_eq_true_eq] at h h' ⊢
  refine ⟨by rw [List.length_append, List.length_append, h.1, h'.1], ?_⟩
  rw [List.zip_append h.1, List.all_append, h.2, h'.2]
  rfl

/-! ### Dates -/

/-- `_is_leap` -/
def isLeap (year : Nat) : Bool := year % 4 = 0 && (year % 100 ≠ 0 || year % 400 = 0)

/-- `_days_in_month` -/
def daysInMonth (year month : Nat) : Nat :=
  if month = 2 then if isLeap year then 29 else 28
  else if month ∈ [4, 6, 9, 11] then 30
  else 31

/-- `_check_date_fields` and `_check_time_fields` -/
def checkFields (year month day hour minute second : Nat) : Bool :=
  1 ≤ year && year ≤ 9999 && 1 ≤ month && month ≤ 12 && 1 ≤ day && day ≤ daysInMonth year month &&
    hour ≤ 23 && minute ≤ 59 && second ≤ 59

/-- `datetime` -/
structure DateTime where
  year : Nat
  month : Nat
  day : Nat
  hour : Nat
  minute : Nat
  second : Nat
  checked : checkFields year month day hour minute second = true
  deriving DecidableEq

namespace DateTime

def fields (t : DateTime) : List Nat := [t.year, t.month, t.day, t.hour, t.minute, t.second]

/-- `t < u` -/
def before (t u : DateTime) : Bool := t.fields < u.fields

@[simp] theorem before_self (t : DateTime) : t.before t = false := by
  rw [before, decide_eq_false_iff_not]
  exact List.lt_irrefl t.fields

/-- `_days_before_year` -/
def daysBeforeYear (year : Nat) : Nat := (year - 1) * 365 + (year - 1) / 4 - (year - 1) / 100 + (year - 1) / 400

/-- `_days_before_month` -/
def daysBeforeMonth (year month : Nat) : Nat := ((List.range' 1 (month - 1)).map (daysInMonth year)).sum

/-- The seconds from the first day of the calendar on. -/
def seconds (t : DateTime) : Nat :=
  (daysBeforeYear t.year + daysBeforeMonth t.year t.month + t.day) * 86400 + t.hour * 3600 + t.minute * 60 + t.second

end DateTime

/-! ### The text of a time -/

/-- The last `width` digits of a number. -/
def padded : Nat → Nat → List Char
  | 0, _ => []
  | width + 1, n => padded width (n / 10) ++ [(n % 10).digitChar]

/-- `int` of digits. -/
def number (text : List Char) : Nat := text.foldl (fun n c => 10 * n + (c.toNat - '0'.toNat)) 0

/-- `_utc_now`, for the time that the clock shows. -/
def DateTime.text (t : DateTime) : List Char :=
  padded 4 t.year ++ ('-' :: padded 2 t.month) ++ ('-' :: padded 2 t.day) ++ ('T' :: padded 2 t.hour) ++
    (':' :: padded 2 t.minute) ++ (':' :: padded 2 t.second) ++ ['Z']

/-- `_UTC_RE` -/
def utcShape : List (Char → Bool) :=
  digits 4 ++ (only '-' :: digits 2) ++ (only '-' :: digits 2) ++ (only 'T' :: digits 2) ++ (only ':' :: digits 2) ++
    (only ':' :: digits 2) ++ [only 'Z']

/-- `datetime(year, month, …)` -/
def dateTime (year month day hour minute second : Nat) : Option DateTime :=
  if h : checkFields year month day hour minute second = true then some ⟨year, month, day, hour, minute, second, h⟩ else none

/-- `strptime(text, "%Y-%m-%dT%H:%M:%SZ")` of a text that `_UTC_RE` matches. -/
def parseUtc (text : List Char) : Option DateTime :=
  let part := fun start len => number ((text.drop start).take len)
  if hasShape utcShape text then dateTime (part 0 4) (part 5 2) (part 8 2) (part 11 2) (part 14 2) (part 17 2) else none

theorem length_padded (width n : Nat) : (padded width n).length = width := by
  induction width generalizing n with
  | zero => rfl
  | succ width ih => rw [padded, List.length_append, ih, List.length_singleton]

theorem isDigit_digitChar {d : Nat} (h : d < 10) : d.digitChar.isDigit = true := by
  interval_cases d <;> rfl

theorem hasShape_padded (width n : Nat) : hasShape (digits width) (padded width n) = true := by
  rw [hasShape, Bool.and_eq_true, decide_eq_true_eq, length_padded]
  refine ⟨List.length_replicate, ?_⟩
  induction width generalizing n with
  | zero => rfl
  | succ width ih =>
      have hlength : (List.replicate width Char.isDigit).length = (padded width (n / 10)).length := by
        rw [List.length_replicate, length_padded]
      have hdigits : digits (width + 1) = digits width ++ [Char.isDigit] := List.replicate_succ'
      rw [hdigits, padded, digits, List.zip_append hlength, List.all_append, ← digits, ih]
      simpa using isDigit_digitChar (Nat.mod_lt n (by omega : 10 > 0))

theorem number_digitChar {d : Nat} (h : d < 10) : d.digitChar.toNat - '0'.toNat = d := by
  interval_cases d <;> rfl

/-- The digits of a number that fits are read as the number. -/
theorem number_padded {width n : Nat} (h : n < 10 ^ width) : number (padded width n) = n := by
  induction width generalizing n with
  | zero =>
      have : n = 0 := by simpa using h
      rw [this, padded, number, List.foldl_nil]
  | succ width ih =>
      have hfront : n / 10 < 10 ^ width := by
        rw [Nat.div_lt_iff_lt_mul (by omega), ← Nat.pow_succ]
        exact h
      have hread := ih hfront
      rw [number] at hread
      rw [padded, number, List.foldl_append, hread, List.foldl_cons, List.foldl_nil,
        number_digitChar (Nat.mod_lt n (by omega : 10 > 0))]
      exact Nat.div_add_mod n 10

theorem hasShape_text (t : DateTime) : hasShape utcShape t.text = true := by
  have hpart : ∀ c n, hasShape (only c :: digits 2) (c :: padded 2 n) = true := by
    intro c n
    have hone : hasShape [only c] [c] = true := by simp [hasShape, only]
    exact hasShape_append hone (hasShape_padded 2 n)
  have hend : hasShape [only 'Z'] ['Z'] = true := by decide
  refine hasShape_append (hasShape_append (hasShape_append (hasShape_append (hasShape_append (hasShape_append ?_ ?_) ?_) ?_)
    ?_) ?_) hend
  · exact hasShape_padded 4 t.year
  all_goals exact hpart _ _

theorem dateTime_fields (t : DateTime) : dateTime t.year t.month t.day t.hour t.minute t.second = some t := by
  rw [dateTime, dif_pos t.checked]

/-- What `_utc_now` wrote is read as the time it was. -/
theorem parseUtc_text (t : DateTime) : parseUtc t.text = some t := by
  have hchecked := t.checked
  simp only [checkFields, Bool.and_eq_true, decide_eq_true_eq] at hchecked
  obtain ⟨⟨⟨⟨⟨⟨⟨⟨-, hyear⟩, -⟩, hmonth⟩, -⟩, hday⟩, hhour⟩, hminute⟩, hsecond⟩ := hchecked
  have hdays : daysInMonth t.year t.month ≤ 31 := by
    unfold daysInMonth
    split
    · split <;> omega
    · split <;> omega
  have hparts : number ((t.text.drop 0).take 4) = t.year ∧ number ((t.text.drop 5).take 2) = t.month ∧
      number ((t.text.drop 8).take 2) = t.day ∧ number ((t.text.drop 11).take 2) = t.hour ∧
      number ((t.text.drop 14).take 2) = t.minute ∧ number ((t.text.drop 17).take 2) = t.second :=
    -- each slice is the text of its number by evaluation
    ⟨@number_padded 4 _ (by omega), @number_padded 2 _ (by omega), @number_padded 2 _ (by omega),
      @number_padded 2 _ (by omega), @number_padded 2 _ (by omega), @number_padded 2 _ (by omega)⟩
  obtain ⟨h0, h5, h8, h11, h14, h17⟩ := hparts
  rw [parseUtc, if_pos (hasShape_text t)]
  simp only [h0, h5, h8, h11, h14, h17]
  exact dateTime_fields t

end ProxyGateway.Jobs
