import NextBallUp.Lib.Numerals
import Mathlib.Order.Basic
import Mathlib.Order.Monotone.Basic

/-!
# Dates and times

The proleptic Gregorian calendar, as Python's `datetime` has it, and how times are written and read
in the ISO format.

## Main definitions

* `Datetime`: a time in UTC, by its fields
* `Datetime.instant`: the microseconds that have passed since the calendar began
* `Datetime.isoformat`, `fromisoformat`: how times are written, and what is read

## Main results

* `Datetime.instant_injective`: different times are different instants
* `fromisoformat_isoformat`: **what was written is read**

## What is deliberately absent

The formats of dates that are not written: those without dashes, and those with the number of a
week.
-/

/-! ### The calendar -/

/-- `calendar.isleap` -/
def isLeap (year : ℕ) : Bool := year % 4 = 0 && (year % 100 ≠ 0 || year % 400 = 0)

/-- The days of a month, in a leap year or not. -/
def daysInMonth (leap : Bool) (month : ℕ) : ℕ :=
  match month with
  | 2 => if leap then 29 else 28
  | 4 | 6 | 9 | 11 => 30
  | _ => 31

/-- The days of a year before a month. -/
def daysBeforeMonth (leap : Bool) : ℕ → ℕ
  | 0 => 0
  | 1 => 0
  | month + 2 => daysBeforeMonth leap (month + 1) + daysInMonth leap (month + 1)

/-- The days before a year. -/
def daysBeforeYear (year : ℕ) : ℕ :=
  (year - 1) * 365 + (year - 1) / 4 - (year - 1) / 100 + (year - 1) / 400

def daysInYear (leap : Bool) : ℕ := if leap then 366 else 365

/-- The fields of a `datetime`. -/
structure Fields where
  year : ℕ
  month : ℕ
  day : ℕ
  hour : ℕ
  minute : ℕ
  second : ℕ
  microsecond : ℕ
  deriving DecidableEq, Repr

namespace Fields

/-- What the constructor of `datetime` checks. -/
def IsValid (f : Fields) : Prop :=
  (1 ≤ f.year ∧ f.year ≤ 9999) ∧ (1 ≤ f.month ∧ f.month ≤ 12) ∧
    (1 ≤ f.day ∧ f.day ≤ daysInMonth (isLeap f.year) f.month) ∧ f.hour < 24 ∧ f.minute < 60 ∧
    f.second < 60 ∧ f.microsecond < 1000000

instance (f : Fields) : Decidable f.IsValid := inferInstanceAs (Decidable (_ ∧ _))

/-- `date.toordinal()` -/
def ordinal (f : Fields) : ℕ :=
  daysBeforeYear f.year + daysBeforeMonth (isLeap f.year) f.month + f.day

/-- The microseconds since the calendar began. -/
def instant (f : Fields) : ℕ :=
  (((f.ordinal * 24 + f.hour) * 60 + f.minute) * 60 + f.second) * 1000000 + f.microsecond

end Fields

/-- A time in UTC. -/
structure Datetime extends Fields where
  isValid : toFields.IsValid

/-- A position in pieces that follow one another says which piece it is, and where in the piece. -/
theorem eq_of_add_eq (start length : ℕ → ℕ) (h : ∀ n, start n + length n ≤ start (n + 1))
    {m n i j : ℕ} (hi : 1 ≤ i ∧ i ≤ length m) (hj : 1 ≤ j ∧ j ≤ length n)
    (he : start m + i = start n + j) : m = n ∧ i = j := by
  have hmono : Monotone start := monotone_nat_of_le_succ fun n => (Nat.le_add_right _ _).trans (h n)
  have hlt {m n i j : ℕ} (hi : i ≤ length m) (hj : 1 ≤ j) (hmn : m < n) :
      start m + i < start n + j := by
    have hstep := h m
    have hle : start (m + 1) ≤ start n := hmono hmn
    omega
  rcases Nat.lt_trichotomy m n with hmn | rfl | hmn
  · exact absurd he (hlt hi.2 hj.1 hmn).ne
  · exact ⟨rfl, by omega⟩
  · exact absurd he (hlt hj.2 hi.1 hmn).ne'

theorem daysBeforeYear_succ (year : ℕ) :
    daysBeforeYear (year + 2) = daysBeforeYear (year + 1) + daysInYear (isLeap (year + 1)) := by
  have hdiv (n : ℕ) (hn : 0 < n) :
      (year + 1) / n = year / n + if (year + 1) % n = 0 then 1 else 0 := by
    rw [Nat.succ_div]
    congr 1
    exact if_congr (Nat.dvd_iff_mod_eq_zero ..) rfl rfl
  have h₄ := hdiv 4 (by decide)
  have h₁₀₀ := hdiv 100 (by decide)
  have h₄₀₀ := hdiv 400 (by decide)
  have hle : year / 100 ≤ year := Nat.div_le_self _ _
  have hleap : isLeap (year + 1) =
      decide ((year + 1) % 4 = 0 ∧ ((year + 1) % 100 ≠ 0 ∨ (year + 1) % 400 = 0)) := by
    simp [isLeap]
  have h₁ : (year + 1) % 100 = 0 → (year + 1) % 4 = 0 := by omega
  have h₂ : (year + 1) % 400 = 0 → (year + 1) % 100 = 0 := by omega
  rw [daysBeforeYear, daysBeforeYear, daysInYear, hleap]
  simp only [Nat.add_one_sub_one, decide_eq_true_eq, h₄, h₁₀₀, h₄₀₀]
  clear hdiv h₄ h₁₀₀ h₄₀₀ hleap
  generalize (year + 1) % 4 = a, (year + 1) % 100 = b, (year + 1) % 400 = c at *
  split_ifs <;> omega

/-- A year is the months of it. -/
theorem daysBeforeMonth_add_le {leap : Bool} {month day : ℕ} (hmonth : 1 ≤ month ∧ month ≤ 12)
    (hday : day ≤ daysInMonth leap month) : daysBeforeMonth leap month + day ≤ daysInYear leap := by
  obtain ⟨hlow, hhigh⟩ := hmonth
  have hyear : daysBeforeMonth leap 13 = daysInYear leap := by cases leap <;> rfl
  have hmono : Monotone (daysBeforeMonth leap) := by
    refine monotone_nat_of_le_succ fun n => ?_
    cases n with
    | zero => exact Nat.le_refl _
    | succ n => exact Nat.le_add_right _ _
  obtain ⟨n, rfl⟩ := Nat.exists_eq_add_of_le' hlow
  have hnext : daysBeforeMonth leap (n + 2) =
      daysBeforeMonth leap (n + 1) + daysInMonth leap (n + 1) := rfl
  have hle := hmono (show n + 2 ≤ 13 by omega)
  omega

namespace Fields

variable {f g : Fields}

/-- Different dates have different ordinals. -/
theorem date_eq_of_ordinal_eq (hf : f.IsValid) (hg : g.IsValid) (h : f.ordinal = g.ordinal) :
    f.year = g.year ∧ f.month = g.month ∧ f.day = g.day := by
  obtain ⟨⟨hfy, -⟩, hfm, hfd, -⟩ := hf
  obtain ⟨⟨hgy, -⟩, hgm, hgd, -⟩ := hg
  have hfl := daysBeforeMonth_add_le hfm hfd.2
  have hgl := daysBeforeMonth_add_le hgm hgd.2
  have hyear : f.year - 1 = g.year - 1 ∧ _ :=
    eq_of_add_eq (fun n => daysBeforeYear (n + 1)) (fun n => daysInYear (isLeap (n + 1)))
      (fun n => (daysBeforeYear_succ n).ge)
      (i := daysBeforeMonth (isLeap f.year) f.month + f.day)
      (j := daysBeforeMonth (isLeap g.year) g.month + g.day)
      (by rw [Nat.sub_add_cancel hfy]; omega) (by rw [Nat.sub_add_cancel hgy]; omega)
      (by
        rw [ordinal, ordinal, Nat.add_assoc, Nat.add_assoc] at h
        rw [Nat.sub_add_cancel hfy, Nat.sub_add_cancel hgy]
        exact h)
  have hy : f.year = g.year := by omega
  have hrest := hyear.2
  rw [← hy] at hrest hgd
  have hmonth : f.month - 1 = g.month - 1 ∧ f.day = g.day :=
    eq_of_add_eq (fun n => daysBeforeMonth (isLeap f.year) (n + 1))
      (fun n => daysInMonth (isLeap f.year) (n + 1)) (fun n => Nat.le_refl _)
      (by rw [Nat.sub_add_cancel hfm.1]; exact hfd) (by rw [Nat.sub_add_cancel hgm.1]; exact hgd)
      (by rw [Nat.sub_add_cancel hfm.1, Nat.sub_add_cancel hgm.1]; exact hrest)
  exact ⟨hy, by omega, hmonth.2⟩

theorem eq_of_instant_eq (hf : f.IsValid) (hg : g.IsValid) (h : f.instant = g.instant) : f = g := by
  obtain ⟨-, -, -, hfh, hfm, hfs, hfu⟩ := id hf
  obtain ⟨-, -, -, hgh, hgm, hgs, hgu⟩ := id hg
  rw [instant, instant] at h
  obtain ⟨hy, hm, hd⟩ := date_eq_of_ordinal_eq hf hg (by omega)
  have hhour : f.hour = g.hour := by omega
  have hminute : f.minute = g.minute := by omega
  have hsecond : f.second = g.second := by omega
  have hmicrosecond : f.microsecond = g.microsecond := by omega
  cases f
  cases g
  simp only at hy hm hd hhour hminute hsecond hmicrosecond
  rw [hy, hm, hd, hhour, hminute, hsecond, hmicrosecond]

end Fields

/-- **Different times are different instants.** -/
theorem Datetime.instant_injective : Function.Injective fun t : Datetime => t.instant := by
  rintro ⟨f, hf⟩ ⟨g, hg⟩ h
  obtain rfl := Fields.eq_of_instant_eq hf hg h
  rfl

/-- Times are ordered by their instants. -/
instance : LinearOrder Datetime := LinearOrder.lift' _ Datetime.instant_injective

/-! ### The ISO format -/

/-- So many digits of a number. -/
def paddedDigits : ℕ → ℕ → List ℕ
  | 0, _ => []
  | k + 1, n => paddedDigits k (n / 10) ++ [48 + n % 10]

/-- `datetime.isoformat()` of a time in UTC. -/
def Datetime.isoformat (t : Datetime) : List ℕ :=
  paddedDigits 4 t.year ++ 45 :: (paddedDigits 2 t.month ++ 45 :: (paddedDigits 2 t.day ++ 84 ::
    (paddedDigits 2 t.hour ++ 58 :: (paddedDigits 2 t.minute ++ 58 :: (paddedDigits 2 t.second ++
      ((if t.microsecond = 0 then [] else 46 :: paddedDigits 6 t.microsecond) ++
        [43, 48, 48, 58, 48, 48]))))))

/-- A check, whose failure is a `ValueError`. -/
def require (p : Prop) [Decidable p] : Option Unit := if p then some () else none

/-- A number of so many digits, and what comes after it. -/
def readFixed (k : ℕ) (text : List ℕ) : Option (ℕ × List ℕ) :=
  if (text.take k).length = k ∧ (text.take k).all isDigit then
    some (ofDecimal (text.take k), text.drop k)
  else none

/-- The microseconds of a fraction of a second; after six digits the others are passed over. -/
def readFraction (text : List ℕ) : Option ℕ :=
  if text ≠ [] ∧ text.all isDigit then
    some (ofDecimal (text.take 6) * 10 ^ (6 - (text.take 6).length))
  else none

/-- `_parse_hh_mm_ss_ff` -/
def parseClock (text : List ℕ) : Option (ℕ × ℕ × ℕ × ℕ) := do
  let (hour, rest) ← readFixed 2 text
  if rest = [] then return (hour, 0, 0, 0)
  let hasSep := rest.head? = some 58
  let (minute, rest) ← readFixed 2 (if hasSep then rest.tail else rest)
  if rest = [] then return (hour, minute, 0, 0)
  require (hasSep → rest.head? = some 58)
  let (second, rest) ← readFixed 2 (if hasSep then rest.tail else rest)
  if rest = [] then return (hour, minute, second, 0)
  require (rest.head? = some 46 ∨ rest.head? = some 44)
  let microsecond ← readFraction rest.tail
  return (hour, minute, second, microsecond)

/-- A time of day, and the offset after it with its sign: the first minus, or else the first plus,
or else the first `Z`. -/
def splitOffset (text : List ℕ) : List ℕ × Option (ℕ × List ℕ) :=
  match splitFirst 45 text, splitFirst 43 text, splitFirst 90 text with
  | some (clock, offset), _, _ => (clock, some (45, offset))
  | none, some (clock, offset), _ => (clock, some (43, offset))
  | none, none, some (clock, offset) => (clock, some (90, offset))
  | none, none, none => (text, none)

/-- The microseconds of an offset. -/
def parseOffset (sign : ℕ) (text : List ℕ) : Option ℤ := do
  if sign = 90 ∧ text = [] then return 0
  require (text.length ≠ 0 ∧ text.length ≠ 1 ∧ text.length ≠ 3)
  let (hour, minute, second, microsecond) ← parseClock text
  let offset := ((hour * 60 + minute) * 60 + second) * 1000000 + microsecond
  require (offset < 86400000000)
  return if sign = 45 then -(offset : ℤ) else offset

/-- `_parse_isoformat_time` -/
def parseTime (text : List ℕ) : Option ((ℕ × ℕ × ℕ × ℕ) × Option ℤ) := do
  require (2 ≤ text.length)
  let (clock, offset) := splitOffset text
  let clock ← parseClock clock
  let offset ← offset.mapM fun o => parseOffset o.1 o.2
  return (clock, offset)

/-- `datetime.fromisoformat(text)`, but for dates without dashes and dates by the week: the fields
and the offset; `none` is a `ValueError`. -/
def fromisoformat (text : List ℕ) : Option (Fields × Option ℤ) := do
  let (year, rest) ← readFixed 4 text
  require (rest.head? = some 45)
  let (month, rest) ← readFixed 2 rest.tail
  require (rest.head? = some 45)
  let (day, rest) ← readFixed 2 rest.tail
  -- one character separates the date from the time, whatever it is
  let ((hour, minute, second, microsecond), offset) ←
    if rest.tail = [] then some ((0, 0, 0, 0), none) else parseTime rest.tail
  let f : Fields := ⟨year, month, day, hour, minute, second, microsecond⟩
  require f.IsValid
  return (f, offset)

@[simp] theorem length_paddedDigits (k n : ℕ) : (paddedDigits k n).length = k := by
  induction k generalizing n with
  | zero => rfl
  | succ k ih => simp [paddedDigits, ih]

theorem isDigit_of_mem_paddedDigits {k n c : ℕ} (h : c ∈ paddedDigits k n) : isDigit c = true := by
  induction k generalizing n with
  | zero => cases h
  | succ k ih =>
    rcases List.mem_append.mp h with h | h
    · exact ih h
    · rw [List.mem_singleton.mp h, isDigit, Bool.and_eq_true, decide_eq_true_iff,
        decide_eq_true_iff]
      omega

theorem ofDecimal_paddedDigits (k n : ℕ) : ofDecimal (paddedDigits k n) = n % 10 ^ k := by
  induction k generalizing n with
  | zero => rw [Nat.pow_zero, Nat.mod_one]; rfl
  | succ k ih =>
    rw [ofDecimal, paddedDigits, List.foldl_append, List.foldl_cons, List.foldl_nil, ← ofDecimal,
      ih, Nat.pow_succ, Nat.mul_comm (10 ^ k), Nat.mod_mul]
    omega

/-- A number of so many digits is read. -/
theorem readFixed_paddedDigits {k n : ℕ} (h : n < 10 ^ k) (rest : List ℕ) :
    readFixed k (paddedDigits k n ++ rest) = some (n, rest) := by
  have htake : (paddedDigits k n ++ rest).take k = paddedDigits k n :=
    List.take_left' (length_paddedDigits k n)
  have hdrop : (paddedDigits k n ++ rest).drop k = rest :=
    List.drop_left' (length_paddedDigits k n)
  rw [readFixed, htake, hdrop, ofDecimal_paddedDigits, Nat.mod_eq_of_lt h,
    if_pos ⟨length_paddedDigits k n, List.all_eq_true.mpr fun c => isDigit_of_mem_paddedDigits⟩]

/-- The time of day of a text in the ISO format. -/
def clockText (f : Fields) : List ℕ :=
  paddedDigits 2 f.hour ++ 58 :: (paddedDigits 2 f.minute ++ 58 :: (paddedDigits 2 f.second ++
    if f.microsecond = 0 then [] else 46 :: paddedDigits 6 f.microsecond))

theorem isoformat_eq (t : Datetime) : t.isoformat = paddedDigits 4 t.year ++ 45 ::
    (paddedDigits 2 t.month ++ 45 :: (paddedDigits 2 t.day ++ 84 ::
      (clockText t.toFields ++ 43 :: [48, 48, 58, 48, 48]))) := by
  simp only [Datetime.isoformat, clockText, List.append_assoc, List.cons_append]

theorem readFraction_paddedDigits {n : ℕ} (h : n < 1000000) :
    readFraction (paddedDigits 6 n) = some n := by
  have htake : (paddedDigits 6 n).take 6 = paddedDigits 6 n :=
    List.take_of_length_le (length_paddedDigits 6 n).le
  have hne : paddedDigits 6 n ≠ [] := by
    rw [← List.length_pos_iff, length_paddedDigits]
    decide
  have hvalue : ofDecimal (paddedDigits 6 n) = n :=
    (ofDecimal_paddedDigits 6 n).trans (Nat.mod_eq_of_lt h)
  rw [readFraction, if_pos ⟨hne, List.all_eq_true.mpr fun c => isDigit_of_mem_paddedDigits⟩, htake,
    hvalue, length_paddedDigits, Nat.sub_self, Nat.pow_zero, Nat.mul_one]

theorem parseClock_clockText {f : Fields} (h : f.IsValid) :
    parseClock (clockText f) = some (f.hour, f.minute, f.second, f.microsecond) := by
  obtain ⟨-, -, -, hh, hm, hs, hu⟩ := h
  have hhour := fun rest => readFixed_paddedDigits (k := 2) (n := f.hour) (by omega) rest
  have hminute := fun rest => readFixed_paddedDigits (k := 2) (n := f.minute) (by omega) rest
  have hsecond := fun rest => readFixed_paddedDigits (k := 2) (n := f.second) (by omega) rest
  have hlast := hsecond []
  rw [List.append_nil] at hlast
  by_cases hzero : f.microsecond = 0
  · simp [require, parseClock, clockText, hhour, hminute, hlast, hzero]
  · simp [require, parseClock, clockText, hhour, hminute, hsecond, hzero,
      readFraction_paddedDigits hu]

theorem cases_of_mem_clockText {f : Fields} {c : ℕ} (h : c ∈ clockText f) :
    isDigit c = true ∨ c = 58 ∨ c = 46 := by
  simp only [clockText, List.mem_append, List.mem_cons] at h
  rcases h with h | rfl | h | rfl | h | h
  · exact .inl (isDigit_of_mem_paddedDigits h)
  · exact .inr (.inl rfl)
  · exact .inl (isDigit_of_mem_paddedDigits h)
  · exact .inr (.inl rfl)
  · exact .inl (isDigit_of_mem_paddedDigits h)
  · split at h
    · cases h
    · rcases List.mem_cons.mp h with rfl | h
      · exact .inr (.inr rfl)
      · exact .inl (isDigit_of_mem_paddedDigits h)

/-- Every character is a digit, a colon, a dot, a dash, a plus or a `T`. -/
theorem lt_of_mem_isoformat {t : Datetime} {c : ℕ} (h : c ∈ t.isoformat) : c ≤ 84 := by
  have hdigit {c : ℕ} (hc : isDigit c = true) : c ≤ 84 := by
    simp only [isDigit, Bool.and_eq_true, decide_eq_true_eq] at hc
    omega
  rw [isoformat_eq] at h
  simp only [List.mem_append, List.mem_cons, List.not_mem_nil, or_false] at h
  rcases h with h | rfl | h | rfl | h | rfl | h | h
  · exact hdigit (isDigit_of_mem_paddedDigits h)
  · decide
  · exact hdigit (isDigit_of_mem_paddedDigits h)
  · decide
  · exact hdigit (isDigit_of_mem_paddedDigits h)
  · decide
  · rcases cases_of_mem_clockText h with h | rfl | rfl
    · exact hdigit h
    · decide
    · decide
  · omega

/-- The offset is found behind the time of day. -/
theorem splitOffset_clockText (f : Fields) (offset : List ℕ) (h : 45 ∉ offset) :
    splitOffset (clockText f ++ 43 :: offset) = (clockText f, some (43, offset)) := by
  have hplus : 43 ∉ clockText f := fun hc => absurd (cases_of_mem_clockText hc) (by decide)
  have hminus : 45 ∉ clockText f ++ 43 :: offset := by
    intro hc
    rcases List.mem_append.mp hc with hc | hc
    · exact absurd (cases_of_mem_clockText hc) (by decide)
    · rcases List.mem_cons.mp hc with hc | hc
      · cases hc
      · exact h hc
  rw [splitOffset, splitFirst_of_not_mem hminus, splitFirst_append hplus]

/-- **What was written is read.** -/
theorem fromisoformat_isoformat (t : Datetime) :
    fromisoformat t.isoformat = some (t.toFields, some 0) := by
  have hvalid := t.isValid
  obtain ⟨hy, hm, hd, -⟩ := id hvalid
  have hlength : daysInMonth (isLeap t.year) t.month ≤ 31 := by
    unfold daysInMonth
    split
    · split <;> decide
    all_goals decide
  have hyear := fun rest => readFixed_paddedDigits (k := 4) (n := t.year) (by omega) rest
  have hmonth := fun rest => readFixed_paddedDigits (k := 2) (n := t.month) (by omega) rest
  have hday := fun rest => readFixed_paddedDigits (k := 2) (n := t.day) (by omega) rest
  have htime : parseTime (clockText t.toFields ++ 43 :: [48, 48, 58, 48, 48]) =
      some ((t.hour, t.minute, t.second, t.microsecond), some 0) := by
    have hoffset : parseOffset 43 [48, 48, 58, 48, 48] = some 0 := by decide
    simp [require, parseTime, splitOffset_clockText, parseClock_clockText hvalid, hoffset]
  rw [isoformat_eq, fromisoformat]
  simp [require, hyear, hmonth, hday, htime, hvalid]
