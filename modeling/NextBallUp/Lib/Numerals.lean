import NextBallUp.Lib.Texts
import Mathlib.Algebra.Group.Nat.Defs
import Mathlib.Data.Int.Notation
import Mathlib.Data.Nat.Notation

/-!
# Numerals

Numbers as Python writes them, as sequences of code points.

## Main definitions

* `decimal`, `decimalInt`: the decimal numeral of a number
* `ofDecimal`: the number that a sequence of decimal digits denotes
* `hexDigits`: so many hexadecimal digits of a number
* `ofHexDigits`: the number that a sequence of hexadecimal digits denotes
* `DigitTable.readInt`, `DigitTable.readHex`: what `int` makes of a text
* `bigEndian`: so many bytes of a number

## Main results

* `ofDecimal_decimal`: **a number is read as it was written**
* `DigitTable.readInt_decimalInt`, `DigitTable.readHex_hexDigits`: also by `int`
* `length_decimal_le_iff`: how long a decimal numeral is
* `bigEndian_inj`: bytes determine the number
-/

/-! ### Decimal numerals -/

/-- `str(n)` -/
def decimal (n : ℕ) : List ℕ := (Nat.toDigits 10 n).map Char.toNat

/-- `str(n)` for an integer. -/
def decimalInt : ℤ → List ℕ
  | .ofNat n => decimal n
  | .negSucc n => 45 :: decimal (n + 1)

/-- The number that a sequence of digits denotes. -/
def ofDecimal (digits : List ℕ) : ℕ := digits.foldl (fun n c => 10 * n + (c - 48)) 0

theorem ofDecimal_decimal (n : ℕ) : ofDecimal (decimal n) = n := by
  have h : Nat.ofDigitChars 10 (Nat.toDigits 10 n) 0 = n := Nat.ofDigitChars_ten_toDigits
  rw [Nat.ofDigitChars_eq_foldl] at h
  rw [ofDecimal, decimal, List.foldl_map]
  exact h

theorem digit_of_mem_decimal {n c : ℕ} (h : c ∈ decimal n) : 48 ≤ c ∧ c ≤ 57 := by
  obtain ⟨d, hd, rfl⟩ := List.mem_map.mp h
  have hdigit : d.isDigit = true := Nat.isDigit_of_mem_toDigits (by decide) (by decide) hd
  simpa [Char.isDigit, UInt32.le_iff_toNat_le] using hdigit

theorem isDigit_of_mem_decimal {n c : ℕ} (h : c ∈ decimal n) : isDigit c = true := by
  have hc := digit_of_mem_decimal h
  simp only [isDigit, Bool.and_eq_true, decide_eq_true_eq]
  exact hc

theorem decimal_ne_nil (n : ℕ) : decimal n ≠ [] := by
  simp [decimal]

theorem length_decimal_le_iff {n k : ℕ} (h : 0 < k) : (decimal n).length ≤ k ↔ n < 10 ^ k := by
  rw [decimal, List.length_map]
  exact Nat.length_toDigits_le_iff (by decide) h

theorem decimal_of_lt {n : ℕ} (h : n < 10) : decimal n = [48 + n] := by
  rw [decimal, Nat.toDigits_of_lt_base h, List.map_singleton]
  have hd := Nat.toNat_digitChar_sub_48_of_lt_ten h
  have hm : (Nat.digitChar n).toNat ∈ decimal n := by
    rw [decimal, Nat.toDigits_of_lt_base h]
    exact List.mem_singleton_self _
  have hge := (digit_of_mem_decimal hm).1
  congr 1
  omega

theorem decimal_of_ge {n : ℕ} (h : 10 ≤ n) : decimal n = decimal (n / 10) ++ decimal (n % 10) := by
  have hlt : n % 10 < 10 := Nat.mod_lt n (by decide)
  rw [decimal, Nat.toDigits_of_base_le (by decide) h, List.map_append,
    ← Nat.toDigits_of_lt_base hlt]
  rfl

/-- A numeral begins with a digit other than zero, unless the number is zero. -/
theorem decimal_eq_cons {n : ℕ} (h : n ≠ 0) :
    ∃ c rest, decimal n = c :: rest ∧ 49 ≤ c ∧ c ≤ 57 := by
  induction n using Nat.strongRecOn with
  | ind n ih =>
    by_cases hlt : n < 10
    · exact ⟨48 + n, [], decimal_of_lt hlt, by omega, by omega⟩
    · obtain ⟨c, rest, hc, hle⟩ := ih (n / 10) (by omega) (by omega)
      exact ⟨c, rest ++ decimal (n % 10), by rw [decimal_of_ge (by omega), hc]; rfl, hle⟩

/-! ### Hexadecimal digits -/

def hexChar (d : ℕ) : ℕ := if d < 10 then 48 + d else 87 + d

/-- The last hexadecimal digits of a number, so many of them. -/
def hexDigits : ℕ → ℕ → List ℕ
  | 0, _ => []
  | k + 1, n => hexDigits k (n / 16) ++ [hexChar (n % 16)]

@[simp] theorem length_hexDigits (k n : ℕ) : (hexDigits k n).length = k := by
  induction k generalizing n with
  | zero => rfl
  | succ k ih => simp [hexDigits, ih]

/-- A hexadecimal digit is a decimal one or one of the letters from `a` to `f`. -/
theorem hexChar_cases {d : ℕ} (h : d < 16) :
    48 ≤ hexChar d ∧ hexChar d ≤ 57 ∨ 97 ≤ hexChar d ∧ hexChar d ≤ 102 := by
  unfold hexChar
  split <;> omega

theorem exists_of_mem_hexDigits {k n c : ℕ} (h : c ∈ hexDigits k n) : ∃ d < 16, c = hexChar d := by
  induction k generalizing n with
  | zero => cases h
  | succ k ih =>
    rw [hexDigits] at h
    rcases List.mem_append.mp h with h | h
    · exact ih h
    · exact ⟨n % 16, Nat.mod_lt _ (by decide), List.mem_singleton.mp h⟩

/-- The value of a hexadecimal digit. -/
def hexValue (c : ℕ) : Option ℕ :=
  if 48 ≤ c ∧ c ≤ 57 then some (c - 48)
  else if 97 ≤ c ∧ c ≤ 102 then some (c - 87)
  else if 65 ≤ c ∧ c ≤ 70 then some (c - 55)
  else none

/-- The number that a sequence of hexadecimal digits denotes. -/
def ofHexDigits (digits : List ℕ) : ℕ := digits.foldl (fun n c => 16 * n + (hexValue c).getD 0) 0

theorem hexValue_hexChar {d : ℕ} (h : d < 16) : hexValue (hexChar d) = some d := by
  unfold hexValue hexChar
  split_ifs <;> first | omega | (congr 1; omega)

theorem ofHexDigits_hexDigits (k n : ℕ) : ofHexDigits (hexDigits k n) = n % 16 ^ k := by
  induction k generalizing n with
  | zero => rw [Nat.pow_zero, Nat.mod_one]; rfl
  | succ k ih =>
    have hlast : (hexValue (hexChar (n % 16))).getD 0 = n % 16 := by
      rw [hexValue_hexChar (Nat.mod_lt _ (by decide))]
      rfl
    rw [ofHexDigits, hexDigits, List.foldl_append, List.foldl_cons, List.foldl_nil, hlast,
      ← ofHexDigits, ih, Nat.pow_succ, Nat.mul_comm (16 ^ k), Nat.mod_mul]
    omega

/-! ### What `int` reads -/

/-- What the Unicode database says of the characters after the ASCII ones. -/
structure DigitTable where
  isSpace : ℕ → Bool
  /-- The value of a decimal digit. -/
  digit : ℕ → Option ℕ

namespace DigitTable

/-- None of them is a digit or white space. -/
def ascii : DigitTable := ⟨fun _ => false, fun _ => none⟩

variable (T : DigitTable)

/-- `_PyUnicode_TransformDecimalAndSpaceToASCII`, a character of it. -/
def toAscii (c : ℕ) : ℕ :=
  if c < 127 then c
  else if T.isSpace c then 32
  else
    match T.digit c with
    | some v => 48 + v
    | none => 63

/-- A sequence of digits. -/
def isDigits (part : List ℕ) : Bool := part ≠ [] && part.all isDigit

/-- Digits, with single underscores between them; `none` is a `ValueError`. -/
def readDigits (body : List ℕ) : Option ℕ :=
  if (body.splitOn 95).all isDigits ∧ (body.filter (· ≠ 95)).length ≤ 4300 then
    some (ofDecimal (body.filter (· ≠ 95)))
  else none

def isAsciiSpace (c : ℕ) : Bool := (9 ≤ c && c ≤ 13) || c = 32

/-- `int(text)`; `none` is a `ValueError`. -/
def readInt (text : List ℕ) : Option ℤ :=
  match ((text.map T.toAscii).dropWhile isAsciiSpace).rdropWhile isAsciiSpace with
  | 45 :: body => (readDigits body).map fun n : ℕ => -(n : ℤ)
  | 43 :: body => (readDigits body).map fun n : ℕ => (n : ℤ)
  | body => (readDigits body).map fun n : ℕ => (n : ℤ)

theorem readDigits_decimal {n : ℕ} (h : (decimal n).length ≤ 4300) :
    readDigits (decimal n) = some n := by
  have hmem : 95 ∉ decimal n := fun hc => by
    have hdigit := digit_of_mem_decimal hc
    omega
  have hfilter : (decimal n).filter (· ≠ 95) = decimal n :=
    List.filter_eq_self.mpr fun c hc => decide_eq_true fun he => hmem (he ▸ hc)
  rw [readDigits, List.splitOn_eq_singleton hmem, hfilter, if_pos, ofDecimal_decimal]
  refine ⟨?_, h⟩
  rw [List.all_cons, List.all_nil, Bool.and_true, isDigits, decide_eq_true (decimal_ne_nil n),
    Bool.true_and, List.all_eq_true]
  exact fun c hc => isDigit_of_mem_decimal hc

/-- What is read is what was written, if that has no white space and no other scripts. -/
theorem stripped_eq {text : List ℕ} (h : ∀ c ∈ text, c < 127 ∧ ¬ isAsciiSpace c = true) :
    ((text.map T.toAscii).dropWhile isAsciiSpace).rdropWhile isAsciiSpace = text := by
  have hascii : text.map T.toAscii = text := by
    conv_rhs => rw [← List.map_id text]
    exact List.map_congr_left fun c hc => if_pos (h c hc).1
  rw [hascii]
  exact strip_eq fun c hc => (h c hc).2

theorem not_isAsciiSpace_of_lt {c : ℕ} (h : 33 ≤ c) : ¬ isAsciiSpace c = true := by
  simp only [isAsciiSpace, Bool.or_eq_true, Bool.and_eq_true, decide_eq_true_eq]
  omega

/-- Numerals stay as they are. -/
theorem plain_of_mem_decimal {n c : ℕ} (h : c ∈ decimal n) : c < 127 ∧ ¬ isAsciiSpace c = true := by
  obtain ⟨hlow, hhigh⟩ := digit_of_mem_decimal h
  exact ⟨by omega, not_isAsciiSpace_of_lt (by omega)⟩

/-- **A number that was written is read.** -/
theorem readInt_decimal {n : ℕ} (h : (decimal n).length ≤ 4300) :
    T.readInt (decimal n) = some (n : ℤ) := by
  have hread := readDigits_decimal h
  rw [readInt, T.stripped_eq fun c => plain_of_mem_decimal]
  cases hd : decimal n with
  | nil => exact (decimal_ne_nil n hd).elim
  | cons c rest =>
    have hdigit := digit_of_mem_decimal (hd ▸ List.mem_cons_self : c ∈ decimal n)
    rw [hd] at hread
    split
    next heq =>
      obtain ⟨rfl, -⟩ := List.cons.inj heq
      omega
    next heq =>
      obtain ⟨rfl, -⟩ := List.cons.inj heq
      omega
    next =>
      rw [hread]
      rfl

/-- The same for negative numbers. -/
theorem readInt_decimalInt {n : ℤ} (h : (decimal n.natAbs).length ≤ 4300) :
    T.readInt (decimalInt n) = some n := by
  cases n with
  | ofNat n => exact T.readInt_decimal h
  | negSucc n =>
    have hplain : ∀ c ∈ 45 :: decimal (n + 1), c < 127 ∧ ¬ isAsciiSpace c = true := by
      intro c hc
      rcases List.mem_cons.mp hc with rfl | hc
      · decide
      · exact plain_of_mem_decimal hc
    have hread : readDigits (decimal (n + 1)) = some (n + 1) := readDigits_decimal h
    rw [decimalInt, readInt, T.stripped_eq hplain]
    split
    next heq =>
      rw [← (List.cons.inj heq).2, hread]
      rfl
    next heq => cases heq
    next hminus _ => exact (hminus _ rfl).elim

/-- Hexadecimal digits, with single underscores between them. -/
def readHexDigits (body : List ℕ) : Option ℕ :=
  if (body.splitOn 95).all fun part => part ≠ [] && part.all fun c => (hexValue c).isSome then
    some (ofHexDigits (body.filter (· ≠ 95)))
  else none

/-- What comes after `0x`, which may be there, and an underscore after it. -/
def afterPrefix : List ℕ → List ℕ
  | 48 :: 120 :: 95 :: body | 48 :: 88 :: 95 :: body => body
  | 48 :: 120 :: body | 48 :: 88 :: body => body
  | body => body

/-- `int(text, 16)`; `none` is a `ValueError`. -/
def readHex (text : List ℕ) : Option ℤ :=
  match ((text.map T.toAscii).dropWhile isAsciiSpace).rdropWhile isAsciiSpace with
  | 45 :: body => (readHexDigits (afterPrefix body)).map fun n : ℕ => -(n : ℤ)
  | 43 :: body => (readHexDigits (afterPrefix body)).map fun n : ℕ => (n : ℤ)
  | body => (readHexDigits (afterPrefix body)).map fun n : ℕ => (n : ℤ)

theorem afterPrefix_of_not_mem {body : List ℕ} (hlow : 120 ∉ body) (hhigh : 88 ∉ body) :
    afterPrefix body = body := by
  unfold afterPrefix
  split
  · simp at hlow
  · simp at hhigh
  · simp at hlow
  · simp at hhigh
  · rfl

theorem readHexDigits_hexDigits {k n : ℕ} (hk : 0 < k) (h : n < 16 ^ k) :
    readHexDigits (hexDigits k n) = some n := by
  have hmem : ∀ c ∈ hexDigits k n, c ≠ 95 ∧ (hexValue c).isSome = true := by
    intro c hc
    obtain ⟨d, hd, rfl⟩ := exists_of_mem_hexDigits hc
    have hcases := hexChar_cases hd
    exact ⟨by omega, by rw [hexValue_hexChar hd]; rfl⟩
  have hfilter : (hexDigits k n).filter (· ≠ 95) = hexDigits k n :=
    List.filter_eq_self.mpr fun c hc => decide_eq_true (hmem c hc).1
  have hne : hexDigits k n ≠ [] := by
    rw [← List.length_pos_iff, length_hexDigits]
    exact hk
  rw [readHexDigits, List.splitOn_eq_singleton fun hc => (hmem 95 hc).1 rfl, hfilter, if_pos,
    ofHexDigits_hexDigits, Nat.mod_eq_of_lt h]
  rw [List.all_cons, List.all_nil, Bool.and_true, decide_eq_true hne, Bool.true_and,
    List.all_eq_true]
  exact fun c hc => (hmem c hc).2

/-- **A number that was written in hexadecimal digits is read.** -/
theorem readHex_hexDigits {k n : ℕ} (hk : 0 < k) (h : n < 16 ^ k) :
    T.readHex (hexDigits k n) = some (n : ℤ) := by
  have hmem {c : ℕ} (hc : c ∈ hexDigits k n) : 48 ≤ c ∧ c ≤ 57 ∨ 97 ≤ c ∧ c ≤ 102 := by
    obtain ⟨d, hd, rfl⟩ := exists_of_mem_hexDigits hc
    exact hexChar_cases hd
  have hnot (c : ℕ) (hc : c = 120 ∨ c = 88) : c ∉ hexDigits k n := by
    intro hin
    have := hmem hin
    omega
  have hread : readHexDigits (afterPrefix (hexDigits k n)) = some n := by
    rw [afterPrefix_of_not_mem (hnot 120 (.inl rfl)) (hnot 88 (.inr rfl)),
      readHexDigits_hexDigits hk h]
  rw [readHex, T.stripped_eq fun c hc => by
    have := hmem hc
    exact ⟨by omega, not_isAsciiSpace_of_lt (by omega)⟩]
  split
  next body heq =>
    have := hmem (heq ▸ List.mem_cons_self : 45 ∈ hexDigits k n)
    omega
  next body heq =>
    have := hmem (heq ▸ List.mem_cons_self : 43 ∈ hexDigits k n)
    omega
  next =>
    rw [hread]
    rfl

end DigitTable

/-! ### Bytes -/

/-- The last bytes of a number, so many of them, from the highest to the lowest. -/
def bigEndian : ℕ → ℕ → List ℕ
  | 0, _ => []
  | k + 1, n => bigEndian k (n / 256) ++ [n % 256]

theorem bigEndian_inj {k m n : ℕ} (hm : m < 256 ^ k) (hn : n < 256 ^ k)
    (h : bigEndian k m = bigEndian k n) : m = n := by
  induction k generalizing m n with
  | zero => omega
  | succ k ih =>
    obtain ⟨hhigh, hlow⟩ := List.append_inj' h rfl
    rw [Nat.pow_succ] at hm hn
    have hdiv := ih (Nat.div_lt_of_lt_mul (by omega)) (Nat.div_lt_of_lt_mul (by omega)) hhigh
    have hmod : m % 256 = n % 256 := (List.cons.inj hlow).1
    omega
