import NextBallUp.Lib.Datetimes
import NextBallUp.Lib.Doubles
import NextBallUp.Lib.Json
import NextBallUp.Lib.Texts
import Mathlib.Data.Nat.Multiplicity

/-!
# Writing numbers in double precision

How Python writes floating point: with the fewest digits that are read as the same number, or with a
given number of decimals. What it writes for a quotient by 1000 is the quotient, as long as the
numbers are not so large that their neighbours are nearly 1/1000 apart.

## Main definitions

* `Double.shortest`: the fewest digits that are read as the number
* `Double.repr`, `Double.toFixed`, `Double.roundTo`: `repr(x)`, `format(x, ".3f")` and `round(x, 3)`
* `readDecimal`: the number that a text with a point denotes

## Main results

* `abs_sub_le_of_ofRat`: how far a number is from the rational it stands for
* `toFixed_thousandths`, `roundTo_thousandths`, `repr_thousandths`: **thousandths are written
  exactly**

## What is deliberately absent

The sign of zero.
-/

variable {q x : ℚ} {k m n : ℕ} {e : ℤ}

/-- The digits of a number, with a point before the last of them. -/
def fixedText (decimals n : ℕ) : List ℕ :=
  decimal (n / 10 ^ decimals) ++ 46 :: paddedDigits decimals (n % 10 ^ decimals)

/-- The number that is written with a point. -/
def readDecimal (text : List ℕ) : Option ℚ :=
  (splitFirst 46 text).map fun (whole, fraction) =>
    ofDecimal whole + ofDecimal fraction / 10 ^ fraction.length

namespace Double

/-- The multiple of a power of ten that is read as the number, and of two the nearer one. -/
def candidate (q : ℚ) (e : ℤ) : Option ℕ :=
  let below := ⌊q / 10 ^ e⌋.toNat
  let reads (m : ℕ) := ofRat (m * 10 ^ e) = .finite q
  let toBelow := q - below * 10 ^ e
  let toAbove := (below + 1 : ℕ) * 10 ^ e - q
  if reads below ∧
      (¬reads (below + 1) ∨ toBelow < toAbove ∨ (toBelow = toAbove ∧ below % 2 = 0)) then some below
  else if reads (below + 1) then some (below + 1)
  else none

/-- The search from a power of ten downwards. -/
def search (q : ℚ) : ℕ → ℤ → Option (ℕ × ℤ)
  | 0, _ => none
  | fuel + 1, e =>
    match candidate q e with
    | some m => some (m, e)
    | none => search q fuel (e - 1)

/-- The fewest digits, and the power of ten of the last of them. 17 digits are always enough. -/
def shortest (q : ℚ) : Option (ℕ × ℤ) := search q 18 (Int.log 10 q + 1)

def signText (q : ℚ) : List ℕ := if q < 0 then [45] else []

/-- A number with digits before and after the point, or with an exponent. -/
def digitsText (m : ℕ) (e : ℤ) : List ℕ :=
  let decpt := (decimal m).length + e
  if -4 < decpt ∧ decpt ≤ 16 then
    match e with
    | .ofNat e => decimal (m * 10 ^ e) ++ [46, 48]
    | .negSucc e => fixedText (e + 1) m
  else
    let digits := decimal m
    let exponent := decimal (decpt - 1).natAbs
    digits.take 1 ++ (if digits.length = 1 then [] else 46 :: digits.drop 1) ++
      [101, if decpt < 1 then 45 else 43] ++ List.replicate (2 - exponent.length) 48 ++ exponent

def nonFinite : Double → List ℕ
  | .infinity true => "-inf".codePoints
  | .infinity false => "inf".codePoints
  | _ => "nan".codePoints

/-- `repr(x)` -/
def repr : Double → List ℕ
  | .finite q =>
    if q = 0 then [48, 46, 48]
    else signText q ++ ((shortest |q|).map fun d => digitsText d.1 d.2).getD []
  | x => x.nonFinite

/-- `format(x, ".{decimals}f")` -/
def toFixed (decimals : ℕ) : Double → List ℕ
  | .finite q => signText q ++ fixedText decimals (roundEven (|q| * 10 ^ decimals)).toNat
  | x => x.nonFinite

/-- `round(x, decimals)` -/
def roundTo (decimals : ℕ) : Double → Double
  | .finite q => ofRat (roundEven (q * 10 ^ decimals) / 10 ^ decimals)
  | x => x

/-! ### Errors -/

theorem abs_roundEven_sub_le (q : ℚ) : |roundEven q - q| ≤ 1 / 2 := by
  have hf : (q.floor : ℚ) = ⌊q⌋ := rfl
  have hle := Int.floor_le q
  have hlt := Int.lt_floor_add_one q
  unfold roundEven
  dsimp only
  rw [abs_le]
  split_ifs with h₁ h₂ h₃
  · rw [hf] at h₁ ⊢
    constructor <;> linarith
  · rw [hf] at h₂
    push_cast
    rw [hf]
    constructor <;> linarith
  · rw [hf] at h₁ h₂ ⊢
    constructor <;> linarith
  · rw [hf] at h₁ h₂
    push_cast
    rw [hf]
    constructor <;> linarith

/-- A number of so many bits before the point is off by half of its last bit, at most. -/
theorem abs_sub_le_of_ofRat (hpos : 0 < n) (hn : n ≤ 1000) (hq : |q| < 2 ^ n) :
    ∃ x : ℚ, ofRat q = .finite x ∧ |x - q| ≤ 2 ^ ((n : ℤ) - 54) := by
  have hbit := two_zpow_pos (exponent q)
  have hexp : exponent q ≤ (n : ℤ) - 53 := by
    have hlog : Int.log 2 |q| < n ∨ q = 0 := by
      rcases eq_or_ne q 0 with rfl | hne
      · exact .inr rfl
      · exact .inl ((Int.lt_zpow_iff_log_lt (b := 2) (by decide) (abs_pos.mpr hne)).mp
          (by exact_mod_cast hq))
    rcases hlog with hlog | rfl
    · unfold exponent
      omega
    · unfold exponent
      rw [abs_zero, Int.log_zero_right]
      omega
  have herr : |(roundEven (q / 2 ^ exponent q) * 2 ^ exponent q : ℚ) - q| ≤
      2 ^ ((n : ℤ) - 54) := by
    calc |(roundEven (q / 2 ^ exponent q) * 2 ^ exponent q : ℚ) - q|
        = |roundEven (q / 2 ^ exponent q) - q / 2 ^ exponent q| * 2 ^ exponent q := by
          rw [← abs_of_pos hbit, ← abs_mul, abs_of_pos hbit, sub_mul, div_mul_cancel₀ _ hbit.ne']
      _ ≤ 1 / 2 * 2 ^ exponent q := by
          gcongr
          exact abs_roundEven_sub_le _
      _ ≤ 1 / 2 * 2 ^ ((n : ℤ) - 53) := by
          gcongr
          exact one_le_two
      _ = 2 ^ ((n : ℤ) - 54) := by
          rw [show (n : ℤ) - 53 = (n : ℤ) - 54 + 1 by ring, zpow_add_one₀ two_ne_zero]
          ring
  refine ⟨_, ofRat_of_abs_lt ?_, herr⟩
  have hsmall : (2 : ℚ) ^ ((n : ℤ) - 54) ≤ 2 ^ n := by
    rw [← zpow_natCast]
    exact zpow_le_zpow_right₀ one_le_two (by omega)
  calc |(roundEven (q / 2 ^ exponent q) * 2 ^ exponent q : ℚ)|
      ≤ |(roundEven (q / 2 ^ exponent q) * 2 ^ exponent q : ℚ) - q| + |q| := by
        have := abs_add_le ((roundEven (q / 2 ^ exponent q) * 2 ^ exponent q : ℚ) - q) q
        rwa [sub_add_cancel] at this
    _ < 2 ^ n + 2 ^ n := by linarith
    _ = 2 ^ (n + 1) := by ring
    _ ≤ 2 ^ 1024 := pow_le_pow_right₀ one_le_two (by omega)

/-! ### Thousandths -/

/-- The number that stands for a count of thousandths. -/
theorem exists_thousandths (h : k ≤ 2 ^ 52) :
    ∃ x : ℚ, ofRat (k / 1000) = .finite x ∧ |x - k / 1000| < 1 / 2000 := by
  have hk : (k : ℚ) ≤ 2 ^ 52 := by exact_mod_cast h
  have hlt : |(k / 1000 : ℚ)| < 2 ^ 43 := by
    rw [abs_of_nonneg (by positivity)]
    linarith
  obtain ⟨x, hx, herr⟩ := abs_sub_le_of_ofRat (n := 43) (by decide) (by decide) hlt
  refine ⟨x, hx, herr.trans_lt ?_⟩
  norm_num

/-- The count can be told from the number. -/
theorem roundEven_thousandths (h : |x - k / 1000| < 1 / 2000) : roundEven (x * 1000) = k := by
  obtain ⟨hlow, hhigh⟩ := abs_lt.mp h
  have h₁ : (k : ℤ) ≤ roundEven (x * 1000) := by
    refine le_roundEven_of_lt ?_
    push_cast
    linarith
  have h₂ : roundEven (x * 1000) < (k : ℤ) + 1 := by
    refine roundEven_lt ?_
    push_cast
    linarith
  omega

theorem thousandths_nonneg (h : |x - k / 1000| < 1 / 2000) (hx : ofRat (k / 1000) = .finite x) :
    0 ≤ x := by
  rcases Nat.eq_zero_or_pos k with rfl | hk
  · have hzero : ofRat ((0 : ℕ) / 1000 : ℚ) = .finite 0 := by
      rw [Nat.cast_zero, zero_div]
      exact ofRat_natCast (n := 0) (by decide)
    rw [hzero] at hx
    exact (Double.finite.inj hx).le
  · obtain ⟨hlow, -⟩ := abs_lt.mp h
    have hk' : (1 : ℚ) ≤ k := by exact_mod_cast hk
    linarith

/-- **Three decimals are enough.** -/
theorem toFixed_thousandths (h : k ≤ 2 ^ 52) : toFixed 3 (ofRat (k / 1000)) = fixedText 3 k := by
  obtain ⟨x, hx, herr⟩ := exists_thousandths h
  have hnonneg := thousandths_nonneg herr hx
  have hround : (roundEven (|x| * 10 ^ 3)).toNat = k := by
    rw [abs_of_nonneg hnonneg, show (10 : ℚ) ^ 3 = 1000 by norm_num, roundEven_thousandths herr]
    exact Int.toNat_natCast k
  rw [hx, toFixed, signText, if_neg (not_lt.mpr hnonneg), hround]
  rfl

theorem roundTo_thousandths (h : k ≤ 2 ^ 52) : roundTo 3 (ofRat (k / 1000)) = ofRat (k / 1000) := by
  obtain ⟨x, hx, herr⟩ := exists_thousandths h
  rw [hx, roundTo, show (10 : ℚ) ^ 3 = 1000 by norm_num, roundEven_thousandths herr, ← hx]
  norm_num

/-- Different counts are different numbers. -/
theorem eq_of_ofRat_thousandths {j : ℕ} (hj : j ≤ 2 ^ 52) (hk : k ≤ 2 ^ 52)
    (h : ofRat (j / 1000) = ofRat (k / 1000)) : j = k := by
  obtain ⟨x, hx, hx'⟩ := exists_thousandths hj
  obtain ⟨y, hy, hy'⟩ := exists_thousandths hk
  obtain rfl : x = y := Double.finite.inj (hx.symm.trans (h.trans hy))
  have := (roundEven_thousandths hx').symm.trans (roundEven_thousandths hy')
  omega

/-! ### The fewest digits -/

theorem search_eq {e₀ : ℤ} (hm : candidate q e₀ = some m) :
    ∀ (fuel : ℕ) (e : ℤ), e₀ ≤ e → e - e₀ < fuel →
      (∀ e', e₀ < e' → e' ≤ e → candidate q e' = none) → search q fuel e = some (m, e₀) := by
  intro fuel
  induction fuel with
  | zero =>
    intro e h₁ h₂
    omega
  | succ fuel ih =>
    intro e h₁ h₂ hnone
    have hfuel : e - e₀ ≤ fuel := by
      push_cast at h₂
      omega
    show (match candidate q e with | some m => some (m, e) | none => search q fuel (e - 1)) = _
    by_cases he : e₀ = e
    · rw [← he, hm]
    · rw [hnone e (by omega) le_rfl]
      exact ih (e - 1) (by omega) (by omega) fun e' h h' => hnone e' h (by omega)

theorem reads_of_candidate (h : candidate q e = some m) :
    ofRat (m * 10 ^ e) = .finite q ∧ (m = ⌊q / 10 ^ e⌋.toNat ∨ m = ⌊q / 10 ^ e⌋.toNat + 1) := by
  unfold candidate at h
  dsimp only at h
  split_ifs at h with h₁ h₂
  · obtain rfl := Option.some.inj h
    exact ⟨h₁.1, .inl rfl⟩
  · obtain rfl := Option.some.inj h
    exact ⟨h₂, .inr rfl⟩

/-- A multiple next to the number that is the only one to be read as it. -/
theorem candidate_eq (hreads : ofRat (m * 10 ^ e) = .finite q)
    (hnext : m = ⌊q / 10 ^ e⌋.toNat ∨ m = ⌊q / 10 ^ e⌋.toNat + 1)
    (honly : ∀ m' : ℕ, (m' = ⌊q / 10 ^ e⌋.toNat ∨ m' = ⌊q / 10 ^ e⌋.toNat + 1) →
      ofRat (m' * 10 ^ e) = .finite q → m' = m) : candidate q e = some m := by
  unfold candidate
  dsimp only
  rcases hnext with hm | hm
  · rw [← hm]
    refine if_pos ⟨hreads, .inl fun h => ?_⟩
    have := honly (m + 1) (.inr (by rw [hm])) h
    omega
  · have hbelow : ¬ofRat (⌊q / 10 ^ e⌋.toNat * 10 ^ e) = .finite q := by
      intro h
      have := honly _ (.inl rfl) h
      omega
    rw [if_neg fun h => hbelow h.1, ← hm, if_pos hreads]

/-- With its last digits before the point, a count of thousandths is a multiple of a power of ten.
-/
theorem thousandths_eq (m j : ℕ) : (m * 10 ^ ((j : ℤ) - 3) : ℚ) = (m * 10 ^ j : ℕ) / 1000 := by
  rw [zpow_sub₀ (by norm_num), zpow_natCast]
  push_cast
  ring

/-- A multiple of a power of ten that is read as the number. -/
theorem eq_of_candidate {j : ℕ} (hk : k ≤ 2 ^ 48) (hx : ofRat (k / 1000) = .finite x)
    (herr : |x - k / 1000| < 1 / 2000) (hj : (10 : ℚ) ^ ((j : ℤ) - 3) ≤ 10 * x)
    (hm : m = ⌊x / 10 ^ ((j : ℤ) - 3)⌋.toNat ∨ m = ⌊x / 10 ^ ((j : ℤ) - 3)⌋.toNat + 1)
    (hreads : ofRat (m * 10 ^ ((j : ℤ) - 3)) = .finite x) : m * 10 ^ j = k := by
  have hnonneg := thousandths_nonneg herr hx
  have hten : (0 : ℚ) < 10 ^ ((j : ℤ) - 3) := by positivity
  have hle : (m : ℚ) ≤ x / 10 ^ ((j : ℤ) - 3) + 1 := by
    have hfloor : (⌊x / 10 ^ ((j : ℤ) - 3)⌋.toNat : ℚ) ≤ x / 10 ^ ((j : ℤ) - 3) := by
      have hcast : ((⌊x / 10 ^ ((j : ℤ) - 3)⌋.toNat : ℤ) : ℚ) = ⌊x / 10 ^ ((j : ℤ) - 3)⌋ := by
        rw [Int.toNat_of_nonneg (Int.floor_nonneg.mpr (by positivity))]
      rw [← Int.cast_natCast, hcast]
      exact Int.floor_le _
    rcases hm with rfl | rfl
    · linarith
    · push_cast
      linarith
  have hbound : ((m * 10 ^ j : ℕ) : ℚ) ≤ 11000 * x := by
    have hmul : (m * 10 ^ ((j : ℤ) - 3) : ℚ) ≤ x + 10 ^ ((j : ℤ) - 3) := by
      calc (m * 10 ^ ((j : ℤ) - 3) : ℚ)
          ≤ (x / 10 ^ ((j : ℤ) - 3) + 1) * 10 ^ ((j : ℤ) - 3) := by gcongr
        _ = x + 10 ^ ((j : ℤ) - 3) := by
          rw [add_mul, div_mul_cancel₀ _ hten.ne', one_mul]
    rw [thousandths_eq] at hmul
    linarith
  have hk' : (k : ℚ) ≤ 2 ^ 48 := by exact_mod_cast hk
  obtain ⟨-, hhigh⟩ := abs_lt.mp herr
  have hmj : m * 10 ^ j ≤ 2 ^ 52 := by
    have h : ((m * 10 ^ j : ℕ) : ℚ) ≤ (2 ^ 52 : ℕ) := by
      push_cast at hbound ⊢
      linarith
    exact_mod_cast h
  rw [thousandths_eq, ← hx] at hreads
  exact eq_of_ofRat_thousandths hmj (hk.trans (by decide)) hreads

/-- **The fewest digits of a count of thousandths** are its own, without the zeros at its end. -/
theorem shortest_thousandths {j : ℕ} (hk : 10 ^ j * m ≤ 2 ^ 48) (hm : ¬10 ∣ m)
    (hx : ofRat ((10 ^ j * m : ℕ) / 1000) = .finite x)
    (herr : |x - (10 ^ j * m : ℕ) / 1000| < 1 / 2000) : shortest x = some (m, (j : ℤ) - 3) := by
  have hmpos : 1 ≤ m := by
    rcases Nat.eq_zero_or_pos m with rfl | h
    · exact absurd (dvd_zero 10) hm
    · exact h
  have hkpos : 1 ≤ 10 ^ j * m := Nat.mul_pos (by positivity) hmpos
  have hpow : (10 : ℚ) ^ ((j : ℤ) - 3) ≤ (10 ^ j * m : ℕ) / 1000 := by
    calc (10 : ℚ) ^ ((j : ℤ) - 3)
        = ((1 : ℕ) : ℚ) * 10 ^ ((j : ℤ) - 3) := by rw [Nat.cast_one, one_mul]
      _ = ((1 * 10 ^ j : ℕ) : ℚ) / 1000 := thousandths_eq 1 j
      _ ≤ (10 ^ j * m : ℕ) / 1000 := by
        have h : 1 * 10 ^ j ≤ 10 ^ j * m := by
          rw [one_mul]
          exact Nat.le_mul_of_pos_right _ hmpos
        have h' : ((1 * 10 ^ j : ℕ) : ℚ) ≤ (10 ^ j * m : ℕ) := by exact_mod_cast h
        linarith
  have hk' : ((10 ^ j * m : ℕ) : ℚ) ≤ 2 ^ 48 := by exact_mod_cast hk
  have hkpos' : (1 : ℚ) ≤ (10 ^ j * m : ℕ) := by exact_mod_cast hkpos
  obtain ⟨hlow, hhigh⟩ := abs_lt.mp herr
  have hxpos : 0 < x := by linarith
  have hten : (0 : ℚ) < 10 ^ ((j : ℤ) - 3) := by positivity
  have hnext : m = ⌊x / 10 ^ ((j : ℤ) - 3)⌋.toNat ∨ m = ⌊x / 10 ^ ((j : ℤ) - 3)⌋.toNat + 1 := by
    -- The error is less than half of any power of ten from the thousandths on.
    have hthousandth : (1 / 1000 : ℚ) ≤ 10 ^ ((j : ℤ) - 3) := by
      have h := thousandths_eq 1 j
      rw [Nat.cast_one, one_mul] at h
      rw [h]
      have hone : (1 : ℚ) ≤ (1 * 10 ^ j : ℕ) := by
        exact_mod_cast Nat.mul_pos one_pos (by positivity)
      linarith
    have hmul : (m * 10 ^ ((j : ℤ) - 3) : ℚ) = (10 ^ j * m : ℕ) / 1000 := by
      rw [thousandths_eq, mul_comm]
    have hlow' : (m : ℚ) - 1 < x / 10 ^ ((j : ℤ) - 3) := by
      rw [lt_div_iff₀ hten, sub_mul, hmul]
      linarith
    have hhigh' : x / 10 ^ ((j : ℤ) - 3) < m + 1 := by
      rw [div_lt_iff₀ hten, add_mul, hmul]
      linarith
    have h₁ : ((m : ℤ) - 1 : ℤ) ≤ ⌊x / 10 ^ ((j : ℤ) - 3)⌋ := by
      refine Int.le_floor.mpr ?_
      push_cast
      exact hlow'.le
    have h₂ : ⌊x / 10 ^ ((j : ℤ) - 3)⌋ < (m : ℤ) + 1 := by
      refine Int.floor_lt.mpr ?_
      push_cast
      exact hhigh'
    omega
  have hcandidate : candidate x ((j : ℤ) - 3) = some m := by
    refine candidate_eq ?_ hnext fun m' hm' hreads => ?_
    · rw [thousandths_eq, mul_comm m]
      exact hx
    · have h := eq_of_candidate hk hx herr (by linarith) hm' hreads
      rw [mul_comm] at h
      exact Nat.eq_of_mul_eq_mul_left (by positivity) h
  refine search_eq hcandidate 18 _ ?_ ?_ fun e hlt hle => ?_
  · have hlog : (j : ℤ) - 4 ≤ Int.log 10 x := by
      refine (Int.zpow_le_iff_le_log (b := 10) (by decide) hxpos).mp ?_
      have h : (10 : ℚ) ^ ((j : ℤ) - 3) = 10 ^ ((j : ℤ) - 4) * 10 := by
        rw [← zpow_add_one₀ (by norm_num)]
        congr 1
        ring
      push_cast
      linarith
    omega
  · have hlog : Int.log 10 x < 12 := by
      refine (Int.lt_zpow_iff_log_lt (b := 10) (by decide) hxpos).mp ?_
      norm_num
      linarith
    omega
  · -- A coarser multiple would be the same count, which then had another zero at its end.
    obtain ⟨d, hd⟩ := Int.le.dest (show (j : ℤ) - 3 + 1 ≤ e by omega)
    obtain rfl : e = ((j + 1 + d : ℕ) : ℤ) - 3 := by
      push_cast
      omega
    cases hc : candidate x (((j + 1 + d : ℕ) : ℤ) - 3) with
    | none => rfl
    | some m' =>
      obtain ⟨hreads, hm'⟩ := reads_of_candidate hc
      have hsmall : (10 : ℚ) ^ (((j + 1 + d : ℕ) : ℤ) - 3) ≤ 10 * x := by
        have hstep : (10 : ℚ) ^ (Int.log 10 x + 1) = 10 * 10 ^ Int.log 10 x := by
          rw [zpow_add_one₀ (by norm_num), mul_comm]
        have hself := Int.zpow_log_le_self (b := 10) (by decide) hxpos
        calc (10 : ℚ) ^ (((j + 1 + d : ℕ) : ℤ) - 3) ≤ 10 ^ (Int.log 10 x + 1) :=
              zpow_le_zpow_right₀ (by norm_num) hle
          _ ≤ 10 * x := by
              rw [hstep]
              push_cast at hself
              linarith
      have h := eq_of_candidate hk hx herr hsmall hm' hreads
      refine absurd ⟨m' * 10 ^ d, ?_⟩ hm
      refine Nat.eq_of_mul_eq_mul_left (show 0 < 10 ^ j by positivity) ?_
      rw [← h]
      ring

/-- The text of a count of thousandths. -/
def thousandthsText (k : ℕ) : List ℕ :=
  if k % 100 = 0 then fixedText 1 (k / 100)
  else if k % 10 = 0 then fixedText 2 (k / 10)
  else fixedText 3 k

theorem digitsText_thousandths {j : ℕ} (hk : 10 ^ j * m ≤ 2 ^ 48) (hm : ¬10 ∣ m) :
    digitsText m ((j : ℤ) - 3) = thousandthsText (10 ^ j * m) := by
  have hdecpt : -4 < ((decimal m).length : ℤ) + ((j : ℤ) - 3) ∧
      ((decimal m).length : ℤ) + ((j : ℤ) - 3) ≤ 16 := by
    have hlength : 0 < (decimal m).length := List.length_pos_of_ne_nil (decimal_ne_nil m)
    have hmpos : 0 < m := Nat.pos_of_ne_zero fun h => hm (h ▸ dvd_zero 10)
    have hj : j < 15 := by
      refine (Nat.pow_lt_pow_iff_right (a := 10) (by decide)).mp ?_
      exact ((Nat.le_mul_of_pos_right _ hmpos).trans hk).trans_lt (by decide)
    have hmlt : m < 10 ^ (15 - j) := by
      refine Nat.lt_of_mul_lt_mul_left (a := 10 ^ j) ?_
      rw [← pow_add, Nat.add_sub_cancel' hj.le]
      exact hk.trans_lt (by decide)
    have hle := (length_decimal_le_iff (n := m) (k := 15 - j) (by omega)).mpr hmlt
    omega
  unfold digitsText
  dsimp only
  rw [if_pos hdecpt]
  match j with
  | 0 =>
    show fixedText 3 m = _
    rw [pow_zero, one_mul, thousandthsText, if_neg (by omega), if_neg (by omega)]
  | 1 =>
    show fixedText 2 m = _
    rw [pow_one, thousandthsText, if_neg (by omega), if_pos (by omega),
      Nat.mul_div_cancel_left _ (by decide)]
  | 2 =>
    have hten : 10 ^ 2 * m = 100 * m := by ring
    show fixedText 1 m = _
    rw [hten, thousandthsText, if_pos (by omega), Nat.mul_div_cancel_left _ (by decide)]
  | i + 3 =>
    have he : (((i + 3 : ℕ) : ℤ) - 3) = Int.ofNat i := by
      rw [Int.ofNat_eq_natCast]
      omega
    have hten : 10 ^ (i + 3) * m = 100 * (10 * (m * 10 ^ i)) := by ring
    rw [he, hten, thousandthsText, if_pos (by omega), Nat.mul_div_cancel_left _ (by decide),
      fixedText, pow_one, Nat.mul_div_cancel_left _ (by decide), Nat.mul_mod_right]
    rfl

/-- **The fewest digits.** -/
theorem repr_thousandths (hk : k ≤ 2 ^ 48) : repr (ofRat (k / 1000)) = thousandthsText k := by
  rcases Nat.eq_zero_or_pos k with rfl | hpos
  · have hzero : ofRat ((0 : ℕ) / 1000 : ℚ) = .finite 0 := by
      rw [Nat.cast_zero, zero_div]
      exact ofRat_natCast (n := 0) (by decide)
    rw [hzero]
    rfl
  · obtain ⟨j, m, hm, rfl⟩ := Nat.exists_eq_pow_mul_and_not_dvd hpos.ne' 10 (by decide)
    obtain ⟨x, hx, herr⟩ := exists_thousandths (hk.trans (by decide))
    have hxpos : 0 < x := by
      have hk' : (1 : ℚ) ≤ (10 ^ j * m : ℕ) := by exact_mod_cast hpos
      obtain ⟨hlow, -⟩ := abs_lt.mp herr
      linarith
    rw [hx, repr, if_neg hxpos.ne', signText, if_neg (not_lt.mpr hxpos.le), abs_of_pos hxpos,
      shortest_thousandths hk hm hx herr, Option.map_some, Option.getD_some, List.nil_append,
      digitsText_thousandths hk hm]

end Double

/-! ### Reading -/

/-- What is written with a point is read. -/
theorem readDecimal_fixedText (k n : ℕ) : readDecimal (fixedText k n) = some (n / 10 ^ k : ℚ) := by
  have hpoint : 46 ∉ decimal (n / 10 ^ k) := by
    intro h
    have := digit_of_mem_decimal h
    omega
  have hn : (n : ℚ) = 10 ^ k * (n / 10 ^ k : ℕ) + (n % 10 ^ k : ℕ) := by
    exact_mod_cast (Nat.div_add_mod n (10 ^ k)).symm
  rw [readDecimal, fixedText, splitFirst_append hpoint]
  show some ((ofDecimal (decimal (n / 10 ^ k)) : ℚ) +
    ofDecimal (paddedDigits k (n % 10 ^ k)) / 10 ^ (paddedDigits k (n % 10 ^ k)).length) = _
  rw [ofDecimal_decimal, ofDecimal_paddedDigits, Nat.mod_mod, length_paddedDigits]
  congr 1
  rw [hn, add_div, mul_div_cancel_left₀ _ (by positivity)]

/-- The count can be read from its text. -/
theorem readDecimal_thousandthsText (k : ℕ) :
    readDecimal (Double.thousandthsText k) = some (k / 1000 : ℚ) := by
  unfold Double.thousandthsText
  split_ifs with h₁ h₂
  · have hk : (k : ℚ) = 100 * (k / 100 : ℕ) := by
      exact_mod_cast (show k = 100 * (k / 100) by omega)
    rw [readDecimal_fixedText, hk]
    norm_num
    ring
  · have hk : (k : ℚ) = 10 * (k / 10 : ℕ) := by
      exact_mod_cast (show k = 10 * (k / 10) by omega)
    rw [readDecimal_fixedText, hk]
    norm_num
    ring
  · rw [readDecimal_fixedText]
    norm_num
