import Mathlib.Data.Int.Log
import Mathlib.Data.Rat.Floor
import Mathlib.Algebra.Order.Field.Power
import Mathlib.Tactic.FieldSimp
import Mathlib.Tactic.Linarith
import Mathlib.Tactic.NormNum
import Mathlib.Tactic.Positivity
import Mathlib.Tactic.Ring

/-!
# Numbers in double precision

The numbers of JavaScript, and of Python's floating point: rationals with 53 significant bits, the
infinities, and a value for what is no number. Every operation rounds its exact result to the
nearest such number, and of two to the one with an even last bit.

## Main definitions

* `roundEven`: the nearest integer
* `Double`, `Double.ofRat`: the numbers, and the one nearest to a rational
* `Double.add`, `Double.sub`, `Double.mul`, `Double.min`, `Double.ceil`: operations

## Main results

* `Double.ofRat_natCast`: integers of at most 53 bits are exact
* `Double.ofRat_of_two_pow_le`: longer integers stay longer, or become infinite
* `Double.ofRat_eq_infinity`: the numbers that become infinite
* `Double.ceil_ofRat_div`: **the ceiling of a quotient of integers is that of its exact value**,
  unless the integers are long

## What is deliberately absent

Two zeros. No operation here tells them apart.
-/

/-- The nearest integer, and of two the even one. -/
def roundEven (q : ℚ) : ℤ :=
  let below := q.floor
  if q - below < 1 / 2 then below
  else if 1 / 2 < q - below then below + 1
  else if below % 2 = 0 then below else below + 1

theorem roundEven_intCast (n : ℤ) : roundEven n = n := by
  simp [roundEven]

theorem roundEven_cases (q : ℚ) : roundEven q = ⌊q⌋ ∨ roundEven q = ⌊q⌋ + 1 ∧ 1 / 2 ≤ q - ⌊q⌋ := by
  show roundEven q = q.floor ∨ roundEven q = q.floor + 1 ∧ 1 / 2 ≤ q - q.floor
  unfold roundEven
  dsimp only
  split_ifs with hlt hgt heven
  · exact .inl rfl
  · exact .inr ⟨rfl, hgt.le⟩
  · exact .inl rfl
  · exact .inr ⟨rfl, not_lt.mp hlt⟩

theorem le_roundEven {n : ℤ} {q : ℚ} (h : (n : ℚ) ≤ q) : n ≤ roundEven q := by
  have hn : n ≤ ⌊q⌋ := Int.le_floor.mpr h
  rcases roundEven_cases q with hr | ⟨hr, -⟩
  · omega
  · omega

theorem roundEven_le {n : ℤ} {q : ℚ} (h : q ≤ n) : roundEven q ≤ n := by
  rcases roundEven_cases q with hr | ⟨hr, hhalf⟩
  · rw [hr]
    exact Int.floor_le_iff.mpr (lt_of_le_of_lt h (by linarith))
  · rw [hr]
    -- The number is not an integer, so the next integer is not above `n`.
    have hlt : (⌊q⌋ : ℚ) < n := by linarith
    exact_mod_cast hlt

theorem roundEven_lt {n : ℤ} {q : ℚ} (h : q < n - 1 / 2) : roundEven q < n := by
  rcases roundEven_cases q with hr | ⟨hr, hhalf⟩
  · rw [hr]
    exact Int.floor_lt.mpr (by linarith)
  · rw [hr]
    have hlt : ((⌊q⌋ + 1 : ℤ) : ℚ) < n := by
      push_cast
      linarith
    exact_mod_cast hlt

inductive Double
  | finite (q : ℚ)
  | infinity (negative : Bool)
  | nan
  deriving DecidableEq

namespace Double

/-- The exponent of the last bit of the number nearest to a rational. -/
def exponent (q : ℚ) : ℤ := max (Int.log 2 |q| - 52) (-1074)

/-- The number of 53 bits nearest to a rational, however large. -/
def nearest (q : ℚ) : ℚ := roundEven (q / 2 ^ exponent q) * 2 ^ exponent q

/-- The number nearest to a rational. -/
def ofRat (q : ℚ) : Double :=
  let r : ℚ := roundEven (q / 2 ^ exponent q) * 2 ^ exponent q
  if 2 ^ 1024 ≤ |r| then .infinity (q < 0) else .finite r

/-- What a program makes of a natural number. -/
def ofNat (n : ℕ) : Double := ofRat n

def add : Double → Double → Double
  | .finite p, .finite q => ofRat (p + q)
  | .nan, _ | _, .nan => .nan
  | .infinity s, .infinity t => if s = t then .infinity s else .nan
  | .infinity s, .finite _ | .finite _, .infinity s => .infinity s

def neg : Double → Double
  | .finite q => .finite (-q)
  | .infinity s => .infinity !s
  | .nan => .nan

def sub (x y : Double) : Double := x.add y.neg

def mul : Double → Double → Double
  | .finite p, .finite q => ofRat (p * q)
  | .nan, _ | _, .nan => .nan
  | .infinity s, .infinity t => .infinity (s != t)
  | .infinity s, .finite q | .finite q, .infinity s =>
    if q = 0 then .nan else .infinity (s != decide (q < 0))

/-- `Math.min` -/
def min : Double → Double → Double
  | .finite p, .finite q => .finite (Min.min p q)
  | .nan, _ | _, .nan => .nan
  | .infinity true, _ | _, .infinity true => .infinity true
  | .infinity false, x | x, .infinity false => x

/-- `math.ceil`, which raises an exception if there is no ceiling. -/
def ceil : Double → Option ℤ
  | .finite q => some ⌈q⌉
  | _ => none

/-! ### Exact integers -/

section Rounding

variable {q : ℚ}

theorem two_zpow_pos (k : ℤ) : (0 : ℚ) < 2 ^ k := by positivity

/-- A number of the right exponent is its own nearest. -/
theorem ofRat_of_dyadic {m : ℤ} (h : q = m * 2 ^ exponent q) (hq : |q| < 2 ^ 1024) :
    ofRat q = .finite q := by
  have hm : q / 2 ^ exponent q = m := by
    rw [div_eq_iff (two_zpow_pos _).ne']
    exact h
  unfold ofRat
  dsimp only
  rw [hm, roundEven_intCast, ← h]
  exact if_neg (not_le.mpr hq)

theorem exponent_nonpos {n : ℕ} (h : n < 2 ^ 53) : exponent n ≤ 0 := by
  have hlog : Int.log 2 |(n : ℚ)| ≤ 52 := by
    rw [Nat.abs_cast, Int.log_natCast]
    have hlt : Nat.log 2 n < 53 := Nat.log_lt_of_lt_pow' (by decide) h
    omega
  unfold exponent
  omega

/-- **Integers of at most 53 bits are exact.** -/
theorem ofRat_natCast {n : ℕ} (h : n < 2 ^ 53) : ofRat n = .finite n := by
  obtain ⟨k, hk⟩ := Int.le.dest (exponent_nonpos h)
  have hq : (n : ℚ) = ((n * 2 ^ k : ℕ) : ℤ) * 2 ^ exponent n := by
    have hexp : exponent n = -(k : ℤ) := by omega
    rw [hexp, zpow_neg, zpow_natCast]
    push_cast
    field_simp
  refine ofRat_of_dyadic hq ?_
  rw [Nat.abs_cast]
  exact_mod_cast h.trans (Nat.pow_lt_pow_right (by decide) (by decide))

/-! ### Bounds -/

theorem exponent_of_log {k : ℤ} (hk : -1022 ≤ k) (hle : 2 ^ k ≤ q) (hlt : q < 2 ^ (k + 1)) :
    exponent q = k - 52 := by
  have hq : 0 < q := (two_zpow_pos k).trans_le hle
  have hlog : Int.log 2 q = k := by
    have h₁ := (Int.zpow_le_iff_le_log (b := 2) (by decide) hq).mp (by exact_mod_cast hle)
    have h₂ := (Int.lt_zpow_iff_log_lt (b := 2) (by decide) hq).mp (by exact_mod_cast hlt)
    omega
  unfold exponent
  rw [abs_of_pos hq, hlog]
  omega

/-- The number with the last bit of `q` that is nearest to `q`. -/
theorem ofRat_of_abs_lt
    (h : |(roundEven (q / 2 ^ exponent q) * 2 ^ exponent q : ℚ)| < 2 ^ 1024) :
    ofRat q = .finite (roundEven (q / 2 ^ exponent q) * 2 ^ exponent q) :=
  if_neg (not_le.mpr h)

/-- An integer above a number, with its last bit before the point, is above the nearest number. -/
theorem roundEven_mul_le {n : ℕ} (he : exponent q ≤ 0) (hq : q ≤ n) :
    (roundEven (q / 2 ^ exponent q) * 2 ^ exponent q : ℚ) ≤ n := by
  obtain ⟨j, hj⟩ := Int.le.dest he
  have hexp : exponent q = -(j : ℤ) := by omega
  have hr : roundEven (q / 2 ^ exponent q) ≤ ((n * 2 ^ j : ℕ) : ℤ) := by
    refine roundEven_le ?_
    rw [hexp, zpow_neg, zpow_natCast, div_inv_eq_mul]
    push_cast
    gcongr
  calc (roundEven (q / 2 ^ exponent q) * 2 ^ exponent q : ℚ)
      ≤ ((n * 2 ^ j : ℕ) : ℤ) * 2 ^ exponent q := by
        gcongr
    _ = n := by
        rw [hexp, zpow_neg, zpow_natCast]
        push_cast
        field_simp

theorem roundEven_mul_nonneg (hq : 0 ≤ q) :
    (0 : ℚ) ≤ roundEven (q / 2 ^ exponent q) * 2 ^ exponent q := by
  have hpos := two_zpow_pos (exponent q)
  have hr : 0 ≤ roundEven (q / 2 ^ exponent q) := by
    refine le_roundEven ?_
    push_cast
    positivity
  have hr' : (0 : ℚ) ≤ roundEven (q / 2 ^ exponent q) := by exact_mod_cast hr
  positivity

theorem exponent_nonpos_of_abs_lt (h : |q| < 2 ^ 53) : exponent q ≤ 0 := by
  have hlog : Int.log 2 |q| < 53 := by
    rcases eq_or_ne q 0 with rfl | hne
    · simp
    · refine (Int.lt_zpow_iff_log_lt (b := 2) (by decide) (abs_pos.mpr hne)).mp ?_
      exact_mod_cast h
  unfold exponent
  omega

theorem neg_le_roundEven_mul {n : ℕ} (he : exponent q ≤ 0) (hq : -n ≤ q) :
    (-n : ℚ) ≤ roundEven (q / 2 ^ exponent q) * 2 ^ exponent q := by
  obtain ⟨j, hj⟩ := Int.le.dest he
  have hexp : exponent q = -(j : ℤ) := by omega
  have hr : -((n * 2 ^ j : ℕ) : ℤ) ≤ roundEven (q / 2 ^ exponent q) := by
    refine le_roundEven ?_
    rw [hexp, zpow_neg, zpow_natCast, div_inv_eq_mul]
    push_cast
    rw [← neg_mul]
    gcongr
  calc (-n : ℚ) = (-((n * 2 ^ j : ℕ) : ℤ) : ℤ) * 2 ^ exponent q := by
        rw [hexp, zpow_neg, zpow_natCast]
        push_cast
        field_simp
    _ ≤ roundEven (q / 2 ^ exponent q) * 2 ^ exponent q := by
        gcongr

/-- A number between two opposite integers of at most 52 bits stays there. -/
theorem exists_ofRat_of_abs_le {n : ℕ} (hq : |q| ≤ n) (hn : n ≤ 2 ^ 52) :
    ∃ r : ℚ, ofRat q = .finite r ∧ |r| ≤ n := by
  have hn' : (n : ℚ) ≤ 2 ^ 52 := by exact_mod_cast hn
  have he : exponent q ≤ 0 := exponent_nonpos_of_abs_lt (by linarith)
  have h₀ := neg_le_roundEven_mul he (abs_le.mp hq).1
  have h₁ := roundEven_mul_le he (abs_le.mp hq).2
  have habs := abs_le.mpr ⟨h₀, h₁⟩
  refine ⟨_, ofRat_of_abs_lt ?_, habs⟩
  exact (habs.trans hn').trans_lt (pow_lt_pow_right₀ one_lt_two (by decide))

theorem exponent_nonpos_of_lt (hpos : 0 < q) (h : q < 2 ^ 53) : exponent q ≤ 0 :=
  exponent_nonpos_of_abs_lt (by rwa [abs_of_pos hpos])

/-- A number between zero and an integer of at most 52 bits stays there. -/
theorem ofRat_mem_Icc {n : ℕ} (hpos : 0 < q) (hq : q ≤ n) (hn : n ≤ 2 ^ 52) :
    ∃ r : ℚ, ofRat q = .finite r ∧ 0 ≤ r ∧ r ≤ n := by
  have hn' : (n : ℚ) ≤ 2 ^ 52 := by exact_mod_cast hn
  have he : exponent q ≤ 0 := exponent_nonpos_of_lt hpos (by linarith)
  have h₀ := roundEven_mul_nonneg hpos.le
  have h₁ := roundEven_mul_le he hq
  refine ⟨_, ofRat_of_abs_lt ?_, h₀, h₁⟩
  rw [abs_of_nonneg h₀]
  exact (h₁.trans hn').trans_lt (pow_lt_pow_right₀ one_lt_two (by decide))

/-! ### Integers nearby -/

/-- A number that is not far below an integer is rounded up to it, at least. -/
theorem le_roundEven_of_lt {n : ℤ} (h : n - 1 / 2 < q) : n ≤ roundEven q := by
  rcases roundEven_cases q with hr | ⟨hr, -⟩
  · -- The number was rounded down, so it is not half way from its floor.
    by_contra hlt
    have hfloor : ((⌊q⌋ + 1 : ℤ) : ℚ) ≤ n := by
      have h' : ⌊q⌋ + 1 ≤ n := by omega
      exact_mod_cast h'
    push_cast at hfloor
    have hup : roundEven q = ⌊q⌋ + 1 := by
      show roundEven q = q.floor + 1
      have hf : (q.floor : ℚ) = ⌊q⌋ := rfl
      unfold roundEven
      dsimp only
      rw [if_neg (by rw [hf]; linarith), if_pos (by rw [hf]; linarith)]
    omega
  · have hlt : (n : ℚ) < ((⌊q⌋ + 1 : ℤ) : ℚ) + 1 := by
      have hf := Int.lt_floor_add_one q
      push_cast
      linarith
    have h' : n < ⌊q⌋ + 1 + 1 := by exact_mod_cast hlt
    omega

variable {n : ℤ} {j : ℕ}

theorem lt_of_scaled_lt (he : exponent q = -(j : ℤ)) (h : q * 2 ^ j < n * 2 ^ j - 1 / 2) :
    (roundEven (q / 2 ^ exponent q) * 2 ^ exponent q : ℚ) < n := by
  have hr : roundEven (q / 2 ^ exponent q) < n * 2 ^ j := by
    refine roundEven_lt ?_
    rw [he, zpow_neg, zpow_natCast, div_inv_eq_mul]
    push_cast
    exact h
  have hr' : (roundEven (q / 2 ^ exponent q) : ℚ) < n * 2 ^ j := by exact_mod_cast hr
  calc (roundEven (q / 2 ^ exponent q) * 2 ^ exponent q : ℚ)
      < n * 2 ^ j * 2 ^ exponent q := by
        have hpos := two_zpow_pos (exponent q)
        gcongr
    _ = n := by
        rw [he, zpow_neg, zpow_natCast]
        field_simp

theorem le_of_scaled_lt (he : exponent q = -(j : ℤ)) (h : n * 2 ^ j - 1 / 2 < q * 2 ^ j) :
    (n : ℚ) ≤ roundEven (q / 2 ^ exponent q) * 2 ^ exponent q := by
  have hr : n * 2 ^ j ≤ roundEven (q / 2 ^ exponent q) := by
    refine le_roundEven_of_lt ?_
    rw [he, zpow_neg, zpow_natCast, div_inv_eq_mul]
    push_cast
    exact h
  have hr' : (n * 2 ^ j : ℚ) ≤ roundEven (q / 2 ^ exponent q) := by exact_mod_cast hr
  calc (n : ℚ) = n * 2 ^ j * 2 ^ exponent q := by
        rw [he, zpow_neg, zpow_natCast]
        field_simp
    _ ≤ roundEven (q / 2 ^ exponent q) * 2 ^ exponent q := by
        have hpos := two_zpow_pos (exponent q)
        gcongr

/-! ### Quotients -/

/-- A quotient of integers that lies above an integer lies above it by the last bit of the quotient,
if the dividend has at most 52 bits. -/
theorem add_one_le_quotient {a b j : ℕ} {m : ℤ} (hb : 0 < b) (hbj : b ≤ 2 ^ j)
    (hm : (m : ℚ) < a / b) : ((m * 2 ^ j + 1 : ℤ) : ℚ) ≤ a / b * 2 ^ j := by
  have hb' : (0 : ℚ) < b := by exact_mod_cast hb
  have hlt : m * b + 1 ≤ (a : ℤ) := by
    have h := (lt_div_iff₀ hb').mp hm
    exact_mod_cast h
  have hlt' : (m * b + 1 : ℚ) ≤ a := by exact_mod_cast hlt
  have hbj' : (b : ℚ) ≤ 2 ^ j := by exact_mod_cast hbj
  have h1 : (1 : ℚ) ≤ 2 ^ j / b := (one_le_div hb').mpr hbj'
  calc ((m * 2 ^ j + 1 : ℤ) : ℚ) = m * 2 ^ j + 1 := by push_cast; ring
    _ ≤ m * 2 ^ j + 2 ^ j / b := by gcongr
    _ = (m * b + 1) / b * 2 ^ j := by field_simp
    _ ≤ a / b * 2 ^ j := by gcongr

/-- **The ceiling of a quotient is exact** if the dividend has at most 52 bits. -/
theorem ceil_ofRat_div {a b : ℕ} (hb : 0 < b) (hba : b ≤ a) (ha : a ≤ 2 ^ 52) :
    (ofRat (a / b)).ceil = some ⌈(a / b : ℚ)⌉ := by
  have hb' : (0 : ℚ) < b := by exact_mod_cast hb
  have hba' : (b : ℚ) ≤ a := by exact_mod_cast hba
  have ha' : (a : ℚ) ≤ 2 ^ 52 := by exact_mod_cast ha
  have hone : 1 ≤ (a / b : ℚ) := (one_le_div hb').mpr hba'
  have hle : (a / b : ℚ) ≤ a := div_le_self (by positivity) (by exact_mod_cast hb)
  generalize hq : (a / b : ℚ) = q at hone hle
  have hpos : 0 < q := zero_lt_one.trans_le hone
  have he : exponent q ≤ 0 := exponent_nonpos_of_lt hpos (by linarith)
  obtain ⟨j, hj⟩ := Int.le.dest he
  have hexp : exponent q = -(j : ℤ) := by omega
  obtain ⟨n, hn⟩ := Int.eq_ofNat_of_zero_le (Int.ceil_nonneg hpos.le)
  have hqn : q ≤ n := by
    have h := Int.le_ceil q
    rw [hn] at h
    exact_mod_cast h
  have hn52 : (n : ℚ) ≤ 2 ^ 52 := by
    have h : ⌈q⌉ ≤ (2 ^ 52 : ℤ) := Int.ceil_le.mpr (by push_cast; linarith)
    rw [hn] at h
    exact_mod_cast h
  have h₀ := roundEven_mul_nonneg hpos.le
  have h₁ := roundEven_mul_le he hqn
  have hbj : b ≤ 2 ^ j := by
    -- The quotient has `k + 1` bits before the point, and the divisor has the rest of the 52.
    have hlog : 0 ≤ Int.log 2 q :=
      (Int.zpow_le_iff_le_log (b := 2) (by decide) hpos).mp (by simpa using hone)
    obtain ⟨k, hk⟩ := Int.eq_ofNat_of_zero_le hlog
    have hkj : k + j = 52 := by
      rw [exponent, abs_of_pos hpos] at hexp
      omega
    have hpow : (2 : ℚ) ^ k ≤ q := by
      have h := Int.zpow_log_le_self (b := 2) (by decide) hpos
      rw [hk] at h
      exact_mod_cast h
    rw [← hq, le_div_iff₀ hb'] at hpow
    have hprod : 2 ^ k * b ≤ 2 ^ k * 2 ^ j := by
      rw [← pow_add, hkj]
      exact_mod_cast hpow.trans ha'
    exact Nat.le_of_mul_le_mul_left hprod (by positivity)
  have hm : (((n : ℤ) - 1 : ℤ) : ℚ) < a / b := by
    have h := Int.ceil_lt_add_one q
    rw [hn] at h
    rw [hq]
    push_cast at h ⊢
    linarith
  have h₂ : ((n : ℚ) - 1) < roundEven (q / 2 ^ exponent q) * 2 ^ exponent q := by
    have hr := le_roundEven (add_one_le_quotient hb hbj hm)
    have hscale : q / 2 ^ exponent q = a / b * 2 ^ j := by
      rw [hexp, zpow_neg, zpow_natCast, div_inv_eq_mul, hq]
    rw [← hscale] at hr
    calc ((n : ℚ) - 1) < ((((n : ℤ) - 1) * 2 ^ j + 1 : ℤ) : ℚ) * 2 ^ exponent q := by
          rw [hexp, zpow_neg, zpow_natCast, ← div_eq_mul_inv, lt_div_iff₀ (by positivity)]
          push_cast
          linarith
      _ ≤ roundEven (q / 2 ^ exponent q) * 2 ^ exponent q := by
          have hpos := two_zpow_pos (exponent q)
          gcongr
  rw [ofRat_of_abs_lt, ceil, hn]
  · refine congrArg some (Int.ceil_eq_iff.mpr ⟨?_, ?_⟩)
    · exact_mod_cast h₂
    · exact_mod_cast h₁
  · rw [abs_of_nonneg h₀]
    exact (h₁.trans hn52).trans_lt (pow_lt_pow_right₀ one_lt_two (by decide))

/-! ### Long integers -/

theorem exponent_natCast {n e : ℕ} (hle : 2 ^ (e + 52) ≤ n) (hlt : n < 2 ^ (e + 53)) :
    exponent n = e := by
  have h := exponent_of_log (q := n) (k := e + 52) (by omega) (by exact_mod_cast hle)
    (by
      rw [add_assoc]
      exact_mod_cast hlt)
  omega

/-- An integer of at least 53 bits has one of these exponents. -/
theorem exists_exponent {n : ℕ} (h : 2 ^ 52 ≤ n) : ∃ e, 2 ^ (e + 52) ≤ n ∧ n < 2 ^ (e + 53) := by
  have hn : n ≠ 0 := by
    rintro rfl
    exact absurd h (by decide)
  have hlog : 52 ≤ Nat.log 2 n := Nat.le_log_of_pow_le (by decide) h
  refine ⟨Nat.log 2 n - 52, ?_, ?_⟩
  · rw [Nat.sub_add_cancel hlog]
    exact Nat.pow_log_le_self 2 hn
  · have hexp : Nat.log 2 n - 52 + 53 = (Nat.log 2 n).succ := by omega
    rw [hexp]
    exact Nat.lt_pow_succ_log_self (by decide) n

/-- The nearest number has as many bits, or more. -/
theorem two_pow_le_nearest {n e : ℕ} (hle : 2 ^ (e + 52) ≤ n) :
    (2 ^ (e + 52) : ℚ) ≤ roundEven ((n : ℚ) / 2 ^ e) * 2 ^ e := by
  have hr : ((2 ^ 52 : ℕ) : ℤ) ≤ roundEven ((n : ℚ) / 2 ^ e) := by
    refine le_roundEven ?_
    rw [le_div_iff₀ (by positivity)]
    rw [add_comm, pow_add] at hle
    exact_mod_cast hle
  have hr' : (2 ^ 52 : ℚ) ≤ roundEven ((n : ℚ) / 2 ^ e) := by exact_mod_cast hr
  rw [add_comm, pow_add]
  gcongr

theorem ofRat_natCast_eq {n e : ℕ} (hle : 2 ^ (e + 52) ≤ n) (hlt : n < 2 ^ (e + 53)) :
    ofRat n = if (2 : ℚ) ^ 1024 ≤ roundEven ((n : ℚ) / 2 ^ e) * 2 ^ e then .infinity false
      else .finite (roundEven ((n : ℚ) / 2 ^ e) * 2 ^ e) := by
  have hpos : (0 : ℚ) < roundEven ((n : ℚ) / 2 ^ e) * 2 ^ e :=
    (by positivity : (0 : ℚ) < 2 ^ (e + 52)).trans_le (two_pow_le_nearest hle)
  have hneg : decide ((n : ℚ) < 0) = false := decide_eq_false (not_lt.mpr (Nat.cast_nonneg n))
  unfold ofRat
  rw [exponent_natCast hle hlt, zpow_natCast, hneg]
  dsimp only
  rw [abs_of_pos hpos]

/-- **Longer integers stay longer, or become infinite.** -/
theorem ofRat_of_two_pow_le {n : ℕ} (h : 2 ^ 53 ≤ n) :
    ofRat n = .infinity false ∨ ∃ m : ℕ, ofRat n = .finite m ∧ 2 ^ 53 ≤ m := by
  obtain ⟨e, hle, hlt⟩ := exists_exponent (Nat.le_trans (by decide) h)
  have he : 1 ≤ e := by
    by_contra he
    obtain rfl : e = 0 := by omega
    exact absurd hlt (not_lt.mpr h)
  rw [ofRat_natCast_eq hle hlt]
  split_ifs
  · exact .inl rfl
  · have hpos : 0 ≤ roundEven ((n : ℚ) / 2 ^ e) := by
      refine le_roundEven ?_
      push_cast
      positivity
    obtain ⟨k, hk⟩ := Int.eq_ofNat_of_zero_le hpos
    have hnearest := two_pow_le_nearest hle
    rw [hk] at hnearest ⊢
    refine .inr ⟨k * 2 ^ e, by push_cast; rfl, ?_⟩
    have hk' : 2 ^ (e + 52) ≤ k * 2 ^ e := by exact_mod_cast hnearest
    exact (Nat.pow_le_pow_right two_pos (by omega)).trans hk'

/-- The numbers that become infinite. -/
theorem ofRat_eq_infinity {n : ℕ} (h : 2 ^ 1024 ≤ n) : ofRat n = .infinity false := by
  have hbig : 2 ^ 52 ≤ n := le_trans (pow_le_pow_right₀ one_le_two (by decide)) h
  obtain ⟨e, hle, hlt⟩ := exists_exponent hbig
  have he : 972 ≤ e := by
    have hexp := (Nat.pow_lt_pow_iff_right one_lt_two).mp (h.trans_lt hlt)
    omega
  rw [ofRat_natCast_eq hle hlt]
  refine if_pos (le_trans ?_ (two_pow_le_nearest hle))
  exact pow_le_pow_right₀ one_le_two (by omega)

/-- The integers below the middle between the last number and the next power of two are finite. -/
theorem exists_ofRat_eq_finite {n : ℕ} (h : n < 2 ^ 1024 - 2 ^ 970) :
    ∃ r : ℚ, ofRat n = .finite r := by
  by_cases hshort : n < 2 ^ 53
  · exact ⟨n, ofRat_natCast hshort⟩
  · obtain ⟨e, hle, hlt⟩ := exists_exponent (Nat.le_trans (by decide) (not_lt.mp hshort))
    have he : e ≤ 971 := by
      have hlt' : 2 ^ (e + 52) < 2 ^ 1024 := hle.trans_lt (h.trans_le (Nat.sub_le _ _))
      have hexp := (pow_lt_pow_iff_right₀ one_lt_two).mp hlt'
      omega
    refine ⟨_, (ofRat_natCast_eq hle hlt).trans (if_neg (not_le.mpr ?_))⟩
    rcases he.lt_or_eq with he | rfl
    · have hr : roundEven ((n : ℚ) / 2 ^ e) ≤ ((2 ^ 53 : ℕ) : ℤ) := by
        refine roundEven_le ?_
        rw [div_le_iff₀ (by positivity)]
        rw [add_comm, pow_add] at hlt
        exact_mod_cast hlt.le
      have hr' : (roundEven ((n : ℚ) / 2 ^ e) : ℚ) ≤ 2 ^ 53 := by exact_mod_cast hr
      calc (roundEven ((n : ℚ) / 2 ^ e) * 2 ^ e : ℚ) ≤ 2 ^ 53 * 2 ^ e := by gcongr
        _ = 2 ^ (53 + e) := (pow_add 2 53 e).symm
        _ < 2 ^ 1024 := pow_lt_pow_right₀ one_lt_two (by omega)
    · have hr : roundEven ((n : ℚ) / 2 ^ 971) < ((2 ^ 53 : ℕ) : ℤ) := by
        refine roundEven_lt ?_
        rw [div_lt_iff₀ (by positivity)]
        have hn : n + 2 ^ 970 < 2 ^ 53 * 2 ^ 971 := by
          rw [← pow_add]
          omega
        have hn' : (n + 2 ^ 970 : ℚ) < 2 ^ 53 * 2 ^ 971 := by exact_mod_cast hn
        calc (n : ℚ) < 2 ^ 53 * 2 ^ 971 - 2 ^ 970 := lt_sub_iff_add_lt.mpr hn'
          _ = (((2 ^ 53 : ℕ) : ℤ) - 1 / 2) * 2 ^ 971 := by
            rw [pow_succ 2 970]
            push_cast
            ring
      have hr' : (roundEven ((n : ℚ) / 2 ^ 971) : ℚ) < 2 ^ 53 := by exact_mod_cast hr
      calc (roundEven ((n : ℚ) / 2 ^ 971) * 2 ^ 971 : ℚ) < 2 ^ 53 * 2 ^ 971 := by gcongr
        _ = 2 ^ 1024 := (pow_add 2 53 971).symm

end Rounding

end Double
