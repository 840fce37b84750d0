import NextBallUp.Tokens.Jwt

/-!
# Whole seconds

What `int(dt.timestamp())` makes of a time. A double has room for the microseconds of a time until
the second `2 ^ 34`, in the year 2514. The microsecond before a later second is read as that second.

## Main results

* `le_timestamp`: from a second on, a time is read as that second or a later one
* `timestamp_lt`: **before a second until `2 ^ 34`, a time is read as an earlier one**
* `le_timestamp_of_lt`: the time right before a later second is not
-/

namespace NextBallUp.Tokens

open Double

variable {t : ℕ} {n : ℤ}

theorem timestamp_zero : timestamp ((0 : ℕ) : ℤ) = 0 := by
  have h : ((((0 : ℕ) : ℤ) : ℚ)) / 10 ^ 6 = ((0 : ℕ) : ℚ) := by norm_num
  have hr : ofRat ((0 : ℕ) : ℚ) = .finite ((0 : ℕ) : ℚ) := ofRat_natCast (by norm_num)
  unfold timestamp
  rw [h, hr]
  dsimp only
  rw [Nat.cast_zero, if_pos le_rfl, Int.floor_zero]

theorem seconds_lt (ht : (t : ℤ) ≤ datetimeMax) : (((t : ℤ) : ℚ)) / 10 ^ 6 < 2 ^ 38 := by
  have h : (((t : ℤ) : ℚ)) ≤ ((datetimeMax : ℤ) : ℚ) := by exact_mod_cast ht
  rw [div_lt_iff₀ (by positivity)]
  refine h.trans_lt ?_
  norm_num [datetimeMax]

/-- The timestamp is the floor of the double. -/
theorem timestamp_eq (hpos : 0 < t) (ht : (t : ℤ) ≤ datetimeMax) {q : ℚ}
    (hq : (((t : ℤ) : ℚ)) / 10 ^ 6 = q) :
    timestamp t = ⌊(roundEven (q / 2 ^ exponent q) * 2 ^ exponent q : ℚ)⌋ := by
  have hq₀ : 0 < q := by
    have hpos' : (0 : ℚ) < ((t : ℤ) : ℚ) := by exact_mod_cast hpos
    rw [← hq]
    positivity
  have hlt : q < ((2 ^ 38 : ℕ) : ℚ) := by
    rw [← hq]
    exact_mod_cast seconds_lt ht
  have he : exponent q ≤ 0 :=
    exponent_nonpos_of_lt hq₀ (hlt.trans (by norm_num))
  have h₀ := roundEven_mul_nonneg hq₀.le
  have h₁ := roundEven_mul_le he hlt.le
  have hr : ofRat q = .finite (roundEven (q / 2 ^ exponent q) * 2 ^ exponent q) := by
    refine ofRat_of_abs_lt ?_
    rw [abs_of_nonneg h₀]
    refine h₁.trans_lt ?_
    rw [Nat.cast_pow]
    exact pow_lt_pow_right₀ one_lt_two (by decide)
  unfold timestamp
  rw [hq, hr]
  exact if_pos h₀

/-- No timestamp is beyond the end of the year 9999. -/
theorem abs_timestamp_le {t : ℤ} (hmin : datetimeMin ≤ t) (hmax : t ≤ datetimeMax) :
    |timestamp t| ≤ 253402300800 := by
  have hq : |(t : ℚ) / 10 ^ 6| ≤ ((253402300800 : ℕ) : ℚ) := by
    have h₀ : ((datetimeMin : ℤ) : ℚ) ≤ t := by exact_mod_cast hmin
    have h₁ : (t : ℚ) ≤ ((datetimeMax : ℤ) : ℚ) := by exact_mod_cast hmax
    norm_num [datetimeMin, datetimeMax] at h₀ h₁ ⊢
    rw [abs_le]
    constructor
    · linarith
    · linarith
  obtain ⟨r, hr, habs⟩ := exists_ofRat_of_abs_le hq (by norm_num)
  obtain ⟨h₀, h₁⟩ := abs_le.mp habs
  unfold timestamp
  rw [hr]
  dsimp only
  split_ifs with hpos
  · rw [abs_of_nonneg (Int.floor_nonneg.mpr hpos)]
    have h := (Int.floor_le r).trans h₁
    exact_mod_cast h
  · rw [abs_of_nonpos (Int.ceil_nonpos.mpr (not_le.mp hpos).le), neg_le]
    have h := h₀.trans (Int.le_ceil r)
    exact_mod_cast h

/-- The last bit of a number of seconds. -/
theorem exists_exponent_seconds (hpos : 0 < t) (ht : (t : ℤ) ≤ datetimeMax) :
    ∃ j : ℕ, exponent ((((t : ℤ) : ℚ)) / 10 ^ 6) = -(j : ℤ) := by
  have hpos' : (0 : ℚ) < ((t : ℤ) : ℚ) := by exact_mod_cast hpos
  have he : exponent ((((t : ℤ) : ℚ)) / 10 ^ 6) ≤ 0 :=
    exponent_nonpos_of_lt (by positivity) ((seconds_lt ht).trans (by norm_num))
  obtain ⟨j, hj⟩ := Int.le.dest he
  exact ⟨j, by omega⟩

theorem le_timestamp (ht : (t : ℤ) ≤ datetimeMax) (h : n * 10 ^ 6 ≤ t) : n ≤ timestamp t := by
  rcases Nat.eq_zero_or_pos t with rfl | hpos
  · rw [timestamp_zero]
    omega
  obtain ⟨j, hj⟩ := exists_exponent_seconds hpos ht
  rw [timestamp_eq hpos ht rfl]
  refine Int.le_floor.mpr (le_of_scaled_lt hj ?_)
  have hn : (n : ℚ) ≤ ((t : ℤ) : ℚ) / 10 ^ 6 := by
    rw [le_div_iff₀ (by positivity)]
    exact_mod_cast h
  have hscaled : (n * 2 ^ j : ℚ) ≤ ((t : ℤ) : ℚ) / 10 ^ 6 * 2 ^ j := by gcongr
  linarith

/-- **Before a second until `2 ^ 34`, a time is read as an earlier second.** -/
theorem timestamp_lt (ht : (t : ℤ) ≤ datetimeMax) (h : (t : ℤ) < n * 10 ^ 6) (hn : n ≤ 2 ^ 34) :
    timestamp t < n := by
  rcases Nat.eq_zero_or_pos t with rfl | hpos
  · rw [timestamp_zero]
    omega
  obtain ⟨j, hj⟩ := exists_exponent_seconds hpos ht
  have hpos' : (0 : ℚ) < ((t : ℤ) : ℚ) := by exact_mod_cast hpos
  have hle : (((t : ℤ) : ℚ)) ≤ n * 10 ^ 6 - 1 := by
    have h' : (t : ℤ) ≤ n * 10 ^ 6 - 1 := by omega
    exact_mod_cast h'
  have hn' : (n : ℚ) ≤ 2 ^ 34 := by exact_mod_cast hn
  -- Half of the last bit is less than a microsecond.
  have hbits : 19 ≤ j := by
    have hlog : Int.log 2 |((t : ℤ) : ℚ) / 10 ^ 6| < 34 := by
      rw [abs_of_pos (by positivity)]
      refine (Int.lt_zpow_iff_log_lt (b := 2) (by decide) (by positivity)).mp ?_
      rw [div_lt_iff₀ (by positivity)]
      norm_num at hn' ⊢
      linarith
    unfold exponent at hj
    omega
  have hpow : (2 : ℚ) ^ 19 ≤ 2 ^ j := pow_le_pow_right₀ one_le_two hbits
  rw [timestamp_eq hpos ht rfl]
  refine Int.floor_lt.mpr (lt_of_scaled_lt hj ?_)
  calc (((t : ℤ) : ℚ) / 10 ^ 6 * 2 ^ j : ℚ) ≤ (n * 10 ^ 6 - 1) / 10 ^ 6 * 2 ^ j := by gcongr
    _ = (n * 2 ^ j - 2 ^ j / 10 ^ 6 : ℚ) := by ring
    _ < (n * 2 ^ j - 1 / 2 : ℚ) := by
      norm_num at hpow ⊢
      linarith

/-- A whole second until `2 ^ 34` is read as itself. -/
theorem timestamp_of_second {n : ℕ} (hn : n < 2 ^ 34) : timestamp ((n * 10 ^ 6 : ℕ) : ℤ) = n := by
  have ht : ((n * 10 ^ 6 : ℕ) : ℤ) ≤ datetimeMax := by
    unfold datetimeMax
    omega
  have hle := le_timestamp (n := n) ht (by push_cast; omega)
  have hlt := timestamp_lt (n := n + 1) ht (by push_cast; omega) (by omega)
  omega

/-- The microsecond before a second after `2 ^ 34` is read as that second. -/
theorem le_timestamp_of_lt (ht : (t : ℤ) ≤ datetimeMax) (h : n * 10 ^ 6 ≤ t + 1) (hn : 2 ^ 34 < n) :
    n ≤ timestamp t := by
  have hpos : 0 < t := by omega
  obtain ⟨j, hj⟩ := exists_exponent_seconds hpos ht
  have hpos' : (0 : ℚ) < ((t : ℤ) : ℚ) := by exact_mod_cast hpos
  have hle : (n * 10 ^ 6 - 1 : ℚ) ≤ ((t : ℤ) : ℚ) := by
    have h' : n * 10 ^ 6 - 1 ≤ (t : ℤ) := by omega
    exact_mod_cast h'
  have hn' : (2 ^ 34 + 1 : ℚ) ≤ n := by
    have h' : 2 ^ 34 + 1 ≤ n := by omega
    exact_mod_cast h'
  -- Half of the last bit is more than a microsecond.
  have hbits : j ≤ 18 := by
    have hlog : 34 ≤ Int.log 2 |((t : ℤ) : ℚ) / 10 ^ 6| := by
      rw [abs_of_pos (by positivity)]
      refine (Int.zpow_le_iff_le_log (b := 2) (by decide) (by positivity)).mp ?_
      rw [le_div_iff₀ (by positivity)]
      norm_num at hn' ⊢
      linarith
    unfold exponent at hj
    omega
  have hpow : (2 : ℚ) ^ j ≤ 2 ^ 18 := pow_le_pow_right₀ one_le_two hbits
  rw [timestamp_eq hpos ht rfl]
  refine Int.le_floor.mpr (le_of_scaled_lt hj ?_)
  calc (n * 2 ^ j - 1 / 2 : ℚ) < n * 2 ^ j - 2 ^ j / 10 ^ 6 := by
        norm_num at hpow ⊢
        linarith
    _ = (n * 10 ^ 6 - 1) / 10 ^ 6 * 2 ^ j := by ring
    _ ≤ ((t : ℤ) : ℚ) / 10 ^ 6 * 2 ^ j := by gcongr

end NextBallUp.Tokens
