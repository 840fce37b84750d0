import NextBallUp.Auth.Rows
import Mathlib.Data.Nat.Digits.Defs

/-!
# One-time codes

`security/mfa.py`: the HOTP code of a counter, and the check of a submitted code against the
counters around the present one. The counter that was accepted last is stored as the time at which
it begins.

## Main definitions

* `hotp`: the code of a counter
* `verifyTotpCode`: the counter that a submitted code is accepted for
* `lastCounter`: the counter that is stored in `last_used_at`

## Main results

* `verifyTotpCode_eq_some`: an accepted code is that of a counter within the window that is larger
  than the last one
* `lastCounter_counterTime`: storing a counter and reading it again gives the counter
-/

namespace NextBallUp.Auth

variable (S : Settings)

/-- `_VERIFY_WINDOW` -/
def verifyWindow : ℕ := 1

/-- `str(n).zfill(digits)` -/
def zfill (digits n : ℕ) : Code :=
  let s := Nat.toDigits 10 n
  List.replicate (digits - s.length) '0' ++ s

/-- `_hotp` -/
def hotp (secret : Secret) (counter : ℕ) : Code :=
  zfill S.mfaTotpDigits (S.truncatedHmac secret counter % 10 ^ S.mfaTotpDigits)

/-- The counters of the window around `base`, in the order in which they are tried. -/
def window (base : ℕ) : List ℕ :=
  (List.range (2 * verifyWindow + 1)).map fun delta => base + delta - verifyWindow

/-- `verify_totp_code`: `matched_counter` if the code is accepted. Only the first counter that the
code belongs to is looked at. -/
def verifyTotpCode (secret : Secret) (code : Code) (now : Time) (lastUsedCounter : Option ℕ) :
    Option ℕ :=
  if code.all Char.isDigit ∧ code.length = S.mfaTotpDigits then
    ((window (now / S.mfaTotpStepSeconds)).find? fun c => hotp S secret c = code).filter fun c =>
      lastUsedCounter.all (· < c)
  else none

/-- The time at which a counter begins: what is stored in `last_used_at`. -/
def counterTime (counter : ℕ) : Time := counter * S.mfaTotpStepSeconds

/-- `int(last_used_at.timestamp()) // mfa_totp_step_seconds` -/
def lastCounter (r : UserTotpSecret) : Option ℕ := r.lastUsedAt.map (· / S.mfaTotpStepSeconds)

variable {S}

/-- **Accepted codes.** -/
theorem verifyTotpCode_eq_some {secret : Secret} {code : Code} {now : Time}
    {lastUsedCounter : Option ℕ} {c : ℕ}
    (h : verifyTotpCode S secret code now lastUsedCounter = some c) :
    hotp S secret c = code ∧ c ∈ window (now / S.mfaTotpStepSeconds) ∧
      lastUsedCounter.all (· < c) := by
  rw [verifyTotpCode, Option.ite_none_right_eq_some, Option.filter_eq_some_iff] at h
  obtain ⟨-, hfind, hlast⟩ := h
  exact ⟨by simpa using List.find?_some hfind, List.mem_of_find?_eq_some hfind, hlast⟩

/-- **The replay guard is stored without loss.** -/
theorem lastCounter_counterTime (S : Settings) (r : UserTotpSecret) (c : ℕ) :
    lastCounter S { r with lastUsedAt := some (counterTime S c) } = some c := by
  have hpos : 0 < S.mfaTotpStepSeconds := by have := S.mfaTotpStepSeconds_ge; omega
  simp [lastCounter, counterTime, Nat.mul_div_cancel _ hpos]

example : hotp (.default (fun _ c => 1234567 * c) fun _ => 0) 0 3 =
    ['7', '0', '3', '7', '0', '1'] := by
  decide

end NextBallUp.Auth
