import Mathlib.Data.Option.Basic

/-!
# Runs of a system that takes labelled steps

A system is one function: what a step under a label makes of a state, and when it cannot be taken.
Where `Machine` speaks of processes that all have the same program, nothing here says that there
are processes.

## Main definitions

* `Steps`: the system
* `Steps.Reach`: the states reached from initial ones by steps that all satisfy a condition on the
  state before the step
* `Steps.exec`: running a given schedule

## Main results

* `Steps.Reach.invariant`: what holds initially and is kept by every step holds throughout
* `Steps.reach_of_exec`: a schedule that can be run ends in a reachable state
-/

/-- What a step under a label makes of a state; `none` if it cannot be taken. -/
structure Steps (Q L : Type*) where
  step : Q → L → Option Q

namespace Steps

variable {Q L : Type*} (M : Steps Q L) (init : Q → Prop) (ok : Q → L → Prop)

/-- The states reached from `init` by steps each of which satisfies `ok` in the state before it. -/
inductive Reach : Q → Prop
  | start {q : Q} : init q → Reach q
  | next {q q' : Q} {l : L} : Reach q → ok q l → M.step q l = some q' → Reach q'

/-- The condition that every step satisfies. -/
def Always (_ : Q) (_ : L) : Prop := True

instance (q : Q) (l : L) : Decidable (Always q l) := .isTrue trivial

variable {M} {init} {ok}

/-- **Induction over runs.** -/
theorem Reach.invariant {P : Q → Prop} (hinit : ∀ q, init q → P q)
    (hstep : ∀ q q' l, P q → ok q l → M.step q l = some q' → P q') {q : Q}
    (h : M.Reach init ok q) : P q := by
  induction h with
  | start h => exact hinit _ h
  | next _ hok hs ih => exact hstep _ _ _ ih hok hs

/-! ### Schedules -/

variable (M) (ok) in
/-- Run a schedule. Every step has to satisfy the condition. -/
def exec [∀ q l, Decidable (ok q l)] (q : Q) : List L → Option Q
  | [] => some q
  | l :: rest => if ok q l then (M.step q l).bind fun q' => exec q' rest else none

theorem exec_cons [∀ q l, Decidable (ok q l)] {q q' : Q} {l : L} (rest : List L)
    (hok : ok q l) (hs : M.step q l = some q') :
    M.exec ok q (l :: rest) = M.exec ok q' rest := by
  rw [exec, if_pos hok, hs, Option.bind_some]

theorem reach_of_exec [∀ q l, Decidable (ok q l)] {q q' : Q} {run : List L}
    (h : M.Reach init ok q) (he : M.exec ok q run = some q') : M.Reach init ok q' := by
  induction run generalizing q with
  | nil =>
    cases he
    exact h
  | cons l rest ih =>
    simp only [exec, Option.ite_none_right_eq_some, Option.bind_eq_some_iff] at he
    obtain ⟨hok, r, hr, he⟩ := he
    exact ih (h.next hok hr) he

/-- A schedule that runs from an initial state and ends where `good` says so. -/
theorem exists_reach_of_exec (M : Steps Q L) (ok : Q → L → Prop) [∀ q l, Decidable (ok q l)]
    {q : Q} (hq : init q) (run : List L) (good : Q → Bool) (h : (M.exec ok q run).any good = true) :
    ∃ q', M.Reach init ok q' ∧ good q' = true := by
  obtain ⟨q', he, hg⟩ := (Option.any_eq_true _ _).mp h
  exact ⟨q', reach_of_exec (.start hq) he, hg⟩

end Steps
