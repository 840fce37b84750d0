import Mathlib.Logic.Function.Basic

/-!
# Interleaved processes over a shared world

Any number of processes take turns on one world. A process is a value that says where in its
program it stands and what it knows; one turn is one atomic statement, to which the environment
answers. Nothing here says what the processes or the world are.

## Main definitions

* `Machine`: what one turn of a process does, and when it cannot be taken
* `Conf`: the processes and the world
* `Machine.Reach`: the configurations reached from initial ones by turns that all satisfy a
  condition on the configuration before the turn
* `Machine.ofEffects`: a machine whose turns are given by their effects on the world
* `Machine.Alone`: turns of one process without those of others in between
* `Machine.exec`: running a given schedule
* `Machine.ReachUnder`, `Machine.execUnder`: the same when the environment may change the world
  between two turns

## Main results

* `Machine.Reach.invariant`: what holds initially and is kept by every turn holds throughout
* `Machine.Reach.forall_local`: the same for an assertion about each process and the world, from
  two obligations: a process keeps its own, and leaves those of the others alone
* `Machine.reach_of_exec`: a schedule that can be run ends in a reachable configuration
* `Machine.ReachUnder.invariant`: the first rule under interference
-/

/-- What one turn of process `i` does to it and to the world, when the environment answers `a`.
`none` means that the turn cannot be taken: the process waits or has ended. -/
structure Machine (I A P W : Type*) where
  /-- One turn. -/
  step : I → A → P → W → Option (P × W)

/-- All processes and the world they share. -/
structure Conf (I P W : Type*) where
  /-- Where each process stands. -/
  procs : I → P
  /-- The shared world. -/
  world : W

namespace Machine

variable {I A P W : Type*} [DecidableEq I] (M : Machine I A P W)

/-- Process `i` takes a turn. -/
def next (c : Conf I P W) (i : I) (a : A) : Option (Conf I P W) :=
  (M.step i a (c.procs i) c.world).map fun q => ⟨Function.update c.procs i q.1, q.2⟩

variable {M}

theorem next_eq_some {c c' : Conf I P W} {i : I} {a : A} :
    M.next c i a = some c' ↔
      ∃ p w, M.step i a (c.procs i) c.world = some (p, w) ∧
        c' = ⟨Function.update c.procs i p, w⟩ := by
  simp only [next, Option.map_eq_some_iff, Prod.exists]
  exact exists₂_congr fun p w => and_congr_right fun _ => eq_comm

/-- The machine of a step function that says what a turn does to the world in terms of effects. -/
def ofEffects {E : Type*} (step : I → A → P → W → Option (P × E)) (apply : W → I → E → W) :
    Machine I A P W where
  step i a p w := (step i a p w).map fun t => (t.1, apply w i t.2)

theorem next_ofEffects_eq_some {E : Type*} {step : I → A → P → W → Option (P × E)}
    {apply : W → I → E → W} {c c' : Conf I P W} {i : I} {a : A} :
    (ofEffects step apply).next c i a = some c' ↔
      ∃ p e, step i a (c.procs i) c.world = some (p, e) ∧
        c' = ⟨Function.update c.procs i p, apply c.world i e⟩ := by
  simp only [next_eq_some, ofEffects, Option.map_eq_some_iff, Prod.exists, Prod.mk.injEq]
  constructor
  · rintro ⟨p, w, ⟨q, e, hs, rfl, rfl⟩, rfl⟩
    exact ⟨q, e, hs, rfl⟩
  · rintro ⟨p, e, hs, rfl⟩
    exact ⟨p, _, ⟨p, e, hs, rfl, rfl⟩, rfl⟩

variable (M)

/-- The configurations reached from `init` by turns each of which satisfies `ok` in the
configuration before it. -/
inductive Reach (init : Conf I P W → Prop) (ok : Conf I P W → I → A → Prop) : Conf I P W → Prop
  | start {c : Conf I P W} : init c → Reach init ok c
  | next {c c' : Conf I P W} {i : I} {a : A} :
      Reach init ok c → ok c i a → M.next c i a = some c' → Reach init ok c'

/-- The condition that every turn satisfies. -/
def Always (_ : Conf I P W) (_ : I) (_ : A) : Prop := True

variable {M} {init : Conf I P W → Prop} {ok : Conf I P W → I → A → Prop}

/-- **Induction over runs.** -/
theorem Reach.invariant {Q : Conf I P W → Prop} (hinit : ∀ c, init c → Q c)
    (hstep : ∀ c c' i a, Q c → ok c i a → M.next c i a = some c' → Q c')
    {c : Conf I P W} (h : M.Reach init ok c) : Q c := by
  induction h with
  | start h => exact hinit _ h
  | next _ hok hnext ih => exact hstep _ _ _ _ ih hok hnext

/-- **Local assertions.** If every process keeps its own assertion and no process breaks the
assertion of another, all assertions hold throughout. -/
theorem Reach.forall_local {L : I → P → W → Prop}
    (hinit : ∀ c, init c → ∀ i, L i (c.procs i) c.world)
    (own : ∀ i a p w p' w', L i p w → M.step i a p w = some (p', w') → L i p' w')
    (other : ∀ i a p w p' w', L i p w → M.step i a p w = some (p', w') →
      ∀ j q, j ≠ i → L j q w → L j q w')
    {c : Conf I P W} (h : M.Reach init ok c) : ∀ i, L i (c.procs i) c.world := by
  refine h.invariant (Q := fun c => ∀ i, L i (c.procs i) c.world) hinit ?_
  intro c c' i a hL _ hnext j
  obtain ⟨p', w', hs, rfl⟩ := next_eq_some.mp hnext
  by_cases hj : j = i
  · subst hj
    simpa using own j a _ _ p' w' (hL j) hs
  · simpa [Function.update_of_ne hj] using other i a _ _ p' w' (hL i) hs j _ hj (hL j)

/-! ### One process alone -/

variable (M) in
/-- Process `i` takes any number of turns, answered as the condition says, and no other process
takes one in between. -/
inductive Alone (i : I) (ok : A → Prop) : P → W → P → W → Prop
  | refl {p : P} {w : W} : Alone i ok p w p w
  | turn {a : A} {p p' p'' : P} {w w' w'' : W} : ok a → M.step i a p w = some (p', w') →
      Alone i ok p' w' p'' w'' → Alone i ok p w p'' w''

section Alone

variable {i : I} {ok : A → Prop} {p p' : P} {w w' : W}

omit [DecidableEq I] in
/-- A process that has come elsewhere has taken a turn. -/
theorem Alone.exists_turn (h : M.Alone i ok p w p' w') (hp : p ≠ p') :
    ∃ a q v, ok a ∧ M.step i a p w = some (q, v) ∧ M.Alone i ok q v p' w' := by
  cases h with
  | refl => exact (hp rfl).elim
  | turn ha hs hr => exact ⟨_, _, _, ha, hs, hr⟩

omit [DecidableEq I] in
/-- What every turn of the process keeps, its turns keep. -/
theorem Alone.invariant {Q : P → W → Prop}
    (hstep : ∀ a p w p' w', Q p w → M.step i a p w = some (p', w') → Q p' w')
    (h : M.Alone i ok p w p' w') (hq : Q p w) : Q p' w' := by
  induction h with
  | refl => exact hq
  | turn _ hs _ ih => exact ih (hstep _ _ _ _ _ hq hs)

omit [DecidableEq I] in
theorem Alone.mono {ok' : A → Prop} (hle : ∀ a, ok a → ok' a) (h : M.Alone i ok p w p' w') :
    M.Alone i ok' p w p' w' := by
  induction h with
  | refl => exact .refl
  | turn ha hs _ ih => exact .turn (hle _ ha) hs ih

end Alone

/-! ### Schedules -/

variable (M) (ok)

/-- Run a schedule: who takes the turn, and what the environment answers. Every turn has to satisfy
the condition. -/
def exec [∀ c i a, Decidable (ok c i a)] (c : Conf I P W) : List (I × A) → Option (Conf I P W)
  | [] => some c
  | (i, a) :: rest =>
    if ok c i a then (M.next c i a).bind fun c' => exec c' rest else none

instance (c : Conf I P W) (i : I) (a : A) : Decidable (Always c i a) := .isTrue trivial

variable {M} {ok}

theorem reach_of_exec [∀ c i a, Decidable (ok c i a)] :
    ∀ {c c' : Conf I P W} {run : List (I × A)},
      M.Reach init ok c → M.exec ok c run = some c' → M.Reach init ok c'
  | _, _, [], h, he => by simp only [exec, Option.some.injEq] at he; exact he ▸ h
  | c, c', (i, a) :: rest, h, he => by
    simp only [exec, Option.ite_none_right_eq_some, Option.bind_eq_some_iff] at he
    obtain ⟨hok, d, hd, he⟩ := he
    exact reach_of_exec (h.next hok hd) he

/-- A schedule that runs from an initial configuration and ends where `bad` says so. -/
theorem exists_reach_of_exec (M : Machine I A P W) (ok : Conf I P W → I → A → Prop)
    [∀ c i a, Decidable (ok c i a)] {c : Conf I P W} (hc : init c) (run : List (I × A))
    (bad : Conf I P W → Bool) (h : (M.exec ok c run).any bad = true) :
    ∃ c', M.Reach init ok c' ∧ bad c' = true := by
  obtain ⟨c', he, hb⟩ := (Option.any_eq_true _ _).mp h
  exact ⟨c', reach_of_exec (.start hc) he, hb⟩

/-- A schedule that runs from an initial configuration to one from which a second schedule runs. -/
theorem exists_reach_reach_of_exec (M : Machine I A P W) (ok : Conf I P W → I → A → Prop)
    [∀ c i a, Decidable (ok c i a)] {c : Conf I P W} (hc : init c) (run run' : List (I × A))
    (bad : Conf I P W → Conf I P W → Bool)
    (h : ((M.exec ok c run).any fun d => (M.exec ok d run').any (bad d)) = true) :
    ∃ d d', M.Reach init ok d ∧ M.Reach (· = d) ok d' ∧ bad d d' = true := by
  obtain ⟨d, hd, hb⟩ := exists_reach_of_exec M ok hc run _ h
  obtain ⟨d', he, hb'⟩ := (Option.any_eq_true _ _).mp hb
  exact ⟨d, d', hd, reach_of_exec (.start rfl) he, hb'⟩

/-! ### Interference -/

section Interference

variable {B : Type*} (M : Machine I A P W) (change : B → W → W)

/-- The configurations reached from `init` by turns that satisfy `ok`, between which the environment
may change the world. -/
inductive ReachUnder (init : Conf I P W → Prop) (ok : Conf I P W → I → A → Prop) :
    Conf I P W → Prop
  | start {c : Conf I P W} : init c → ReachUnder init ok c
  | next {c c' : Conf I P W} {i : I} {a : A} :
      ReachUnder init ok c → ok c i a → M.next c i a = some c' → ReachUnder init ok c'
  | change {c : Conf I P W} (b : B) :
      ReachUnder init ok c → ReachUnder init ok ⟨c.procs, change b c.world⟩

variable {M} {change} {init : Conf I P W → Prop} {ok : Conf I P W → I → A → Prop}

theorem ReachUnder.invariant {Q : Conf I P W → Prop} (hinit : ∀ c, init c → Q c)
    (hstep : ∀ c c' i a, Q c → ok c i a → M.next c i a = some c' → Q c')
    (hchange : ∀ c b, Q c → Q ⟨c.procs, change b c.world⟩)
    {c : Conf I P W} (h : M.ReachUnder change init ok c) : Q c := by
  induction h with
  | start h => exact hinit _ h
  | next _ hok hnext ih => exact hstep _ _ _ _ ih hok hnext
  | change b _ ih => exact hchange _ b ih

variable (M) (change) (ok)

/-- Run a schedule of turns and changes. -/
def execUnder [∀ c i a, Decidable (ok c i a)] (c : Conf I P W) :
    List ((I × A) ⊕ B) → Option (Conf I P W)
  | [] => some c
  | .inl (i, a) :: rest =>
    if ok c i a then (M.next c i a).bind fun c' => execUnder c' rest else none
  | .inr b :: rest => execUnder ⟨c.procs, change b c.world⟩ rest

variable {M} {change} {ok}

theorem reachUnder_of_execUnder [∀ c i a, Decidable (ok c i a)] :
    ∀ {c c' : Conf I P W} {run : List ((I × A) ⊕ B)},
      M.ReachUnder change init ok c → M.execUnder change ok c run = some c' →
        M.ReachUnder change init ok c'
  | _, _, [], h, he => by simp only [execUnder, Option.some.injEq] at he; exact he ▸ h
  | c, c', .inl (i, a) :: rest, h, he => by
    simp only [execUnder, Option.ite_none_right_eq_some, Option.bind_eq_some_iff] at he
    obtain ⟨hok, d, hd, he⟩ := he
    exact reachUnder_of_execUnder (h.next hok hd) he
  | c, c', .inr b :: rest, h, he => reachUnder_of_execUnder (h.change b) he

end Interference

end Machine
