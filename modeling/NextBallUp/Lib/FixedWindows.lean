import Mathlib.Data.Finset.Card
import Mathlib.Order.Interval.Finset.Nat

/-!
# Counters of fixed windows

A window of time begins with an event, and counts the events until it has passed. The first event
after it begins the next window. Who lets the first `m` events of every window pass lets fewer than
`2 * m` pass in any interval that is as long as a window.

## Main definitions

* `Window`, `hit`: a window, and the window of the next event
* `hits`: events, each with its window as it leaves it
* `current`: the window after some events

## Main results

* `length_filter_hits_le`: **the first events of the windows in an interval**
* `count_hit_of_passed`: **after a window has passed**, only later events are counted
-/

namespace FixedWindow

structure Window where
  start : ℕ
  /-- How many events the window has counted. -/
  count : ℕ
  deriving DecidableEq, Repr

variable {α : Type*} {length : ℕ} {w w' : Window} {t : ℕ}

/-- The window of an event at this time. -/
def hit (length : ℕ) (current : Option Window) (t : ℕ) : Window :=
  match current with
  | some w => if t ≤ w.start + length then ⟨w.start, w.count + 1⟩ else ⟨t, 1⟩
  | none => ⟨t, 1⟩

/-- The events, with the windows that they leave. -/
def hits (time : α → ℕ) (length : ℕ) : Option Window → List α → List (α × Window)
  | _, [] => []
  | current, e :: events =>
    let w := hit length current (time e)
    (e, w) :: hits time length (some w) events

/-- The window that the events leave. -/
def current (time : α → ℕ) (length : ℕ) : Option Window → List α → Option Window
  | w, [] => w
  | w, e :: events => current time length (some (hit length w (time e))) events

/-! ### Windows follow one another -/

/-- The second window is the first one after more events, or a later one. -/
def Precedes (length : ℕ) (w w' : Window) : Prop :=
  (w'.start = w.start ∧ w.count < w'.count) ∨ w.start + length < w'.start

theorem Precedes.trans {w'' : Window} (h : Precedes length w w') (h' : Precedes length w' w'') :
    Precedes length w w'' := by
  unfold Precedes at *
  omega

/-- The event is counted by the window, or begins one. -/
theorem hit_cases (length : ℕ) (w : Window) (t : ℕ) :
    (t ≤ w.start + length ∧ hit length (some w) t = ⟨w.start, w.count + 1⟩) ∨
      (w.start + length < t ∧ hit length (some w) t = ⟨t, 1⟩) := by
  by_cases h : t ≤ w.start + length
  · exact .inl ⟨h, if_pos h⟩
  · exact .inr ⟨by omega, if_neg h⟩

theorem precedes_hit (w : Window) (t : ℕ) : Precedes length w (hit length (some w) t) := by
  rcases hit_cases length w t with ⟨-, h⟩ | ⟨hlt, h⟩
  · rw [h]
    exact .inl ⟨rfl, Nat.lt_succ_self _⟩
  · rw [h]
    exact .inr hlt

theorem count_hit_pos (length : ℕ) (current : Option Window) (t : ℕ) :
    0 < (hit length current t).count := by
  cases current with
  | none => exact Nat.one_pos
  | some w =>
    rcases hit_cases length w t with ⟨-, h⟩ | ⟨-, h⟩
    · rw [h]
      exact Nat.succ_pos _
    · rw [h]
      exact Nat.one_pos

/-- The event lies in its window. -/
theorem hit_covers (length : ℕ) {current : Option Window} (h : ∀ w ∈ current, w.start ≤ t) :
    (hit length current t).start ≤ t ∧ t ≤ (hit length current t).start + length := by
  cases current with
  | none => exact ⟨le_rfl, Nat.le_add_right t length⟩
  | some w =>
    rcases hit_cases length w t with ⟨hle, hhit⟩ | ⟨-, hhit⟩
    · rw [hhit]
      exact ⟨h w rfl, hle⟩
    · rw [hhit]
      exact ⟨le_rfl, Nat.le_add_right t length⟩

variable {time : α → ℕ} {events : List α}

theorem mem_of_mem_hits {w : Option Window} {h : α × Window} (hh : h ∈ hits time length w events) :
    h.1 ∈ events := by
  induction events generalizing w with
  | nil => exact (List.not_mem_nil hh).elim
  | cons e events ih =>
    rcases List.mem_cons.mp hh with rfl | hh
    · exact List.mem_cons_self
    · exact List.mem_cons_of_mem _ (ih hh)

theorem precedes_of_mem_hits {h : α × Window} (hh : h ∈ hits time length (some w) events) :
    Precedes length w h.2 := by
  induction events generalizing w with
  | nil => exact (List.not_mem_nil hh).elim
  | cons e events ih =>
    rcases List.mem_cons.mp hh with rfl | hh
    · exact precedes_hit w (time e)
    · exact (precedes_hit w (time e)).trans (ih hh)

theorem pairwise_hits (time : α → ℕ) (length : ℕ) (w : Option Window) (events : List α) :
    (hits time length w events).Pairwise fun h h' => Precedes length h.2 h'.2 := by
  induction events generalizing w with
  | nil => exact List.Pairwise.nil
  | cons e events ih => exact List.pairwise_cons.mpr ⟨fun h hh => precedes_of_mem_hits hh, ih _⟩

theorem count_pos_of_mem_hits {w : Option Window} {h : α × Window}
    (hh : h ∈ hits time length w events) : 0 < h.2.count := by
  induction events generalizing w with
  | nil => exact (List.not_mem_nil hh).elim
  | cons e events ih =>
    rcases List.mem_cons.mp hh with rfl | hh
    · exact count_hit_pos length w (time e)
    · exact ih hh

/-- Events that come in their order lie in their windows. -/
theorem covers_of_mem_hits {w : Option Window} (hw : ∀ v ∈ w, ∀ e ∈ events, v.start ≤ time e)
    (hsorted : events.Pairwise fun e e' => time e ≤ time e') {h : α × Window}
    (hh : h ∈ hits time length w events) :
    h.2.start ≤ time h.1 ∧ time h.1 ≤ h.2.start + length := by
  induction events generalizing w with
  | nil => exact (List.not_mem_nil hh).elim
  | cons e events ih =>
    obtain ⟨hfirst, hrest⟩ := List.pairwise_cons.mp hsorted
    have hcovers := hit_covers length fun v hv => hw v hv e List.mem_cons_self
    rcases List.mem_cons.mp hh with rfl | hh
    · exact hcovers
    · refine ih (fun v hv e' he' => ?_) hrest hh
      rw [← Option.some.inj hv]
      exact hcovers.1.trans (hfirst e' he')

/-- The first event of a window begins it. -/
theorem start_eq_of_count_eq_one {w : Option Window} (hw : ∀ v ∈ w, 0 < v.count) {h : α × Window}
    (hh : h ∈ hits time length w events) (hone : h.2.count = 1) : h.2.start = time h.1 := by
  induction events generalizing w with
  | nil => exact (List.not_mem_nil hh).elim
  | cons e events ih =>
    rcases List.mem_cons.mp hh with rfl | hh
    · cases w with
      | none => rfl
      | some w =>
        dsimp only at hone ⊢
        rcases hit_cases length w (time e) with ⟨-, hhit⟩ | ⟨-, hhit⟩
        · have := hw w rfl
          rw [hhit] at hone
          dsimp only at hone
          omega
        · rw [hhit]
    · exact ih (fun v hv => Option.some.inj hv ▸ count_hit_pos length w (time e)) hh

/-! ### How many events there are -/

/-- Of one window there is one event at most for each count. -/
theorem length_le_of_start_eq (start : ℕ) {low m : ℕ} {l : List (α × Window)}
    (hl : l.Pairwise fun h h' => Precedes length h.2 h'.2)
    (h : ∀ h ∈ l, h.2.start = start ∧ low ≤ h.2.count ∧ h.2.count ≤ m) :
    l.length ≤ m + 1 - low := by
  have hlt : (l.map fun h => h.2.count).Pairwise (· < ·) := by
    refine List.pairwise_map.mpr (hl.imp_of_mem fun {g g'} hg hg' hpre => ?_)
    have hstart := (h g hg).1
    have hstart' := (h g' hg').1
    unfold Precedes at hpre
    omega
  have hnodup : (l.map fun h => h.2.count).Nodup := hlt.imp fun hlt => hlt.ne
  have hsub : (l.map fun h => h.2.count).toFinset ⊆ Finset.Icc low m := by
    intro n hn
    obtain ⟨g, hg, rfl⟩ := List.mem_map.mp (List.mem_toFinset.mp hn)
    exact Finset.mem_Icc.mpr (h g hg).2
  calc l.length = (l.map fun h => h.2.count).toFinset.card := by
        rw [List.toFinset_card_of_nodup hnodup, List.length_map]
    _ ≤ (Finset.Icc low m).card := Finset.card_le_card hsub
    _ = m + 1 - low := Nat.card_Icc low m

/-- An interval as long as a window meets two windows at most. -/
theorem exists_starts (time : α → ℕ) (a : ℕ) {l : List (α × Window)}
    (hl : l.Pairwise fun h h' => Precedes length h.2 h'.2)
    (h : ∀ h ∈ l, (h.2.start ≤ time h.1 ∧ time h.1 ≤ h.2.start + length) ∧
      a ≤ time h.1 ∧ time h.1 ≤ a + length) :
    ∃ start start', ∀ h ∈ l, h.2.start = start ∨
      (h.2.start = start' ∧ start + length < start') := by
  cases l with
  | nil => exact ⟨0, 0, fun h hh => (List.not_mem_nil hh).elim⟩
  | cons first rest =>
    obtain ⟨hfirst, hrest⟩ := List.pairwise_cons.mp hl
    have hin := h first List.mem_cons_self
    -- Of the events after the first window, the first one fixes the second window.
    cases hlate : rest.find? fun h => h.2.start ≠ first.2.start with
    | none =>
      refine ⟨first.2.start, 0, fun g hg => .inl ?_⟩
      rcases List.mem_cons.mp hg with rfl | hg
      · rfl
      · simpa using List.find?_eq_none.mp hlate g hg
    | some late =>
      obtain ⟨hne, before, after, rfl, hbefore⟩ := List.find?_eq_some_iff_append.mp hlate
      have hne' : late.2.start ≠ first.2.start := by simpa using hne
      have hpre := hfirst late (by simp)
      refine ⟨first.2.start, late.2.start, fun g hg => ?_⟩
      rcases List.mem_cons.mp hg with rfl | hg
      · exact .inl rfl
      rcases List.mem_append.mp hg with hg | hg
      · exact .inl (by simpa using hbefore g hg)
      unfold Precedes at hpre
      rcases List.mem_cons.mp hg with rfl | hg
      · exact .inr ⟨rfl, by omega⟩
      have hpre' := (List.pairwise_cons.mp (List.pairwise_append.mp hrest).2.1).1 g hg
      have hin' := h g (by simp [hg])
      unfold Precedes at hpre'
      omega

/-- **In any interval that is as long as a window** there are fewer than twice as many events as are
among the first `m` of their windows: of two windows, the first one begins before the interval. -/
theorem length_filter_hits_le (length : ℕ) (w : Option Window)
    (hw : ∀ v ∈ w, ∀ e ∈ events, v.start ≤ time e)
    (hcount : ∀ v ∈ w, 0 < v.count) (hsorted : events.Pairwise fun e e' => time e ≤ time e')
    (a m : ℕ) :
    ((hits time length w events).filter fun h =>
      a ≤ time h.1 ∧ time h.1 ≤ a + length ∧ h.2.count ≤ m).length ≤ 2 * m - 1 := by
  have hpairwise := (pairwise_hits time length w events).filter fun h =>
    decide (a ≤ time h.1 ∧ time h.1 ≤ a + length ∧ h.2.count ≤ m)
  generalize hl : ((hits time length w events).filter fun h =>
    decide (a ≤ time h.1 ∧ time h.1 ≤ a + length ∧ h.2.count ≤ m)) = l at hpairwise
  have hmem : ∀ h ∈ l, h ∈ hits time length w events ∧
      a ≤ time h.1 ∧ time h.1 ≤ a + length ∧ h.2.count ≤ m := by
    intro h hh
    rw [← hl] at hh
    exact ⟨(List.mem_filter.mp hh).1, of_decide_eq_true (List.mem_filter.mp hh).2⟩
  have hcovers : ∀ h ∈ l, h.2.start ≤ time h.1 ∧ time h.1 ≤ h.2.start + length :=
    fun h hh => covers_of_mem_hits hw hsorted (hmem h hh).1
  obtain ⟨start, start', hstarts⟩ := exists_starts time a hpairwise
    fun h hh => ⟨hcovers h hh, (hmem h hh).2.1, (hmem h hh).2.2.1⟩
  have hlength := List.length_eq_length_filter_add (l := l) fun h => decide (h.2.start = start)
  have hfirst : (l.filter fun h => h.2.start = start).length ≤ m + 1 - 1 :=
    length_le_of_start_eq start (hpairwise.filter _) fun h hh => by
      obtain ⟨hh, hstart⟩ := List.mem_filter.mp hh
      exact ⟨of_decide_eq_true hstart, count_pos_of_mem_hits (hmem h hh).1, (hmem h hh).2.2.2⟩
  cases hsecond : l.filter fun h => !decide (h.2.start = start) with
  | nil =>
    rw [hsecond, List.length_nil] at hlength
    omega
  | cons late rest =>
    have hlate {h : α × Window} (hh : h ∈ l.filter fun h => !decide (h.2.start = start)) :
        h ∈ l ∧ h.2.start = start' ∧ start + length < start' := by
      obtain ⟨hh, hstart⟩ := List.mem_filter.mp hh
      have hne : h.2.start ≠ start := by simpa using hstart
      exact ⟨hh, (hstarts h hh).resolve_left hne⟩
    obtain ⟨hmemLate, hstartLate, hgap⟩ := hlate (hsecond ▸ List.mem_cons_self)
    have hbound := (hmem late hmemLate).2
    have hposLate := count_pos_of_mem_hits (hmem late hmemLate).1
    have hcoversLate := hcovers late hmemLate
    have hsecondLe : (l.filter fun h => !decide (h.2.start = start)).length ≤ m + 1 - 1 :=
      length_le_of_start_eq start' (hpairwise.filter _) fun h hh =>
        ⟨(hlate hh).2.1, count_pos_of_mem_hits (hmem h (hlate hh).1).1, (hmem h (hlate hh).1).2.2.2⟩
    have hfirst' : (l.filter fun h => h.2.start = start).length ≤ m + 1 - 2 :=
      length_le_of_start_eq start (hpairwise.filter _) fun h hh => by
        obtain ⟨hh, hstart⟩ := List.mem_filter.mp hh
        have hstart := of_decide_eq_true hstart
        have hpos := count_pos_of_mem_hits (hmem h hh).1
        refine ⟨hstart, ?_, (hmem h hh).2.2.2⟩
        by_contra hone
        have hbegin := start_eq_of_count_eq_one hcount (hmem h hh).1 (by omega)
        have hin := (hmem h hh).2
        omega
    omega

/-! ### After a window -/

theorem exists_current (time : α → ℕ) (length : ℕ) (w : Window) (events : List α) :
    ∃ w', current time length (some w) events = some w' := by
  induction events generalizing w with
  | nil => exact ⟨w, rfl⟩
  | cons e events ih => exact ih _

theorem count_pos_of_current (time : α → ℕ) (length : ℕ) (events : List α) {w : Option Window}
    (hw : ∀ v ∈ w, 0 < v.count) :
    ∀ v ∈ current time length w events, 0 < v.count := by
  induction events generalizing w with
  | nil => exact hw
  | cons e events ih =>
    refine ih fun v hv => ?_
    rw [← Option.some.inj hv]
    exact count_hit_pos length w (time e)

/-- No window begins after the events that it has counted. -/
theorem start_le_of_current (length : ℕ) {t : ℕ} {w : Option Window} (hw : ∀ v ∈ w, v.start ≤ t)
    (h : ∀ e ∈ events, time e ≤ t) : ∀ v ∈ current time length w events, v.start ≤ t := by
  induction events generalizing w with
  | nil => exact hw
  | cons e events ih =>
    refine ih (fun v hv => ?_) fun e' he' => h e' (List.mem_cons_of_mem _ he')
    rw [← Option.some.inj hv]
    cases w with
    | none => exact h e List.mem_cons_self
    | some w =>
      rcases hit_cases length w (time e) with ⟨-, hhit⟩ | ⟨-, hhit⟩
      · rw [hhit]
        exact hw w rfl
      · rw [hhit]
        exact h e List.mem_cons_self

/-- The window is still the one before the events, or they alone are counted. -/
theorem current_cases (h : current time length (some w) events = some w') :
    (w'.start = w.start ∧ w'.count = w.count + events.length) ∨ w'.count ≤ events.length := by
  induction events generalizing w with
  | nil =>
    obtain rfl := Option.some.inj h
    exact .inl ⟨rfl, rfl⟩
  | cons e events ih =>
    have hrec := ih (w := hit length (some w) (time e)) h
    rw [List.length_cons]
    rcases hit_cases length w (time e) with ⟨-, hhit⟩ | ⟨-, hhit⟩
    · rw [hhit] at hrec
      dsimp only at hrec
      omega
    · rw [hhit] at hrec
      dsimp only at hrec
      omega

/-- **After a window has passed**, an event is counted with those that came since, at most. -/
theorem count_hit_of_passed {passed : Window} (hpassed : passed.start + length < t)
    (hw : current time length (some passed) events = some w) :
    (hit length (some w) t).count ≤ events.length + 1 := by
  rcases hit_cases length w t with ⟨hle, hhit⟩ | ⟨-, hhit⟩
  · rw [hhit]
    rcases current_cases hw with ⟨hstart, -⟩ | hcount
    · omega
    · exact Nat.succ_le_succ hcount
  · rw [hhit]
    exact Nat.succ_le_succ (Nat.zero_le _)

end FixedWindow
