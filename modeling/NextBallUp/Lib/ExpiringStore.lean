import Mathlib.Algebra.Order.Group.Unbundled.Int
import Mathlib.Logic.Function.Basic
import NextBallUp.Lib.FixedWindows

/-!
# A store whose keys expire

Redis, as far as scripts count events with it: integers under keys, each with the millisecond at
which it expires. A script runs at one time and on its own.

## Main definitions

* `Store`, `live`
* `incr`, `expire`, `ttl`: the commands, on what stands under their key
* `Store.countHit`: a script that counts an event in a fixed window

## Main results

* `Store.countHit_spec`: **the script is a counter of fixed windows**
* `Store.countHit_of_ne`, `Store.countHit_congr`: it keeps all other keys, and does not read them

## What is deliberately absent

Eviction, replication and the overflow of an integer.
-/

namespace Expiring

structure Entry where
  value : ℤ
  /-- In milliseconds. -/
  expiresAt : Option ℕ
  deriving DecidableEq, Repr

/-- What a command finds under its key. -/
def live (now : ℕ) (entry : Option Entry) : Option Entry :=
  entry.filter fun entry => entry.expiresAt.all fun t => decide (now ≤ t)

/-- `INCR` -/
def incr : Option Entry → ℤ × Option Entry
  | some entry => (entry.value + 1, some { entry with value := entry.value + 1 })
  | none => (1, some ⟨1, none⟩)

/-- `EXPIRE`: a time that is not in the future deletes the key. -/
def expire (now : ℕ) (seconds : ℤ) (entry : Option Entry) : Option Entry :=
  if 0 < seconds then
    entry.map fun entry => { entry with expiresAt := some (now + 1000 * seconds.toNat) }
  else none

/-- `TTL`: the seconds that are left, to the nearest one. -/
def ttl (now : ℕ) : Option Entry → ℤ
  | some ⟨_, some t⟩ => ((t - now + 500) / 1000 : ℕ)
  | some ⟨_, none⟩ => -1
  | none => -2

/-- Counts an event; the first one fixes when the key expires. Returns the count and the seconds
that are left. -/
def countEntry (now : ℕ) (seconds : ℤ) (entry : Option Entry) : (ℤ × ℤ) × Option Entry :=
  let (current, entry) := incr (live now entry)
  let entry := if current = 1 then expire now seconds entry else entry
  ((current, ttl now entry), entry)

/-- An event after the first one. -/
theorem countEntry_of_live {now : ℕ} {entry : Option Entry} {e : Entry}
    (h : live now entry = some e) (hvalue : e.value ≠ 0) (seconds : ℤ) :
    countEntry now seconds entry =
      let e := { e with value := e.value + 1 }
      ((e.value, ttl now (some e)), some e) := by
  rw [countEntry, h]
  simp [incr, hvalue]

abbrev Store (K : Type) := K → Option Entry

namespace Store

variable {K : Type} [DecidableEq K] {store store' : Store K} {key key' : K} {now : ℕ}

/-- A script that counts an event. -/
def countHit (store : Store K) (now : ℕ) (key : K) (seconds : ℤ) : (ℤ × ℤ) × Store K :=
  let (result, entry) := countEntry now seconds (store key)
  (result, Function.update store key entry)

theorem countHit_self (store : Store K) (now : ℕ) (key : K) (seconds : ℤ) :
    (store.countHit now key seconds).2 key = (countEntry now seconds (store key)).2 :=
  Function.update_self ..

/-- Another key is kept. -/
theorem countHit_of_ne (h : key' ≠ key) (store : Store K) (now : ℕ) (seconds : ℤ) :
    (store.countHit now key seconds).2 key' = store key' := Function.update_of_ne h ..

/-- Only the key itself is read. -/
theorem countHit_congr (h : store key = store' key) (now : ℕ) (seconds : ℤ) :
    (store.countHit now key seconds).1 = (store'.countHit now key seconds).1 ∧
      (store.countHit now key seconds).2 key = (store'.countHit now key seconds).2 key := by
  rw [countHit_self, countHit_self, ← h]
  exact ⟨congrArg (fun entry => (countEntry now seconds entry).1) h, rfl⟩

/-! ### Fixed windows -/

/-- What a window leaves under its key. -/
def entryOf (length : ℕ) (w : FixedWindow.Window) : Entry := ⟨w.count, some (w.start + length)⟩

/-- The seconds until a window has passed, to the nearest one. -/
def secondsLeft (length now : ℕ) (w : FixedWindow.Window) : ℤ :=
  ((w.start + length - now + 500) / 1000 : ℕ)

/-- **The script is a counter of fixed windows.** -/
theorem countHit_spec (now : ℕ) {window : Option FixedWindow.Window} {seconds : ℤ} {length : ℕ}
    (hs : 0 < seconds) (hlength : length = 1000 * seconds.toNat)
    (hcount : ∀ w ∈ window, 0 < w.count) (h : store key = window.map (entryOf length)) :
    let hit := FixedWindow.hit length window now
    (store.countHit now key seconds).1 = ((hit.count : ℤ), secondsLeft length now hit) ∧
      (store.countHit now key seconds).2 key = some (entryOf length hit) := by
  have hfresh (he : live now (store key) = none) : countEntry now seconds (store key) =
      ((1, secondsLeft length now ⟨now, 1⟩), some (entryOf length ⟨now, 1⟩)) := by
    rw [countEntry, he, hlength]
    simp only [incr, expire, if_pos hs, Option.map_some, if_true]
    rfl
  have hspec : countEntry now seconds (store key) =
      let hit := FixedWindow.hit length window now
      ((↑hit.count, secondsLeft length now hit), some (entryOf length hit)) := by
    cases window with
    | none =>
      rw [Option.map_none] at h
      exact hfresh (by rw [h]; rfl)
    | some w =>
      rw [Option.map_some] at h
      rcases FixedWindow.hit_cases length w now with ⟨hle, hhit⟩ | ⟨hlt, hhit⟩
      · have hlive : live now (store key) = some (entryOf length w) := by
          rw [h]
          exact Option.filter_some_pos (decide_eq_true hle)
        have hvalue : (entryOf length w).value ≠ 0 := by
          have := hcount w rfl
          show (w.count : ℤ) ≠ 0
          omega
        rw [hhit]
        exact countEntry_of_live hlive hvalue seconds
      · have hdead : live now (store key) = none := by
          rw [h]
          exact Option.filter_some_neg (by simpa [entryOf] using hlt)
        rw [hhit]
        exact hfresh hdead
  exact ⟨congrArg Prod.fst hspec, (countHit_self ..).trans (congrArg Prod.snd hspec)⟩

end Store

end Expiring
