import NextBallUp.Lib.RowLocks
import Mathlib.Data.List.Perm.Basic

/-!
# Statements over many rows

An `UPDATE` or `DELETE` of many rows under READ COMMITTED. The statement sees the rows that satisfy
its condition when it begins. It then comes to them one after the other, waits for each one that
another session has locked, and evaluates its condition again on the row as it finds it. A row that
has been inserted since it began it does not see at all.

## Main definitions

* `Bulk`: where such a statement stands
* `Bulk.step`: one turn of it
* `Bulk.Covers`: no row escapes the statement

## Main results

* `Bulk.step_locked`, `Bulk.ownsAll_step`: a turn locks free rows, and remembers those it has locked
* `Bulk.Covers.step`: as long as no row is inserted, the statement comes to all of them
-/

/-- A statement over many rows: it has not begun; it comes to the row under `k` next; it has come to
all of them. `locked` are the keys of the rows that it has locked so far. -/
inductive Bulk (K : Type*)
  | select
  | next (k : K) (rest locked : List K)
  | finished (locked : List K)

namespace Bulk

variable {K R S : Type*}

/-- The next row of the statement. -/
def loop (locked : List K) : List K → Bulk K
  | [] => .finished locked
  | k :: rest => .next k rest locked

/-- The keys of the rows that the statement has locked. -/
def locked : Bulk K → List K
  | .select => []
  | .next _ _ locked | .finished locked => locked

@[simp] theorem locked_loop (l ks : List K) : (loop l ks).locked = l := by
  cases ks <;> rfl

variable [DecidableEq K] [DecidableEq S]

/-- One turn of a statement over the rows that satisfy `p`: where it then stands, and the keys it
locks. `keys` are the keys that are or have been in use, and `snapshot` is the order in which the
statement comes to its rows. -/
def step (t : Table K R S) (s : S) (p : R → Bool) (keys snapshot : List K) :
    Bulk K → Option (Bulk K × List K)
  | .select =>
    if snapshot.isPerm (keys.filter fun k => (t.row k).any p) then some (loop [] snapshot, [])
    else none
  | .next k rest locked =>
    t.locate s k p fun
      | none => (loop locked rest, [])
      | some _ => (loop (locked ++ [k]) rest, [k])
  | .finished _ => none

/-- **A turn locks free rows, and remembers exactly those it has locked.** -/
theorem step_locked {t : Table K R S} {s : S} {p : R → Bool} {keys snapshot ks : List K}
    {b b' : Bulk K} (h : b.step t s p keys snapshot = some (b', ks)) :
    b'.locked = b.locked ++ ks ∧ ∀ k ∈ ks, t.Free s k ∧ ∃ r, t.row k = some r := by
  cases b with
  | select =>
    simp only [step] at h
    split at h <;> cases h
    exact ⟨locked_loop .., by simp⟩
  | next k rest locked =>
    simp only [step, Table.locate_eq_some] at h
    obtain ⟨o, ho, he⟩ := h
    cases ho with
    | miss =>
      cases he
      exact ⟨by rw [locked_loop, List.append_nil, Bulk.locked], by simp⟩
    | hit hr _ hf =>
      cases he
      exact ⟨by rw [locked_loop, Bulk.locked], by simpa using ⟨hf, _, hr⟩⟩
  | finished => cases h

/-- The session of the statement owns the rows that the statement has locked. -/
theorem ownsAll_step {t : Table K R S} {s : S} {p : R → Bool} {keys snapshot ks : List K}
    {b b' : Bulk K} (h : b.step t s p keys snapshot = some (b', ks)) (ho : t.OwnsAll s b.locked) :
    (t.acquireAll s ks).OwnsAll s b'.locked := by
  obtain ⟨hb, hks⟩ := step_locked h
  intro k hk
  rw [hb, List.mem_append] at hk
  rcases hk with hk | hk
  · obtain ⟨r, hr⟩ := ho k hk
    exact ⟨r, hr.acquireAll⟩
  · obtain ⟨-, r, hr⟩ := hks k hk
    exact ⟨r, hr ▸ Table.owns_acquireAll hk⟩

/-! ### No row escapes -/

/-- The keys that the statement has yet to come to. -/
def todo : Bulk K → List K
  | .select | .finished _ => []
  | .next k rest _ => k :: rest

omit [DecidableEq K] in
@[simp] theorem todo_loop (l ks : List K) : (loop l ks).todo = ks := by
  cases ks <;> rfl

/-- Once the statement has begun, it has locked every row that satisfies `p`, or comes to it. -/
def Covers (b : Bulk K) (t : Table K R S) (p : R → Bool) : Prop :=
  b ≠ .select → ∀ k r, t.row k = some r → p r = true → k ∈ b.locked ∨ k ∈ b.todo

omit [DecidableEq K] [DecidableEq S] in
theorem covers_select {t : Table K R S} {p : R → Bool} : (Bulk.select : Bulk K).Covers t p :=
  fun h => (h rfl).elim

omit [DecidableEq K] [DecidableEq S] in
/-- Rows may come to satisfy the condition no more, and may be deleted. -/
theorem Covers.mono {t t' : Table K R S} {p : R → Bool} {b : Bulk K} (h : b.Covers t p)
    (ht : ∀ k r', t'.row k = some r' → p r' = true → ∃ r, t.row k = some r ∧ p r = true) :
    b.Covers t' p := by
  intro hb k r' hr' hp'
  obtain ⟨r, hr, hp⟩ := ht k r' hr' hp'
  exact h hb k r hr hp

/-- **No row escapes a turn.** -/
theorem Covers.step {t : Table K R S} {s : S} {p : R → Bool} {keys snapshot ks : List K}
    {b b' : Bulk K} (hc : b.Covers t p) (hkeys : ∀ k r, t.row k = some r → k ∈ keys)
    (h : b.step t s p keys snapshot = some (b', ks)) : b'.Covers t p := by
  intro _ k r hr hp
  cases b with
  | select =>
    simp only [Bulk.step] at h
    split at h
    · next hperm =>
      cases h
      rw [todo_loop]
      refine .inr ((List.isPerm_iff.mp hperm).mem_iff.mpr ?_)
      rw [List.mem_filter]
      exact ⟨hkeys k r hr, by simp [hr, hp]⟩
    · cases h
  | next k' rest locked =>
    have hk : k ∈ locked ∨ k = k' ∨ k ∈ rest := by
      have := hc (by intro h; cases h) k r hr hp
      rwa [todo, List.mem_cons] at this
    simp only [Bulk.step, Table.locate_eq_some] at h
    obtain ⟨o, ho, he⟩ := h
    cases ho with
    | miss hm =>
      cases he
      rw [locked_loop, todo_loop]
      rcases hk with hk | rfl | hk
      · exact .inl hk
      · rw [hm r hr] at hp
        cases hp
      · exact .inr hk
    | hit =>
      cases he
      rw [locked_loop, todo_loop, List.mem_append, List.mem_singleton]
      rcases hk with hk | rfl | hk
      · exact .inl (.inl hk)
      · exact .inl (.inr rfl)
      · exact .inr hk
  | finished => cases h

end Bulk
