import NextBallUp.Lib.RowLocks
import Mathlib.Data.List.Perm.Basic

/-!
# Rows under unique constraints

A table into which sessions insert rows, of which no two may clash. A row that a transaction has
inserted and not yet committed is seen by no other session, but it is in the way of theirs: an
insertion that clashes with it waits until that transaction ends, and one that clashes with a row
that the session sees is refused.

## What is deliberately absent

Rows are neither deleted nor changed. Where they are, `Table` has one key for each row, and
`Table.tryInsert` is the insertion under a key.

## Main definitions

* `UniqueTable`: committed rows and those inserted by open transactions
* `UniqueTable.tryInsert`: a statement that inserts a row
* `UniqueTable.Consistent`: no two rows clash, committed or not
* `Table.tryInsert`: a statement that inserts a row under a key

## Main results

* `UniqueTable.tryInsert_eq_some`, `Table.tryInsert_eq_some`: the outcomes of an insertion
* `UniqueTable.Consistent.insert`, `.commit`, `.rollback`: **no operation lets two rows clash**
-/

/-- Committed rows, and the rows that open transactions have inserted, each with its session. -/
structure UniqueTable (R S : Type*) where
  /-- The committed rows. -/
  rows : List R
  /-- The rows inserted and not yet committed. -/
  pending : List (S × R)

namespace UniqueTable

variable {R S : Type*} [DecidableEq S]

/-- A table without rows. -/
def empty : UniqueTable R S := ⟨[], []⟩

/-- The rows that session `s` has inserted and not yet committed. -/
def own (t : UniqueTable R S) (s : S) : List R := (t.pending.filter fun e => e.1 = s).map Prod.snd

/-- `INSERT` of one row, and what is done when it is refused and when it is not. The statement waits
for a transaction that has inserted a row with which this one clashes. -/
def tryInsert {α : Type*} (clash : R → R → Prop) [DecidableRel clash] (t : UniqueTable R S) (s : S)
    (r : R) (refused done : α) : Option α :=
  if ∃ q ∈ t.rows ++ t.own s, clash r q then some refused
  else if ∃ e ∈ t.pending, clash r e.2 then none
  else some done

/-- Insert a row. -/
def insert (t : UniqueTable R S) (s : S) (r : R) : UniqueTable R S :=
  { t with pending := (s, r) :: t.pending }

/-- The transaction of session `s` commits. -/
def commit (t : UniqueTable R S) (s : S) : UniqueTable R S where
  rows := t.rows ++ t.own s
  pending := t.pending.filter fun e => e.1 ≠ s

/-- The transaction of session `s` is rolled back. -/
def rollback (t : UniqueTable R S) (s : S) : UniqueTable R S :=
  { t with pending := t.pending.filter fun e => e.1 ≠ s }

variable {t : UniqueTable R S} {s s' : S} {r : R}

/-! ### What each operation does to the rows -/

omit [DecidableEq S] in
@[simp] theorem rows_insert : (t.insert s r).rows = t.rows := rfl

@[simp] theorem rows_commit : (t.commit s).rows = t.rows ++ t.own s := rfl

@[simp] theorem rows_rollback : (t.rollback s).rows = t.rows := rfl

omit [DecidableEq S] in
@[simp] theorem rows_empty : (empty : UniqueTable R S).rows = [] := rfl

@[simp] theorem own_empty : (empty : UniqueTable R S).own s = [] := rfl

@[simp] theorem own_insert_self : (t.insert s r).own s = r :: t.own s := by
  simp [own, insert]

theorem own_insert_of_ne (h : s' ≠ s) : (t.insert s r).own s' = t.own s' := by
  simp [own, insert, h.symm]

@[simp] theorem own_commit_self : (t.commit s).own s = [] := by
  simp [own, commit]

@[simp] theorem own_rollback_self : (t.rollback s).own s = [] := by
  simp [own, rollback]

/-- What another session has inserted stays when a transaction ends. -/
theorem own_filter_of_ne (h : s' ≠ s) :
    (t.pending.filter fun e => e.1 ≠ s).filter (fun e => e.1 = s') =
      t.pending.filter fun e => e.1 = s' := by
  rw [List.filter_filter]
  refine List.filter_congr fun e _ => ?_
  by_cases he : e.1 = s'
  · simp [he, h]
  · simp [he]

theorem own_commit_of_ne (h : s' ≠ s) : (t.commit s).own s' = t.own s' := by
  rw [own, commit, own_filter_of_ne h, own]

theorem own_rollback_of_ne (h : s' ≠ s) : (t.rollback s).own s' = t.own s' := by
  rw [own, rollback, own_filter_of_ne h, own]

/-! ### Consistency -/

variable {clash : R → R → Prop}

/-- No row of the table clashes with this one. -/
def Fits (clash : R → R → Prop) (t : UniqueTable R S) (r : R) : Prop :=
  ∀ q ∈ t.rows ++ t.pending.map Prod.snd, ¬ clash r q

/-- No two rows of the table clash. -/
def Consistent (clash : R → R → Prop) (t : UniqueTable R S) : Prop :=
  (t.rows ++ t.pending.map Prod.snd).Pairwise fun r q => ¬ clash r q

/-- **The outcomes of an insertion.** -/
theorem tryInsert_eq_some [DecidableRel clash] {α : Type*} {refused done x : α} :
    t.tryInsert clash s r refused done = some x ↔
      (∃ q ∈ t.rows ++ t.own s, clash r q) ∧ refused = x ∨ t.Fits clash r ∧ done = x := by
  have hown : ∀ q ∈ t.own s, q ∈ t.pending.map Prod.snd := fun q hq =>
    List.map_subset _ (List.filter_subset_self _) hq
  unfold tryInsert
  split
  · next h =>
    have hfit : ¬ t.Fits clash r := by
      intro hf
      obtain ⟨q, hq, hc⟩ := h
      rcases List.mem_append.mp hq with hq | hq
      · exact hf q (List.mem_append_left _ hq) hc
      · exact hf q (List.mem_append_right _ (hown q hq)) hc
    simp only [Option.some.injEq, h, hfit, false_and, true_and, or_false]
  · next h =>
    split
    · next h' =>
      obtain ⟨e, he, hc⟩ := h'
      have hfit : ¬ t.Fits clash r := fun hf =>
        hf e.2 (List.mem_append_right _ (List.mem_map_of_mem he)) hc
      simp only [h, hfit, false_and, or_self, reduceCtorEq]
    · next h' =>
      have hfit : t.Fits clash r := by
        intro q hq hc
        rcases List.mem_append.mp hq with hq | hq
        · exact h ⟨q, List.mem_append_left _ hq, hc⟩
        · obtain ⟨e, he, rfl⟩ := List.mem_map.mp hq
          exact h' ⟨e, he, hc⟩
      simp only [Option.some.injEq, h, hfit, false_and, true_and, false_or]

omit [DecidableEq S] in
theorem consistent_empty : (empty : UniqueTable R S).Consistent clash := List.Pairwise.nil

omit [DecidableEq S] in
theorem Consistent.rows_pairwise (h : t.Consistent clash) :
    t.rows.Pairwise fun r q => ¬ clash r q :=
  (List.pairwise_append.mp h).1

variable (hsymm : ∀ r q, clash r q → clash q r)
include hsymm

omit [DecidableEq S] in
theorem Consistent.insert (h : t.Consistent clash) (hr : t.Fits clash r) :
    (t.insert s r).Consistent clash := by
  have hperm : (t.rows ++ ((s, r) :: t.pending).map Prod.snd).Perm
      (r :: (t.rows ++ t.pending.map Prod.snd)) := List.perm_middle
  rw [Consistent, UniqueTable.insert, hperm.pairwise_iff fun hn hc => hn (hsymm _ _ hc)]
  exact List.pairwise_cons.mpr ⟨hr, h⟩

theorem Consistent.commit (h : t.Consistent clash) : (t.commit s).Consistent clash := by
  have hperm : (t.rows ++ t.own s ++ (t.pending.filter fun e => e.1 ≠ s).map Prod.snd).Perm
      (t.rows ++ t.pending.map Prod.snd) := by
    rw [List.append_assoc, own, ← List.map_append]
    refine (List.Perm.map _ ?_).append_left _
    simpa using List.filter_append_perm (fun e : S × R => decide (e.1 = s)) t.pending
  rw [Consistent, UniqueTable.commit, hperm.pairwise_iff fun hn hc => hn (hsymm _ _ hc)]
  exact h

omit hsymm in
theorem Consistent.rollback (h : t.Consistent clash) : (t.rollback s).Consistent clash := by
  have hsub : ((t.pending.filter fun e => e.1 ≠ s).map Prod.snd).Sublist
      (t.pending.map Prod.snd) := List.filter_sublist.map _
  exact h.sublist (hsub.append_left _)

end UniqueTable

namespace Table

variable {K R S : Type*} [DecidableEq S] {t : Table K R S} {s : S} {k : K}

/-- `INSERT` of a row under a key, and what is done when it is refused and when it is not. The
statement waits for a transaction that has inserted a row under the key. -/
def tryInsert {α : Type*} (t : Table K R S) (s : S) (k : K) (refused done : α) : Option α :=
  match t.row k with
  | some _ => some refused
  | none => if t.Free s k then some done else none

/-- The outcomes of an insertion under a key. -/
theorem tryInsert_eq_some {α : Type*} {refused done x : α} :
    t.tryInsert s k refused done = some x ↔
      (∃ r, t.row k = some r) ∧ refused = x ∨ (t.row k = none ∧ t.Free s k) ∧ done = x := by
  unfold tryInsert
  cases hr : t.row k with
  | some r => simp
  | none =>
    by_cases hf : t.Free s k
    · simp [hf]
    · simp [hf]

end Table
