import Mathlib.Data.Nat.Notation
import Mathlib.Logic.Function.Basic

/-!
# Lock files

A lock that is a file. A process takes it by creating the file exclusively and gives it back by
unlinking the path. A contender that finds the file looks at its age, and breaks the lock if it is
too old: it unlinks the path and creates the file anew. Each of these is a call of its own, and
what a call finds need not be what the call before has seen.

## Main definitions

* `LockFile`, `Directory`: the lock files under their paths
* `Acquire`: a contender between two calls, and `Acquire.step`: its next call
* `Directory.Guards`: whoever holds a lock finds the file that it has created under the path
* `Directory.Extends`: no file of an earlier directory comes back with another creator

## Main results

* `Directory.Guards.exclusive`: then no two processes hold the same lock
* `Directory.Guards.create`, `Directory.Guards.touch`, `Directory.Guards.unlink`: what each call has
  to observe for this to remain so
* `Acquire.step_moves`: what a call of a contender does
-/

/-- A file under a path of a lock. No two files that are ever created have the same `inode`. -/
structure LockFile (I : Type*) where
  inode : ℕ
  /-- The process that created it; `none` if it ended long ago without unlinking the file. -/
  creator : Option I
  mtime : ℕ
  deriving DecidableEq

/-- The lock files under their paths. -/
structure Directory (K I : Type*) where
  file : K → Option (LockFile I)
  /-- The `inode` of the next file that is created. -/
  nextInode : ℕ

namespace Directory

variable {K I : Type*} [DecidableEq K] (d : Directory K I)

/-- `open` with `O_CREAT | O_EXCL`, where there is no file. -/
def create (i : I) (k : K) (now : ℕ) : Directory K I where
  file := Function.update d.file k (some ⟨d.nextInode, some i, now⟩)
  nextInode := d.nextInode + 1

/-- Write to an open file. It need not be the one under the path any more. -/
def touch (k : K) (inode now : ℕ) : Directory K I where
  file := Function.update d.file k ((d.file k).map fun f =>
    if f.inode = inode then { f with mtime := now } else f)
  nextInode := d.nextInode

/-- `unlink` with `missing_ok` -/
def unlink (k : K) : Directory K I where
  file := Function.update d.file k none
  nextInode := d.nextInode

variable {d} {k k' : K} {i j : I} {inode now : ℕ} {f f' : LockFile I}

@[simp] theorem nextInode_create : (d.create i k now).nextInode = d.nextInode + 1 := rfl

@[simp] theorem nextInode_touch : (d.touch k inode now).nextInode = d.nextInode := rfl

@[simp] theorem nextInode_unlink : (d.unlink k).nextInode = d.nextInode := rfl

@[simp] theorem file_create :
    (d.create i k now).file k = some ⟨d.nextInode, some i, now⟩ :=
  Function.update_self ..

theorem file_create_of_ne (h : k' ≠ k) : (d.create i k now).file k' = d.file k' :=
  Function.update_of_ne h ..

theorem file_touch : (d.touch k inode now).file k =
    (d.file k).map fun f => if f.inode = inode then { f with mtime := now } else f :=
  Function.update_self ..

theorem file_touch_of_ne (h : k' ≠ k) : (d.touch k inode now).file k' = d.file k' :=
  Function.update_of_ne h ..

@[simp] theorem file_unlink : (d.unlink k).file k = none := Function.update_self ..

theorem file_unlink_of_ne (h : k' ≠ k) : (d.unlink k).file k' = d.file k' :=
  Function.update_of_ne h ..

/-- A file that has been written to keeps its number and its creator. -/
theorem exists_of_file_touch (h : (d.touch k inode now).file k' = some f') :
    ∃ f, d.file k' = some f ∧ f'.inode = f.inode ∧ f'.creator = f.creator := by
  by_cases hk : k' = k
  · subst hk
    rw [file_touch, Option.map_eq_some_iff] at h
    obtain ⟨f, hf, rfl⟩ := h
    refine ⟨f, hf, ?_⟩
    split <;> exact ⟨rfl, rfl⟩
  · rw [file_touch_of_ne hk] at h
    exact ⟨f', h, rfl, rfl⟩

theorem exists_file_touch (h : d.file k' = some f) :
    ∃ f', (d.touch k inode now).file k' = some f' ∧ f'.inode = f.inode ∧
      f'.creator = f.creator := by
  by_cases hk : k' = k
  · subst hk
    rw [file_touch, h]
    refine ⟨_, rfl, ?_⟩
    dsimp only
    split <;> exact ⟨rfl, rfl⟩
  · rw [file_touch_of_ne hk]
    exact ⟨f, h, rfl, rfl⟩

/-! ### Holding a lock -/

/-- The file that `i` has created is under the path. -/
def Marks (d : Directory K I) (i : I) (k : K) : Prop := ∃ f, d.file k = some f ∧ f.creator = some i

/-- Whoever holds a lock finds the file that it has created under the path. -/
def Guards (d : Directory K I) (holds : I → K → Prop) : Prop := ∀ i k, holds i k → d.Marks i k

omit [DecidableEq K] in
theorem Marks.unique (hi : d.Marks i k) (hj : d.Marks j k) : i = j := by
  obtain ⟨f, hf, hc⟩ := hi
  obtain ⟨g, hg, hc'⟩ := hj
  rw [hf] at hg
  cases hg
  exact Option.some.inj (hc.symm.trans hc')

omit [DecidableEq K] in
theorem not_marks (h : d.file k = none) : ¬ d.Marks i k := by
  rintro ⟨f, hf, -⟩
  rw [h] at hf
  cases hf

theorem marks_create : (d.create i k now).Marks i k := ⟨_, file_create, rfl⟩

/-- An exclusive creation disturbs nobody. -/
theorem Marks.create (h : d.Marks j k') (hk : d.file k = none) :
    (d.create i k now).Marks j k' := by
  have hne : k' ≠ k := by
    rintro rfl
    exact not_marks hk h
  rwa [Marks, file_create_of_ne hne]

theorem Marks.touch (h : d.Marks j k') : (d.touch k inode now).Marks j k' := by
  obtain ⟨f, hf, hc⟩ := h
  obtain ⟨f', hf', -, hc'⟩ := exists_file_touch hf
  exact ⟨f', hf', hc'.trans hc⟩

theorem Marks.unlink (h : d.Marks j k') (hk : k' ≠ k) : (d.unlink k).Marks j k' := by
  rwa [Marks, file_unlink_of_ne hk]

variable {holds holds' : I → K → Prop}

omit [DecidableEq K] in
/-- **Mutual exclusion.** -/
theorem Guards.exclusive (h : d.Guards holds) (hi : holds i k) (hj : holds j k) : i = j :=
  (h i k hi).unique (h j k hj)

/-- A lock may be taken by the process that has created its file. -/
theorem Guards.create (h : d.Guards holds) (hk : d.file k = none)
    (hh : ∀ j k', holds' j k' → holds j k' ∨ j = i ∧ k' = k) :
    (d.create i k now).Guards holds' := by
  intro j k' hj
  rcases hh j k' hj with hj | ⟨rfl, rfl⟩
  · exact (h j k' hj).create hk
  · exact marks_create

theorem Guards.touch (h : d.Guards holds) (hh : ∀ j k', holds' j k' → holds j k') :
    (d.touch k inode now).Guards holds' := fun j k' hj => (h j k' (hh j k' hj)).touch

/-- A path may be unlinked if nobody holds the lock afterwards. -/
theorem Guards.unlink (h : d.Guards holds) (hh : ∀ j k', holds' j k' → holds j k' ∧ k' ≠ k) :
    (d.unlink k).Guards holds' := fun j k' hj => (h j k' (hh j k' hj).1).unlink (hh j k' hj).2

/-! ### Numbers -/

/-- The numbers of the files have been given out. -/
def Numbered (d : Directory K I) : Prop := ∀ k f, d.file k = some f → f.inode < d.nextInode

/-- Every file of `d'` is one of `d`, perhaps written to, or has a number that `d` has yet to give
out. -/
structure Extends (d d' : Directory K I) : Prop where
  nextInode_le : d.nextInode ≤ d'.nextInode
  file : ∀ k f', d'.file k = some f' →
    (∃ f, d.file k = some f ∧ f'.inode = f.inode ∧ f'.creator = f.creator) ∨
      d.nextInode ≤ f'.inode ∧ f'.inode < d'.nextInode

omit [DecidableEq K] in
theorem Extends.refl (d : Directory K I) : d.Extends d :=
  ⟨Nat.le_refl _, fun _ f hf => .inl ⟨f, hf, rfl, rfl⟩⟩

theorem extends_create : d.Extends (d.create i k now) := by
  refine ⟨Nat.le_succ _, fun k' f' hf => ?_⟩
  by_cases hk : k' = k
  · subst hk
    rw [file_create] at hf
    cases hf
    exact .inr ⟨Nat.le_refl _, Nat.lt_succ_self _⟩
  · rw [file_create_of_ne hk] at hf
    exact .inl ⟨f', hf, rfl, rfl⟩

theorem extends_touch : d.Extends (d.touch k inode now) :=
  ⟨Nat.le_refl _, fun _ _ hf => .inl (exists_of_file_touch hf)⟩

theorem extends_unlink : d.Extends (d.unlink k) := by
  refine ⟨Nat.le_refl _, fun k' f' hf => .inl ?_⟩
  by_cases hk : k' = k
  · subst hk
    rw [file_unlink] at hf
    cases hf
  · rw [file_unlink_of_ne hk] at hf
    exact ⟨f', hf, rfl, rfl⟩

omit [DecidableEq K] in
theorem Numbered.extends {d' : Directory K I} (h : d.Numbered) (he : d.Extends d') :
    d'.Numbered := by
  intro k f' hf'
  rcases he.file k f' hf' with ⟨f, hf, hi, -⟩ | ⟨-, hi⟩
  · rw [hi]
    exact Nat.lt_of_lt_of_le (h k f hf) he.nextInode_le
  · exact hi

/-- The file with this number has been left behind, as long as it is there. -/
def Abandoned (d : Directory K I) (k : K) (inode : ℕ) : Prop :=
  inode < d.nextInode ∧ ∀ f, d.file k = some f → f.inode = inode → f.creator = none

omit [DecidableEq K] in
theorem Abandoned.extends {d' : Directory K I} (h : d.Abandoned k inode) (he : d.Extends d') :
    d'.Abandoned k inode := by
  refine ⟨Nat.lt_of_lt_of_le h.1 he.nextInode_le, fun f' hf' hi => ?_⟩
  rcases he.file k f' hf' with ⟨f, hf, hi', hc⟩ | ⟨hi', -⟩
  · rw [hc]
    exact h.2 f hf (hi'.symm.trans hi)
  · have := h.1
    omega

end Directory

/-! ### Contenders -/

/-- A contender for a lock, between two calls; `left` attempts remain after this one. -/
inductive Acquire
  | create (left : ℕ)
  /-- There is a file. Its age comes next. -/
  | check (left : ℕ)
  /-- The file was too old. Which one it was, the contender does not remember. -/
  | unlink (left seen : ℕ)
  /-- The file is created, and gets a timestamp. -/
  | stamp (inode : ℕ)
  deriving DecidableEq

/-- Where a call takes a contender. -/
inductive Acquire.Next
  | more (pc : Acquire)
  | acquired
  | conflict

namespace Acquire

variable {K I : Type*} [DecidableEq K] {d d' : Directory K I} {i : I} {k : K}
  {now staleAfter left seen inode : ℕ} {pc pc' : Acquire} {n : Next} {f : LockFile I}

/-- The next call of contender `i` for the lock `k`, whose file is too old after `staleAfter`
seconds. -/
def step (d : Directory K I) (i : I) (k : K) (now staleAfter : ℕ) : Acquire → Next × Directory K I
  | .create left =>
    match d.file k with
    | none => (.more (.stamp d.nextInode), d.create i k now)
    | some _ => (.more (.check left), d)
  | .check left =>
    match d.file k with
    | none => (.conflict, d)
    | some f => if staleAfter < now - f.mtime then (.more (.unlink left f.inode), d)
        else (.conflict, d)
  | .unlink 0 _ => (.conflict, d.unlink k)
  | .unlink (left + 1) _ => (.more (.create left), d.unlink k)
  | .stamp inode => (.acquired, d.touch k inode now)

/-- The contender has created the file. -/
def IsStamp : Acquire → Prop
  | .stamp _ => True
  | _ => False

instance : DecidablePred IsStamp
  | .stamp _ => inferInstanceAs (Decidable True)
  | .create _ | .check _ | .unlink .. => inferInstanceAs (Decidable False)

/-- The contender has come to hold the lock. -/
def Next.Holds : Next → Prop
  | .more pc => pc.IsStamp
  | .acquired => True
  | .conflict => False

/-- What a call of a contender does. -/
inductive Moves (d : Directory K I) (i : I) (k : K) (now staleAfter : ℕ) :
    Acquire → Next → Directory K I → Prop
  /-- It creates the file. -/
  | create (left : ℕ) : d.file k = none →
      Moves d i k now staleAfter (.create left) (.more (.stamp d.nextInode)) (d.create i k now)
  /-- There is a file. -/
  | occupied (left : ℕ) :
      Moves d i k now staleAfter (.create left) (.more (.check left)) d
  /-- The file is too old. -/
  | stale (left : ℕ) {f : LockFile I} : d.file k = some f → staleAfter < now - f.mtime →
      Moves d i k now staleAfter (.check left) (.more (.unlink left f.inode)) d
  /-- The file has gone or is not too old. -/
  | conflict (left : ℕ) : Moves d i k now staleAfter (.check left) .conflict d
  /-- It breaks the lock, and tries again or gives up. -/
  | unlink (left seen : ℕ) {n : Next} : ¬ n.Holds → (∀ left seen, n ≠ .more (.unlink left seen)) →
      Moves d i k now staleAfter (.unlink left seen) n (d.unlink k)
  /-- It writes the timestamp. -/
  | stamp (inode : ℕ) : Moves d i k now staleAfter (.stamp inode) .acquired (d.touch k inode now)

theorem step_moves (h : pc.step d i k now staleAfter = (n, d')) :
    Moves d i k now staleAfter pc n d' := by
  cases pc with
  | create left =>
    simp only [step] at h
    split at h
    next hf => cases h; exact .create left hf
    next => cases h; exact .occupied left
  | check left =>
    simp only [step] at h
    split at h
    next => cases h; exact .conflict left
    next f hf =>
      split at h
      next hs => cases h; exact .stale left hf hs
      next => cases h; exact .conflict left
  | unlink left seen =>
    cases left with
    | zero => cases h; exact .unlink 0 seen id (fun _ _ h => by cases h)
    | succ left => cases h; exact .unlink (left + 1) seen id (fun _ _ h => by cases h)
  | stamp inode => cases h; exact .stamp inode

end Acquire
