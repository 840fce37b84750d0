import Mathlib.Logic.Function.Basic

/-!
# Tables with row locks

A table of rows shared by sessions that run transactions under READ COMMITTED. What a statement
sees is the committed rows; what it writes becomes visible when its transaction ends. A statement
that locks the row it selects waits while another session holds the lock, and evaluates its
condition on the row as it then finds it.

## What is deliberately absent

There is no log of uncommitted versions. A session that has locked a row is the only one that can
write it, so what it is going to write can wait in the session until the transaction ends.
`Table.putAll`, `Table.alterAll` and `Table.eraseAll` are that moment, and `Table.release` gives the
locks back.

## Main definitions

* `Table`: committed rows and the session that holds each row's lock
* `Table.locate`: a statement that locks the row it selects, and `Table.Located`: what it can find
* `Table.Owns`: a session holds the lock of a key and knows what is stored under it
* `Table.Respects`, `Table.RespectsRows`: a step of one session leaves what others own alone

## Main results

* `Table.locate_eq_some`: the outcomes of a locking statement
* `Table.Owns.session_eq`: no key is owned by two sessions
* one `Respects` lemma for each operation
-/

/-- Committed rows, and the session holding each row's lock. -/
structure Table (K R S : Type*) where
  /-- The committed row under a key. -/
  row : K → Option R
  /-- The session that holds the row's lock. -/
  lock : K → Option S

namespace Table

variable {K R S : Type*}

/-- A table of given rows, none of them locked. -/
def unlocked (row : K → Option R) : Table K R S := ⟨row, fun _ => none⟩

/-- No other session than `s` holds the lock of `k`. -/
def Free (t : Table K R S) (s : S) (k : K) : Prop := t.lock k = none ∨ t.lock k = some s

instance [DecidableEq S] (t : Table K R S) (s : S) (k : K) : Decidable (t.Free s k) :=
  inferInstanceAs (Decidable (_ ∨ _))

/-- `UPDATE … WHERE` or `SELECT … FOR UPDATE` on one key, and what is done with the row it finds.
A row that does not satisfy the condition is not waited for; one that does is, while another
session holds its lock, and then nothing is done yet. -/
def locate [DecidableEq S] {α : Type*} (t : Table K R S) (s : S) (k : K) (p : R → Bool)
    (f : Option R → α) : Option α :=
  match t.row k with
  | none => some (f none)
  | some r => if p r then if t.Free s k then some (f (some r)) else none else some (f none)

/-- The rows under the given keys. -/
def rows (t : Table K R S) (ks : List K) : List (K × R) :=
  ks.filterMap fun k => (t.row k).map (k, ·)

/-- Take the locks of several rows. -/
def acquireAll [DecidableEq K] (t : Table K R S) (s : S) (ks : List K) : Table K R S :=
  { t with lock := fun k => if k ∈ ks then some s else t.lock k }

/-- Commit a row. -/
def put [DecidableEq K] (t : Table K R S) (k : K) (r : R) : Table K R S :=
  { t with row := fun k' => if k' = k then some r else t.row k' }

/-- Commit several rows, one after the other. -/
def putAll [DecidableEq K] (t : Table K R S) : List (K × R) → Table K R S
  | [] => t
  | (k, r) :: rest => (t.put k r).putAll rest

/-- Commit an insertion, an update or a deletion under one key. -/
def alter [DecidableEq K] (t : Table K R S) (k : K) (f : Option R → Option R) : Table K R S :=
  { t with row := fun k' => if k' = k then f (t.row k) else t.row k' }

/-- Commit several of them, one after the other. -/
def alterAll [DecidableEq K] (t : Table K R S) : List (K × (Option R → Option R)) → Table K R S
  | [] => t
  | (k, f) :: rest => (t.alter k f).alterAll rest

/-- Commit the deletion of all rows whose keys satisfy a condition. -/
def eraseAll (t : Table K R S) (p : K → Bool) : Table K R S :=
  { t with row := fun k => if p k then none else t.row k }

/-- End of a transaction: all locks of the session are given back. -/
def release [DecidableEq S] (t : Table K R S) (s : S) : Table K R S :=
  { t with lock := fun k => (t.lock k).filter fun s' => s' ≠ s }

/-! ### What each operation does to rows and locks -/

section Projections

variable (t : Table K R S) (s : S) (k k' : K) (r : R)

@[simp] theorem row_acquireAll [DecidableEq K] (ks : List K) :
    (t.acquireAll s ks).row = t.row := rfl

@[simp] theorem acquireAll_nil [DecidableEq K] : t.acquireAll s [] = t := by
  simp [acquireAll]

@[simp] theorem row_release [DecidableEq S] : (t.release s).row = t.row := rfl

@[simp] theorem lock_put [DecidableEq K] : (t.put k r).lock = t.lock := rfl

@[simp] theorem lock_eraseAll (p : K → Bool) : (t.eraseAll p).lock = t.lock := rfl

theorem row_put [DecidableEq K] :
    (t.put k r).row k' = if k' = k then some r else t.row k' := rfl

theorem row_eraseAll (p : K → Bool) :
    (t.eraseAll p).row k = if p k then none else t.row k := rfl

@[simp] theorem putAll_nil [DecidableEq K] : t.putAll [] = t := rfl

@[simp] theorem putAll_cons [DecidableEq K] (rest : List (K × R)) :
    t.putAll ((k, r) :: rest) = (t.put k r).putAll rest := rfl

theorem lock_putAll [DecidableEq K] (t : Table K R S) (l : List (K × R)) :
    (t.putAll l).lock = t.lock := by
  induction l generalizing t with
  | nil => rfl
  | cons e l ih => exact ih _

theorem row_putAll_of_ne [DecidableEq K] {t : Table K R S} {k : K} {l : List (K × R)}
    (h : ∀ e ∈ l, k ≠ e.1) : (t.putAll l).row k = t.row k := by
  induction l generalizing t with
  | nil => rfl
  | cons e l ih =>
    have he : k ≠ e.1 := h e (List.mem_cons_self ..)
    rw [putAll_cons, ih fun e' he' => h e' (List.mem_cons_of_mem _ he'), row_put, if_neg he]

theorem row_alter [DecidableEq K] (f : Option R → Option R) :
    (t.alter k f).row k' = if k' = k then f (t.row k) else t.row k' := rfl

@[simp] theorem alterAll_nil [DecidableEq K] : t.alterAll [] = t := rfl

@[simp] theorem alterAll_cons [DecidableEq K] (f : Option R → Option R)
    (rest : List (K × (Option R → Option R))) :
    t.alterAll ((k, f) :: rest) = (t.alter k f).alterAll rest := rfl

theorem alterAll_append [DecidableEq K] (t : Table K R S)
    (l l' : List (K × (Option R → Option R))) :
    t.alterAll (l ++ l') = (t.alterAll l).alterAll l' := by
  induction l generalizing t with
  | nil => rfl
  | cons e l ih => exact ih _

theorem lock_alterAll [DecidableEq K] (t : Table K R S) (l : List (K × (Option R → Option R))) :
    (t.alterAll l).lock = t.lock := by
  induction l generalizing t with
  | nil => rfl
  | cons e l ih => exact ih _

/-- What every alteration of a row keeps, all of them keep. -/
theorem row_alterAll_of_keeps [DecidableEq K] {t : Table K R S} {k : K}
    {l : List (K × (Option R → Option R))} {Q : Option R → Prop} (h : Q (t.row k))
    (hk : ∀ e ∈ l, e.1 = k → ∀ o, Q o → Q (e.2 o)) : Q ((t.alterAll l).row k) := by
  induction l generalizing t with
  | nil => exact h
  | cons e l ih =>
    refine ih ?_ fun e' he' => hk e' (List.mem_cons_of_mem _ he')
    rw [row_alter]
    split
    · next he => exact hk e (List.mem_cons_self ..) he.symm _ (he ▸ h)
    · exact h

/-- What one alteration of a row establishes and the others keep holds in the end. -/
theorem row_alterAll_of_mem [DecidableEq K] {t : Table K R S} {e : K × (Option R → Option R)}
    {l : List (K × (Option R → Option R))} {Q : Option R → Prop} (he : e ∈ l)
    (hQ : ∀ o, Q (e.2 o)) (hk : ∀ e' ∈ l, e'.1 = e.1 → ∀ o, Q o → Q (e'.2 o)) :
    Q ((t.alterAll l).row e.1) := by
  induction l generalizing t with
  | nil => exact (List.not_mem_nil he).elim
  | cons e' l ih =>
    have hk' : ∀ e'' ∈ l, e''.1 = e.1 → ∀ o, Q o → Q (e''.2 o) := fun e'' he'' =>
      hk e'' (List.mem_cons_of_mem _ he'')
    rcases List.mem_cons.mp he with rfl | he
    · have he : Q ((t.alter e.1 e.2).row e.1) := by
        rw [row_alter, if_pos rfl]
        exact hQ _
      exact row_alterAll_of_keeps (t := t.alter e.1 e.2) he hk'
    · exact ih he hk'

theorem row_alterAll_of_ne [DecidableEq K] {t : Table K R S} {k : K}
    {l : List (K × (Option R → Option R))} (h : ∀ e ∈ l, k ≠ e.1) :
    (t.alterAll l).row k = t.row k :=
  row_alterAll_of_keeps (Q := fun o => o = t.row k) rfl fun e he hk => (h e he hk.symm).elim

end Projections

/-! ### The outcomes of a locking statement -/

variable {t t' t'' : Table K R S} {s s' : S} {k : K} {r r' : R} {p : R → Bool}

/-- What a locking statement can find: no row that satisfies the condition, or one that does and
whose lock no other session holds. -/
inductive Located (t : Table K R S) (s : S) (k : K) (p : R → Bool) : Option R → Prop
  | miss : (∀ r, t.row k = some r → p r = false) → Located t s k p none
  | hit {r : R} : t.row k = some r → p r = true → t.Free s k → Located t s k p (some r)

/-- **Locking statements.** A statement that does not wait finds one of the two. -/
@[simp] theorem locate_eq_some [DecidableEq S] {α : Type*} {f : Option R → α} {x : α} :
    t.locate s k p f = some x ↔ ∃ o, t.Located s k p o ∧ f o = x := by
  unfold locate
  constructor
  · intro h
    split at h
    next hr => exact ⟨none, .miss (by simp [hr]), by simpa using h⟩
    next r hr =>
      split at h
      next hp =>
        split at h
        next hf => exact ⟨some r, .hit hr hp hf, by simpa using h⟩
        next => cases h
      next hp => exact ⟨none, .miss (by simpa [hr] using hp), by simpa using h⟩
  · rintro ⟨o, ho, rfl⟩
    cases ho with
    | miss hm =>
      cases hr : t.row k with
      | none => rfl
      | some r => simp [hm r hr]
    | hit hr hp hf => simp [hr, hp, hf]

theorem located_some :
    t.Located s k p (some r) ↔ t.row k = some r ∧ p r = true ∧ t.Free s k :=
  ⟨fun | .hit h h' h'' => ⟨h, h', h''⟩, fun ⟨h, h', h''⟩ => .hit h h' h''⟩

/-! ### Owning a key -/

/-- Session `s` holds the lock of `k`, and `o` is what is stored under `k`. -/
def Owns (t : Table K R S) (s : S) (k : K) (o : Option R) : Prop := t.lock k = some s ∧ t.row k = o

theorem Owns.free {o : Option R} (h : t.Owns s k o) : t.Free s k := .inr h.1

theorem owns_acquireAll [DecidableEq K] {ks : List K} (hk : k ∈ ks) :
    (t.acquireAll s ks).Owns s k (t.row k) :=
  ⟨by simp [acquireAll, hk], rfl⟩

theorem Owns.acquireAll [DecidableEq K] {ks : List K} {o : Option R} (h : t.Owns s k o) :
    (t.acquireAll s ks).Owns s k o :=
  ⟨by simp [Table.acquireAll, h.1], h.2⟩

/-- Two sessions never own the same key. -/
theorem Owns.session_eq {o o' : Option R} (h : t.Owns s k o) (h' : t.Owns s' k o') : s = s' :=
  Option.some.inj (h.1.symm.trans h'.1)

theorem Owns.not_free {o : Option R} (h : t.Owns s k o) (hs : s' ≠ s) : ¬ t.Free s' k := by
  rintro (hf | hf) <;> rw [h.1] at hf
  · cases hf
  · exact hs (Option.some.inj hf).symm

/-- Session `s` holds the lock of each of these keys, and there is a row under each. -/
def OwnsAll (t : Table K R S) (s : S) (ks : List K) : Prop := ∀ k ∈ ks, ∃ r, t.Owns s k (some r)

theorem ownsAll_nil : t.OwnsAll s [] := fun _ h => (List.not_mem_nil h).elim

theorem OwnsAll.free {ks : List K} (h : t.OwnsAll s ks) (hk : k ∈ ks) : t.Free s k := by
  obtain ⟨r, ho⟩ := h k hk
  exact ho.free

/-! ### Leaving the keys of others alone -/

/-- What session `s` did between `t` and `t'` leaves every key that another session owns as it
was, and still owned. -/
def Respects (s : S) (t t' : Table K R S) : Prop :=
  ∀ s', s' ≠ s → ∀ k o, t.Owns s' k o → t'.Owns s' k o

/-- The same for the keys under which a row is stored. -/
def RespectsRows (s : S) (t t' : Table K R S) : Prop :=
  ∀ s', s' ≠ s → ∀ k r, t.Owns s' k (some r) → t'.Owns s' k (some r)

theorem Respects.refl (s : S) (t : Table K R S) : Respects s t t := fun _ _ _ _ h => h

theorem Respects.trans (h : Respects s t t') (h' : Respects s t' t'') : Respects s t t'' :=
  fun s' hs k o ho => h' s' hs k o (h s' hs k o ho)

theorem Respects.rows (h : Respects s t t') : RespectsRows s t t' := fun s' hs k _ => h s' hs k _

theorem RespectsRows.trans (h : RespectsRows s t t') (h' : RespectsRows s t' t'') :
    RespectsRows s t t'' :=
  fun s' hs k r ho => h' s' hs k r (h s' hs k r ho)

theorem RespectsRows.ownsAll {ks : List K} (h : RespectsRows s t t') (hs : s' ≠ s)
    (ho : t.OwnsAll s' ks) : t'.OwnsAll s' ks := fun k hk =>
  have ⟨r, hr⟩ := ho k hk
  ⟨r, h s' hs k r hr⟩

theorem respects_acquireAll [DecidableEq K] {ks : List K} (hf : ∀ k ∈ ks, t.Free s k) :
    Respects s t (t.acquireAll s ks) := by
  intro s' hs k' o ho
  have hk : k' ∉ ks := fun hm => ho.not_free hs.symm (hf k' hm)
  exact ⟨by simpa [Table.acquireAll, hk] using ho.1, ho.2⟩

theorem respects_putAll [DecidableEq K] {l : List (K × R)} (hf : ∀ e ∈ l, t.Free s e.1) :
    Respects s t (t.putAll l) := by
  intro s' hs k o ho
  have hk : ∀ e ∈ l, k ≠ e.1 := by
    rintro e he rfl
    exact ho.not_free hs.symm (hf e he)
  exact ⟨by rw [lock_putAll]; exact ho.1, by rw [row_putAll_of_ne hk]; exact ho.2⟩

/-- A row that does not exist is nobody's, so inserting it disturbs nobody. -/
theorem respectsRows_putAll [DecidableEq K] {l : List (K × R)}
    (hf : ∀ e ∈ l, t.Free s e.1 ∨ t.row e.1 = none) : RespectsRows s t (t.putAll l) := by
  intro s' hs k r ho
  have hk : ∀ e ∈ l, k ≠ e.1 := by
    rintro e he rfl
    rcases hf e he with h | h
    · exact ho.not_free hs.symm h
    · simpa [h] using ho.2
  exact ⟨by rw [lock_putAll]; exact ho.1, by rw [row_putAll_of_ne hk]; exact ho.2⟩

theorem respectsRows_alterAll [DecidableEq K] {l : List (K × (Option R → Option R))}
    (hf : ∀ e ∈ l, t.Free s e.1 ∨ t.row e.1 = none) : RespectsRows s t (t.alterAll l) := by
  intro s' hs k r ho
  have hk : ∀ e ∈ l, k ≠ e.1 := by
    rintro e he rfl
    rcases hf e he with h | h
    · exact ho.not_free hs.symm h
    · simpa [h] using ho.2
  exact ⟨by rw [lock_alterAll]; exact ho.1, by rw [row_alterAll_of_ne hk]; exact ho.2⟩

theorem respects_eraseAll {q : K → Bool} (hf : ∀ k, q k = true → t.Free s k) :
    Respects s t (t.eraseAll q) := by
  intro s' hs k' o ho
  have hk : ¬ q k' = true := fun hq => ho.not_free hs.symm (hf k' hq)
  exact ⟨ho.1, by simpa [row_eraseAll, hk] using ho.2⟩

theorem respects_release [DecidableEq S] (t : Table K R S) (s : S) :
    Respects s t (t.release s) := by
  intro s' hs k o ho
  exact ⟨by simp [release, ho.1, hs], ho.2⟩

end Table
