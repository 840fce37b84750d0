import Mathlib.Data.List.Basic

/-!
# Row security

Tables guarded by privileges and by permissive row policies, as PostgreSQL guards them against a
role that neither owns them nor bypasses the policies. The conditions of the policies are of any
type `C` of expressions; `holds c r` says that the expression is true of the row `r`, in the state
of the database that the statement sees. Policies have no negation, so false and NULL need not be
told apart.

## What is deliberately absent

Restrictive policies, column privileges and `BYPASSRLS`. Row locks: a statement that locks rows is
`selectForUpdate`, and nobody else holds them.

## Main definitions

* `Policy`, `Guard`: the policies and privileges of one table
* `Ddl`, `Catalog.migrate`: the statements that install them, and their result
* `Guard.admits`, `Guard.accepts`: the `USING` and the `WITH CHECK` side of a guard
* `Guard.select`, `Guard.selectForUpdate`, `Guard.insert`, `Guard.update`, `Guard.delete`

## Main results

* `Guard.selectForUpdate_eq_nil`: a row that may not be updated cannot be locked
* `Guard.update_eq_error`: a row may not be updated to one that its writer cannot see
* `Guard.update_unprivileged`: without the privilege an update fails whatever rows there are
* `Guard.delete_eq_self`: a row that cannot be seen cannot be deleted
-/

namespace RowSecurity

/-- What a policy or a privilege can be for. -/
inductive Command
  | select | insert | update | delete
  deriving DecidableEq, Repr

/-- All four. -/
def Command.all : List Command := [.select, .insert, .update, .delete]

/-- `CREATE POLICY`, under a name of type `N`. -/
structure Policy (N C : Type*) where
  name : N
  /-- `none`: `FOR ALL`. -/
  command : Option Command
  /-- `USING`. -/
  qual : Option C
  /-- `WITH CHECK`; where it is missing, `USING` stands in for it. -/
  withCheck : Option C
  deriving DecidableEq, Repr

/-- A table as a role meets it. -/
structure Guard (N C : Type*) where
  rowSecurity : Bool
  policies : List (Policy N C)
  privileges : List Command
  deriving DecidableEq, Repr

/-- A table that has just been created. -/
def Guard.fresh {N C : Type*} : Guard N C := ⟨false, [], []⟩

/-! ### Catalogs -/

/-- The statements that change what a role may do, on tables of type `T`. -/
inductive Ddl (T N C : Type*)
  | enableRowSecurity (table : T)
  | createPolicy (table : T) (policy : Policy N C)
  /-- `DROP POLICY IF EXISTS`. -/
  | dropPolicy (table : T) (name : N)
  | grant (table : T) (privileges : List Command)
  | revoke (table : T) (privileges : List Command)

/-- The guards of all tables. -/
abbrev Catalog (T N C : Type*) := T → Guard N C

namespace Catalog

variable {T N C : Type*} [DecidableEq T] [DecidableEq N]

/-- Change the guard of one table. -/
def alter (c : Catalog T N C) (table : T) (f : Guard N C → Guard N C) : Catalog T N C :=
  fun t => if t = table then f (c t) else c t

def exec (c : Catalog T N C) : Ddl T N C → Catalog T N C
  | .enableRowSecurity t => c.alter t fun g => { g with rowSecurity := true }
  | .createPolicy t p => c.alter t fun g => { g with policies := g.policies ++ [p] }
  | .dropPolicy t name =>
    c.alter t fun g => { g with policies := g.policies.filter fun p => p.name ≠ name }
  | .grant t privileges =>
    c.alter t fun g => { g with
      privileges := g.privileges ++ privileges.filter fun p => p ∉ g.privileges }
  | .revoke t privileges =>
    c.alter t fun g => { g with privileges := g.privileges.filter fun p => p ∉ privileges }

/-- The statements one after the other, on tables that have just been created. -/
def migrate (statements : List (Ddl T N C)) : Catalog T N C :=
  statements.foldl exec fun _ => .fresh

end Catalog

/-! ### Statements -/

/-- Why a statement raises. -/
inductive SqlError (T : Type*)
  | insufficientPrivilege (table : T)
  /-- A new row violates the policies of its table. -/
  | rowSecurity (table : T)
  | uniqueViolation (table : T)
  /-- A trigger raises. -/
  | raised (table : T)
  /-- The object mapper expected to update one row. -/
  | staleData (table : T)
  deriving DecidableEq, Repr

/-- The policy is for this command. -/
def Policy.appliesTo {N C : Type*} (p : Policy N C) (cmd : Command) : Bool :=
  p.command = none ∨ p.command = some cmd

namespace Guard

variable {T N C R : Type*} (g : Guard N C) (table : T) (holds : C → R → Bool)

/-- `USING`: some policy lets the command reach the row. -/
def admits (cmd : Command) (r : R) : Bool :=
  !g.rowSecurity || g.policies.any fun p => p.appliesTo cmd && p.qual.any (holds · r)

/-- `WITH CHECK`: some policy lets the command write the row. -/
def accepts (cmd : Command) (r : R) : Bool :=
  !g.rowSecurity || g.policies.any fun p =>
    p.appliesTo cmd && (p.withCheck.or p.qual).any (holds · r)

/-- A new row has to be one that the command may write and, as the statement reads the table, one
that can be seen. -/
def mayWrite (cmd : Command) (r : R) : Bool := g.accepts holds cmd r && g.admits holds .select r

/-- An existing row is reached by an `UPDATE` or `DELETE` with a `WHERE` clause, or by a
`SELECT … FOR UPDATE`. -/
def reaches (cmd : Command) (p : R → Bool) (r : R) : Bool :=
  p r && g.admits holds .select r && g.admits holds cmd r

/-- Raise unless the role has the privileges. -/
def privileged {α : Type*} (cmds : List Command) (x : Except (SqlError T) α) :
    Except (SqlError T) α :=
  if cmds ⊆ g.privileges then x else .error (.insufficientPrivilege table)

/-- `SELECT … WHERE`. -/
def select (p : R → Bool) (rows : List R) : Except (SqlError T) (List R) :=
  g.privileged table [.select] (.ok (rows.filter fun r => p r && g.admits holds .select r))

/-- `SELECT … WHERE … FOR UPDATE`. -/
def selectForUpdate (p : R → Bool) (rows : List R) : Except (SqlError T) (List R) :=
  g.privileged table [.select, .update] (.ok (rows.filter (g.reaches holds .update p)))

/-- `INSERT … RETURNING` of one row, which must not conflict with a row that is there. -/
def insert (conflicts : R → R → Bool) (new : R) (rows : List R) :
    Except (SqlError T) (List R) :=
  g.privileged table [.select, .insert]
    (if g.mayWrite holds .insert new then
      if rows.any (conflicts new) then .error (.uniqueViolation table) else .ok (rows ++ [new])
    else .error (.rowSecurity table))

/-- `UPDATE … SET … WHERE`: the table and the rows that were written. -/
def update (p : R → Bool) (f : R → R) (rows : List R) :
    Except (SqlError T) (List R × List R) :=
  g.privileged table [.select, .update]
    (if rows.all fun r => !g.reaches holds .update p r || g.mayWrite holds .update (f r) then
      .ok (rows.map fun r => if g.reaches holds .update p r then f r else r,
        (rows.filter (g.reaches holds .update p)).map f)
    else .error (.rowSecurity table))

/-- `DELETE … WHERE`: the table and the rows that were deleted. -/
def delete (p : R → Bool) (rows : List R) : Except (SqlError T) (List R × List R) :=
  g.privileged table [.select, .delete]
    (.ok (rows.filter (fun r => !g.reaches holds .delete p r),
      rows.filter (g.reaches holds .delete p)))

/-! ### What the guards come to -/

variable {g table holds} {cmd : Command} {p : R → Bool} {f : R → R} {r : R} {rows : List R}

/-- A row that no policy admits cannot be reached. -/
theorem reaches_eq_false (h : g.admits holds .select r = false ∨ g.admits holds cmd r = false) :
    g.reaches holds cmd p r = false := by
  rcases h with h | h <;> simp [reaches, h]

theorem privileged_of_subset {α : Type*} {cmds : List Command} {x : Except (SqlError T) α}
    (h : cmds ⊆ g.privileges) : g.privileged table cmds x = x := if_pos h

/-- Without the privilege a statement raises, whatever it would do. -/
theorem privileged_of_not_mem {α : Type*} {cmds : List Command} {x : Except (SqlError T) α}
    (hc : cmd ∈ cmds) (h : cmd ∉ g.privileges) :
    g.privileged table cmds x = .error (.insufficientPrivilege table) :=
  if_neg fun hs => h (hs hc)

/-- All rows that satisfy the condition are selected if all of them can be seen. -/
theorem select_eq_filter (hp : .select ∈ g.privileges)
    (h : ∀ r ∈ rows, p r = true → g.admits holds .select r = true) :
    g.select table holds p rows = .ok (rows.filter p) := by
  rw [select, privileged_of_subset (by simpa using hp)]
  congr 1
  refine List.filter_congr fun r hr => ?_
  cases hpr : p r with
  | false => rfl
  | true => exact h r hr hpr

/-- Rows that cannot be seen are not selected. -/
theorem select_eq_nil (hp : .select ∈ g.privileges)
    (h : ∀ r ∈ rows, p r = true → g.admits holds .select r = false) :
    g.select table holds p rows = .ok [] := by
  rw [select, privileged_of_subset (by simpa using hp), List.filter_eq_nil_iff.mpr]
  intro r hr hsel
  rw [Bool.and_eq_true] at hsel
  rw [h r hr hsel.1] at hsel
  cases hsel.2

/-- **Locking needs updating.** Rows that may not be updated cannot be selected `FOR UPDATE`. -/
theorem selectForUpdate_eq_nil (hp : [.select, .update] ⊆ g.privileges)
    (h : ∀ r ∈ rows, p r = true → g.admits holds .update r = false) :
    g.selectForUpdate table holds p rows = .ok [] := by
  rw [selectForUpdate, privileged_of_subset hp, List.filter_eq_nil_iff.mpr]
  intro r hr hreach
  simp only [reaches, Bool.and_eq_true] at hreach
  simp [h r hr hreach.1.1] at hreach

/-- All rows that satisfy the condition are locked if all of them can be seen and updated. -/
theorem selectForUpdate_eq_filter (hp : [.select, .update] ⊆ g.privileges)
    (h : ∀ r ∈ rows, p r = true →
      g.admits holds .select r = true ∧ g.admits holds .update r = true) :
    g.selectForUpdate table holds p rows = .ok (rows.filter p) := by
  rw [selectForUpdate, privileged_of_subset hp]
  congr 1
  refine List.filter_congr fun r hr => ?_
  cases hpr : p r with
  | false => simp [reaches, hpr]
  | true => simp [reaches, hpr, h r hr hpr]

theorem insert_ok {conflicts : R → R → Bool} {new : R} (hp : [.select, .insert] ⊆ g.privileges)
    (hw : g.mayWrite holds .insert new = true) (h : ∀ r ∈ rows, conflicts new r = false) :
    g.insert table holds conflicts new rows = .ok (rows ++ [new]) := by
  rw [insert, privileged_of_subset hp, if_pos hw, if_neg]
  intro hany
  obtain ⟨r, hr, hc⟩ := List.any_eq_true.mp hany
  rw [h r hr] at hc
  cases hc

theorem mem_of_selectForUpdate {sel : List R}
    (h : g.selectForUpdate table holds p rows = .ok sel) (hr : r ∈ sel) :
    r ∈ rows ∧ p r = true := by
  rw [selectForUpdate, privileged] at h
  split at h
  · cases h
    obtain ⟨hmem, hreach⟩ := List.mem_filter.mp hr
    simp only [reaches, Bool.and_eq_true] at hreach
    exact ⟨hmem, hreach.1.1⟩
  · cases h

/-- What an insertion leaves, if it does not raise. -/
theorem of_insert_ok {conflicts : R → R → Bool} {new : R} {rows' : List R}
    (h : g.insert table holds conflicts new rows = .ok rows') :
    rows' = rows ++ [new] ∧ ∀ r ∈ rows, conflicts new r = false := by
  rw [insert, privileged] at h
  split at h
  · split at h
    · split at h
      · cases h
      · rename_i hany
        cases h
        refine ⟨rfl, fun r hr => ?_⟩
        rw [Bool.eq_false_iff]
        exact fun hc => hany (List.any_eq_true.mpr ⟨r, hr, hc⟩)
    · cases h
  · cases h

/-- What an update leaves, if it does not raise. -/
theorem of_update_ok {rows' written : List R}
    (h : g.update table holds p f rows = .ok (rows', written)) :
    rows' = rows.map fun r => if g.reaches holds .update p r then f r else r := by
  rw [update, privileged] at h
  split at h
  · split at h
    · cases h
      rfl
    · cases h
  · cases h

/-- An update raises when a row it reaches may not be written as it is to be. -/
theorem update_eq_error (hp : [.select, .update] ⊆ g.privileges) (hr : r ∈ rows)
    (hreach : g.reaches holds .update p r = true) (hw : g.mayWrite holds .update (f r) = false) :
    g.update table holds p f rows = .error (.rowSecurity table) := by
  rw [update, privileged_of_subset hp, if_neg]
  intro hall
  have := List.all_eq_true.mp hall r hr
  simp [hreach, hw] at this

theorem update_unprivileged (h : .update ∉ g.privileges) :
    g.update table holds p f rows = .error (.insufficientPrivilege table) :=
  privileged_of_not_mem (by simp) h

/-- An update that reaches no row changes none. -/
theorem update_eq_self (hp : [.select, .update] ⊆ g.privileges)
    (h : ∀ r ∈ rows, g.reaches holds .update p r = false) :
    g.update table holds p f rows = .ok (rows, []) := by
  have hnone : rows.filter (g.reaches holds .update p) = [] :=
    List.filter_eq_nil_iff.mpr fun r hr => by simp [h r hr]
  have hkept : (rows.map fun r => if g.reaches holds .update p r then f r else r) = rows := by
    calc (rows.map fun r => if g.reaches holds .update p r then f r else r)
        = rows.map id := List.map_congr_left fun r hr => by simp [h r hr]
      _ = rows := List.map_id rows
  rw [update, privileged_of_subset hp, if_pos (List.all_eq_true.mpr fun r hr => by simp [h r hr]),
    hnone, hkept, List.map_nil]

/-- An update writes all rows that satisfy the condition if all of them can be seen and updated, and
may be written as they are to be. -/
theorem update_eq_map (hp : [.select, .update] ⊆ g.privileges)
    (h : ∀ r ∈ rows, p r = true → g.admits holds .select r = true ∧
      g.admits holds .update r = true ∧ g.mayWrite holds .update (f r) = true) :
    g.update table holds p f rows =
      .ok (rows.map fun r => if p r then f r else r, (rows.filter p).map f) := by
  have hreach : ∀ r ∈ rows, g.reaches holds .update p r = p r := by
    intro r hr
    cases hpr : p r with
    | false => simp [reaches, hpr]
    | true => simp [reaches, hpr, h r hr hpr]
  rw [update, privileged_of_subset hp, if_pos, List.filter_congr hreach,
    List.map_congr_left fun r hr => by rw [hreach r hr]]
  refine List.all_eq_true.mpr fun r hr => ?_
  rw [hreach r hr]
  cases hpr : p r with
  | false => rfl
  | true => simp [(h r hr hpr).2.2]

/-- A deletion that reaches no row deletes none. -/
theorem delete_eq_self (hp : [.select, .delete] ⊆ g.privileges)
    (h : ∀ r ∈ rows, g.reaches holds .delete p r = false) :
    g.delete table holds p rows = .ok (rows, []) := by
  have hnone : rows.filter (g.reaches holds .delete p) = [] :=
    List.filter_eq_nil_iff.mpr fun r hr => by simp [h r hr]
  have hkept : rows.filter (fun r => !g.reaches holds .delete p r) = rows :=
    List.filter_eq_self.mpr fun r hr => by simp [h r hr]
  rw [delete, privileged_of_subset hp, hnone, hkept]

/-- All rows that satisfy the condition are deleted if all of them can be seen and deleted. -/
theorem delete_eq_filter (hp : [.select, .delete] ⊆ g.privileges)
    (h : ∀ r ∈ rows, p r = true →
      g.admits holds .select r = true ∧ g.admits holds .delete r = true) :
    g.delete table holds p rows = .ok (rows.filter fun r => !p r, rows.filter p) := by
  have hreach : ∀ r ∈ rows, g.reaches holds .delete p r = p r := by
    intro r hr
    cases hpr : p r with
    | false => simp [reaches, hpr]
    | true => simp [reaches, hpr, h r hr hpr]
  rw [delete, privileged_of_subset hp, List.filter_congr hreach,
    List.filter_congr fun r hr => congrArg _ (hreach r hr)]

end Guard

/-- A further condition takes away nothing exactly when all rows meet it. -/
theorem filter_and_eq_filter_iff {R : Type*} {p q : R → Bool} {rows : List R} :
    rows.filter (fun r => p r && q r) = rows.filter p ↔ ∀ r ∈ rows, p r = true → q r = true := by
  constructor
  · intro h r hr hp
    have hmem : r ∈ rows.filter fun r => p r && q r := by
      rw [h]
      exact List.mem_filter.mpr ⟨hr, hp⟩
    exact (Bool.and_eq_true_iff.mp (List.mem_filter.mp hmem).2).2
  · intro h
    refine List.filter_congr fun r hr => ?_
    cases hp : p r with
    | false => rfl
    | true => exact h r hr hp

/-- Among rows with different keys, those with the key of `r` are `r` alone. -/
theorem filter_key_eq {R K : Type*} [DecidableEq K] {key : R → K} {rows : List R}
    (hkeys : rows.Pairwise fun a b => key a ≠ key b) {r : R} (hr : r ∈ rows) :
    rows.filter (fun a => key a = key r) = [r] := by
  induction rows with
  | nil => cases hr
  | cons a rows ih =>
    obtain ⟨ha, hrows⟩ := List.pairwise_cons.mp hkeys
    rcases List.mem_cons.mp hr with rfl | hr
    · rw [List.filter_cons_of_pos (by simp), List.filter_eq_nil_iff.mpr]
      intro b hb
      simpa using (ha b hb).symm
    · rw [List.filter_cons_of_neg (by simpa using ha r hr), ih hrows hr]

end RowSecurity
