import NextBallUp.Lib.Keyset
import Mathlib.Data.Prod.Lex

/-!
# The best rows of a table

`ORDER BY key LIMIT n`, or a sort and a slice: the rows before which there are fewer than `n`
others.

## Main definitions

* `top`: the best rows
* `countBefore`: how many rows there are before a key

## Main results

* `mem_top`: **a row is among the best if and only if few rows are before it**
* `top_eq_of_perm`, `take_top`: they depend neither on the order of the table nor on what follows
  them
* `mergeSort_eq_orderBy`, `mergeSort_eq_orderBy_placed`: a stable sort orders by the key, and then
  by the position in the table
* `top_eq_top_iff`: **to rank a part of a table is to rank all of it** if and only if the best rows
  are in the part
* `head?_orderBy_or`: the first row of a table of which one part precedes the other
-/

namespace Keyset

variable {α K : Type} [LinearOrder K] {key : α → K} {rows part : List α} {row other : α} {n m : ℕ}

/-- The best rows, so many of them. -/
def top (key : α → K) (n : ℕ) (rows : List α) : List α := (orderBy key rows).take n

/-- How many rows come before a key. -/
def countBefore (key : α → K) (rows : List α) (k : K) : ℕ := rows.countP fun row => key row < k

theorem sublist_top (key : α → K) (n : ℕ) (rows : List α) :
    (top key n rows).Sublist (orderBy key rows) := List.take_sublist n _

theorem mem_of_mem_top (h : row ∈ top key n rows) : row ∈ rows :=
  mem_orderBy.mp ((sublist_top key n rows).subset h)

@[simp] theorem length_top (key : α → K) (n : ℕ) (rows : List α) :
    (top key n rows).length = min n rows.length := by
  rw [top, List.length_take, (orderBy_perm key rows).length_eq]

theorem pairwise_top (h : HasKey key rows) (n : ℕ) :
    (top key n rows).Pairwise fun r r' => key r < key r' :=
  (pairwise_orderBy h).sublist (sublist_top key n rows)

theorem nodup_map_top (h : HasKey key rows) (n : ℕ) : ((top key n rows).map key).Nodup :=
  (((orderBy_perm key rows).map key).nodup_iff.mpr h).sublist ((sublist_top key n rows).map key)

/-- The best rows of the best rows are the best ones. -/
theorem take_top (key : α → K) (n m : ℕ) (rows : List α) :
    (top key m rows).take n = top key (min n m) rows := List.take_take

theorem orderBy_eq_of_perm (h : HasKey key rows) (hperm : rows.Perm part) :
    orderBy key rows = orderBy key part :=
  eq_of_pairwise (pairwise_orderBy h)
    (pairwise_orderBy ((hperm.map key).nodup_iff.mp h)) fun row => by
      rw [mem_orderBy, mem_orderBy, hperm.mem_iff]

theorem top_eq_of_perm (h : HasKey key rows) (hperm : rows.Perm part) (n : ℕ) :
    top key n rows = top key n part := by
  rw [top, top, orderBy_eq_of_perm h hperm]

theorem countBefore_eq_of_perm (h : rows.Perm part) (k : K) :
    countBefore key rows k = countBefore key part k := h.countP_eq _

theorem countBefore_le_of_sublist {k : K} (h : part.Sublist rows) :
    countBefore key part k ≤ countBefore key rows k := h.countP_le

theorem countBefore_le {k k' : K} (h : k ≤ k') : countBefore key rows k ≤ countBefore key rows k' :=
  List.countP_mono_left fun _ _ hlt => decide_eq_true ((of_decide_eq_true hlt).trans_le h)

theorem countBefore_cons_of_lt {k : K} (h : key row < k) :
    countBefore key (row :: rows) k = countBefore key rows k + 1 :=
  List.countP_cons_of_pos (decide_eq_true h)

/-- In a table in order the rows before a row are those that stand before it. -/
theorem mem_take_iff (h : rows.Pairwise fun r r' => key r < key r') :
    row ∈ rows.take n ↔ row ∈ rows ∧ countBefore key rows (key row) < n := by
  induction rows generalizing n with
  | nil => simp
  | cons first rows ih =>
    obtain ⟨hfirst, hrest⟩ := List.pairwise_cons.mp h
    have hself : countBefore key (first :: rows) (key first) = 0 := by
      rw [countBefore, List.countP_eq_zero]
      intro r hr hlt
      rcases List.mem_cons.mp hr with rfl | hr
      · exact lt_irrefl _ (of_decide_eq_true hlt)
      · exact lt_asymm (hfirst r hr) (of_decide_eq_true hlt)
    cases n with
    | zero => simp
    | succ n =>
      rw [List.take_succ_cons, List.mem_cons, List.mem_cons, ih hrest]
      constructor
      · rintro (rfl | ⟨hmem, hcount⟩)
        · exact ⟨.inl rfl, by omega⟩
        · refine ⟨.inr hmem, ?_⟩
          rw [countBefore_cons_of_lt (hfirst row hmem)]
          exact Nat.succ_lt_succ hcount
      · rintro ⟨rfl | hmem, hcount⟩
        · exact .inl rfl
        · rw [countBefore_cons_of_lt (hfirst row hmem)] at hcount
          exact .inr ⟨hmem, Nat.lt_of_succ_lt_succ hcount⟩

/-- **The best rows** are those before which there are fewer than so many. -/
theorem mem_top (h : HasKey key rows) :
    row ∈ top key n rows ↔ row ∈ rows ∧ countBefore key rows (key row) < n := by
  rw [top, mem_take_iff (pairwise_orderBy h), mem_orderBy,
    countBefore_eq_of_perm (orderBy_perm key rows)]

/-- What is left out comes behind every row that is among the best. -/
theorem lt_of_not_mem_top (h : HasKey key rows) (hrow : row ∈ top key n rows)
    (hother : other ∈ rows) (hleft : other ∉ top key n rows) : key row < key other := by
  by_contra hle
  rw [mem_top h] at hrow hleft
  exact hleft ⟨hother, (countBefore_le (not_lt.mp hle)).trans_lt hrow.2⟩

/-- Where so many rows come before a row, the best ones are as many. -/
theorem length_top_of_le {k : K} (h : n ≤ countBefore key rows k) :
    (top key n rows).length = n := by
  rw [length_top]
  exact min_eq_left (h.trans List.countP_le_length)

/-- **To rank a part of a table.** It gives the best rows if and only if they are in the part. -/
theorem top_eq_top_iff (h : HasKey key rows) (hpart : part.Sublist rows) :
    top key n part = top key n rows ↔
      ∀ row ∈ rows, countBefore key rows (key row) < n → row ∈ part := by
  have hkey : HasKey key part := h.sublist (hpart.map key)
  constructor
  · intro heq row hrow hcount
    have hmem : row ∈ top key n part := by
      rw [heq, mem_top h]
      exact ⟨hrow, hcount⟩
    exact mem_of_mem_top hmem
  · intro hbest
    have hsubset : ∀ row ∈ top key n rows, row ∈ part := fun row hrow =>
      hbest row (mem_of_mem_top hrow) ((mem_top h).mp hrow).2
    refine eq_of_pairwise (pairwise_top hkey n) (pairwise_top h n) fun row => ?_
    rw [mem_top hkey, mem_top h]
    constructor
    · rintro ⟨hrow, hcount⟩
      refine ⟨hpart.subset hrow, ?_⟩
      by_contra hge
      -- All of the best rows would come before the row, in the part as well.
      have hbefore : top key n rows ⊆ part.filter fun r => key r < key row := by
        intro r hr
        refine List.mem_filter.mpr ⟨hsubset r hr, decide_eq_true ?_⟩
        by_contra hle
        exact hge ((countBefore_le (not_lt.mp hle)).trans_lt ((mem_top h).mp hr).2)
      have hle := (List.subperm_of_subset ((nodup_map_top h n).of_map key) hbefore).length_le
      rw [length_top_of_le (not_lt.mp hge), ← List.countP_eq_length_filter] at hle
      exact absurd hcount (not_lt.mpr hle)
    · rintro ⟨hrow, hcount⟩
      exact ⟨hbest row hrow hcount, (countBefore_le_of_sublist hpart).trans_lt hcount⟩

/-! ### The first row -/

theorem head?_orderBy_eq_none_iff : (orderBy key rows).head? = none ↔ rows = [] := by
  rw [List.head?_eq_none_iff, ← List.length_eq_zero_iff, (orderBy_perm key rows).length_eq,
    List.length_eq_zero_iff]

/-- The first row is also the first one of a part of the table. -/
theorem head?_orderBy_filter {p : α → Bool} (h : (orderBy key rows).head? = some row)
    (hp : p row = true) : (orderBy key (rows.filter p)).head? = some row := by
  induction rows with
  | nil => exact h
  | cons first rows ih =>
    rw [head?_orderBy_cons, Option.some.injEq] at h
    cases hrest : (orderBy key rows).head? with
    | none =>
      rw [hrest] at h
      obtain rfl : first = row := h
      rw [List.filter_cons_of_pos hp, head?_orderBy_eq_none_iff.mp hrest]
      rfl
    | some r =>
      rw [hrest] at h
      replace h : (if key first ≤ key r then first else r) = row := h
      split_ifs at h with hle
      · subst h
        rw [List.filter_cons_of_pos hp, head?_orderBy_cons]
        cases hpart : (orderBy key (rows.filter p)).head? with
        | none => rfl
        | some r' =>
          have hmem := (List.mem_filter.mp (head?_orderBy hpart).1).1
          have hle' : key first ≤ key r' := hle.trans ((head?_orderBy hrest).2 r' hmem)
          rw [Option.elim_some, if_pos hle']
      · subst h
        have hpart := ih hrest
        cases hfirst : p first with
        | false => rwa [List.filter_cons_of_neg (ne_true_of_eq_false hfirst)]
        | true =>
          rw [List.filter_cons_of_pos hfirst, head?_orderBy_cons, hpart, Option.elim_some,
            if_neg hle]

/-- The first row of a table of which one part precedes the other: the first one of that part, or of
the other one if there is none. -/
theorem head?_orderBy_or {p : α → Bool}
    (h : ∀ r ∈ rows, ∀ r' ∈ rows, p r = true → p r' = false → key r < key r') :
    (orderBy key rows).head? = (orderBy key (rows.filter p)).head?.or
      (orderBy key (rows.filter fun r => !p r)).head? := by
  cases hfirst : (orderBy key rows).head? with
  | none =>
    rw [head?_orderBy_eq_none_iff.mp hfirst]
    rfl
  | some row =>
    cases hp : p row with
    | true => rw [head?_orderBy_filter hfirst hp, Option.some_or]
    | false =>
      obtain ⟨hmem, hle⟩ := head?_orderBy hfirst
      have hnil : rows.filter p = [] := by
        rw [List.filter_eq_nil_iff]
        intro r hr hpr
        exact (h r hr row hmem hpr hp).not_ge (hle r hr)
      rw [hnil, head?_orderBy_filter (p := fun r => !p r) hfirst (by rw [hp, Bool.not_false])]
      rfl

/-! ### Sorting -/

/-- To sort by a key that no two rows share. -/
theorem mergeSort_eq_orderBy (h : HasKey key rows) :
    rows.mergeSort (fun r r' => decide (key r ≤ key r')) = orderBy key rows := by
  have hperm := List.mergeSort_perm rows fun r r' => decide (key r ≤ key r')
  have hle : (rows.mergeSort fun r r' => decide (key r ≤ key r')).Pairwise
      fun r r' => key r ≤ key r' := by
    refine (List.pairwise_mergeSort ?_ ?_ rows).imp of_decide_eq_true
    · intro a b c hab hbc
      exact decide_eq_true ((of_decide_eq_true hab).trans (of_decide_eq_true hbc))
    · intro a b
      rw [Bool.or_eq_true, decide_eq_true_iff, decide_eq_true_iff]
      exact le_total _ _
  have hne : (rows.mergeSort fun r r' => decide (key r ≤ key r')).Pairwise
      fun r r' => key r ≠ key r' :=
    List.pairwise_map.mp ((hperm.map key).nodup_iff.mpr h)
  refine eq_of_pairwise (hle.imp₂ (fun _ _ hle hne => lt_of_le_of_ne hle hne) hne)
    (pairwise_orderBy h) fun row => ?_
  rw [mem_orderBy, hperm.mem_iff]

section

variable {I : Type} [DecidableEq I] {own : α → I}

/-- The position of a row in a table. -/
def position (own : α → I) (rows : List α) (row : α) : ℕ := (rows.map own).idxOf (own row)

/-- The key of a row with its position behind it. -/
def placed (key : α → K) (own : α → I) (rows : List α) (row : α) : K ×ₗ ℕ :=
  toLex (key row, position own rows row)

theorem position_of_mem_zipIdx {i : ℕ} (h : HasKey own rows) (hmem : (row, i) ∈ rows.zipIdx) :
    position own rows row = i := by
  obtain ⟨hlt, hrow⟩ := List.mem_zipIdx' hmem
  have hlt' : i < (rows.map own).length := by rwa [List.length_map]
  have hown : own row = (rows.map own)[i] := by rw [List.getElem_map, hrow]
  rw [position, hown, List.Nodup.idxOf_getElem h]

omit [LinearOrder K] in
theorem hasKey_placed (key : α → K) (h : HasKey own rows) : HasKey (placed key own rows) rows := by
  refine (List.nodup_map_iff_inj_on (h.of_map own)).mpr fun r hr r' hr' heq => ?_
  have hposition : position own rows r = position own rows r' := congrArg (fun k => (ofLex k).2) heq
  have hown : own r = own r' := (List.idxOf_inj (List.mem_map_of_mem hr)).mp hposition
  exact List.inj_on_of_nodup_map h hr hr' hown

/-- **To sort by a key that rows may share.** Those that do stay as they stand. -/
theorem mergeSort_eq_orderBy_placed (key : α → K) (h : HasKey own rows) :
    rows.mergeSort (fun r r' => decide (key r ≤ key r')) = orderBy (placed key own rows) rows := by
  have hperm := List.mergeSort_perm rows fun r r' => decide (key r ≤ key r')
  have hle : (rows.mergeSort fun r r' => decide (key r ≤ key r')).Pairwise
      fun r r' => placed key own rows r ≤ placed key own rows r' := by
    rw [← List.mergeSort_zipIdx, List.pairwise_map]
    refine (List.pairwise_mergeSort (List.zipIdxLE_trans ?_) (List.zipIdxLE_total ?_)
      rows.zipIdx).imp_of_mem fun {a b} ha hb hab => ?_
    · intro a b c hab hbc
      exact decide_eq_true ((of_decide_eq_true hab).trans (of_decide_eq_true hbc))
    · intro a b
      rw [Bool.or_eq_true, decide_eq_true_iff, decide_eq_true_iff]
      exact le_total _ _
    · rw [placed, placed, position_of_mem_zipIdx h (List.mem_mergeSort.mp ha),
        position_of_mem_zipIdx h (List.mem_mergeSort.mp hb), Prod.Lex.toLex_le_toLex]
      rw [List.zipIdxLE] at hab
      split_ifs at hab with hle hge
      · exact .inr ⟨le_antisymm (of_decide_eq_true hle) (of_decide_eq_true hge),
          of_decide_eq_true hab⟩
      · exact .inl (lt_of_not_ge fun h => hge (decide_eq_true h))
  have hne : (rows.mergeSort fun r r' => decide (key r ≤ key r')).Pairwise
      fun r r' => placed key own rows r ≠ placed key own rows r' :=
    List.pairwise_map.mp ((hperm.map _).nodup_iff.mpr (hasKey_placed key h))
  refine eq_of_pairwise (hle.imp₂ (fun _ _ hle hne => lt_of_le_of_ne hle hne) hne)
    (pairwise_orderBy (hasKey_placed key h)) fun row => ?_
  rw [mem_orderBy, hperm.mem_iff]

end

end Keyset
