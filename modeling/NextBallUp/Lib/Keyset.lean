import Mathlib.Data.List.Sort

/-!
# Keyset pagination

A listing that is read page by page. A page begins after a cursor, the key of the last row of the
page before, and one row more than fits on the page tells whether there is another one. Between two
pages the table may change.

## Main definitions

* `orderBy`, `after`, `page`: a page of a table
* `pages`: the pages of a sequence of requests, each of which finds a table of its own
* `follow`: the same for a listing whose cursors are texts and whose requests may fail
* `IsGrown`, `IsComplete`: what may happen between the pages, and what the listing is to give

## Main results

* `pairwise_pages`: **nothing is repeated**, whatever happens between the pages
* `exists_mem_pages`: **nothing is lost** that is there throughout
* `flatten_pages`: the pages of one and the same table are the table
* `isLast_pages`: they come to an end
* `isComplete_of_page`: what a listing needs for all this: its cursors are read as they were written
-/

namespace Keyset

variable {α K : Type} [LinearOrder K] (key : α → K)

/-! ### Pages -/

/-- `ORDER BY key` -/
def orderBy (rows : List α) : List α := rows.insertionSort fun r r' => key r ≤ key r'

/-- The rows behind a cursor. -/
def after (cursor : Option K) (rows : List α) : List α :=
  rows.filter fun row => ∀ k ∈ cursor, k < key row

structure Page (α C : Type) where
  rows : List α
  next : Option C

/-- A page of so many rows at most. -/
def page (rows : List α) (limit : ℕ) (cursor : Option K) : Page α K :=
  let found := (orderBy key (after key cursor rows)).take (limit + 1)
  if limit < found.length then
    { rows := found.take limit
      next := (found.take limit).getLast?.map key }
  else
    { rows := found
      next := none }

/-- The pages that a sequence of requests gives, each for a table and a number of rows, and whether
the last page was reached. -/
def pages (cursor : Option K) : List (List α × ℕ) → List (List α) × Bool
  | [] => ([], false)
  | (rows, limit) :: requests =>
    match (page key rows limit cursor).next with
    | none => ([(page key rows limit cursor).rows], true)
    | some k =>
      ((page key rows limit cursor).rows :: (pages (some k) requests).1,
        (pages (some k) requests).2)

variable {key} {rows : List α} {row : α} {limit : ℕ} {cursor : Option K} {k : K}
  {requests : List (List α × ℕ)}

@[simp] theorem mem_orderBy : row ∈ orderBy key rows ↔ row ∈ rows := List.mem_insertionSort _

theorem orderBy_perm (key : α → K) (rows : List α) : (orderBy key rows).Perm rows :=
  List.perm_insertionSort _ _

@[simp] theorem mem_after :
    row ∈ after key cursor rows ↔ row ∈ rows ∧ ∀ k ∈ cursor, k < key row := by
  rw [after, List.mem_filter, decide_eq_true_iff]

@[simp] theorem after_none : after key none rows = rows := by
  rw [after, List.filter_eq_self]
  intro row _
  exact decide_eq_true fun k hk => (Option.not_mem_none k hk).elim

/-- No two rows of a table have the same key. -/
def HasKey (key : α → K) (rows : List α) : Prop := (rows.map key).Nodup

theorem HasKey.after (h : HasKey key rows) (cursor : Option K) :
    HasKey key (after key cursor rows) :=
  h.sublist (List.filter_sublist.map _)

theorem pairwise_le_orderBy (key : α → K) (rows : List α) :
    (orderBy key rows).Pairwise fun r r' => key r ≤ key r' := by
  have : Std.Total fun r r' : α => key r ≤ key r' := ⟨fun r r' => le_total (key r) (key r')⟩
  have : IsTrans α fun r r' => key r ≤ key r' := ⟨fun _ _ _ => le_trans⟩
  exact List.pairwise_insertionSort _ rows

/-- The first row comes before every other one. -/
theorem head?_orderBy (h : (orderBy key rows).head? = some row) :
    row ∈ rows ∧ ∀ r ∈ rows, key row ≤ key r := by
  obtain ⟨rest, hrest⟩ := List.head?_eq_some_iff.mp h
  have hpairwise := pairwise_le_orderBy key rows
  rw [hrest, List.pairwise_cons] at hpairwise
  refine ⟨mem_orderBy.mp (hrest ▸ List.mem_cons_self), fun r hr => ?_⟩
  rw [← (orderBy_perm key rows).mem_iff, hrest, List.mem_cons] at hr
  rcases hr with rfl | hr
  · exact le_refl _
  · exact hpairwise.1 r hr

/-- Rows are in order if what they stand for is. -/
theorem map_orderBy {β : Type} (f : β → α) (rows : List β) :
    (orderBy (fun row => key (f row)) rows).map f = orderBy key (rows.map f) :=
  List.map_insertionSort _ _ f rows fun _ _ _ _ => Iff.rfl

/-- Of two first rows the earlier one of the table is taken. -/
theorem head?_orderBy_cons (key : α → K) (row : α) (rows : List α) :
    (orderBy key (row :: rows)).head? =
      some ((orderBy key rows).head?.elim row fun r => if key row ≤ key r then row else r) := by
  rw [orderBy, List.insertionSort_cons, ← orderBy]
  cases orderBy key rows with
  | nil => rfl
  | cons r rest =>
    rw [List.orderedInsert_cons]
    show _ = some (if key row ≤ key r then row else r)
    split_ifs
    · rfl
    · rfl

theorem pairwise_orderBy (h : HasKey key rows) :
    (orderBy key rows).Pairwise fun r r' => key r < key r' := by
  have hle := pairwise_le_orderBy key rows
  have hne : (orderBy key rows).Pairwise fun r r' => key r ≠ key r' :=
    List.pairwise_map.mp ((orderBy_perm key rows).map key |>.nodup_iff.mpr h)
  exact hle.imp₂ (fun _ _ hle hne => lt_of_le_of_ne hle hne) hne

/-- Rows in the order of their keys are determined by what they are. -/
theorem eq_of_pairwise {l l' : List α} (hl : l.Pairwise fun r r' => key r < key r')
    (hl' : l'.Pairwise fun r r' => key r < key r') (h : ∀ row, row ∈ l ↔ row ∈ l') : l = l' := by
  have hnodup {l : List α} (hl : l.Pairwise fun r r' => key r < key r') : l.Nodup :=
    hl.imp fun hlt => ne_of_apply_ne key hlt.ne
  exact ((List.perm_ext_iff_of_nodup (hnodup hl) (hnodup hl')).mpr h).eq_of_pairwise
    (fun _ _ _ _ h₁ h₂ => (lt_asymm h₁ h₂).elim) hl hl'

/-! ### One page -/

theorem page_of_le (h : (orderBy key (after key cursor rows)).length ≤ limit) :
    page key rows limit cursor = ⟨orderBy key (after key cursor rows), none⟩ := by
  rw [page, List.take_of_length_le (h.trans (Nat.le_succ limit))]
  exact if_neg (Nat.not_lt.mpr h)

theorem page_of_lt (h : limit < (orderBy key (after key cursor rows)).length) :
    page key rows limit cursor = ⟨(orderBy key (after key cursor rows)).take limit,
      ((orderBy key (after key cursor rows)).take limit).getLast?.map key⟩ := by
  have hlength : limit < ((orderBy key (after key cursor rows)).take (limit + 1)).length := by
    rw [List.length_take]
    omega
  rw [page, if_pos hlength, List.take_take, Nat.min_eq_left (Nat.le_succ limit)]

/-- The last page has all that is left. -/
theorem rows_page_of_none (hlimit : 0 < limit) (h : (page key rows limit cursor).next = none) :
    (page key rows limit cursor).rows = orderBy key (after key cursor rows) := by
  rcases Nat.lt_or_ge limit (orderBy key (after key cursor rows)).length with hlt | hle
  · rw [page_of_lt hlt, Option.map_eq_none_iff, List.getLast?_eq_none_iff,
      List.take_eq_nil_iff] at h
    rcases h with h | h
    · omega
    · rw [h] at hlt
      exact (Nat.not_lt_zero _ hlt).elim
  · rw [page_of_le hle]

/-- The row at which a table in order is cut off is in the table, behind the cursor. -/
theorem mem_after_of_orderBy_eq {front rest : List α}
    (h : orderBy key (after key cursor rows) = front ++ row :: rest) :
    row ∈ after key cursor rows :=
  (orderBy_perm key _).mem_iff.mp (h ▸ List.mem_append_right _ List.mem_cons_self)

/-- Any other page is cut off behind the row to which the cursor points. -/
theorem rows_page_of_some (h : (page key rows limit cursor).next = some k) :
    ∃ front row rest, (page key rows limit cursor).rows = front ++ [row] ∧ key row = k ∧
      orderBy key (after key cursor rows) = front ++ row :: rest := by
  rcases Nat.lt_or_ge limit (orderBy key (after key cursor rows)).length with hlt | hle
  · rw [page_of_lt hlt] at h ⊢
    obtain ⟨row, hrow, rfl⟩ := Option.map_eq_some_iff.mp h
    obtain ⟨front, hfront⟩ := List.getLast?_eq_some_iff.mp hrow
    refine ⟨front, row, (orderBy key (after key cursor rows)).drop limit, hfront, rfl, ?_⟩
    conv_lhs => rw [← List.take_append_drop limit (orderBy key (after key cursor rows)), hfront]
    rw [List.append_assoc, List.singleton_append]
  · rw [page_of_le hle] at h
    cases h

theorem sublist_page (rows : List α) (limit : ℕ) (cursor : Option K) :
    (page key rows limit cursor).rows.Sublist (orderBy key (after key cursor rows)) := by
  rcases Nat.lt_or_ge limit (orderBy key (after key cursor rows)).length with hlt | hle
  · rw [page_of_lt hlt]
    exact List.take_sublist _ _
  · rw [page_of_le hle]

theorem mem_of_mem_page (h : row ∈ (page key rows limit cursor).rows) :
    row ∈ rows ∧ ∀ k ∈ cursor, k < key row :=
  mem_after.mp (mem_orderBy.mp ((sublist_page rows limit cursor).subset h))

theorem pairwise_page (h : HasKey key rows) (limit : ℕ) (cursor : Option K) :
    (page key rows limit cursor).rows.Pairwise fun r r' => key r < key r' :=
  (pairwise_orderBy (h.after cursor)).sublist (sublist_page rows limit cursor)

/-- The rows of a page are up to the cursor that it gives. -/
theorem le_of_mem_page (hkey : HasKey key rows) (h : (page key rows limit cursor).next = some k)
    (hrow : row ∈ (page key rows limit cursor).rows) : key row ≤ k := by
  obtain ⟨front, last, rest, hrows, rfl, horder⟩ := rows_page_of_some h
  rw [hrows] at hrow
  have hpairwise := pairwise_orderBy (hkey.after cursor)
  rw [horder, List.pairwise_append] at hpairwise
  rcases List.mem_append.mp hrow with hrow | hrow
  · exact (hpairwise.2.2 row hrow last List.mem_cons_self).le
  · rw [List.mem_singleton.mp hrow]

/-- **A page leaves out only what is behind the cursor that it gives.** -/
theorem mem_page_or_lt (hkey : HasKey key rows) (h : (page key rows limit cursor).next = some k)
    (hrow : row ∈ after key cursor rows) :
    row ∈ (page key rows limit cursor).rows ∨ k < key row := by
  obtain ⟨front, last, rest, hrows, rfl, horder⟩ := rows_page_of_some h
  have hpairwise := pairwise_orderBy (hkey.after cursor)
  rw [horder, List.pairwise_append, List.pairwise_cons] at hpairwise
  rw [← (orderBy_perm key _).mem_iff, horder, List.mem_append, List.mem_cons] at hrow
  rw [hrows, List.mem_append, List.mem_singleton]
  rcases hrow with hrow | hrow | hrow
  · exact .inl (.inl hrow)
  · exact .inl (.inr hrow)
  · exact .inr (hpairwise.2.1.1 row hrow)

/-- Behind the cursor of a page there is less than before the page. -/
theorem length_after_lt (h : (page key rows limit cursor).next = some k) :
    (after key (some k) rows).length < (after key cursor rows).length := by
  obtain ⟨front, last, rest, -, rfl, horder⟩ := rows_page_of_some h
  have hlast : last ∈ after key cursor rows := mem_after_of_orderBy_eq horder
  have hsub : (after key (some (key last)) rows).Sublist ((after key cursor rows).filter
      fun row => key last < key row) := by
    rw [after, after, List.filter_filter]
    refine List.monotone_filter_right _ fun row hrow => ?_
    have hlt : key last < key row := of_decide_eq_true hrow _ rfl
    simp only [hlt, decide_true, Bool.true_and, decide_eq_true_eq]
    exact fun k hk => ((mem_after.mp hlast).2 k hk).trans hlt
  refine hsub.length_le.trans_lt ?_
  rw [← List.countP_eq_length_filter]
  refine lt_of_le_of_ne List.countP_le_length fun he => ?_
  exact lt_irrefl _ (of_decide_eq_true (List.countP_eq_length.mp he last hlast))

/-! ### All pages -/

theorem pages_of_none {table : List α} (h : (page key table limit cursor).next = none)
    (requests : List (List α × ℕ)) :
    pages key cursor ((table, limit) :: requests) =
      ([(page key table limit cursor).rows], true) := by
  rw [pages, h]

theorem pages_of_some {table : List α} (h : (page key table limit cursor).next = some k)
    (requests : List (List α × ℕ)) :
    pages key cursor ((table, limit) :: requests) =
      ((page key table limit cursor).rows :: (pages key (some k) requests).1,
        (pages key (some k) requests).2) := by
  rw [pages, h]

/-- The requests that were made until the last page was reached. -/
def made (key : α → K) (cursor : Option K) (requests : List (List α × ℕ)) : List (List α × ℕ) :=
  requests.take (pages key cursor requests).1.length

/-- What is on the pages was in the table, and is behind the cursor. -/
theorem mem_of_mem_pages (h : row ∈ (pages key cursor requests).1.flatten) :
    (∃ r ∈ made key cursor requests, row ∈ r.1) ∧ ∀ k ∈ cursor, k < key row := by
  induction requests generalizing cursor with
  | nil => cases h
  | cons r requests ih =>
    obtain ⟨table, limit⟩ := r
    cases hnext : (page key table limit cursor).next with
    | none =>
      rw [pages_of_none hnext, List.flatten_singleton] at h
      rw [made, pages_of_none hnext]
      obtain ⟨hmem, hlt⟩ := mem_of_mem_page h
      exact ⟨⟨_, List.mem_cons_self, hmem⟩, hlt⟩
    | some k =>
      rw [pages_of_some hnext, List.flatten_cons, List.mem_append] at h
      rw [made, pages_of_some hnext]
      rcases h with h | h
      · obtain ⟨hmem, hlt⟩ := mem_of_mem_page h
        exact ⟨⟨_, List.mem_cons_self, hmem⟩, hlt⟩
      · obtain ⟨⟨r, hr, hmem⟩, hlt⟩ := ih h
        refine ⟨⟨r, List.mem_cons_of_mem _ hr, hmem⟩, fun c hc => ?_⟩
        obtain ⟨front, last, rest, -, rfl, horder⟩ := rows_page_of_some hnext
        have hlast : last ∈ after key cursor table := mem_after_of_orderBy_eq horder
        exact ((mem_after.mp hlast).2 c hc).trans (hlt _ rfl)

/-- **Nothing is repeated**, and the order of the listing is kept across the pages. -/
theorem pairwise_pages (h : ∀ r ∈ requests, HasKey key r.1) :
    (pages key cursor requests).1.flatten.Pairwise fun r r' => key r < key r' := by
  induction requests generalizing cursor with
  | nil => exact List.Pairwise.nil
  | cons r requests ih =>
    obtain ⟨table, limit⟩ := r
    have hkey : HasKey key table := h _ List.mem_cons_self
    cases hnext : (page key table limit cursor).next with
    | none =>
      rw [pages_of_none hnext, List.flatten_singleton]
      exact pairwise_page hkey limit cursor
    | some k =>
      rw [pages_of_some hnext, List.flatten_cons, List.pairwise_append]
      refine ⟨pairwise_page hkey limit cursor, ih fun r hr => h r (List.mem_cons_of_mem _ hr), ?_⟩
      intro row hrow row' hrow'
      exact (le_of_mem_page hkey hnext hrow).trans_lt ((mem_of_mem_pages hrow').2 k rfl)

/-- **Nothing is lost**: a key that is in the table whenever a page is read is on one of the pages.
-/
theorem exists_mem_pages (h : ∀ r ∈ requests, HasKey key r.1 ∧ 0 < r.2)
    (hlast : (pages key cursor requests).2 = true) (hlt : ∀ c ∈ cursor, c < k)
    (hk : ∀ r ∈ made key cursor requests, ∃ row ∈ r.1, key row = k) :
    ∃ row ∈ (pages key cursor requests).1.flatten, key row = k := by
  induction requests generalizing cursor with
  | nil => cases hlast
  | cons r requests ih =>
    obtain ⟨table, limit⟩ := r
    obtain ⟨hkey, hlimit⟩ := h _ List.mem_cons_self
    cases hnext : (page key table limit cursor).next with
    | none =>
      rw [made, pages_of_none hnext] at hk
      obtain ⟨row, hrow, rfl⟩ := hk _ List.mem_cons_self
      rw [pages_of_none hnext, List.flatten_singleton, rows_page_of_none hlimit hnext]
      exact ⟨row, mem_orderBy.mpr (mem_after.mpr ⟨hrow, hlt⟩), rfl⟩
    | some k' =>
      rw [made, pages_of_some hnext] at hk
      rw [pages_of_some hnext] at hlast
      obtain ⟨row, hrow, rfl⟩ := hk _ List.mem_cons_self
      rw [pages_of_some hnext, List.flatten_cons]
      rcases mem_page_or_lt hkey hnext (mem_after.mpr ⟨hrow, hlt⟩) with hpage | hbehind
      · exact ⟨row, List.mem_append_left _ hpage, rfl⟩
      · have hrest := ih (fun r hr => h r (List.mem_cons_of_mem _ hr)) hlast
          (fun c hc => Option.mem_some.mp hc ▸ hbehind) fun r hr => hk r (List.mem_cons_of_mem _ hr)
        obtain ⟨row', hrow', he⟩ := hrest
        exact ⟨row', List.mem_append_right _ hrow', he⟩

/-- A row that is there throughout is on one of the pages. -/
theorem mem_pages (h : ∀ r ∈ requests, HasKey key r.1 ∧ 0 < r.2)
    (hlast : (pages key cursor requests).2 = true) (hlt : ∀ c ∈ cursor, c < key row)
    (hrow : ∀ r ∈ made key cursor requests, row ∈ r.1) :
    row ∈ (pages key cursor requests).1.flatten := by
  obtain ⟨row', hmem, he⟩ := exists_mem_pages h hlast hlt fun r hr => ⟨row, hrow r hr, rfl⟩
  obtain ⟨⟨r, hr, hmem'⟩, -⟩ := mem_of_mem_pages hmem
  have hkey := (h r (List.mem_of_mem_take hr)).1
  rw [← List.inj_on_of_nodup_map hkey hmem' (hrow r hr) he]
  exact hmem

/-! ### Pages of one table -/

variable {limits : List ℕ}

/-- **The pages of one and the same table are the table.** -/
theorem flatten_pages (hkey : HasKey key rows) (hlimits : ∀ limit ∈ limits, 0 < limit)
    (hlast : (pages key none (limits.map (rows, ·))).2 = true) :
    (pages key none (limits.map (rows, ·))).1.flatten = orderBy key rows := by
  have h : ∀ r ∈ limits.map (rows, ·), HasKey key r.1 ∧ 0 < r.2 := by
    intro r hr
    obtain ⟨limit, hlimit, rfl⟩ := List.mem_map.mp hr
    exact ⟨hkey, hlimits limit hlimit⟩
  have hrows : ∀ r ∈ made key none (limits.map (rows, ·)), r.1 = rows := by
    intro r hr
    obtain ⟨limit, -, rfl⟩ := List.mem_map.mp (List.mem_of_mem_take hr)
    rfl
  refine eq_of_pairwise (pairwise_pages fun r hr => (h r hr).1) (pairwise_orderBy hkey)
    fun row => ?_
  rw [mem_orderBy]
  constructor
  · intro hrow
    obtain ⟨⟨r, hr, hmem⟩, -⟩ := mem_of_mem_pages hrow
    exact hrows r hr ▸ hmem
  · intro hrow
    exact mem_pages h hlast (fun c hc => (Option.not_mem_none c hc).elim) fun r hr =>
      (hrows r hr).symm ▸ hrow

/-- **They come to an end**: there are at most as many pages as rows, or one. -/
theorem isLast_pages (h : (after key cursor rows).length < limits.length) :
    (pages key cursor (limits.map (rows, ·))).2 = true := by
  induction limits generalizing cursor with
  | nil => cases h
  | cons limit limits ih =>
    rw [List.map_cons]
    cases hnext : (page key rows limit cursor).next with
    | none => rw [pages_of_none hnext]
    | some k =>
      rw [pages_of_some hnext]
      have hlt := length_after_lt hnext
      rw [List.length_cons] at h
      exact ih (by omega)

/-- A table that has grown only ahead of its rows, if at all. -/
structure IsGrown (key : α → K) (rows table : List α) : Prop where
  mem : ∀ row ∈ rows, row ∈ table
  ahead : ∀ row ∈ table, row ∉ rows → ∀ row' ∈ rows, key row < key row'

/-- Behind one of its rows it is as it was. -/
theorem IsGrown.orderBy_after {table : List α} (h : IsGrown key rows table)
    (hrows : HasKey key rows) (htable : HasKey key table) (hrow : row ∈ rows) (hk : key row ≤ k) :
    orderBy key (after key (some k) table) = orderBy key (after key (some k) rows) := by
  refine eq_of_pairwise (pairwise_orderBy (htable.after _)) (pairwise_orderBy (hrows.after _)) ?_
  intro r
  rw [mem_orderBy, mem_orderBy, mem_after, mem_after]
  refine and_congr_left fun hlt => ⟨fun hr => ?_, h.mem r⟩
  by_contra hn
  exact lt_asymm (h.ahead r hr hn row hrow) (hk.trans_lt (hlt k rfl))

/-- The pages behind a row do not show that the table has grown. -/
theorem pages_eq_of_isGrown (hrows : HasKey key rows)
    (h : ∀ r ∈ requests, IsGrown key rows r.1 ∧ HasKey key r.1)
    (hk : ∃ row ∈ rows, key row ≤ k) :
    pages key (some k) requests = pages key (some k) (requests.map fun r => (rows, r.2)) := by
  induction requests generalizing k with
  | nil => rfl
  | cons r requests ih =>
    obtain ⟨table, limit⟩ := r
    obtain ⟨hgrown, htable⟩ := h _ List.mem_cons_self
    obtain ⟨row, hrow, hle⟩ := hk
    have hpage : page key table limit (some k) = page key rows limit (some k) := by
      rw [page, page, hgrown.orderBy_after hrows htable hrow hle]
    rw [List.map_cons]
    cases hnext : (page key rows limit (some k)).next with
    | none => rw [pages_of_none (hpage ▸ hnext), pages_of_none hnext, hpage]
    | some k' =>
      obtain ⟨front, last, rest, -, rfl, horder⟩ := rows_page_of_some hnext
      have hlast : last ∈ after key (some k) rows := mem_after_of_orderBy_eq horder
      rw [pages_of_some (hpage ▸ hnext), pages_of_some hnext, hpage,
        ih (fun r hr => h r (List.mem_cons_of_mem _ hr)) ⟨last, (mem_after.mp hlast).1, le_refl _⟩]

/-- Neither do all pages, if the first one is read before. -/
theorem pages_cons_eq_of_isGrown (hrows : HasKey key rows)
    (h : ∀ r ∈ requests, IsGrown key rows r.1 ∧ HasKey key r.1) (limit : ℕ) :
    pages key none ((rows, limit) :: requests) =
      pages key none ((rows, limit) :: requests.map fun r => (rows, r.2)) := by
  cases hnext : (page key rows limit none).next with
  | none => rw [pages_of_none hnext, pages_of_none hnext]
  | some k =>
    obtain ⟨front, last, rest, -, rfl, horder⟩ := rows_page_of_some hnext
    have hlast : last ∈ after key none rows := mem_after_of_orderBy_eq horder
    rw [pages_of_some hnext, pages_of_some hnext,
      pages_eq_of_isGrown hrows h ⟨last, (mem_after.mp hlast).1, le_refl _⟩]

/-! ### Listings -/

section Listings

variable {S C ε : Type}

/-- The pages of a listing whose requests are made one after the other, each in a state of its own.
-/
def follow (fetch : S → ℕ → Option C → Except ε (Page α C)) (cursor : Option C) :
    List (S × ℕ) → Except ε (List (List α) × Bool)
  | [] => .ok ([], false)
  | (s, limit) :: requests => do
    let page ← fetch s limit cursor
    match page.next with
    | none => .ok ([page.rows], true)
    | some next =>
      let rest ← follow fetch (some next) requests
      .ok (page.rows :: rest.1, rest.2)

variable {fetch : S → ℕ → Option C → Except ε (Page α C)} {table : S → List α}

/-- **A listing is read as its tables are**, if each of its requests gives a page of the table of
its state, and takes and gives cursors in writing. -/
theorem follow_eq_pages (write : K → C) {requests : List (S × ℕ)}
    (h : ∀ r ∈ requests, ∀ cursor : Option K, fetch r.1 r.2 (cursor.map write) =
      .ok ⟨(page key (table r.1) r.2 cursor).rows,
        (page key (table r.1) r.2 cursor).next.map write⟩) (cursor : Option K) :
    follow fetch (cursor.map write) requests =
      .ok (pages key cursor (requests.map fun r => (table r.1, r.2))) := by
  induction requests generalizing cursor with
  | nil => rfl
  | cons r requests ih =>
    obtain ⟨s, limit⟩ := r
    have hfetch := h _ List.mem_cons_self cursor
    have hrest := ih fun r hr => h r (List.mem_cons_of_mem _ hr)
    rw [follow, hfetch, List.map_cons]
    cases hnext : (page key (table s) limit cursor).next with
    | none =>
      rw [pages_of_none hnext]
      rfl
    | some k =>
      rw [pages_of_some hnext]
      show (follow fetch ((some k).map write) requests).bind _ = _
      rw [hrest]
      rfl

/-- A row that is in a list at one place. -/
def ExactlyOnce (row : α) (l : List α) : Prop :=
  ∃ before after, l = before ++ row :: after ∧ row ∉ before ∧ row ∉ after

theorem exactlyOnce_of_nodup {l : List α} (hl : l.Nodup) (h : row ∈ l) : ExactlyOnce row l := by
  obtain ⟨before, after, rfl⟩ := List.append_of_mem h
  have hnodup := List.nodup_append'.mp hl
  refine ⟨before, after, rfl, fun hb => hnodup.2.2 hb List.mem_cons_self, ?_⟩
  exact (List.nodup_cons.mp hnodup.2.1).1

/-- What a client may expect who follows the cursors of a listing. -/
structure IsComplete (fetch : S → ℕ → Option C → Except ε (Page α C)) (key : α → K)
    (table : S → List α) (maxLimit : ℕ) : Prop where
  /-- When the table stays as it is, or grows only ahead of its rows, the pages come to an end, and
  are the table in the order of the listing. -/
  ends : ∀ (states : ℕ → S) (limits : ℕ → ℕ), (∀ i, 1 ≤ limits i ∧ limits i ≤ maxLimit) →
    (∀ i, IsGrown key (table (states 0)) (table (states i))) →
    ∃ n pages, follow fetch none ((List.range n).map fun i => (states i, limits i)) =
      .ok (pages, true) ∧ pages.flatten = orderBy key (table (states 0))
  /-- When the state changes between the pages, nothing is repeated and the order is kept, what is
  returned was there, and the rows that are there throughout are returned exactly once. -/
  changing : ∀ requests : List (S × ℕ), (∀ r ∈ requests, 1 ≤ r.2 ∧ r.2 ≤ maxLimit) →
    ∃ pages isLast, follow fetch none requests = .ok (pages, isLast) ∧
      pages.flatten.Pairwise (fun row row' => key row < key row') ∧
      (∀ row ∈ pages.flatten, ∃ r ∈ requests.take pages.length, row ∈ table r.1) ∧
      (isLast = true → ∀ row, (∀ r ∈ requests.take pages.length, row ∈ table r.1) →
        ExactlyOnce row pages.flatten)

/-- **A listing is complete** if its requests give pages of tables that have a key. -/
theorem isComplete_of_page (write : K → C) {maxLimit : ℕ} (hkey : ∀ s, HasKey key (table s))
    (h : ∀ s limit, 1 ≤ limit ∧ limit ≤ maxLimit → ∀ cursor : Option K,
      fetch s limit (cursor.map write) = .ok ⟨(page key (table s) limit cursor).rows,
        (page key (table s) limit cursor).next.map write⟩) :
    IsComplete fetch key table maxLimit where
  ends states limits hlimits hgrown := by
    let n := (table (states 0)).length
    have hpage : ∀ r ∈ (List.range (n + 1)).map fun i => (states i, limits i),
        ∀ cursor : Option K, fetch r.1 r.2 (cursor.map write) =
          .ok ⟨(page key (table r.1) r.2 cursor).rows,
            (page key (table r.1) r.2 cursor).next.map write⟩ := by
      intro r hr
      obtain ⟨i, -, rfl⟩ := List.mem_map.mp hr
      exact h (states i) (limits i) (hlimits i)
    have hfollow := follow_eq_pages write hpage none
    have hsame : pages key none (((List.range (n + 1)).map fun i => (states i, limits i)).map
        fun r => (table r.1, r.2)) =
        pages key none (((List.range (n + 1)).map limits).map (table (states 0), ·)) := by
      rw [List.range_succ_eq_map, List.map_cons, List.map_cons, List.map_cons, List.map_cons,
        pages_cons_eq_of_isGrown (hkey (states 0)) fun r hr => ?_]
      · simp only [List.map_map]
        rfl
      · simp only [List.map_map, List.mem_map] at hr
        obtain ⟨i, -, rfl⟩ := hr
        exact ⟨hgrown (i + 1), hkey (states (i + 1))⟩
    have hlimits' : ∀ limit ∈ (List.range (n + 1)).map limits, 0 < limit := by
      intro limit hl
      obtain ⟨i, -, rfl⟩ := List.mem_map.mp hl
      exact (hlimits i).1
    have hlast : (pages key none (((List.range (n + 1)).map limits).map (table (states 0), ·))).2 =
        true :=
      isLast_pages (by simp [n])
    refine ⟨n + 1, _, ?_, flatten_pages (hkey (states 0)) hlimits' hlast⟩
    rw [hsame] at hfollow
    exact hfollow.trans (congrArg Except.ok (Prod.ext rfl hlast))
  changing requests hlimits := by
    have hfollow := follow_eq_pages write (fun r hr => h r.1 r.2 (hlimits r hr)) none
    have hreq : ∀ r ∈ requests.map fun r => (table r.1, r.2), HasKey key r.1 ∧ 0 < r.2 := by
      intro r hr
      obtain ⟨r, hr', rfl⟩ := List.mem_map.mp hr
      exact ⟨hkey r.1, (hlimits r hr').1⟩
    have hpairwise := (pairwise_pages fun r hr => (hreq r hr).1 :
      (pages key none (requests.map fun r => (table r.1, r.2))).1.flatten.Pairwise _)
    refine ⟨_, _, hfollow, hpairwise, fun row hrow => ?_, fun hlast row hrow => ?_⟩
    · obtain ⟨⟨r, hr, hmem⟩, -⟩ := mem_of_mem_pages hrow
      rw [made, ← List.map_take] at hr
      obtain ⟨r, hr', rfl⟩ := List.mem_map.mp hr
      exact ⟨r, hr', hmem⟩
    · refine exactlyOnce_of_nodup (hpairwise.imp fun hlt => ne_of_apply_ne key hlt.ne) ?_
      refine mem_pages hreq hlast (fun c hc => (Option.not_mem_none c hc).elim) fun r hr => ?_
      rw [made, ← List.map_take] at hr
      obtain ⟨r, hr', rfl⟩ := List.mem_map.mp hr
      exact hrow r hr'

end Listings

end Keyset
