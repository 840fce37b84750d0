import NextBallUp.Lib.Regex

/-!
# Substitution

Python's `pattern.sub(replacement, text)`: the matches that a scan finds one after the other are
replaced, and what stands between them is kept.

## Main definitions

* `Pass`: what a substitution takes at a place, and what it writes there
* `Pass.sub`: the text that it makes
* `Pass.Stops`: no match that begins in a text goes on in what follows

## Main results

* `Pass.induction`: the scan goes character by character or match by match
* `Pass.sub_append`: **a scan that stops at the end of a text** goes on as a scan of what follows
* `Pass.stops_of_head`, `Pass.stops_concat`: a scan stops at a character that no match takes

## What is deliberately absent

Matches of the empty text. An expression that a pass is made of takes a character at least.
-/

/-- A pass of a substitution over a text: what it takes at a place, and what it writes there. -/
structure Pass (χ : Type) where
  find : Option χ → List χ → Option (Match χ)
  write : Match χ → List χ
  taken_append_rest : ∀ {prev text m}, find prev text = some m → m.taken ++ m.rest = text
  taken_ne_nil : ∀ {prev text m}, find prev text = some m → m.taken ≠ []

/-- The pass of `pattern.sub(write, text)`. -/
def Regex.pass {χ : Type} [HasCode χ] (isWord : ℕ → Bool) (r : Regex) (hr : r.takes = true)
    (write : Match χ → List χ) : Pass χ where
  find := r.first isWord
  write := write
  taken_append_rest h := (Regex.matches_of_first h).1
  taken_ne_nil h := Regex.taken_ne_nil hr (Regex.matches_of_first h).2

namespace Pass

open Regex (getLast?_cons_or)

variable {χ : Type} (P : Pass χ)

/-- What becomes of a text that another one follows. So many characters of it are still left of a
match. -/
def subBefore (next : List χ) : ℕ → Option χ → List χ → List χ
  | _, _, [] => []
  | left + 1, _, c :: text => subBefore next left (some c) text
  | 0, prev, c :: text =>
    match P.find prev (c :: text ++ next) with
    | none => c :: subBefore next 0 (some c) text
    | some m => P.write m ++ subBefore next (m.taken.length - 1) (some c) text

/-- `pattern.sub(write, text)`. A character may come before the text. -/
def sub (prev : Option χ) (text : List χ) : List χ := P.subBefore [] 0 prev text

/-- How many characters of what follows a text belong to a match that begins in the text. -/
def pending (next : List χ) : ℕ → Option χ → List χ → ℕ
  | left, _, [] => left
  | left + 1, _, c :: text => pending next left (some c) text
  | 0, prev, c :: text =>
    match P.find prev (c :: text ++ next) with
    | none => pending next 0 (some c) text
    | some m => pending next (m.taken.length - 1) (some c) text

/-- No match that begins in a text goes on in what follows. -/
def Stops (prev : Option χ) (text next : List χ) : Prop := P.pending next 0 prev text = 0

instance (prev : Option χ) (text next : List χ) : Decidable (P.Stops prev text next) :=
  inferInstanceAs (Decidable (_ = _))

variable {P} {prev : Option χ} {text next : List χ} {m : Match χ} {c : χ}

theorem exists_cons_of_find (h : P.find prev text = some m) : ∃ c t, m.taken = c :: t :=
  List.exists_cons_of_ne_nil (P.taken_ne_nil h)

theorem subBefore_of_none (h : P.find prev (c :: text ++ next) = none) :
    P.subBefore next 0 prev (c :: text) = c :: P.subBefore next 0 (some c) text := by
  rw [subBefore, h]

theorem subBefore_of_some (h : P.find prev (c :: text ++ next) = some m) :
    P.subBefore next 0 prev (c :: text) =
      P.write m ++ P.subBefore next (m.taken.length - 1) (some c) text := by
  rw [subBefore, h]

theorem pending_of_none (h : P.find prev (c :: text ++ next) = none) :
    P.pending next 0 prev (c :: text) = P.pending next 0 (some c) text := by
  rw [pending, h]

theorem pending_of_some (h : P.find prev (c :: text ++ next) = some m) :
    P.pending next 0 prev (c :: text) = P.pending next (m.taken.length - 1) (some c) text := by
  rw [pending, h]

theorem subBefore_append (left : ℕ) (prev : Option χ) (x y next : List χ) :
    P.subBefore next left prev (x ++ y) = P.subBefore (y ++ next) left prev x ++
      P.subBefore next (P.pending (y ++ next) left prev x) (x.getLast?.or prev) y := by
  induction x generalizing left prev with
  | nil => rfl
  | cons c x ih =>
    cases left with
    | succ left =>
      rw [getLast?_cons_or]
      exact ih left (some c)
    | zero =>
      rw [getLast?_cons_or, List.cons_append, subBefore, subBefore, pending, List.cons_append,
        List.append_assoc, List.cons_append]
      cases P.find prev (c :: (x ++ (y ++ next))) with
      | none => exact congrArg (c :: ·) (ih 0 (some c))
      | some m =>
        exact (congrArg (P.write m ++ ·) (ih (m.taken.length - 1) (some c))).trans
          (List.append_assoc _ _ _).symm

theorem pending_append (left : ℕ) (prev : Option χ) (x y next : List χ) :
    P.pending next left prev (x ++ y) =
      P.pending next (P.pending (y ++ next) left prev x) (x.getLast?.or prev) y := by
  induction x generalizing left prev with
  | nil => rfl
  | cons c x ih =>
    cases left with
    | succ left =>
      rw [getLast?_cons_or]
      exact ih left (some c)
    | zero =>
      rw [getLast?_cons_or, List.cons_append, pending, pending, List.cons_append, List.append_assoc,
        List.cons_append]
      cases P.find prev (c :: (x ++ (y ++ next))) with
      | none => exact ih 0 (some c)
      | some m => exact ih (m.taken.length - 1) (some c)

/-- What a match takes is passed over. -/
theorem subBefore_left (x : List χ) (prev : Option χ) (next : List χ) :
    P.subBefore next x.length prev x = [] := by
  induction x generalizing prev with
  | nil => rfl
  | cons c x ih => exact ih (some c)

theorem pending_left (x : List χ) (prev : Option χ) (next : List χ) (n : ℕ) :
    P.pending next (x.length + n) prev x = n := by
  induction x generalizing prev with
  | nil => exact Nat.zero_add n
  | cons c x ih =>
    rw [List.length_cons, Nat.add_right_comm]
    exact ih (some c)

theorem sub_nil (prev : Option χ) : P.sub prev [] = [] := rfl

theorem sub_cons (h : P.find prev (c :: text) = none) :
    P.sub prev (c :: text) = c :: P.sub (some c) text := by
  rw [sub, subBefore, List.append_nil, h]
  rfl

theorem sub_of_find (h : P.find prev text = some m) :
    P.sub prev text = P.write m ++ P.sub m.taken.getLast? m.rest := by
  obtain ⟨c, t, hc⟩ := exists_cons_of_find h
  have htext := P.taken_append_rest h
  rw [hc] at htext
  subst htext
  have hlast := (Regex.getLast?_cons_eq_or c t).symm
  have hlen : m.taken.length - 1 = t.length := by
    rw [hc, List.length_cons, Nat.add_sub_cancel]
  have hpend : P.pending (m.rest ++ []) t.length (some c) t = 0 := pending_left t _ _ 0
  have happend := P.subBefore_append t.length (some c) t m.rest []
  rw [subBefore_left, hpend, hlast] at happend
  rw [sub, List.cons_append, subBefore, List.append_nil, ← List.cons_append, h]
  exact show P.write m ++ P.subBefore [] (m.taken.length - 1) (some c) (t ++ m.rest) = _ by
    rw [hlen, happend, hc]
    rfl

/-- **The scan of a substitution** passes over characters at which nothing matches, and matches. -/
theorem induction {motive : Option χ → List χ → Prop} (nil : ∀ prev, motive prev [])
    (char : ∀ prev c text, P.find prev (c :: text) = none → motive (some c) text →
      motive prev (c :: text))
    (found : ∀ prev text m, P.find prev text = some m → motive m.taken.getLast? m.rest →
      motive prev text)
    (prev : Option χ) (text : List χ) : motive prev text := by
  induction hn : text.length using Nat.strongRecOn generalizing prev text with
  | ind n ih =>
    cases text with
    | nil => exact nil prev
    | cons c text =>
      cases h : P.find prev (c :: text) with
      | none => exact char prev c text h (ih text.length (by simp [← hn]) _ _ rfl)
      | some m =>
        have hlt : m.rest.length < n := by
          have hlen := congrArg List.length (P.taken_append_rest h)
          have hpos := List.length_pos_iff.mpr (P.taken_ne_nil h)
          rw [List.length_append, hn] at hlen
          omega
        exact found prev (c :: text) m h (ih m.rest.length hlt _ _ rfl)

theorem mem_of_mem_subBefore {n : ℕ} (hc : c ∈ P.subBefore next n prev text) :
    c ∈ text ∨ ∃ prev text m, P.find prev text = some m ∧ c ∈ P.write m := by
  induction text generalizing n prev with
  | nil => cases hc
  | cons d text ih =>
    cases n with
    | succ n => exact (ih hc).imp_left (List.mem_cons_of_mem d)
    | zero =>
      cases h : P.find prev (d :: text ++ next) with
      | none =>
        rw [subBefore_of_none h] at hc
        rcases List.mem_cons.mp hc with rfl | hc
        · exact .inl List.mem_cons_self
        · exact (ih hc).imp_left (List.mem_cons_of_mem d)
      | some m =>
        rw [subBefore_of_some h] at hc
        rcases List.mem_append.mp hc with hc | hc
        · exact .inr ⟨_, _, m, h, hc⟩
        · exact (ih hc).imp_left (List.mem_cons_of_mem d)

theorem mem_sub (hc : c ∈ P.sub prev text) :
    c ∈ text ∨ ∃ prev text m, P.find prev text = some m ∧ c ∈ P.write m :=
  mem_of_mem_subBefore hc

/-- **A scan that stops at the end of a text** goes on as a scan of what follows. -/
theorem sub_append (h : P.Stops prev text next) :
    P.sub prev (text ++ next) =
      P.subBefore next 0 prev text ++ P.sub (text.getLast?.or prev) next := by
  have happend := P.subBefore_append 0 prev text next []
  rw [List.append_nil, show P.pending next 0 prev text = 0 from h] at happend
  exact happend

/-! ### Where a scan stops -/

variable {A : χ → Prop}

/-- A scan stops before a character that no match takes. -/
theorem stops_of_head (hA : ∀ prev text m, P.find prev text = some m → ∀ c ∈ m.taken, A c)
    (hnext : ∀ c ∈ next.head?, ¬ A c) : P.Stops prev text next := by
  have hstops : ∀ left prev, left ≤ text.length → P.pending next left prev text = 0 := by
    induction text with
    | nil => exact fun left _ hleft => Nat.le_zero.mp hleft
    | cons c text ih =>
      intro left prev hleft
      cases left with
      | succ left => exact ih left _ (Nat.le_of_succ_le_succ hleft)
      | zero =>
        rw [pending]
        cases h : P.find prev (c :: text ++ next) with
        | none => exact ih 0 _ (Nat.zero_le _)
        | some m =>
          refine ih _ _ ?_
          by_contra hlt
          -- a match that goes on takes the first character of what follows
          have hlong : (c :: text).length < m.taken.length := by
            rw [List.length_cons]
            omega
          have htaken : (m.taken ++ m.rest)[(c :: text).length]? = m.taken[(c :: text).length]? :=
            List.getElem?_append_left hlong
          rw [P.taken_append_rest h, List.getElem?_append_right (Nat.le_refl _), Nat.sub_self,
            ← List.head?_eq_getElem?] at htaken
          have hsome := List.getElem?_eq_getElem hlong
          exact hnext _ (htaken.trans hsome) (hA _ _ _ h _ (List.getElem_mem hlong))
  exact hstops 0 prev (Nat.zero_le _)

theorem stops_append {x y : List χ} (hx : P.Stops prev x (y ++ next))
    (hy : P.Stops (x.getLast?.or prev) y next) : P.Stops prev (x ++ y) next := by
  rw [Stops, pending_append, show P.pending (y ++ next) 0 prev x = 0 from hx]
  exact hy

/-- A scan stops behind a character that no match takes. -/
theorem stops_concat (hA : ∀ prev text m, P.find prev text = some m → ∀ c ∈ m.taken, A c)
    (hc : ¬ A c) : P.Stops prev (text ++ [c]) next := by
  refine stops_append (stops_of_head hA (by simpa using hc)) ?_
  rw [Stops, pending]
  cases h : P.find (text.getLast?.or prev) ([c] ++ next) with
  | none => rfl
  | some m =>
    obtain ⟨d, t, ht⟩ := exists_cons_of_find h
    have htext := P.taken_append_rest h
    rw [ht] at htext
    obtain ⟨rfl, -⟩ := List.cons.inj htext
    exact (hc (hA _ _ _ h d (by rw [ht]; exact List.mem_cons_self))).elim

end Pass
