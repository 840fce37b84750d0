import NextBallUp.Lib.Numerals
import Mathlib.Tactic.Ring

/-!
# Which texts are read as long integers

What `int` reads, character by character, and how the digits of a numeral tell whether the integer
has more than 64 bits: by their number behind the zeros, and by comparison with the digits of the
bound.

## Main definitions

* `DigitTable.IsNumeral`: a text is a numeral with white space around it
* `IsLong`: the digits are those of an integer of more than 64 bits

## Main results

* `DigitTable.readInt_eq_some_iff`: **what is read, and as which integer**
* `isLong_iff`: **which digits are those of a long integer**
-/

/-! ### Digits -/

/-- The digits of a numeral. -/
def IsDecimal (digits : List ℕ) : Prop := ∀ c ∈ digits, 48 ≤ c ∧ c ≤ 57

theorem foldl_decimal (n : ℕ) (digits : List ℕ) :
    digits.foldl (fun n c => 10 * n + (c - 48)) n = n * 10 ^ digits.length + ofDecimal digits := by
  induction digits generalizing n with
  | nil =>
    rw [List.foldl_nil, List.length_nil, Nat.pow_zero, Nat.mul_one]
    rfl
  | cons c rest ih =>
    rw [ofDecimal, List.foldl_cons, List.foldl_cons, ih, ih (10 * 0 + (c - 48)), List.length_cons,
      Nat.pow_succ]
    ring

theorem ofDecimal_cons (c : ℕ) (digits : List ℕ) :
    ofDecimal (c :: digits) = (c - 48) * 10 ^ digits.length + ofDecimal digits := by
  rw [ofDecimal, List.foldl_cons, foldl_decimal, Nat.mul_zero, Nat.zero_add]

theorem ofDecimal_lt {digits : List ℕ} (h : IsDecimal digits) :
    ofDecimal digits < 10 ^ digits.length := by
  induction digits with
  | nil => exact Nat.one_pos
  | cons c rest ih =>
    obtain ⟨⟨hlow, hhigh⟩, hrest⟩ := List.forall_mem_cons.mp h
    have hlt := ih hrest
    rw [ofDecimal_cons, List.length_cons, Nat.pow_succ]
    have hmul : (c - 48) * 10 ^ rest.length ≤ 9 * 10 ^ rest.length :=
      Nat.mul_le_mul_right _ (by omega)
    omega

/-- Numerals of one length are in the order of their digits. -/
theorem ofDecimal_lt_ofDecimal_iff {a b : List ℕ} (ha : IsDecimal a) (hb : IsDecimal b)
    (hlength : a.length = b.length) : ofDecimal a < ofDecimal b ↔ a < b := by
  induction a generalizing b with
  | nil =>
    rw [List.length_eq_zero_iff.mp hlength.symm]
    exact iff_of_false (Nat.lt_irrefl _) (List.not_lt_nil _)
  | cons c a ih =>
    cases b with
    | nil => cases hlength
    | cons d b =>
      obtain ⟨hc, ha⟩ := List.forall_mem_cons.mp ha
      obtain ⟨hd, hb⟩ := List.forall_mem_cons.mp hb
      have hlength' : a.length = b.length := Nat.succ.inj hlength
      have hlta := ofDecimal_lt ha
      have hltb := ofDecimal_lt hb
      rw [List.cons_lt_cons_iff, ← ih ha hb hlength', ofDecimal_cons, ofDecimal_cons]
      rw [hlength'] at hlta ⊢
      generalize 10 ^ b.length = p at hlta hltb ⊢
      rcases Nat.lt_trichotomy c d with hlt | rfl | hgt
      · refine iff_of_true ?_ (.inl hlt)
        have hmul : (c - 48 + 1) * p ≤ (d - 48) * p := Nat.mul_le_mul_right _ (by omega)
        rw [Nat.add_mul] at hmul
        omega
      · constructor
        · intro h
          exact .inr ⟨rfl, by omega⟩
        · rintro (h | ⟨-, h⟩)
          · omega
          · omega
      · refine iff_of_false ?_ (by omega)
        have hmul : (d - 48 + 1) * p ≤ (c - 48) * p := Nat.mul_le_mul_right _ (by omega)
        rw [Nat.add_mul] at hmul
        omega

/-- The digits behind the zeros. -/
def significant (digits : List ℕ) : List ℕ := digits.dropWhile (· = 48)

theorem ofDecimal_significant (digits : List ℕ) :
    ofDecimal (significant digits) = ofDecimal digits := by
  induction digits with
  | nil => rfl
  | cons c rest ih =>
    rw [significant, List.dropWhile_cons]
    split_ifs with hzero
    · rw [ofDecimal_cons, of_decide_eq_true hzero, Nat.sub_self, Nat.zero_mul, Nat.zero_add]
      exact ih
    · rfl

theorem IsDecimal.significant {digits : List ℕ} (h : IsDecimal digits) :
    IsDecimal (significant digits) := fun c hc => h c ((List.dropWhile_suffix _).subset hc)

theorem pow_le_ofDecimal_significant {digits : List ℕ} (h : IsDecimal digits)
    (hne : significant digits ≠ []) :
    10 ^ ((significant digits).length - 1) ≤ ofDecimal (significant digits) := by
  have hdecimal := h.significant
  have hhead : ∀ c ∈ (significant digits).head?, c ≠ 48 := by
    intro c hc hzero
    have hnot := List.head?_dropWhile_not (· = 48) digits
    rw [show (digits.dropWhile (· = 48)).head? = some c from hc, hzero] at hnot
    cases hnot
  cases hs : significant digits with
  | nil => exact (hne hs).elim
  | cons c rest =>
    rw [hs] at hhead hdecimal
    have hc := hhead c rfl
    have hlow := (hdecimal c List.mem_cons_self).1
    rw [ofDecimal_cons, List.length_cons, Nat.add_sub_cancel]
    have hmul : 1 * 10 ^ rest.length ≤ (c - 48) * 10 ^ rest.length :=
      Nat.mul_le_mul_right _ (by omega)
    omega

/-- The digits of `2 ^ 63`, or of the number before it. -/
def boundDigits (negative : Bool) : List ℕ :=
  decimal (if negative then 9223372036854775808 else 9223372036854775807)

/-- The digits behind the zeros are more than nineteen, or they are nineteen and come after those of
the bound. -/
def IsLong (negative : Bool) (digits : List ℕ) : Prop :=
  19 < (significant digits).length ∨
    (significant digits).length = 19 ∧ boundDigits negative < significant digits

instance (negative : Bool) (digits : List ℕ) : Decidable (IsLong negative digits) :=
  inferInstanceAs (Decidable (_ ∨ _))

theorem isDecimal_decimal (n : ℕ) : IsDecimal (decimal n) := fun _ => digit_of_mem_decimal

theorem length_boundDigits (negative : Bool) : (boundDigits negative).length = 19 := by
  cases negative
  · decide +kernel
  · decide +kernel

/-- **Which digits are those of a long integer.** -/
theorem isLong_iff {digits : List ℕ} (h : IsDecimal digits) (negative : Bool) :
    IsLong negative digits ↔
      (if negative then 9223372036854775808 else 9223372036854775807) < ofDecimal digits := by
  rw [← ofDecimal_significant]
  have hlt := ofDecimal_lt h.significant
  rcases Nat.lt_trichotomy (significant digits).length 19 with hshort | heq | hlong
  · have hpow : 10 ^ (significant digits).length ≤ 10 ^ 18 :=
      Nat.pow_le_pow_right (by decide) (by omega)
    refine iff_of_false ?_ ?_
    · rintro (hlong | ⟨heq, -⟩)
      · omega
      · omega
    · split_ifs
      · omega
      · omega
  · have hbound : (if negative then 9223372036854775808 else 9223372036854775807) =
        ofDecimal (boundDigits negative) := (ofDecimal_decimal _).symm
    rw [hbound, ofDecimal_lt_ofDecimal_iff (a := boundDigits negative) (isDecimal_decimal _)
      h.significant ((length_boundDigits negative).trans heq.symm), IsLong, heq]
    simp
  · have hne : significant digits ≠ [] := by
      intro hnil
      rw [hnil] at hlong
      cases hlong
    have hle := pow_le_ofDecimal_significant h hne
    have hpow : 10 ^ 19 ≤ 10 ^ ((significant digits).length - 1) :=
      Nat.pow_le_pow_right (by decide) (by omega)
    refine iff_of_true (.inl hlong) ?_
    split_ifs
    · omega
    · omega

/-! ### Groups of digits -/

/-- Groups of digits, none of which is empty. -/
structure IsGroups (groups : List (List ℕ)) : Prop where
  ne_nil : groups ≠ []
  nonempty : ∀ group ∈ groups, group ≠ []
  isDecimal : ∀ group ∈ groups, IsDecimal group

theorem IsDecimal.not_mem {digits : List ℕ} (h : IsDecimal digits) : 95 ∉ digits := by
  intro hmem
  have hdigit := h 95 hmem
  omega

theorem IsGroups.isDecimal_flatten {groups : List (List ℕ)} (h : IsGroups groups) :
    IsDecimal groups.flatten := by
  intro c hc
  obtain ⟨group, hgroup, hc⟩ := List.mem_flatten.mp hc
  exact h.isDecimal group hgroup c hc

/-- The underscores are all that stands between the groups. -/
theorem filter_intercalate {groups : List (List ℕ)} (h : ∀ group ∈ groups, IsDecimal group) :
    ([95].intercalate groups).filter (· ≠ 95) = groups.flatten := by
  have hself {group : List ℕ} (hg : IsDecimal group) : group.filter (· ≠ 95) = group :=
    List.filter_eq_self.mpr fun c hc => decide_eq_true fun he => hg.not_mem (he ▸ hc)
  induction groups with
  | nil => rfl
  | cons group rest ih =>
    obtain ⟨hgroup, hrest⟩ := List.forall_mem_cons.mp h
    cases rest with
    | nil =>
      rw [List.intercalate_singleton, hself hgroup, List.flatten_singleton]
    | cons group' rest =>
      rw [List.intercalate_cons_cons, List.filter_append, List.filter_append, hself hgroup,
        ih hrest, show [95].filter (· ≠ 95) = [] from rfl, List.append_nil]
      rfl

theorem IsGroups.cases_of_mem {groups : List (List ℕ)} (h : IsGroups groups) {c : ℕ}
    (hc : c ∈ [95].intercalate groups) : c = 95 ∨ 48 ≤ c ∧ c ≤ 57 := by
  by_cases hunderscore : c = 95
  · exact .inl hunderscore
  · have hmem : c ∈ ([95].intercalate groups).filter (· ≠ 95) :=
      List.mem_filter.mpr ⟨hc, decide_eq_true hunderscore⟩
    rw [filter_intercalate h.isDecimal] at hmem
    exact .inr (h.isDecimal_flatten c hmem)

namespace DigitTable

theorem isDigits_iff {part : List ℕ} : isDigits part = true ↔ part ≠ [] ∧ IsDecimal part := by
  simp only [isDigits, isDigit, IsDecimal, Bool.and_eq_true, decide_eq_true_eq, List.all_eq_true]

/-- Which sequences of digits are read. -/
theorem readDigits_eq_some_iff {body : List ℕ} {n : ℕ} : readDigits body = some n ↔
    ∃ groups, IsGroups groups ∧ body = [95].intercalate groups ∧ groups.flatten.length ≤ 4300 ∧
      ofDecimal groups.flatten = n := by
  constructor
  · intro h
    rw [readDigits] at h
    split_ifs at h with hbody
    obtain ⟨hgroups, hlength⟩ := hbody
    rw [List.all_eq_true] at hgroups
    have hsplit : [95].intercalate (body.splitOn 95) = body := List.intercalate_splitOn 95
    have his : IsGroups (body.splitOn 95) := ⟨List.splitOn_ne_nil 95 body,
      fun group hg => (isDigits_iff.mp (hgroups group hg)).1,
      fun group hg => (isDigits_iff.mp (hgroups group hg)).2⟩
    have hfilter := filter_intercalate his.isDecimal
    rw [hsplit] at hfilter
    rw [hfilter] at hlength h
    exact ⟨_, his, hsplit.symm, hlength, Option.some.inj h⟩
  · rintro ⟨groups, his, rfl, hlength, rfl⟩
    have hsplit := List.splitOn_intercalate 95 (fun g hg => (his.isDecimal g hg).not_mem) his.ne_nil
    rw [readDigits, hsplit, filter_intercalate his.isDecimal, if_pos]
    refine ⟨List.all_eq_true.mpr fun group hg => isDigits_iff.mpr ?_, hlength⟩
    exact ⟨his.nonempty group hg, his.isDecimal group hg⟩

variable {T : DigitTable} {text : List ℕ}

/-- Groups of at most 4300 digits with underscores between them, a sign before them, unless it is
left out, and white space around. Spaces and digits of any script count as those of ASCII. -/
structure IsNumeral (T : DigitTable) (text : List ℕ) (negative : Bool) (digits : List ℕ) :
    Prop where
  length_le : digits.length ≤ 4300
  spelled : ∃ lead sign groups trail,
    text.map T.toAscii = lead ++ (sign ++ [95].intercalate groups) ++ trail ∧
      (∀ c ∈ lead, isAsciiSpace c = true) ∧ (∀ c ∈ trail, isAsciiSpace c = true) ∧
      (if negative then sign = [45] else sign = [] ∨ sign = [43]) ∧ IsGroups groups ∧
      digits = groups.flatten

/-- What a numeral denotes. -/
def signed (negative : Bool) (n : ℕ) : ℤ := if negative then -(n : ℤ) else n

theorem IsNumeral.isDecimal {negative : Bool} {digits : List ℕ}
    (h : T.IsNumeral text negative digits) : IsDecimal digits := by
  obtain ⟨-, lead, sign, groups, trail, -, -, -, -, hgroups, rfl⟩ := h
  exact hgroups.isDecimal_flatten

/-- What is left of a numeral without the white space. -/
theorem readInt_of_strip {sign : List ℕ} {groups : List (List ℕ)} {negative : Bool}
    (hstrip : strip isAsciiSpace (text.map T.toAscii) = sign ++ [95].intercalate groups)
    (hsign : if negative then sign = [45] else sign = [] ∨ sign = [43]) (hgroups : IsGroups groups)
    (hlength : groups.flatten.length ≤ 4300) :
    T.readInt text = some (signed negative (ofDecimal groups.flatten)) := by
  have hread := readDigits_eq_some_iff.mpr ⟨groups, hgroups, rfl, hlength, rfl⟩
  rw [strip] at hstrip
  rw [readInt, hstrip]
  cases negative with
  | true =>
    obtain rfl : sign = [45] := hsign
    show (readDigits ([95].intercalate groups)).map _ = _
    rw [hread]
    rfl
  | false =>
    rcases (hsign : sign = [] ∨ sign = [43]) with rfl | rfl
    · rw [List.nil_append]
      split
      next body heq =>
        have hc := hgroups.cases_of_mem (heq ▸ List.mem_cons_self : 45 ∈ _)
        omega
      next body heq =>
        have hc := hgroups.cases_of_mem (heq ▸ List.mem_cons_self : 43 ∈ _)
        omega
      next =>
        rw [hread]
        rfl
    · show (readDigits ([95].intercalate groups)).map _ = _
      rw [hread]
      rfl

theorem isNumeral_of_strip (negative : Bool) (sign : List ℕ) {body : List ℕ} {n : ℕ}
    (hstrip : strip isAsciiSpace (text.map T.toAscii) = sign ++ body)
    (hsign : if negative then sign = [45] else sign = [] ∨ sign = [43])
    (hread : readDigits body = some n) :
    ∃ digits, T.IsNumeral text negative digits ∧ ofDecimal digits = n := by
  obtain ⟨groups, hgroups, rfl, hlength, rfl⟩ := readDigits_eq_some_iff.mp hread
  obtain ⟨lead, trail, htext, hlead, htrail, -, -⟩ := exists_strip isAsciiSpace (text.map T.toAscii)
  rw [hstrip] at htext
  exact ⟨_, ⟨hlength, lead, sign, groups, trail, htext, hlead, htrail, hsign, hgroups, rfl⟩, rfl⟩

/-- **What is read, and as which integer.** -/
theorem readInt_eq_some_iff {n : ℤ} : T.readInt text = some n ↔
    ∃ negative digits, T.IsNumeral text negative digits ∧
      signed negative (ofDecimal digits) = n := by
  constructor
  · intro h
    rw [readInt] at h
    split at h
    next body hstrip =>
      obtain ⟨m, hread, rfl⟩ := Option.map_eq_some_iff.mp h
      obtain ⟨digits, hnumeral, rfl⟩ := isNumeral_of_strip true [45] hstrip rfl hread
      exact ⟨true, digits, hnumeral, rfl⟩
    next body hstrip =>
      obtain ⟨m, hread, rfl⟩ := Option.map_eq_some_iff.mp h
      obtain ⟨digits, hnumeral, rfl⟩ :=
        isNumeral_of_strip false [43] hstrip (.inr rfl) hread
      exact ⟨false, digits, hnumeral, rfl⟩
    next =>
      obtain ⟨m, hread, rfl⟩ := Option.map_eq_some_iff.mp h
      obtain ⟨digits, hnumeral, rfl⟩ :=
        isNumeral_of_strip false [] rfl (.inl rfl) hread
      exact ⟨false, digits, hnumeral, rfl⟩
  · rintro ⟨negative, digits, ⟨hlength, lead, sign, groups, trail, htext, hlead, htrail, hsign,
      hgroups, rfl⟩, rfl⟩
    refine readInt_of_strip ?_ hsign hgroups hlength
    have hplain : ∀ c ∈ sign ++ [95].intercalate groups, ¬ isAsciiSpace c = true := by
      intro c hc
      refine not_isAsciiSpace_of_lt ?_
      rcases List.mem_append.mp hc with hc | hc
      · cases negative with
        | true =>
          obtain rfl : sign = [45] := hsign
          rw [List.mem_singleton.mp hc]
          decide
        | false =>
          rcases (hsign : sign = [] ∨ sign = [43]) with rfl | rfl
          · cases hc
          · rw [List.mem_singleton.mp hc]
            decide
      · have hcases := hgroups.cases_of_mem hc
        omega
    rw [htext]
    exact strip_append_append hlead htrail (fun c hc => hplain c (List.mem_of_mem_head? hc))
      fun c hc => hplain c (List.mem_of_mem_getLast? hc)

end DigitTable
