import Mathlib.Data.List.DropRight
import Mathlib.Data.Nat.Notation

/-!
# Texts

Methods of Python's strings, on sequences of code points.

## Main definitions

* `splitFirst`: `text.split(separator, 1)`
* `removeFrom`: `text.replace(pattern, "")`
* `strip`: `text.strip()`, for any set of characters
* `isDigit`, `isSpace`: characters that parsers of ASCII texts look for
* `isWhitespace`: the characters that `text.strip()` strips if it is given none

## Main results

* `splitFirst_append`, `removeFrom_of_not_mem`, `strip_eq`: when they do what their callers expect
-/

variable {text : List ℕ} {separator : ℕ}

/-- `text.split(separator, 1)`, if that gives two parts. -/
def splitFirst (separator : ℕ) (text : List ℕ) : Option (List ℕ × List ℕ) :=
  if separator ∈ text then
    some (text.takeWhile (· ≠ separator), (text.dropWhile (· ≠ separator)).tail)
  else none

theorem splitFirst_append {before : List ℕ} (h : separator ∉ before) (after : List ℕ) :
    splitFirst separator (before ++ separator :: after) = some (before, after) := by
  have hne : ∀ c ∈ before, decide (c ≠ separator) = true := by
    intro c hc
    exact decide_eq_true fun he => h (he ▸ hc)
  rw [splitFirst, if_pos (by simp), List.takeWhile_append_of_pos hne,
    List.takeWhile_cons_of_neg (by simp), List.append_nil, List.dropWhile_append_of_pos hne,
    List.dropWhile_cons_of_neg (by simp), List.tail_cons]

theorem splitFirst_of_not_mem (h : separator ∉ text) : splitFirst separator text = none := if_neg h

theorem splitFirst_eq_some_iff {before after : List ℕ} :
    splitFirst separator text = some (before, after) ↔
      text = before ++ separator :: after ∧ separator ∉ before := by
  constructor
  · intro h
    by_cases hmem : separator ∈ text
    · obtain ⟨before', after', rfl, hnot⟩ := List.eq_append_cons_of_mem hmem
      rw [splitFirst_append hnot] at h
      obtain ⟨rfl, rfl⟩ := Prod.mk.inj (Option.some.inj h)
      exact ⟨rfl, hnot⟩
    · rw [splitFirst_of_not_mem hmem] at h
      cases h
  · rintro ⟨rfl, hnot⟩
    exact splitFirst_append hnot after

/-- `text.replace(pattern, "")`, when so many characters are left of an occurrence. -/
def removeFrom (pattern : List ℕ) : ℕ → List ℕ → List ℕ
  | _, [] => []
  | left + 1, _ :: rest => removeFrom pattern left rest
  | 0, c :: rest =>
    if pattern <+: c :: rest then removeFrom pattern (pattern.length - 1) rest
    else c :: removeFrom pattern 0 rest

theorem removeFrom_of_not_mem {pattern : List ℕ} {c : ℕ} (hc : c ∈ pattern) (h : c ∉ text) :
    removeFrom pattern 0 text = text := by
  induction text with
  | nil => rfl
  | cons d rest ih =>
    rw [removeFrom, if_neg fun hp => h (hp.subset hc), ih fun hr => h (List.mem_cons_of_mem _ hr)]

/-- `text.strip()`, for the characters that are stripped. -/
def strip (p : ℕ → Bool) (text : List ℕ) : List ℕ := (text.dropWhile p).rdropWhile p

/-- Nothing is stripped from a text without such characters. -/
theorem strip_eq {p : ℕ → Bool} (h : ∀ c ∈ text, ¬ p c = true) : strip p text = text := by
  have hdrop : text.dropWhile p = text := by
    cases hd : text with
    | nil => rfl
    | cons c rest => rw [List.dropWhile_cons_of_neg (h c (hd ▸ List.mem_cons_self))]
  rw [strip, hdrop]
  exact List.rdropWhile_eq_self_iff.mpr fun hne => h _ (List.getLast_mem hne)

theorem dropWhile_head {p : ℕ → Bool} (hhead : ∀ c ∈ text.head?, ¬ p c = true) :
    text.dropWhile p = text := by
  cases text with
  | nil => rfl
  | cons c rest => exact List.dropWhile_cons_of_neg (hhead c rfl)

theorem rdropWhile_last {p : ℕ → Bool} (hlast : ∀ c ∈ text.getLast?, ¬ p c = true) :
    text.rdropWhile p = text :=
  List.rdropWhile_eq_self_iff.mpr fun hne => hlast _ (List.getLast?_eq_getLast_of_ne_nil hne)

/-- What is stripped, and what is left. -/
theorem strip_append_append {p : ℕ → Bool} {lead trail : List ℕ} (hlead : ∀ c ∈ lead, p c = true)
    (htrail : ∀ c ∈ trail, p c = true) (hhead : ∀ c ∈ text.head?, ¬ p c = true)
    (hlast : ∀ c ∈ text.getLast?, ¬ p c = true) : strip p (lead ++ text ++ trail) = text := by
  have hdrop : (text ++ trail).rdropWhile p = text := by
    rw [List.rdropWhile, List.reverse_append,
      List.dropWhile_append_of_pos fun c hc => htrail c (List.mem_reverse.mp hc)]
    exact rdropWhile_last hlast
  rw [strip, List.append_assoc, List.dropWhile_append_of_pos hlead]
  cases text with
  | nil =>
    rw [List.nil_append, List.dropWhile_eq_nil_iff.mpr htrail]
    rfl
  | cons c rest =>
    have hcons : (c :: rest ++ trail).dropWhile p = c :: rest ++ trail :=
      dropWhile_head fun d hd => hhead d hd
    rwa [hcons]

theorem exists_strip (p : ℕ → Bool) (text : List ℕ) : ∃ lead trail,
    text = lead ++ strip p text ++ trail ∧ (∀ c ∈ lead, p c = true) ∧ (∀ c ∈ trail, p c = true) ∧
      (∀ c ∈ (strip p text).head?, ¬ p c = true) ∧ ∀ c ∈ (strip p text).getLast?, ¬ p c = true := by
  have hright := List.rdropWhile_append_rtakeWhile (p := p) (l := text.dropWhile p)
  refine ⟨text.takeWhile p, (text.dropWhile p).rtakeWhile p, ?_, fun c => List.mem_takeWhile_imp,
    fun c => List.mem_rtakeWhile_imp, ?_, ?_⟩
  · rw [strip, List.append_assoc, hright, List.takeWhile_append_dropWhile]
  · intro c hc
    obtain ⟨s, hs⟩ := List.head?_eq_some_iff.mp hc
    have hhead : (text.dropWhile p).head? = some c := by
      rw [← hright, show (text.dropWhile p).rdropWhile p = c :: s from hs]
      rfl
    have hnot := List.head?_dropWhile_not p text
    rw [hhead] at hnot
    exact Bool.not_eq_true _ ▸ hnot
  · intro c hc
    have hne : strip p text ≠ [] := by
      rintro hnil
      rw [hnil] at hc
      cases hc
    have hget : (strip p text).getLast hne = c :=
      Option.some.inj ((List.getLast?_eq_getLast_of_ne_nil hne).symm.trans hc)
    exact hget ▸ List.rdropWhile_last_not p _ hne

/-- A decimal digit of ASCII. -/
def isDigit (c : ℕ) : Bool := 48 ≤ c && c ≤ 57

/-- The white space of JSON and of XML. -/
def isSpace (c : ℕ) : Bool := c = 32 || c = 9 || c = 10 || c = 13

/-- `c.isspace()` -/
def isWhitespace (c : ℕ) : Bool :=
  (9 ≤ c && c ≤ 13) || (28 ≤ c && c ≤ 32) || c = 0x85 || c = 0xA0 || c = 0x1680 ||
    (0x2000 ≤ c && c ≤ 0x200A) || c = 0x2028 || c = 0x2029 || c = 0x202F || c = 0x205F || c = 0x3000
