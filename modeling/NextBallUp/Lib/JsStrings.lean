import Mathlib.Data.List.DropRight
import NextBallUp.Lib.JsonBytes

/-!
# Strings of JavaScript

`trim` and `decodeURIComponent`, over UTF-16 code units.

## Main definitions

* `trim`, `decodeURIComponent`

## Main results

* `decodeURIComponent_of_not_mem`: a text without percent signs stands for itself
-/

namespace Js

/-! ### White space -/

/-- White space and line ends. -/
def isSpace (c : ℕ) : Bool :=
  (9 ≤ c && c ≤ 13) || c = 0x20 || c = 0xA0 || c = 0x1680 || (0x2000 ≤ c && c ≤ 0x200A) ||
    c = 0x2028 || c = 0x2029 || c = 0x202F || c = 0x205F || c = 0x3000 || c = 0xFEFF

/-- `s.trim()` -/
def trim (s : List ℕ) : List ℕ := (s.dropWhile isSpace).rdropWhile isSpace

/-! ### Percent signs -/

/-- The code units of a character. -/
def units (c : ℕ) : List ℕ :=
  if c < 0x10000 then [c]
  else [0xD800 + (c - 0x10000) / 0x400, 0xDC00 + (c - 0x10000) % 0x400]

/-- Bytes that were escaped one after the other; `none` is a `URIError`. -/
def decodeBytes (b : List ℕ) : Option (List ℕ) :=
  match JsonText.decodeUtf8 b with
  | none => none
  | some text => if ∀ c ∈ text, c < 0xD800 ∨ 0xE000 ≤ c then some (text.flatMap units) else none

/-- `decodeURIComponent`, after some bytes that were escaped; `none` is a `URIError`. -/
def decodeFrom (b : List ℕ) : List ℕ → Option (List ℕ)
  | [] => decodeBytes b
  | c :: rest =>
    if c = 37 then
      match rest with
      | x :: y :: rest =>
        match JsonText.hexDigit x, JsonText.hexDigit y with
        | some x, some y => decodeFrom (b ++ [16 * x + y]) rest
        | _, _ => none
      | _ => none
    else do
      let before ← decodeBytes b
      let after ← decodeFrom [] rest
      return before ++ c :: after

/-- `decodeURIComponent(s)` -/
def decodeURIComponent (s : List ℕ) : Option (List ℕ) := decodeFrom [] s

theorem decodeURIComponent_of_not_mem {s : List ℕ} (h : 37 ∉ s) :
    decodeURIComponent s = some s := by
  induction s with
  | nil => rfl
  | cons c rest ih =>
    have hc : c ≠ 37 := fun hc => h (hc ▸ List.mem_cons_self)
    have hrest := ih fun hmem => h (List.mem_cons_of_mem _ hmem)
    rw [decodeURIComponent] at hrest ⊢
    rw [decodeFrom.eq_def]
    dsimp only
    rw [if_neg hc, hrest]
    rfl

end Js
