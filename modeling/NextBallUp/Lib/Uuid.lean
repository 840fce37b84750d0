import NextBallUp.Lib.JsonDumps
import NextBallUp.Lib.Texts
import Mathlib.Order.Basic

/-!
# UUIDs

Numbers of 128 bits, as Python's `uuid` writes and reads them.

## Main definitions

* `Uuid`, `Uuid.hex`, `Uuid.str`
* `Uuid.ofText`: what is read

## Main results

* `Uuid.ofText_hex`, `Uuid.ofText_str`: **what was written is read**
-/

/-- A number of 128 bits. -/
structure Uuid where
  value : ℕ
  value_lt : value < 2 ^ 128
  deriving DecidableEq, Repr

namespace Uuid

/-- The smallest one. -/
def zero : Uuid := ⟨0, by decide⟩

theorem value_injective : Function.Injective Uuid.value := by
  rintro ⟨m, hm⟩ ⟨n, hn⟩ rfl
  rfl

/-- The order that the database has on them. -/
instance : LinearOrder Uuid := LinearOrder.lift' value value_injective

/-- `uuid.hex` -/
def hex (u : Uuid) : List ℕ := hexDigits 32 u.value

/-- `str(uuid)` -/
def str (u : Uuid) : List ℕ :=
  u.hex.take 8 ++ 45 :: ((u.hex.drop 8).take 4 ++ 45 :: ((u.hex.drop 12).take 4 ++
    45 :: ((u.hex.drop 16).take 4 ++ 45 :: u.hex.drop 20)))

@[simp] theorem length_hex (u : Uuid) : u.hex.length = 32 := length_hexDigits ..

@[simp] theorem length_str (u : Uuid) : u.str.length = 36 := by
  simp [str]

theorem isPlain_of_mem_hex {u : Uuid} {c : ℕ} (h : c ∈ u.hex) : JsonText.isPlain c = true := by
  obtain ⟨d, hd, rfl⟩ := exists_of_mem_hexDigits h
  have hc := hexChar_cases hd
  simp only [JsonText.isPlain, Bool.and_eq_true, decide_eq_true_eq]
  omega

theorem isPlain_of_mem_str {u : Uuid} {c : ℕ} (h : c ∈ u.str) : JsonText.isPlain c = true := by
  have hdash : JsonText.isPlain 45 = true := rfl
  simp only [str, List.mem_append, List.mem_cons] at h
  rcases h with h | rfl | h | rfl | h | rfl | h | rfl | h
  · exact isPlain_of_mem_hex (List.mem_of_mem_take h)
  · exact hdash
  · exact isPlain_of_mem_hex (List.mem_of_mem_drop (List.mem_of_mem_take h))
  · exact hdash
  · exact isPlain_of_mem_hex (List.mem_of_mem_drop (List.mem_of_mem_take h))
  · exact hdash
  · exact isPlain_of_mem_hex (List.mem_of_mem_drop (List.mem_of_mem_take h))
  · exact hdash
  · exact isPlain_of_mem_hex (List.mem_of_mem_drop h)

/-! ### Reading -/

/-- `urn:` and `uuid:` -/
def withoutUrn (text : List ℕ) : List ℕ :=
  removeFrom [117, 117, 105, 100, 58] 0 (removeFrom [117, 114, 110, 58] 0 text)

def isBrace (c : ℕ) : Bool := c = 123 || c = 125

/-- `uuid.UUID(text)`; `none` is a `ValueError`. -/
def ofText (T : DigitTable) (text : List ℕ) : Option Uuid :=
  let hex := (strip isBrace (withoutUrn text)).filter (· ≠ 45)
  if hex.length = 32 then
    match T.readHex hex with
    | some (.ofNat n) => if h : n < 2 ^ 128 then some ⟨n, h⟩ else none
    | _ => none
  else none

/-- Digits and dashes are all that is written. -/
theorem cases_of_mem_str {u : Uuid} {c : ℕ} (h : c ∈ u.str) :
    c = 45 ∨ 48 ≤ c ∧ c ≤ 57 ∨ 97 ≤ c ∧ c ≤ 102 := by
  have hhex {s : List ℕ} (hs : s.Sublist u.hex) (hc : c ∈ s) :
      c = 45 ∨ 48 ≤ c ∧ c ≤ 57 ∨ 97 ≤ c ∧ c ≤ 102 := by
    obtain ⟨d, hd, rfl⟩ := exists_of_mem_hexDigits (hs.subset hc)
    exact .inr (hexChar_cases hd)
  simp only [str, List.mem_append, List.mem_cons] at h
  rcases h with h | h | h | h | h | h | h | h | h
  · exact hhex (List.take_sublist _ _) h
  · exact .inl h
  · exact hhex ((List.take_sublist _ _).trans (List.drop_sublist _ _)) h
  · exact .inl h
  · exact hhex ((List.take_sublist _ _).trans (List.drop_sublist _ _)) h
  · exact .inl h
  · exact hhex ((List.take_sublist _ _).trans (List.drop_sublist _ _)) h
  · exact .inl h
  · exact hhex (List.drop_sublist _ _) h

/-- Without the dashes it is the digits. -/
theorem filter_str (u : Uuid) : u.str.filter (· ≠ 45) = u.hex := by
  have hfilter {s : List ℕ} (hs : s.Sublist u.hex) : s.filter (· ≠ 45) = s := by
    refine List.filter_eq_self.mpr fun c hc => decide_eq_true ?_
    obtain ⟨d, hd, rfl⟩ := exists_of_mem_hexDigits (hs.subset hc)
    have := hexChar_cases hd
    omega
  have hslice (i : ℕ) : ((u.hex.drop i).take 4).Sublist u.hex :=
    (List.take_sublist _ _).trans (List.drop_sublist _ _)
  have hdash (s : List ℕ) : (45 :: s).filter (· ≠ 45) = s.filter (· ≠ 45) := rfl
  rw [str, List.filter_append, hdash, List.filter_append, hdash, List.filter_append, hdash,
    List.filter_append, hdash, hfilter (List.take_sublist _ _), hfilter (hslice 8),
    hfilter (hslice 12), hfilter (hslice 16), hfilter (List.drop_sublist _ _)]
  calc u.hex.take 8 ++ ((u.hex.drop 8).take 4 ++ ((u.hex.drop 12).take 4 ++
        ((u.hex.drop 16).take 4 ++ u.hex.drop 20)))
      = u.hex.take 8 ++ ((u.hex.drop 8).take 4 ++ ((u.hex.drop 12).take 4 ++ u.hex.drop 16)) := by
        rw [← List.drop_drop (i := 4) (j := 16), List.take_append_drop]
    _ = u.hex.take 8 ++ ((u.hex.drop 8).take 4 ++ u.hex.drop 12) := by
        rw [← List.drop_drop (i := 4) (j := 12), List.take_append_drop]
    _ = u.hex.take 8 ++ u.hex.drop 8 := by
        rw [← List.drop_drop (i := 4) (j := 8), List.take_append_drop]
    _ = u.hex := List.take_append_drop 8 u.hex

/-- A text of digits and dashes is read if the digits are those of a number. -/
theorem ofText_eq (T : DigitTable) {text : List ℕ} {u : Uuid}
    (h : ∀ c ∈ text, c = 45 ∨ 48 ≤ c ∧ c ≤ 57 ∨ 97 ≤ c ∧ c ≤ 102)
    (hdigits : text.filter (· ≠ 45) = u.hex) : ofText T text = some u := by
  have hcolon : 58 ∉ text := fun hc => by
    have := h 58 hc
    omega
  have hbrace : ∀ c ∈ text, ¬ isBrace c = true := by
    intro c hc hb
    have := h c hc
    simp only [isBrace, Bool.or_eq_true, decide_eq_true_eq] at hb
    omega
  have hplain : withoutUrn text = text := by
    rw [withoutUrn, removeFrom_of_not_mem (c := 58) (by decide) hcolon,
      removeFrom_of_not_mem (c := 58) (by decide) hcolon]
  have hlt : u.value < 16 ^ 32 := u.value_lt
  have hread : T.readHex u.hex = some (u.value : ℤ) := T.readHex_hexDigits (by decide) hlt
  rw [ofText, hplain, strip_eq hbrace, hdigits, if_pos u.length_hex, hread]
  exact dif_pos u.value_lt

/-- **What `hex` writes is read.** -/
theorem ofText_hex (T : DigitTable) (u : Uuid) : ofText T u.hex = some u := by
  have hmem : ∀ c ∈ u.hex, c = 45 ∨ 48 ≤ c ∧ c ≤ 57 ∨ 97 ≤ c ∧ c ≤ 102 := by
    intro c hc
    obtain ⟨d, hd, rfl⟩ := exists_of_mem_hexDigits hc
    exact .inr (hexChar_cases hd)
  refine ofText_eq T hmem (List.filter_eq_self.mpr fun c hc => decide_eq_true ?_)
  obtain ⟨d, hd, rfl⟩ := exists_of_mem_hexDigits hc
  have := hexChar_cases hd
  omega

/-- **What `str` writes is read.** -/
theorem ofText_str (T : DigitTable) (u : Uuid) : ofText T u.str = some u :=
  ofText_eq T (fun _ => cases_of_mem_str) u.filter_str

end Uuid
