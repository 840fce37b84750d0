import NextBallUp.Events.Windows
import NextBallUp.Lib.Base64
import NextBallUp.Lib.IntTexts
import NextBallUp.Lib.JsonBytes
import NextBallUp.Lib.Uuid

/-!
# The cursor of the event listing

The time and the id of the last event of a page, in Base64 without padding. What a client sends back
is read by functions that admit more than what is written: `int` and `UUID` of Python, behind the
decoder of Base64, which passes over characters that it does not know.

## Main definitions

* `encodeEventCursor`, `decodeEventCursor`: the cursor
* `cursorText`, `cursorParts`: the text of a cursor, and what stands before and after its first
  colon
* `NamesLongInteger`: the text is that of a number of more than 64 bits and of an id

## Main results

* `decodeEventCursor_encode`: **what was written is read**
* `decodeEventCursor_eq_ok_iff`: what else is read
* `forall_isBigInteger_iff`: when the number is one of the column
-/

namespace NextBallUp.Pages

open Events (VideoEvent)
open Events.VideoEvent (IsBigInteger)

/-- The errors that the listings raise. -/
inductive ListingError
  /-- A parameter of the query is not admitted. -/
  | requestValidation
  | notFound (message : String)
  | authorizationDenied
  /-- `ValidationFailedError`, with the cursor as its detail. -/
  | validationFailed (message : String) (cursor : List ℕ)
  /-- The database refuses the query, which the route does not handle. -/
  | databaseError
  deriving DecidableEq, Repr

/-! ### The cursor -/

/-- `_encode_event_cursor` -/
def encodeEventCursor (eventTimeMs : ℤ) (eventId : Uuid) : List ℕ :=
  let raw := decimalInt eventTimeMs ++ 58 :: eventId.hex
  Base64.urlEncode raw

/-- The text of a cursor. -/
def cursorText (cursor : List ℕ) : Option (List ℕ) :=
  (Base64.decode (Base64.pad cursor)).bind JsonText.decodeStrict

/-- `time_part` and `id_part` of a cursor. -/
def cursorParts (cursor : List ℕ) : Option (List ℕ × List ℕ) :=
  (cursorText cursor).bind (splitFirst 58)

/-- `_decode_event_cursor` -/
def decodeEventCursor (T : DigitTable) (cursor : List ℕ) : Except ListingError (ℤ × Uuid) :=
  let read := do
    let (timePart, idPart) ← cursorParts cursor
    let time ← T.readInt timePart
    let id ← Uuid.ofText T idPart
    some (time, id)
  match read with
  | some pair => .ok pair
  | none => .error (.validationFailed "Invalid pagination cursor" cursor)

/-- A numeral of more than 64 bits, a colon, and the text of an id. -/
def NamesLongInteger (T : DigitTable) (cursor : List ℕ) : Prop :=
  ∃ numeral idPart negative digits, cursorText cursor = some (numeral ++ 58 :: idPart) ∧
    58 ∉ numeral ∧ T.IsNumeral numeral negative digits ∧ IsLong negative digits ∧
    (Uuid.ofText T idPart).isSome

variable {T : DigitTable} {cursor : List ℕ} {time : ℤ} {id : Uuid}

/-- What is read. -/
theorem decodeEventCursor_eq_ok_iff : decodeEventCursor T cursor = .ok (time, id) ↔
    ∃ timePart idPart, cursorParts cursor = some (timePart, idPart) ∧
      T.readInt timePart = some time ∧ Uuid.ofText T idPart = some id := by
  unfold decodeEventCursor
  cases hparts : cursorParts cursor with
  | none => simp
  | some parts =>
    obtain ⟨timePart, idPart⟩ := parts
    cases htime : T.readInt timePart with
    | none => simp [htime]
    | some t =>
      cases hid : Uuid.ofText T idPart with
      | none => simp [htime, hid]
      | some u => simp [htime, hid]

/-- Everything else is an error that names the cursor. -/
theorem decodeEventCursor_cases (T : DigitTable) (cursor : List ℕ) :
    (∃ time id, decodeEventCursor T cursor = .ok (time, id)) ∨
      decodeEventCursor T cursor =
        .error (.validationFailed "Invalid pagination cursor" cursor) := by
  unfold decodeEventCursor
  dsimp only
  split
  next pair _ => exact .inl ⟨pair.1, pair.2, rfl⟩
  next => exact .inr rfl

theorem isBigInteger_signed_iff {negative : Bool} {digits : List ℕ} (h : IsDecimal digits) :
    IsBigInteger (DigitTable.signed negative (ofDecimal digits)) ↔ ¬ IsLong negative digits := by
  rw [isLong_iff h]
  generalize ofDecimal digits = n
  cases negative with
  | true =>
    show -2 ^ 63 ≤ -(n : ℤ) ∧ -(n : ℤ) < 2 ^ 63 ↔ ¬ 9223372036854775808 < n
    omega
  | false =>
    show -2 ^ 63 ≤ (n : ℤ) ∧ (n : ℤ) < 2 ^ 63 ↔ ¬ 9223372036854775807 < n
    omega

/-- **The number is one of the column unless the cursor names a longer one.** -/
theorem forall_isBigInteger_iff : (∀ time id, decodeEventCursor T cursor = .ok (time, id) →
    IsBigInteger time) ↔ ¬ NamesLongInteger T cursor := by
  constructor
  · rintro h ⟨numeral, idPart, negative, digits, htext, hcolon, hnumeral, hlong, hid⟩
    obtain ⟨id, hid⟩ := Option.isSome_iff_exists.mp hid
    have hparts : cursorParts cursor = some (numeral, idPart) := by
      rw [cursorParts, htext]
      exact splitFirst_append hcolon idPart
    have htime := DigitTable.readInt_eq_some_iff.mpr ⟨negative, digits, hnumeral, rfl⟩
    have hbig := h _ id (decodeEventCursor_eq_ok_iff.mpr ⟨numeral, idPart, hparts, htime, hid⟩)
    exact (isBigInteger_signed_iff hnumeral.isDecimal).mp hbig hlong
  · intro h time id hread
    obtain ⟨numeral, idPart, hparts, htime, hid⟩ := decodeEventCursor_eq_ok_iff.mp hread
    obtain ⟨text, htext, hsplit⟩ := Option.bind_eq_some_iff.mp hparts
    obtain ⟨rfl, hcolon⟩ := splitFirst_eq_some_iff.mp hsplit
    obtain ⟨negative, digits, hnumeral, rfl⟩ := DigitTable.readInt_eq_some_iff.mp htime
    rw [isBigInteger_signed_iff hnumeral.isDecimal]
    intro hlong
    exact h ⟨numeral, idPart, negative, digits, htext, hcolon, hnumeral, hlong,
      Option.isSome_iff_exists.mpr ⟨id, hid⟩⟩

/-! ### The round trip -/

/-- A numeral of the column has at most nineteen digits. -/
theorem length_decimal_of_isBigInteger (h : IsBigInteger time) :
    (decimal time.natAbs).length ≤ 19 := by
  rw [length_decimal_le_iff (by decide)]
  obtain ⟨hlow, hhigh⟩ := h
  omega

theorem cases_of_mem_decimalInt {c : ℕ} (h : c ∈ decimalInt time) : c = 45 ∨ 48 ≤ c ∧ c ≤ 57 := by
  cases time with
  | ofNat n => exact .inr (digit_of_mem_decimal h)
  | negSucc n =>
    rcases List.mem_cons.mp h with h | h
    · exact .inl h
    · exact .inr (digit_of_mem_decimal h)

theorem lt_of_mem_raw {c : ℕ} (h : c ∈ decimalInt time ++ 58 :: id.hex) : c < 0x80 := by
  rcases List.mem_append.mp h with hc | hc
  · have := cases_of_mem_decimalInt hc
    omega
  · rcases List.mem_cons.mp hc with rfl | hc
    · decide
    · obtain ⟨d, hd, rfl⟩ := exists_of_mem_hexDigits hc
      have := hexChar_cases hd
      omega

theorem cursorParts_encode (time : ℤ) (id : Uuid) :
    cursorParts (encodeEventCursor time id) = some (decimalInt time, id.hex) := by
  have hcolon : 58 ∉ decimalInt time := by
    intro hc
    have := cases_of_mem_decimalInt hc
    omega
  rw [cursorParts, cursorText, encodeEventCursor,
    Base64.decode_pad_urlEncode fun c hc => (lt_of_mem_raw hc).trans (by decide),
    Option.bind_some, JsonText.decodeStrict_ascii fun c => lt_of_mem_raw, Option.bind_some,
    splitFirst_append hcolon]

/-- **What was written is read.** -/
theorem decodeEventCursor_encode (T : DigitTable) (h : (decimal time.natAbs).length ≤ 4300)
    (id : Uuid) : decodeEventCursor T (encodeEventCursor time id) = .ok (time, id) :=
  decodeEventCursor_eq_ok_iff.mpr ⟨_, _, cursorParts_encode time id, T.readInt_decimalInt h,
    Uuid.ofText_hex T id⟩

/-- A cursor has a length that the query admits. -/
theorem length_encodeEventCursor (h : IsBigInteger time) (id : Uuid) :
    1 ≤ (encodeEventCursor time id).length ∧ (encodeEventCursor time id).length ≤ 128 := by
  have hdigits := length_decimal_of_isBigInteger h
  have hsign : (decimalInt time).length ≤ (decimal time.natAbs).length + 1 := by
    cases time with
    | ofNat n => exact Nat.le_succ _
    | negSucc n => exact Nat.le_refl _
  rw [encodeEventCursor, Base64.length_urlEncode fun c hc => (lt_of_mem_raw hc).trans (by decide),
    List.length_append, List.length_cons, Uuid.length_hex]
  omega

end NextBallUp.Pages
