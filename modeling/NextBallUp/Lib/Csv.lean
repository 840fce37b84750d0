import Mathlib.Data.List.Basic

/-!
# CSV

Texts with fields separated by commas, as Python's `csv` writes and reads them with its defaults. A
field is quoted if it holds a comma, a quotation mark or an end of line, and a row ends with `\r\n`.

## Main definitions

* `writeRow`, `write`: what is written
* `Reader`, `Reader.step`: the reader, which takes a text line by line and character by character
* `read`: the rows of a text

## Main results

* `feed_writeRow`: a row that was written is read as one record
* `read_write`: **rows that were written are read back**, whatever their fields hold
* `write_injective`: different rows have different texts

## What is deliberately absent

Other dialects, the escape character among them, and the limit on the length of a field.
-/

namespace Csv

/-! ### Writing -/

/-- A field with such a character is quoted. -/
def isSpecial (c : ℕ) : Bool := c = 44 || c = 34 || c = 13 || c = 10

/-- A quotation mark within quotes is written twice. -/
def doubled (field : List ℕ) : List ℕ := field.flatMap fun c => if c = 34 then [34, 34] else [c]

def writeField (field : List ℕ) : List ℕ :=
  if field.any isSpecial then 34 :: (doubled field ++ [34]) else field

def writeFields : List (List ℕ) → List ℕ
  | [] => []
  | [field] => writeField field
  | field :: rest => writeField field ++ 44 :: writeFields rest

/-- `writer.writerow(fields)`. A single empty field is quoted, lest the row be an empty line. -/
def writeRow (fields : List (List ℕ)) : List ℕ :=
  (if fields = [[]] then [34, 34] else writeFields fields) ++ [13, 10]

/-- `writer.writerows(rows)` -/
def write (rows : List (List (List ℕ))) : List ℕ := rows.flatMap writeRow

/-! ### Reading -/

/-- The states of `csv.reader`. -/
inductive State
  | startRecord | startField | inField | inQuotedField | quoteInQuotedField | eatCrnl
  deriving DecidableEq, Repr

structure Reader where
  state : State
  /-- The field so far. -/
  field : List ℕ
  /-- The fields of the record that are complete. -/
  fields : List (List ℕ)
  /-- The records that are complete. -/
  rows : List (List (List ℕ))

namespace Reader

/-- At the beginning of a record. -/
def start (rows : List (List (List ℕ))) : Reader := ⟨.startRecord, [], [], rows⟩

/-- `parse_save_field` -/
def save (r : Reader) (state : State) : Reader :=
  { r with state := state, field := [], fields := r.fields ++ [r.field] }

/-- `parse_add_char` -/
def add (r : Reader) (c : ℕ) (state : State) : Reader :=
  { r with state := state, field := r.field ++ [c] }

/-- `parse_process_char`. A line break within a line that holds more text is an error. -/
def step (r : Reader) (c : ℕ) : Option Reader :=
  match r.state with
  | .startRecord | .startField =>
    if c = 10 ∨ c = 13 then
      some (if r.state = .startRecord then { r with state := .eatCrnl } else r.save .eatCrnl)
    else if c = 34 then some { r with state := .inQuotedField }
    else if c = 44 then some (r.save .startField)
    else some (r.add c .inField)
  | .inField =>
    if c = 10 ∨ c = 13 then some (r.save .eatCrnl)
    else if c = 44 then some (r.save .startField)
    else some (r.add c .inField)
  | .inQuotedField =>
    some (if c = 34 then { r with state := .quoteInQuotedField } else r.add c .inQuotedField)
  | .quoteInQuotedField =>
    if c = 34 then some (r.add c .inQuotedField)
    else if c = 44 then some (r.save .startField)
    else if c = 10 ∨ c = 13 then some (r.save .eatCrnl)
    else some (r.add c .inField)
  | .eatCrnl => if c = 10 ∨ c = 13 then some r else none

/-- The end of a line, which ends the record unless the line ends within quotes. -/
def endLine (r : Reader) : Reader :=
  match r.state with
  | .startRecord | .eatCrnl => start (r.rows ++ [r.fields])
  | .inQuotedField => r
  | .startField | .inField | .quoteInQuotedField => start (r.rows ++ [r.fields ++ [r.field]])

/-- The characters of a text, whose lines end with `\n`. -/
def feed : Reader → List ℕ → Option Reader
  | r, [] => some r
  | r, c :: text => (r.step c).bind fun r => (if c = 10 then r.endLine else r).feed text

end Reader

/-- `list(csv.reader(io.StringIO(text)))`; `none` is an error. -/
def read (text : List ℕ) : Option (List (List (List ℕ))) :=
  ((Reader.start []).feed text).map fun r =>
    let r := if text.getLast?.all (· = 10) then r else r.endLine
    -- Quotes that were never closed are closed at the end.
    if r.state = .inQuotedField then r.rows ++ [r.fields ++ [r.field]] else r.rows

/-! ### What was written is read -/

namespace Reader

variable {r : Reader} {c : ℕ} {field : List ℕ} {fields : List (List ℕ)}
  {rows : List (List (List ℕ))}

theorem feed_append (r : Reader) (s t : List ℕ) :
    r.feed (s ++ t) = (r.feed s).bind fun r => r.feed t := by
  induction s generalizing r with
  | nil => rfl
  | cons c s ih =>
    rw [List.cons_append, feed, feed]
    cases r.step c with
    | none => rfl
    | some r => exact ih _

/-- A character after which the line goes on. -/
theorem feed_cons {r' : Reader} {text : List ℕ} (hc : c ≠ 10) (h : r.step c = some r') :
    r.feed (c :: text) = r'.feed text := by
  rw [feed, h, Option.bind_some, if_neg hc]

theorem isSpecial_eq_false (h : isSpecial c = false) : c ≠ 44 ∧ c ≠ 34 ∧ c ≠ 13 ∧ c ≠ 10 := by
  simpa [isSpecial, and_assoc] using h

/-- Characters that are not special are read as they are. -/
theorem feed_plain (h : ∀ c ∈ field, isSpecial c = false) (s : List ℕ) (text : List ℕ) :
    feed ⟨.inField, s, fields, rows⟩ (field ++ text) =
      feed ⟨.inField, s ++ field, fields, rows⟩ text := by
  induction field generalizing s with
  | nil => rw [List.append_nil, List.nil_append]
  | cons c field ih =>
    obtain ⟨hcomma, -, hcr, hlf⟩ := isSpecial_eq_false (h c List.mem_cons_self)
    have hstep : step ⟨.inField, s, fields, rows⟩ c = some ⟨.inField, s ++ [c], fields, rows⟩ := by
      simp [step, add, hcomma, hcr, hlf]
    rw [List.cons_append, feed_cons hlf hstep, ih fun d hd => h d (List.mem_cons_of_mem _ hd),
      List.append_assoc]
    rfl

/-- Within quotes every character is read as it is, and two quotation marks as one. -/
theorem feed_doubled (s field text : List ℕ) :
    feed ⟨.inQuotedField, s, fields, rows⟩ (doubled field ++ text) =
      feed ⟨.inQuotedField, s ++ field, fields, rows⟩ text := by
  induction field generalizing s with
  | nil =>
    rw [List.append_nil]
    rfl
  | cons c field ih =>
    have hcons : doubled (c :: field) = (if c = 34 then [34, 34] else [c]) ++ doubled field := rfl
    have hrest := ih (s ++ [c])
    rw [List.append_assoc] at hrest
    rw [hcons, List.append_assoc]
    by_cases hquote : c = 34
    · subst hquote
      exact hrest
    · have hstep : step ⟨.inQuotedField, s, fields, rows⟩ c =
          some ⟨.inQuotedField, s ++ [c], fields, rows⟩ := by
        simp [step, add, hquote]
      have hline : (if c = 10 then endLine ⟨.inQuotedField, s ++ [c], fields, rows⟩
          else ⟨.inQuotedField, s ++ [c], fields, rows⟩) =
            (⟨.inQuotedField, s ++ [c], fields, rows⟩ : Reader) := by
        split
        · rfl
        · rfl
      rw [if_neg hquote, List.singleton_append, feed, hstep, Option.bind_some, hline]
      exact hrest

/-- The field has been read, and the reader waits for what ends it. -/
inductive HasRead (field : List ℕ) (fields : List (List ℕ)) (rows : List (List (List ℕ))) :
    Reader → Prop
  | empty : field = [] → HasRead field fields rows ⟨.startField, [], fields, rows⟩
  | plain : HasRead field fields rows ⟨.inField, field, fields, rows⟩
  | quoted : HasRead field fields rows ⟨.quoteInQuotedField, field, fields, rows⟩

/-- A comma ends the field. -/
theorem HasRead.comma (h : HasRead field fields rows r) :
    r.step 44 = some ⟨.startField, [], fields ++ [field], rows⟩ := by
  cases h with
  | empty hnil => rw [hnil]; rfl
  | plain => rfl
  | quoted => rfl

/-- The end of the line ends it too, and the record with it. -/
theorem HasRead.endRow (h : HasRead field fields rows r) :
    r.feed [13, 10] = some (start (rows ++ [fields ++ [field]])) := by
  cases h with
  | empty hnil => rw [hnil]; rfl
  | plain => rfl
  | quoted => rfl

/-- At the beginning of a field the two states differ only if the line ends at once. -/
theorem feed_writeField (field : List ℕ) (fields : List (List ℕ)) (rows : List (List (List ℕ)))
    {state : State} (hs : state = .startRecord ∨ state = .startField)
    (hne : state = .startRecord → field ≠ []) :
    ∃ r, HasRead field fields rows r ∧ ∀ text,
      feed ⟨state, [], fields, rows⟩ (writeField field ++ text) = r.feed text := by
  by_cases hspecial : field.any isSpecial = true
  · refine ⟨_, .quoted, fun text => ?_⟩
    have hopen : step ⟨state, [], fields, rows⟩ 34 = some ⟨.inQuotedField, [], fields, rows⟩ := by
      rcases hs with rfl | rfl
      · rfl
      · rfl
    rw [writeField, if_pos hspecial, List.cons_append, feed_cons (by decide) hopen,
      List.append_assoc, feed_doubled]
    rfl
  · have hplain (c : ℕ) (hc : c ∈ field) : isSpecial c = false := by
      rw [Bool.eq_false_iff]
      intro h
      exact hspecial (List.any_eq_true.mpr ⟨c, hc, h⟩)
    rw [writeField, if_neg hspecial]
    cases field with
    | nil =>
      refine ⟨_, .empty rfl, fun text => ?_⟩
      rcases hs with rfl | rfl
      · exact absurd rfl (hne rfl)
      · rfl
    | cons c field =>
      refine ⟨_, .plain, fun text => ?_⟩
      obtain ⟨hcomma, hquote, hcr, hlf⟩ := isSpecial_eq_false (hplain c List.mem_cons_self)
      have hstep : step ⟨state, [], fields, rows⟩ c = some ⟨.inField, [c], fields, rows⟩ := by
        rcases hs with rfl | rfl <;> simp [step, add, hcomma, hquote, hcr, hlf]
      rw [List.cons_append, feed_cons hlf hstep,
        feed_plain fun d hd => hplain d (List.mem_cons_of_mem _ hd)]
      rfl

/-- The fields that follow a comma, up to the end of the line. -/
theorem feed_writeFields {field : List ℕ} {rest : List (List ℕ)} :
    feed ⟨.startField, [], fields, rows⟩ (writeFields (field :: rest) ++ [13, 10]) =
      some (start (rows ++ [fields ++ field :: rest])) := by
  induction rest generalizing field fields with
  | nil =>
    obtain ⟨r, hr, hfeed⟩ := feed_writeField field fields rows (.inr rfl)
      (fun h => by cases h)
    rw [writeFields, hfeed, hr.endRow]
  | cons field' rest ih =>
    obtain ⟨r, hr, hfeed⟩ := feed_writeField field fields rows (.inr rfl)
      (fun h => by cases h)
    show feed _ ((writeField field ++ 44 :: writeFields (field' :: rest)) ++ [13, 10]) = _
    rw [List.append_assoc, hfeed, List.cons_append, feed_cons (by decide) hr.comma, ih,
      List.append_assoc]
    rfl

/-- **A row is read as one record.** -/
theorem feed_writeRow (h : fields ≠ []) :
    (start rows).feed (writeRow fields) = some (start (rows ++ [fields])) := by
  cases fields with
  | nil => exact absurd rfl h
  | cons field rest =>
    by_cases hblank : field :: rest = [[]]
    · rw [hblank]
      rfl
    rw [writeRow, if_neg hblank]
    cases field with
    | nil =>
      -- The row begins with a comma.
      cases rest with
      | nil => exact absurd rfl hblank
      | cons field' rest =>
        show feed _ (44 :: (writeFields (field' :: rest) ++ [13, 10])) = _
        have hcomma : (start rows).step 44 = some ⟨.startField, [], [[]], rows⟩ := rfl
        rw [feed_cons (by decide) hcomma, feed_writeFields]
        rfl
    | cons c field =>
      obtain ⟨r, hr, hfeed⟩ := feed_writeField (c :: field) [] rows (.inl rfl)
        fun _ => List.cons_ne_nil c field
      cases rest with
      | nil =>
        show feed _ (writeField (c :: field) ++ [13, 10]) = _
        rw [start, hfeed, hr.endRow]
        rfl
      | cons field' rest =>
        show feed _ ((writeField (c :: field) ++ 44 :: writeFields (field' :: rest)) ++
          [13, 10]) = _
        rw [List.append_assoc, start, hfeed, List.cons_append, feed_cons (by decide) hr.comma,
          feed_writeFields]
        rfl

theorem feed_write {written : List (List (List ℕ))} (h : ∀ fields ∈ written, fields ≠ []) :
    (start rows).feed (write written) = some (start (rows ++ written)) := by
  induction written generalizing rows with
  | nil =>
    rw [List.append_nil]
    rfl
  | cons fields written ih =>
    have hcons : write (fields :: written) = writeRow fields ++ write written := rfl
    rw [hcons, feed_append, feed_writeRow (h fields List.mem_cons_self), Option.bind_some,
      ih fun f hf => h f (List.mem_cons_of_mem _ hf), List.append_assoc]
    rfl

end Reader

/-- Every row ends its line. -/
theorem getLast?_write (rows : List (List (List ℕ))) :
    (write rows).getLast?.all (· = 10) = true := by
  induction rows with
  | nil => rfl
  | cons fields rows ih =>
    have hcons : write (fields :: rows) = writeRow fields ++ write rows := rfl
    rw [hcons, List.getLast?_append]
    cases hlast : (write rows).getLast? with
    | none => simp [writeRow]
    | some c =>
      rw [hlast] at ih
      exact ih

/-- **Rows that were written are read back.** -/
theorem read_write {rows : List (List (List ℕ))} (h : ∀ fields ∈ rows, fields ≠ []) :
    read (write rows) = some rows := by
  rw [read, Reader.feed_write h, Option.map_some, if_pos (getLast?_write rows)]
  rfl

/-- Different rows have different texts. -/
theorem write_injective {rows rows' : List (List (List ℕ))} (h : ∀ fields ∈ rows, fields ≠ [])
    (h' : ∀ fields ∈ rows', fields ≠ []) (heq : write rows = write rows') : rows = rows' := by
  have hread := read_write h
  rw [heq, read_write h'] at hread
  exact (Option.some.inj hread).symm

end Csv
