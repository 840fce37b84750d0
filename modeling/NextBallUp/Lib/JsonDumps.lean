import NextBallUp.Lib.JsonText
import Mathlib.Algebra.Ring.Nat

/-!
# Writing JSON texts

Python's `json.dumps`, in which every character that is not a printable ASCII character is escaped.
Unless it is told not to, it puts a blank after each comma and each colon.

## Main definitions

* `dumpsWith`: the text of a value, with what stands after commas and colons
* `dumps`: the text without blanks
* `Json.mark`: the value as it is decoded
* `Writable`: the values whose texts can be decoded, with as much room for nesting

## Main results

* `printable_dumpsWith`: the characters of a text
* `length_dumps_obj`: **the length of an object**

## What is deliberately absent

Numerals with an exponent, and what `json.dumps` does with strings that hold surrogates.
-/

namespace JsonText

/-! ### Characters -/

/-- A printable ASCII character that stands for itself in a string. -/
def isPlain (c : ℕ) : Bool := 32 ≤ c && c ≤ 126 && c ≠ 34 && c ≠ 92

/-- The character after the backslash, if one is enough. -/
def shortEscape (c : ℕ) : Option ℕ :=
  if c = 34 ∨ c = 92 then some c
  else if c = 8 then some 98
  else if c = 12 then some 102
  else if c = 10 then some 110
  else if c = 13 then some 114
  else if c = 9 then some 116
  else none

/-- An escape by number. -/
def escapeUnit (n : ℕ) : List ℕ :=
  [92, 117, hexChar (n / 4096), hexChar (n / 256 % 16), hexChar (n / 16 % 16), hexChar (n % 16)]

/-- A character of a string. Beyond the first plane it is a pair of surrogates. -/
def writeChar (c : ℕ) : List ℕ :=
  if isPlain c then [c]
  else
    match shortEscape c with
    | some d => [92, d]
    | none =>
      if c < 0x10000 then escapeUnit c
      else escapeUnit (0xD800 + (c - 0x10000) / 0x400) ++
        escapeUnit (0xDC00 + (c - 0x10000) % 0x400)

/-! ### Values -/

def writeString (s : List ℕ) : List ℕ := 34 :: (s.flatMap writeChar ++ [34])

mutual

/-- `json.dumps(value, separators=("," + blank, ":" + blank))` -/
def dumpsWith (blank : List ℕ) : Json ℕ → List ℕ
  | .null => "null".codePoints
  | .bool true => "true".codePoints
  | .bool false => "false".codePoints
  | .int n => decimalInt n
  | .float numeral => numeral
  | .str s => writeString s
  | .arr items => 91 :: (dumpsItemsWith blank items ++ [93])
  | .obj fields => 123 :: (dumpsFieldsWith blank fields ++ [125])

def dumpsItemsWith (blank : List ℕ) : List (Json ℕ) → List ℕ
  | [] => []
  | [value] => dumpsWith blank value
  | value :: rest => dumpsWith blank value ++ 44 :: (blank ++ dumpsItemsWith blank rest)

def dumpsFieldsWith (blank : List ℕ) : List (List ℕ × Json ℕ) → List ℕ
  | [] => []
  | [(key, value)] => writeString key ++ 58 :: (blank ++ dumpsWith blank value)
  | (key, value) :: rest =>
    writeString key ++ 58 :: (blank ++ (dumpsWith blank value ++
      44 :: (blank ++ dumpsFieldsWith blank rest)))

end

/-- `json.dumps(value, separators=(",", ":"))` -/
abbrev dumps : Json ℕ → List ℕ := dumpsWith []

/-- A character as it is decoded. -/
def mark (c : ℕ) : CodePoint := ⟨c, isPlain c⟩

@[simp] theorem codes_map_mark (s : List ℕ) : codes (s.map mark) = s := by
  rw [codes, List.map_map]
  exact List.map_id s

end JsonText

open JsonText in
mutual

/-- The value as it is decoded from its text. -/
def Json.mark : Json ℕ → Json CodePoint
  | .null => .null
  | .bool b => .bool b
  | .int n => .int n
  | .float numeral => .float numeral
  | .str s => .str (s.map JsonText.mark)
  | .arr items => .arr (Json.markItems items)
  | .obj fields => .obj (Json.markFields fields)

def Json.markItems : List (Json ℕ) → List (Json CodePoint)
  | [] => []
  | value :: rest => value.mark :: Json.markItems rest

def Json.markFields : List (List ℕ × Json ℕ) → Json.Fields CodePoint
  | [] => []
  | (key, value) :: rest => (key.map JsonText.mark, value.mark) :: Json.markFields rest

end

namespace JsonText

/-- A character that is no surrogate. -/
def IsScalar (c : ℕ) : Prop := c < 0xD800 ∨ 0xE000 ≤ c ∧ c < 0x110000

/-- A string without surrogates. -/
def IsText (s : List ℕ) : Prop := ∀ c ∈ s, IsScalar c

/-- Digits, a point, and digits. -/
def IsPointNumeral (numeral : List ℕ) : Prop :=
  ∃ n fraction, numeral = decimal n ++ 46 :: fraction ∧ fraction ≠ [] ∧
    ∀ c ∈ fraction, isDigit c = true

mutual

/-- The text of the value can be decoded: its strings hold no surrogates, its numbers have not too
many digits, an object has no key twice, and it is not nested more deeply than there is room. -/
def Writable (room : ℕ) : Json ℕ → Prop
  | .null | .bool _ => True
  | .int n => (decimal n.natAbs).length ≤ intMaxStrDigits
  | .float numeral => IsPointNumeral numeral
  | .str s => IsText s
  | .arr items => 0 < room ∧ WritableItems (room - 1) items
  | .obj fields => 0 < room ∧ (fields.map Prod.fst).Nodup ∧ WritableFields (room - 1) fields

def WritableItems (room : ℕ) : List (Json ℕ) → Prop
  | [] => True
  | value :: rest => Writable room value ∧ WritableItems room rest

def WritableFields (room : ℕ) : List (List ℕ × Json ℕ) → Prop
  | [] => True
  | (key, value) :: rest => IsText key ∧ Writable room value ∧ WritableFields room rest

end

theorem writableItems_iff {room : ℕ} {items : List (Json ℕ)} :
    WritableItems room items ↔ ∀ value ∈ items, Writable room value := by
  induction items with
  | nil => simp [WritableItems]
  | cons value rest ih => rw [WritableItems, ih, List.forall_mem_cons]

theorem writableFields_iff {room : ℕ} {fields : List (List ℕ × Json ℕ)} :
    WritableFields room fields ↔ ∀ f ∈ fields, IsText f.1 ∧ Writable room f.2 := by
  induction fields with
  | nil => simp [WritableFields]
  | cons f rest ih => rw [WritableFields, ih, List.forall_mem_cons, and_assoc]

/-- The order of the members does not matter. -/
theorem Writable.perm {room : ℕ} {fields fields' : List (List ℕ × Json ℕ)}
    (h : Writable room (.obj fields)) (hp : fields'.Perm fields) :
    Writable room (.obj fields') := by
  obtain ⟨hpos, hnodup, hfields⟩ := h
  rw [writableFields_iff] at hfields
  refine ⟨hpos, (hp.map Prod.fst).nodup_iff.mpr hnodup, writableFields_iff.mpr ?_⟩
  intro f hf
  exact hfields f (hp.subset hf)

theorem isText_codePoints (s : String) : IsText s.codePoints := by
  intro c hc
  obtain ⟨char, -, rfl⟩ := List.mem_map.mp hc
  rcases char.valid with h | ⟨h, h'⟩
  · exact .inl h
  · exact .inr ⟨h, h'⟩

theorem isText_of_plain {s : List ℕ} (h : ∀ c ∈ s, isPlain c = true) : IsText s := by
  intro c hc
  have hplain := h c hc
  simp only [isPlain, Bool.and_eq_true, decide_eq_true_eq] at hplain
  exact .inl (by omega)

/-! ### The characters of a text -/

theorem printable_hexChar {d : ℕ} (h : d < 16) : 32 ≤ hexChar d ∧ hexChar d < 127 := by
  have hc := hexChar_cases h
  omega

theorem printable_escapeUnit {n c : ℕ} (hn : n < 0x10000) (h : c ∈ escapeUnit n) :
    32 ≤ c ∧ c < 127 := by
  simp only [escapeUnit, List.mem_cons, List.not_mem_nil, or_false] at h
  rcases h with rfl | rfl | rfl | rfl | rfl | rfl
  · decide
  · decide
  · exact printable_hexChar (by omega)
  · exact printable_hexChar (by omega)
  · exact printable_hexChar (by omega)
  · exact printable_hexChar (by omega)

theorem printable_writeChar {c d : ℕ} (hc : IsScalar c) (h : d ∈ writeChar c) :
    32 ≤ d ∧ d < 127 := by
  have hlt : c < 0x110000 := by
    rcases hc with hc | hc
    · omega
    · exact hc.2
  cases hplain : isPlain c with
  | true =>
    rw [writeChar, if_pos hplain] at h
    rw [List.mem_singleton.mp h]
    simp only [isPlain, Bool.and_eq_true, decide_eq_true_eq] at hplain
    omega
  | false =>
    rw [writeChar, hplain, if_neg Bool.false_ne_true] at h
    cases hshort : shortEscape c with
    | some e =>
      rw [hshort] at h
      have he : 32 ≤ e ∧ e < 127 := by
        unfold shortEscape at hshort
        grind
      rcases List.mem_cons.mp h with rfl | h
      · decide
      · rwa [List.mem_singleton.mp h]
    | none =>
      rw [hshort] at h
      dsimp only at h
      split_ifs at h with hplane
      · exact printable_escapeUnit hplane h
      · rcases List.mem_append.mp h with h | h
        · exact printable_escapeUnit (by omega) h
        · exact printable_escapeUnit (by omega) h

theorem printable_writeString {s : List ℕ} {c : ℕ} (hs : IsText s) (h : c ∈ writeString s) :
    32 ≤ c ∧ c < 127 := by
  simp only [writeString, List.mem_cons, List.mem_append, List.mem_flatMap, List.not_mem_nil,
    or_false] at h
  rcases h with rfl | ⟨d, hd, hc⟩ | rfl
  · decide
  · exact printable_writeChar (hs d hd) hc
  · decide

theorem printable_decimalInt {n : ℤ} {c : ℕ} (h : c ∈ decimalInt n) : 32 ≤ c ∧ c < 127 := by
  have hdigit {m : ℕ} (h : c ∈ decimal m) : 32 ≤ c ∧ c < 127 := by
    have hc := digit_of_mem_decimal h
    omega
  cases n with
  | ofNat m => exact hdigit h
  | negSucc m =>
    rcases List.mem_cons.mp h with rfl | h
    · decide
    · exact hdigit h

variable {blank : List ℕ}

theorem printable_pointNumeral {numeral : List ℕ} {c : ℕ} (h : IsPointNumeral numeral)
    (hc : c ∈ numeral) : 32 ≤ c ∧ c < 127 := by
  obtain ⟨n, fraction, rfl, -, hdigits⟩ := h
  rcases List.mem_append.mp hc with hc | hc
  · exact printable_decimalInt (n := n) hc
  · rcases List.mem_cons.mp hc with rfl | hc
    · decide
    · have hdigit := hdigits c hc
      rw [isDigit, Bool.and_eq_true, decide_eq_true_eq, decide_eq_true_eq] at hdigit
      omega

mutual

theorem printable_dumpsWith (hb : ∀ c ∈ blank, 32 ≤ c ∧ c < 127) :
    ∀ {room : ℕ} (value : Json ℕ), Writable room value →
      ∀ c ∈ dumpsWith blank value, 32 ≤ c ∧ c < 127
  | _, .null, _ => by
    show ∀ c ∈ "null".codePoints, 32 ≤ c ∧ c < 127
    decide
  | _, .bool true, _ => by
    show ∀ c ∈ "true".codePoints, 32 ≤ c ∧ c < 127
    decide
  | _, .bool false, _ => by
    show ∀ c ∈ "false".codePoints, 32 ≤ c ∧ c < 127
    decide
  | _, .int _, _ => fun _ h => printable_decimalInt h
  | _, .float _, h => fun _ hc => printable_pointNumeral h hc
  | _, .str _, h => fun _ hc => printable_writeString h hc
  | _, .arr items, h => by
    intro c hc
    simp only [dumpsWith, List.mem_cons, List.mem_append, List.not_mem_nil, or_false] at hc
    rcases hc with rfl | hc | rfl
    · decide
    · exact printable_dumpsItemsWith hb items h.2 c hc
    · decide
  | _, .obj fields, h => by
    intro c hc
    simp only [dumpsWith, List.mem_cons, List.mem_append, List.not_mem_nil, or_false] at hc
    rcases hc with rfl | hc | rfl
    · decide
    · exact printable_dumpsFieldsWith hb fields h.2.2 c hc
    · decide

theorem printable_dumpsItemsWith (hb : ∀ c ∈ blank, 32 ≤ c ∧ c < 127) :
    ∀ {room : ℕ} (items : List (Json ℕ)), WritableItems room items →
      ∀ c ∈ dumpsItemsWith blank items, 32 ≤ c ∧ c < 127
  | _, [], _ => fun _ hc => (List.not_mem_nil hc).elim
  | _, [value], h => fun c hc => printable_dumpsWith hb value h.1 c hc
  | _, value :: next :: rest, h => by
    intro c hc
    simp only [dumpsItemsWith, List.mem_append, List.mem_cons] at hc
    rcases hc with hc | rfl | hc | hc
    · exact printable_dumpsWith hb value h.1 c hc
    · decide
    · exact hb c hc
    · exact printable_dumpsItemsWith hb (next :: rest) h.2 c hc

theorem printable_dumpsFieldsWith (hb : ∀ c ∈ blank, 32 ≤ c ∧ c < 127) :
    ∀ {room : ℕ} (fields : List (List ℕ × Json ℕ)), WritableFields room fields →
      ∀ c ∈ dumpsFieldsWith blank fields, 32 ≤ c ∧ c < 127
  | _, [], _ => fun _ hc => (List.not_mem_nil hc).elim
  | _, [(key, value)], h => by
    intro c hc
    simp only [dumpsFieldsWith, List.mem_append, List.mem_cons] at hc
    rcases hc with hc | rfl | hc | hc
    · exact printable_writeString h.1 hc
    · decide
    · exact hb c hc
    · exact printable_dumpsWith hb value h.2.1 c hc
  | _, (key, value) :: next :: rest, h => by
    intro c hc
    simp only [dumpsFieldsWith, List.mem_append, List.mem_cons] at hc
    rcases hc with hc | rfl | hc | hc | rfl | hc | hc
    · exact printable_writeString h.1 hc
    · decide
    · exact hb c hc
    · exact printable_dumpsWith hb value h.2.1 c hc
    · decide
    · exact hb c hc
    · exact printable_dumpsFieldsWith hb (next :: rest) h.2.2 c hc

end

theorem printable_dumps {room : ℕ} (value : Json ℕ) (h : Writable room value) :
    ∀ c ∈ dumps value, 32 ≤ c ∧ c < 127 :=
  printable_dumpsWith (fun _ hc => (List.not_mem_nil hc).elim) value h

/-! ### Members -/

theorem get_markFields (fields : Json.Fields ℕ) (key : String) :
    (Json.markFields fields).get key = (fields.get key).mark := by
  induction fields with
  | nil => rfl
  | cons f rest ih =>
    obtain ⟨k, value⟩ := f
    rw [Json.markFields, Json.Fields.get, Json.Fields.get, codes_map_mark, codes_nat, ih]
    exact (apply_ite Json.mark _ _ _).symm

/-- Reading a member does not depend on the order of the members. -/
theorem get_perm {fields fields' : Json.Fields ℕ} (h : fields.Perm fields') (key : String)
    (hnodup : (fields.map Prod.fst).Nodup) : fields.get key = fields'.get key := by
  induction h with
  | nil => rfl
  | cons f _ ih =>
    rw [Json.Fields.get, Json.Fields.get, ih (List.nodup_cons.mp hnodup).2]
  | swap f g rest =>
    have hne : g.1 ≠ f.1 := fun h =>
      (List.nodup_cons.mp hnodup).1 (List.mem_cons.mpr (.inl h))
    simp only [Json.Fields.get, codes_nat]
    split_ifs with hg hf
    · exact (hne (hg.trans hf.symm)).elim
    · rfl
    · rfl
    · rfl
  | trans hp _ ih ih' =>
    rw [ih hnodup, ih' ((hp.map Prod.fst).nodup_iff.mp hnodup)]

/-! ### Lengths -/

theorem length_writeString_of_plain {s : List ℕ} (h : ∀ c ∈ s, isPlain c = true) :
    (writeString s).length = s.length + 2 := by
  have hflat : s.flatMap writeChar = s := by
    induction s with
    | nil => rfl
    | cons c rest ih =>
      rw [List.flatMap_cons, writeChar, if_pos (h c List.mem_cons_self),
        ih fun d hd => h d (List.mem_cons_of_mem _ hd)]
      rfl
  rw [writeString, hflat]
  simp

theorem length_dumpsItemsWith : ∀ {items : List (Json ℕ)}, items ≠ [] →
    (dumpsItemsWith [] items).length + 1 = (items.map fun value => (dumps value).length + 1).sum
  | [], h => (h rfl).elim
  | [_], _ => by simp [dumpsItemsWith]
  | value :: next :: rest, _ => by
    have ih := length_dumpsItemsWith (List.cons_ne_nil next rest)
    rw [List.map_cons, List.sum_cons, ← ih]
    simp only [dumps, dumpsItemsWith, List.nil_append, List.length_append, List.length_cons]
    omega

theorem length_dumpsFieldsWith : ∀ {fields : List (List ℕ × Json ℕ)}, fields ≠ [] →
    (dumpsFieldsWith [] fields).length + 1 =
      (fields.map fun f => (writeString f.1).length + (dumps f.2).length + 2).sum
  | [], h => (h rfl).elim
  | [(_, _)], _ => by
    simp only [dumps, dumpsFieldsWith, List.nil_append, List.length_append, List.length_cons,
      List.map_cons, List.map_nil, List.sum_cons, List.sum_nil]
    omega
  | (_, _) :: next :: rest, _ => by
    have ih := length_dumpsFieldsWith (List.cons_ne_nil next rest)
    rw [List.map_cons, List.sum_cons, ← ih]
    simp only [dumps, dumpsFieldsWith, List.nil_append, List.length_append, List.length_cons]
    omega

/-- **The length of an object** does not depend on the order of its members. -/
theorem length_dumps_obj {fields : List (List ℕ × Json ℕ)} (h : fields ≠ []) :
    (dumps (.obj fields)).length =
      1 + (fields.map fun f => (writeString f.1).length + (dumps f.2).length + 2).sum := by
  rw [← length_dumpsFieldsWith h]
  simp only [dumpsWith, List.length_cons, List.length_append, List.length_nil]
  omega

end JsonText
