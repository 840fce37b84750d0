import Mathlib.Data.Nat.Notation
import Mathlib.Data.Int.Notation
import Mathlib.Tactic.Tauto

/-!
# JSON values

What a JSON text denotes, as a Python program holds it. A string is a sequence of code points, which
may hold surrogates on their own, and an object keeps its members in the order in which their keys
came first.

The characters of a string are of any type with a code point. A decoder may so keep with each
character how the text spells it, and everything that is computed from the value keeps it too.

## Main definitions

* `HasCode`: characters that have a code point
* `Json`: the values
* `Json.Fields`, `Json.Fields.get`, `Json.Fields.set`: the members of an object, and how a `dict` is
  read and written
* `Json.asInt`, `Json.asStrictInt`: `isinstance(value, int)`, with and without the Booleans
* `Json.strings`: the strings in a value

## What is deliberately absent

The value of a number that is written with a fraction or an exponent. Such a number is kept as the
text writes it.
-/

/-- The code points of a text of the source. -/
def String.codePoints (s : String) : List ℕ := s.toList.map Char.toNat

theorem String.codePoints_inj {s t : String} : s.codePoints = t.codePoints ↔ s = t :=
  (List.map_inj_right fun _ _ h => Char.toNat_inj.mp h).trans String.toList_inj

/-- Characters that have a code point. -/
class HasCode (χ : Type) where
  code : χ → ℕ

instance : HasCode ℕ where
  code := id

/-- The code points of a string. -/
def codes {χ : Type} [HasCode χ] (s : List χ) : List ℕ := s.map HasCode.code

@[simp] theorem codes_nat (s : List ℕ) : codes s = s := List.map_id s

theorem getLast?_codes {χ : Type} [HasCode χ] (s : List χ) :
    (codes s).getLast? = s.getLast?.map HasCode.code := List.getLast?_map ..

theorem codes_append {χ : Type} [HasCode χ] (s t : List χ) : codes (s ++ t) = codes s ++ codes t :=
  List.map_append

/-- A JSON value whose strings have characters of type `χ`. -/
inductive Json (χ : Type)
  | null
  | bool (b : Bool)
  | int (n : ℤ)
  /-- A number with a fraction or an exponent, `NaN` or an infinity, as the text writes it. -/
  | float (numeral : List ℕ)
  | str (s : List χ)
  | arr (items : List (Json χ))
  | obj (fields : List (List χ × Json χ))

namespace Json

variable {χ : Type} [HasCode χ]

/-- The members of an object. -/
abbrev Fields (χ : Type) := List (List χ × Json χ)

/-- `dict.get(key)` -/
def Fields.get (fields : Fields χ) (key : String) : Json χ :=
  match fields with
  | [] => .null
  | (k, v) :: rest => if codes k = key.codePoints then v else Fields.get rest key

/-- `dict[key] = value`: a key that is there already keeps its place. -/
def Fields.set (fields : Fields χ) (key : List χ) (value : Json χ) : Fields χ :=
  match fields with
  | [] => [(key, value)]
  | (k, v) :: rest =>
    if codes k = codes key then (k, value) :: rest else (k, v) :: Fields.set rest key value

/-- `value is True` -/
def isTrue : Json χ → Bool
  | .bool b => b
  | _ => false

/-- `value is False` -/
def isFalse : Json χ → Bool
  | .bool b => !b
  | _ => false

/-- `value is None` -/
def isNone : Json χ → Bool
  | .null => true
  | _ => false

/-- `value == text` -/
def isText (value : Json χ) (text : String) : Bool :=
  match value with
  | .str s => codes s = text.codePoints
  | _ => false

/-- `isinstance(value, int)`: the Booleans are integers, too. -/
def asInt : Json χ → Option ℤ
  | .int n => some n
  | .bool b => some b.toNat
  | _ => none

/-- `isinstance(value, int) and not isinstance(value, bool)` -/
def asStrictInt : Json χ → Option ℤ
  | .int n => some n
  | _ => none

/-- `isinstance(value, dict)` -/
def asObj : Json χ → Option (Fields χ)
  | .obj fields => some fields
  | _ => none

/-- A member of a value; `None` if it is no object or has no such member. -/
def get (value : Json χ) (key : String) : Json χ :=
  match value with
  | .obj fields => Fields.get fields key
  | _ => .null

/-- `isinstance(value, list)` -/
def asArr : Json χ → Option (List (Json χ))
  | .arr items => some items
  | _ => none

/-- `isinstance(value, str)` -/
def asStr : Json χ → Option (List χ)
  | .str s => some s
  | _ => none

mutual

/-- The strings in a value: the keys of its objects, too. -/
def strings : Json χ → List (List χ)
  | .str s => [s]
  | .arr items => stringsOfItems items
  | .obj fields => stringsOfFields fields
  | _ => []

def stringsOfItems : List (Json χ) → List (List χ)
  | [] => []
  | value :: rest => strings value ++ stringsOfItems rest

def stringsOfFields : List (List χ × Json χ) → List (List χ)
  | [] => []
  | (key, value) :: rest => key :: (strings value ++ stringsOfFields rest)

end

omit [HasCode χ] in
theorem mem_stringsOfItems {s : List χ} {items : List (Json χ)} :
    s ∈ stringsOfItems items ↔ ∃ value ∈ items, s ∈ value.strings := by
  induction items with
  | nil => simp [stringsOfItems]
  | cons value rest ih => simp [stringsOfItems, ih]

omit [HasCode χ] in
theorem mem_stringsOfFields {s : List χ} {fields : List (List χ × Json χ)} :
    s ∈ stringsOfFields fields ↔ ∃ f ∈ fields, s = f.1 ∨ s ∈ f.2.strings := by
  induction fields with
  | nil => simp [stringsOfFields]
  | cons f rest ih => simp [stringsOfFields, ih, or_assoc]

namespace Fields

@[simp] theorem get_nil (key : String) : Fields.get ([] : Fields χ) key = .null := rfl

theorem get_set_self (fields : Fields ℕ) (key : String) (value : Json ℕ) :
    (fields.set key.codePoints value).get key = value := by
  induction fields with
  | nil => rw [Fields.set, Fields.get, codes_nat, if_pos rfl]
  | cons f rest ih =>
    rw [Fields.set]
    split
    · next hk =>
      rw [Fields.get, if_pos (hk.trans (codes_nat _))]
    · next hk =>
      rw [Fields.get, if_neg fun h => hk (h.trans (codes_nat _).symm)]
      exact ih

theorem get_set_of_ne {key key' : String} (h : key ≠ key') (fields : Fields ℕ) (value : Json ℕ) :
    (fields.set key.codePoints value).get key' = fields.get key' := by
  have hne : key.codePoints ≠ key'.codePoints := fun e => h (String.codePoints_inj.mp e)
  induction fields with
  | nil => rw [Fields.set, get_nil, Fields.get, codes_nat, if_neg hne, get_nil]
  | cons f rest ih =>
    rw [Fields.set]
    split
    · next hk =>
      have hk' : codes f.1 ≠ key'.codePoints := fun e =>
        hne ((hk.trans (codes_nat _)).symm.trans e)
      rw [Fields.get, Fields.get, if_neg hk', if_neg hk']
    · rw [Fields.get, Fields.get, ih]

/-- A member that is read is one of the members, or there is none. -/
theorem get_cases (fields : Fields χ) (key : String) :
    fields.get key = .null ∨ ∃ f ∈ fields, f.2 = fields.get key := by
  induction fields with
  | nil => exact .inl rfl
  | cons f rest ih =>
    rw [Fields.get]
    split
    · exact .inr ⟨f, List.mem_cons_self, rfl⟩
    · exact ih.imp_right fun ⟨g, hg, he⟩ => ⟨g, List.mem_cons_of_mem _ hg, he⟩

theorem mem_strings_get {fields : Fields χ} {key : String} {s : List χ}
    (h : s ∈ (fields.get key).strings) : s ∈ stringsOfFields fields := by
  obtain hn | ⟨f, hf, he⟩ := fields.get_cases key
  · rw [hn] at h
    cases h
  · exact mem_stringsOfFields.mpr ⟨f, hf, .inr (he ▸ h)⟩

theorem mem_strings_set {fields : Fields χ} {key s : List χ} {value : Json χ}
    (h : s ∈ stringsOfFields (fields.set key value)) :
    s ∈ stringsOfFields fields ∨ s = key ∨ s ∈ value.strings := by
  induction fields with
  | nil => simpa [Fields.set, stringsOfFields] using h
  | cons f rest ih =>
    rw [Fields.set] at h
    split at h
    · simp only [stringsOfFields, List.mem_cons, List.mem_append] at h ⊢
      tauto
    · simp only [stringsOfFields, List.mem_cons, List.mem_append] at h ⊢
      tauto

end Fields

end Json
