import NextBallUp.Lib.JsonText

/-!
# Strings

Python's functions on strings, over code points: lower case, white space, and how values are
written. They look up properties of characters in the Unicode database, which is a parameter.

## Main definitions

* `Unicode`: the database
* `Unicode.lower`: `str.lower()`, with the two lower cases of the Greek letter sigma
* `Unicode.str`, `Unicode.repr`: `str(value)` and `repr(value)` of a decoded JSON value

## Main results

* `Unicode.infix_lower`: **lower case finds in a text what it finds in a part of the text**, unless
  that contains a sigma
* `Unicode.spells_str`: a text that spells the strings of a value spells how the value is written
-/

open JsonText

/-- What is known of each code point. -/
structure Unicode where
  /-- The lower case, which may be several characters. -/
  lowerCase : ℕ → List ℕ
  isCased : ℕ → Bool
  isCaseIgnorable : ℕ → Bool
  isSpace : ℕ → Bool
  isPrintable : ℕ → Bool
  /-- How the number is written that a numeral with a fraction or an exponent denotes. -/
  floatRepr : List ℕ → List ℕ

namespace Unicode

variable (U : Unicode)

/-! ### Lower case -/

/-- The capital sigma. -/
def capitalSigma : ℕ := 0x3A3

/-- The lower case of a sigma, except at the end of a word. -/
def smallSigma : ℕ := 0x3C3

/-- The lower case of a sigma at the end of a word. -/
def finalSigma : ℕ := 0x3C2

/-- A cased letter comes before, and none comes after. -/
def endsWord (before after : List ℕ) : Bool :=
  (before.find? fun c => !U.isCaseIgnorable c).any U.isCased &&
    !(after.find? fun c => !U.isCaseIgnorable c).any U.isCased

/-- The lower case of the rest of a text; what comes before it is given from its end. -/
def lowerAfter : List ℕ → List ℕ → List ℕ
  | _, [] => []
  | before, c :: after =>
    (if c = capitalSigma then [if U.endsWord before after then finalSigma else smallSigma]
      else U.lowerCase c) ++ lowerAfter (c :: before) after

/-- `text.lower()` -/
def lower (text : List ℕ) : List ℕ := U.lowerAfter [] text

/-- `text.strip() == ""` -/
def isBlank (text : List ℕ) : Bool := text.all U.isSpace

/-- The small sigmas as one character. -/
def foldSigma (c : ℕ) : ℕ := if c = finalSigma then smallSigma else c

/-- The lower case of a character without its context, with the small sigmas as one. -/
def foldCase (c : ℕ) : List ℕ :=
  if c = capitalSigma then [smallSigma] else (U.lowerCase c).map foldSigma

theorem map_foldSigma_lowerAfter (before text : List ℕ) :
    (U.lowerAfter before text).map foldSigma = text.flatMap U.foldCase := by
  induction text generalizing before with
  | nil => rfl
  | cons c after ih =>
    rw [lowerAfter, List.map_append, ih, List.flatMap_cons]
    congr 1
    unfold foldCase
    split
    · split <;> rfl
    · rfl

/-- A text that has no small sigma is found where it is found once the sigmas are one. -/
theorem infix_of_infix_map_foldSigma {token l : List ℕ} (hs : smallSigma ∉ token)
    (h : token <:+: l.map foldSigma) : token <:+: l := by
  obtain ⟨a, b, hab⟩ := h
  obtain ⟨l₁, l₃, rfl, hl, hb⟩ := List.append_eq_map_iff.mp hab
  obtain ⟨l₁, l₂, rfl, ha, ht⟩ := List.append_eq_map_iff.mp hl.symm
  have hid : ∀ c ∈ l₂, foldSigma c = c := by
    intro c hc
    unfold foldSigma
    split
    · next hf =>
      have hmem : foldSigma c ∈ token := ht ▸ List.mem_map_of_mem hc
      rw [foldSigma, if_pos hf] at hmem
      exact (hs hmem).elim
    · rfl
  have hl₂ : l₂ = token := by
    rw [← ht, List.map_congr_left hid, List.map_id']
  rw [← hl₂]
  exact ⟨l₁, l₃, rfl⟩

/-- **Lower case finds in a text what it finds in a part of the text.** -/
theorem infix_lower {token part text : List ℕ} (hs : smallSigma ∉ token) (hf : finalSigma ∉ token)
    (hpart : part <:+: text) (h : token <:+: U.lower part) : token <:+: U.lower text := by
  refine infix_of_infix_map_foldSigma hs ?_
  rw [lower, map_foldSigma_lowerAfter]
  have hid : ∀ c ∈ token, foldSigma c = c := by
    intro c hc
    refine if_neg fun he => hf ?_
    rwa [← he]
  have htoken : token.map foldSigma = token := by
    rw [List.map_congr_left hid, List.map_id']
  have hfold := h.map foldSigma
  rw [htoken, lower, map_foldSigma_lowerAfter] at hfold
  exact hfold.trans (hpart.flatMap U.foldCase)
/-- ASCII: of the other characters, all are printable and none has a case. -/
def ascii : Unicode where
  lowerCase c := [if 65 ≤ c && c ≤ 90 then c + 32 else c]
  isCased c := (65 ≤ c && c ≤ 90) || (97 ≤ c && c ≤ 122)
  isCaseIgnorable c := c = 39 || c = 46 || c = 58 || c = 94 || c = 96
  isSpace c := c = 32 || (9 ≤ c && c ≤ 13) || (28 ≤ c && c ≤ 31)
  isPrintable c := 32 ≤ c && c ≠ 127
  floatRepr numeral := numeral

/-! ### How values are written -/

/-- A text that is written for a value. The JSON text does not spell it. -/
def generated (s : List ℕ) : List CodePoint := s.map fun c => ⟨c, false⟩

/-- A number in hexadecimal digits. -/
def hexadecimal (digits n : ℕ) : List ℕ :=
  ((Nat.toDigits 16 n).leftpad digits '0').map Char.toNat

/-- A character in `repr(text)`. -/
def reprChar (quote : ℕ) (c : CodePoint) : List CodePoint :=
  if c.value = quote ∨ c.value = 92 then generated [92, c.value]
  else if c.value = 9 then generated "\\t".codePoints
  else if c.value = 10 then generated "\\n".codePoints
  else if c.value = 13 then generated "\\r".codePoints
  else if U.isPrintable c.value then [c]
  else if c.value < 0x100 then generated ("\\x".codePoints ++ hexadecimal 2 c.value)
  else if c.value < 0x10000 then generated ("\\u".codePoints ++ hexadecimal 4 c.value)
  else generated ("\\U".codePoints ++ hexadecimal 8 c.value)

/-- `repr(text)`: in single quotes, unless it has some and no double quotes. -/
def reprStr (s : List CodePoint) : List CodePoint :=
  let quote := if 39 ∈ codes s ∧ 34 ∉ codes s then 34 else 39
  generated [quote] ++ s.flatMap (U.reprChar quote) ++ generated [quote]

mutual

/-- `repr(value)` -/
def repr : Json CodePoint → List CodePoint
  | .null => generated "None".codePoints
  | .bool b => generated (if b then "True" else "False").codePoints
  | .int n => generated (toString n).codePoints
  | .float numeral => generated (U.floatRepr numeral)
  | .str s => U.reprStr s
  | .arr items => generated "[".codePoints ++ reprItems items ++ generated "]".codePoints
  | .obj fields => generated "\x7b".codePoints ++ reprFields fields ++ generated "\x7d".codePoints

def reprItems : List (Json CodePoint) → List CodePoint
  | [] => []
  | [value] => repr value
  | value :: rest => repr value ++ generated ", ".codePoints ++ reprItems rest

def reprFields : List (List CodePoint × Json CodePoint) → List CodePoint
  | [] => []
  | [(key, value)] => U.reprStr key ++ generated ": ".codePoints ++ repr value
  | (key, value) :: rest =>
    U.reprStr key ++ generated ": ".codePoints ++ repr value ++ generated ", ".codePoints ++
      reprFields rest

end

/-- `str(value)` -/
def str : Json CodePoint → List CodePoint
  | .str s => s
  | value => U.repr value

/-! ### What is spelled of a value that is written -/

section Spelled

variable {text : List ℕ} {a b y : List CodePoint} {d : ℕ}

theorem prefix_of_verbatim (hv : Verbatim y) (h : y <+: a ++ ⟨d, false⟩ :: b) : y <+: a := by
  induction a generalizing y with
  | nil =>
    rcases List.prefix_cons_iff.mp h with rfl | ⟨z, rfl, -⟩
    · exact List.nil_prefix
    · cases hv _ List.mem_cons_self
  | cons c a ih =>
    rcases List.prefix_cons_iff.mp h with rfl | ⟨z, rfl, hz⟩
    · exact List.nil_prefix
    · exact List.cons_prefix_cons.mpr ⟨rfl, ih (fun e he => hv e (List.mem_cons_of_mem _ he)) hz⟩

/-- What is verbatim lies on one side of a character that is not. -/
theorem infix_of_verbatim (hv : Verbatim y) (h : y <:+: a ++ ⟨d, false⟩ :: b) :
    y <:+: a ∨ y <:+: b := by
  induction a with
  | nil =>
    rcases List.infix_cons_iff.mp h with hp | hi
    · exact .inl (prefix_of_verbatim (a := []) hv hp).isInfix
    · exact .inr hi
  | cons c a ih =>
    rcases List.infix_cons_iff.mp h with hp | hi
    · exact .inl (prefix_of_verbatim (a := c :: a) hv hp).isInfix
    · exact (ih hi).imp_left fun hy => hy.trans (List.suffix_cons c a).isInfix

theorem spells_interrupted (ha : Spells text a) (hb : Spells text b) (d : ℕ) :
    Spells text (a ++ ⟨d, false⟩ :: b) := by
  intro y hy hv
  rcases infix_of_verbatim hv hy with hy | hy
  · exact ha y hy hv
  · exact hb y hy hv

/-- Nothing verbatim begins in a text that is written for a value. -/
theorem infix_of_infix_generated_append (hv : Verbatim y) {g : List ℕ}
    (h : y <:+: generated g ++ b) : y <:+: b := by
  induction g with
  | nil => exact h
  | cons d g ih =>
    rcases infix_of_verbatim (a := []) hv h with hnil | h
    · rw [List.infix_nil.mp hnil]
      exact List.nil_infix
    · exact ih h

theorem spells_generated_append (hb : Spells text b) (g : List ℕ) :
    Spells text (generated g ++ b) :=
  fun y hy hv => hb y (infix_of_infix_generated_append hv hy) hv

theorem spells_generated (text g : List ℕ) : Spells text (generated g) := by
  have h := spells_generated_append (spells_nil text) g
  rwa [List.append_nil] at h

/-- Something that is written between two texts keeps them apart. -/
theorem spells_append_generated (ha : Spells text a) (hb : Spells text b) {g : List ℕ}
    (hg : g ≠ []) : Spells text (a ++ generated g ++ b) := by
  cases g with
  | nil => exact (hg rfl).elim
  | cons d g =>
    rw [List.append_assoc]
    exact spells_interrupted ha (spells_generated_append hb g) d

/-- Each character is kept, or it is written in another way. -/
theorem reprChar_cases (quote : ℕ) (c : CodePoint) :
    U.reprChar quote c = [c] ∨ ∃ d g, U.reprChar quote c = generated (d :: g) := by
  unfold reprChar
  split_ifs
  · exact .inr ⟨_, _, rfl⟩
  · exact .inr ⟨_, _, rfl⟩
  · exact .inr ⟨_, _, rfl⟩
  · exact .inr ⟨_, _, rfl⟩
  · exact .inl rfl
  · exact .inr ⟨_, _, rfl⟩
  · exact .inr ⟨_, _, rfl⟩
  · exact .inr ⟨_, _, rfl⟩

theorem prefix_of_prefix_repr {s : List CodePoint} {quote : ℕ} (hv : Verbatim y)
    (h : y <+: s.flatMap (U.reprChar quote)) : y <+: s := by
  induction s generalizing y with
  | nil => exact h
  | cons c s ih =>
    rw [List.flatMap_cons] at h
    rcases U.reprChar_cases quote c with hc | ⟨d, g, hc⟩
    · rw [hc] at h
      rcases List.prefix_cons_iff.mp h with rfl | ⟨z, rfl, hz⟩
      · exact List.nil_prefix
      · exact List.cons_prefix_cons.mpr
          ⟨rfl, ih (fun e he => hv e (List.mem_cons_of_mem _ he)) hz⟩
    · rw [hc] at h
      rw [List.prefix_nil.mp (prefix_of_verbatim (a := []) hv h)]
      exact List.nil_prefix

theorem infix_of_infix_repr {s : List CodePoint} {quote : ℕ} (hv : Verbatim y)
    (h : y <:+: s.flatMap (U.reprChar quote)) : y <:+: s := by
  induction s with
  | nil => exact h
  | cons c s ih =>
    have hs : s <:+: c :: s := (List.suffix_cons c s).isInfix
    rcases U.reprChar_cases quote c with hc | ⟨d, g, hc⟩
    · rw [List.flatMap_cons, hc] at h
      rcases List.infix_cons_iff.mp h with hp | hi
      · refine (@prefix_of_prefix_repr U y (c :: s) quote hv ?_).isInfix
        rwa [List.flatMap_cons, hc]
      · exact (ih hi).trans hs
    · rw [List.flatMap_cons, hc] at h
      exact (ih (infix_of_infix_generated_append hv h)).trans hs

theorem spells_reprStr {s : List CodePoint} (h : Spells text s) : Spells text (U.reprStr s) := by
  have hquoted : ∀ quote, Spells text
      (generated [quote] ++ s.flatMap (U.reprChar quote) ++ generated [quote]) := by
    intro quote
    rw [List.append_assoc]
    refine spells_generated_append ?_ _
    have hs : Spells text (s.flatMap (U.reprChar quote)) :=
      fun y hy hv => h y (U.infix_of_infix_repr hv hy) hv
    exact spells_interrupted hs (spells_nil text) quote
  exact hquoted _

mutual

theorem spells_repr : ∀ value : Json CodePoint, SpellsValue text value → Spells text (U.repr value)
  | .null, _ | .bool _, _ | .int _, _ | .float _, _ => spells_generated text _
  | .str s, h => U.spells_reprStr (h s List.mem_cons_self)
  | .arr items, h => by
    rw [repr, List.append_assoc]
    refine spells_generated_append ?_ _
    have hitems := spells_reprItems items h
    have h := spells_append_generated hitems (spells_nil text) (g := "]".codePoints) (by decide)
    rwa [List.append_nil] at h
  | .obj fields, h => by
    rw [repr, List.append_assoc]
    refine spells_generated_append ?_ _
    have hfields := spells_reprFields fields h
    have h := spells_append_generated hfields (spells_nil text) (g := "\x7d".codePoints) (by decide)
    rwa [List.append_nil] at h

theorem spells_reprItems : ∀ items : List (Json CodePoint),
    (∀ s ∈ Json.stringsOfItems items, Spells text s) → Spells text (U.reprItems items)
  | [], _ => spells_nil text
  | [value], h => spells_repr value fun s hs => h s (List.mem_append_left _ hs)
  | value :: value' :: rest, h =>
    spells_append_generated (spells_repr value fun s hs => h s (List.mem_append_left _ hs))
      (spells_reprItems (value' :: rest) fun s hs => h s (List.mem_append_right _ hs))
      (g := ", ".codePoints) (by decide)

theorem spells_reprFields : ∀ fields : List (List CodePoint × Json CodePoint),
    (∀ s ∈ Json.stringsOfFields fields, Spells text s) → Spells text (U.reprFields fields)
  | [], _ => spells_nil text
  | [(key, value)], h =>
    spells_append_generated (U.spells_reprStr (h key List.mem_cons_self))
      (spells_repr value fun s hs => h s (List.mem_cons_of_mem _ (List.mem_append_left _ hs)))
      (g := ": ".codePoints) (by decide)
  | (key, value) :: f :: rest, h =>
    spells_append_generated
      (spells_append_generated (U.spells_reprStr (h key List.mem_cons_self))
        (spells_repr value fun s hs => h s (List.mem_cons_of_mem _ (List.mem_append_left _ hs)))
        (g := ": ".codePoints) (by decide))
      (spells_reprFields (f :: rest) fun s hs =>
        h s (List.mem_cons_of_mem _ (List.mem_append_right _ hs)))
      (g := ", ".codePoints) (by decide)

end

/-- A text that spells the strings of a value spells how the value is written. -/
theorem spells_str {value : Json CodePoint} (h : SpellsValue text value) :
    Spells text (U.str value) := by
  cases value with
  | str s => exact h s List.mem_cons_self
  | _ => exact U.spells_repr _ h

end Spelled

end Unicode
