import NextBallUp.Lib.Json
import NextBallUp.Lib.Numerals
import Mathlib.Data.List.Infix

/-!
# JSON texts

The decoder for JSON texts, as Python's `json.loads`, character by character. A stack holds the
arrays and objects that the text has opened.

A decoded string keeps with each character whether the text spells it as itself. No function here
looks at that mark. It is what relates a decoded string to its text: characters that stand next to
each other in the string, and are spelled as themselves, stand next to each other in the text.

## Main definitions

* `CodePoint`: a character of a decoded string
* `Scanner`, `Scanner.step`: the decoder after some characters of the text, and its next character
* `loads`: the value that a text denotes, or the error
* `Spells`: the text spells what a string has verbatim

## Main results

* `spells_of_loads`: **a text spells all strings of the value that it denotes**

## What is deliberately absent

The messages and positions of the errors.
-/

/-- A character of a decoded string. -/
structure CodePoint where
  value : ℕ
  /-- The text spells the character as itself, and not by an escape. -/
  verbatim : Bool
  deriving DecidableEq

instance : HasCode CodePoint where
  code := CodePoint.value

namespace JsonText

/-- The exceptions of `json.loads`. -/
inductive LoadsError
  | valueError
  /-- The text is nested too deeply. -/
  | recursionError
  deriving DecidableEq, Repr

/-! ### Characters -/

def hexDigit (c : ℕ) : Option ℕ :=
  if isDigit c then some (c - 48)
  else if 97 ≤ c && c ≤ 102 then some (c - 87)
  else if 65 ≤ c && c ≤ 70 then some (c - 55)
  else none

/-- The character that a backslash before `c` stands for. -/
def simpleEscape (c : ℕ) : Option ℕ :=
  if c = 34 || c = 92 || c = 47 then some c
  else if c = 98 then some 8
  else if c = 102 then some 12
  else if c = 110 then some 10
  else if c = 114 then some 13
  else if c = 116 then some 9
  else none

def isHighSurrogate (c : ℕ) : Bool := 0xD800 ≤ c && c ≤ 0xDBFF

def isLowSurrogate (c : ℕ) : Bool := 0xDC00 ≤ c && c ≤ 0xDFFF

/-- An escape by number. It completes the pair of a surrogate that was escaped just before. -/
def appendEscaped (s : List CodePoint) (c : ℕ) : List CodePoint :=
  match s.getLast? with
  | some ⟨high, false⟩ =>
    if isHighSurrogate high && isLowSurrogate c then
      s.dropLast ++ [⟨0x10000 + (high - 0xD800) * 0x400 + (c - 0xDC00), false⟩]
    else s ++ [⟨c, false⟩]
  | _ => s ++ [⟨c, false⟩]

/-! ### Numbers -/

/-- What a numeral ends with so far. -/
inductive Numeral
  | minus | zero | digits | point | fraction | exponent | exponentSign | exponentDigits
  deriving DecidableEq, Repr

/-- The first character of a numeral. -/
def Numeral.first (c : ℕ) : Option Numeral :=
  if c = 45 then some .minus
  else if c = 48 then some .zero
  else if isDigit c then some .digits
  else none

/-- The next character of a numeral, if it goes on. -/
def Numeral.step (state : Numeral) (c : ℕ) : Option Numeral :=
  let isExponent := c = 69 || c = 101
  match state with
  | .minus => if c = 48 then some .zero else if isDigit c then some .digits else none
  | .zero => if c = 46 then some .point else if isExponent then some .exponent else none
  | .digits =>
    if isDigit c then some .digits
    else if c = 46 then some .point
    else if isExponent then some .exponent
    else none
  | .point => if isDigit c then some .fraction else none
  | .fraction =>
    if isDigit c then some .fraction else if isExponent then some .exponent else none
  | .exponent =>
    if isDigit c then some .exponentDigits
    else if c = 43 || c = 45 then some .exponentSign
    else none
  | .exponentSign | .exponentDigits => if isDigit c then some .exponentDigits else none

/-- `sys.get_int_max_str_digits()` -/
def intMaxStrDigits : ℕ := 4300

/-- The value of a numeral that ends. -/
def Numeral.value (state : Numeral) (numeral : List ℕ) : Except LoadsError (Json CodePoint) :=
  match state with
  | .zero | .digits =>
    let digits := numeral.filter isDigit
    if intMaxStrDigits < digits.length then .error .valueError
    else if numeral.head? = some 45 then .ok (.int (-(ofDecimal digits : ℤ)))
    else .ok (.int (ofDecimal digits))
  | .fraction | .exponentDigits => .ok (.float numeral)
  | _ => .error .valueError

/-! ### The scanner -/

/-- Where a string is with an escape. -/
inductive Escape
  | none
  | backslash
  /-- `\u` and some digits of a number. -/
  | hex (digits : ℕ) (value : ℕ)
  deriving DecidableEq, Repr

/-- An array or an object that the text has opened. -/
inductive Frame
  | arr (items : List (Json CodePoint))
  | obj (fields : Json.Fields CodePoint)
  /-- An object whose next member has this key. -/
  | member (fields : Json.Fields CodePoint) (key : List CodePoint)

/-- What the scanner is about. -/
inductive Mode
  /-- A value is next; if it may, the array closes instead. -/
  | value (mayClose : Bool)
  /-- A key is next; if it may, the object closes instead. -/
  | key (mayClose : Bool)
  | colon
  | string (isKey : Bool) (s : List CodePoint) (escape : Escape)
  | number (numeral : List ℕ) (state : Numeral)
  | literal (rest : List ℕ) (value : Json CodePoint)
  /-- A value in an array or an object has ended. -/
  | next
  /-- The value of the text has ended. -/
  | done (value : Json CodePoint)

structure Scanner where
  stack : List Frame
  mode : Mode

namespace Scanner

/-- A value has ended. -/
def complete (stack : List Frame) (value : Json CodePoint) : Scanner :=
  match stack with
  | [] => ⟨[], .done value⟩
  | .arr items :: rest => ⟨.arr (items ++ [value]) :: rest, .next⟩
  | .member fields key :: rest => ⟨.obj (fields.set key value) :: rest, .next⟩
  | .obj fields :: rest => ⟨.obj fields :: rest, .next⟩

/-- The rest of the literal that the character begins, and its value. -/
def literalOf : ℕ → Option (List ℕ × Json CodePoint)
  | 110 => some ("ull".codePoints, .null)
  | 116 => some ("rue".codePoints, .bool true)
  | 102 => some ("alse".codePoints, .bool false)
  | 78 => some ("aN".codePoints, .float "NaN".codePoints)
  | 73 => some ("nfinity".codePoints, .float "Infinity".codePoints)
  | _ => none

/-- The first character of a value. -/
def startValue (recursionLimit : ℕ) (stack : List Frame) (c : ℕ) : Except LoadsError Scanner :=
  if c = 34 then .ok ⟨stack, .string false [] .none⟩
  else if c = 123 ∨ c = 91 then
    if recursionLimit ≤ stack.length then .error .recursionError
    else if c = 123 then .ok ⟨.obj [] :: stack, .key true⟩
    else .ok ⟨.arr [] :: stack, .value true⟩
  else
    match literalOf c, Numeral.first c with
    | some (rest, value), _ => .ok ⟨stack, .literal rest value⟩
    | none, some state => .ok ⟨stack, .number [c] state⟩
    | none, none => .error .valueError

/-- The first character after a value in an array or an object. -/
def afterValue (stack : List Frame) (c : ℕ) : Except LoadsError Scanner :=
  if isSpace c then .ok ⟨stack, .next⟩
  else
    match stack with
    | .arr items :: rest =>
      if c = 44 then .ok ⟨stack, .value false⟩
      else if c = 93 then .ok (complete rest (.arr items))
      else .error .valueError
    | .obj fields :: rest =>
      if c = 44 then .ok ⟨stack, .key false⟩
      else if c = 125 then .ok (complete rest (.obj fields))
      else .error .valueError
    | _ => .error .valueError

/-- The next character of a string. -/
def stepString (stack : List Frame) (isKey : Bool) (s : List CodePoint) (escape : Escape)
    (c : ℕ) : Except LoadsError Scanner :=
  match escape with
  | .none =>
    if c = 34 then
      match isKey, stack with
      | true, .obj fields :: rest => .ok ⟨.member fields s :: rest, .colon⟩
      | true, _ => .error .valueError
      | false, _ => .ok (complete stack (.str s))
    else if c = 92 then .ok ⟨stack, .string isKey s .backslash⟩
    else if c < 32 then .error .valueError
    else .ok ⟨stack, .string isKey (s ++ [⟨c, true⟩]) .none⟩
  | .backslash =>
    if c = 117 then .ok ⟨stack, .string isKey s (.hex 0 0)⟩
    else
      match simpleEscape c with
      | some c' => .ok ⟨stack, .string isKey (s ++ [⟨c', false⟩]) .none⟩
      | none => .error .valueError
  | .hex digits value =>
    match hexDigit c with
    | some d =>
      if digits = 3 then .ok ⟨stack, .string isKey (appendEscaped s (16 * value + d)) .none⟩
      else .ok ⟨stack, .string isKey s (.hex (digits + 1) (16 * value + d))⟩
    | none => .error .valueError

/-- The next character of the text. -/
def step (recursionLimit : ℕ) (scanner : Scanner) (c : ℕ) : Except LoadsError Scanner :=
  let stack := scanner.stack
  match scanner.mode with
  | .value mayClose =>
    if isSpace c then .ok scanner
    else
      match mayClose && c = 93, stack with
      | true, .arr items :: rest => .ok (complete rest (.arr items))
      | _, _ => startValue recursionLimit stack c
  | .key mayClose =>
    if isSpace c then .ok scanner
    else if c = 34 then .ok ⟨stack, .string true [] .none⟩
    else
      match mayClose && c = 125, stack with
      | true, .obj fields :: rest => .ok (complete rest (.obj fields))
      | _, _ => .error .valueError
  | .colon =>
    if isSpace c then .ok scanner
    else if c = 58 then .ok ⟨stack, .value false⟩
    else .error .valueError
  | .string isKey s escape => stepString stack isKey s escape c
  | .number numeral state =>
    match state.step c with
    | some state' => .ok ⟨stack, .number (numeral ++ [c]) state'⟩
    | none =>
      if state = .minus && c = 73 then
        .ok ⟨stack, .literal "nfinity".codePoints (.float "-Infinity".codePoints)⟩
      else
        match state.value numeral with
        | .ok value =>
          match complete stack value with
          | ⟨[], .done value⟩ => if isSpace c then .ok ⟨[], .done value⟩ else .error .valueError
          | ⟨stack', _⟩ => afterValue stack' c
        | .error e => .error e
  | .literal rest value =>
    match rest with
    | d :: rest' =>
      if c = d then
        if rest' = [] then .ok (complete stack value) else .ok ⟨stack, .literal rest' value⟩
      else .error .valueError
    | [] => .error .valueError
  | .next => afterValue stack c
  | .done _ => if isSpace c then .ok scanner else .error .valueError

/-- The scanner before the text. -/
def start : Scanner := ⟨[], .value false⟩

/-- The characters of a text one after the other. -/
def run (recursionLimit : ℕ) : Scanner → List ℕ → Except LoadsError Scanner
  | scanner, [] => .ok scanner
  | scanner, c :: rest =>
    match scanner.step recursionLimit c with
    | .ok scanner' => run recursionLimit scanner' rest
    | .error e => .error e

/-- What the text denotes if it ends here. -/
def result (scanner : Scanner) : Except LoadsError (Json CodePoint) :=
  match scanner.stack, scanner.mode with
  | [], .done value => .ok value
  | [], .number numeral state => state.value numeral
  | _, _ => .error .valueError

end Scanner

/-- `json.loads(text)` -/
def loads (recursionLimit : ℕ) (text : List ℕ) : Except LoadsError (Json CodePoint) :=
  if text.head? = some 0xFEFF then .error .valueError
  else
    match Scanner.start.run recursionLimit text with
    | .ok scanner => scanner.result
    | .error e => .error e

/-! ### What a text spells -/

/-- No character is written as an escape. -/
def Verbatim (s : List CodePoint) : Prop := ∀ c ∈ s, c.verbatim = true

/-- Characters that stand next to each other in the string, all of them verbatim, stand next to each
other in the text. -/
def Spells (text : List ℕ) (s : List CodePoint) : Prop :=
  ∀ y, y <:+: s → Verbatim y → codes y <:+: text

/-- The text ends with what the string ends with verbatim. -/
def EndsWith (text : List ℕ) (s : List CodePoint) : Prop :=
  ∀ y, y <:+ s → Verbatim y → codes y <:+ text

variable {text : List ℕ} {s : List CodePoint} {c : ℕ}

theorem Spells.append (h : Spells text s) (c : ℕ) : Spells (text ++ [c]) s := fun y hy hv =>
  (h y hy hv).trans (List.prefix_append text [c]).isInfix

theorem spells_nil (text : List ℕ) : Spells text [] := by
  intro y hy _
  rw [List.infix_nil.mp hy]
  exact List.nil_infix

theorem endsWith_nil (text : List ℕ) : EndsWith text [] := by
  intro y hy _
  rw [List.suffix_nil.mp hy]
  exact List.nil_suffix

/-- An infix of a string with one more character lies in the string, or ends with the character. -/
theorem infix_concat_cases {y : List CodePoint} {d : CodePoint} (h : y <:+: s ++ [d]) :
    y <:+: s ∨ ∃ z, z <:+ s ∧ y = z ++ [d] := by
  rcases List.infix_concat_iff.mp h with hsuffix | hinfix
  · rcases List.suffix_concat_iff.mp hsuffix with rfl | ⟨z, rfl, hz⟩
    · exact .inl List.nil_infix
    · exact .inr ⟨z, hz, rfl⟩
  · exact .inl hinfix

theorem Spells.concat_verbatim (h : Spells text s) (he : EndsWith text s) :
    Spells (text ++ [c]) (s ++ [⟨c, true⟩]) := by
  intro y hy hv
  rcases infix_concat_cases hy with hy | ⟨z, hz, rfl⟩
  · exact h.append c y hy hv
  · rw [codes_append]
    have hz' := he z hz fun d hd => hv d (List.mem_append_left _ hd)
    exact ((List.suffix_append_self_iff).mpr hz').isInfix

theorem EndsWith.concat_verbatim (he : EndsWith text s) :
    EndsWith (text ++ [c]) (s ++ [⟨c, true⟩]) := by
  intro y hy hv
  rcases List.suffix_concat_iff.mp hy with rfl | ⟨z, rfl, hz⟩
  · exact List.nil_suffix
  · rw [codes_append]
    have hz' := he z hz fun d hd => hv d (List.mem_append_left _ hd)
    exact (List.suffix_append_self_iff).mpr hz'

/-- An escape interrupts what is verbatim. -/
theorem Spells.concat_escaped (h : Spells text s) (d : ℕ) : Spells text (s ++ [⟨d, false⟩]) := by
  intro y hy hv
  rcases infix_concat_cases hy with hy | ⟨z, hz, rfl⟩
  · exact h y hy hv
  · cases hv ⟨d, false⟩ (List.mem_append_right _ (List.mem_singleton_self _))

theorem endsWith_concat_escaped (text : List ℕ) (s : List CodePoint) (d : ℕ) :
    EndsWith text (s ++ [⟨d, false⟩]) := by
  intro y hy hv
  rcases List.suffix_concat_iff.mp hy with rfl | ⟨z, rfl, hz⟩
  · exact List.nil_suffix
  · cases hv ⟨d, false⟩ (List.mem_append_right _ (List.mem_singleton_self _))

theorem appendEscaped_cases (s : List CodePoint) (c : ℕ) :
    ∃ t d, appendEscaped s c = t ++ [⟨d, false⟩] ∧ t <:+: s := by
  unfold appendEscaped
  split
  · split
    · exact ⟨_, _, rfl, (List.dropLast_prefix s).isInfix⟩
    · exact ⟨_, _, rfl, List.infix_rfl⟩
  · exact ⟨_, _, rfl, List.infix_rfl⟩

theorem Spells.part {t : List CodePoint} (h : Spells text s) (ht : t <:+: s) : Spells text t :=
  fun y hy hv => h y (hy.trans ht) hv

/-- The text spells all strings of the value. -/
def SpellsValue (text : List ℕ) (value : Json CodePoint) : Prop :=
  ∀ s ∈ value.strings, Spells text s

theorem SpellsValue.append {value : Json CodePoint} (h : SpellsValue text value) (c : ℕ) :
    SpellsValue (text ++ [c]) value := fun s hs => (h s hs).append c

theorem spellsValue_of_strings {value : Json CodePoint} (h : value.strings = []) :
    SpellsValue text value := by
  intro s hs
  rw [h] at hs
  exact (List.not_mem_nil hs).elim

theorem Numeral.strings_value {state : Numeral} {numeral : List ℕ} {value : Json CodePoint}
    (h : state.value numeral = .ok value) : value.strings = [] := by
  unfold Numeral.value at h
  dsimp only at h
  split at h
  · split_ifs at h <;> cases h <;> rfl
  · split_ifs at h <;> cases h <;> rfl
  · cases h
    rfl
  · cases h
    rfl
  · cases h

def SpellsFields (text : List ℕ) (fields : Json.Fields CodePoint) : Prop :=
  ∀ s ∈ Json.stringsOfFields fields, Spells text s

namespace Frame

def Spelled (text : List ℕ) : Frame → Prop
  | .arr items => ∀ value ∈ items, SpellsValue text value
  | .obj fields => SpellsFields text fields
  | .member fields key => SpellsFields text fields ∧ Spells text key

theorem Spelled.append {frame : Frame} (h : frame.Spelled text) (c : ℕ) :
    frame.Spelled (text ++ [c]) := by
  cases frame with
  | arr items => exact fun value hv s hs => (h value hv s hs).append c
  | obj fields => exact fun s hs => (h s hs).append c
  | member fields key => exact ⟨fun s hs => (h.1 s hs).append c, h.2.append c⟩

end Frame

/-- What the scanner is about in the mode is spelled by the text so far. -/
def Mode.Spelled (text : List ℕ) : Mode → Prop
  | .string _ s escape => Spells text s ∧ (escape = .none → EndsWith text s)
  | .literal _ v => SpellsValue text v
  | .done v => SpellsValue text v
  | _ => True

/-- The text so far spells all strings that the scanner holds. -/
structure Scanner.Spelled (text : List ℕ) (scanner : Scanner) : Prop where
  stack : ∀ frame ∈ scanner.stack, frame.Spelled text
  mode : scanner.mode.Spelled text

namespace Scanner

variable {stack : List Frame} {value : Json CodePoint} {scanner scanner' : Scanner}
  {recursionLimit : ℕ}

theorem spelled_complete (h : ∀ frame ∈ stack, frame.Spelled text) (hv : SpellsValue text value) :
    (complete stack value).Spelled text := by
  unfold complete
  split
  · exact ⟨h, hv⟩
  · next items rest =>
    refine ⟨fun frame hf => ?_, trivial⟩
    rcases List.mem_cons.mp hf with rfl | hf
    · intro v hmem
      rcases List.mem_append.mp hmem with hmem | hmem
      · exact h _ List.mem_cons_self v hmem
      · rw [List.mem_singleton.mp hmem]
        exact hv
    · exact h frame (List.mem_cons_of_mem _ hf)
  · next fields key rest =>
    obtain ⟨hfields, hkey⟩ := h _ List.mem_cons_self
    refine ⟨fun frame hf => ?_, trivial⟩
    rcases List.mem_cons.mp hf with rfl | hf
    · intro s hs
      rcases Json.Fields.mem_strings_set hs with hs | rfl | hs
      · exact hfields s hs
      · exact hkey
      · exact hv s hs
    · exact h frame (List.mem_cons_of_mem _ hf)
  · exact ⟨h, trivial⟩

theorem strings_of_literalOf {rest : List ℕ} (h : literalOf c = some (rest, value)) :
    value.strings = [] := by
  unfold literalOf at h
  split at h <;> cases h <;> rfl

theorem spelled_startValue (h : ∀ frame ∈ stack, frame.Spelled text)
    (hs : startValue recursionLimit stack c = .ok scanner) : scanner.Spelled text := by
  unfold startValue at hs
  split_ifs at hs
  · cases hs
    exact ⟨h, spells_nil text, fun _ => endsWith_nil text⟩
  · cases hs
    exact ⟨List.forall_mem_cons.mpr ⟨fun s hs => (List.not_mem_nil hs).elim, h⟩, trivial⟩
  · cases hs
    exact ⟨List.forall_mem_cons.mpr ⟨fun v hv => (List.not_mem_nil hv).elim, h⟩, trivial⟩
  · split at hs
    · next hl =>
      cases hs
      exact ⟨h, spellsValue_of_strings (strings_of_literalOf hl)⟩
    · cases hs
      exact ⟨h, trivial⟩
    · cases hs

theorem spelled_afterValue (h : ∀ frame ∈ stack, frame.Spelled text)
    (hs : afterValue stack c = .ok scanner) : scanner.Spelled text := by
  unfold afterValue at hs
  split at hs
  · cases hs
    exact ⟨h, trivial⟩
  · split at hs
    · next items rest =>
      obtain ⟨hitems, hrest⟩ := List.forall_mem_cons.mp h
      split_ifs at hs <;> cases hs
      · exact ⟨h, trivial⟩
      · refine spelled_complete hrest fun s hs => ?_
        obtain ⟨v, hv, hs⟩ := Json.mem_stringsOfItems.mp hs
        exact hitems v hv s hs
    · next fields rest =>
      obtain ⟨hfields, hrest⟩ := List.forall_mem_cons.mp h
      split_ifs at hs <;> cases hs
      · exact ⟨h, trivial⟩
      · exact spelled_complete hrest hfields
    · cases hs

theorem spelled_stepString {isKey : Bool} {escape : Escape}
    (h : ∀ frame ∈ stack, frame.Spelled text) (hstring : Spells text s)
    (hend : escape = .none → EndsWith text s)
    (hs : stepString stack isKey s escape c = .ok scanner) : scanner.Spelled (text ++ [c]) := by
  have h' : ∀ frame ∈ stack, frame.Spelled (text ++ [c]) := fun frame hf => (h frame hf).append c
  have hstring' := hstring.append c
  unfold stepString at hs
  cases escape with
  | none =>
    dsimp only at hs
    split_ifs at hs
    · split at hs
      · next fields rest =>
        cases hs
        obtain ⟨hfields, hrest⟩ := List.forall_mem_cons.mp h'
        exact ⟨List.forall_mem_cons.mpr ⟨⟨hfields, hstring'⟩, hrest⟩, trivial⟩
      · cases hs
      · cases hs
        refine spelled_complete h' fun t ht => ?_
        rw [List.mem_singleton.mp ht]
        exact hstring'
    · cases hs
      exact ⟨h', hstring', fun he => by cases he⟩
    · cases hs
      exact ⟨h', hstring.concat_verbatim (hend rfl), fun _ => (hend rfl).concat_verbatim⟩
  | backslash =>
    dsimp only at hs
    split at hs
    · cases hs
      exact ⟨h', hstring', fun he => by cases he⟩
    · split at hs
      · cases hs
        exact ⟨h', hstring'.concat_escaped _, fun _ => endsWith_concat_escaped _ _ _⟩
      · cases hs
  | hex digits v =>
    dsimp only at hs
    split at hs
    · next d hd =>
      split at hs
      · cases hs
        obtain ⟨t, e, hte, ht⟩ := appendEscaped_cases s (16 * v + d)
        rw [hte]
        exact ⟨h', (hstring'.part ht).concat_escaped e, fun _ => endsWith_concat_escaped _ _ _⟩
      · cases hs
        exact ⟨h', hstring', fun he => by cases he⟩
    · cases hs

/-- **One character more.** The text so far spells all strings that the scanner holds. -/
theorem Spelled.step (h : scanner.Spelled text)
    (hs : scanner.step recursionLimit c = .ok scanner') : scanner'.Spelled (text ++ [c]) := by
  obtain ⟨stack, mode⟩ := scanner
  obtain ⟨hstack, hmode⟩ := h
  have hstack' : ∀ frame ∈ stack, frame.Spelled (text ++ [c]) := fun frame hf =>
    (hstack frame hf).append c
  unfold Scanner.step at hs
  cases mode with
  | value mayClose =>
    dsimp only at hs
    split at hs
    · cases hs
      exact ⟨hstack', trivial⟩
    · split at hs
      · next items rest _ =>
        cases hs
        obtain ⟨hitems, hrest⟩ := List.forall_mem_cons.mp hstack'
        refine spelled_complete hrest fun s hs => ?_
        obtain ⟨v, hv, hs⟩ := Json.mem_stringsOfItems.mp hs
        exact hitems v hv s hs
      · exact spelled_startValue hstack' hs
  | key mayClose =>
    dsimp only at hs
    split at hs
    · cases hs
      exact ⟨hstack', trivial⟩
    · split at hs
      · cases hs
        exact ⟨hstack', spells_nil _, fun _ => endsWith_nil _⟩
      · split at hs
        · cases hs
          obtain ⟨hfields, hrest⟩ := List.forall_mem_cons.mp hstack'
          exact spelled_complete hrest hfields
        · cases hs
  | colon =>
    dsimp only at hs
    split_ifs at hs <;> cases hs <;> exact ⟨hstack', trivial⟩
  | string isKey s escape => exact spelled_stepString hstack hmode.1 hmode.2 hs
  | number numeral state =>
    dsimp only at hs
    split at hs
    · cases hs
      exact ⟨hstack', trivial⟩
    · split at hs
      · cases hs
        exact ⟨hstack', spellsValue_of_strings rfl⟩
      · split at hs
        · next v hv =>
          have hc := spelled_complete hstack'
            (spellsValue_of_strings (Numeral.strings_value hv))
          split at hs
          · next hdone =>
            rw [hdone] at hc
            split at hs <;> cases hs
            exact hc
          · next hdone =>
            rw [hdone] at hc
            exact spelled_afterValue hc.stack hs
        · cases hs
  | literal rest v =>
    dsimp only at hs
    split at hs
    · split_ifs at hs <;> cases hs
      · exact spelled_complete hstack' (SpellsValue.append hmode c)
      · exact ⟨hstack', SpellsValue.append hmode c⟩
    · cases hs
  | next => exact spelled_afterValue hstack' hs
  | done v =>
    dsimp only at hs
    split at hs <;> cases hs
    exact ⟨hstack', SpellsValue.append hmode c⟩

theorem Spelled.run {rest : List ℕ} (h : scanner.Spelled text)
    (hs : scanner.run recursionLimit rest = .ok scanner') : scanner'.Spelled (text ++ rest) := by
  induction rest generalizing scanner text with
  | nil =>
    cases hs
    rwa [List.append_nil]
  | cons c rest ih =>
    rw [Scanner.run] at hs
    split at hs
    · next hstep =>
      rw [List.append_cons]
      exact ih (h.step hstep) hs
    · cases hs

theorem spelled_start : start.Spelled [] :=
  ⟨fun _ hf => (List.not_mem_nil hf).elim, trivial⟩

theorem Spelled.result (h : scanner.Spelled text) (hr : scanner.result = .ok value) :
    SpellsValue text value := by
  obtain ⟨stack, mode⟩ := scanner
  unfold Scanner.result at hr
  split at hr
  · next hmode =>
    cases hr
    have hm := h.mode
    rwa [hmode] at hm
  · exact spellsValue_of_strings (Numeral.strings_value hr)
  · cases hr

end Scanner

/-- **A text spells all strings of the value that it denotes.** -/
theorem spells_of_loads {recursionLimit : ℕ} {value : Json CodePoint}
    (h : loads recursionLimit text = .ok value) (hs : s ∈ value.strings) : Spells text s := by
  unfold loads at h
  split at h
  · cases h
  · split at h
    · next hrun => exact (Scanner.spelled_start.run hrun).result h s hs
    · cases h

end JsonText
