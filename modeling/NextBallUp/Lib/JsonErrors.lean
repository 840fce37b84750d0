import NextBallUp.Lib.JsonText

/-!
# The exceptions of the JSON decoder

A text that is no JSON raises a `JSONDecodeError`. Two other exceptions come before the decoder
knows whether it is: a `ValueError` for an integer with too many digits, and a `RecursionError` for
a value that is nested too deeply.

## Main definitions

* `LoadsException`, `loadsRaising`: the decoder, with the classes of its exceptions
* `HasLongInteger`, `OpensTooDeep`: the two kinds of texts

## Main results

* `mapError_loadsRaising`: it is `loads`
* `loadsRaising_eq_valueError_iff`, `loadsRaising_eq_recursionError_iff`: **which texts raise the
  other two exceptions**
-/

namespace JsonText

/-- The classes of the exceptions of `json.loads`. -/
inductive LoadsException
  | jsonDecodeError
  | valueError
  | recursionError
  deriving DecidableEq, Repr

/-- What `LoadsError` keeps of them. -/
def LoadsException.error : LoadsException → LoadsError
  | .jsonDecodeError | .valueError => .valueError
  | .recursionError => .recursionError

/-- How many digits the integer has that is read if a numeral breaks off: a point or an exponent
without digits is left for what comes behind the integer. -/
def Numeral.integerDigits (state : Numeral) (numeral : List ℕ) : ℕ :=
  match state with
  | .zero | .digits | .point => (numeral.filter isDigit).length
  | .exponent | .exponentSign => if 46 ∈ numeral then 0 else (numeral.filter isDigit).length
  | .minus | .fraction | .exponentDigits => 0

namespace Scanner

/-- The class of an exception. -/
def exception (scanner : Scanner) : LoadsError → LoadsException
  | .recursionError => .recursionError
  | .valueError =>
    match scanner.mode with
    | .number numeral state =>
      if intMaxStrDigits < state.integerDigits numeral then .valueError else .jsonDecodeError
    | _ => .jsonDecodeError

/-- The characters of a text one after the other, and then its value. -/
def scan (recursionLimit : ℕ) (scanner : Scanner) : List ℕ → Except LoadsException (Json CodePoint)
  | [] =>
    match scanner.result with
    | .ok value => .ok value
    | .error e => .error (scanner.exception e)
  | c :: rest =>
    match scanner.step recursionLimit c with
    | .ok scanner' => scan recursionLimit scanner' rest
    | .error e => .error (scanner.exception e)

end Scanner

/-- `json.loads(text)` -/
def loadsRaising (recursionLimit : ℕ) (text : List ℕ) : Except LoadsException (Json CodePoint) :=
  if text.head? = some 0xFEFF then .error .jsonDecodeError
  else Scanner.start.scan recursionLimit text

/-- The text comes to an integer with more digits than are read. -/
def HasLongInteger (recursionLimit : ℕ) (text : List ℕ) : Prop :=
  ∃ before after stack numeral state, text = before ++ after ∧
    Scanner.start.run recursionLimit before = .ok ⟨stack, .number numeral state⟩ ∧
    (∀ c ∈ after.head?, state.step c = none) ∧
    intMaxStrDigits < state.integerDigits numeral

/-- The text opens an array or an object within as many others as there may be. -/
def OpensTooDeep (recursionLimit : ℕ) (text : List ℕ) : Prop :=
  ∃ before c after stack mayClose, text = before ++ c :: after ∧
    Scanner.start.run recursionLimit before = .ok ⟨stack, .value mayClose⟩ ∧
    (c = 91 ∨ c = 123) ∧ recursionLimit ≤ stack.length

variable {recursionLimit : ℕ} {scanner scanner' : Scanner} {text : List ℕ} {e : LoadsException}

theorem Scanner.error_exception (scanner : Scanner) (e : LoadsError) :
    (scanner.exception e).error = e := by
  cases e with
  | recursionError => rfl
  | valueError =>
    obtain ⟨stack, mode⟩ := scanner
    cases mode with
    | number numeral state =>
      show LoadsException.error (if _ then _ else _) = _
      split_ifs
      · rfl
      · rfl
    | _ => rfl

/-- Scanning is running, and then looking at the result. -/
theorem Scanner.mapError_scan (scanner : Scanner) (text : List ℕ) :
    (scanner.scan recursionLimit text).mapError LoadsException.error =
      scanner.run recursionLimit text >>= Scanner.result := by
  induction text generalizing scanner with
  | nil =>
    rw [scan, run]
    show _ = scanner.result
    cases scanner.result with
    | ok value => rfl
    | error e => exact congrArg Except.error (scanner.error_exception e)
  | cons c rest ih =>
    rw [scan, run]
    cases scanner.step recursionLimit c with
    | ok scanner' => exact ih scanner'
    | error e => exact congrArg Except.error (scanner.error_exception e)

/-- **The decoder**, but for the classes of the exceptions. -/
theorem mapError_loadsRaising (recursionLimit : ℕ) (text : List ℕ) :
    (loadsRaising recursionLimit text).mapError LoadsException.error =
      loads recursionLimit text := by
  rw [loadsRaising, loads]
  split_ifs
  · rfl
  · rw [Scanner.mapError_scan]
    cases Scanner.start.run recursionLimit text with
    | ok scanner => rfl
    | error e => rfl

/-! ### Where a text is refused -/

namespace Scanner

/-- The scanner raises an exception at the next character, or at the end. -/
def Refuses (recursionLimit : ℕ) (scanner : Scanner) (next : Option ℕ) (e : LoadsError) : Prop :=
  match next with
  | none => scanner.result = .error e
  | some c => scanner.step recursionLimit c = .error e

/-- A text is refused at some place. -/
theorem scan_eq_error_iff : scanner.scan recursionLimit text = .error e ↔
    ∃ before after scanner' e', text = before ++ after ∧
      scanner.run recursionLimit before = .ok scanner' ∧
      scanner'.Refuses recursionLimit after.head? e' ∧ scanner'.exception e' = e := by
  induction text generalizing scanner with
  | nil =>
    rw [scan]
    constructor
    · intro h
      cases hresult : scanner.result with
      | ok value =>
        rw [hresult] at h
        cases h
      | error e' =>
        rw [hresult] at h
        exact ⟨[], [], scanner, e', rfl, rfl, hresult, Except.error.inj h⟩
    · rintro ⟨before, after, scanner', e', htext, hrun, hrefuses, rfl⟩
      obtain ⟨rfl, rfl⟩ := List.append_eq_nil_iff.mp htext.symm
      obtain rfl := Except.ok.inj hrun
      have hresult : scanner.result = .error e' := hrefuses
      rw [hresult]
  | cons c rest ih =>
    rw [scan]
    constructor
    · intro h
      cases hstep : scanner.step recursionLimit c with
      | ok scanner₁ =>
        rw [hstep] at h
        obtain ⟨before, after, scanner', e', rfl, hrun, hrefuses, he⟩ := ih.mp h
        refine ⟨c :: before, after, scanner', e', rfl, ?_, hrefuses, he⟩
        rw [run, hstep]
        exact hrun
      | error e' =>
        rw [hstep] at h
        exact ⟨[], c :: rest, scanner, e', rfl, rfl, hstep, Except.error.inj h⟩
    · rintro ⟨before, after, scanner', e', htext, hrun, hrefuses, rfl⟩
      cases before with
      | nil =>
        obtain rfl := Except.ok.inj hrun
        rw [List.nil_append] at htext
        rw [← htext] at hrefuses
        have hstep : scanner.step recursionLimit c = .error e' := hrefuses
        rw [hstep]
      | cons c' before =>
        obtain ⟨rfl, rfl⟩ := List.cons.inj htext
        rw [run] at hrun
        cases hstep : scanner.step recursionLimit c with
        | ok scanner₁ =>
          rw [hstep] at hrun
          exact ih.mpr ⟨before, after, scanner', e', rfl, hrun, hrefuses, rfl⟩
        | error e =>
          rw [hstep] at hrun
          cases hrun

/-! ### Nesting -/

theorem value_ne_recursionError (state : Numeral) (numeral : List ℕ) :
    state.value numeral ≠ .error .recursionError := by
  intro h
  cases state with
  | zero | digits =>
    simp only [Numeral.value] at h
    split_ifs at h
    all_goals cases h
  | _ => cases h

theorem result_ne_recursionError (scanner : Scanner) :
    scanner.result ≠ .error .recursionError := by
  intro h
  unfold result at h
  split at h
  · cases h
  · exact value_ne_recursionError _ _ h
  · cases h

theorem afterValue_ne_recursionError (stack : List Frame) (c : ℕ) :
    afterValue stack c ≠ .error .recursionError := by
  intro h
  unfold afterValue at h
  by_cases hspace : isSpace c = true
  · rw [if_pos hspace] at h
    cases h
  rw [if_neg hspace] at h
  cases stack with
  | nil => cases h
  | cons frame rest =>
    cases frame with
    | arr items | obj fields =>
      dsimp only at h
      split_ifs at h
      all_goals cases h
    | member fields key => cases h

theorem stepString_ne_recursionError (stack : List Frame) (isKey : Bool) (s : List CodePoint)
    (escape : Escape) (c : ℕ) : stepString stack isKey s escape c ≠ .error .recursionError := by
  intro h
  unfold stepString at h
  split at h
  · split_ifs at h
    · split at h
      all_goals cases h
    all_goals cases h
  · split_ifs at h
    · split at h
      all_goals cases h
  · split at h
    · split_ifs at h
    · cases h

theorem startValue_eq_recursionError_iff {stack : List Frame} {c : ℕ} :
    startValue recursionLimit stack c = .error .recursionError ↔
      (c = 91 ∨ c = 123) ∧ recursionLimit ≤ stack.length := by
  constructor
  · intro h
    unfold startValue at h
    split_ifs at h with hquote hopens hdeep hbrace
    · exact ⟨hopens.symm, hdeep⟩
    · split at h
      all_goals cases h
  · rintro ⟨hopens, hdeep⟩
    have hquote : c ≠ 34 := by omega
    rw [startValue, if_neg hquote, if_pos hopens.symm, if_pos hdeep]

/-- No other step raises a `RecursionError` than one that begins a value. -/
theorem startValue_of_step {stack : List Frame} {mode : Mode} {c : ℕ}
    (h : step recursionLimit ⟨stack, mode⟩ c = .error .recursionError) :
    ∃ mayClose, mode = .value mayClose ∧
      startValue recursionLimit stack c = .error .recursionError := by
  rw [step] at h
  cases mode with
  | value mayClose =>
    dsimp only at h
    split_ifs at h
    split at h
    · cases h
    · exact ⟨mayClose, rfl, h⟩
  | key mayClose =>
    dsimp only at h
    split_ifs at h
    split at h
    · cases h
    · cases h
  | colon =>
    dsimp only at h
    split_ifs at h
    all_goals cases h
  | string isKey s escape => exact (stepString_ne_recursionError _ _ _ _ _ h).elim
  | number numeral state =>
    dsimp only at h
    split at h
    · cases h
    · split at h
      · cases h
      split at h
      · split at h
        · split at h
          all_goals cases h
        · exact (afterValue_ne_recursionError _ _ h).elim
      · next hvalue =>
        cases h
        exact (value_ne_recursionError _ _ hvalue).elim
  | literal rest value =>
    cases rest with
    | nil => cases h
    | cons d rest =>
      dsimp only at h
      split_ifs at h
      all_goals cases h
  | next => exact (afterValue_ne_recursionError _ _ h).elim
  | done value =>
    dsimp only at h
    split_ifs at h
    all_goals cases h

/-- A step that begins a value is not taken up by a bracket that closes, nor by a space. -/
theorem step_value_of_opens {stack : List Frame} {mayClose : Bool} {c : ℕ}
    (h : c = 91 ∨ c = 123) : step recursionLimit ⟨stack, .value mayClose⟩ c =
      startValue recursionLimit stack c := by
  have hspace : isSpace c = false := by
    rcases h with rfl | rfl
    · rfl
    · rfl
  have hclose : c ≠ 93 := by omega
  rw [step]
  dsimp only
  rw [hspace, if_neg Bool.false_ne_true, decide_eq_false hclose, Bool.and_false]

/-- The scanner raises a `RecursionError` where a value opens too deep. -/
theorem refuses_recursionError_iff {next : Option ℕ} :
    scanner.Refuses recursionLimit next .recursionError ↔
      ∃ c mayClose, next = some c ∧ scanner.mode = .value mayClose ∧ (c = 91 ∨ c = 123) ∧
        recursionLimit ≤ scanner.stack.length := by
  obtain ⟨stack, mode⟩ := scanner
  cases next with
  | none =>
    constructor
    · intro h
      exact (result_ne_recursionError _ h).elim
    · rintro ⟨c, mayClose, hnext, -⟩
      cases hnext
  | some c =>
    constructor
    · intro h
      obtain ⟨mayClose, hmode, hstart⟩ := startValue_of_step h
      exact ⟨c, mayClose, rfl, hmode, startValue_eq_recursionError_iff.mp hstart⟩
    · rintro ⟨c', mayClose, hnext, hmode, hopens, hdeep⟩
      obtain rfl := Option.some.inj hnext
      obtain rfl : mode = .value mayClose := hmode
      exact (step_value_of_opens hopens).trans
        (startValue_eq_recursionError_iff.mpr ⟨hopens, hdeep⟩)

/-! ### Integers -/

/-- A numeral that ends raises an exception if it breaks off or has too many digits. -/
theorem refuses_of_integerDigits {stack : List Frame} {numeral : List ℕ} {state : Numeral}
    {next : Option ℕ} (hnext : ∀ c ∈ next, state.step c = none)
    (h : intMaxStrDigits < state.integerDigits numeral) :
    (⟨stack, .number numeral state⟩ : Scanner).Refuses recursionLimit next .valueError := by
  have hvalue : state.value numeral = .error .valueError := by
    cases state with
    | zero | digits => exact if_pos h
    | minus | fraction | exponentDigits => exact (Nat.not_lt_zero _ h).elim
    | point | exponent | exponentSign => rfl
  cases next with
  | none =>
    show result ⟨stack, .number numeral state⟩ = .error .valueError
    cases stack with
    | nil => exact hvalue
    | cons frame rest => rfl
  | some c =>
    have hminus : state ≠ .minus := by
      rintro rfl
      exact (Nat.not_lt_zero _ h).elim
    show step recursionLimit ⟨stack, .number numeral state⟩ c = .error .valueError
    rw [step]
    dsimp only
    rw [hnext c rfl, decide_eq_false hminus, Bool.false_and, if_neg Bool.false_ne_true, hvalue]

theorem step_eq_none_of_refuses {stack : List Frame} {numeral : List ℕ} {state : Numeral}
    {next : Option ℕ} {e : LoadsError}
    (h : (⟨stack, .number numeral state⟩ : Scanner).Refuses recursionLimit next e) :
    ∀ c ∈ next, state.step c = none := by
  intro c hc
  obtain rfl := Option.mem_def.mp hc
  cases hstep : state.step c with
  | none => rfl
  | some state' =>
    replace h : step recursionLimit ⟨stack, .number numeral state⟩ c = .error e := h
    rw [step] at h
    dsimp only at h
    rw [hstep] at h
    cases h

theorem exception_eq_valueError_iff {e : LoadsError} :
    scanner.exception e = .valueError ↔ e = .valueError ∧ ∃ stack numeral state,
      scanner = ⟨stack, .number numeral state⟩ ∧ intMaxStrDigits < state.integerDigits numeral := by
  obtain ⟨stack, mode⟩ := scanner
  constructor
  · intro h
    cases e with
    | recursionError => cases h
    | valueError =>
      cases mode with
      | number numeral state =>
        refine ⟨rfl, stack, numeral, state, rfl, ?_⟩
        by_contra hle
        have hexception : exception ⟨stack, .number numeral state⟩ .valueError = .jsonDecodeError :=
          if_neg hle
        rw [hexception] at h
        cases h
      | _ => cases h
  · rintro ⟨rfl, stack', numeral, state, hscanner, hlong⟩
    rw [hscanner]
    exact if_pos hlong

theorem exception_eq_recursionError_iff {e : LoadsError} :
    scanner.exception e = .recursionError ↔ e = .recursionError := by
  constructor
  · intro h
    have herror := scanner.error_exception e
    rw [h] at herror
    exact herror.symm
  · rintro rfl
    rfl

end Scanner

/-- A text with a mark of its byte order is refused at the mark. -/
theorem loadsRaising_eq_scan (recursionLimit : ℕ) (text : List ℕ) :
    loadsRaising recursionLimit text = Scanner.start.scan recursionLimit text := by
  rw [loadsRaising]
  split_ifs with hmark
  · obtain ⟨rest, rfl⟩ := List.head?_eq_some_iff.mp hmark
    rfl
  · rfl

/-- **Which texts raise a `ValueError`.** -/
theorem loadsRaising_eq_valueError_iff :
    loadsRaising recursionLimit text = .error .valueError ↔ HasLongInteger recursionLimit text := by
  rw [loadsRaising_eq_scan, Scanner.scan_eq_error_iff]
  constructor
  · rintro ⟨before, after, scanner, e, htext, hrun, hrefuses, he⟩
    obtain ⟨rfl, stack, numeral, state, rfl, hlong⟩ := Scanner.exception_eq_valueError_iff.mp he
    exact ⟨before, after, stack, numeral, state, htext, hrun,
      Scanner.step_eq_none_of_refuses hrefuses, hlong⟩
  · rintro ⟨before, after, stack, numeral, state, htext, hrun, hnext, hlong⟩
    exact ⟨before, after, _, .valueError, htext, hrun, Scanner.refuses_of_integerDigits hnext hlong,
      Scanner.exception_eq_valueError_iff.mpr ⟨rfl, stack, numeral, state, rfl, hlong⟩⟩

/-- **Which texts raise a `RecursionError`.** -/
theorem loadsRaising_eq_recursionError_iff :
    loadsRaising recursionLimit text = .error .recursionError ↔
      OpensTooDeep recursionLimit text := by
  rw [loadsRaising_eq_scan, Scanner.scan_eq_error_iff]
  constructor
  · rintro ⟨before, after, scanner, e, rfl, hrun, hrefuses, he⟩
    obtain rfl := Scanner.exception_eq_recursionError_iff.mp he
    obtain ⟨c, mayClose, hnext, hmode, hopens, hdeep⟩ :=
      Scanner.refuses_recursionError_iff.mp hrefuses
    obtain ⟨rest, rfl⟩ := List.head?_eq_some_iff.mp hnext
    obtain ⟨stack, mode⟩ := scanner
    obtain rfl : mode = .value mayClose := hmode
    exact ⟨before, c, rest, stack, mayClose, rfl, hrun, hopens, hdeep⟩
  · rintro ⟨before, c, after, stack, mayClose, rfl, hrun, hopens, hdeep⟩
    exact ⟨before, c :: after, _, .recursionError, rfl, hrun,
      Scanner.refuses_recursionError_iff.mpr ⟨c, mayClose, rfl, rfl, hopens, hdeep⟩, rfl⟩

end JsonText
