import NextBallUp.Lib.JsonDumps
import Mathlib.Tactic.IntervalCases

/-!
# Reading what was written

What the decoder makes of a text that `json.dumps` has written, with or without blanks.

## Main definitions

* `IsReadAs`: in an array or an object the text is read as the value

## Main results

* `isReadAs`: **a value is read as it was written**
* `loads_dumpsWith`, `loads_dumps`: **decoding what has been written gives the value back**
-/

namespace JsonText

/-! ### Strings are read as they were written -/

variable {limit room : ℕ} {stack : List Frame} {text blank : List ℕ}

namespace Scanner

theorem run_cons {scanner s : Scanner} {c : ℕ} (h : scanner.step limit c = .ok s) :
    scanner.run limit (c :: text) = s.run limit text := by
  rw [run, h]

end Scanner

theorem hexDigit_hexChar {d : ℕ} (h : d < 16) : hexDigit (hexChar d) = some d := by
  interval_cases d <;> rfl

theorem simpleEscape_shortEscape {c d : ℕ} (h : shortEscape c = some d) :
    simpleEscape d = some c ∧ d ≠ 117 := by
  unfold shortEscape at h
  split_ifs at h with h₁ h₂ h₃ h₄ h₅ h₆ <;> cases h
  · rcases h₁ with rfl | rfl <;> exact ⟨rfl, by decide⟩
  all_goals subst_vars; exact ⟨rfl, by decide⟩

/-- An escape by number is four digits. -/
theorem run_escapeUnit {isKey : Bool} {s : List CodePoint} {n : ℕ} (h : n < 0x10000) :
    Scanner.run limit ⟨stack, .string isKey s .none⟩ (escapeUnit n ++ text) =
      Scanner.run limit ⟨stack, .string isKey (appendEscaped s n) .none⟩ text := by
  have h₁ := hexDigit_hexChar (d := n / 4096) (by omega)
  have h₂ := hexDigit_hexChar (d := n / 256 % 16) (by omega)
  have h₃ := hexDigit_hexChar (d := n / 16 % 16) (by omega)
  have h₄ := hexDigit_hexChar (d := n % 16) (by omega)
  have hn : 16 * (16 * (16 * (n / 4096) + n / 256 % 16) + n / 16 % 16) + n % 16 = n := by omega
  simp [escapeUnit, Scanner.run, Scanner.step, Scanner.stepString, h₁, h₂, h₃, h₄, hn]

theorem appendEscaped_of_not_low {s : List CodePoint} {c : ℕ} (h : isLowSurrogate c = false) :
    appendEscaped s c = s ++ [⟨c, false⟩] := by
  unfold appendEscaped
  split
  · rw [h, Bool.and_false, if_neg (by decide)]
  · rfl

/-- One character of a string. -/
theorem run_writeChar {isKey : Bool} {s : List CodePoint} {c : ℕ} (hc : IsScalar c) :
    Scanner.run limit ⟨stack, .string isKey s .none⟩ (writeChar c ++ text) =
      Scanner.run limit ⟨stack, .string isKey (s ++ [mark c]) .none⟩ text := by
  unfold writeChar
  split
  · next hplain =>
    have hmark : mark c = ⟨c, true⟩ := by rw [mark, hplain]
    simp only [isPlain, Bool.and_eq_true, decide_eq_true_eq] at hplain
    refine Scanner.run_cons ?_
    rw [hmark]
    simp only [Scanner.step, Scanner.stepString]
    rw [if_neg hplain.1.2, if_neg hplain.2, if_neg (by omega)]
  · next hplain =>
    have hmark : mark c = ⟨c, false⟩ := by
      rw [mark]
      simp only [Bool.not_eq_true] at hplain
      rw [hplain]
    rw [hmark]
    split
    · next d hd =>
      obtain ⟨hs, hne⟩ := simpleEscape_shortEscape hd
      simp [Scanner.run, Scanner.step, Scanner.stepString, hs, hne]
    · split
      · next hlt =>
        rw [run_escapeUnit hlt, appendEscaped_of_not_low]
        unfold IsScalar at hc
        simp only [isLowSurrogate, Bool.and_eq_false_iff, decide_eq_false_iff_not]
        omega
      · next hge =>
        have hc' : c < 0x110000 := by
          unfold IsScalar at hc
          omega
        have hhigh : isHighSurrogate (0xD800 + (c - 0x10000) / 0x400) = true := by
          simp only [isHighSurrogate, Bool.and_eq_true, decide_eq_true_eq]
          omega
        have hlow : isLowSurrogate (0xDC00 + (c - 0x10000) % 0x400) = true := by
          simp only [isLowSurrogate, Bool.and_eq_true, decide_eq_true_eq]
          omega
        have hnot : isLowSurrogate (0xD800 + (c - 0x10000) / 0x400) = false := by
          simp only [isLowSurrogate, Bool.and_eq_false_iff, decide_eq_false_iff_not]
          omega
        rw [List.append_assoc, run_escapeUnit (by omega), run_escapeUnit (by omega),
          appendEscaped_of_not_low hnot, appendEscaped]
        simp only [List.getLast?_concat, hhigh, hlow, Bool.and_self, if_true, List.dropLast_concat]
        rw [show 0x10000 + (0xD800 + (c - 0x10000) / 0x400 - 0xD800) * 0x400 +
          (0xDC00 + (c - 0x10000) % 0x400 - 0xDC00) = c by omega]

/-- The characters of a string. -/
theorem run_writeChars {isKey : Bool} {s' : List ℕ} (hs : IsText s') (s : List CodePoint) :
    Scanner.run limit ⟨stack, .string isKey s .none⟩ (s'.flatMap writeChar ++ text) =
      Scanner.run limit ⟨stack, .string isKey (s ++ s'.map mark) .none⟩ text := by
  induction s' generalizing s with
  | nil => simp
  | cons c rest ih =>
    rw [List.flatMap_cons, List.append_assoc, run_writeChar (hs c List.mem_cons_self),
      ih fun c' hc' => hs c' (List.mem_cons_of_mem _ hc')]
    simp

theorem run_writeString {isKey : Bool} {s : List ℕ} (hs : IsText s) :
    Scanner.run limit ⟨stack, .string isKey [] .none⟩ (s.flatMap writeChar ++ 34 :: text) =
      Scanner.run limit ⟨stack, .string isKey (s.map mark) .none⟩ (34 :: text) :=
  run_writeChars hs []

/-! ### Numbers are read as they were written -/

/-- The characters that can follow a value in an array or an object. -/
def IsEnd (c : ℕ) : Prop := c = 44 ∨ c = 93 ∨ c = 125

theorem run_digits {numeral digits : List ℕ} (h : ∀ c ∈ digits, isDigit c = true) :
    Scanner.run limit ⟨stack, .number numeral .digits⟩ (digits ++ text) =
      Scanner.run limit ⟨stack, .number (numeral ++ digits) .digits⟩ text := by
  induction digits generalizing numeral with
  | nil => simp
  | cons c rest ih =>
    have hstep : Numeral.digits.step c = some .digits := by
      simp [Numeral.step, h c List.mem_cons_self]
    rw [List.cons_append, Scanner.run_cons (s := ⟨stack, .number (numeral ++ [c]) .digits⟩)
      (by simp [Scanner.step, hstep]), ih fun c' hc' => h c' (List.mem_cons_of_mem _ hc')]
    simp

/-- The value of a numeral without a fraction and an exponent. -/
theorem value_decimal {state : Numeral} {n : ℕ} (hs : state = .zero ∨ state = .digits)
    (hn : (decimal n).length ≤ intMaxStrDigits) : state.value (decimal n) = .ok (.int n) := by
  have hfilter : (decimal n).filter isDigit = decimal n :=
    List.filter_eq_self.mpr fun c hc => isDigit_of_mem_decimal hc
  have hhead : (decimal n).head? ≠ some 45 := by
    intro h
    have hd := digit_of_mem_decimal (List.mem_of_mem_head? h)
    omega
  rcases hs with rfl | rfl
  all_goals
    simp only [Numeral.value, hfilter, if_neg (Nat.not_lt.mpr hn), if_neg hhead, ofDecimal_decimal]

theorem value_minus_decimal {n : ℕ} (hn : (decimal n).length ≤ intMaxStrDigits) :
    Numeral.digits.value (45 :: decimal n) = .ok (.int (-n)) := by
  have hfilter : (45 :: decimal n).filter isDigit = decimal n := by
    rw [List.filter_cons_of_neg (by decide)]
    exact List.filter_eq_self.mpr fun c hc => isDigit_of_mem_decimal hc
  simp only [Numeral.value, hfilter, if_neg (Nat.not_lt.mpr hn), List.head?_cons, if_true,
    ofDecimal_decimal]

/-- A value in an array or an object is followed by more. -/
theorem complete_eq_next (frame : Frame) (stack : List Frame) (value : Json CodePoint) :
    ∃ stack', Scanner.complete (frame :: stack) value = ⟨stack', .next⟩ ∧ stack' ≠ [] := by
  cases frame with
  | arr items => exact ⟨_, rfl, List.cons_ne_nil _ _⟩
  | obj fields => exact ⟨_, rfl, List.cons_ne_nil _ _⟩
  | member fields key => exact ⟨_, rfl, List.cons_ne_nil _ _⟩

/-- A numeral ends where the array or the object goes on. -/
theorem run_number_end {frame : Frame} {numeral : List ℕ} {state : Numeral} {c : ℕ}
    {value : Json CodePoint} (hc : IsEnd c) (hs : state = .zero ∨ state = .digits)
    (hv : state.value numeral = .ok value) :
    Scanner.run limit ⟨frame :: stack, .number numeral state⟩ (c :: text) =
      Scanner.run limit (Scanner.complete (frame :: stack) value) (c :: text) := by
  obtain ⟨stack', hcomplete, hne⟩ := complete_eq_next frame stack value
  have hstep : state.step c = none := by
    rcases hs with rfl | rfl <;> rcases hc with rfl | rfl | rfl <;> rfl
  have hminus : (state = .minus && c = 73) = false := by
    rcases hs with rfl | rfl <;> rfl
  have hnumber : Scanner.step limit ⟨frame :: stack, .number numeral state⟩ c =
      Scanner.afterValue stack' c := by
    simp only [Scanner.step, hstep, hminus, hv, hcomplete]
    cases stack' with
    | nil => exact (hne rfl).elim
    | cons => rfl
  rw [hcomplete, Scanner.run, Scanner.run, hnumber]
  rfl

/-- A digit begins a numeral. -/
theorem step_value_digit {mayClose : Bool} {c : ℕ} (h : 48 ≤ c ∧ c ≤ 57) :
    Scanner.step limit ⟨stack, .value mayClose⟩ c =
      .ok ⟨stack, .number [c] (if c = 48 then .zero else .digits)⟩ := by
  obtain ⟨hge, hle⟩ := h
  interval_cases c <;> cases mayClose <;> rfl

theorem step_value_minus {mayClose : Bool} :
    Scanner.step limit ⟨stack, .value mayClose⟩ 45 = .ok ⟨stack, .number [45] .minus⟩ := by
  cases mayClose <;> rfl

/-- A number in an array or an object. -/
theorem run_decimalInt {mayClose : Bool} {frame : Frame} {n : ℤ} {c : ℕ} (hc : IsEnd c)
    (hn : (decimal n.natAbs).length ≤ intMaxStrDigits) :
    Scanner.run limit ⟨frame :: stack, .value mayClose⟩ (decimalInt n ++ c :: text) =
      Scanner.run limit (Scanner.complete (frame :: stack) (.int n)) (c :: text) := by
  cases n with
  | ofNat n =>
    have hvalue (state : Numeral) (hs : state = .zero ∨ state = .digits) :
        state.value (decimal n) = .ok (.int n) := value_decimal hs hn
    by_cases hz : n = 0
    · subst hz
      have hd : decimalInt (.ofNat 0) = [48] := decimal_of_lt (by decide)
      rw [hd, List.singleton_append, Scanner.run_cons (step_value_digit (by decide)), if_pos rfl]
      exact run_number_end hc (.inl rfl) (hvalue .zero (.inl rfl))
    · obtain ⟨d, rest, hd, hge, hle⟩ := decimal_eq_cons hz
      have hdigits : ∀ c ∈ rest, isDigit c = true := fun c hc =>
        isDigit_of_mem_decimal (hd ▸ List.mem_cons_of_mem d hc)
      have hdec : decimalInt (.ofNat n) = d :: rest := hd
      rw [hdec, List.cons_append, Scanner.run_cons (step_value_digit ⟨by omega, hle⟩),
        if_neg (by omega), run_digits hdigits]
      have hv := hvalue .digits (.inr rfl)
      rw [hd] at hv
      exact run_number_end hc (.inr rfl) hv
  | negSucc n =>
    obtain ⟨d, rest, hd, hge, hle⟩ := decimal_eq_cons (Nat.succ_ne_zero n)
    have hdigits : ∀ c ∈ rest, isDigit c = true := fun c hc =>
      isDigit_of_mem_decimal (hd ▸ List.mem_cons_of_mem d hc)
    have hdec : decimalInt (.negSucc n) = 45 :: d :: rest := congrArg (45 :: ·) hd
    have hstep : Numeral.minus.step d = some .digits := by
      have hdigit : isDigit d = true := by
        simp only [isDigit, Bool.and_eq_true, decide_eq_true_eq]
        omega
      simp [Numeral.step, hdigit, show d ≠ 48 by omega]
    rw [hdec, List.cons_append, List.cons_append, Scanner.run_cons step_value_minus,
      Scanner.run_cons (s := ⟨frame :: stack, .number [45, d] .digits⟩)
        (by simp [Scanner.step, hstep]), run_digits hdigits]
    refine run_number_end hc (.inr rfl) ?_
    have hvalue := value_minus_decimal (n := n + 1) hn
    rw [Nat.succ_eq_add_one] at hd
    rw [hd] at hvalue
    exact hvalue

/-! ### Blanks and fractions -/

/-- Blanks before a value or a key. -/
theorem run_blank_value (hb : ∀ c ∈ blank, isSpace c = true) (mayClose : Bool) :
    Scanner.run limit ⟨stack, .value mayClose⟩ (blank ++ text) =
      Scanner.run limit ⟨stack, .value mayClose⟩ text := by
  induction blank with
  | nil => rfl
  | cons c blank ih =>
    have hstep : Scanner.step limit ⟨stack, .value mayClose⟩ c = .ok ⟨stack, .value mayClose⟩ :=
      if_pos (hb c List.mem_cons_self)
    rw [List.cons_append, Scanner.run_cons hstep]
    exact ih fun d hd => hb d (List.mem_cons_of_mem _ hd)

theorem run_blank_key (hb : ∀ c ∈ blank, isSpace c = true) (mayClose : Bool) :
    Scanner.run limit ⟨stack, .key mayClose⟩ (blank ++ text) =
      Scanner.run limit ⟨stack, .key mayClose⟩ text := by
  induction blank with
  | nil => rfl
  | cons c blank ih =>
    have hstep : Scanner.step limit ⟨stack, .key mayClose⟩ c = .ok ⟨stack, .key mayClose⟩ :=
      if_pos (hb c List.mem_cons_self)
    rw [List.cons_append, Scanner.run_cons hstep]
    exact ih fun d hd => hb d (List.mem_cons_of_mem _ hd)

theorem run_fraction {numeral digits : List ℕ} (h : ∀ c ∈ digits, isDigit c = true) :
    Scanner.run limit ⟨stack, .number numeral .fraction⟩ (digits ++ text) =
      Scanner.run limit ⟨stack, .number (numeral ++ digits) .fraction⟩ text := by
  induction digits generalizing numeral with
  | nil => rw [List.append_nil, List.nil_append]
  | cons c digits ih =>
    have hstep : Scanner.step limit ⟨stack, .number numeral .fraction⟩ c =
        .ok ⟨stack, .number (numeral ++ [c]) .fraction⟩ := by
      have hnumeral : Numeral.fraction.step c = some .fraction := if_pos (h c List.mem_cons_self)
      simp [Scanner.step, hnumeral]
    rw [List.cons_append, Scanner.run_cons hstep, ih fun d hd => h d (List.mem_cons_of_mem _ hd),
      List.append_assoc]
    rfl

/-- The point and the digits after it, where the array or the object goes on. -/
theorem run_point {frame : Frame} {numeral fraction : List ℕ} {state : Numeral} {c : ℕ}
    (hs : state = .zero ∨ state = .digits) (hne : fraction ≠ [])
    (hdigits : ∀ c ∈ fraction, isDigit c = true) (hc : IsEnd c) :
    Scanner.run limit ⟨frame :: stack, .number numeral state⟩ (46 :: (fraction ++ c :: text)) =
      Scanner.run limit (Scanner.complete (frame :: stack) (.float (numeral ++ 46 :: fraction)))
        (c :: text) := by
  have hpoint : Scanner.step limit ⟨frame :: stack, .number numeral state⟩ 46 =
      .ok ⟨frame :: stack, .number (numeral ++ [46]) .point⟩ := by
    rcases hs with rfl | rfl
    · rfl
    · rfl
  obtain ⟨d, rest, rfl⟩ := List.exists_cons_of_ne_nil hne
  have hfirst : Scanner.step limit ⟨frame :: stack, .number (numeral ++ [46]) .point⟩ d =
      .ok ⟨frame :: stack, .number (numeral ++ [46] ++ [d]) .fraction⟩ := by
    have hnumeral : Numeral.point.step d = some .fraction := if_pos (hdigits d List.mem_cons_self)
    simp [Scanner.step, hnumeral]
  rw [Scanner.run_cons hpoint, List.cons_append, Scanner.run_cons hfirst,
    run_fraction fun e he => hdigits e (List.mem_cons_of_mem _ he), List.append_assoc,
    List.append_assoc]
  -- The numeral ends.
  obtain ⟨stack', hcomplete, hstack⟩ :=
    complete_eq_next frame stack (.float (numeral ++ 46 :: d :: rest))
  have hend : Numeral.fraction.step c = none := by
    rcases hc with rfl | rfl | rfl <;> rfl
  have hnumber : Scanner.step limit
      ⟨frame :: stack, .number (numeral ++ ([46] ++ ([d] ++ rest))) .fraction⟩ c =
        Scanner.afterValue stack' c := by
    have hvalue : Numeral.fraction.value (numeral ++ 46 :: d :: rest) =
        .ok (.float (numeral ++ 46 :: d :: rest)) := rfl
    have hminus : (Numeral.fraction = .minus && c = 73) = false := rfl
    show Scanner.step limit ⟨frame :: stack, .number (numeral ++ 46 :: d :: rest) .fraction⟩ c = _
    simp only [Scanner.step, hend, hminus, hvalue, hcomplete]
    cases stack' with
    | nil => exact (hstack rfl).elim
    | cons => rfl
  rw [hcomplete, Scanner.run, Scanner.run, hnumber]
  rfl

/-! ### Values are read as they were written -/

theorem set_of_not_mem {fields : Json.Fields CodePoint} {key : List ℕ} {value : Json CodePoint}
    (h : key ∉ fields.map fun f => codes f.1) :
    fields.set (key.map mark) value = fields ++ [(key.map mark, value)] := by
  induction fields with
  | nil => rfl
  | cons f rest ih =>
    rw [List.map_cons, List.mem_cons, not_or] at h
    rw [Json.Fields.set, codes_map_mark, if_neg fun he => h.1 he.symm, ih h.2, List.cons_append]

theorem run_string_value {mayClose : Bool} {s : List ℕ} (hs : IsText s) :
    Scanner.run limit ⟨stack, .value mayClose⟩ (writeString s ++ text) =
      Scanner.run limit (Scanner.complete stack (.str (s.map mark))) text := by
  have hopen : Scanner.step limit ⟨stack, .value mayClose⟩ 34 =
    .ok ⟨stack, .string false [] .none⟩ := by
    cases mayClose <;> rfl
  rw [writeString, List.cons_append, Scanner.run_cons hopen, List.append_assoc,
    List.singleton_append, run_writeString hs]
  exact Scanner.run_cons rfl

/-- A key of an object. -/
theorem run_key {mayClose : Bool} {before : Json.Fields CodePoint} {key : List ℕ}
    (hkey : IsText key) :
    Scanner.run limit ⟨.obj before :: stack, .key mayClose⟩ (writeString key ++ 58 :: text) =
      Scanner.run limit ⟨.member before (key.map mark) :: stack, .value false⟩ text := by
  have hopen : Scanner.step limit ⟨.obj before :: stack, .key mayClose⟩ 34 =
      .ok ⟨.obj before :: stack, .string true [] .none⟩ := by
    cases mayClose <;> rfl
  have hclose : Scanner.step limit ⟨.obj before :: stack, .string true (key.map mark) .none⟩ 34 =
      .ok ⟨.member before (key.map mark) :: stack, .colon⟩ := rfl
  rw [writeString, List.cons_append, Scanner.run_cons hopen, List.append_assoc,
    List.singleton_append, run_writeString hkey, Scanner.run_cons hclose]
  exact Scanner.run_cons rfl

/-- In an array or an object the text is read as the value, whatever comes after it. -/
def IsReadAs (limit room : ℕ) (written : List ℕ) (value : Json CodePoint) : Prop :=
  ∀ (frame : Frame) (stack : List Frame) (mayClose : Bool) (c : ℕ) (text : List ℕ), IsEnd c →
    stack.length + 1 + room ≤ limit →
      Scanner.run limit ⟨frame :: stack, .value mayClose⟩ (written ++ c :: text) =
        Scanner.run limit (Scanner.complete (frame :: stack) value) (c :: text)

theorem isReadAs_pointNumeral {numeral : List ℕ} (h : IsPointNumeral numeral) :
    IsReadAs limit room numeral (.float numeral) := by
  obtain ⟨n, fraction, rfl, hne, hdigits⟩ := h
  intro frame stack mayClose c text hc _
  rw [List.append_assoc, List.cons_append]
  by_cases hz : n = 0
  · have hd : decimal n = [48] := by
      rw [hz]
      exact decimal_of_lt (by decide)
    rw [hd, List.singleton_append, Scanner.run_cons (step_value_digit (by decide)), if_pos rfl]
    exact run_point (.inl rfl) hne hdigits hc
  · obtain ⟨d, rest, hd, hge, hle⟩ := decimal_eq_cons hz
    have hrest (c : ℕ) (hc : c ∈ rest) : isDigit c = true :=
      isDigit_of_mem_decimal (hd ▸ List.mem_cons_of_mem d hc)
    rw [hd, List.cons_append, Scanner.run_cons (step_value_digit ⟨by omega, hle⟩),
      if_neg (by omega), run_digits hrest]
    exact run_point (.inr rfl) hne hdigits hc

theorem run_itemsWith {items : List (Json ℕ)} (hb : ∀ c ∈ blank, isSpace c = true)
    (hroom : stack.length + 1 + room ≤ limit)
    (hitems : ∀ value ∈ items, IsReadAs limit room (dumpsWith blank value) value.mark)
    (hne : items ≠ []) (mayClose : Bool) (before : List (Json CodePoint)) :
    Scanner.run limit ⟨.arr before :: stack, .value mayClose⟩
        (dumpsItemsWith blank items ++ 93 :: text) =
      Scanner.run limit (Scanner.complete stack (.arr (before ++ Json.markItems items))) text := by
  induction items generalizing mayClose before with
  | nil => exact (hne rfl).elim
  | cons value rest ih =>
    have hvalue := hitems value List.mem_cons_self
    cases rest with
    | nil =>
      rw [dumpsItemsWith, hvalue _ _ _ _ _ (.inr (.inl rfl)) hroom]
      exact Scanner.run_cons rfl
    | cons next rest =>
      have hcomma : Scanner.step limit ⟨.arr (before ++ [value.mark]) :: stack, .next⟩ 44 =
          .ok ⟨.arr (before ++ [value.mark]) :: stack, .value false⟩ := rfl
      show Scanner.run limit _ ((dumpsWith blank value ++
        44 :: (blank ++ dumpsItemsWith blank (next :: rest))) ++ 93 :: text) = _
      rw [List.append_assoc, List.cons_append, hvalue _ _ _ _ _ (.inl rfl) hroom]
      show Scanner.run limit ⟨.arr (before ++ [value.mark]) :: stack, .next⟩ _ = _
      rw [Scanner.run_cons hcomma, List.append_assoc, run_blank_value hb,
        ih (fun v hv => hitems v (List.mem_cons_of_mem _ hv)) (List.cons_ne_nil _ _),
        List.append_assoc]
      rfl

theorem run_fieldsWith {fields : List (List ℕ × Json ℕ)} (hb : ∀ c ∈ blank, isSpace c = true)
    (hroom : stack.length + 1 + room ≤ limit)
    (hfields : ∀ f ∈ fields, IsText f.1 ∧ IsReadAs limit room (dumpsWith blank f.2) f.2.mark)
    (hne : fields ≠ []) (mayClose : Bool) (before : Json.Fields CodePoint)
    (hnodup : ((before.map fun f => codes f.1) ++ fields.map Prod.fst).Nodup) :
    Scanner.run limit ⟨.obj before :: stack, .key mayClose⟩
        (dumpsFieldsWith blank fields ++ 125 :: text) =
      Scanner.run limit
        (Scanner.complete stack (.obj (before ++ Json.markFields fields))) text := by
  induction fields generalizing mayClose before with
  | nil => exact (hne rfl).elim
  | cons f rest ih =>
    obtain ⟨key, value⟩ := f
    obtain ⟨hkey, hvalue⟩ := hfields (key, value) List.mem_cons_self
    have hnew : key ∉ before.map fun f => codes f.1 := by
      intro hmem
      exact (List.nodup_append.mp hnodup).2.2 _ hmem _ List.mem_cons_self rfl
    cases rest with
    | nil =>
      rw [dumpsFieldsWith, List.append_assoc, List.cons_append, run_key hkey, List.append_assoc,
        run_blank_value hb, hvalue _ _ _ _ _ (.inr (.inr rfl)) hroom]
      refine (Scanner.run_cons (s := Scanner.complete stack
        (.obj (before.set (key.map mark) value.mark))) rfl).trans ?_
      rw [set_of_not_mem hnew]
      rfl
    | cons next rest =>
      have hcomma : Scanner.step limit
          ⟨.obj (before.set (key.map mark) value.mark) :: stack, .next⟩ 44 =
            .ok ⟨.obj (before.set (key.map mark) value.mark) :: stack, .key false⟩ := rfl
      show Scanner.run limit _ ((writeString key ++ 58 :: (blank ++ (dumpsWith blank value ++
        44 :: (blank ++ dumpsFieldsWith blank (next :: rest))))) ++ 125 :: text) = _
      rw [List.append_assoc, List.cons_append, run_key hkey, List.append_assoc, run_blank_value hb,
        List.append_assoc, List.cons_append, hvalue _ _ _ _ _ (.inl rfl) hroom]
      show Scanner.run limit ⟨.obj (before.set (key.map mark) value.mark) :: stack, .next⟩ _ = _
      rw [Scanner.run_cons hcomma, List.append_assoc, run_blank_key hb, set_of_not_mem hnew,
        ih (fun f hf => hfields f (List.mem_cons_of_mem _ hf)) (List.cons_ne_nil _ _),
        List.append_assoc]
      · rfl
      · simpa [codes_map_mark] using hnodup

theorem run_arrWith {mayClose : Bool} {items : List (Json ℕ)}
    (hb : ∀ c ∈ blank, isSpace c = true) (hroom : stack.length + 1 + room ≤ limit)
    (hitems : ∀ value ∈ items, IsReadAs limit room (dumpsWith blank value) value.mark) :
    Scanner.run limit ⟨stack, .value mayClose⟩ (dumpsWith blank (.arr items) ++ text) =
      Scanner.run limit (Scanner.complete stack (Json.mark (.arr items))) text := by
  have hopen : Scanner.step limit ⟨stack, .value mayClose⟩ 91 =
    .ok ⟨.arr [] :: stack, .value true⟩ := by
    have hlt : ¬ limit ≤ stack.length := by omega
    cases mayClose <;> simp [Scanner.step, Scanner.startValue, isSpace, hlt]
  rw [dumpsWith, List.cons_append, Scanner.run_cons hopen, List.append_assoc, List.singleton_append]
  cases items with
  | nil => exact Scanner.run_cons rfl
  | cons value rest => exact run_itemsWith hb hroom hitems (List.cons_ne_nil _ _) true []

theorem run_objWith {mayClose : Bool} {fields : List (List ℕ × Json ℕ)}
    (hb : ∀ c ∈ blank, isSpace c = true) (hroom : stack.length + 1 + room ≤ limit)
    (hnodup : (fields.map Prod.fst).Nodup)
    (hfields : ∀ f ∈ fields, IsText f.1 ∧ IsReadAs limit room (dumpsWith blank f.2) f.2.mark) :
    Scanner.run limit ⟨stack, .value mayClose⟩ (dumpsWith blank (.obj fields) ++ text) =
      Scanner.run limit (Scanner.complete stack (Json.mark (.obj fields))) text := by
  have hopen : Scanner.step limit ⟨stack, .value mayClose⟩ 123 =
    .ok ⟨.obj [] :: stack, .key true⟩ := by
    have hlt : ¬ limit ≤ stack.length := by omega
    cases mayClose <;> simp [Scanner.step, Scanner.startValue, isSpace, hlt]
  rw [dumpsWith, List.cons_append, Scanner.run_cons hopen, List.append_assoc, List.singleton_append]
  cases fields with
  | nil => exact Scanner.run_cons rfl
  | cons f rest => exact run_fieldsWith hb hroom hfields (List.cons_ne_nil _ _) true [] hnodup

mutual

/-- **A value is read as it was written**, inside an array or an object. -/
theorem isReadAs (hb : ∀ c ∈ blank, isSpace c = true) : ∀ {room : ℕ} (value : Json ℕ),
    Writable room value → IsReadAs limit room (dumpsWith blank value) value.mark
  | _, .null, _ => fun frame stack mayClose c text _ _ => by
    cases mayClose <;> cases frame <;> rfl
  | _, .bool true, _ => fun frame stack mayClose c text _ _ => by
    cases mayClose <;> cases frame <;> rfl
  | _, .bool false, _ => fun frame stack mayClose c text _ _ => by
    cases mayClose <;> cases frame <;> rfl
  | _, .int n, h => fun frame stack mayClose c text hc _ => run_decimalInt hc h
  | _, .float _, h => isReadAs_pointNumeral h
  | _, .str s, h => fun frame stack mayClose c text _ _ => run_string_value h
  | room, .arr items, h => fun frame stack mayClose c text _ hroom => by
    obtain ⟨hpos, hitems⟩ := h
    refine run_arrWith hb ?_ (isReadAs_items hb items hitems)
    rw [List.length_cons]
    omega
  | room, .obj fields, h => fun frame stack mayClose c text _ hroom => by
    obtain ⟨hpos, hnodup, hfields⟩ := h
    refine run_objWith hb ?_ hnodup (isReadAs_fields hb fields hfields)
    rw [List.length_cons]
    omega

theorem isReadAs_items (hb : ∀ c ∈ blank, isSpace c = true) : ∀ {room : ℕ} (items : List (Json ℕ)),
    WritableItems room items →
      ∀ value ∈ items, IsReadAs limit room (dumpsWith blank value) value.mark
  | _, [], _ => fun _ hv => (List.not_mem_nil hv).elim
  | _, value :: rest, h => fun v hv => by
    rcases List.mem_cons.mp hv with hv | hv
    · rw [hv]
      exact isReadAs hb value h.1
    · exact isReadAs_items hb rest h.2 v hv

theorem isReadAs_fields (hb : ∀ c ∈ blank, isSpace c = true) :
    ∀ {room : ℕ} (fields : List (List ℕ × Json ℕ)), WritableFields room fields →
      ∀ f ∈ fields, IsText f.1 ∧ IsReadAs limit room (dumpsWith blank f.2) f.2.mark
  | _, [], _ => fun _ hf => (List.not_mem_nil hf).elim
  | _, (key, value) :: rest, h => fun f hf => by
    rcases List.mem_cons.mp hf with hf | hf
    · rw [hf]
      exact ⟨h.1, isReadAs hb value h.2.1⟩
    · exact isReadAs_fields hb rest h.2.2 f hf

end

/-- **Decoding what has been written**, and white space after it, gives an object back. -/
theorem loads_dumpsWith {fields : List (List ℕ × Json ℕ)} {after : List ℕ}
    (hb : ∀ c ∈ blank, isSpace c = true) (ha : ∀ c ∈ after, isSpace c = true)
    (h : Writable limit (.obj fields)) :
    loads limit (dumpsWith blank (.obj fields) ++ after) = .ok (Json.obj fields).mark := by
  obtain ⟨hpos, hnodup, hfields⟩ := h
  have hafter (value : Json CodePoint) :
      Scanner.run limit ⟨[], .done value⟩ after = .ok ⟨[], .done value⟩ := by
    induction after with
    | nil => rfl
    | cons c after ih =>
      have hstep : Scanner.step limit ⟨[], .done value⟩ c = .ok ⟨[], .done value⟩ :=
        if_pos (ha c List.mem_cons_self)
      rw [Scanner.run_cons hstep]
      exact ih fun d hd => ha d (List.mem_cons_of_mem _ hd)
  have hrun : Scanner.start.run limit (dumpsWith blank (.obj fields) ++ after) =
      .ok (Scanner.complete [] (Json.obj fields).mark) :=
    (run_objWith hb (by rw [List.length_nil]; omega) hnodup
      (isReadAs_fields hb fields hfields)).trans (hafter _)
  have hhead : (dumpsWith blank (.obj fields) ++ after).head? ≠ some 0xFEFF := by
    rw [dumpsWith, List.cons_append, List.head?_cons]
    decide
  rw [loads, if_neg hhead, hrun]
  rfl

/-- **Decoding what has been written** gives an object back. -/
theorem loads_dumps {fields : List (List ℕ × Json ℕ)} (h : Writable limit (.obj fields)) :
    loads limit (dumps (.obj fields)) = .ok (Json.obj fields).mark := by
  have hnil : ∀ c ∈ ([] : List ℕ), isSpace c = true := fun _ hc => (List.not_mem_nil hc).elim
  have hread := loads_dumpsWith hnil hnil h
  rwa [List.append_nil] at hread

end JsonText
