import NextBallUp.Lib.Json
import Mathlib.Data.List.Forall2

/-!
# Regular expressions

Python's `re`, for sets of characters, the boundary of a word, greedy repetition of a set,
alternatives and groups. The engine tries the ways to match in a fixed order and takes the first.

The characters are of any type with a code point, as those of a decoded JSON string are: what is
known of a character besides its code point stays with it where a substitution keeps it.

## Main definitions

* `Regex`: the expressions
* `Regex.ways`: all ways in which an expression matches at a place, in the order of the engine
* `Regex.first`: the match that the engine finds
* `Regex.Matches`: what an expression matches, without the order

## Main results

* `Regex.mem_ways_iff`: **the engine tries what the expression matches**, and nothing else
* `Regex.not_isIn_of_first_many`, `Regex.eq_of_first_many_boundary`: greedy repetition takes as much
  as it can
* `Regex.ways_codes`: the engine looks at the code points alone
* `Regex.code_ne_of_matches`: what is matched has no character that is in no set of the expression
-/

/-- A regular expression. -/
inductive Regex
  | empty
  /-- A character of a set. -/
  | chars (p : ℕ → Bool)
  /-- `\b` -/
  | boundary
  /-- Characters of a set, as many as possible. -/
  | many (p : ℕ → Bool)
  | seq (r s : Regex)
  | alt (r s : Regex)
  | group (r : Regex)

/-- A match: what it takes, what it leaves, and what its groups take. -/
structure Match (χ : Type) where
  taken : List χ
  rest : List χ
  groups : List (List χ)

/-- The code points of a match. -/
def Match.toCodes {χ : Type} [HasCode χ] (m : Match χ) : Match ℕ :=
  ⟨codes m.taken, codes m.rest, m.groups.map codes⟩

/-- A match, and one in what it leaves. -/
def Match.followedBy {χ : Type} (m m' : Match χ) : Match χ :=
  ⟨m.taken ++ m'.taken, m'.rest, m.groups ++ m'.groups⟩

namespace Regex

/-- `[..]+` -/
def oneOrMore (p : ℕ → Bool) : Regex := seq (chars p) (many p)

/-- `(?:..)?` -/
def optional (r : Regex) : Regex := alt r empty

/-- `(?:..){n}` -/
def times (r : Regex) : ℕ → Regex
  | 0 => empty
  | n + 1 => seq r (times r n)

/-- The characters of a text one after the other, up to what counts as the same character. -/
def text (same : ℕ → ℕ → Bool) : List ℕ → Regex
  | [] => empty
  | c :: rest => seq (chars (same c)) (text same rest)

/-- The expression takes a character at least. -/
def takes : Regex → Bool
  | chars _ => true
  | seq r s => takes r || takes s
  | alt r s => takes r && takes s
  | group r => takes r
  | _ => false

/-- A character is in no set of the expression. -/
def avoids (c : ℕ) : Regex → Bool
  | chars p | many p => !p c
  | seq r s | alt r s => avoids c r && avoids c s
  | group r => avoids c r
  | _ => true

variable {χ : Type} [HasCode χ] (isWord : ℕ → Bool)

/-- There is a character, and it is one of a word. -/
def isWordAt (c : Option χ) : Bool := c.any fun c => isWord (HasCode.code c)

/-- A character is in a set. -/
def isIn (p : ℕ → Bool) (c : χ) : Bool := p (HasCode.code c)

/-- The prefixes of a text that have only characters of a set, the longest first. -/
def greedy (p : ℕ → Bool) : List χ → List (Match χ)
  | [] => [⟨[], [], []⟩]
  | c :: rest =>
    if isIn p c then
      (greedy p rest).map (fun m => ⟨c :: m.taken, m.rest, []⟩) ++ [⟨[], c :: rest, []⟩]
    else [⟨[], c :: rest, []⟩]

/-- The ways in which an expression matches at the start of a text, in the order in which the engine
tries them. A character may come before the text. -/
def ways : Regex → Option χ → List χ → List (Match χ)
  | empty, _, text => [⟨[], text, []⟩]
  | chars _, _, [] => []
  | chars p, _, c :: rest => if isIn p c then [⟨[c], rest, []⟩] else []
  | boundary, prev, text =>
    if isWordAt isWord prev != isWordAt isWord text.head? then [⟨[], text, []⟩] else []
  | many p, _, text => greedy p text
  | seq r s, prev, text =>
    (ways r prev text).flatMap fun m =>
      (ways s (m.taken.getLast?.or prev) m.rest).map m.followedBy
  | alt r s, prev, text => ways r prev text ++ ways s prev text
  | group r, prev, text => (ways r prev text).map fun m => { m with groups := m.taken :: m.groups }

/-- The match that the engine finds at the start of a text. -/
def first (r : Regex) (prev : Option χ) (text : List χ) : Option (Match χ) :=
  (r.ways isWord prev text).head?

/-- What an expression matches between a character and a text, and what its groups take. -/
def Matches : Regex → Option χ → List χ → List χ → List (List χ) → Prop
  | empty, _, l, _, g => l = [] ∧ g = []
  | chars p, _, l, _, g => (∃ c, l = [c] ∧ isIn p c = true) ∧ g = []
  | boundary, prev, l, rest, g =>
    (isWordAt isWord prev ≠ isWordAt isWord rest.head? ∧ l = []) ∧ g = []
  | many p, _, l, _, g => (∀ c ∈ l, isIn p c = true) ∧ g = []
  | seq r s, prev, l, rest, g => ∃ l₁ l₂ g₁ g₂, Matches r prev l₁ (l₂ ++ rest) g₁ ∧
      Matches s (l₁.getLast?.or prev) l₂ rest g₂ ∧ l = l₁ ++ l₂ ∧ g = g₁ ++ g₂
  | alt r s, prev, l, rest, g => Matches r prev l rest g ∨ Matches s prev l rest g
  | group r, prev, l, rest, g => ∃ g', Matches r prev l rest g' ∧ g = l :: g'

variable {isWord} {r s : Regex} {p : ℕ → Bool} {prev : Option χ} {text l rest : List χ}
  {m : Match χ}

/-! ### What the engine tries -/

theorem mem_greedy_iff : m ∈ greedy p text ↔
    m.taken ++ m.rest = text ∧ (∀ c ∈ m.taken, isIn p c = true) ∧ m.groups = [] := by
  induction text generalizing m with
  | nil =>
    obtain ⟨l, rest, g⟩ := m
    simp only [greedy, List.mem_singleton, Match.mk.injEq, List.append_eq_nil_iff]
    constructor
    · rintro ⟨rfl, rfl, rfl⟩
      simp
    · rintro ⟨⟨rfl, rfl⟩, -, rfl⟩
      simp
  | cons c text ih =>
    obtain ⟨l, rest, g⟩ := m
    rw [greedy]
    cases l with
    | nil => split <;> simp [and_comm]
    | cons d l =>
      split
      · next hc =>
        simp only [List.mem_append, List.mem_map, ih, List.mem_singleton, Match.mk.injEq]
        constructor
        · rintro (⟨m, ⟨hm, hl, -⟩, hd, hrest, rfl⟩ | ⟨hd, -⟩)
          · obtain ⟨rfl, rfl⟩ := List.cons.inj hd
            refine ⟨by rw [← hm, ← hrest]; rfl, fun e he => ?_, rfl⟩
            rcases List.mem_cons.mp he with rfl | he
            · exact hc
            · exact hl e he
          · cases hd
        · rintro ⟨htext, hl, rfl⟩
          obtain ⟨rfl, htail⟩ := List.cons.inj htext
          exact .inl ⟨⟨l, rest, []⟩, ⟨htail, fun e he => hl e (List.mem_cons_of_mem _ he), rfl⟩,
            rfl, rfl, rfl⟩
      · next hc =>
        simp only [List.mem_singleton, Match.mk.injEq]
        refine iff_of_false (by rintro ⟨h, -⟩; cases h) ?_
        rintro ⟨htext, hl, -⟩
        obtain ⟨rfl, -⟩ := List.cons.inj htext
        exact hc (hl d List.mem_cons_self)

/-- **The engine tries what the expression matches.** -/
theorem mem_ways_iff : m ∈ r.ways isWord prev text ↔
    m.taken ++ m.rest = text ∧ r.Matches isWord prev m.taken m.rest m.groups := by
  induction r generalizing prev text m with
  | empty =>
    obtain ⟨l, rest, g⟩ := m
    simp only [ways, Matches, List.mem_singleton, Match.mk.injEq]
    constructor
    · rintro ⟨rfl, rfl, rfl⟩
      simp
    · rintro ⟨rfl, rfl, rfl⟩
      simp
  | chars p =>
    obtain ⟨l, rest, g⟩ := m
    cases text with
    | nil =>
      refine iff_of_false (by simp [ways]) ?_
      rintro ⟨htext, ⟨c, hl, -⟩, -⟩
      rw [hl] at htext
      cases htext
    | cons c text =>
      simp only [ways, Matches]
      split
      · next hc =>
        simp only [List.mem_singleton, Match.mk.injEq]
        constructor
        · rintro ⟨rfl, rfl, rfl⟩
          exact ⟨rfl, ⟨c, rfl, hc⟩, rfl⟩
        · rintro ⟨htext, ⟨d, rfl, -⟩, rfl⟩
          obtain ⟨rfl, rfl⟩ := List.cons.inj htext
          exact ⟨rfl, rfl, rfl⟩
      · next hc =>
        refine iff_of_false (by simp) ?_
        rintro ⟨htext, ⟨d, rfl, hd⟩, -⟩
        obtain ⟨rfl, -⟩ := List.cons.inj htext
        exact hc hd
  | boundary =>
    obtain ⟨l, rest, g⟩ := m
    simp only [ways, Matches]
    split
    · next hb =>
      simp only [List.mem_singleton, Match.mk.injEq]
      constructor
      · rintro ⟨rfl, rfl, rfl⟩
        exact ⟨rfl, ⟨bne_iff_ne.mp hb, rfl⟩, rfl⟩
      · rintro ⟨rfl, ⟨-, rfl⟩, rfl⟩
        exact ⟨rfl, rfl, rfl⟩
    · next hb =>
      refine iff_of_false (by simp) ?_
      rintro ⟨rfl, ⟨hne, rfl⟩, -⟩
      exact hb (bne_iff_ne.mpr hne)
  | many p => exact mem_greedy_iff
  | seq r s ihr ihs =>
    simp only [ways, Matches, List.mem_flatMap, List.mem_map, ihr, ihs]
    constructor
    · rintro ⟨m₁, ⟨rfl, h₁⟩, m₂, ⟨hrest, h₂⟩, rfl⟩
      refine ⟨?_, m₁.taken, m₂.taken, m₁.groups, m₂.groups, hrest ▸ h₁, h₂, rfl, rfl⟩
      rw [← hrest]
      exact List.append_assoc _ _ _
    · rintro ⟨htext, l₁, l₂, g₁, g₂, h₁, h₂, hl, hg⟩
      obtain ⟨l, rest, g⟩ := m
      subst hl hg
      exact ⟨⟨l₁, l₂ ++ rest, g₁⟩, ⟨by rw [← htext, List.append_assoc], h₁⟩, ⟨l₂, rest, g₂⟩,
        ⟨rfl, h₂⟩, rfl⟩
  | alt r s ihr ihs =>
    simp only [ways, Matches, List.mem_append, ihr, ihs]
    exact and_or_left.symm
  | group r ih =>
    simp only [ways, Matches, List.mem_map, ih]
    constructor
    · rintro ⟨m₁, ⟨htext, h⟩, rfl⟩
      exact ⟨htext, m₁.groups, h, rfl⟩
    · rintro ⟨htext, g', h, hg⟩
      obtain ⟨l, rest, g⟩ := m
      have hg : g = l :: g' := hg
      exact ⟨⟨l, rest, g'⟩, ⟨htext, h⟩, by rw [hg]⟩

theorem matches_of_first (h : r.first isWord prev text = some m) :
    m.taken ++ m.rest = text ∧ r.Matches isWord prev m.taken m.rest m.groups :=
  mem_ways_iff.mp (List.mem_of_mem_head? h)

theorem exists_first {g : List (List χ)} (h : r.Matches isWord prev l rest g) :
    ∃ m, r.first isWord prev (l ++ rest) = some m := by
  have hmem : ⟨l, rest, g⟩ ∈ r.ways isWord prev (l ++ rest) := mem_ways_iff.mpr ⟨rfl, h⟩
  exact ⟨_, List.head?_eq_some_head (List.ne_nil_of_mem hmem)⟩

theorem taken_ne_nil (hr : r.takes = true) {g : List (List χ)}
    (h : r.Matches isWord prev l rest g) : l ≠ [] := by
  induction r generalizing prev l rest g with
  | chars p =>
    obtain ⟨⟨c, rfl, -⟩, -⟩ := h
    exact List.cons_ne_nil _ _
  | seq r s ihr ihs =>
    obtain ⟨l₁, l₂, g₁, g₂, h₁, h₂, rfl, -⟩ := h
    intro hnil
    have hnil := List.append_eq_nil_iff.mp hnil
    rcases Bool.or_eq_true_iff.mp hr with hr | hr
    · exact ihr hr h₁ hnil.1
    · exact ihs hr h₂ hnil.2
  | alt r s ihr ihs =>
    obtain ⟨hr, hs⟩ := Bool.and_eq_true_iff.mp hr
    exact h.elim (ihr hr) (ihs hs)
  | group r ih =>
    obtain ⟨g', h, -⟩ := h
    exact ih hr h
  | empty | boundary | many => cases hr

/-! ### Expressions made of others -/

variable {same : ℕ → ℕ → Bool} {w : List ℕ} {g : List (List χ)}

/-- A text, up to what counts as the same character. -/
def Spells (same : ℕ → ℕ → Bool) (w : List ℕ) (l : List χ) : Prop :=
  List.Forall₂ (fun d c => isIn (same d) c = true) w l

instance (w : List ℕ) (l : List χ) : Decidable (Spells same w l) :=
  inferInstanceAs (Decidable (List.Forall₂ _ w l))

/-- The character before what follows a text. -/
theorem getLast?_cons_or {χ : Type} (c : χ) (x : List χ) (prev : Option χ) :
    (c :: x).getLast?.or prev = x.getLast?.or (some c) := by
  rw [List.getLast?_cons]
  cases x.getLast? <;> rfl

theorem getLast?_cons_eq_or {χ : Type} (c : χ) (x : List χ) :
    (c :: x).getLast? = x.getLast?.or (some c) := by
  rw [← getLast?_cons_or c x none, Option.or_none]

theorem matches_text_iff : (Regex.text same w).Matches isWord prev l rest g ↔
    Spells same w l ∧ g = [] := by
  induction w generalizing prev l g with
  | nil =>
    refine and_congr_left fun _ => ?_
    rw [Spells, List.forall₂_nil_left_iff]
  | cons d w ih =>
    simp only [Regex.text, Matches, ih]
    constructor
    · rintro ⟨_, l₂, _, _, ⟨⟨c, rfl, hc⟩, rfl⟩, ⟨hl, rfl⟩, rfl, rfl⟩
      exact ⟨List.Forall₂.cons hc hl, rfl⟩
    · rintro ⟨hl, rfl⟩
      cases hl with
      | cons hc hl => exact ⟨[_], _, [], [], ⟨⟨_, rfl, hc⟩, rfl⟩, ⟨hl, rfl⟩, rfl, rfl⟩

theorem matches_oneOrMore_iff : (oneOrMore p).Matches isWord prev l rest g ↔
    (l ≠ [] ∧ ∀ c ∈ l, isIn p c = true) ∧ g = [] := by
  simp only [oneOrMore, Matches]
  constructor
  · rintro ⟨_, l₂, _, _, ⟨⟨c, rfl, hc⟩, rfl⟩, ⟨hl, rfl⟩, rfl, rfl⟩
    exact ⟨⟨List.cons_ne_nil _ _, by simpa using ⟨hc, hl⟩⟩, rfl⟩
  · rintro ⟨⟨hne, hl⟩, rfl⟩
    obtain ⟨c, l, rfl⟩ := List.exists_cons_of_ne_nil hne
    exact ⟨[c], l, [], [], ⟨⟨c, rfl, hl c List.mem_cons_self⟩, rfl⟩,
      ⟨fun d hd => hl d (List.mem_cons_of_mem c hd), rfl⟩, rfl, rfl⟩

theorem matches_times_iff {n : ℕ} : (times (chars p) n).Matches isWord prev l rest g ↔
    (l.length = n ∧ ∀ c ∈ l, isIn p c = true) ∧ g = [] := by
  induction n generalizing prev l g with
  | zero =>
    simp only [times, Matches, List.length_eq_zero_iff]
    constructor
    · rintro ⟨rfl, rfl⟩
      exact ⟨⟨rfl, by simp⟩, rfl⟩
    · rintro ⟨⟨rfl, -⟩, rfl⟩
      exact ⟨rfl, rfl⟩
  | succ n ih =>
    simp only [times, Matches, ih]
    constructor
    · rintro ⟨_, l₂, _, _, ⟨⟨c, rfl, hc⟩, rfl⟩, ⟨⟨hn, hl⟩, rfl⟩, rfl, rfl⟩
      exact ⟨⟨by simp [hn], by simpa using ⟨hc, hl⟩⟩, rfl⟩
    · rintro ⟨⟨hn, hl⟩, rfl⟩
      cases l with
      | nil => cases hn
      | cons c l =>
        exact ⟨[c], l, [], [], ⟨⟨c, rfl, hl c List.mem_cons_self⟩, rfl⟩,
          ⟨⟨Nat.succ.inj hn, fun d hd => hl d (List.mem_cons_of_mem c hd)⟩, rfl⟩, rfl, rfl⟩

/-- An expression whose matches do not depend on where they are, and then another one. -/
theorem matches_seq_iff {Q : List χ → Prop} (hr : ∀ {prev l rest g},
      r.Matches isWord prev l rest g ↔ Q l ∧ g = []) : (seq r s).Matches isWord prev l rest g ↔
    ∃ l₁ l₂, Q l₁ ∧ s.Matches isWord (l₁.getLast?.or prev) l₂ rest g ∧ l = l₁ ++ l₂ := by
  constructor
  · rintro ⟨l₁, l₂, _, g, h₁, h₂, rfl, rfl⟩
    obtain ⟨hl₁, rfl⟩ := hr.mp h₁
    exact ⟨l₁, l₂, hl₁, h₂, rfl⟩
  · rintro ⟨l₁, l₂, h₁, h₂, rfl⟩
    exact ⟨l₁, l₂, [], g, hr.mpr ⟨h₁, rfl⟩, h₂, rfl, rfl⟩

theorem matches_boundary_seq_iff : (seq boundary s).Matches isWord prev l rest g ↔
    isWordAt isWord prev ≠ isWordAt isWord (l ++ rest).head? ∧ s.Matches isWord prev l rest g := by
  constructor
  · rintro ⟨_, l₂, _, g, ⟨⟨hprev, rfl⟩, rfl⟩, h, rfl, rfl⟩
    exact ⟨hprev, h⟩
  · rintro ⟨hprev, h⟩
    exact ⟨[], l, [], g, ⟨⟨hprev, rfl⟩, rfl⟩, h, rfl, rfl⟩

theorem matches_group_seq_iff {Q : List χ → Prop} (hr : ∀ {prev l rest g},
      r.Matches isWord prev l rest g ↔ Q l ∧ g = []) :
    (seq (group r) s).Matches isWord prev l rest g ↔ ∃ l₁ l₂ g₂, Q l₁ ∧
      s.Matches isWord (l₁.getLast?.or prev) l₂ rest g₂ ∧ l = l₁ ++ l₂ ∧ g = l₁ :: g₂ := by
  constructor
  · rintro ⟨l₁, l₂, _, g, ⟨g', h₁, rfl⟩, h₂, rfl, rfl⟩
    obtain ⟨hl₁, rfl⟩ := hr.mp h₁
    exact ⟨l₁, l₂, g, hl₁, h₂, rfl, rfl⟩
  · rintro ⟨l₁, l₂, g₂, h₁, h₂, rfl, rfl⟩
    exact ⟨l₁, l₂, [l₁], g₂, ⟨[], hr.mpr ⟨h₁, rfl⟩, rfl⟩, h₂, rfl, rfl⟩

theorem matches_optional_chars_iff : (optional (chars p)).Matches isWord prev l rest g ↔
    (l.length ≤ 1 ∧ ∀ c ∈ l, isIn p c = true) ∧ g = [] := by
  simp only [optional, Matches]
  constructor
  · rintro (⟨⟨c, rfl, hc⟩, rfl⟩ | ⟨rfl, rfl⟩)
    · exact ⟨⟨Nat.le_refl 1, by simpa using hc⟩, rfl⟩
    · exact ⟨⟨Nat.zero_le 1, by simp⟩, rfl⟩
  · rintro ⟨⟨hlen, hl⟩, rfl⟩
    match l with
    | [] => exact .inr ⟨rfl, rfl⟩
    | [c] => exact .inl ⟨⟨c, rfl, hl c List.mem_cons_self⟩, rfl⟩

/-- A repetition that ends at the boundary of a word. -/
theorem matches_many_boundary_iff :
    (seq (chars p) (seq (many p) boundary)).Matches isWord prev l rest g ↔
      (l ≠ [] ∧ ∀ c ∈ l, isIn p c = true) ∧
      isWordAt isWord l.getLast? ≠ isWordAt isWord rest.head? ∧ g = [] := by
  constructor
  · rintro ⟨_, _, _, _, ⟨⟨c, rfl, hc⟩, rfl⟩, ⟨t, _, _, _, ⟨ht, rfl⟩, ⟨⟨hend, rfl⟩, rfl⟩, rfl, rfl⟩,
      rfl, rfl⟩
    refine ⟨⟨List.cons_ne_nil _ _, by simpa using ⟨hc, ht⟩⟩, ?_, rfl⟩
    rwa [List.append_nil, List.singleton_append, getLast?_cons_eq_or]
  · rintro ⟨⟨hne, hl⟩, hend, rfl⟩
    obtain ⟨c, t, rfl⟩ := List.exists_cons_of_ne_nil hne
    rw [getLast?_cons_eq_or] at hend
    exact ⟨[c], t, [], [], ⟨⟨c, rfl, hl c List.mem_cons_self⟩, rfl⟩, ⟨t, [], [], [],
      ⟨fun d hd => hl d (List.mem_cons_of_mem c hd), rfl⟩, ⟨⟨hend, rfl⟩, rfl⟩,
      (List.append_nil t).symm, rfl⟩, rfl, rfl⟩

/-- A text has one first part of characters of a set, as far as they go. -/
theorem span_unique {w w' z z' : List χ} (hw : ∀ c ∈ w, isIn p c = true)
    (hw' : ∀ c ∈ w', isIn p c = true) (hz : ∀ c ∈ z.head?, ¬ isIn p c = true)
    (hz' : ∀ c ∈ z'.head?, ¬ isIn p c = true) (h : w ++ z = w' ++ z') : w = w' ∧ z = z' := by
  induction w generalizing w' with
  | nil =>
    cases w' with
    | nil => exact ⟨rfl, h⟩
    | cons c w' =>
      exact (hz c (by rw [← List.nil_append z, h]; rfl) (hw' c List.mem_cons_self)).elim
  | cons c w ih =>
    cases w' with
    | nil => exact (hz' c (by rw [← List.nil_append z', ← h]; rfl) (hw c List.mem_cons_self)).elim
    | cons d w' =>
      obtain ⟨rfl, htail⟩ := List.cons.inj h
      obtain ⟨rfl, rfl⟩ := ih (fun e he => hw e (List.mem_cons_of_mem c he))
        (fun e he => hw' e (List.mem_cons_of_mem c he)) htail
      exact ⟨rfl, rfl⟩

theorem Spells.mem {l : List χ} (h : Spells same w l) {c : χ} (hc : c ∈ l) :
    ∃ d ∈ w, isIn (same d) c = true := by
  induction h with
  | nil => cases hc
  | cons hd _ ih =>
    rcases List.mem_cons.mp hc with rfl | hc
    · exact ⟨_, List.mem_cons_self, hd⟩
    · obtain ⟨d, hd, hsame⟩ := ih hc
      exact ⟨d, List.mem_cons_of_mem _ hd, hsame⟩

theorem Spells.length {l : List χ} (h : Spells same w l) : l.length = w.length :=
  (List.Forall₂.length_eq h).symm

/-! ### What the engine tries first -/

theorem first_many : first isWord (many p) prev text =
    some ⟨text.takeWhile (isIn p), text.dropWhile (isIn p), []⟩ := by
  induction text generalizing prev with
  | nil => rfl
  | cons c rest ih =>
    rw [first, ways, greedy]
    split
    · next hc =>
      have ih : (greedy p rest).head? = _ := @ih none
      rw [List.head?_append, List.head?_map, ih, List.takeWhile_cons_of_pos hc,
        List.dropWhile_cons_of_pos hc]
      rfl
    · next hc =>
      rw [List.takeWhile_cons_of_neg hc, List.dropWhile_cons_of_neg hc]
      rfl

theorem first_seq : first isWord (seq r s) prev text =
    (r.ways isWord prev text).findSome? fun m =>
      (s.first isWord (m.taken.getLast?.or prev) m.rest).map m.followedBy := by
  rw [first, ways, List.head?_flatMap]
  simp only [first, List.head?_map]

/-- An expression that ends with another one. -/
inductive Last (s : Regex) : Regex → Prop
  | refl : Last s s
  | seq (r : Regex) {s' : Regex} : Last s s' → Last s (seq r s')

theorem exists_first_of_last (hlast : Last s r) (h : r.first isWord prev text = some m) :
    ∃ prev' text' m', s.first isWord prev' text' = some m' ∧ m'.rest = m.rest := by
  induction hlast generalizing prev text m with
  | refl => exact ⟨prev, text, m, h, rfl⟩
  | seq r _ ih =>
    rw [first_seq] at h
    obtain ⟨m₁, -, hm⟩ := List.exists_of_findSome?_eq_some h
    obtain ⟨m₂, h₂, rfl⟩ := Option.map_eq_some_iff.mp hm
    obtain ⟨prev', text', m', h', hrest⟩ := ih h₂
    exact ⟨prev', text', m', h', hrest⟩

theorem not_isIn_of_first_many (hlast : Last (many p) r) (h : r.first isWord prev text = some m) :
    ∀ c ∈ m.rest.head?, ¬ isIn p c = true := by
  obtain ⟨_, text', m', h', hrest⟩ := exists_first_of_last hlast h
  rw [first_many] at h'
  have hdrop : text'.dropWhile (isIn p) = m.rest :=
    (congrArg Match.rest (Option.some.inj h')).trans hrest
  intro c hc
  have hnot := List.head?_dropWhile_not (isIn p) text'
  rw [hdrop, show m.rest.head? = some c from hc] at hnot
  exact Bool.eq_false_iff.mp hnot

theorem pairwise_greedy (p : ℕ → Bool) (text : List χ) :
    (greedy p text).Pairwise fun m m' => m'.taken.length < m.taken.length := by
  induction text with
  | nil => exact List.pairwise_singleton _ _
  | cons c rest ih =>
    rw [greedy]
    split
    · refine List.pairwise_append.mpr ⟨?_, List.pairwise_singleton _ _, ?_⟩
      · rw [List.pairwise_map]
        exact ih.imp fun h => Nat.succ_lt_succ h
      · intro m hm m' hm'
        obtain ⟨m, -, rfl⟩ := List.mem_map.mp hm
        rw [List.mem_singleton.mp hm']
        exact Nat.zero_lt_succ _
    · exact List.pairwise_singleton _ _

/-- There is no boundary further on among the characters that could be repeated. -/
theorem eq_of_first_many_boundary (hlast : Last (seq (many p) boundary) r)
    (h : r.first isWord prev text = some m) {v : List χ} (hv : v ≠ [])
    (hp : ∀ c ∈ v, isIn p c = true) (hrest : m.rest = v ++ rest) :
    isWordAt isWord v.getLast? = isWordAt isWord rest.head? := by
  obtain ⟨prev', text', m', h', hrest'⟩ := exists_first_of_last hlast h
  rw [first_seq, ways] at h'
  obtain ⟨longer, m₁, shorter, hgreedy, hm₁, hnone⟩ := List.findSome?_eq_some_iff.mp h'
  obtain ⟨m₂, hm₂, rfl⟩ := Option.map_eq_some_iff.mp hm₁
  obtain ⟨htext, ⟨-, htaken⟩, -⟩ := matches_of_first hm₂
  rw [htaken] at htext
  have hmem₁ : m₁ ∈ greedy p text' := by
    rw [hgreedy]
    exact List.mem_append_right _ List.mem_cons_self
  obtain ⟨htext₁, hp₁, -⟩ := mem_greedy_iff.mp hmem₁
  have hrest₂ : m₂.rest = v ++ rest := hrest'.trans hrest
  -- the repetition could have gone on to there
  have hmem : (⟨m₁.taken ++ v, rest, []⟩ : Match χ) ∈ greedy p text' := by
    refine mem_greedy_iff.mpr ⟨?_, fun c hc => (List.mem_append.mp hc).elim (hp₁ c) (hp c), rfl⟩
    rw [← htext₁, ← htext, hrest₂, List.append_assoc]
    rfl
  have hlength : m₁.taken.length < (m₁.taken ++ v).length := by
    have hpos := List.length_pos_iff.mpr hv
    rw [List.length_append]
    omega
  have hpairwise := pairwise_greedy p text'
  rw [hgreedy] at hmem hpairwise
  rcases List.mem_append.mp hmem with hmem | hmem
  · have hnone := Option.map_eq_none_iff.mp (hnone _ hmem)
    by_contra hne
    have hlast : (m₁.taken ++ v).getLast?.or prev' = v.getLast? := by
      rw [List.getLast?_append, List.getLast?_eq_getLast_of_ne_nil hv]
      rfl
    have hmatches : boundary.Matches isWord ((m₁.taken ++ v).getLast?.or prev') [] rest [] := by
      rw [hlast]
      exact ⟨⟨hne, rfl⟩, rfl⟩
    obtain ⟨m', hm'⟩ := exists_first hmatches
    exact Option.some_ne_none _ (hm'.symm.trans hnone)
  · exfalso
    rcases List.mem_cons.mp hmem with hmem | hmem
    · exact Nat.ne_of_gt hlength (congrArg (fun m : Match χ => m.taken.length) hmem)
    · have hlt := (List.pairwise_cons.mp (List.pairwise_append.mp hpairwise).2.1).1 _ hmem
      exact Nat.lt_asymm hlength hlt

/-! ### What the engine does not look at -/

theorem isWordAt_map_code (prev : Option χ) :
    isWordAt isWord (prev.map HasCode.code) = isWordAt isWord prev := by
  cases prev <;> rfl

theorem greedy_codes (p : ℕ → Bool) (text : List χ) :
    greedy p (codes text) = (greedy p text).map Match.toCodes := by
  induction text with
  | nil => rfl
  | cons c rest ih =>
    have hc : isIn p (HasCode.code c) = isIn p c := rfl
    rw [codes, List.map_cons, greedy, greedy, hc]
    split
    · rw [List.map_append, List.map_map, show rest.map HasCode.code = codes rest from rfl, ih,
        List.map_map]
      rfl
    · rfl

/-- **The engine looks at the code points alone.** -/
theorem ways_codes : r.ways isWord (prev.map HasCode.code) (codes text) =
    (r.ways isWord prev text).map Match.toCodes := by
  induction r generalizing prev text with
  | seq r s ihr ihs =>
    rw [ways, ways, ihr, List.flatMap_map, List.map_flatMap]
    congr 1
    funext m
    have hprev : m.toCodes.taken.getLast?.or (prev.map HasCode.code) =
        (m.taken.getLast?.or prev).map HasCode.code := by
      rw [Match.toCodes, codes, List.getLast?_map]
      cases m.taken.getLast? <;> rfl
    rw [hprev, show m.toCodes.rest = codes m.rest from rfl, ihs, List.map_map, List.map_map]
    congr 1
    funext m'
    simp [Match.followedBy, Match.toCodes, codes]
  | alt r s ihr ihs => rw [ways, ways, ihr, ihs, List.map_append]
  | group r ih =>
    rw [ways, ways, ih, List.map_map, List.map_map]
    rfl
  | boundary =>
    have hhead : isWordAt isWord (codes text).head? = isWordAt isWord text.head? := by
      rw [codes, List.head?_map, isWordAt_map_code]
    rw [ways, ways, isWordAt_map_code, hhead]
    split <;> rfl
  | empty => rfl
  | many p => exact greedy_codes p text
  | chars p =>
    cases text with
    | nil => rfl
    | cons c rest =>
      have hc : isIn p (HasCode.code c) = isIn p c := rfl
      rw [codes, List.map_cons, ways, ways, hc]
      split <;> rfl

/-- What an expression matches, in the code points. -/
theorem matches_codes_iff :
    (∃ g, r.Matches isWord (prev.map HasCode.code) (codes l) (codes rest) g) ↔
      ∃ g, r.Matches isWord prev l rest g := by
  have hlength : ∀ m : Match χ, m.taken ++ m.rest = l ++ rest → codes m.taken = codes l →
      m.taken = l ∧ m.rest = rest := by
    intro m htext hcodes
    have hlen := congrArg List.length hcodes
    rw [codes, codes, List.length_map, List.length_map] at hlen
    exact List.append_inj htext hlen
  constructor
  · rintro ⟨g, hg⟩
    have hmem : ⟨codes l, codes rest, g⟩ ∈
        r.ways isWord (prev.map HasCode.code) (codes (l ++ rest)) :=
      mem_ways_iff.mpr ⟨(List.map_append ..).symm, hg⟩
    rw [ways_codes] at hmem
    obtain ⟨m, hm, heq⟩ := List.mem_map.mp hmem
    obtain ⟨htext, hmatches⟩ := mem_ways_iff.mp hm
    obtain ⟨htaken, hrest⟩ := hlength m htext (congrArg Match.taken heq)
    rw [htaken, hrest] at hmatches
    exact ⟨_, hmatches⟩
  · rintro ⟨g, hg⟩
    have hmem : ⟨l, rest, g⟩ ∈ r.ways isWord prev (l ++ rest) := mem_ways_iff.mpr ⟨rfl, hg⟩
    have hcodes := List.mem_map_of_mem (f := Match.toCodes) hmem
    rw [← ways_codes] at hcodes
    exact ⟨_, (mem_ways_iff.mp hcodes).2⟩

/-- What an expression matches by itself. -/
theorem matches_alone_codes_iff : (∃ g, r.Matches isWord none (codes l) [] g) ↔
    ∃ g, r.Matches isWord none l [] g := by
  have hcodes : (∃ g, r.Matches isWord ((none : Option χ).map HasCode.code) (codes l)
      (codes ([] : List χ)) g) ↔ ∃ g, r.Matches isWord none l [] g := matches_codes_iff
  exact hcodes

theorem code_ne_of_matches {c : ℕ} (hc : r.avoids c = true) {g : List (List χ)}
    (h : r.Matches isWord prev l rest g) : ∀ d ∈ l, HasCode.code d ≠ c := by
  have hchar : ∀ p : ℕ → Bool, (!p c) = true → ∀ d : χ, isIn p d = true → HasCode.code d ≠ c := by
    rintro p hp d hd rfl
    rw [show p (HasCode.code d) = true from hd] at hp
    cases hp
  induction r generalizing prev l rest g with
  | empty =>
    obtain ⟨rfl, -⟩ := h
    exact fun d hd => by cases hd
  | boundary =>
    obtain ⟨⟨-, rfl⟩, -⟩ := h
    exact fun d hd => by cases hd
  | chars p =>
    obtain ⟨⟨d, rfl, hd⟩, -⟩ := h
    intro e he
    rw [List.mem_singleton.mp he]
    exact hchar p hc d hd
  | many p => exact fun d hd => hchar p hc d (h.1 d hd)
  | seq r s ihr ihs =>
    obtain ⟨hr, hs⟩ := Bool.and_eq_true_iff.mp hc
    obtain ⟨l₁, l₂, g₁, g₂, h₁, h₂, rfl, -⟩ := h
    exact fun d hd => (List.mem_append.mp hd).elim (ihr hr h₁ d) (ihs hs h₂ d)
  | alt r s ihr ihs =>
    obtain ⟨hr, hs⟩ := Bool.and_eq_true_iff.mp hc
    exact h.elim (ihr hr) (ihs hs)
  | group r ih =>
    obtain ⟨g', h, -⟩ := h
    exact ih hc h

end Regex
