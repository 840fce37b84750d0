import NextBallUp.Lib.Substitution
import NextBallUp.Lib.Texts

/-!
# Storage keys

The key under which the raw file of a video is stored. Its last component is the name that the user
has given to the file, reduced to a few characters.

## Main definitions

* `sanitizeFilenameComponent`: the component that a name is reduced to

## Main results

* `sanitizeFilenameComponent_of_isSafeComponent`: a safe component is left as it is
* `isSafeComponent_sanitize_iff`: **the component is safe** unless it is cut behind a separator

## What is deliberately absent

The rest of the key. `storage_key_for_video` puts the ids of the team and of the video before the
component.

## The cut

Everything but the end of the component is as it should be for every name. The end is stripped
before the name is cut, and so a dot or an underscore at the 200th place stays.
-/

namespace NextBallUp.StorageKeys

/-- `[A-Za-z0-9-]` -/
def isKept (c : ℕ) : Bool :=
  (65 ≤ c && c ≤ 90) || (97 ≤ c && c ≤ 122) || (48 ≤ c && c ≤ 57) || c = 45

/-- `[A-Za-z0-9._-]` -/
def isSafe (c : ℕ) : Bool := isKept c || c = 46 || c = 95

/-- The characters that are stripped: `"._"` -/
def isStripped (c : ℕ) : Bool := c = 46 || c = 95

def isDot (c : ℕ) : Bool := c = 46

/-- `_SAFE_FILENAME_CHARS`, and what replaces its matches. -/
def safeFilenameChars : Pass ℕ :=
  (Regex.chars fun c => !isSafe c).pass (fun _ => false) rfl fun _ => [95]

/-- `_MULTIDOT`, and what replaces its matches. -/
def multidot : Pass ℕ :=
  (Regex.seq (.chars isDot) (.oneOrMore isDot)).pass (fun _ => false) rfl fun _ => [95, 95]

/-- `_sanitize_filename_component` -/
def sanitizeFilenameComponent (filename : List ℕ) : List ℕ :=
  if filename = [] then "upload".codePoints
  else
    let cleaned := safeFilenameChars.sub none filename
    let cleaned := multidot.sub none cleaned
    let cleaned := strip isStripped cleaned
    (if cleaned = [] then "upload".codePoints else cleaned).take 200

/-- What a component of a key has to be. -/
structure IsSafeComponent (s : List ℕ) : Prop where
  ne_nil : s ≠ []
  length_le : s.length ≤ 200
  isSafe : ∀ c ∈ s, isSafe c = true
  no_dots : ¬ [46, 46] <:+: s
  head : ∀ c ∈ s.head?, ¬ isStripped c = true
  last : ∀ c ∈ s.getLast?, ¬ isStripped c = true

/-! ### The steps -/

variable {prev : Option ℕ} {c : ℕ} {text rest name : List ℕ}

/-- What becomes of a character. -/
def underscored (c : ℕ) : ℕ := if isSafe c then c else 95

theorem safeFilenameChars_sub (prev : Option ℕ) (text : List ℕ) :
    safeFilenameChars.sub prev text = text.map underscored := by
  induction text generalizing prev with
  | nil => rfl
  | cons c rest ih =>
    cases hc : isSafe c with
    | true =>
      have hfind : safeFilenameChars.find prev (c :: rest) = none := by
        simp [safeFilenameChars, Regex.pass, Regex.first, Regex.ways, Regex.isIn, HasCode.code, hc]
      rw [Pass.sub_cons hfind, ih, List.map_cons, underscored, if_pos hc]
    | false =>
      have hfind : safeFilenameChars.find prev (c :: rest) = some ⟨[c], rest, []⟩ := by
        simp [safeFilenameChars, Regex.pass, Regex.first, Regex.ways, Regex.isIn, HasCode.code, hc]
      rw [Pass.sub_of_find hfind, ih, List.map_cons, underscored, hc]
      rfl

/-- A match takes a run of dots to its end. -/
theorem dots_of_multidot_find {m : Match ℕ} (h : multidot.find prev text = some m) :
    ∃ l, m.taken = 46 :: 46 :: l ∧ (∀ c ∈ l, c = 46) ∧ ∀ c ∈ m.rest.head?, c ≠ 46 := by
  obtain ⟨-, l₁, l₂, g₁, g₂, ⟨⟨c, rfl, hc⟩, -⟩,
    ⟨l₃, l₄, g₃, g₄, ⟨⟨d, rfl, hd⟩, -⟩, ⟨hl, -⟩, rfl, -⟩, htaken, -⟩ := Regex.matches_of_first h
  have hdot : ∀ c, Regex.isIn isDot c = true → c = 46 := fun c hc => by
    simpa [Regex.isIn, isDot, HasCode.code] using hc
  have hrest := Regex.not_isIn_of_first_many (.seq _ (.seq _ .refl)) h
  refine ⟨l₄, by rw [htaken, hdot c hc, hdot d hd]; rfl, fun e he => hdot e (hl e he), ?_⟩
  rintro e he rfl
  exact hrest 46 he rfl

theorem multidot_find_of_not_dot (h : ∀ c ∈ text.head?, c ≠ 46) :
    multidot.find prev text = none := by
  cases hfind : multidot.find prev text with
  | none => rfl
  | some m =>
    obtain ⟨l, htaken, -⟩ := dots_of_multidot_find hfind
    have htext := multidot.taken_append_rest hfind
    rw [htaken] at htext
    exact (h 46 (by rw [← htext]; rfl) rfl).elim

theorem multidot_find_of_one (h : ∀ c ∈ rest.head?, c ≠ 46) :
    multidot.find prev (46 :: rest) = none := by
  cases hfind : multidot.find prev (46 :: rest) with
  | none => rfl
  | some m =>
    obtain ⟨l, htaken, -⟩ := dots_of_multidot_find hfind
    have htext := multidot.taken_append_rest hfind
    rw [htaken] at htext
    obtain ⟨-, htext⟩ := List.cons.inj htext
    exact (h 46 (by rw [← htext]; rfl) rfl).elim

theorem exists_multidot_find (prev : Option ℕ) (rest : List ℕ) :
    ∃ m, multidot.find prev (46 :: 46 :: rest) = some m ∧ m.rest = rest.dropWhile isDot := by
  have hmatches : (Regex.seq (.chars isDot) (.oneOrMore isDot)).Matches (fun _ => false) prev
      [46, 46] rest [] :=
    ⟨[46], [46], [], [], ⟨⟨46, rfl, rfl⟩, rfl⟩, ⟨[46], [], [], [], ⟨⟨46, rfl, rfl⟩, rfl⟩,
      ⟨by simp, rfl⟩, rfl, rfl⟩, rfl, rfl⟩
  obtain ⟨m, hm⟩ := Regex.exists_first hmatches
  refine ⟨m, hm, ?_⟩
  obtain ⟨l, htaken, hl, hrest⟩ := dots_of_multidot_find hm
  have htext := multidot.taken_append_rest hm
  rw [htaken] at htext
  obtain rfl : l ++ m.rest = rest := (List.cons.inj (List.cons.inj htext).2).2
  rw [List.dropWhile_append_of_pos fun c hc => by rw [hl c hc]; rfl]
  exact (dropWhile_head fun c hc hdot => hrest c hc (by simpa [isDot] using hdot)).symm

/-- A character that becomes a dot or an underscore. -/
def isSeparator (c : ℕ) : Bool := !isKept c

/-- For each character of what becomes of a text, whether it is a dot or an underscore. So many dots
come before the text. -/
def separators : ℕ → List ℕ → List Bool
  | _, [] => []
  | dots, c :: rest =>
    if c = 46 then (if dots < 2 then [true] else []) ++ separators (dots + 1) rest
    else isSeparator c :: separators 0 rest

theorem underscored_eq_dot : underscored c = 46 ↔ c = 46 := by
  unfold underscored
  split
  · rfl
  · next hc =>
    refine iff_of_false (by decide) ?_
    rintro rfl
    exact hc rfl

theorem isStripped_underscored (c : ℕ) : isStripped (underscored c) = isSeparator c := by
  unfold underscored
  split
  · next hc =>
    cases hk : isKept c with
    | true =>
      have hne : c ≠ 46 ∧ c ≠ 95 := by
        constructor
        · rintro rfl
          cases hk
        · rintro rfl
          cases hk
      simp [isStripped, isSeparator, hk, hne.1, hne.2]
    | false => simpa [isSafe, isStripped, isSeparator, hk] using hc
  · next hc =>
    have hk : isKept c = false := by
      cases hk : isKept c with
      | true => simp [isSafe, hk] at hc
      | false => rfl
    rw [isSeparator, hk]
    rfl

theorem separators_of_head {dots : ℕ} (h : ∀ c ∈ rest.head?, c ≠ 46) :
    separators dots rest = separators 0 rest := by
  cases rest with
  | nil => rfl
  | cons c rest =>
    have hc : c ≠ 46 := h c rfl
    rw [separators, separators, if_neg hc, if_neg hc]

theorem separators_of_dots {dots : ℕ} (h : 2 ≤ dots) (text : List ℕ) :
    separators dots text = separators 0 (text.dropWhile isDot) := by
  induction text generalizing dots with
  | nil => rfl
  | cons c rest ih =>
    by_cases hc : c = 46
    · subst hc
      rw [separators, if_pos rfl, if_neg (by omega), List.nil_append, ih (by omega)]
      rfl
    · rw [List.dropWhile_cons_of_neg (by simpa [isDot] using hc)]
      exact separators_of_head fun d hd => by rwa [← Option.some.inj hd]

theorem dropWhile_map_underscored (text : List ℕ) :
    (text.map underscored).dropWhile isDot = (text.dropWhile isDot).map underscored := by
  have hdot : isDot ∘ underscored = isDot := by
    funext c
    simp [isDot, underscored_eq_dot]
  rw [List.dropWhile_map, hdot]

/-- Dots and underscores in what becomes of a text, before it is stripped and cut. -/
theorem map_isStripped_sub (prev : Option ℕ) (text : List ℕ) :
    (multidot.sub prev (text.map underscored)).map isStripped = separators 0 text := by
  induction hn : text.length using Nat.strong_induction_on generalizing prev text with
  | _ n ih =>
    have ih : ∀ prev (t : List ℕ), t.length < text.length →
        (multidot.sub prev (t.map underscored)).map isStripped = separators 0 t :=
      fun prev t ht => ih t.length (hn ▸ ht) prev t rfl
    cases text with
    | nil => rfl
    | cons c rest =>
      by_cases hc : c = 46
      · subst hc
        rw [separators, if_pos rfl]
        cases rest with
        | nil => rfl
        | cons d rest =>
          by_cases hd : d = 46
          · subst hd
            have hlt : (rest.dropWhile isDot).length < (46 :: 46 :: rest).length :=
              Nat.lt_of_le_of_lt (List.length_dropWhile_le _ _)
                (by simp only [List.length_cons]; omega)
            obtain ⟨m, hfind, hrest⟩ := exists_multidot_find prev (rest.map underscored)
            rw [List.map_cons, List.map_cons, show underscored 46 = 46 from rfl,
              Pass.sub_of_find hfind, hrest, dropWhile_map_underscored, List.map_append, ih _ _ hlt,
              separators, separators_of_dots (Nat.le_refl 2)]
            rfl
          · have hhead : ∀ e ∈ ((d :: rest).map underscored).head?, e ≠ 46 := by
              intro e he
              rw [← Option.some.inj he]
              exact fun h => hd (underscored_eq_dot.mp h)
            have hfind : multidot.find prev (46 :: (d :: rest).map underscored) = none :=
              multidot_find_of_one hhead
            have hone : separators 1 (d :: rest) = separators 0 (d :: rest) :=
              separators_of_head fun e he => by rwa [← Option.some.inj he]
            rw [List.map_cons, show underscored 46 = 46 from rfl, Pass.sub_cons hfind,
              List.map_cons, ih _ _ (by simp), hone]
            rfl
      · have hfind : multidot.find prev (underscored c :: rest.map underscored) = none := by
          refine multidot_find_of_not_dot fun e he => ?_
          rw [← Option.some.inj he]
          exact fun h => hc (underscored_eq_dot.mp h)
        rw [List.map_cons, Pass.sub_cons hfind, List.map_cons, ih _ _ (by simp),
          isStripped_underscored, separators, if_neg hc]

theorem separators_append {dots : ℕ} (x : List ℕ) {y : List ℕ} (hy : ∀ c ∈ y.head?, c ≠ 46) :
    separators dots (x ++ y) = separators dots x ++ separators 0 y := by
  induction x generalizing dots with
  | nil => exact separators_of_head hy
  | cons c x ih =>
    rw [List.cons_append, separators, separators]
    split
    · rw [ih, List.append_assoc]
    · rw [ih, List.cons_append]

theorem ne_dot_of_isKept (h : ¬ isSeparator c = true) : c ≠ 46 := by
  rintro rfl
  exact h rfl

theorem forall_separators (dots : ℕ) (h : ∀ c ∈ text, isSeparator c = true) :
    ∀ b ∈ separators dots text, b = true := by
  induction text generalizing dots with
  | nil => exact fun b hb => by cases hb
  | cons c rest ih =>
    have ih := fun n => ih n fun d hd => h d (List.mem_cons_of_mem c hd)
    intro b hb
    rw [separators] at hb
    split at hb
    · rcases List.mem_append.mp hb with hb | hb
      · split at hb
        · exact List.mem_singleton.mp hb
        · cases hb
      · exact ih _ b hb
    · rcases List.mem_cons.mp hb with rfl | hb
      · exact h c List.mem_cons_self
      · exact ih _ b hb

/-- The separators of a name between its ends, if there are other characters. -/
theorem separators_strip {lead stem trail : List ℕ} (hstem : stem ≠ [])
    (hhead : ∀ c ∈ stem.head?, ¬ isSeparator c = true)
    (hlast : ∀ c ∈ stem.getLast?, ¬ isSeparator c = true) :
    separators 0 (lead ++ stem ++ trail) =
      separators 0 lead ++ separators 0 stem ++ separators 0 trail := by
  obtain ⟨s, k, rfl⟩ := (List.eq_nil_or_concat' stem).resolve_left hstem
  have hk : k ≠ 46 := ne_dot_of_isKept (hlast k (by simp))
  have hstem : ∀ c ∈ (s ++ [k] ++ trail).head?, c ≠ 46 := by
    intro c hc
    refine ne_dot_of_isKept (hhead c ?_)
    cases s with
    | nil => exact hc
    | cons d s => exact hc
  have hcut : ∀ y : List ℕ, ∀ c ∈ (k :: y).head?, c ≠ 46 := fun y c hc => by
    rwa [← Option.some.inj hc]
  have hcons : ∀ y : List ℕ, separators 0 (k :: y) = isSeparator k :: separators 0 y := fun y => by
    rw [separators, if_neg hk]
  rw [List.append_assoc, separators_append lead hstem, List.append_assoc, List.append_assoc,
    List.singleton_append, separators_append s (hcut trail), separators_append s (hcut []), hcons,
    hcons]
  simp [separators]

theorem head_separators (h : ∀ c ∈ text.head?, ¬ isSeparator c = true) :
    ∀ b ∈ (separators 0 text).head?, b = false := by
  cases text with
  | nil => exact fun b hb => by cases hb
  | cons c rest =>
    have hc : ¬ isSeparator c = true := h c rfl
    intro b hb
    rw [separators, if_neg (ne_dot_of_isKept hc)] at hb
    rw [← Option.some.inj hb]
    exact Bool.eq_false_iff.mpr hc

theorem last_separators (h : ∀ c ∈ text.getLast?, ¬ isSeparator c = true) :
    ∀ b ∈ (separators 0 text).getLast?, b = false := by
  rcases List.eq_nil_or_concat' text with rfl | ⟨s, k, rfl⟩
  · exact fun b hb => by cases hb
  · have hk : ¬ isSeparator k = true := h k (by simp)
    have hcut : ∀ c ∈ [k].head?, c ≠ 46 := fun c hc =>
      Option.some.inj hc ▸ ne_dot_of_isKept hk
    intro b hb
    rw [separators_append s hcut, separators, if_neg (ne_dot_of_isKept hk), separators,
      List.getLast?_concat] at hb
    rw [← Option.some.inj hb]
    exact Bool.eq_false_iff.mpr hk

/-- What is left once the ends are stripped. -/
theorem map_isStripped_strip (name : List ℕ) :
    (strip isStripped (multidot.sub none (name.map underscored))).map isStripped =
      separators 0 (strip isSeparator name) := by
  obtain ⟨lead, trail, hname, hlead, htrail, hhead, hlast⟩ := exists_strip isSeparator name
  have hmap := map_isStripped_sub none name
  by_cases hstem : strip isSeparator name = []
  · -- nothing is left
    have hall : ∀ c ∈ name, isSeparator c = true := by
      intro c hc
      rw [hname, hstem, List.append_nil] at hc
      exact (List.mem_append.mp hc).elim (hlead c) (htrail c)
    have hstripped : ∀ c ∈ multidot.sub none (name.map underscored), isStripped c = true := by
      intro c hc
      exact forall_separators 0 hall _ (hmap ▸ List.mem_map_of_mem hc)
    have hnil : strip isStripped (multidot.sub none (name.map underscored) ++ [] ++ []) = [] :=
      strip_append_append hstripped (by simp) (by simp) (by simp)
    rw [List.append_nil, List.append_nil] at hnil
    rw [hnil, hstem]
    rfl
  · rw [hname, separators_strip hstem hhead hlast, ← hname] at hmap
    obtain ⟨w, z, hsub, hleft, hz⟩ := List.map_eq_append_iff.mp hmap
    obtain ⟨x, y, rfl, hx, hy⟩ := List.map_eq_append_iff.mp hleft
    have hlead : ∀ c ∈ x, isStripped c = true := fun c hc =>
      forall_separators 0 hlead _ (hx ▸ List.mem_map_of_mem hc)
    have htrail : ∀ c ∈ z, isStripped c = true := fun c hc =>
      forall_separators 0 htrail _ (hz ▸ List.mem_map_of_mem hc)
    have hhead : ∀ c ∈ y.head?, ¬ isStripped c = true := by
      intro c hc
      have hb := head_separators hhead (isStripped c) (by rw [← hy, List.head?_map, hc]; rfl)
      exact Bool.eq_false_iff.mp hb
    have hlast : ∀ c ∈ y.getLast?, ¬ isStripped c = true := by
      intro c hc
      have hb := last_separators hlast (isStripped c) (by rw [← hy, List.getLast?_map, hc]; rfl)
      exact Bool.eq_false_iff.mp hb
    rw [hsub, strip_append_append hlead htrail hhead hlast, hy]

/-- There are no two dots in a row. -/
theorem no_dots_sub (prev : Option ℕ) (text : List ℕ) : ¬ [46, 46] <:+: multidot.sub prev text := by
  have hsub : ¬ [46, 46] <:+: multidot.sub prev text ∧
      ((∀ c ∈ text.head?, c ≠ 46) → ∀ c ∈ (multidot.sub prev text).head?, c ≠ 46) := by
    induction prev, text using Pass.induction (P := multidot) with
    | nil prev => exact ⟨fun hdots => (by cases List.infix_nil.mp hdots), fun _ c hc => by cases hc⟩
    | char prev c text h ih =>
      rw [Pass.sub_cons h]
      refine ⟨fun hdots => ?_, fun hhead => hhead⟩
      rcases List.infix_cons_iff.mp hdots with hdots | hdots
      · obtain ⟨rfl, t, ht⟩ := List.cons_prefix_cons.mp hdots
        have hhead : ∀ c ∈ text.head?, c ≠ 46 := by
          rintro c hc rfl
          obtain ⟨rest, rfl⟩ := List.head?_eq_some_iff.mp hc
          obtain ⟨m, hm, -⟩ := exists_multidot_find prev rest
          rw [h] at hm
          cases hm
        exact ih.2 hhead 46 (by rw [← ht]; rfl) rfl
      · exact ih.1 hdots
    | found prev text m h ih =>
      rw [Pass.sub_of_find h]
      have hwrite : ∀ s : List ℕ, [46, 46] <:+: 95 :: 95 :: s → [46, 46] <:+: s := by
        intro s hdots
        rcases List.infix_cons_iff.mp hdots with hdots | hdots
        · cases (List.cons_prefix_cons.mp hdots).1
        rcases List.infix_cons_iff.mp hdots with hdots | hdots
        · cases (List.cons_prefix_cons.mp hdots).1
        · exact hdots
      refine ⟨fun hdots => ih.1 (hwrite _ hdots), fun _ c hc => ?_⟩
      obtain rfl : 95 = c := Option.some.inj hc
      decide
  exact hsub.1

/-! ### The cut -/

/-- How many places a text takes in a component: a run of dots takes two at most. So many dots come
before the text. -/
def places : ℕ → List ℕ → ℕ
  | _, [] => 0
  | dots, c :: rest =>
    if c = 46 then (if dots < 2 then 1 else 0) + places (dots + 1) rest else 1 + places 0 rest

/-- A separator that stands between other characters takes the 200th place, counted from the first
of these. -/
def CutsAtSeparator (name : List ℕ) : Prop :=
  ∃ front c back, name = front ++ c :: back ∧ isSeparator c = true ∧
    (∃ k ∈ front, isKept k = true) ∧ (∃ k ∈ back, isKept k = true) ∧
      places 0 ((front ++ [c]).dropWhile isSeparator) = 200

theorem places_pos (c : ℕ) (rest : List ℕ) : 0 < places 0 (c :: rest) := by
  rw [places]
  split
  · exact Nat.add_pos_left Nat.one_pos _
  · exact Nat.add_pos_left Nat.one_pos _

/-- The splits of a text at a separator, by what comes before it. -/
theorem exists_split_cons {P : List ℕ → Prop} :
    (∃ front d back, c :: rest = front ++ d :: back ∧ isSeparator d = true ∧ P (front ++ [d])) ↔
      isSeparator c = true ∧ P [c] ∨
        ∃ front d back, rest = front ++ d :: back ∧ isSeparator d = true ∧
          P (c :: (front ++ [d])) := by
  constructor
  · rintro ⟨front, d, back, hsplit, hd, hp⟩
    cases front with
    | nil =>
      obtain ⟨rfl, rfl⟩ := List.cons.inj hsplit
      exact .inl ⟨hd, hp⟩
    | cons e front =>
      obtain ⟨rfl, rfl⟩ := List.cons.inj hsplit
      exact .inr ⟨front, d, back, rfl, hd, hp⟩
  · rintro (⟨hc, hp⟩ | ⟨front, d, back, rfl, hd, hp⟩)
    · exact ⟨[], c, rest, rfl, hc, hp⟩
    · exact ⟨c :: front, d, back, rfl, hd, hp⟩

/-- What stands at a place. -/
theorem getElem_separators (dots n : ℕ) (text : List ℕ) :
    (separators dots text)[n]? = some true ↔ ∃ front c back, text = front ++ c :: back ∧
      isSeparator c = true ∧ places dots (front ++ [c]) = n + 1 := by
  have hone : ∀ x n, 1 + x = n + 1 + 1 ↔ x = n + 1 := by
    intro x n
    omega
  have hnone : ∀ x : List ℕ, ∀ c, ¬ places 0 (x ++ [c]) = 0 := by
    intro x c
    cases x with
    | nil => exact (places_pos c []).ne'
    | cons d x => exact (places_pos d (x ++ [c])).ne'
  induction text generalizing dots n with
  | nil => simp [separators]
  | cons c rest ih =>
    rw [exists_split_cons (P := fun t => places dots t = n + 1)]
    by_cases hc : c = 46
    · subst hc
      simp only [separators, places, if_true]
      by_cases hdots : dots < 2
      · cases n with
        | zero => simp [hdots, isSeparator, isKept]
        | succ n => simp [hdots, hone, ih]
      · simp [hdots, ih]
    · simp only [separators, places, if_neg hc]
      cases n with
      | zero => simp [hnone]
      | succ n => simp [hone, ih]

theorem cutsAtSeparator_iff (name : List ℕ) :
    CutsAtSeparator name ↔ (separators 0 (strip isSeparator name))[199]? = some true := by
  have hkept : ∀ {c}, isKept c = true ↔ ¬ isSeparator c = true := by
    intro c
    simp [isSeparator]
  rw [getElem_separators]
  constructor
  · rintro ⟨front, c, back, rfl, hc, ⟨k, hk, hkept'⟩, ⟨l, hl, hlkept⟩, hplaces⟩
    have hfront : front.dropWhile isSeparator ≠ [] := fun hnil =>
      hkept.mp hkept' (List.dropWhile_eq_nil_iff.mp hnil k hk)
    have hback : back.rdropWhile isSeparator ≠ [] := fun hnil =>
      hkept.mp hlkept (List.rdropWhile_eq_nil_iff.mp hnil l hl)
    have hstem : strip isSeparator (front ++ c :: back) =
        front.dropWhile isSeparator ++ c :: back.rdropWhile isSeparator := by
      have happend : front ++ c :: back = front.takeWhile isSeparator ++
          (front.dropWhile isSeparator ++ c :: back.rdropWhile isSeparator) ++
            back.rtakeWhile isSeparator := by
        rw [List.append_assoc, List.append_assoc, List.cons_append,
          List.rdropWhile_append_rtakeWhile, ← List.append_assoc, List.takeWhile_append_dropWhile]
      rw [happend]
      refine strip_append_append (fun d => List.mem_takeWhile_imp)
        (fun d => List.mem_rtakeWhile_imp) (fun d hd => ?_) fun d hd => ?_
      · have hnot := List.head?_dropWhile_not isSeparator front
        rw [List.head?_append_of_ne_nil _ hfront] at hd
        rw [show (front.dropWhile isSeparator).head? = some d from hd] at hnot
        exact Bool.eq_false_iff.mp hnot
      · rw [List.getLast?_append_cons, List.getLast?_cons_of_ne_nil hback,
          List.getLast?_eq_getLast_of_ne_nil hback] at hd
        exact Option.some.inj hd ▸ List.rdropWhile_last_not _ _ hback
    refine ⟨front.dropWhile isSeparator, c, back.rdropWhile isSeparator, hstem, hc, ?_⟩
    rwa [List.dropWhile_append, if_neg (by simpa using hfront)] at hplaces
  · rintro ⟨front, c, back, hstem, hc, hplaces⟩
    obtain ⟨lead, trail, hname, hlead, htrail, hhead, hlast⟩ := exists_strip isSeparator name
    rw [hstem] at hname hhead hlast
    cases front with
    | nil => exact (hhead c rfl hc).elim
    | cons k front =>
      have hk : ¬ isSeparator k = true := hhead k rfl
      have hback : back ≠ [] := by
        rintro rfl
        exact hlast c List.getLast?_concat hc
      have hdrop : (lead ++ (k :: front) ++ [c]).dropWhile isSeparator = k :: front ++ [c] := by
        rw [List.append_assoc, List.dropWhile_append_of_pos hlead]
        exact List.dropWhile_cons_of_neg hk
      refine ⟨lead ++ k :: front, c, back ++ trail, by simp [hname], hc, ⟨k, by simp, hkept.mpr hk⟩,
        ⟨back.getLast hback, by simp, hkept.mpr (hlast _ ?_)⟩, by rw [hdrop, hplaces]⟩
      rw [List.getLast?_append_cons, List.getLast?_cons_of_ne_nil hback]
      exact List.getLast?_eq_getLast_of_ne_nil hback

/-- The last character of a component that is cut. -/
theorem last_take_iff {l : List ℕ} (hlast : ∀ c ∈ l.getLast?, ¬ isStripped c = true) :
    (∀ c ∈ (l.take 200).getLast?, ¬ isStripped c = true) ↔
      ¬ (l.map isStripped)[199]? = some true := by
  rw [List.getElem?_map]
  by_cases hlen : 200 ≤ l.length
  · rw [List.getLast?_take, if_neg (by decide), List.getElem?_eq_getElem (by omega)]
    simp
  · rw [List.take_of_length_le (by omega), List.getElem?_eq_none (by omega)]
    exact iff_of_true hlast (by simp)

/-! ### The component -/

theorem sanitizeFilenameComponent_eq (name : List ℕ) : sanitizeFilenameComponent name =
    if strip isStripped (multidot.sub none (name.map underscored)) = [] then "upload".codePoints
    else (strip isStripped (multidot.sub none (name.map underscored))).take 200 := by
  rw [sanitizeFilenameComponent, safeFilenameChars_sub]
  split
  · next hname =>
    rw [hname]
    rfl
  · simp only
    split
    · rfl
    · rfl

theorem isSafe_sub (hc : c ∈ multidot.sub none (name.map underscored)) : isSafe c = true := by
  rcases Pass.mem_sub hc with hc | ⟨_, _, _, -, hc⟩
  · obtain ⟨d, -, rfl⟩ := List.mem_map.mp hc
    unfold underscored
    split
    · assumption
    · rfl
  · obtain rfl : c = 95 := by simpa [multidot, Regex.pass] using hc
    rfl

theorem isInfix_strip (name : List ℕ) :
    (strip isStripped (multidot.sub none (name.map underscored))).take 200 <:+:
      multidot.sub none (name.map underscored) := by
  obtain ⟨lead, trail, hsub, -⟩ :=
    exists_strip isStripped (multidot.sub none (name.map underscored))
  exact (List.take_prefix _ _).isInfix.trans ⟨lead, trail, hsub.symm⟩

theorem isSafe_sanitize (name : List ℕ) :
    ∀ c ∈ sanitizeFilenameComponent name, isSafe c = true := by
  rw [sanitizeFilenameComponent_eq]
  split
  · decide
  · exact fun c hc => isSafe_sub ((isInfix_strip name).subset hc)

/-- Everything but the end of a component is as it should be. -/
theorem isSafeComponent_iff_last (name : List ℕ) :
    IsSafeComponent (sanitizeFilenameComponent name) ↔
      ∀ c ∈ (sanitizeFilenameComponent name).getLast?, ¬ isStripped c = true := by
  refine ⟨IsSafeComponent.last, fun hlast => ?_⟩
  have hsafe := isSafe_sanitize name
  rw [sanitizeFilenameComponent_eq] at hlast hsafe ⊢
  split at hlast
  · next hnil =>
    rw [if_pos hnil]
    exact ⟨by decide, by decide, by decide, by decide, by decide, by decide⟩
  · next hne =>
    rw [if_neg hne] at hsafe ⊢
    obtain ⟨-, -, -, -, -, hhead, -⟩ :=
      exists_strip isStripped (multidot.sub none (name.map underscored))
    exact
      { ne_nil := fun hnil => by simp [hne] at hnil
        length_le := List.length_take_le _ _
        isSafe := hsafe
        no_dots := fun hdots => no_dots_sub none _ (hdots.trans (isInfix_strip name))
        head := fun c hc => by
          rw [List.head?_take, if_neg (by decide)] at hc
          exact hhead c hc
        last := hlast }

theorem multidot_sub_of_no_dots (h : ¬ [46, 46] <:+: text) : multidot.sub prev text = text := by
  induction text generalizing prev with
  | nil => rfl
  | cons c rest ih =>
    have hfind : multidot.find prev (c :: rest) = none := by
      by_cases hc : c = 46
      · subst hc
        refine multidot_find_of_one ?_
        rintro d hd rfl
        obtain ⟨t, rfl⟩ := List.head?_eq_some_iff.mp hd
        exact h (List.prefix_append [46, 46] t).isInfix
      · exact multidot_find_of_not_dot fun d hd => by rwa [← Option.some.inj hd]
    rw [Pass.sub_cons hfind, ih fun hdots => h (hdots.trans (List.suffix_cons c rest).isInfix)]

/-- **A safe component is left as it is.** -/
theorem sanitizeFilenameComponent_of_isSafeComponent {s : List ℕ} (h : IsSafeComponent s) :
    sanitizeFilenameComponent s = s := by
  have hmap : s.map underscored = s :=
    (List.map_congr_left fun c hc => if_pos (h.isSafe c hc)).trans (List.map_id' s)
  have hstrip : strip isStripped ([] ++ s ++ []) = s :=
    strip_append_append (by simp) (by simp) h.head h.last
  rw [List.append_nil, List.nil_append] at hstrip
  rw [sanitizeFilenameComponent_eq, hmap, multidot_sub_of_no_dots h.no_dots, hstrip,
    if_neg h.ne_nil, List.take_of_length_le h.length_le]

/-- **Which names are reduced to a safe component.** -/
theorem isSafeComponent_sanitize_iff (name : List ℕ) :
    IsSafeComponent (sanitizeFilenameComponent name) ↔ ¬ CutsAtSeparator name := by
  rw [isSafeComponent_iff_last, cutsAtSeparator_iff, ← map_isStripped_strip,
    sanitizeFilenameComponent_eq]
  obtain ⟨-, -, -, -, -, -, hlast⟩ :=
    exists_strip isStripped (multidot.sub none (name.map underscored))
  split
  · next hnil =>
    rw [hnil]
    exact iff_of_true (by decide) (by simp)
  · exact last_take_iff hlast

/-- **Which names are reduced to a safe component** that is reduced to itself. -/
theorem isSafeComponent_and_sanitize_iff (name : List ℕ) :
    (IsSafeComponent (sanitizeFilenameComponent name) ∧
        sanitizeFilenameComponent (sanitizeFilenameComponent name) =
          sanitizeFilenameComponent name) ↔ ¬ CutsAtSeparator name :=
  (and_iff_left_of_imp sanitizeFilenameComponent_of_isSafeComponent).trans
    (isSafeComponent_sanitize_iff name)

/-- A name that is cut behind the dot of its extension. -/
theorem exists_not_isSafeComponent : ∃ name,
    ¬ (IsSafeComponent (sanitizeFilenameComponent name) ∧
      sanitizeFilenameComponent (sanitizeFilenameComponent name) =
        sanitizeFilenameComponent name) := by
  have hlast : (sanitizeFilenameComponent (List.replicate 199 97 ++ ".mp4".codePoints)).getLast? =
      some 46 := by decide +kernel
  exact ⟨_, fun h => h.1.last 46 hlast rfl⟩

end NextBallUp.StorageKeys
