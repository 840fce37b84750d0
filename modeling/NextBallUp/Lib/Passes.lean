import NextBallUp.Lib.Substitution

/-!
# Places of a text in a substitution

What a scan does at a place, and where what it makes comes from.

## Main definitions

* `Pass.Misses`: no match begins in a text

## Main results

* `Pass.kept_or_taken`: **a character is kept, or a match takes it**
* `Pass.stops_induction`: the scan of a text at whose end it stops
* `Pass.exists_of_sub_eq`: **a text without the ends of what is written** comes from the same text
-/

namespace Pass

open Regex (getLast?_cons_or)

variable {χ : Type} (P : Pass χ)

/-- No match begins in a text. -/
def Misses : Option χ → List χ → List χ → Prop
  | _, [], _ => True
  | prev, c :: text, next => P.find prev (c :: text ++ next) = none ∧ Misses (some c) text next

variable {P} {prev : Option χ} {text next : List χ} {m : Match χ} {c : χ}

theorem Misses.stops (h : P.Misses prev text next) : P.Stops prev text next := by
  induction text generalizing prev with
  | nil => exact rfl
  | cons c text ih =>
    rw [Stops, pending_of_none h.1]
    exact ih h.2

theorem Misses.subBefore_eq (h : P.Misses prev text next) :
    P.subBefore next 0 prev text = text := by
  induction text generalizing prev with
  | nil => rfl
  | cons c text ih =>
    rw [subBefore_of_none h.1, ih h.2]

theorem Misses.sub_eq (h : P.Misses prev text []) : P.sub prev text = text := h.subBefore_eq

theorem Misses.sub_append (h : P.Misses prev text next) :
    P.sub prev (text ++ next) = text ++ P.sub (text.getLast?.or prev) next := by
  rw [Pass.sub_append h.stops, h.subBefore_eq]

theorem Misses.sub_append_of_ne_nil (h : P.Misses prev text next) (hne : text ≠ []) :
    P.sub prev (text ++ next) = text ++ P.sub text.getLast? next := by
  rw [h.sub_append, List.getLast?_eq_getLast_of_ne_nil hne]
  rfl

theorem Misses.of_append {x y : List χ} (h : P.Misses prev (x ++ y) next) :
    P.Misses (x.getLast?.or prev) y next := by
  induction x generalizing prev with
  | nil => exact h
  | cons c x ih =>
    rw [getLast?_cons_or]
    exact ih h.2

theorem misses_of_forall (h : ∀ x c y, text = x ++ c :: y →
    P.find (x.getLast?.or prev) (c :: y ++ next) = none) : P.Misses prev text next := by
  induction text generalizing prev with
  | nil => trivial
  | cons c text ih =>
    refine ⟨h [] c text rfl, ih fun x d y hxy => ?_⟩
    rw [← getLast?_cons_or c x prev]
    exact h (c :: x) d y (by rw [hxy, List.cons_append])

/-! ### Where a match begins -/

theorem exists_of_find_cons (h : P.find prev (c :: text) = some m) : ∃ t, m.taken = c :: t := by
  obtain ⟨d, t, ht⟩ := exists_cons_of_find h
  have htext := P.taken_append_rest h
  rw [ht] at htext
  obtain ⟨rfl, -⟩ := List.cons.inj htext
  exact ⟨t, ht⟩

theorem stops_taken (h : P.find prev text = some m) : P.Stops prev m.taken m.rest := by
  obtain ⟨c, t, hc⟩ := exists_cons_of_find h
  have htext := P.taken_append_rest h
  rw [hc] at htext
  rw [hc, Stops, pending, htext, h]
  exact show P.pending m.rest (m.taken.length - 1) (some c) t = 0 by
    rw [hc, List.length_cons, Nat.add_sub_cancel]
    exact pending_left t _ _ 0

theorem subBefore_taken (h : P.find prev text = some m) :
    P.subBefore m.rest 0 prev m.taken = P.write m := by
  obtain ⟨c, t, hc⟩ := exists_cons_of_find h
  have htext := P.taken_append_rest h
  rw [hc] at htext
  rw [hc, subBefore, htext, h]
  exact show P.write m ++ P.subBefore m.rest (m.taken.length - 1) (some c) t = _ by
    rw [hc, List.length_cons, Nat.add_sub_cancel, subBefore_left, List.append_nil]

theorem getLast?_taken_or (prev' : Option χ) (h : P.find prev text = some m) :
    m.taken.getLast?.or prev' = m.taken.getLast? := by
  rw [List.getLast?_eq_getLast_of_ne_nil (P.taken_ne_nil h)]
  rfl

theorem le_of_pending_eq_zero {n : ℕ} (h : P.pending next n prev text = 0) : n ≤ text.length := by
  by_contra hlt
  obtain ⟨k, rfl⟩ := Nat.exists_eq_add_of_le (Nat.le_of_not_le hlt)
  rw [pending_left] at h
  omega

/-- A match that begins in a text at whose end the scan stops ends in the text. -/
theorem exists_of_stops (hstops : P.Stops prev (c :: text) next)
    (h : P.find prev (c :: text ++ next) = some m) :
    ∃ u, c :: text = m.taken ++ u ∧ m.rest = u ++ next := by
  have hle : m.taken.length ≤ (c :: text).length := by
    rw [Stops, pending_of_some h] at hstops
    have hle := le_of_pending_eq_zero hstops
    rw [List.length_cons]
    omega
  rcases List.append_eq_append_iff.mp (P.taken_append_rest h) with ⟨u, hu, hr⟩ | ⟨u, hu, hr⟩
  · exact ⟨u, hu, hr⟩
  · have hlen := congrArg List.length hu
    rw [List.length_append] at hlen
    have hu0 : u = [] := List.length_eq_zero_iff.mp (by omega)
    subst hu0
    exact ⟨[], by rw [List.append_nil, hu, List.append_nil], hr.symm⟩

/-- A scan that does not stop is in the middle of a match. -/
theorem stops_or_exists (P : Pass χ) (prev : Option χ) (text next : List χ) :
    P.Stops prev text next ∨ ∃ x y m, text = x ++ y ∧ P.Stops prev x (y ++ next) ∧
      P.find (x.getLast?.or prev) (y ++ next) = some m ∧ y.length < m.taken.length := by
  induction hn : text.length using Nat.strongRecOn generalizing prev text with
  | ind n ih =>
    cases text with
    | nil => exact .inl rfl
    | cons c text =>
      cases h : P.find prev (c :: text ++ next) with
      | none =>
        rcases ih text.length (by simp [← hn]) (some c) text rfl with
          hs | ⟨x, y, m, rfl, hs, hm, hlt⟩
        · refine .inl ?_
          rw [Stops, pending, h]
          exact hs
        · refine .inr ⟨c :: x, y, m, rfl, ?_, ?_, hlt⟩
          · rw [List.cons_append, List.append_assoc, ← List.cons_append] at h
            rw [Stops, pending_of_none h]
            exact hs
          · rwa [getLast?_cons_or]
      | some m =>
        rcases Nat.lt_or_ge (c :: text).length m.taken.length with hlt | hge
        · exact .inr ⟨[], c :: text, m, rfl, rfl, h, hlt⟩
        -- the match is over before the end
        have htext := P.taken_append_rest h
        obtain ⟨t, ht, hrest⟩ : ∃ t, c :: text = m.taken ++ t ∧ m.rest = t ++ next := by
          rcases List.append_eq_append_iff.mp htext with ⟨t, ht, hrest⟩ | ⟨t, ht, hrest⟩
          · exact ⟨t, ht, hrest⟩
          · have hlen := congrArg List.length ht
            rw [List.length_append] at hlen
            have ht0 : t = [] := List.length_eq_zero_iff.mp (by omega)
            subst ht0
            exact ⟨[], by rw [List.append_nil, ht, List.append_nil], by simpa using hrest.symm⟩
        have hpos := List.length_pos_iff.mpr (P.taken_ne_nil h)
        have hlen := congrArg List.length ht
        rw [List.length_append, hn] at hlen
        have hstops := hrest ▸ stops_taken h
        have hlast := getLast?_taken_or prev h
        rw [ht]
        rcases ih t.length (by omega) m.taken.getLast? t rfl with hs | ⟨x, y, m', rfl, hs, hm, hlt⟩
        · exact .inl (stops_append hstops (by rwa [hlast]))
        · refine .inr ⟨m.taken ++ x, y, m', (List.append_assoc _ _ _).symm, ?_, ?_, hlt⟩
          · rw [List.append_assoc] at hstops
            exact stops_append hstops (by rwa [hlast])
          · rw [List.getLast?_append, Option.or_assoc, hlast]
            exact hm

/-- **A character is kept, or a match takes it.** -/
theorem kept_or_taken (P : Pass χ) (prev : Option χ) (x : List χ) (c : χ) (y : List χ) :
    (P.Stops prev x (c :: y) ∧ P.sub prev (x ++ c :: y) =
      P.subBefore (c :: y) 0 prev x ++ c :: P.sub (some c) y) ∨
    ∃ x₀ x₁ t m, x = x₀ ++ x₁ ∧ m.taken = x₁ ++ c :: t ∧ y = t ++ m.rest ∧
      P.Stops prev x₀ (m.taken ++ m.rest) ∧
      P.find (x₀.getLast?.or prev) (m.taken ++ m.rest) = some m := by
  have htaken : ∀ x₁ (m : Match χ), m.taken ++ m.rest = x₁ ++ c :: y → x₁.length < m.taken.length →
      ∃ t, m.taken = x₁ ++ c :: t ∧ y = t ++ m.rest := by
    intro x₁ m h hlt
    rcases List.append_eq_append_iff.mp h with ⟨t, ht, -⟩ | ⟨t, ht, hrest⟩
    · have hlen := congrArg List.length ht
      rw [List.length_append] at hlen
      omega
    · cases t with
      | nil =>
        rw [ht, List.append_nil] at hlt
        exact (Nat.lt_irrefl _ hlt).elim
      | cons d t =>
        obtain ⟨rfl, hy⟩ := List.cons.inj hrest
        exact ⟨t, ht, hy⟩
  rcases P.stops_or_exists prev x (c :: y) with hs | ⟨x₀, x₁, m, rfl, hs, hm, hlt⟩
  · cases h : P.find (x.getLast?.or prev) (c :: y) with
    | none => exact .inl ⟨hs, by rw [sub_append hs, sub_cons h]⟩
    | some m =>
      have htext := P.taken_append_rest h
      obtain ⟨t, ht, hy⟩ := htaken [] m htext (List.length_pos_iff.mpr (P.taken_ne_nil h))
      exact .inr ⟨x, [], t, m, (List.append_nil x).symm, ht, hy, by rwa [htext], by rwa [htext]⟩
  · have htext := P.taken_append_rest hm
    obtain ⟨t, ht, hy⟩ := htaken x₁ m htext hlt
    exact .inr ⟨x₀, x₁, t, m, rfl, ht, hy, by rwa [htext], by rwa [htext]⟩

/-- A character that no match takes is kept. -/
theorem sub_append_cons (h : ∀ prev text m, P.find prev text = some m → c ∉ m.taken)
    (prev : Option χ) (x y : List χ) :
    P.sub prev (x ++ c :: y) = P.subBefore (c :: y) 0 prev x ++ c :: P.sub (some c) y := by
  rcases P.kept_or_taken prev x c y with ⟨-, hsub⟩ | ⟨_, x₁, t, m, -, htaken, -, -, hm⟩
  · exact hsub
  · refine (h _ _ m hm ?_).elim
    rw [htaken]
    exact List.mem_append_right _ List.mem_cons_self

/-- **The scan of a text at whose end it stops.** -/
theorem stops_induction {next : List χ} {motive : Option χ → List χ → Prop}
    (nil : ∀ prev, motive prev [])
    (char : ∀ prev c text, P.find prev (c :: text ++ next) = none → motive (some c) text →
      motive prev (c :: text))
    (found : ∀ prev text m, P.find prev (m.taken ++ (text ++ next)) = some m →
      m.rest = text ++ next → motive m.taken.getLast? text → motive prev (m.taken ++ text))
    (prev : Option χ) (text : List χ) (h : P.Stops prev text next) : motive prev text := by
  induction hn : text.length using Nat.strongRecOn generalizing prev text with
  | ind n ih =>
    cases text with
    | nil => exact nil prev
    | cons c text =>
      cases hfind : P.find prev (c :: text ++ next) with
      | none =>
        rw [Stops, pending_of_none hfind] at h
        exact char prev c text hfind (ih text.length (by simp [← hn]) _ _ h rfl)
      | some m =>
        obtain ⟨u, hu, hrest⟩ := exists_of_stops h hfind
        have hstops := stops_taken hfind
        have hlen := congrArg List.length hu
        have hpos := List.length_pos_iff.mpr (P.taken_ne_nil hfind)
        rw [List.length_append, hn] at hlen
        rw [hu] at hfind h ⊢
        rw [List.append_assoc] at hfind
        rw [hrest] at hstops
        rw [Stops, pending_append, show P.pending (u ++ next) 0 prev m.taken = 0 from hstops,
          getLast?_taken_or prev hfind] at h
        exact found prev u m hfind hrest (ih u.length (by omega) _ _ h rfl)

theorem subBefore_of_find (h : P.find prev (m.taken ++ (text ++ next)) = some m)
    (hrest : m.rest = text ++ next) : P.subBefore next 0 prev (m.taken ++ text) =
      P.write m ++ P.subBefore next 0 m.taken.getLast? text := by
  have hstops := stops_taken h
  have hwrite := subBefore_taken h
  rw [hrest] at hstops hwrite
  rw [subBefore_append, show P.pending (text ++ next) 0 prev m.taken = 0 from hstops, hwrite,
    getLast?_taken_or prev h]

theorem mem_subBefore_of_stops {B : χ → Prop} (hB : ∀ prev text m, P.find prev text = some m →
      ∀ c ∈ P.write m, c ∈ m.taken ∨ B c) (h : P.Stops prev text next) :
    ∀ c ∈ P.subBefore next 0 prev text, c ∈ text ∨ B c := by
  refine stops_induction (motive := fun prev text =>
    ∀ c ∈ P.subBefore next 0 prev text, c ∈ text ∨ B c) ?_ ?_ ?_ prev text h
  · exact fun prev c hc => .inl hc
  · intro prev d text hfind ih c hc
    rw [subBefore_of_none hfind] at hc
    rcases List.mem_cons.mp hc with rfl | hc
    · exact .inl List.mem_cons_self
    · exact (ih c hc).imp_left (List.mem_cons_of_mem d)
  · intro prev text m hfind hrest ih c hc
    rw [subBefore_of_find hfind hrest] at hc
    rcases List.mem_append.mp hc with hc | hc
    · exact (hB _ _ m hfind c hc).imp_left (List.mem_append_left _)
    · exact (ih c hc).imp_left (List.mem_append_right _)

theorem stops_nil (P : Pass χ) (prev : Option χ) (text : List χ) : P.Stops prev text [] :=
  stops_of_head (A := fun _ => True) (fun _ _ _ _ _ _ => trivial) (by simp)

theorem mem_sub_of_write {B : χ → Prop} (hB : ∀ prev text m, P.find prev text = some m →
      ∀ c ∈ P.write m, c ∈ m.taken ∨ B c) : ∀ c ∈ P.sub prev text, c ∈ text ∨ B c :=
  mem_subBefore_of_stops hB (P.stops_nil prev text)

/-- What a scan makes of a text at whose end it stops ends as the text, or with what is written. -/
theorem getLast?_subBefore_of_stops (h : P.Stops prev text next) : text = [] ∨
    (∃ x z c, text = x ++ [c] ∧ P.subBefore next 0 prev text = z ++ [c]) ∨
    ∃ prev' text' m z, P.find prev' text' = some m ∧ m.rest = next ∧
      m.taken.getLast? = text.getLast? ∧ P.subBefore next 0 prev text = z ++ P.write m := by
  refine stops_induction (motive := fun prev text => text = [] ∨
    (∃ x z c, text = x ++ [c] ∧ P.subBefore next 0 prev text = z ++ [c]) ∨
    ∃ prev' text' m z, P.find prev' text' = some m ∧ m.rest = next ∧
      m.taken.getLast? = text.getLast? ∧ P.subBefore next 0 prev text = z ++ P.write m)
    ?_ ?_ ?_ prev text h
  · exact fun prev => .inl rfl
  · intro prev c text hfind ih
    rw [subBefore_of_none hfind]
    rcases ih with rfl | ⟨x, z, d, rfl, hz⟩ | ⟨prev', text', m, z, hm, hrest, hlast, hz⟩
    · exact .inr (.inl ⟨[], [], c, rfl, rfl⟩)
    · exact .inr (.inl ⟨c :: x, c :: z, d, rfl, by rw [hz]; rfl⟩)
    · refine .inr (.inr ⟨prev', text', m, c :: z, hm, hrest, ?_, by rw [hz]; rfl⟩)
      rw [Regex.getLast?_cons_eq_or, ← hlast, getLast?_taken_or _ hm]
  · intro prev text m hfind hrest ih
    rw [subBefore_of_find hfind hrest]
    rcases ih with rfl | ⟨x, z, d, rfl, hz⟩ | ⟨prev', text', m', z, hm, hrest', hlast, hz⟩
    · refine .inr (.inr ⟨_, _, m, [], hfind, hrest, by rw [List.append_nil], ?_⟩)
      exact List.append_nil _
    · refine .inr (.inl ⟨m.taken ++ x, P.write m ++ z, d, (List.append_assoc _ _ _).symm, ?_⟩)
      rw [hz, List.append_assoc]
    · refine .inr (.inr ⟨prev', text', m', P.write m ++ z, hm, hrest', ?_, ?_⟩)
      · rw [List.getLast?_append, ← hlast, getLast?_taken_or _ hm]
      · rw [hz, List.append_assoc]

/-! ### What a text comes from -/

section Written

variable {w rest : List χ} {b : List χ} {o e d : χ}

/-- A text without the first character of what is written is not written. -/
theorem exists_of_sub_eq_append (ho : ∀ prev text m, P.find prev text = some m →
      (P.write m).head? = some o) (hw : o ∉ w) (h : P.sub prev text = w ++ rest) :
    ∃ y, text = w ++ y ∧ P.Misses prev w y ∧ P.sub (w.getLast?.or prev) y = rest := by
  induction w generalizing prev text with
  | nil => exact ⟨text, rfl, trivial, h⟩
  | cons c w ih =>
    obtain ⟨hc, hw'⟩ := not_or.mp (mt List.mem_cons.mpr hw)
    cases text with
    | nil => cases h
    | cons d text =>
      cases hfind : P.find prev (d :: text) with
      | none =>
        rw [sub_cons hfind] at h
        obtain ⟨rfl, htail⟩ := List.cons.inj h
        obtain ⟨y, rfl, hmiss, hy⟩ := ih hw' htail
        exact ⟨y, rfl, ⟨hfind, hmiss⟩, by rw [getLast?_cons_or, hy]⟩
      | some m =>
        rw [sub_of_find hfind] at h
        have hhead := congrArg List.head? h
        rw [List.head?_append, ho _ _ m hfind] at hhead
        exact (hc (Option.some.inj hhead)).elim

/-- A text without the last character of a block, and not in the block, is behind it. -/
theorem exists_of_block_append (he : b.getLast? = some e) (hwe : e ∉ w) (hd : d ∈ w) (hdb : d ∉ b)
    {z out : List χ} (h : b ++ out = z ++ (w ++ rest)) :
    ∃ z', z = b ++ z' ∧ out = z' ++ (w ++ rest) := by
  rcases List.append_eq_append_iff.mp h with ⟨t, ht, hout⟩ | ⟨t, ht, hout⟩
  · exact ⟨t, ht, hout⟩
  rcases List.eq_nil_or_concat' t with rfl | ⟨t', e', rfl⟩
  · exact ⟨[], by rw [List.append_nil, ht, List.append_nil], hout.symm⟩
  exfalso
  -- the text begins inside the block, and goes on behind it or not
  have hlast : e = e' := by
    rw [ht, ← List.append_assoc, List.getLast?_concat] at he
    exact (Option.some.inj he).symm
  rcases List.append_eq_append_iff.mp hout with ⟨v, hv, -⟩ | ⟨v, hv, -⟩
  · refine hdb ?_
    rw [ht, hv]
    exact List.mem_append_right _ (List.mem_append_left _ hd)
  · refine hwe ?_
    rw [hv, hlast]
    exact List.mem_append_left _ (List.mem_append_right _ List.mem_cons_self)

/-- **A text without the ends of what is written** comes from the same text, and the scan stops
before it. -/
theorem exists_of_sub_eq (hb : ∀ prev text m, P.find prev text = some m → P.write m = b)
    (ho : b.head? = some o) (he : b.getLast? = some e) (hwo : o ∉ w) (hwe : e ∉ w) (hd : d ∈ w)
    (hdb : d ∉ b) {z : List χ} (h : P.sub prev text = z ++ (w ++ rest)) :
    ∃ x y, text = x ++ (w ++ y) ∧ P.Stops prev x (w ++ y) ∧ P.subBefore (w ++ y) 0 prev x = z ∧
      P.Misses (x.getLast?.or prev) w y ∧ P.sub (w.getLast?.or (x.getLast?.or prev)) y = rest := by
  have hhead : ∀ prev text m, P.find prev text = some m → (P.write m).head? = some o :=
    fun prev text m hm => by rw [hb _ _ m hm, ho]
  induction prev, text using P.induction generalizing z with
  | nil prev =>
    have hnil : w ++ rest = [] := (List.append_eq_nil_iff.mp h.symm).2
    rw [(List.append_eq_nil_iff.mp hnil).1] at hd
    cases hd
  | char prev c text hfind ih =>
    cases z with
    | nil =>
      obtain ⟨y, hy, hmiss, hrest⟩ := exists_of_sub_eq_append hhead hwo h
      exact ⟨[], y, hy, rfl, rfl, hmiss, hrest⟩
    | cons c' z =>
      rw [sub_cons hfind] at h
      obtain ⟨rfl, htail⟩ := List.cons.inj h
      obtain ⟨x, y, rfl, hstops, hx, hmiss, hrest⟩ := ih htail
      refine ⟨c :: x, y, rfl, ?_, ?_, by rwa [getLast?_cons_or], by rwa [getLast?_cons_or]⟩
      · rw [Stops, pending_of_none hfind]
        exact hstops
      · rw [subBefore_of_none hfind, hx]
  | found prev text m hfind ih =>
    have hwrite := hb _ _ m hfind
    rw [sub_of_find hfind, hwrite] at h
    obtain ⟨z', rfl, hz⟩ := exists_of_block_append he hwe hd hdb h
    obtain ⟨x, y, hxy, hstops, hx, hmiss, hrest⟩ := ih hz
    have hlast := getLast?_taken_or prev hfind
    have htext : text = m.taken ++ x ++ (w ++ y) := by
      rw [← P.taken_append_rest hfind, hxy, List.append_assoc]
    have hstops₀ := stops_taken hfind
    rw [hxy] at hstops₀
    rw [htext, List.append_assoc] at hfind
    refine ⟨m.taken ++ x, y, htext, stops_append hstops₀ (by rwa [hlast]), ?_, ?_, ?_⟩
    · rw [subBefore_of_find hfind hxy, hwrite, hx]
    · rwa [List.getLast?_append, Option.or_assoc, hlast]
    · rwa [List.getLast?_append, Option.or_assoc, hlast]

end Written

/-- What no match changes is kept. -/
theorem mem_sub_of_mem (hc : c ∈ text)
    (h : ∀ prev text m, P.find prev text = some m → c ∈ m.taken → c ∈ P.write m) :
    c ∈ P.sub prev text := by
  induction prev, text using P.induction with
  | nil prev => cases hc
  | char prev d text hfind ih =>
    rw [sub_cons hfind]
    exact (List.mem_cons.mp hc).elim (fun hc => hc ▸ List.mem_cons_self)
      fun hc => List.mem_cons_of_mem d (ih hc)
  | found prev text m hfind ih =>
    rw [sub_of_find hfind]
    rw [← P.taken_append_rest hfind] at hc
    rcases List.mem_append.mp hc with hc | hc
    · exact List.mem_append_left _ (h _ _ m hfind hc)
    · exact List.mem_append_right _ (ih hc)

end Pass
