import NextBallUp.Lib.Passes

/-!
# Parts of a text in a substitution

What becomes of a part of a text does not depend on the text alone: a match may begin before the
part, and go on behind it. So a part is followed through a pass with what stands around it, and a
place of a text through several passes in sequence.

## Main definitions

* `Pass.kept`: what is kept of a part of a text
* `Pass.Reaches`: the scans of several passes all get to a place
* `Pass.Agrees`: two passes do the same to the code points

## Main results

* `Pass.kept_cases`: **a part is taken, or not touched**, or a match ends or begins beside a kept
  character of it
* `Pass.find_of_kept_eq_nil`: what is taken as a whole is one match, where matches stand apart
* `Pass.Agrees.sub`, `Pass.reaches_codes_iff`: the code points alone decide
-/

namespace Pass

open Regex (getLast?_cons_or)

variable {χ : Type} {P : Pass χ} {prev : Option χ} {text next : List χ} {m : Match χ} {c : χ}

/-! ### What is kept of a part -/

/-- The pass that takes the same and writes nothing. -/
def erase (P : Pass χ) : Pass χ := { P with write := fun _ => [] }

/-- What is kept of a part of a text. A match that begins before the part may go on in it. -/
def kept (P : Pass χ) (before text next : List χ) : List χ :=
  P.erase.subBefore next (P.pending (text ++ next) 0 none before) before.getLast? text

/-- What becomes of a text is what becomes of its parts. -/
theorem sub_parts (P : Pass χ) (x text y : List χ) : P.sub none (x ++ (text ++ y)) =
    P.subBefore (text ++ y) 0 none x ++
      (P.subBefore y (P.pending (text ++ y) 0 none x) x.getLast? text ++
        P.subBefore [] (P.pending y (P.pending (text ++ y) 0 none x) x.getLast? text)
          (text.getLast?.or x.getLast?) y) := by
  have hx := P.subBefore_append 0 none x (text ++ y) []
  have htext := P.subBefore_append (P.pending (text ++ y) 0 none x) x.getLast? text y []
  rw [List.append_nil, Option.or_none] at hx
  rw [List.append_nil] at htext
  rw [sub, hx, htext]

theorem Misses.erase (h : P.Misses prev text next) : P.erase.Misses prev text next := by
  induction text generalizing prev with
  | nil => trivial
  | cons c text ih => exact ⟨h.1, ih h.2⟩

theorem pending_erase (P : Pass χ) (n : ℕ) (prev : Option χ) (text next : List χ) :
    P.erase.pending next n prev text = P.pending next n prev text := by
  induction text generalizing n prev with
  | nil => rfl
  | cons c text ih =>
    cases n with
    | succ n => exact ih n (some c)
    | zero =>
      rw [pending, pending, show P.erase.find = P.find from rfl]
      cases P.find prev (c :: text ++ next) with
      | none => exact ih 0 (some c)
      | some m => exact ih _ (some c)

theorem kept_append (P : Pass χ) (x text y next : List χ) :
    P.kept x (text ++ y) next = P.kept x text (y ++ next) ++ P.kept (x ++ text) y next := by
  rw [kept, kept, kept, subBefore_append, List.append_assoc, pending_erase, pending_append,
    Option.or_none, List.getLast?_append]

/-- Where no match goes on in a part. -/
theorem kept_of_stops {x : List χ} (h : P.Stops none x (text ++ next)) :
    P.kept x text next = P.erase.subBefore next 0 x.getLast? text := by
  rw [kept, show P.pending (text ++ next) 0 none x = 0 from h]

/-- **A part is taken, or not touched**, or a match ends or begins beside a kept character of it. -/
theorem kept_cases (P : Pass χ) (n : ℕ) (prev : Option χ) (text next : List χ) :
    P.erase.subBefore next n prev text = [] ∨ (n = 0 ∧ P.Misses prev text next) ∨
    ∃ x c y, P.subBefore next n prev text = x ++ c :: P.subBefore next 0 (some c) y ∧
      c ∈ P.erase.subBefore next n prev text ∧
      ((x = [] ∧ n ≠ 0 ∧ c :: y = text.drop n) ∨
        (∃ x' prev' text' m, x = x' ++ P.write m ∧ P.find prev' text' = some m ∧
          m.rest = c :: y ++ next) ∨
        ∃ d z m, y = d :: z ∧ P.find (some c) (y ++ next) = some m) := by
  induction text generalizing n prev with
  | nil => exact .inl rfl
  | cons c text ih =>
    have hmiss : ∀ {d t}, P.Misses (some c) (d :: t) next →
        P.subBefore next 0 (some c) (d :: t) = d :: P.subBefore next 0 (some d) t ∧
          d ∈ P.erase.subBefore next 0 (some c) (d :: t) := by
      intro d t h
      rw [subBefore_of_none h.1, h.erase.subBefore_eq]
      exact ⟨rfl, List.mem_cons_self⟩
    cases n with
    | succ n =>
      rcases ih n (some c) with hnil | ⟨rfl, h⟩ | ⟨x, d, y, hx, hd, hbeside⟩
      · exact .inl hnil
      · cases text with
        | nil => exact .inl rfl
        | cons d text =>
          exact .inr (.inr ⟨[], d, text, (hmiss h).1, (hmiss h).2,
            .inl ⟨rfl, Nat.one_ne_zero, rfl⟩⟩)
      · refine .inr (.inr ⟨x, d, y, hx, hd, hbeside.imp_left ?_⟩)
        exact fun ⟨hx, _, hy⟩ => ⟨hx, Nat.succ_ne_zero n, hy⟩
    | zero =>
      cases h : P.find prev (c :: text ++ next) with
      | none =>
        rw [subBefore_of_none h, subBefore_of_none (P := P.erase) h]
        rcases ih 0 (some c) with hnil | ⟨-, hmiss⟩ | ⟨x, d, y, hx, hd, hbeside⟩
        · cases text with
          | nil => exact .inr (.inl ⟨rfl, h, trivial⟩)
          | cons d text =>
            cases hd : P.find (some c) (d :: text ++ next) with
            | none =>
              rw [subBefore_of_none (P := P.erase) hd] at hnil
              cases hnil
            | some m =>
              exact .inr (.inr ⟨[], c, d :: text, rfl, List.mem_cons_self,
                .inr (.inr ⟨d, text, m, rfl, hd⟩)⟩)
        · exact .inr (.inl ⟨rfl, h, hmiss⟩)
        · refine .inr (.inr ⟨c :: x, d, y, by rw [hx]; rfl, List.mem_cons_of_mem c hd, .inr ?_⟩)
          rcases hbeside with ⟨-, hne, -⟩ | ⟨x', prev', text', m, hx', hm⟩ | hbefore
          · exact (hne rfl).elim
          · exact .inl ⟨c :: x', prev', text', m, by rw [hx']; rfl, hm⟩
          · exact .inr hbefore
      | some m =>
        obtain ⟨d, t, ht⟩ := exists_cons_of_find h
        have htext := P.taken_append_rest h
        rw [ht] at htext
        have hdrop : m.rest = (text ++ next).drop (m.taken.length - 1) := by
          have htail : t ++ m.rest = text ++ next := (List.cons.inj htext).2
          rw [← htail, ht, List.length_cons, Nat.add_sub_cancel, List.drop_left]
        rw [subBefore_of_some h, subBefore_of_some (P := P.erase) h,
          show P.erase.write m = [] from rfl, List.nil_append]
        generalize m.taken.length - 1 = n at hdrop
        rcases ih n (some c) with hnil | ⟨rfl, hmiss'⟩ | ⟨x, d, y, hx, hd, hbeside⟩
        · exact .inl hnil
        · cases text with
          | nil => exact .inl rfl
          | cons e text =>
            refine .inr (.inr ⟨P.write m, e, text, by rw [(hmiss hmiss').1], (hmiss hmiss').2,
              .inr (.inl ⟨[], prev, _, m, rfl, h, hdrop⟩)⟩)
        · refine .inr (.inr ⟨P.write m ++ x, d, y, by rw [hx, List.append_assoc], hd, .inr ?_⟩)
          rcases hbeside with ⟨rfl, -, hy⟩ | ⟨x', prev', text', m', hx', hm⟩ | hbefore
          · have hlt : n ≤ text.length := by
              by_contra hlt
              rw [List.drop_eq_nil_of_le (Nat.le_of_not_le hlt)] at hy
              cases hy
            rw [List.drop_append_of_le_length hlt, ← hy] at hdrop
            exact .inl ⟨[], prev, _, m, List.append_nil _, h, hdrop⟩
          · exact .inl ⟨P.write m ++ x', prev', text', m', by rw [hx', List.append_assoc], hm⟩
          · exact .inr hbefore

theorem length_kept_le (P : Pass χ) (n : ℕ) (prev : Option χ) (text next : List χ) :
    (P.erase.subBefore next n prev text).length ≤ text.length := by
  induction text generalizing n prev with
  | nil => exact Nat.le_refl 0
  | cons c text ih =>
    cases n with
    | succ n => exact Nat.le_succ_of_le (ih n (some c))
    | zero =>
      cases h : P.find prev (c :: text ++ next) with
      | none =>
        rw [subBefore_of_none (P := P.erase) h]
        exact Nat.succ_le_succ (ih 0 (some c))
      | some m =>
        rw [subBefore_of_some (P := P.erase) h]
        exact Nat.le_succ_of_le (ih _ (some c))

/-- What is kept as a whole is not touched. -/
theorem misses_of_length_kept {n : ℕ} (hne : text ≠ [])
    (h : (P.erase.subBefore next n prev text).length = text.length) :
    n = 0 ∧ P.Misses prev text next := by
  induction text generalizing n prev with
  | nil => exact (hne rfl).elim
  | cons c text ih =>
    cases n with
    | succ n =>
      have hle := P.length_kept_le n (some c) text next
      rw [show P.erase.subBefore next (n + 1) prev (c :: text) =
        P.erase.subBefore next n (some c) text from rfl, List.length_cons] at h
      omega
    | zero =>
      cases hfind : P.find prev (c :: text ++ next) with
      | none =>
        rw [subBefore_of_none (P := P.erase) hfind] at h
        refine ⟨rfl, hfind, ?_⟩
        cases text with
        | nil => trivial
        | cons d text => exact (ih (List.cons_ne_nil _ _) (Nat.succ.inj h)).2
      | some m =>
        have hle := P.length_kept_le (m.taken.length - 1) (some c) text next
        rw [subBefore_of_some (P := P.erase) hfind, show P.erase.write m = [] from rfl,
          List.nil_append, List.length_cons] at h
        omega

/-- What is in a part behind a pass was kept or written. -/
theorem mem_kept_or_written {n : ℕ} (hc : c ∈ P.subBefore next n prev text) :
    c ∈ P.erase.subBefore next n prev text ∨
      ∃ prev text m, P.find prev text = some m ∧ c ∈ P.write m := by
  induction text generalizing n prev with
  | nil => exact .inl hc
  | cons d text ih =>
    cases n with
    | succ n => exact ih hc
    | zero =>
      cases h : P.find prev (d :: text ++ next) with
      | none =>
        rw [subBefore_of_none h] at hc
        rw [subBefore_of_none (P := P.erase) h]
        rcases List.mem_cons.mp hc with rfl | hc
        · exact .inl List.mem_cons_self
        · exact (ih hc).imp_left (List.mem_cons_of_mem d)
      | some m =>
        rw [subBefore_of_some h] at hc
        rw [subBefore_of_some (P := P.erase) h]
        exact (List.mem_append.mp hc).elim (fun hc => .inr ⟨_, _, m, h, hc⟩) fun hc => ih hc

/-- A scan that does not stop at the end of a text has found a match there. -/
theorem exists_of_pending (P : Pass χ) (prev : Option χ) (text next : List χ)
    (h : P.pending next 0 prev text ≠ 0) : ∃ prev' text' m, P.find prev' text' = some m ∧
      m.rest = next.drop (P.pending next 0 prev text) := by
  rcases P.stops_or_exists prev text next with hstops | ⟨x, y, m, rfl, hx, hm, hlt⟩
  · exact (h hstops).elim
  · refine ⟨_, _, m, hm, ?_⟩
    obtain ⟨u, hu, hnext⟩ : ∃ u, m.taken = y ++ u ∧ next = u ++ m.rest := by
      rcases List.append_eq_append_iff.mp (P.taken_append_rest hm) with ⟨u, hu, -⟩ | h
      · have hlen := congrArg List.length hu
        rw [List.length_append] at hlen
        omega
      · exact h
    rw [pending_append, show P.pending (y ++ next) 0 prev x = 0 from hx] at h ⊢
    cases y with
    | nil => exact (h rfl).elim
    | cons d t =>
      have hlen : m.taken.length - 1 = t.length + u.length := by
        rw [hu, List.length_append, List.length_cons]
        omega
      rw [pending_of_some hm, hlen, pending_left]
      conv_rhs => rw [hnext]
      exact (List.drop_left).symm

theorem mem_kept_of_mem_subBefore {n : ℕ} (hc : c ∈ P.erase.subBefore next n prev text) :
    c ∈ P.subBefore next n prev text := by
  induction text generalizing n prev with
  | nil => exact hc
  | cons d text ih =>
    cases n with
    | succ n => exact ih hc
    | zero =>
      cases h : P.find prev (d :: text ++ next) with
      | none =>
        rw [subBefore_of_none (P := P.erase) h] at hc
        rw [subBefore_of_none h]
        exact (List.mem_cons.mp hc).elim (fun hc => hc ▸ List.mem_cons_self)
          fun hc => List.mem_cons_of_mem d (ih hc)
      | some m =>
        rw [subBefore_of_some (P := P.erase) h] at hc
        rw [subBefore_of_some h]
        exact List.mem_append_right _ (ih hc)

theorem mem_of_mem_kept {n : ℕ} (hc : c ∈ P.erase.subBefore next n prev text) : c ∈ text := by
  rcases mem_of_mem_subBefore hc with hc | ⟨_, _, _, -, hc⟩
  · exact hc
  · cases hc

/-- Where no match begins behind a match, what is taken as a whole is one match. -/
theorem find_of_kept_eq_nil (hstops : P.Stops prev text next) (hne : text ≠ [])
    (hnil : P.erase.subBefore next 0 prev text = [])
    (hapart : ∀ prev text m, P.find prev text = some m → P.find m.taken.getLast? m.rest = none) :
    ∃ m, P.find prev (text ++ next) = some m ∧ m.taken = text ∧ m.rest = next := by
  obtain ⟨c, t, rfl⟩ := List.exists_cons_of_ne_nil hne
  cases h : P.find prev (c :: t ++ next) with
  | none =>
    rw [subBefore_of_none (P := P.erase) h] at hnil
    cases hnil
  | some m =>
    obtain ⟨u, hu, hrest⟩ := exists_of_stops hstops h
    cases u with
    | nil => exact ⟨m, rfl, by rw [hu, List.append_nil], hrest⟩
    | cons d u =>
      exfalso
      -- the next character is kept
      have hnone := hapart _ _ m h
      have hpending := stops_taken h
      rw [hrest] at hnone hpending
      rw [hu, subBefore_append, pending_erase, show P.pending (d :: u ++ next) 0 prev m.taken = 0
        from hpending, getLast?_taken_or prev h, subBefore_of_none (P := P.erase) hnone] at hnil
      exact List.append_ne_nil_of_right_ne_nil _ (List.cons_ne_nil _ _) hnil

/-! ### Passes in sequence -/

/-- The scans of several passes, each over what the one before makes, all get to a place of a
text. -/
def Reaches : List (Pass χ) → List χ → List χ → Prop
  | [], _, _ => True
  | P :: passes, before, next => P.Stops none before next ∧
      Reaches passes (P.subBefore next 0 none before) (P.sub before.getLast? next)

instance decidableReaches : ∀ (passes : List (Pass χ)) (before next : List χ),
    Decidable (Reaches passes before next)
  | [], _, _ => .isTrue trivial
  | P :: passes, before, next =>
    have := decidableReaches passes (P.subBefore next 0 none before) (P.sub before.getLast? next)
    inferInstanceAs (Decidable (_ ∧ _))

/-! ### What a pass does to the code points -/

/-- Two passes do the same to the code points. -/
structure Agrees [HasCode χ] (P : Pass χ) (Q : Pass ℕ) : Prop where
  find : ∀ prev text, Q.find (prev.map HasCode.code) (codes text) =
    (P.find prev text).map Match.toCodes
  write : ∀ m, codes (P.write m) = Q.write m.toCodes

section Agrees

variable [HasCode χ] {Q : Pass ℕ}

theorem Agrees.erase (h : Agrees P Q) : Agrees P.erase Q.erase := ⟨h.find, fun _ => rfl⟩

theorem Agrees.find_append (h : Agrees P Q) (prev : Option χ) (c : χ) (text next : List χ) :
    Q.find (prev.map HasCode.code) (HasCode.code c :: codes text ++ codes next) =
      (P.find prev (c :: text ++ next)).map Match.toCodes := by
  rw [← h.find, codes_append]
  rfl

theorem Agrees.pending (h : Agrees P Q) (n : ℕ) (prev : Option χ) (text next : List χ) :
    Q.pending (codes next) n (prev.map HasCode.code) (codes text) = P.pending next n prev text := by
  induction text generalizing n prev with
  | nil => rfl
  | cons c text ih =>
    cases n with
    | succ n => exact ih n (some c)
    | zero =>
      have hcodes : codes (c :: text) = HasCode.code c :: codes text := rfl
      rw [hcodes, Pass.pending, Pass.pending, h.find_append]
      cases P.find prev (c :: text ++ next) with
      | none => exact ih 0 (some c)
      | some m =>
        have hlen : m.toCodes.taken.length = m.taken.length := List.length_map _
        refine Eq.trans ?_ (ih (m.taken.length - 1) (some c))
        rw [← hlen]
        rfl

theorem Agrees.subBefore (h : Agrees P Q) (n : ℕ) (prev : Option χ) (text next : List χ) :
    Q.subBefore (codes next) n (prev.map HasCode.code) (codes text) =
      codes (P.subBefore next n prev text) := by
  induction text generalizing n prev with
  | nil => rfl
  | cons c text ih =>
    cases n with
    | succ n => exact ih n (some c)
    | zero =>
      have hcodes : codes (c :: text) = HasCode.code c :: codes text := rfl
      rw [hcodes, Pass.subBefore, Pass.subBefore, h.find_append]
      cases P.find prev (c :: text ++ next) with
      | none => exact congrArg (HasCode.code c :: ·) (ih 0 (some c))
      | some m =>
        have hlen : m.toCodes.taken.length = m.taken.length := List.length_map _
        refine Eq.trans ?_ (codes_append _ _).symm
        rw [h.write m, ← ih (m.taken.length - 1) (some c), ← hlen]
        rfl

/-- **The code points of what a pass makes.** -/
theorem Agrees.sub (h : Agrees P Q) (prev : Option χ) (text : List χ) :
    Q.sub (prev.map HasCode.code) (codes text) = codes (P.sub prev text) :=
  h.subBefore 0 prev text []

theorem Agrees.stops_iff (h : Agrees P Q) :
    Q.Stops (prev.map HasCode.code) (codes text) (codes next) ↔ P.Stops prev text next := by
  rw [Stops, Stops, h.pending]

theorem Agrees.kept (h : Agrees P Q) (before text next : List χ) :
    Q.kept (codes before) (codes text) (codes next) = codes (P.kept before text next) := by
  have hpending := h.pending 0 none before (text ++ next)
  have hsub := h.erase.subBefore (P.pending (text ++ next) 0 none before) before.getLast? text next
  rw [Pass.kept, Pass.kept, ← hsub, ← hpending, codes_append, getLast?_codes]
  rfl

/-- The code points tell what passes get to. -/
theorem reaches_codes_iff {passes : List (Pass χ)} {passes' : List (Pass ℕ)}
    (h : List.Forall₂ Agrees passes passes') (before next : List χ) :
    Reaches passes' (codes before) (codes next) ↔ Reaches passes before next := by
  induction h generalizing before next with
  | nil => exact Iff.rfl
  | @cons P Q _ _ h _ ih =>
    have hstops : Q.Stops (none.map HasCode.code) (codes before) (codes next) ↔
        P.Stops none before next := h.stops_iff
    rw [Reaches, Reaches, getLast?_codes, h.sub, ← ih, ← h.subBefore]
    exact and_congr_left fun _ => hstops

end Agrees

end Pass

theorem Regex.first_codes {χ : Type} [HasCode χ] (isWord : ℕ → Bool) (r : Regex)
    (prev : Option χ) (text : List χ) : r.first isWord (prev.map HasCode.code) (codes text) =
      (r.first isWord prev text).map Match.toCodes := by
  rw [first, ways_codes, List.head?_map]
  rfl

/-- The engine finds the same whatever else is known of the characters. -/
theorem Regex.pass_agrees {χ : Type} [HasCode χ] (isWord : ℕ → Bool) (r : Regex)
    (hr : r.takes = true) {write : Match χ → List χ} {write' : Match ℕ → List ℕ}
    (hwrite : ∀ m, codes (write m) = write' m.toCodes) :
    Pass.Agrees (r.pass isWord hr write) (r.pass isWord hr write') :=
  ⟨first_codes isWord r, hwrite⟩
