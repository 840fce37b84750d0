import NextBallUp.Lib.Passes

/-!
# Texts from which parts are cut out

Several substitutions may differ in what they look for and yet do the same kind of thing: parts of
a text are replaced by a block that is always the same. `Cuts` says this of two texts, with what is
known of the places where a character is kept and of those where a part is cut out.

## Main definitions

* `Cuts`: a text comes from another one by cutting out parts

## Main results

* `Cuts.exists_of_append`: **a text without the ends of the block** is a part of the text before
* `Pass.cuts_sub`: a pass that always writes the block cuts out what it finds
-/

variable {χ : Type}

/-- A text comes from another one by cutting out parts: at each place, a character is kept or a part
is replaced by a block. A character may come before the text. -/
inductive Cuts (block : List χ) (keeps : Option χ → List χ → Prop)
    (cuts : Option χ → List χ → List χ → Prop) : Option χ → List χ → List χ → Prop
  | nil (prev : Option χ) : Cuts block keeps cuts prev [] []
  | keep {prev : Option χ} {c : χ} {text out : List χ} : keeps prev (c :: text) →
      Cuts block keeps cuts (some c) text out → Cuts block keeps cuts prev (c :: text) (c :: out)
  | cut {prev : Option χ} {part rest out : List χ} : cuts prev part rest →
      Cuts block keeps cuts part.getLast? rest out →
        Cuts block keeps cuts prev (part ++ rest) (block ++ out)

namespace Cuts

open Regex (getLast?_cons_or)

variable {block : List χ} {keeps keeps' : Option χ → List χ → Prop}
  {cuts : Option χ → List χ → List χ → Prop} {prev : Option χ} {text out w rest : List χ}
  {o e d : χ}

/-- What begins a text stays there, if the block does not begin in it. -/
theorem exists_of_append_left (ho : block.head? = some o) (hw : o ∉ w)
    (h : Cuts block keeps cuts prev text (w ++ rest)) : ∃ y, text = w ++ y ∧
      Cuts block keeps cuts (w.getLast?.or prev) y rest ∧ (w ≠ [] → keeps prev text) := by
  induction w generalizing prev text with
  | nil => exact ⟨text, rfl, h, fun hne => (hne rfl).elim⟩
  | cons c w ih =>
    obtain ⟨hc, hw'⟩ := not_or.mp (mt List.mem_cons.mpr hw)
    rw [List.cons_append] at h
    generalize hout : c :: (w ++ rest) = out at h
    cases h with
    | nil => cases hout
    | keep hkeep h =>
      obtain ⟨rfl, rfl⟩ := List.cons.inj hout
      obtain ⟨y, rfl, hy, -⟩ := ih hw' h
      exact ⟨y, rfl, by rwa [getLast?_cons_or], fun _ => hkeep⟩
    | cut _ _ =>
      have hhead := congrArg List.head? hout
      rw [List.head?_append, ho] at hhead
      exact (hc (Option.some.inj hhead).symm).elim

/-- **A text without the ends of the block** is a part of the text before. What comes before it
there is the same character, or the end of a part that is cut out. -/
theorem exists_of_append (hcuts : ∀ prev part rest, cuts prev part rest → part ≠ [])
    (ho : block.head? = some o) (he : block.getLast? = some e) (hwo : o ∉ w) (hwe : e ∉ w)
    (hd : d ∈ w) (hdb : d ∉ block) {z : List χ}
    (h : Cuts block keeps cuts prev text (z ++ (w ++ rest))) : ∃ x y, text = x ++ (w ++ y) ∧
      keeps (x.getLast?.or prev) (w ++ y) ∧
      Cuts block keeps cuts (w.getLast?.or (x.getLast?.or prev)) y rest ∧
      (z.getLast?.or prev = x.getLast?.or prev ∨
        ∃ prev' part, cuts prev' part (w ++ y) ∧ part.getLast? = x.getLast?.or prev) := by
  have hne : w ≠ [] := List.ne_nil_of_mem hd
  generalize hout : z ++ (w ++ rest) = out at h
  induction h generalizing z with
  | nil prev =>
    have hnil := (List.append_eq_nil_iff.mp hout).2
    exact (hne (List.append_eq_nil_iff.mp hnil).1).elim
  | @keep prev c text out hkeep h ih =>
    cases z with
    | nil =>
      have hall := Cuts.keep hkeep h
      rw [← hout] at hall
      obtain ⟨y, hy, hrest, hkeeps⟩ := exists_of_append_left ho hwo hall
      exact ⟨[], y, hy, hy ▸ hkeeps hne, hrest, .inl rfl⟩
    | cons c' z =>
      obtain ⟨rfl, htail⟩ := List.cons.inj hout
      obtain ⟨x, y, rfl, hkeeps, hrest, hlast⟩ := ih htail
      rw [← getLast?_cons_or c' x prev] at hkeeps hrest hlast
      rw [← getLast?_cons_or c' z prev] at hlast
      exact ⟨c' :: x, y, rfl, hkeeps, hrest, hlast⟩
  | @cut prev part text out hcut h ih =>
    have hpart := hcuts _ _ _ hcut
    obtain ⟨z', rfl, rfl⟩ := Pass.exists_of_block_append he hwe hd hdb hout.symm
    have hor : ∀ prev', part.getLast?.or prev' = part.getLast? := by
      intro prev'
      rw [List.getLast?_eq_getLast_of_ne_nil hpart]
      rfl
    rcases List.eq_nil_or_concat' z' with rfl | ⟨z', c, rfl⟩
    · rw [List.nil_append] at h
      obtain ⟨y, rfl, hrest, hkeeps⟩ := exists_of_append_left ho hwo h
      refine ⟨part, y, rfl, ?_, ?_, .inr ⟨prev, part, hcut, (hor prev).symm⟩⟩
      · rw [hor]
        exact hkeeps hne
      · rwa [hor]
    · obtain ⟨x, y, rfl, hkeeps, hrest, hlast⟩ := ih rfl
      have hx : (part ++ x).getLast?.or prev = x.getLast?.or part.getLast? := by
        rw [List.getLast?_append, Option.or_assoc, hor]
      refine ⟨part ++ x, y, (List.append_assoc _ _ _).symm, ?_, ?_, ?_⟩
      · rwa [hx]
      · rwa [hx]
      · rw [hx]
        refine hlast.imp_left fun hlast => ?_
        rw [← hlast, ← List.append_assoc, List.getLast?_concat, List.getLast?_concat]
        rfl

theorem keep_append (h : Cuts block (fun _ _ => True) cuts (w.getLast?.or prev) text out) :
    Cuts block (fun _ _ => True) cuts prev (w ++ text) (w ++ out) := by
  induction w generalizing prev with
  | nil => exact h
  | cons c w ih =>
    rw [getLast?_cons_or] at h
    exact .keep trivial (ih h)

/-- Of the characters that are kept, more may be known from the text before. -/
theorem of_misses {P : Pass χ} (hcuts : ∀ prev part rest, cuts prev part rest → part ≠ [])
    (hmiss : P.Misses prev text []) (h : Cuts block keeps cuts prev text out) :
    Cuts block (fun prev text => P.find prev text = none) cuts prev text out := by
  induction h with
  | nil prev => exact .nil prev
  | keep _ _ ih =>
    obtain ⟨hnone, hmiss⟩ := hmiss
    rw [List.append_nil] at hnone
    exact .keep hnone (ih hmiss)
  | @cut prev part rest out hcut _ ih =>
    refine .cut hcut (ih ?_)
    have hpart := hcuts _ _ _ hcut
    have hlast : part.getLast?.or prev = part.getLast? := by
      rw [List.getLast?_eq_getLast_of_ne_nil hpart]
      rfl
    rw [← hlast]
    exact hmiss.of_append

end Cuts

namespace Pass

variable {P : Pass χ} {block : List χ} {cuts : Option χ → List χ → List χ → Prop}

/-- **A pass that always writes the block** cuts out what it finds. -/
theorem cuts_sub (hwrite : ∀ m, P.write m = block)
    (hcuts : ∀ prev text m, P.find prev text = some m → cuts prev m.taken m.rest)
    (prev : Option χ) (text : List χ) :
    Cuts block (fun prev text => P.find prev text = none) cuts prev text (P.sub prev text) := by
  induction prev, text using P.induction with
  | nil prev => exact .nil prev
  | char prev c text h ih =>
    rw [sub_cons h]
    exact .keep h ih
  | found prev text m h ih =>
    rw [sub_of_find h, hwrite, ← P.taken_append_rest h]
    exact .cut (hcuts _ _ m h) ih

end Pass
