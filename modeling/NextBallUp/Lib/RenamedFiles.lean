import NextBallUp.Lib.Interleaving
import Mathlib.Data.List.Infix

/-!
# Files that are renamed into place

A value is kept in a file. It is written to a temporary file, piece by piece, which is closed and
then renamed to the path of the value. A reader asks whether there is a file, opens it and reads it,
piece by piece. Any number of programs do this at once, a program may end at any call, and files may
be unlinked. All this cannot be told from registers that are written and read at once.

## Main definitions

* `Codec`: how a value is written, and what is read
* `Program`: what a process does with the values, and with what it has read
* `Files`, `files`: the calls to the file system
* `registers`: the same programs over registers
* `Program.Obeys`: a program that writes valid values if it reads such values
* `Simulates`: the registers hold what the files hold

## Main results

* `exists_reach_registers`: **every run over files is one over registers**

## What is deliberately absent

Errors while an open file is read. Two temporary files of one name: the names are random.
-/

namespace RenamedFiles

variable {I K V B R E : Type*}

/-! ### Programs -/

/-- How a value is written, and what is read. -/
structure Codec (V B R : Type*) where
  /-- The values that are written. -/
  valid : V → Prop
  encode : V → List B
  decode : List B → R
  /-- What is read where a value has been written. -/
  view : V → R
  /-- What is read where there is none. -/
  absent : R
  decode_encode : ∀ v, valid v → decode (encode v) = view v

/-- What a process does next, with the results of what it has done. -/
inductive Program (K V R E : Type*)
  | ended
  /-- Look at the surroundings. -/
  | ask (next : E → Program K V R E)
  /-- Whether the value has been written is told. -/
  | write (k : K) (v : V) (next : Bool → Program K V R E)
  | read (k : K) (next : R → Program K V R E)
  | unlink (k : K) (next : Program K V R E)
  /-- Unlink a temporary file. -/
  | sweep (inode : ℕ) (next : Program K V R E)

/-- What the environment answers to a call. -/
inductive Answer (E : Type*)
  /-- The call succeeds. If it transfers something, it is one more than so much, or all that is
  left. -/
  | ok (n : ℕ)
  /-- What the surroundings are. -/
  | told (e : E)
  | fail
  /-- The process ends. -/
  | crash

/-! ### Registers -/

variable [DecidableEq K] (c : Codec V B R)

/-- What a program does to the registers. -/
def Program.step (a : Answer E) (p : Program K V R E) (w : K → Option V) :
    Option (Program K V R E × (K → Option V)) :=
  match a, p with
  | _, .ended => none
  | .crash, _ => some (.ended, w)
  | .ok _, .write k v next => some (next true, Function.update w k (some v))
  | .fail, .write _ _ next => some (next false, w)
  | .ok _, .read k next => some (next ((w k).elim c.absent c.view), w)
  | .fail, .read _ next => some (next c.absent, w)
  | .ok _, .unlink k next => some (next, Function.update w k none)
  | .fail, .unlink _ next => some (next, w)
  | .ok _, .sweep _ next => some (next, w)
  | .fail, .sweep _ next => some (next, w)
  | .told e, .ask next => some (next e, w)
  | _, _ => none

/-- Registers that are written and read at once. -/
def registers : Machine I (Answer E) (Program K V R E) (K → Option V) where
  step _ a p w := p.step c a w

/-- The program writes valid values, if it reads what has been written. -/
def Program.Obeys : Program K V R E → Prop
  | .ended => True
  | .ask next => ∀ e, (next e).Obeys
  | .write _ v next => c.valid v ∧ ∀ b, (next b).Obeys
  | .read _ next => (next c.absent).Obeys ∧ ∀ v, c.valid v → (next (c.view v)).Obeys
  | .unlink _ next => next.Obeys
  | .sweep _ next => next.Obeys

variable {c} in
/-- Registers hold valid values. -/
theorem Program.Obeys.step {a : Answer E} {p p' : Program K V R E} {r r' : K → Option V}
    (h : p.Obeys c) (hstep : p.step c a r = some (p', r')) (hr : ∀ k v, r k = some v → c.valid v) :
    p'.Obeys c ∧ ∀ k v, r' k = some v → c.valid v := by
  cases a with
  | crash =>
    cases p with
    | ended => cases hstep
    | _ =>
      obtain ⟨rfl, rfl⟩ := Prod.mk.inj (Option.some.inj hstep)
      exact ⟨trivial, hr⟩
  | told e =>
    cases p with
    | ask next =>
      obtain ⟨rfl, rfl⟩ := Prod.mk.inj (Option.some.inj hstep)
      exact ⟨h e, hr⟩
    | _ => cases hstep
  | fail =>
    cases p with
    | ended => cases hstep
    | ask next => cases hstep
    | write k v next =>
      obtain ⟨rfl, rfl⟩ := Prod.mk.inj (Option.some.inj hstep)
      exact ⟨h.2 false, hr⟩
    | read k next =>
      obtain ⟨rfl, rfl⟩ := Prod.mk.inj (Option.some.inj hstep)
      exact ⟨h.1, hr⟩
    | _ =>
      obtain ⟨rfl, rfl⟩ := Prod.mk.inj (Option.some.inj hstep)
      exact ⟨h, hr⟩
  | ok n =>
    cases p with
    | ended => cases hstep
    | ask next => cases hstep
    | write k v next =>
      obtain ⟨rfl, rfl⟩ := Prod.mk.inj (Option.some.inj hstep)
      refine ⟨h.2 true, fun k' v' hv' => ?_⟩
      by_cases hk : k' = k
      · rw [hk, Function.update_self] at hv'
        exact Option.some.inj hv' ▸ h.1
      · rw [Function.update_of_ne hk] at hv'
        exact hr k' v' hv'
    | read k next =>
      obtain ⟨rfl, rfl⟩ := Prod.mk.inj (Option.some.inj hstep)
      refine ⟨?_, hr⟩
      cases hk : r k with
      | none => exact h.1
      | some v => exact h.2 v (hr k v hk)
    | unlink k next =>
      obtain ⟨rfl, rfl⟩ := Prod.mk.inj (Option.some.inj hstep)
      refine ⟨h, fun k' v' hv' => ?_⟩
      by_cases hk : k' = k
      · rw [hk, Function.update_self] at hv'
        cases hv'
      · rw [Function.update_of_ne hk] at hv'
        exact hr k' v' hv'
    | sweep n next =>
      obtain ⟨rfl, rfl⟩ := Prod.mk.inj (Option.some.inj hstep)
      exact ⟨h, hr⟩

/-! ### Files -/

/-- The files by their numbers, and the directory. -/
structure Files (I K B : Type*) where
  /-- What the path leads to. -/
  file : K → Option ℕ
  /-- The temporary file is still in the directory. -/
  temp : ℕ → Bool
  contents : ℕ → List B
  /-- The process that has the file open for writing. -/
  openBy : ℕ → Option I
  nextInode : ℕ

namespace Files

variable (w : Files I K B)

/-- `mkstemp`, and the open file. -/
def create (i : I) : Files I K B where
  file := w.file
  temp := Function.update w.temp w.nextInode true
  contents := Function.update w.contents w.nextInode []
  openBy := Function.update w.openBy w.nextInode (some i)
  nextInode := w.nextInode + 1

/-- `write` to an open file. -/
def append (n : ℕ) (data : List B) : Files I K B :=
  { w with contents := Function.update w.contents n (w.contents n ++ data) }

def close (n : ℕ) : Files I K B := { w with openBy := Function.update w.openBy n none }

/-- `rename` of a temporary file. -/
def rename (n : ℕ) (k : K) : Files I K B :=
  { w with
    file := Function.update w.file k (some n)
    temp := Function.update w.temp n false }

def unlink (k : K) : Files I K B := { w with file := Function.update w.file k none }

def unlinkTemp (n : ℕ) : Files I K B := { w with temp := Function.update w.temp n false }

end Files

/-- Where a process stands. -/
inductive Proc (K V B R E : Type*)
  | ready (p : Program K V R E)
  /-- The temporary file is open, and so much is still to be written. -/
  | writing (k : K) (v : V) (n : ℕ) (rest : List B) (next : Bool → Program K V R E)
  /-- The temporary file is closed. -/
  | written (k : K) (v : V) (n : ℕ) (next : Bool → Program K V R E)
  /-- There has been a file. -/
  | opening (k : K) (next : R → Program K V R E)
  | reading (n : ℕ) (got : List B) (next : R → Program K V R E)

/-- The next call of a process. -/
def Proc.step (i : I) (a : Answer E) (p : Proc K V B R E) (w : Files I K B) :
    Option (Proc K V B R E × Files I K B) :=
  match a, p with
  | _, .ready .ended => none
  | .crash, .writing _ _ n _ _ => some (.ready .ended, w.close n)
  | .crash, _ => some (.ready .ended, w)
  | .ok _, .ready (.write k v next) => some (.writing k v w.nextInode (c.encode v) next, w.create i)
  | .fail, .ready (.write _ _ next) => some (.ready (next false), w)
  | .ok _, .writing k v n [] next => some (.written k v n next, w.close n)
  | .ok m, .writing k v n rest next =>
    some (.writing k v n (rest.drop (m + 1)) next, w.append n (rest.take (m + 1)))
  | .fail, .writing _ _ n _ next => some (.ready (next false), w.close n)
  | .ok _, .written k _ n next =>
    if w.temp n then some (.ready (next true), w.rename n k) else some (.ready (next false), w)
  | .fail, .written _ _ _ next => some (.ready (next false), w)
  | .ok _, .ready (.read k next) =>
    if (w.file k).isSome then some (.opening k next, w) else some (.ready (next c.absent), w)
  | .ok _, .opening k next =>
    match w.file k with
    | some n => some (.reading n [] next, w)
    | none => some (.ready (next c.absent), w)
  | .fail, .opening _ next => some (.ready (next c.absent), w)
  | .ok m, .reading n got next =>
    match (w.contents n).drop got.length with
    | [] => some (.ready (next (c.decode got)), w)
    | rest => some (.reading n (got ++ rest.take (m + 1)) next, w)
  | .ok _, .ready (.unlink k next) => some (.ready next, w.unlink k)
  | .fail, .ready (.unlink _ next) => some (.ready next, w)
  | .ok _, .ready (.sweep n next) => some (.ready next, w.unlinkTemp n)
  | .fail, .ready (.sweep _ next) => some (.ready next, w)
  | .told e, .ready (.ask next) => some (.ready (next e), w)
  | _, _ => none

/-- The calls to the file system. -/
def files : Machine I (Answer E) (Proc K V B R E) (Files I K B) where
  step i a p w := p.step c i a w

/-! ### Simulation -/

/-- What the process does next, as far as registers are concerned. A reader has read when it has
opened the file. -/
def Proc.program (w : Files I K B) : Proc K V B R E → Program K V R E
  | .ready p => p
  | .writing k v _ _ next => .write k v next
  | .written k v _ next => .write k v next
  | .opening k next => .read k next
  | .reading n _ next => next (c.decode (w.contents n))

/-- What the process has written or read is as it should be. -/
def Proc.Sound (i : I) (w : Files I K B) : Proc K V B R E → Prop
  | .writing _ v n rest _ =>
    n < w.nextInode ∧ w.openBy n = some i ∧ w.contents n ++ rest = c.encode v
  | .written _ v n _ => n < w.nextInode ∧ w.openBy n = none ∧ w.contents n = c.encode v
  | .reading n got _ => n < w.nextInode ∧ w.openBy n = none ∧ got <+: w.contents n
  | _ => True

/-- The registers hold what the files hold, and nobody writes to these files. -/
structure Holds (w : Files I K B) (r : K → Option V) : Prop where
  file : ∀ k n, w.file k = some n →
    n < w.nextInode ∧ w.openBy n = none ∧ ∃ v, r k = some v ∧ w.contents n = c.encode v
  absent : ∀ k, w.file k = none → r k = none

/-- Files that others have open, or nobody, stay as they are. -/
structure Files.Keeps (w : Files I K B) (i : I) (w' : Files I K B) : Prop where
  nextInode : w.nextInode ≤ w'.nextInode
  contents : ∀ n < w.nextInode, w.openBy n ≠ some i → w'.contents n = w.contents n
  openBy : ∀ n < w.nextInode, w.openBy n ≠ some i → w'.openBy n = w.openBy n

section Keeps

variable {c} {i j : I} {w w' : Files I K B} {p : Proc K V B R E} {r : K → Option V} {n : ℕ} {k : K}

omit [DecidableEq K]

theorem Files.Keeps.refl (w : Files I K B) (i : I) : w.Keeps i w :=
  ⟨le_rfl, fun _ _ _ => rfl, fun _ _ _ => rfl⟩

theorem Files.keeps_create (w : Files I K B) (i : I) : w.Keeps i (w.create i) where
  nextInode := Nat.le_succ _
  contents _ hn _ := Function.update_of_ne hn.ne ..
  openBy _ hn _ := Function.update_of_ne hn.ne ..

theorem Files.keeps_append (hn : w.openBy n = some i) (data : List B) :
    w.Keeps i (w.append n data) where
  nextInode := le_rfl
  contents m _ hm := Function.update_of_ne (fun h : m = n => hm (h.symm ▸ hn)) ..
  openBy _ _ _ := rfl

theorem Files.keeps_close (hn : w.openBy n = some i) : w.Keeps i (w.close n) where
  nextInode := le_rfl
  contents _ _ _ := rfl
  openBy m _ hm := Function.update_of_ne (fun h : m = n => hm (h.symm ▸ hn)) ..

/-- What a process has read and written is not touched by others. -/
theorem Proc.Sound.keeps (h : p.Sound c j w) (hw : w.Keeps i w') (hj : j ≠ i) :
    p.Sound c j w' ∧ p.program c w' = p.program c w := by
  cases p with
  | writing k v n rest next =>
    obtain ⟨hlt, hopen, hdata⟩ := h
    have hne : w.openBy n ≠ some i := by
      rw [hopen]
      exact fun he => hj (Option.some.inj he)
    refine ⟨⟨hlt.trans_le hw.nextInode, ?_, ?_⟩, rfl⟩
    · rw [hw.openBy n hlt hne, hopen]
    · rw [hw.contents n hlt hne, hdata]
  | written k v n next =>
    obtain ⟨hlt, hopen, hdata⟩ := h
    have hne : w.openBy n ≠ some i := by simp [hopen]
    refine ⟨⟨hlt.trans_le hw.nextInode, ?_, ?_⟩, rfl⟩
    · rw [hw.openBy n hlt hne, hopen]
    · rw [hw.contents n hlt hne, hdata]
  | reading n got next =>
    obtain ⟨hlt, hopen, hgot⟩ := h
    have hne : w.openBy n ≠ some i := by simp [hopen]
    have hcontents := hw.contents n hlt hne
    refine ⟨⟨hlt.trans_le hw.nextInode, ?_, ?_⟩, ?_⟩
    · rw [hw.openBy n hlt hne, hopen]
    · rw [hcontents]
      exact hgot
    · rw [Proc.program, Proc.program, hcontents]
  | _ => exact ⟨trivial, rfl⟩

/-- Files that are not in their places yet may be written. -/
theorem Holds.keeps (h : Holds c w r) (hw : w.Keeps i w') (hfile : w'.file = w.file) :
    Holds c w' r where
  file k n hk := by
    rw [hfile] at hk
    obtain ⟨hlt, hopen, v, hr, hdata⟩ := h.file k n hk
    have hne : w.openBy n ≠ some i := by simp [hopen]
    refine ⟨hlt.trans_le hw.nextInode, ?_, v, hr, ?_⟩
    · rw [hw.openBy n hlt hne, hopen]
    · rw [hw.contents n hlt hne, hdata]
  absent k hk := h.absent k (hfile ▸ hk)

end Keeps

section Rename

variable {c} {w : Files I K B} {r : K → Option V} {n : ℕ} {k : K} {v : V}

/-- What is renamed into its place is a whole value. -/
theorem Holds.rename (h : Holds c w r) (hlt : n < w.nextInode) (hopen : w.openBy n = none)
    (hdata : w.contents n = c.encode v) :
    Holds c (w.rename n k) (Function.update r k (some v)) where
  file k' m hk' := by
    by_cases hk : k' = k
    · subst hk
      have hm : n = m := by simpa [Files.rename] using hk'
      subst hm
      exact ⟨hlt, hopen, v, Function.update_self .., hdata⟩
    · have hold : w.file k' = some m := by simpa [Files.rename, hk] using hk'
      obtain ⟨hlt', hopen', v', hr, hdata'⟩ := h.file k' m hold
      exact ⟨hlt', hopen', v', (Function.update_of_ne hk ..).trans hr, hdata'⟩
  absent k' hk' := by
    by_cases hk : k' = k
    · subst hk
      simp [Files.rename] at hk'
    · rw [Function.update_of_ne hk]
      exact h.absent k' (by simpa [Files.rename, hk] using hk')

theorem Holds.unlink (h : Holds c w r) (k : K) :
    Holds c (w.unlink k) (Function.update r k none) where
  file k' m hk' := by
    have hk : k' ≠ k := by
      rintro rfl
      simp [Files.unlink] at hk'
    rw [Function.update_of_ne hk]
    exact h.file k' m (by simpa [Files.unlink, hk] using hk')
  absent k' hk' := by
    by_cases hk : k' = k
    · subst hk
      exact Function.update_self ..
    · rw [Function.update_of_ne hk]
      exact h.absent k' (by simpa [Files.unlink, hk] using hk')

end Rename

section Step

variable {c} {i : I} {a : Answer E} {w w' : Files I K B} {p p' : Proc K V B R E} {r : K → Option V}

/-- What a call of a sound process comes to. Over registers nothing has happened, or the program has
taken a step. -/
structure Move (i : I) (w : Files I K B) (r : K → Option V) (p p' : Proc K V B R E)
    (w' : Files I K B) : Prop where
  keeps : w.Keeps i w'
  sound : p'.Sound c i w'
  step : (p'.program c w' = p.program c w ∧ Holds c w' r) ∨
    ∃ a r', (p.program c w).step c a r = some (p'.program c w', r') ∧ Holds c w' r'

/-- A call that only changes what the process knows. -/
theorem Move.silent (hs : p'.Sound c i w) (hp : p'.program c w = p.program c w)
    (hr : Holds c w r) : Move (c := c) i w r p p' w :=
  ⟨.refl w i, hs, .inl ⟨hp, hr⟩⟩

/-- A process ends. -/
theorem Move.crash (hk : w.Keeps i w') (hr : Holds c w' r) :
    Move (c := c) i w r p (.ready .ended) w' := by
  refine ⟨hk, trivial, ?_⟩
  cases h : p.program c w with
  | ended => exact .inl ⟨rfl, hr⟩
  | _ => exact .inr ⟨.crash, r, rfl, hr⟩

/-- A call that fails before it has done anything. -/
theorem Move.fail {q : Program K V R E} (hstep : (p.program c w).step c .fail r = some (q, r))
    (hk : w.Keeps i w') (hr : Holds c w' r) : Move (c := c) i w r p (.ready q) w' :=
  ⟨hk, trivial, .inr ⟨.fail, r, hstep, hr⟩⟩

/-- A call that takes the step of the program. -/
theorem Move.take {q : Program K V R E} {r' : K → Option V}
    (hstep : (p.program c w).step c (.ok 0) r = some (q, r')) (hs : p'.Sound c i w')
    (hp : p'.program c w' = q) (hk : w.Keeps i w') (hr : Holds c w' r') :
    Move (c := c) i w r p p' w' :=
  ⟨hk, hs, .inr ⟨.ok 0, r', by rw [hp, hstep], hr⟩⟩

theorem Files.keeps_rename (w : Files I K B) (i : I) (n : ℕ) (k : K) : w.Keeps i (w.rename n k) :=
  ⟨le_rfl, fun _ _ _ => rfl, fun _ _ _ => rfl⟩

/-- A program calls. -/
theorem move_of_ready {q : Program K V R E} (h : Proc.step c i a (.ready q) w = some (p', w'))
    (hr : Holds c w r) : Move (c := c) i w r (.ready q) p' w' := by
  cases q with
  | ended => cases a <;> cases h
  | ask next =>
    cases a with
    | told e =>
      obtain ⟨rfl, rfl⟩ := Prod.mk.inj (Option.some.inj h)
      exact ⟨.refl _ _, trivial, .inr ⟨.told e, r, rfl, hr⟩⟩
    | crash =>
      obtain ⟨rfl, rfl⟩ := Prod.mk.inj (Option.some.inj h)
      exact .crash (.refl _ _) hr
    | ok m => cases h
    | fail => cases h
  | write k v next =>
    cases a with
    | ok m =>
      obtain ⟨rfl, rfl⟩ := Prod.mk.inj (Option.some.inj h)
      refine ⟨w.keeps_create i, ⟨Nat.lt_succ_self _, Function.update_self .., ?_⟩,
        .inl ⟨rfl, hr.keeps (w.keeps_create i) rfl⟩⟩
      show Function.update w.contents w.nextInode [] w.nextInode ++ c.encode v = c.encode v
      rw [Function.update_self, List.nil_append]
    | fail =>
      obtain ⟨rfl, rfl⟩ := Prod.mk.inj (Option.some.inj h)
      exact .fail rfl (.refl _ _) hr
    | crash =>
      obtain ⟨rfl, rfl⟩ := Prod.mk.inj (Option.some.inj h)
      exact .crash (.refl _ _) hr
    | told e => cases h
  | read k next =>
    cases a with
    | ok m =>
      rw [Proc.step] at h
      split_ifs at h with hk
      · obtain ⟨rfl, rfl⟩ := Prod.mk.inj (Option.some.inj h)
        exact .silent trivial rfl hr
      · obtain ⟨rfl, rfl⟩ := Prod.mk.inj (Option.some.inj h)
        refine .take (q := next c.absent) ?_ trivial rfl (.refl _ _) hr
        show some (next ((r k).elim c.absent c.view), r) = _
        rw [hr.absent k (by simpa using hk)]
        rfl
    | fail => cases h
    | crash =>
      obtain ⟨rfl, rfl⟩ := Prod.mk.inj (Option.some.inj h)
      exact .crash (.refl _ _) hr
    | told e => cases h
  | unlink k next =>
    cases a with
    | ok m =>
      obtain ⟨rfl, rfl⟩ := Prod.mk.inj (Option.some.inj h)
      exact .take rfl trivial rfl ⟨le_rfl, fun _ _ _ => rfl, fun _ _ _ => rfl⟩ (hr.unlink k)
    | fail =>
      obtain ⟨rfl, rfl⟩ := Prod.mk.inj (Option.some.inj h)
      exact .fail rfl (.refl _ _) hr
    | crash =>
      obtain ⟨rfl, rfl⟩ := Prod.mk.inj (Option.some.inj h)
      exact .crash (.refl _ _) hr
    | told e => cases h
  | sweep n next =>
    have hkeeps : w.Keeps i (w.unlinkTemp n) := ⟨le_rfl, fun _ _ _ => rfl, fun _ _ _ => rfl⟩
    cases a with
    | ok m =>
      obtain ⟨rfl, rfl⟩ := Prod.mk.inj (Option.some.inj h)
      exact .take rfl trivial rfl hkeeps (hr.keeps hkeeps rfl)
    | fail =>
      obtain ⟨rfl, rfl⟩ := Prod.mk.inj (Option.some.inj h)
      exact .fail rfl (.refl _ _) hr
    | crash =>
      obtain ⟨rfl, rfl⟩ := Prod.mk.inj (Option.some.inj h)
      exact .crash (.refl _ _) hr
    | told e => cases h

/-- A value is being written. -/
theorem move_of_writing {k : K} {v : V} {n : ℕ} {rest : List B} {next : Bool → Program K V R E}
    (h : Proc.step c i a (.writing k v n rest next) w = some (p', w'))
    (hp : (Proc.writing k v n rest next).Sound c i w) (hr : Holds c w r) :
    Move (c := c) i w r (.writing k v n rest next) p' w' := by
  obtain ⟨hlt, hopen, hdata⟩ := hp
  have hclose := Files.keeps_close hopen
  cases a with
  | ok m =>
    cases rest with
    | nil =>
      obtain ⟨rfl, rfl⟩ := Prod.mk.inj (Option.some.inj h)
      rw [List.append_nil] at hdata
      exact ⟨hclose, ⟨hlt, Function.update_self .., hdata⟩, .inl ⟨rfl, hr.keeps hclose rfl⟩⟩
    | cons b rest =>
      obtain ⟨rfl, rfl⟩ := Prod.mk.inj (Option.some.inj h)
      have happend := Files.keeps_append hopen ((b :: rest).take (m + 1))
      refine ⟨happend, ⟨hlt, hopen, ?_⟩, .inl ⟨rfl, hr.keeps happend rfl⟩⟩
      show Function.update w.contents n _ n ++ _ = _
      rw [Function.update_self, List.append_assoc, List.take_append_drop, hdata]
  | fail =>
    obtain ⟨rfl, rfl⟩ := Prod.mk.inj (Option.some.inj h)
    exact .fail rfl hclose (hr.keeps hclose rfl)
  | crash =>
    obtain ⟨rfl, rfl⟩ := Prod.mk.inj (Option.some.inj h)
    exact .crash hclose (hr.keeps hclose rfl)
  | told e => cases h

/-- A value has been written and is renamed into its place. -/
theorem move_of_written {k : K} {v : V} {n : ℕ} {next : Bool → Program K V R E}
    (h : Proc.step c i a (.written k v n next) w = some (p', w'))
    (hp : (Proc.written k v n next).Sound c i w) (hr : Holds c w r) :
    Move (c := c) i w r (.written k v n next) p' w' := by
  obtain ⟨hlt, hopen, hdata⟩ := hp
  cases a with
  | ok m =>
    rw [Proc.step] at h
    split_ifs at h with htemp
    · obtain ⟨rfl, rfl⟩ := Prod.mk.inj (Option.some.inj h)
      exact .take rfl trivial rfl (w.keeps_rename i n k) (hr.rename hlt hopen hdata)
    · obtain ⟨rfl, rfl⟩ := Prod.mk.inj (Option.some.inj h)
      exact .fail rfl (.refl _ _) hr
  | fail =>
    obtain ⟨rfl, rfl⟩ := Prod.mk.inj (Option.some.inj h)
    exact .fail rfl (.refl _ _) hr
  | crash =>
    obtain ⟨rfl, rfl⟩ := Prod.mk.inj (Option.some.inj h)
    exact .crash (.refl _ _) hr
  | told e => cases h

/-- A reader opens the file: it has read what is there now. -/
theorem move_of_opening {k : K} {next : R → Program K V R E}
    (h : Proc.step c i a (.opening k next) w = some (p', w')) (hr : Holds c w r)
    (hvalid : ∀ k v, r k = some v → c.valid v) :
    Move (c := c) i w r (.opening k next) p' w' := by
  cases a with
  | ok m =>
    rw [Proc.step] at h
    cases hk : w.file k with
    | none =>
      rw [hk] at h
      obtain ⟨rfl, rfl⟩ := Prod.mk.inj (Option.some.inj h)
      refine .take (q := next c.absent) ?_ trivial rfl (.refl _ _) hr
      show some (next ((r k).elim c.absent c.view), r) = _
      rw [hr.absent k hk]
      rfl
    | some n =>
      rw [hk] at h
      obtain ⟨rfl, rfl⟩ := Prod.mk.inj (Option.some.inj h)
      obtain ⟨hlt, hopen, v, hv, hdata⟩ := hr.file k n hk
      refine .take (q := next (c.view v)) ?_ ⟨hlt, hopen, List.nil_prefix⟩ ?_ (.refl _ _) hr
      · show some (next ((r k).elim c.absent c.view), r) = _
        rw [hv]
        rfl
      · rw [Proc.program, hdata, c.decode_encode v (hvalid k v hv)]
  | fail =>
    obtain ⟨rfl, rfl⟩ := Prod.mk.inj (Option.some.inj h)
    exact .fail rfl (.refl _ _) hr
  | crash =>
    obtain ⟨rfl, rfl⟩ := Prod.mk.inj (Option.some.inj h)
    exact .crash (.refl _ _) hr
  | told e => cases h

/-- A reader reads on. -/
theorem move_of_reading {n : ℕ} {got : List B} {next : R → Program K V R E}
    (h : Proc.step c i a (.reading n got next) w = some (p', w'))
    (hp : (Proc.reading n got next).Sound c i w) (hr : Holds c w r) :
    Move (c := c) i w r (.reading n got next) p' w' := by
  obtain ⟨hlt, hopen, later, hlater⟩ := hp
  have hdrop : (w.contents n).drop got.length = later := by rw [← hlater, List.drop_left]
  cases a with
  | ok m =>
    rw [Proc.step, hdrop] at h
    cases later with
    | nil =>
      obtain ⟨rfl, rfl⟩ := Prod.mk.inj (Option.some.inj h)
      rw [List.append_nil] at hlater
      exact .silent trivial (by rw [Proc.program, Proc.program, hlater]) hr
    | cons b later =>
      obtain ⟨rfl, rfl⟩ := Prod.mk.inj (Option.some.inj h)
      refine .silent ⟨hlt, hopen, (b :: later).drop (m + 1), ?_⟩ rfl hr
      rw [List.append_assoc, List.take_append_drop, hlater]
  | fail => cases h
  | crash =>
    obtain ⟨rfl, rfl⟩ := Prod.mk.inj (Option.some.inj h)
    exact .crash (.refl _ _) hr
  | told e => cases h

theorem move_of_step (h : p.step c i a w = some (p', w')) (hp : p.Sound c i w)
    (hr : Holds c w r) (hvalid : ∀ k v, r k = some v → c.valid v) :
    Move (c := c) i w r p p' w' := by
  cases p with
  | ready q => exact move_of_ready h hr
  | writing k v n rest next => exact move_of_writing h hp hr
  | written k v n next => exact move_of_written h hp hr
  | opening k next => exact move_of_opening h hr hvalid
  | reading n got next => exact move_of_reading h hp hr

end Step

/-! ### Runs -/

/-- The programs are as far, and the registers hold what the files hold. -/
structure Simulates (x : Conf I (Proc K V B R E) (Files I K B))
    (y : Conf I (Program K V R E) (K → Option V)) : Prop where
  sound : ∀ i, (x.procs i).Sound c i x.world
  programs : ∀ i, y.procs i = (x.procs i).program c x.world
  holds : Holds c x.world y.world
  obeys : ∀ i, (y.procs i).Obeys c
  valid : ∀ k v, y.world k = some v → c.valid v

section Runs

variable {c} [DecidableEq I] {x x' x₀ : Conf I (Proc K V B R E) (Files I K B)}
  {y y₀ : Conf I (Program K V R E) (K → Option V)}

/-- One call. -/
theorem exists_simulates {i : I} {a : Answer E} (h : Simulates c x y)
    (hnext : (files c).next x i a = some x') :
    Simulates c x' y ∨ ∃ a' y', (registers c).next y i a' = some y' ∧ Simulates c x' y' := by
  obtain ⟨p', w', hstep, rfl⟩ := Machine.next_eq_some.mp hnext
  have hmove : Move (c := c) i x.world y.world (x.procs i) p' w' :=
    move_of_step hstep (h.sound i) h.holds h.valid
  have hothers (j : I) (hj : j ≠ i) :
      (x.procs j).Sound c j w' ∧ (x.procs j).program c w' = (x.procs j).program c x.world :=
    (h.sound j).keeps hmove.keeps hj
  have hsound (j : I) : (Function.update x.procs i p' j).Sound c j w' := by
    by_cases hj : j = i
    · subst hj
      rw [Function.update_self]
      exact hmove.sound
    · rw [Function.update_of_ne hj]
      exact (hothers j hj).1
  rcases hmove.step with ⟨hprogram, hholds⟩ | ⟨a', r', hprogram, hholds⟩
  · refine .inl ⟨hsound, fun j => ?_, hholds, h.obeys, h.valid⟩
    show y.procs j = (Function.update x.procs i p' j).program c w'
    by_cases hj : j = i
    · subst hj
      rw [Function.update_self, hprogram, h.programs]
    · rw [Function.update_of_ne hj, (hothers j hj).2, h.programs]
  · have hobeys := (h.obeys i).step (a := a') (r := y.world) (by rw [h.programs, hprogram]) h.valid
    refine .inr ⟨a', ⟨Function.update y.procs i (p'.program c w'), r'⟩, ?_, hsound, fun j => ?_,
      hholds, fun j => ?_, hobeys.2⟩
    · refine Machine.next_eq_some.mpr ⟨_, _, ?_, rfl⟩
      rw [h.programs]
      exact hprogram
    · show Function.update y.procs i (p'.program c w') j =
        (Function.update x.procs i p' j).program c w'
      by_cases hj : j = i
      · subst hj
        rw [Function.update_self, Function.update_self]
      · rw [Function.update_of_ne hj, Function.update_of_ne hj, (hothers j hj).2, h.programs]
    · show (Function.update y.procs i (p'.program c w') j).Obeys c
      by_cases hj : j = i
      · subst hj
        rw [Function.update_self]
        exact hobeys.1
      · rw [Function.update_of_ne hj]
        exact h.obeys j

/-- **Every run over files is one over registers.** -/
theorem exists_reach_registers (h₀ : Simulates c x₀ y₀)
    (h : (files c).Reach (· = x₀) Machine.Always x) :
    ∃ y, (registers c).Reach (· = y₀) Machine.Always y ∧ Simulates c x y := by
  induction h with
  | start h => exact ⟨y₀, .start rfl, h ▸ h₀⟩
  | next _ _ hnext ih =>
    obtain ⟨y, hy, hsim⟩ := ih
    rcases exists_simulates hsim hnext with hsim' | ⟨a', y', hnext', hsim'⟩
    · exact ⟨y, hy, hsim'⟩
    · exact ⟨y', hy.next trivial hnext', hsim'⟩

omit [DecidableEq K] [DecidableEq I] in
/-- No files, and programs that have not begun. -/
theorem simulates_start {programs : I → Program K V R E} (hobeys : ∀ i, (programs i).Obeys c)
    {w : Files I K B} (hw : ∀ k, w.file k = none) :
    Simulates c ⟨fun i => .ready (programs i), w⟩ ⟨programs, fun _ => none⟩ where
  sound _ := trivial
  programs _ := rfl
  holds := ⟨fun k n hk => absurd hk (by simp [hw k]), fun _ _ => rfl⟩
  obeys := hobeys
  valid k v hk := by cases hk

end Runs

end RenamedFiles
