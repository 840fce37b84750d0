/-!
# Transactions

Programs that talk to a database over one connection. The statements of a transaction work on a copy
of the database under settings that last until the transaction ends; a commit publishes the copy and
resets the settings. An exception ends the program: what has not been committed is lost.

## Main definitions

* `Transaction.Session`, `Transaction`: a connection, and a program over it
* `Transaction.query`, `Transaction.set`, `Transaction.commit`
* `Transaction.Spec`: what a program guarantees when it returns and when it raises
* `Transaction.Preserves`: an invariant of the connection holds afterwards if it did before

## Main results

* one rule for each way of building a program
* `Transaction.Spec.result_eq`: a program that is certain to raise leaves the database as it was
-/

/-- A connection to a database of type `D`, with settings of type `S`. -/
structure Transaction.Session (D S : Type) where
  /-- What others see, and what is left if the program raises. -/
  committed : D
  /-- What the statements of the open transaction see. -/
  working : D
  settings : S

/-- A program over a connection, which returns a value or raises an exception of type `ε`. -/
def Transaction (D S ε α : Type) :=
  Transaction.Session D S → Except ε α × Transaction.Session D S

namespace Transaction

variable {D S ε α β : Type}

instance : Monad (Transaction D S ε) where
  pure a s := (.ok a, s)
  bind m f s :=
    match m s with
    | (.ok a, s') => f a s'
    | (.error e, s') => (.error e, s')

instance : MonadExceptOf ε (Transaction D S ε) where
  throw e s := (.error e, s)
  tryCatch m handler s :=
    match m s with
    | (.ok a, s') => (.ok a, s')
    | (.error e, s') => handler e s'

/-- A statement: what it returns or raises, and what it makes of the database. -/
def query (f : S → D → Except ε (α × D)) : Transaction D S ε α := fun s =>
  match f s.settings s.working with
  | .ok (a, d) => (.ok a, { s with working := d })
  | .error e => (.error e, s)

/-- `set_config(…, is_local => true)`. -/
def set (f : S → S) : Transaction D S ε Unit := fun s =>
  (.ok (), { s with settings := f s.settings })

/-- The transaction is committed, and its settings with it. -/
def commit (initial : S) : Transaction D S ε Unit := fun s =>
  (.ok (), { s with committed := s.working, settings := initial })

theorem bind_apply (m : Transaction D S ε α) (f : α → Transaction D S ε β) (s : Session D S) :
    (m >>= f) s = match m s with
      | (.ok a, s') => f a s'
      | (.error e, s') => (.error e, s') := rfl

theorem bind_ok {m : Transaction D S ε α} {f : α → Transaction D S ε β} {s s' : Session D S}
    {a : α} (h : m s = (.ok a, s')) : (m >>= f) s = f a s' := by
  rw [bind_apply, h]

theorem bind_error {m : Transaction D S ε α} {f : α → Transaction D S ε β} {s s' : Session D S}
    {e : ε} (h : m s = (.error e, s')) : (m >>= f) s = (.error e, s') := by
  rw [bind_apply, h]

/-- A program that returns has returned from its first part. -/
theorem bind_eq_ok {m : Transaction D S ε α} {f : α → Transaction D S ε β} {s s' : Session D S}
    {b : β} (h : (m >>= f) s = (.ok b, s')) :
    ∃ a s₁, m s = (.ok a, s₁) ∧ f a s₁ = (.ok b, s') := by
  rw [bind_apply] at h
  cases hm : m s with
  | mk r s₁ =>
    rw [hm] at h
    cases r with
    | ok a => exact ⟨a, s₁, rfl, h⟩
    | error e => cases h

theorem tryCatch_ok {m : Transaction D S ε α} (handler : ε → Transaction D S ε α)
    {s s' : Session D S} {a : α} (h : m s = (.ok a, s')) :
    MonadExcept.tryCatch m handler s = (.ok a, s') := by
  change (match m s with
    | (.ok a, s') => (.ok a, s')
    | (.error e, s') => handler e s' : Except ε α × Session D S) = _
  rw [h]

/-- A program with a handler that returns has returned itself, or its handler has. -/
theorem tryCatch_eq_ok {m : Transaction D S ε α} {handler : ε → Transaction D S ε α}
    {s s' : Session D S} {a : α} (h : MonadExcept.tryCatch m handler s = (.ok a, s')) :
    m s = (.ok a, s') ∨ ∃ e s₁, m s = (.error e, s₁) ∧ handler e s₁ = (.ok a, s') := by
  change (match m s with
    | (.ok a, s') => (.ok a, s')
    | (.error e, s') => handler e s' : Except ε α × Session D S) = _ at h
  cases hm : m s with
  | mk r s₁ =>
    rw [hm] at h
    cases r with
    | ok b => exact .inl h
    | error e => exact .inr ⟨e, s₁, rfl, h⟩

theorem set_bind (g : S → S) (f : Unit → Transaction D S ε β) (s : Session D S) :
    (set g >>= f) s = f () { s with settings := g s.settings } := rfl

theorem ite_apply (c : Prop) [Decidable c] (m m' : Transaction D S ε α) (s : Session D S) :
    (if c then m else m') s = if c then m s else m' s := by
  split <;> rfl

theorem commit_bind (initial : S) (f : Unit → Transaction D S ε β) (s : Session D S) :
    (commit initial >>= f) s = f () { s with committed := s.working, settings := initial } := rfl

theorem pure_apply (a : α) (s : Session D S) :
    (Pure.pure a : Transaction D S ε α) s = (.ok a, s) := rfl

/-- What the program leaves behind: the database as it was last committed. -/
def result (m : Transaction D S ε α) (s : Session D S) : D := (m s).2.committed

/-! ### Specifications -/

/-- From every session that satisfies `P`, the program either returns and `Q` holds, or raises and
`E` holds. -/
def Spec {D S ε α : Type} (P : Session D S → Prop) (m : Transaction D S ε α)
    (Q : α → Session D S → Prop) (E : Session D S → Prop) : Prop :=
  ∀ s, P s → match m s with
    | (.ok a, s') => Q a s'
    | (.error _, s') => E s'

namespace Spec

variable {D S ε α β : Type} {P P' : Session D S → Prop} {Q Q' : α → Session D S → Prop}
  {R : β → Session D S → Prop} {E E' : Session D S → Prop} {m : Transaction D S ε α}
  {f : α → Transaction D S ε β}

theorem pure {a : α} (h : ∀ s, P s → Q a s) : Spec P (Pure.pure a : Transaction D S ε α) Q E :=
  fun s hs => h s hs

theorem throw {e : ε} (h : ∀ s, P s → E s) :
    Spec P (MonadExcept.throw e : Transaction D S ε α) Q E := fun s hs => h s hs

theorem query {q : S → D → Except ε (α × D)}
    (hok : ∀ s a d, P s → q s.settings s.working = .ok (a, d) → Q a { s with working := d })
    (herr : ∀ s e, P s → q s.settings s.working = .error e → E s) :
    Spec P (Transaction.query q) Q E := by
  intro s hs
  cases hr : q s.settings s.working with
  | ok x =>
    simp only [Transaction.query, hr]
    exact hok s x.1 x.2 hs hr
  | error e =>
    simp only [Transaction.query, hr]
    exact herr s e hs hr

theorem set {g : S → S} {Q : Unit → Session D S → Prop}
    (h : ∀ s, P s → Q () { s with settings := g s.settings }) :
    Spec P (Transaction.set g : Transaction D S ε Unit) Q E := fun s hs => h s hs

theorem commit {initial : S} {Q : Unit → Session D S → Prop}
    (h : ∀ s, P s → Q () { s with committed := s.working, settings := initial }) :
    Spec P (Transaction.commit initial : Transaction D S ε Unit) Q E := fun s hs => h s hs

theorem bind (hm : Spec P m Q E) (hf : ∀ a, Spec (Q a) (f a) R E) : Spec P (m >>= f) R E := by
  intro s hs
  have h := hm s hs
  rw [Transaction.bind_apply]
  cases hr : m s with
  | mk r s' =>
    rw [hr] at h
    cases r with
    | ok a => exact hf a s' h
    | error e => exact h

/-- A statement that always returns `a` and changes nothing. -/
theorem bind_of_returns {a : α} (hm : ∀ s, P s → m s = (.ok a, s)) (hf : Spec P (f a) R E) :
    Spec P (m >>= f) R E := by
  intro s hs
  rw [bind_ok (hm s hs)]
  exact hf s hs

theorem of_imp (h : Spec P m Q E) (hp : ∀ s, P' s → P s) : Spec P' m Q E :=
  fun s hs => h s (hp s hs)

/-- What is known besides the state can be used at once. -/
theorem of_and {φ : Prop} (h : φ → Spec P m Q E) : Spec (fun s => P s ∧ φ) m Q E :=
  fun s hs => h hs.2 s hs.1

theorem mono (h : Spec P m Q E) (hp : ∀ s, P' s → P s) (hq : ∀ a s, Q a s → Q' a s)
    (he : ∀ s, E s → E' s) : Spec P' m Q' E' := by
  intro s hs
  have h := h s (hp s hs)
  cases hr : m s with
  | mk r s' =>
    rw [hr] at h
    cases r with
    | ok a => exact hq a s' h
    | error e => exact he s' h

/-- A program that is certain to raise guarantees anything of its return. -/
theorem of_raises (h : Spec P m (fun _ _ => False) E) : Spec P m Q E :=
  h.mono (fun _ hs => hs) (fun _ _ hq => hq.elim) fun _ hs => hs

/-- A program that is certain to raise and has committed nothing by then leaves the database as it
was. -/
theorem result_eq {d : D} (h : Spec P m (fun _ _ => False) fun s => s.committed = d)
    {s : Session D S} (hs : P s) : (∃ e, (m s).1 = .error e) ∧ m.result s = d := by
  have h := h s hs
  unfold Transaction.result
  cases hr : m s with
  | mk r s' =>
    rw [hr] at h
    cases r with
    | ok a => exact h.elim
    | error e => exact ⟨⟨e, rfl⟩, h⟩

end Spec

/-! ### Invariants -/

/-- The program keeps the invariant, whether it returns or raises. -/
structure Preserves (I : Session D S → Prop) (m : Transaction D S ε α) : Prop where
  spec : Spec I m (fun _ => I) I

namespace Preserves

variable {I : Session D S → Prop} {m : Transaction D S ε α} {f : α → Transaction D S ε β}

/-- The invariant holds of the connection in the end, however the program ends. -/
theorem apply (h : Preserves I m) {s : Session D S} (hs : I s) : I (m s).2 := by
  have h := h.spec s hs
  cases hr : m s with
  | mk r s' =>
    rw [hr] at h
    cases r <;> exact h

theorem pure (a : α) : Preserves I (Pure.pure a : Transaction D S ε α) :=
  ⟨Spec.pure fun _ hs => hs⟩

theorem throw (e : ε) : Preserves I (MonadExcept.throw e : Transaction D S ε α) :=
  ⟨Spec.throw fun _ hs => hs⟩

theorem query {q : S → D → Except ε (α × D)}
    (h : ∀ s a d, I s → q s.settings s.working = .ok (a, d) → I { s with working := d }) :
    Preserves I (Transaction.query q) :=
  ⟨Spec.query h fun _ _ hs _ => hs⟩

theorem set {g : S → S} (h : ∀ s, I s → I { s with settings := g s.settings }) :
    Preserves I (Transaction.set g : Transaction D S ε Unit) := ⟨Spec.set h⟩

theorem commit {initial : S}
    (h : ∀ s, I s → I { s with committed := s.working, settings := initial }) :
    Preserves I (Transaction.commit initial : Transaction D S ε Unit) := ⟨Spec.commit h⟩

theorem bind (hm : Preserves I m) (hf : ∀ a, Preserves I (f a)) : Preserves I (m >>= f) :=
  ⟨hm.spec.bind fun a => (hf a).spec⟩

theorem tryCatch {handler : ε → Transaction D S ε α} (hm : Preserves I m)
    (hh : ∀ e, Preserves I (handler e)) : Preserves I (MonadExcept.tryCatch m handler) := by
  refine ⟨fun s hs => ?_⟩
  have h := hm.spec s hs
  change match (match m s with
    | (.ok a, s') => (.ok a, s')
    | (.error e, s') => handler e s' : Except ε α × Session D S) with
    | (.ok _, s') => I s'
    | (.error _, s') => I s'
  cases hr : m s with
  | mk r s' =>
    rw [hr] at h
    cases r with
    | ok a => exact h
    | error e => exact (hh e).spec s' h

theorem forM (l : List β) {f : β → Transaction D S ε PUnit} (hf : ∀ b, Preserves I (f b)) :
    Preserves I (l.forM f) := by
  induction l with
  | nil => exact pure _
  | cons b l ih => exact (hf b).bind fun _ => ih

end Preserves

end Transaction
