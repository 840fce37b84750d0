import NextBallUp.Links.Requests

/-!
# What the requests for links own

What each request can commit, which rows it owns at each of its program points, and what it knows
of them.

## Main definitions

* `Commits`: everything that a request can commit, and from which program point
* `Proc.Holds`: what a request owns at its program point
* `State.Sound`: every request owns what its program point says

## Main results

* `commits_of_step`: a turn that ends a transaction commits one of them
* `Proc.step_sound`: a turn locks and writes only what no other session has locked, and establishes
  what holds at the next program point
-/

namespace NextBallUp.Links

variable {S : Settings} {pid j : Pid} {a : Answer} {p p' : Proc} {w w' : World} {tx : Tx}
  {f : Effect} {family : Family} {user : UserId}

/-- What a turn makes of a state. -/
def State.after (c : State) (i : Pid) (p : Proc) (f : Effect) : State :=
  ⟨Function.update c.procs i p, c.world.apply i f⟩

section After

variable (c : State) (i : Pid) (p : Proc) (f : Effect)

@[simp] theorem State.procs_after : (c.after i p f).procs i = p := Function.update_self ..

theorem State.procs_after_of_ne {j : Pid} (h : j ≠ i) : (c.after i p f).procs j = c.procs j :=
  Function.update_of_ne h ..

@[simp] theorem State.world_after : (c.after i p f).world = c.world.apply i f := rfl

end After

theorem next_eq_some {c c' : State} {i : Pid} {a : Answer} :
    (system S).next c i a = some c' ↔
      ∃ p f, (c.procs i).step S i a c.world = some (p, f) ∧ c' = c.after i p f :=
  Machine.next_ofEffects_eq_some

@[simp] theorem only_self {α : Type} (l : List α) : only family l family = l := if_pos rfl

theorem mem_only {α : Type} {family' : Family} {l : List α} {x : α} :
    x ∈ only family l family' ↔ family' = family ∧ x ∈ l := by
  rw [only]
  split
  · next h => simp [h]
  · next h => simp [h]

/-! ### What a request commits -/

/-- A request that issues a token: its family, its user, and where it stands. -/
def Proc.issuing : Proc → Option (Family × UserId × Issue.Pc)
  | .requestPasswordReset user (.issue pc) => some (.passwordReset, user, pc)
  | .requestEmailVerification user (.issue pc) => some (.emailVerification, user, pc)
  | _ => none

/-- Request `p` can commit `tx`. -/
inductive Commits (S : Settings) (pid : Pid) (w : World) : Proc → Tx → Prop
  | rollback {p : Proc} : Commits S pid w p {}
  | issued {p : Proc} {family : Family} {user : UserId} {now : Time} {retired : List TokenId} :
    p.issuing = some (family, user, .retire now (.finished retired)) →
    Commits S pid w p (Issue.issued S family user w now retired)
  | undelivered {p : Proc} {family : Family} {user : UserId} {token : TokenId} :
    p.issuing = some (family, user, .retireUndelivered token) →
    (w.tokens family).Free pid token → Commits S pid w p (Issue.undelivered family w token)
  | resetSpent {token : TokenId} {user : UserId} {record : Option User} :
    (w.tokens .passwordReset).Free pid token →
    Commits S pid w (.resetPassword token (.lockToken user record)) (spent .passwordReset w token)
  | reset {token : TokenId} {user : UserId} {others : List TokenId} :
    Commits S pid w (.resetPassword token (.retireOthers user (.finished others)))
      (ResetPassword.redeemed w token others)
  | confirmSpent {token : TokenId} {user : UserId} :
    Commits S pid w (.confirmEmailVerification token (.readUser user))
      (spent .emailVerification w token)
  | confirm {token : TokenId} {user : UserId} :
    w.users.Free pid user →
    Commits S pid w (.confirmEmailVerification token (.flushUser user))
      (ConfirmEmailVerification.redeemed w token user)

/-- A request that owns nothing: it has ended, or its token is committed and not yet delivered. -/
def Proc.IsIdle (p : Proc) : Prop :=
  p = .done ∨ ∃ family user token, p.issuing = some (family, user, .deliver token)

theorem retireTokens_eq_some {keys : List TokenId} {here : Bulk TokenId → Proc}
    {after : List TokenId → Turn} {b : Bulk TokenId}
    (h : retireTokens w pid a family user keys here after b = some (p', f)) :
    (∃ tokens, b = .finished tokens ∧ after tokens = some (p', f)) ∨
      ∃ b' tokens, b.step (w.tokens family) pid (LinkToken.IsUnused user) keys a.keys =
        some (b', tokens) ∧ p' = here b' ∧ f = .lock { tokens := only family tokens } := by
  cases b with
  | finished tokens => exact .inl ⟨tokens, rfl, h⟩
  | select | next =>
    simp only [retireTokens, Option.map_eq_some_iff] at h
    obtain ⟨⟨b', tokens⟩, hb, he⟩ := h
    cases he
    exact .inr ⟨b', tokens, hb, rfl, rfl⟩

theorem Issue.commits {here : Issue.Pc → Proc} {pc : Issue.Pc}
    (h : Issue.step S pid family user here w a pc = some (p', .commit tx))
    (hhere : ∀ pc, (here pc).issuing = some (family, user, pc)) :
    Commits S pid w (here pc) tx ∧ p'.IsIdle := by
  cases pc with
  | retire now b =>
    rw [Issue.step] at h
    obtain ⟨retired, rfl, ha⟩ | ⟨_, _, -, -, he⟩ := retireTokens_eq_some h
    · cases ha
      exact ⟨.issued (hhere _), .inr ⟨_, _, _, hhere _⟩⟩
    · cases he
  | deliver token =>
    simp only [Issue.step] at h
    split at h <;> cases h
    exact ⟨.rollback, .inl rfl⟩
  | retireUndelivered token =>
    simp only [Issue.step] at h
    split at h
    · cases h
      exact ⟨.rollback, .inl rfl⟩
    · simp only [Table.locate_eq_some] at h
      obtain ⟨o, ho, he⟩ := h
      cases ho with
      | miss => cases he; exact ⟨.rollback, .inl rfl⟩
      | hit _ _ hf => cases he; exact ⟨.undelivered (hhere _) hf, .inl rfl⟩

theorem RequestPasswordReset.commits {pc : RequestPasswordReset.Pc}
    (h : RequestPasswordReset.step S pid user w a pc = some (p', .commit tx)) :
    Commits S pid w (.requestPasswordReset user pc) tx ∧ p'.IsIdle := by
  cases pc with
  | readUser =>
    simp only [RequestPasswordReset.step] at h
    split at h <;> cases h
    exact ⟨.rollback, .inl rfl⟩
  | lockUser =>
    simp only [RequestPasswordReset.step, Table.locate_eq_some] at h
    obtain ⟨o, -, he⟩ := h
    cases o with
    | none => cases he; exact ⟨.rollback, .inl rfl⟩
    | some => cases he
  | issue pc =>
    rw [RequestPasswordReset.step] at h
    exact Issue.commits h fun _ => rfl

theorem RequestEmailVerification.commits {pc : RequestEmailVerification.Pc}
    (h : RequestEmailVerification.step S pid user w a pc = some (p', .commit tx)) :
    Commits S pid w (.requestEmailVerification user pc) tx ∧ p'.IsIdle := by
  cases pc with
  | authenticate =>
    simp only [RequestEmailVerification.step] at h
    split at h <;> cases h
    exact ⟨.rollback, .inl rfl⟩
  | issue pc =>
    rw [RequestEmailVerification.step] at h
    exact Issue.commits h fun _ => rfl

theorem ResetPassword.commits {token : TokenId} {pc : ResetPassword.Pc}
    (h : ResetPassword.step pid token w a pc = some (p', .commit tx)) :
    Commits S pid w (.resetPassword token pc) tx ∧ p'.IsIdle := by
  cases pc with
  | readToken =>
    simp only [ResetPassword.step] at h
    split at h <;> cases h
    exact ⟨.rollback, .inl rfl⟩
  | lockUser user =>
    simp only [ResetPassword.step, Table.locate_eq_some] at h
    obtain ⟨o, -, he⟩ := h
    cases o <;> cases he
  | lockToken user record =>
    simp only [ResetPassword.step, Table.locate_eq_some] at h
    obtain ⟨o, ho, he⟩ := h
    cases ho with
    | miss => cases he; exact ⟨.rollback, .inl rfl⟩
    | hit _ _ hf =>
      dsimp only at he
      split at he
      · cases he; exact ⟨.rollback, .inl rfl⟩
      · split at he
        · cases he; exact ⟨.rollback, .inl rfl⟩
        · split at he <;> cases he
          exact ⟨.resetSpent hf, .inl rfl⟩
  | retireOthers user b =>
    rw [ResetPassword.step] at h
    obtain ⟨others, rfl, ha⟩ | ⟨_, _, -, -, he⟩ := retireTokens_eq_some h
    · cases ha
      exact ⟨.reset, .inl rfl⟩
    · cases he

theorem ConfirmEmailVerification.commits {token : TokenId} {pc : ConfirmEmailVerification.Pc}
    (h : ConfirmEmailVerification.step pid token w pc = some (p', .commit tx)) :
    Commits S pid w (.confirmEmailVerification token pc) tx ∧ p'.IsIdle := by
  cases pc with
  | lockToken =>
    simp only [ConfirmEmailVerification.step, Table.locate_eq_some] at h
    obtain ⟨o, -, he⟩ := h
    cases o with
    | none => cases he; exact ⟨.rollback, .inl rfl⟩
    | some r =>
      dsimp only at he
      split at he
      · cases he; exact ⟨.rollback, .inl rfl⟩
      · split at he <;> cases he
        exact ⟨.rollback, .inl rfl⟩
  | readUser user =>
    simp only [ConfirmEmailVerification.step] at h
    split at h
    · cases h; exact ⟨.rollback, .inl rfl⟩
    · split at h <;> cases h
      exact ⟨.confirmSpent, .inl rfl⟩
  | flushUser user =>
    simp only [ConfirmEmailVerification.step, Table.locate_eq_some] at h
    obtain ⟨o, ho, he⟩ := h
    cases ho with
    | miss => cases he; exact ⟨.rollback, .inl rfl⟩
    | hit _ _ hf => cases he; exact ⟨.confirm hf, .inl rfl⟩

theorem step_error (h : p.step S pid .error w = some (p', f)) : p' = .done ∧ f = .commit {} := by
  cases p <;> cases h <;> exact ⟨rfl, rfl⟩

theorem step_of_ne_error (h : a ≠ .error) : p.step S pid a w = p.turn S pid a w := by
  cases a <;> first | rfl | exact (h rfl).elim

/-- **What a request commits.** -/
theorem commits_of_step (h : p.step S pid a w = some (p', .commit tx)) :
    Commits S pid w p tx ∧ p'.IsIdle := by
  by_cases ha : a = .error
  · subst ha
    obtain ⟨rfl, he⟩ := step_error h
    cases he
    exact ⟨.rollback, .inl rfl⟩
  rw [step_of_ne_error ha] at h
  cases p with
  | requestPasswordReset => exact RequestPasswordReset.commits h
  | requestEmailVerification => exact RequestEmailVerification.commits h
  | resetPassword => exact ResetPassword.commits h
  | confirmEmailVerification => exact ConfirmEmailVerification.commits h
  | clock => cases a <;> cases h
  | done => cases h

/-! ### Permitted effects -/

/-- The effect locks and writes only what no other session has locked. -/
def Effect.Permitted (pid : Pid) (w : World) : Effect → Prop
  | .lock locks =>
    (∀ k ∈ locks.users, w.users.Free pid k) ∧
      ∀ family, ∀ k ∈ locks.tokens family, (w.tokens family).Free pid k
  | .commit tx =>
    (∀ e ∈ tx.users, w.users.Free pid e.1 ∨ w.users.row e.1 = none) ∧
      ∀ family, ∀ e ∈ tx.tokens family,
        (w.tokens family).Free pid e.1 ∨ (w.tokens family).row e.1 = none
  | _ => True

/-- What session `pid` has done leaves every row alone that another session owns. -/
structure RespectsRows (pid : Pid) (w w' : World) : Prop where
  users : w.users.RespectsRows pid w'.users
  tokens : ∀ family, (w.tokens family).RespectsRows pid (w'.tokens family)

/-- **Permitted effects leave the rows of the other sessions alone.** -/
theorem apply_respects (h : f.Permitted pid w) : RespectsRows pid w (w.apply pid f) := by
  cases f with
  | skip | tick =>
    exact ⟨(Table.Respects.refl _ _).rows, fun _ => (Table.Respects.refl _ _).rows⟩
  | lock locks =>
    obtain ⟨hu, ht⟩ := h
    exact ⟨(Table.respects_acquireAll hu).rows,
      fun family => (Table.respects_acquireAll (ht family)).rows⟩
  | commit tx =>
    obtain ⟨hu, ht⟩ := h
    exact ⟨(Table.respectsRows_alterAll hu).trans (Table.respects_release _ _).rows, fun family =>
      (Table.respectsRows_alterAll (ht family)).trans (Table.respects_release _ _).rows⟩

/-! ### What a request owns -/

/-- A request for a password reset has locked its user. -/
def RequestPasswordReset.Holds (pid : Pid) (user : UserId) (w : World) :
    RequestPasswordReset.Pc → Prop
  | .issue (.retire _ b) =>
    w.users.OwnsAll pid [user] ∧ (w.tokens .passwordReset).OwnsAll pid b.locked
  | _ => True

def RequestEmailVerification.Holds (pid : Pid) (w : World) : RequestEmailVerification.Pc → Prop
  | .issue (.retire _ b) => (w.tokens .emailVerification).OwnsAll pid b.locked
  | _ => True

/-- The session owns the token, which has not been used. -/
def OwnsUnused (w : World) (family : Family) (pid : Pid) (token : TokenId) : Prop :=
  ∃ r, (w.tokens family).Owns pid token (some r) ∧ r.usedAt = none

def ResetPassword.Holds (pid : Pid) (token : TokenId) (w : World) : ResetPassword.Pc → Prop
  | .retireOthers _ b =>
    OwnsUnused w .passwordReset pid token ∧ (w.tokens .passwordReset).OwnsAll pid b.locked
  | _ => True

def ConfirmEmailVerification.Holds (pid : Pid) (token : TokenId) (w : World) :
    ConfirmEmailVerification.Pc → Prop
  | .lockToken => True
  | .readUser _ | .flushUser _ => OwnsUnused w .emailVerification pid token

/-- What a request owns at its program point. -/
def Proc.Holds (pid : Pid) (w : World) : Proc → Prop
  | .requestPasswordReset user pc => RequestPasswordReset.Holds pid user w pc
  | .requestEmailVerification _ pc => RequestEmailVerification.Holds pid w pc
  | .resetPassword token pc => ResetPassword.Holds pid token w pc
  | .confirmEmailVerification token pc => ConfirmEmailVerification.Holds pid token w pc
  | .clock | .done => True

theorem OwnsUnused.of_respects {token : TokenId} (hr : RespectsRows j w w') (hne : pid ≠ j)
    (h : OwnsUnused w family pid token) : OwnsUnused w' family pid token :=
  have ⟨r, ho, hu⟩ := h
  ⟨r, hr.tokens family pid hne token r ho, hu⟩

/-- What another session does leaves this alone. -/
theorem Proc.Holds.of_respects (hr : RespectsRows j w w') (hne : pid ≠ j) (h : p.Holds pid w) :
    p.Holds pid w' := by
  cases p with
  | requestPasswordReset user pc =>
    rcases pc with _ | _ | ⟨_ | _ | _⟩
    case issue.retire => exact ⟨hr.users.ownsAll hne h.1, (hr.tokens _).ownsAll hne h.2⟩
    all_goals trivial
  | requestEmailVerification user pc =>
    rcases pc with _ | ⟨_ | _ | _⟩
    case issue.retire => exact (hr.tokens _).ownsAll hne h
    all_goals trivial
  | resetPassword token pc =>
    cases pc with
    | retireOthers => exact ⟨h.1.of_respects hr hne, (hr.tokens _).ownsAll hne h.2⟩
    | _ => trivial
  | confirmEmailVerification token pc =>
    cases pc with
    | lockToken => trivial
    | readUser | flushUser => exact OwnsUnused.of_respects hr hne h
  | clock | done => trivial

theorem Proc.IsIdle.holds (h : p.IsIdle) : p.Holds pid w := by
  rcases h with rfl | ⟨family, user, token, h⟩
  · trivial
  · cases p with
    | requestPasswordReset user' pc => cases pc <;> cases h; trivial
    | requestEmailVerification user' pc => cases pc <;> cases h; trivial
    | _ => cases h

/-! ### Turns are sound -/

/-- The tokens in use have been drawn. -/
def World.Drawn (w : World) : Prop :=
  ∀ family token, (w.tokens family).row token ≠ none → token < w.uuid

theorem World.Drawn.row_uuid (h : w.Drawn) (family : Family) :
    (w.tokens family).row w.uuid = none := by
  by_contra hn
  exact Nat.lt_irrefl _ (h family w.uuid hn)

theorem free_usages {t : Table TokenId LinkToken Pid} {now : Time} {tokens : List TokenId}
    (h : ∀ k ∈ tokens, t.Free pid k) {e : Alteration TokenId LinkToken}
    (he : e ∈ usages now tokens) : t.Free pid e.1 ∨ t.row e.1 = none := by
  obtain ⟨k, hk, rfl⟩ := List.mem_map.mp he
  exact .inl (h k hk)

theorem OwnsUnused.free {token : TokenId} (h : OwnsUnused w family pid token) :
    (w.tokens family).Free pid token :=
  have ⟨_, ho, _⟩ := h
  ho.free

theorem Commits.permitted (hd : w.Drawn) (hp : p.Holds pid w) (h : Commits S pid w p tx) :
    (Effect.commit tx).Permitted pid w := by
  cases h with
  | rollback =>
    exact ⟨fun e he => (List.not_mem_nil he).elim, fun _ e he => (List.not_mem_nil he).elim⟩
  | @issued _ family user now retired hi =>
    have hown : (w.tokens family).OwnsAll pid retired := by
      cases p with
      | requestPasswordReset user' pc => cases pc <;> cases hi; exact hp.2
      | requestEmailVerification user' pc => cases pc <;> cases hi; exact hp
      | _ => cases hi
    refine ⟨fun e he => (List.not_mem_nil he).elim, fun family' e he => ?_⟩
    obtain ⟨rfl, he⟩ := mem_only.mp he
    rcases List.mem_append.mp he with he | he
    · exact free_usages (fun k hk => hown.free hk) he
    · obtain rfl := List.mem_singleton.mp he
      exact .inr (hd.row_uuid family')
  | undelivered _ hf | resetSpent hf =>
    refine ⟨fun e he => (List.not_mem_nil he).elim, fun family' e he => ?_⟩
    change e ∈ only _ (usages w.now [_]) family' at he
    rw [mem_only] at he
    obtain ⟨rfl, he⟩ := he
    exact free_usages (fun k hk => List.mem_singleton.mp hk ▸ hf) he
  | confirmSpent =>
    refine ⟨fun e he => (List.not_mem_nil he).elim, fun family' e he => ?_⟩
    obtain ⟨rfl, he⟩ := mem_only.mp he
    exact free_usages (fun k hk => List.mem_singleton.mp hk ▸ OwnsUnused.free hp) he
  | reset =>
    refine ⟨fun e he => (List.not_mem_nil he).elim, fun family' e he => ?_⟩
    obtain ⟨rfl, he⟩ := mem_only.mp he
    refine free_usages (fun k hk => ?_) he
    rcases List.mem_cons.mp hk with rfl | hk
    · exact hp.1.free
    · exact hp.2.free hk
  | confirm hf =>
    refine ⟨fun e he => ?_, fun family' e he => ?_⟩
    · obtain rfl := List.mem_singleton.mp he
      exact .inl hf
    · obtain ⟨rfl, he⟩ := mem_only.mp he
      exact free_usages (fun k hk => List.mem_singleton.mp hk ▸ OwnsUnused.free hp) he

/-- A turn of the update over the tokens of a user locks free rows. -/
theorem retire_sound {keys snapshot ks : List TokenId} {b b' : Bulk TokenId}
    (h : b.step (w.tokens family) pid (LinkToken.IsUnused user) keys snapshot = some (b', ks)) :
    (Effect.lock { tokens := only family ks }).Permitted pid w := by
  refine ⟨fun k hk => (List.not_mem_nil hk).elim, fun family' k hk => ?_⟩
  change k ∈ only family ks family' at hk
  rw [mem_only] at hk
  obtain ⟨rfl, hk⟩ := hk
  exact ((Bulk.step_locked h).2 k hk).1

/-- The effect does not end a transaction. -/
def Effect.IsOpen : Effect → Prop
  | .commit _ => False
  | _ => True

/-- What an issue does before its end. -/
theorem Issue.open_cases {here : Issue.Pc → Proc} {pc : Issue.Pc}
    (h : Issue.step S pid family user here w a pc = some (p', f)) (hf : f.IsOpen) :
    (∃ now b b' ks, pc = .retire now b ∧ p' = here (.retire now b') ∧
      b.step (w.tokens family) pid (LinkToken.IsUnused user) (List.range w.uuid) a.keys =
        some (b', ks) ∧ f = .lock { tokens := only family ks }) ∨
      ∃ token, p' = here (.retireUndelivered token) ∧ f = .skip := by
  cases pc with
  | retire now b =>
    rw [Issue.step] at h
    obtain ⟨retired, rfl, ha⟩ | ⟨b', ks, hb, rfl, rfl⟩ := retireTokens_eq_some h
    · cases ha
      exact hf.elim
    · exact .inl ⟨now, b, b', ks, rfl, rfl, hb, rfl⟩
  | deliver token =>
    simp only [Issue.step] at h
    split at h <;> cases h
    · exact .inr ⟨token, rfl, rfl⟩
    · exact hf.elim
  | retireUndelivered token =>
    simp only [Issue.step] at h
    split at h
    · cases h
      exact hf.elim
    · simp only [Table.locate_eq_some] at h
      obtain ⟨o, -, he⟩ := h
      cases o <;> cases he <;> exact hf.elim

theorem RequestPasswordReset.sound {pc : RequestPasswordReset.Pc}
    (hp : RequestPasswordReset.Holds pid user w pc) (hf : f.IsOpen)
    (h : RequestPasswordReset.step S pid user w a pc = some (p', f)) :
    f.Permitted pid w ∧ p'.Holds pid (w.apply pid f) := by
  cases pc with
  | readUser =>
    simp only [RequestPasswordReset.step] at h
    split at h <;> cases h
    · exact ⟨trivial, trivial⟩
    · exact hf.elim
  | lockUser =>
    simp only [RequestPasswordReset.step, Table.locate_eq_some] at h
    obtain ⟨o, ho, he⟩ := h
    cases ho with
    | miss => cases he; exact hf.elim
    | @hit r hr _ hfree =>
      cases he
      refine ⟨⟨fun k hk => List.mem_singleton.mp hk ▸ hfree,
        fun _ k hk => (List.not_mem_nil hk).elim⟩, fun k hk => ?_, Table.ownsAll_nil⟩
      obtain rfl := List.mem_singleton.mp hk
      exact ⟨r, hr ▸ Table.owns_acquireAll hk⟩
  | issue pc =>
    rw [RequestPasswordReset.step] at h
    rcases Issue.open_cases h hf with ⟨now, b, b', ks, rfl, rfl, hb, rfl⟩ | ⟨token, rfl, rfl⟩
    · refine ⟨retire_sound hb, fun k hk => ?_, ?_⟩
      · obtain ⟨r, hr⟩ := hp.1 k hk
        exact ⟨r, hr.acquireAll⟩
      · change ((w.tokens .passwordReset).acquireAll pid
          (only .passwordReset ks .passwordReset)).OwnsAll
          pid b'.locked
        rw [only_self]
        exact Bulk.ownsAll_step hb hp.2
    · exact ⟨trivial, trivial⟩

theorem RequestEmailVerification.sound {pc : RequestEmailVerification.Pc}
    (hp : RequestEmailVerification.Holds pid w pc) (hf : f.IsOpen)
    (h : RequestEmailVerification.step S pid user w a pc = some (p', f)) :
    f.Permitted pid w ∧ p'.Holds pid (w.apply pid f) := by
  cases pc with
  | authenticate =>
    simp only [RequestEmailVerification.step] at h
    split at h <;> cases h
    · exact ⟨trivial, Table.ownsAll_nil⟩
    · exact hf.elim
  | issue pc =>
    rw [RequestEmailVerification.step] at h
    rcases Issue.open_cases h hf with ⟨now, b, b', ks, rfl, rfl, hb, rfl⟩ | ⟨token, rfl, rfl⟩
    · refine ⟨retire_sound hb, ?_⟩
      change ((w.tokens .emailVerification).acquireAll pid
        (only .emailVerification ks .emailVerification)).OwnsAll pid b'.locked
      rw [only_self]
      exact Bulk.ownsAll_step hb hp
    · exact ⟨trivial, trivial⟩

/-- What a lock statement on one unused token establishes. -/
theorem ownsUnused_lock {token : TokenId} {r : LinkToken}
    (hr : (w.tokens family).row token = some r) (hu : r.usedAt = none) :
    OwnsUnused (w.apply pid (.lock { tokens := only family [token] })) family pid token := by
  refine ⟨r, ?_, hu⟩
  change ((w.tokens family).acquireAll pid (only family [token] family)).Owns pid token (some r)
  rw [only_self, ← hr]
  exact Table.owns_acquireAll (List.mem_singleton_self _)

theorem permitted_lock_token {token : TokenId} (hf : (w.tokens family).Free pid token) :
    (Effect.lock { tokens := only family [token] }).Permitted pid w := by
  refine ⟨fun k hk => (List.not_mem_nil hk).elim, fun family' k hk => ?_⟩
  change k ∈ only family [token] family' at hk
  rw [mem_only] at hk
  obtain ⟨rfl, hk⟩ := hk
  exact List.mem_singleton.mp hk ▸ hf

theorem ResetPassword.sound {token : TokenId} {pc : ResetPassword.Pc}
    (hp : ResetPassword.Holds pid token w pc) (hf : f.IsOpen)
    (h : ResetPassword.step pid token w a pc = some (p', f)) :
    f.Permitted pid w ∧ p'.Holds pid (w.apply pid f) := by
  cases pc with
  | readToken =>
    simp only [ResetPassword.step] at h
    split at h <;> cases h
    · exact hf.elim
    · exact ⟨trivial, trivial⟩
  | lockUser user =>
    simp only [ResetPassword.step, Table.locate_eq_some] at h
    obtain ⟨o, ho, he⟩ := h
    cases ho with
    | miss => cases he; exact ⟨trivial, trivial⟩
    | hit _ _ hfree =>
      cases he
      exact ⟨⟨fun k hk => List.mem_singleton.mp hk ▸ hfree,
        fun _ k hk => (List.not_mem_nil hk).elim⟩, trivial⟩
  | lockToken user record =>
    simp only [ResetPassword.step, Table.locate_eq_some] at h
    obtain ⟨o, ho, he⟩ := h
    cases ho with
    | miss => cases he; exact hf.elim
    | hit hr _ hfree =>
      dsimp only at he
      split at he
      · cases he; exact hf.elim
      · next hu =>
        split at he
        · cases he; exact hf.elim
        · split at he <;> cases he
          · exact ⟨permitted_lock_token hfree, ownsUnused_lock hr (not_not.mp hu),
              Table.ownsAll_nil⟩
          · exact hf.elim
  | retireOthers user b =>
    rw [ResetPassword.step] at h
    obtain ⟨others, rfl, ha⟩ | ⟨b', ks, hb, rfl, rfl⟩ := retireTokens_eq_some h
    · cases ha
      exact hf.elim
    · obtain ⟨⟨r, ho, hu⟩, hall⟩ := hp
      refine ⟨retire_sound hb, ⟨r, ho.acquireAll, hu⟩, ?_⟩
      change ((w.tokens .passwordReset).acquireAll pid
        (only .passwordReset ks .passwordReset)).OwnsAll
        pid b'.locked
      rw [only_self]
      exact Bulk.ownsAll_step hb hall

theorem ConfirmEmailVerification.sound {token : TokenId} {pc : ConfirmEmailVerification.Pc}
    (hp : ConfirmEmailVerification.Holds pid token w pc) (hf : f.IsOpen)
    (h : ConfirmEmailVerification.step pid token w pc = some (p', f)) :
    f.Permitted pid w ∧ p'.Holds pid (w.apply pid f) := by
  cases pc with
  | lockToken =>
    simp only [ConfirmEmailVerification.step, Table.locate_eq_some] at h
    obtain ⟨o, ho, he⟩ := h
    cases ho with
    | miss => cases he; exact hf.elim
    | hit hr _ hfree =>
      dsimp only at he
      split at he
      · cases he; exact hf.elim
      · next hu =>
        split at he <;> cases he
        · exact hf.elim
        · exact ⟨permitted_lock_token hfree, ownsUnused_lock hr (not_not.mp hu)⟩
  | readUser user =>
    simp only [ConfirmEmailVerification.step] at h
    split at h
    · cases h; exact hf.elim
    · split at h <;> cases h
      · exact hf.elim
      · exact ⟨trivial, hp⟩
  | flushUser user =>
    simp only [ConfirmEmailVerification.step, Table.locate_eq_some] at h
    obtain ⟨o, -, he⟩ := h
    cases o <;> cases he <;> exact hf.elim

/-- **Turns are sound.** -/
theorem Proc.step_sound (hd : w.Drawn) (hp : p.Holds pid w)
    (h : p.step S pid a w = some (p', f)) :
    f.Permitted pid w ∧ p'.Holds pid (w.apply pid f) := by
  by_cases hf : f.IsOpen
  · have ha : a ≠ .error := by
      rintro rfl
      rw [(step_error h).2] at hf
      exact hf
    rw [step_of_ne_error ha] at h
    cases p with
    | requestPasswordReset => exact RequestPasswordReset.sound hp hf h
    | requestEmailVerification => exact RequestEmailVerification.sound hp hf h
    | resetPassword => exact ResetPassword.sound hp hf h
    | confirmEmailVerification => exact ConfirmEmailVerification.sound hp hf h
    | clock => cases a <;> cases h; exact ⟨trivial, trivial⟩
    | done => cases h
  · cases f with
    | commit tx =>
      obtain ⟨hc, hi⟩ := commits_of_step h
      exact ⟨hc.permitted hd hp, hi.holds⟩
    | skip | lock | tick => exact (hf trivial).elim

end NextBallUp.Links
