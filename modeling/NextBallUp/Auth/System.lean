import NextBallUp.Lib.Interleaving
import NextBallUp.Auth.Requests

/-!
# The sessions of one user

Any number of requests for one user, taking turns on one world.

## Main definitions

* `system`: the machine
* `World.IsInitial`, `Deployed`: the configurations in which a run begins
* `Commits`: everything that a request can commit, and from which program point

## Main results

* `commits_of_step`: a turn that ends a transaction commits one of them
* `Commits.session_cases`, `Commits.code_cases`, `Commits.enrolment`: what a commit does to each
  table
* `World.Drawn.step`: every identifier in use has been drawn
-/

namespace NextBallUp.Auth

/-- The machine whose processes are the requests. -/
def system (S : Settings) : Machine Pid Answer Proc World :=
  .ofEffects (fun pid a p w => p.step S pid a w) World.apply

/-- A configuration of the system. -/
abbrev State := Conf Pid Proc World

variable {S : Settings}

/-- What a turn makes of a state. -/
def State.after (c : State) (i : Pid) (p : Proc) (f : Effect) : State :=
  ⟨Function.update c.procs i p, c.world.apply i f⟩

section After

variable (c : State) (i : Pid) (p : Proc) (f : Effect)

@[simp] theorem State.procs_after : (c.after i p f).procs i = p := Function.update_self ..

theorem State.procs_after_of_ne {j : Pid} (h : j ≠ i) : (c.after i p f).procs j = c.procs j :=
  Function.update_of_ne h ..

@[simp] theorem State.world_after : (c.after i p f).world = c.world.apply i f := rfl

end After

theorem next_eq_some {c c' : State} {i : Pid} {a : Answer} :
    (system S).next c i a = some c' ↔
      ∃ p f, (c.procs i).step S i a c.world = some (p, f) ∧ c' = c.after i p f :=
  Machine.next_ofEffects_eq_some

theorem history_subset_apply (w : World) (pid : Pid) (f : Effect) {e : Event}
    (he : e ∈ w.history) : e ∈ (w.apply pid f).history := by
  cases f with
  | skip | lock | tick => exact he
  | commit tx => exact List.mem_append_right _ he

/-! ### The beginning of a run -/

/-- A request that has not begun. -/
def Proc.IsFresh : Proc → Prop
  | .login _ .readUser | .refresh _ .readUser | .logout _ .authenticate
  | .resetPassword _ .lockUser | .deleteMyAccount _ .authenticate | .setupTotp _ .authenticate
  | .confirmTotp _ _ .authenticate | .disableTotp _ _ _ .authenticate | .playback _ .authenticate
  | .clock | .done => True
  | _ => False

/-- Any rows of a user between two requests. The history tells of the tokens issued before and the
sessions that are no longer live. -/
structure World.IsInitial (w : World) : Prop where
  user : w.user? ≠ none
  users : w.users.lock = fun _ => none
  refreshSessions : w.refreshSessions.lock = fun _ => none
  userTotpSecrets : w.userTotpSecrets.lock = fun _ => none
  mfaRecoveryCodes : w.mfaRecoveryCodes.lock = fun _ => none
  /-- No token is of a later session version than the user. -/
  issued : ∀ t, .issued t ∈ w.history →
    t.jti < w.uuid ∧ ∀ user, w.user? = some user → t.sv ≤ user.sessionVersion
  revoked : ∀ jti, .revoked jti ∈ w.history ↔
    ∃ s, w.refreshSessions.row jti = some s ∧ s.revokedAt ≠ none
  history : ∀ e ∈ w.history, (∃ t, e = .issued t) ∨ ∃ jti, e = .revoked jti
  jtis : ∀ jti, w.refreshSessions.row jti ≠ none → jti < w.uuid
  totp : ∀ r, w.totp? = some r → r.id < w.uuid ∧ r.secret < w.uuid
  codes : ∀ hash, w.mfaRecoveryCodes.row hash ≠ none → hash < w.uuid

/-- A run begins with any rows of the user and any requests that have not begun. -/
structure Deployed (c : State) : Prop where
  world : c.world.IsInitial
  fresh : ∀ i, (c.procs i).IsFresh

/-- What `/auth/register` leaves: an active user, a live session, and a token of each kind. -/
def World.registered (S : Settings) (role : UserRole) (password : Password) : World where
  users := .unlocked fun _ => some ⟨role, some password, true, 1⟩
  refreshSessions := .unlocked fun jti =>
    if jti = 0 then some ⟨S.refreshTokenExpireDays * 86400, none, none, none⟩ else none
  userTotpSecrets := .unlocked fun _ => none
  mfaRecoveryCodes := .unlocked fun _ => none
  history := [.issued ⟨.access, 1, 1, S.accessTokenExpireMinutes * 60⟩,
    .issued ⟨.refresh, 1, 0, S.refreshTokenExpireDays * 86400⟩]
  uuid := 2
  now := 0

theorem World.isInitial_registered (S : Settings) (role : UserRole) (password : Password) :
    (World.registered S role password).IsInitial where
  user := Option.some_ne_none _
  users := rfl
  refreshSessions := rfl
  userTotpSecrets := rfl
  mfaRecoveryCodes := rfl
  issued t ht := by
    simp only [registered, List.mem_cons, Event.issued.injEq, List.not_mem_nil, or_false] at ht
    rcases ht with rfl | rfl
    · exact ⟨Nat.one_lt_two, fun user hu => by cases hu; exact Nat.le_refl _⟩
    · exact ⟨Nat.two_pos, fun user hu => by cases hu; exact Nat.le_refl _⟩
  revoked jti := by
    simp only [registered, Table.unlocked, List.mem_cons, reduceCtorEq, List.not_mem_nil, or_false,
      false_iff, not_exists, not_and, Option.ite_none_right_eq_some, Option.some.injEq]
    rintro s ⟨-, rfl⟩
    simp
  history e he := by
    simp only [registered, List.mem_cons, List.not_mem_nil, or_false] at he
    rcases he with rfl | rfl <;> exact .inl ⟨_, rfl⟩
  jtis jti hj := by
    simp only [registered, Table.unlocked, ne_eq, ite_eq_right_iff, reduceCtorEq, imp_false,
      not_not] at hj
    exact hj ▸ Nat.two_pos
  totp r hr := by cases hr
  codes hash hh := (hh rfl).elim

/-- A registered user, and these requests. -/
def registered (S : Settings) (role : UserRole) (password : Password) (procs : List Proc) :
    State where
  procs i := procs.getD i .done
  world := .registered S role password

theorem fresh_registered {role : UserRole} {password : Password} {procs : List Proc}
    (h : ∀ p ∈ procs, p.IsFresh) (i : Pid) :
    ((registered S role password procs).procs i).IsFresh := by
  by_cases hi : i < procs.length
  · simpa [registered, hi] using h _ (List.getElem_mem hi)
  · simp [registered, hi, Proc.IsFresh]

theorem deployed_registered {role : UserRole} {password : Password} {procs : List Proc}
    (h : ∀ p ∈ procs, p.IsFresh) : Deployed (registered S role password procs) :=
  ⟨World.isInitial_registered .., fresh_registered h⟩

/-! ### Given schedules -/

/-- Keyed functions of no further interest. -/
def Settings.plain : Settings :=
  .default (fun secret counter => secret + 1000 * counter) List.length

/-- The access token of the registration. -/
def registrationToken : Token := ⟨.access, 1, 1, 900⟩

/-! ### What a request commits -/

variable {pid : Pid} {a : Answer} {p p' : Proc} {w : World} {tx : Tx} {f : Effect}

/-- Request `p` can commit `tx`. -/
inductive Commits (S : Settings) (pid : Pid) (w : World) : Proc → Tx → Prop
  | rollback {p : Proc} : Commits S pid w p {}
  | signIn {req : LoginRequest} {user : User} {factor : Option Factor} :
    Commits S pid w (.login req (.issueTokens user factor)) (Login.signIn S w user factor)
  | rotation {token : Token} {user : User} :
    Commits S pid w (.refresh token (.rotate user)) (Refresh.rotation S token w user)
  | expiry {token : Token} {user : User} {s : RefreshSession} :
    w.refreshSessions.row token.jti = some s → w.refreshSessions.Free pid token.jti →
    Commits S pid w (.refresh token (.lockSession user)) (Refresh.expiry token w)
  | replay {token : Token} {user : User} {sessions : List Jti} :
    w.users.Free pid () →
    Commits S pid w (.refresh token (.revokeSessions user (.finished sessions)))
      (revokeAndBump w user .replayDetected [.replayed token.jti] sessions)
  | logout {token : Token} {user : User} {sessions : List Jti} :
    w.users.Free pid () →
    Commits S pid w (.logout token (.revokeSessions user (.finished sessions)))
      (revokeAndBump w user .logout [] sessions)
  | reset {password : Password} {user : User} {sessions : List Jti} :
    Commits S pid w (.resetPassword password (.revokeSessions user (.finished sessions)))
      (ResetPassword.reset w password user sessions)
  | erase {token : Token} {user : User} {sessions : List Jti} {codes : List CodeHash}
      {enrolled : Bool} :
    (enrolled = true → w.userTotpSecrets.Free pid ()) →
    Commits S pid w (.deleteMyAccount token (.deleteCodes user sessions (.finished codes)))
      (DeleteMyAccount.erase w user sessions codes enrolled)
  | overwritten {token : Token} {existing r : UserTotpSecret} :
    w.totp? = some r → w.userTotpSecrets.Free pid () →
    Commits S pid w (.setupTotp token (.writeTotp (some existing)))
      (SetupTotp.overwritten w existing)
  | inserted {token : Token} :
    w.totp? = none →
    Commits S pid w (.setupTotp token (.writeTotp none)) (SetupTotp.inserted w)
  | confirmed {token : Token} {code : Code} {record : UserTotpSecret} {counter : ℕ}
      {confirmedAt : Time} {codes : List CodeHash} :
    Commits S pid w
      (.confirmTotp token code (.deleteCodes record counter confirmedAt (.finished codes)))
      (ConfirmTotp.confirmed S w record counter confirmedAt codes)
  | disabled {token : Token} {password : Password} {code : Code} {user : User}
      {record r : UserTotpSecret} {factor : Factor} :
    w.totp? = some r → record.IsRow r = true → w.userTotpSecrets.Free pid () →
    Commits S pid w (.disableTotp token password code (.flushTotp user record factor))
      (DisableTotp.disabled w user factor)
  | minted {token : Token} {user : User} :
    Commits S pid w (.playback token (.mint user)) (Playback.minted S w user)

theorem revokeRefreshSessions_eq_some {here : Bulk Jti → Proc} {after : List Jti → Turn}
    {b : Bulk Jti} (h : revokeRefreshSessions w pid a here after b = some (p', f)) :
    (∃ sessions, b = .finished sessions ∧ after sessions = some (p', f)) ∨
      ∃ b' jtis, b.step w.refreshSessions pid (fun s => s.revokedAt = none) (List.range w.uuid)
        a.keys = some (b', jtis) ∧ p' = here b' ∧ f = .lock { refreshSessions := jtis } := by
  cases b with
  | finished sessions => exact .inl ⟨sessions, rfl, h⟩
  | select | next =>
    simp only [revokeRefreshSessions, Option.map_eq_some_iff] at h
    obtain ⟨⟨b', jtis⟩, hb, he⟩ := h
    cases he
    exact .inr ⟨b', jtis, hb, rfl, rfl⟩

theorem deleteRecoveryCodes_eq_some {here : Bulk CodeHash → Proc} {after : List CodeHash → Turn}
    {b : Bulk CodeHash} (h : deleteRecoveryCodes w pid a here after b = some (p', f)) :
    (∃ codes, b = .finished codes ∧ after codes = some (p', f)) ∨
      ∃ b' hashes, b.step w.mfaRecoveryCodes pid (fun _ => true) (List.range w.uuid)
        a.keys = some (b', hashes) ∧ p' = here b' ∧ f = .lock { mfaRecoveryCodes := hashes } := by
  cases b with
  | finished codes => exact .inl ⟨codes, rfl, h⟩
  | select | next =>
    simp only [deleteRecoveryCodes, Option.map_eq_some_iff] at h
    obtain ⟨⟨b', hashes⟩, hb, he⟩ := h
    cases he
    exact .inr ⟨b', hashes, hb, rfl, rfl⟩

/-- The statement is finished in a turn that locks nothing. -/
theorem finished_of_revokeRefreshSessions {here : Bulk Jti → Proc} {after : List Jti → Turn}
    {b : Bulk Jti} (h : revokeRefreshSessions w pid a here after b = some (p', f))
    (hf : ∀ rows, f ≠ .lock rows) :
    ∃ sessions, b = .finished sessions ∧ after sessions = some (p', f) :=
  (revokeRefreshSessions_eq_some h).resolve_right fun ⟨_, _, _, _, he⟩ => hf _ he

theorem finished_of_deleteRecoveryCodes {here : Bulk CodeHash → Proc}
    {after : List CodeHash → Turn} {b : Bulk CodeHash}
    (h : deleteRecoveryCodes w pid a here after b = some (p', f)) (hf : ∀ rows, f ≠ .lock rows) :
    ∃ codes, b = .finished codes ∧ after codes = some (p', f) :=
  (deleteRecoveryCodes_eq_some h).resolve_right fun ⟨_, _, _, _, he⟩ => hf _ he

theorem flushSessionVersion_commit {tx' : Tx}
    (h : flushSessionVersion w pid tx' = some (p', .commit tx)) :
    p' = .done ∧ (tx = {} ∨ tx = tx' ∧ w.users.Free pid ()) := by
  simp only [flushSessionVersion, Table.locate_eq_some] at h
  obtain ⟨o, ho, he⟩ := h
  cases ho with
  | miss => cases he; exact ⟨rfl, .inl rfl⟩
  | hit _ _ hf => cases he; exact ⟨rfl, .inr ⟨rfl, hf⟩⟩

section Steps

theorem Login.commits {req : LoginRequest} {pc : Login.Pc}
    (h : Login.step S pid req w pc = some (p', .commit tx)) :
    p' = .done ∧ Commits S pid w (.login req pc) tx := by
  cases pc with
  | readUser =>
    simp only [Login.step] at h
    split at h
    · cases h; exact ⟨rfl, .rollback⟩
    · split at h <;> cases h
      exact ⟨rfl, .rollback⟩
  | lockTotp user =>
    simp only [Login.step, Table.locate_eq_some] at h
    obtain ⟨o, -, he⟩ := h
    cases o with
    | none => cases he
    | some record =>
      dsimp only at he
      split at he <;> cases he
      · exact ⟨rfl, .rollback⟩
      · exact ⟨rfl, .rollback⟩
  | lockRecovery user code =>
    simp only [Login.step, Table.locate_eq_some] at h
    obtain ⟨o, -, he⟩ := h
    cases o with
    | none => cases he; exact ⟨rfl, .rollback⟩
    | some => cases he
  | issueTokens user factor => cases h; exact ⟨rfl, .signIn⟩

theorem Refresh.commits {token : Token} {pc : Refresh.Pc}
    (h : Refresh.step S pid token w a pc = some (p', .commit tx)) :
    p' = .done ∧ Commits S pid w (.refresh token pc) tx := by
  cases pc with
  | readUser =>
    simp only [Refresh.step] at h
    split at h <;> cases h
    exact ⟨rfl, .rollback⟩
  | lockSession user =>
    simp only [Refresh.step, Table.locate_eq_some] at h
    obtain ⟨o, ho, he⟩ := h
    cases ho with
    | miss => cases he; exact ⟨rfl, .rollback⟩
    | hit hr _ hf =>
      dsimp only at he
      split at he
      · cases he
      · split at he <;> cases he
        exact ⟨rfl, .expiry hr hf⟩
  | rotate user => cases h; exact ⟨rfl, .rotation⟩
  | revokeSessions user b =>
    rw [Refresh.step] at h
    obtain ⟨sessions, rfl, ha⟩ := finished_of_revokeRefreshSessions h (by rintro _ ⟨⟩)
    obtain ⟨rfl, rfl | ⟨rfl, hf⟩⟩ := flushSessionVersion_commit ha
    · exact ⟨rfl, .rollback⟩
    · exact ⟨rfl, .replay hf⟩

theorem Logout.commits {token : Token} {pc : Logout.Pc}
    (h : Logout.step pid token w a pc = some (p', .commit tx)) :
    p' = .done ∧ Commits S pid w (.logout token pc) tx := by
  cases pc with
  | authenticate =>
    simp only [Logout.step] at h
    split at h <;> cases h
    exact ⟨rfl, .rollback⟩
  | revokeSessions user b =>
    rw [Logout.step] at h
    obtain ⟨sessions, rfl, ha⟩ := finished_of_revokeRefreshSessions h (by rintro _ ⟨⟩)
    obtain ⟨rfl, rfl | ⟨rfl, hf⟩⟩ := flushSessionVersion_commit ha
    · exact ⟨rfl, .rollback⟩
    · exact ⟨rfl, .logout hf⟩

theorem ResetPassword.commits {password : Password} {pc : ResetPassword.Pc}
    (h : ResetPassword.step pid password w a pc = some (p', .commit tx)) :
    p' = .done ∧ Commits S pid w (.resetPassword password pc) tx := by
  cases pc with
  | lockUser =>
    simp only [ResetPassword.step, Table.locate_eq_some] at h
    obtain ⟨o, -, he⟩ := h
    cases o with
    | none => cases he; exact ⟨rfl, .rollback⟩
    | some user =>
      dsimp only at he
      split at he <;> cases he
      exact ⟨rfl, .rollback⟩
  | revokeSessions user b =>
    rw [ResetPassword.step] at h
    obtain ⟨sessions, rfl, ha⟩ := finished_of_revokeRefreshSessions h (by rintro _ ⟨⟩)
    cases ha
    exact ⟨rfl, .reset⟩

theorem DeleteMyAccount.commits {token : Token} {pc : DeleteMyAccount.Pc}
    (h : DeleteMyAccount.step pid token w a pc = some (p', .commit tx)) :
    p' = .done ∧ Commits S pid w (.deleteMyAccount token pc) tx := by
  cases pc with
  | authenticate =>
    simp only [DeleteMyAccount.step] at h
    split at h <;> cases h
    exact ⟨rfl, .rollback⟩
  | flushUser user =>
    simp only [DeleteMyAccount.step, Table.locate_eq_some] at h
    obtain ⟨o, -, he⟩ := h
    cases o with
    | none => cases he; exact ⟨rfl, .rollback⟩
    | some => cases he
  | revokeSessions user b =>
    rw [DeleteMyAccount.step] at h
    obtain ⟨sessions, rfl, ha⟩ := finished_of_revokeRefreshSessions h (by rintro _ ⟨⟩)
    cases ha
  | deleteCodes user sessions b =>
    rw [DeleteMyAccount.step] at h
    obtain ⟨codes, rfl, ha⟩ := finished_of_deleteRecoveryCodes h (by rintro _ ⟨⟩)
    simp only [Table.locate_eq_some] at ha
    obtain ⟨o, ho, he⟩ := ha
    cases he
    refine ⟨rfl, .erase fun hs => ?_⟩
    cases ho with
    | miss => cases hs
    | hit _ _ hf => exact hf

theorem SetupTotp.commits {token : Token} {pc : SetupTotp.Pc}
    (h : SetupTotp.step pid token w pc = some (p', .commit tx)) :
    p' = .done ∧ Commits S pid w (.setupTotp token pc) tx := by
  cases pc with
  | authenticate =>
    simp only [SetupTotp.step] at h
    split at h <;> cases h
    exact ⟨rfl, .rollback⟩
  | readTotp =>
    simp only [SetupTotp.step] at h
    split at h <;> cases h
    exact ⟨rfl, .rollback⟩
  | writeTotp existing =>
    cases existing with
    | none =>
      simp only [SetupTotp.step] at h
      split at h <;> cases h
      · exact ⟨rfl, .rollback⟩
      · exact ⟨rfl, .inserted ‹_›⟩
    | some existing =>
      simp only [SetupTotp.step, Table.locate_eq_some] at h
      obtain ⟨o, ho, he⟩ := h
      cases ho with
      | miss => cases he; exact ⟨rfl, .rollback⟩
      | hit hr _ hf => cases he; exact ⟨rfl, .overwritten hr hf⟩

theorem ConfirmTotp.commits {token : Token} {code : Code} {pc : ConfirmTotp.Pc}
    (h : ConfirmTotp.step S pid token code w a pc = some (p', .commit tx)) :
    p' = .done ∧ Commits S pid w (.confirmTotp token code pc) tx := by
  cases pc with
  | authenticate =>
    simp only [ConfirmTotp.step] at h
    split at h <;> cases h
    exact ⟨rfl, .rollback⟩
  | readTotp =>
    simp only [ConfirmTotp.step] at h
    split at h
    · cases h; exact ⟨rfl, .rollback⟩
    · split at h <;> cases h
      exact ⟨rfl, .rollback⟩
  | flushTotp record counter confirmedAt =>
    simp only [ConfirmTotp.step, Table.locate_eq_some] at h
    obtain ⟨o, -, he⟩ := h
    cases o with
    | none => cases he; exact ⟨rfl, .rollback⟩
    | some => cases he
  | deleteCodes record counter confirmedAt b =>
    rw [ConfirmTotp.step] at h
    obtain ⟨codes, rfl, ha⟩ := finished_of_deleteRecoveryCodes h (by rintro _ ⟨⟩)
    cases ha
    exact ⟨rfl, .confirmed⟩

theorem DisableTotp.commits {token : Token} {password : Password} {code : Code}
    {pc : DisableTotp.Pc}
    (h : DisableTotp.step S pid token password code w pc = some (p', .commit tx)) :
    p' = .done ∧ Commits S pid w (.disableTotp token password code pc) tx := by
  cases pc with
  | authenticate =>
    simp only [DisableTotp.step] at h
    split at h <;> cases h
    exact ⟨rfl, .rollback⟩
  | readTotp user =>
    simp only [DisableTotp.step] at h
    split at h <;> cases h
    exact ⟨rfl, .rollback⟩
  | readRecovery user record =>
    simp only [DisableTotp.step] at h
    split at h <;> cases h
    exact ⟨rfl, .rollback⟩
  | flushRecovery user record hash | flushUser user record factor =>
    simp only [DisableTotp.step, Table.locate_eq_some] at h
    obtain ⟨o, -, he⟩ := h
    cases o with
    | none => cases he; exact ⟨rfl, .rollback⟩
    | some => cases he
  | flushTotp user record factor =>
    simp only [DisableTotp.step, Table.locate_eq_some] at h
    obtain ⟨o, ho, he⟩ := h
    cases ho with
    | miss => cases he; exact ⟨rfl, .rollback⟩
    | hit hr hp hf => cases he; exact ⟨rfl, .disabled hr hp hf⟩

theorem Playback.commits {token : Token} {pc : Playback.Pc}
    (h : Playback.step S token w pc = some (p', .commit tx)) :
    p' = .done ∧ Commits S pid w (.playback token pc) tx := by
  cases pc with
  | authenticate =>
    simp only [Playback.step] at h
    split at h <;> cases h
    exact ⟨rfl, .rollback⟩
  | mint user => cases h; exact ⟨rfl, .minted⟩

end Steps

theorem step_error (h : p.step S pid .error w = some (p', f)) : p' = .done ∧ f = .commit {} := by
  cases p <;> cases h <;> exact ⟨rfl, rfl⟩

theorem step_of_ne_error (h : a ≠ .error) : p.step S pid a w = p.turn S pid a w := by
  cases a <;> first | rfl | exact (h rfl).elim

/-- **What a request commits.** A turn that ends a transaction ends the request. -/
theorem commits_of_step (h : p.step S pid a w = some (p', .commit tx)) :
    p' = .done ∧ Commits S pid w p tx := by
  by_cases ha : a = .error
  · subst ha
    obtain ⟨rfl, he⟩ := step_error h
    cases he
    exact ⟨rfl, .rollback⟩
  rw [step_of_ne_error ha] at h
  cases p with
  | login => exact Login.commits h
  | refresh => exact Refresh.commits h
  | logout => exact Logout.commits h
  | resetPassword => exact ResetPassword.commits h
  | deleteMyAccount => exact DeleteMyAccount.commits h
  | setupTotp => exact SetupTotp.commits h
  | confirmTotp => exact ConfirmTotp.commits h
  | disableTotp => exact DisableTotp.commits h
  | playback => exact Playback.commits h
  | clock => cases a <;> cases h
  | done => cases h

/-! ### What a commit does to each table -/

/-- A session is created or revoked. -/
theorem Commits.session_cases (h : Commits S pid w p tx) {e : Alteration Jti RefreshSession}
    (he : e ∈ tx.refreshSessions) :
    (e = createRefreshSession S w ∧ tx.draws = 2) ∨
      ∃ g : RefreshSession → RefreshSession, e.2 = Option.map g ∧ ∀ s, (g s).revokedAt ≠ none := by
  have revoked {now : Time} {reason : RevokedReason} {sessions : List Jti}
      (he : e ∈ revocations now reason sessions) :
      ∃ g : RefreshSession → RefreshSession,
        e.2 = Option.map g ∧ ∀ s, (g s).revokedAt ≠ none := by
    simp only [revocations, List.mem_map] at he
    obtain ⟨jti, -, rfl⟩ := he
    exact ⟨_, rfl, fun s => Option.some_ne_none _⟩
  cases h with
  | signIn => exact .inl ⟨List.mem_singleton.mp he, rfl⟩
  | rotation =>
    rcases List.mem_cons.mp he with rfl | he
    · exact .inr ⟨_, rfl, fun s => Option.some_ne_none _⟩
    · exact .inl ⟨List.mem_singleton.mp he, rfl⟩
  | expiry | replay | logout | reset | erase => exact .inr (revoked he)
  | rollback | overwritten | inserted | confirmed | disabled | minted => cases he

/-- A recovery code is deleted, used or drawn. -/
theorem Commits.code_cases (h : Commits S pid w p tx) {e : Alteration CodeHash MfaRecoveryCode}
    (he : e ∈ tx.mfaRecoveryCodes) :
    (e.2 = fun _ => none) ∨ (e.2 = Option.map fun r => { r with usedAt := some w.now }) ∨
      w.uuid ≤ e.1 ∧ e.1 < w.uuid + tx.draws ∧ e.2 = fun _ => some ⟨none⟩ := by
  have deleted {codes : List CodeHash} (he : e ∈ deletions codes) : e.2 = fun _ => none := by
    simp only [deletions, List.mem_map] at he
    obtain ⟨hash, -, rfl⟩ := he
    rfl
  cases h with
  | @signIn _ _ factor =>
    rcases factor with _ | ⟨⟩ | ⟨⟩
    · cases he
    · cases he
    · obtain rfl := List.mem_singleton.mp he
      exact .inr (.inl rfl)
  | erase => exact .inl (deleted he)
  | confirmed =>
    rcases List.mem_append.mp he with he | he
    · exact .inl (deleted he)
    · simp only [ConfirmTotp.freshCodes, List.mem_map, List.mem_range] at he
      obtain ⟨n, hn, rfl⟩ := he
      exact .inr (.inr ⟨Nat.le_add_right .., Nat.add_lt_add_left hn _, rfl⟩)
  | @disabled _ _ _ _ _ _ factor =>
    cases factor with
    | totp => cases he
    | recovery =>
      obtain rfl := List.mem_singleton.mp he
      exact .inr (.inl rfl)
  | rollback | rotation | expiry | replay | logout | reset | overwritten | inserted | minted =>
    cases he

/-- What a commit of request `p` makes of the enrolment. -/
inductive Enrolment (S : Settings) (w : World) :
    Proc → Tx → Option UserTotpSecret → Option UserTotpSecret → Prop
  | kept {p : Proc} {tx : Tx} {o : Option UserTotpSecret} : Enrolment S w p tx o o
  | erased {p : Proc} {tx : Tx} {o : Option UserTotpSecret} : Enrolment S w p tx o none
  | used {req : LoginRequest} {user : User} {secret : Secret} {counter : ℕ} {tx : Tx}
      {r : UserTotpSecret} :
    Enrolment S w (.login req (.issueTokens user (some (.totp secret counter)))) tx (some r)
      (some { r with lastUsedAt := some (counterTime S counter) })
  | enrolled {p : Proc} :
    Enrolment S w p (SetupTotp.inserted w) none (some ⟨w.uuid, w.uuid, none, none, none⟩)
  | overwritten {p : Proc} {existing r : UserTotpSecret} :
    Enrolment S w p (SetupTotp.overwritten w existing) (some r)
      (some (SetupTotp.overwrite w existing r))
  | confirmed {token : Token} {code : Code} {record : UserTotpSecret} {counter : ℕ}
      {confirmedAt : Time} {codes : List CodeHash} {tx : Tx} {r : UserTotpSecret} :
    Enrolment S w
      (.confirmTotp token code (.deleteCodes record counter confirmedAt (.finished codes))) tx
      (some r) (some (ConfirmTotp.confirm S counter confirmedAt r))
  | disabled {p : Proc} {tx : Tx} {r : UserTotpSecret} :
    Enrolment S w p tx (some r) (some { r with disabledAt := some w.now })

theorem totp_commit (w : World) (pid : Pid) (tx : Tx) :
    (w.commit pid tx).totp? = (w.userTotpSecrets.alterAll tx.userTotpSecrets).row () := rfl

theorem Commits.enrolment (h : Commits S pid w p tx) :
    Enrolment S w p tx w.totp? (w.commit pid tx).totp? := by
  rw [totp_commit]
  cases h with
  | rollback | rotation | expiry | replay | logout | reset | minted => exact .kept
  | @signIn _ _ factor =>
    rcases factor with _ | ⟨⟩ | ⟨⟩
    · exact .kept
    · change Enrolment _ _ _ _ _ (w.totp?.map _)
      cases w.totp? with
      | none => exact .kept
      | some r => exact .used
    · exact .kept
  | @erase _ _ _ _ enrolled =>
    cases enrolled with
    | false => exact .kept
    | true => exact .erased
  | overwritten hr =>
    change Enrolment _ _ _ _ _ (w.totp?.map _)
    rw [hr]
    exact .overwritten
  | inserted hn =>
    rw [hn]
    exact .enrolled
  | confirmed =>
    change Enrolment _ _ _ _ _ (w.totp?.map _)
    cases w.totp? with
    | none => exact .kept
    | some r => exact .confirmed
  | disabled hr =>
    change Enrolment _ _ _ _ _ (w.totp?.map _)
    rw [hr]
    exact .disabled

/-! ### What has been drawn -/

/-- The identifiers in use have been drawn. -/
structure World.Drawn (w : World) : Prop where
  jtis : ∀ jti, w.refreshSessions.row jti ≠ none → jti < w.uuid
  codes : ∀ hash, w.mfaRecoveryCodes.row hash ≠ none → hash < w.uuid
  totp : ∀ r, w.totp? = some r → r.id < w.uuid ∧ r.secret < w.uuid

theorem World.IsInitial.drawn (h : w.IsInitial) : w.Drawn := ⟨h.jtis, h.codes, h.totp⟩

theorem World.Drawn.commit (hw : w.Drawn) (h : Commits S pid w p tx) : (w.commit pid tx).Drawn where
  jtis jti := by
    refine Table.row_alterAll_of_keeps (Q := fun o => o ≠ none → jti < w.uuid + tx.draws)
      (fun hr => Nat.lt_add_right _ (hw.jtis jti hr)) ?_
    rintro e he rfl o ho hn
    rcases h.session_cases he with ⟨rfl, hd⟩ | ⟨g, hg, -⟩
    · rw [hd]
      exact Nat.lt_add_of_pos_right Nat.two_pos
    · rw [hg] at hn
      exact ho (by simpa using hn)
  codes hash := by
    refine Table.row_alterAll_of_keeps (Q := fun o => o ≠ none → hash < w.uuid + tx.draws)
      (fun hr => Nat.lt_add_right _ (hw.codes hash hr)) ?_
    rintro e he rfl o ho hn
    rcases h.code_cases he with hd | hu | ⟨-, hlt, -⟩
    · exact (hn (by rw [hd])).elim
    · rw [hu] at hn
      exact ho (by simpa using hn)
    · exact hlt
  totp r hr := by
    have old {r : UserTotpSecret} (hr : w.totp? = some r) :
        r.id < w.uuid + tx.draws ∧ r.secret < w.uuid + tx.draws :=
      ⟨Nat.lt_add_right _ (hw.totp r hr).1, Nat.lt_add_right _ (hw.totp r hr).2⟩
    have he := h.enrolment
    rw [hr] at he
    generalize hb : w.totp? = before at he
    cases he with
    | kept | used | confirmed | disabled =>
      have hold := old hb
      exact hold
    | enrolled => exact ⟨Nat.lt_add_of_pos_right Nat.one_pos, Nat.lt_add_of_pos_right Nat.one_pos⟩
    | overwritten => exact ⟨(old hb).1, Nat.lt_add_of_pos_right Nat.one_pos⟩

theorem World.Drawn.step (hw : w.Drawn) (h : p.step S pid a w = some (p', f)) :
    (w.apply pid f).Drawn := by
  cases f with
  | skip | lock | tick => exact ⟨hw.jtis, hw.codes, hw.totp⟩
  | commit tx => exact hw.commit (commits_of_step h).2

end NextBallUp.Auth
