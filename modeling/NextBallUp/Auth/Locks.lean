import NextBallUp.Auth.System

/-!
# What a request may rely on inside its transaction

Which rows a request owns at each of its program points, and what it knows of them.

## Main definitions

* `Effect.Permitted`: an effect locks and writes only what no other session has locked
* `Proc.Holds`: what a request owns at its program point

## Main results

* `apply_respects`: permitted effects leave the rows of the other sessions alone
* `Proc.step_sound`: a turn is permitted, and establishes what holds at the next program point
* `sound_of_reach`: in every run, every request owns what its program point says
-/

namespace NextBallUp.Auth

variable {S : Settings} {pid j : Pid} {a : Answer} {p p' : Proc} {w w' : World} {tx : Tx}
  {f : Effect}

/-! ### Permitted effects -/

/-- The effect locks and writes only what no other session has locked. -/
def Effect.Permitted (pid : Pid) (w : World) : Effect → Prop
  | .lock locks =>
    (∀ k ∈ locks.users, w.users.Free pid k) ∧
      (∀ k ∈ locks.refreshSessions, w.refreshSessions.Free pid k) ∧
      (∀ k ∈ locks.userTotpSecrets, w.userTotpSecrets.Free pid k) ∧
      ∀ k ∈ locks.mfaRecoveryCodes, w.mfaRecoveryCodes.Free pid k
  | .commit tx =>
    (∀ e ∈ tx.users, w.users.Free pid e.1 ∨ w.users.row e.1 = none) ∧
      (∀ e ∈ tx.refreshSessions, w.refreshSessions.Free pid e.1 ∨
        w.refreshSessions.row e.1 = none) ∧
      (∀ e ∈ tx.userTotpSecrets,
        w.userTotpSecrets.Free pid e.1 ∨ w.userTotpSecrets.row e.1 = none) ∧
      ∀ e ∈ tx.mfaRecoveryCodes,
        w.mfaRecoveryCodes.Free pid e.1 ∨ w.mfaRecoveryCodes.row e.1 = none
  | _ => True

/-- What session `pid` has done leaves every row alone that another session owns. -/
structure RespectsRows (pid : Pid) (w w' : World) : Prop where
  users : w.users.RespectsRows pid w'.users
  refreshSessions : w.refreshSessions.RespectsRows pid w'.refreshSessions
  userTotpSecrets : w.userTotpSecrets.RespectsRows pid w'.userTotpSecrets
  mfaRecoveryCodes : w.mfaRecoveryCodes.RespectsRows pid w'.mfaRecoveryCodes

/-- **Permitted effects leave the rows of the other sessions alone.** -/
theorem apply_respects (h : f.Permitted pid w) : RespectsRows pid w (w.apply pid f) := by
  cases f with
  | skip | tick =>
    exact ⟨(Table.Respects.refl _ _).rows, (Table.Respects.refl _ _).rows,
      (Table.Respects.refl _ _).rows, (Table.Respects.refl _ _).rows⟩
  | lock locks =>
    obtain ⟨hu, hs, ht, hc⟩ := h
    exact ⟨(Table.respects_acquireAll hu).rows, (Table.respects_acquireAll hs).rows,
      (Table.respects_acquireAll ht).rows, (Table.respects_acquireAll hc).rows⟩
  | commit tx =>
    obtain ⟨hu, hs, ht, hc⟩ := h
    exact ⟨(Table.respectsRows_alterAll hu).trans (Table.respects_release _ _).rows,
      (Table.respectsRows_alterAll hs).trans (Table.respects_release _ _).rows,
      (Table.respectsRows_alterAll ht).trans (Table.respects_release _ _).rows,
      (Table.respectsRows_alterAll hc).trans (Table.respects_release _ _).rows⟩

/-! ### What a request owns -/

/-- A login that has accepted a factor owns its row, and the row still admits it. -/
def Login.Holds (S : Settings) (pid : Pid) (w : World) : Login.Pc → Prop
  | .issueTokens _ (some (.totp secret counter)) =>
    ∃ r, w.userTotpSecrets.Owns pid () (some r) ∧ r.secret = secret ∧ r.disabledAt = none ∧
      (lastCounter S r).all (· < counter)
  | .issueTokens _ (some (.recovery hash)) =>
    ∃ r, w.mfaRecoveryCodes.Owns pid hash (some r) ∧ r.usedAt = none
  | _ => True

/-- A refresh that is going to succeed owns a live session. -/
def Refresh.Holds (pid : Pid) (token : Token) (w : World) : Refresh.Pc → Prop
  | .rotate _ => ∃ s, w.refreshSessions.Owns pid token.jti (some s) ∧ s.revokedAt = none
  | .revokeSessions _ b => w.refreshSessions.OwnsAll pid b.locked
  | _ => True

def Logout.Holds (pid : Pid) (w : World) : Logout.Pc → Prop
  | .revokeSessions _ b => w.refreshSessions.OwnsAll pid b.locked
  | _ => True

/-- A password reset has locked the user before it has loaded it. -/
def ResetPassword.Holds (pid : Pid) (w : World) : ResetPassword.Pc → Prop
  | .revokeSessions user b =>
    w.users.Owns pid () (some user) ∧ w.refreshSessions.OwnsAll pid b.locked
  | _ => True

def DeleteMyAccount.Holds (pid : Pid) (w : World) : DeleteMyAccount.Pc → Prop
  | .revokeSessions _ b => w.users.OwnsAll pid [()] ∧ w.refreshSessions.OwnsAll pid b.locked
  | .deleteCodes _ sessions b =>
    w.users.OwnsAll pid [()] ∧ w.refreshSessions.OwnsAll pid sessions ∧
      w.mfaRecoveryCodes.OwnsAll pid b.locked
  | _ => True

def ConfirmTotp.Holds (pid : Pid) (w : World) : ConfirmTotp.Pc → Prop
  | .deleteCodes _ _ _ b =>
    w.userTotpSecrets.OwnsAll pid [()] ∧ w.mfaRecoveryCodes.OwnsAll pid b.locked
  | _ => True

/-- The code whose row a request to disable has locked. -/
def Factor.codes : Factor → List CodeHash
  | .totp .. => []
  | .recovery hash => [hash]

def DisableTotp.Holds (pid : Pid) (w : World) : DisableTotp.Pc → Prop
  | .flushUser _ _ factor => w.mfaRecoveryCodes.OwnsAll pid factor.codes
  | .flushTotp _ _ factor =>
    w.mfaRecoveryCodes.OwnsAll pid factor.codes ∧ w.users.OwnsAll pid [()]
  | _ => True

/-- What a request owns at its program point. -/
def Proc.Holds (S : Settings) (pid : Pid) (w : World) : Proc → Prop
  | .login _ pc => Login.Holds S pid w pc
  | .refresh token pc => Refresh.Holds pid token w pc
  | .logout _ pc => Logout.Holds pid w pc
  | .resetPassword _ pc => ResetPassword.Holds pid w pc
  | .deleteMyAccount _ pc => DeleteMyAccount.Holds pid w pc
  | .confirmTotp _ _ pc => ConfirmTotp.Holds pid w pc
  | .disableTotp _ _ _ pc => DisableTotp.Holds pid w pc
  | .setupTotp .. | .playback .. | .clock | .done => True

theorem Proc.IsFresh.holds (h : p.IsFresh) : p.Holds S pid w := by
  rcases p with ⟨_, pc⟩ | ⟨_, pc⟩ | ⟨_, pc⟩ | ⟨_, pc⟩ | ⟨_, pc⟩ | ⟨_, pc⟩ | ⟨_, _, pc⟩ |
    ⟨_, _, _, pc⟩ | ⟨_, pc⟩ | _ | _ <;> first | trivial | cases pc <;> trivial

/-- What another session does leaves this alone. -/
theorem Proc.Holds.of_respects (hr : RespectsRows j w w') (hne : pid ≠ j) (h : p.Holds S pid w) :
    p.Holds S pid w' := by
  cases p with
  | login req pc =>
    rcases pc with _ | _ | _ | ⟨user, _ | ⟨⟩ | ⟨⟩⟩
    · trivial
    · trivial
    · trivial
    · trivial
    · obtain ⟨r, ho, hk⟩ := h
      exact ⟨r, hr.userTotpSecrets _ hne _ _ ho, hk⟩
    · obtain ⟨r, ho, hk⟩ := h
      exact ⟨r, hr.mfaRecoveryCodes _ hne _ _ ho, hk⟩
  | refresh token pc =>
    cases pc with
    | rotate =>
      obtain ⟨s, ho, hk⟩ := h
      exact ⟨s, hr.refreshSessions _ hne _ _ ho, hk⟩
    | revokeSessions => exact hr.refreshSessions.ownsAll hne h
    | _ => trivial
  | logout token pc =>
    cases pc with
    | authenticate => trivial
    | revokeSessions => exact hr.refreshSessions.ownsAll hne h
  | resetPassword password pc =>
    cases pc with
    | lockUser => trivial
    | revokeSessions => exact ⟨hr.users _ hne _ _ h.1, hr.refreshSessions.ownsAll hne h.2⟩
  | deleteMyAccount token pc =>
    cases pc with
    | revokeSessions => exact ⟨hr.users.ownsAll hne h.1, hr.refreshSessions.ownsAll hne h.2⟩
    | deleteCodes =>
      exact ⟨hr.users.ownsAll hne h.1, hr.refreshSessions.ownsAll hne h.2.1,
        hr.mfaRecoveryCodes.ownsAll hne h.2.2⟩
    | _ => trivial
  | confirmTotp token code pc =>
    cases pc with
    | deleteCodes =>
      exact ⟨hr.userTotpSecrets.ownsAll hne h.1, hr.mfaRecoveryCodes.ownsAll hne h.2⟩
    | _ => trivial
  | disableTotp token password code pc =>
    cases pc with
    | flushUser => exact hr.mfaRecoveryCodes.ownsAll hne h
    | flushTotp => exact ⟨hr.mfaRecoveryCodes.ownsAll hne h.1, hr.users.ownsAll hne h.2⟩
    | _ => trivial
  | setupTotp | playback | clock | done => trivial

/-! ### Commits -/

/-- What a request commits is permitted. -/
theorem Commits.permitted (h : Commits S pid w p tx) (hw : w.Drawn) (hp : p.Holds S pid w) :
    (Effect.commit tx).Permitted pid w := by
  have created : w.refreshSessions.Free pid (createRefreshSession S w).1 ∨
      w.refreshSessions.row (createRefreshSession S w).1 = none := by
    right
    by_contra hn
    exact Nat.lt_irrefl _ (hw.jtis _ hn)
  have revoked {now : Time} {reason : RevokedReason} {sessions : List Jti}
      (ho : w.refreshSessions.OwnsAll pid sessions) :
      ∀ e ∈ revocations now reason sessions,
        w.refreshSessions.Free pid e.1 ∨ w.refreshSessions.row e.1 = none := by
    simp only [revocations, List.mem_map]
    rintro _ ⟨jti, hj, rfl⟩
    exact .inl (ho.free hj)
  have deleted {codes : List CodeHash} (ho : w.mfaRecoveryCodes.OwnsAll pid codes) :
      ∀ e ∈ deletions codes,
        w.mfaRecoveryCodes.Free pid e.1 ∨ w.mfaRecoveryCodes.row e.1 = none := by
    simp only [deletions, List.mem_map]
    rintro _ ⟨hash, hm, rfl⟩
    exact .inl (ho.free hm)
  have one {K R : Type} {t : Table K R Pid} {k : K} {g : Option R → Option R}
      (hf : t.Free pid k ∨ t.row k = none) :
      ∀ e ∈ [(k, g)], t.Free pid e.1 ∨ t.row e.1 = none := by
    simpa using hf
  have none {K R : Type} {t : Table K R Pid} :
      ∀ e ∈ ([] : List (Alteration K R)), t.Free pid e.1 ∨ t.row e.1 = Option.none := by
    simp
  cases h with
  | rollback | minted => exact ⟨none, none, none, none⟩
  | @signIn _ _ factor =>
    rcases factor with _ | ⟨⟩ | ⟨⟩
    · exact ⟨none, one created, none, none⟩
    · obtain ⟨r, ho, -⟩ := hp
      exact ⟨none, one created, one (.inl ho.free), none⟩
    · obtain ⟨r, ho, -⟩ := hp
      exact ⟨none, one created, none, one (.inl ho.free)⟩
  | rotation =>
    obtain ⟨s, ho, -⟩ := hp
    refine ⟨none, List.forall_mem_cons.mpr ⟨.inl ho.free, one created⟩, none, none⟩
  | expiry _ hf => exact ⟨none, one (.inl hf), none, none⟩
  | replay hf | logout hf => exact ⟨one (.inl hf), revoked hp, none, none⟩
  | reset => exact ⟨one (.inl hp.1.free), revoked hp.2, none, none⟩
  | @erase _ _ _ _ enrolled hf =>
    refine ⟨one (.inl (hp.1.free (List.mem_singleton_self _))), revoked hp.2.1, ?_, deleted hp.2.2⟩
    cases enrolled with
    | false => exact none
    | true => exact one (.inl (hf rfl))
  | overwritten _ hf => exact ⟨none, none, one (.inl hf), none⟩
  | inserted hn => exact ⟨none, none, one (.inr hn), none⟩
  | confirmed =>
    refine ⟨none, none, one (.inl (hp.1.free (List.mem_singleton_self _))), ?_⟩
    refine List.forall_mem_append.mpr ⟨deleted hp.2, ?_⟩
    simp only [ConfirmTotp.freshCodes, List.mem_map]
    rintro _ ⟨n, -, rfl⟩
    right
    by_contra hn
    exact Nat.not_lt.mpr (Nat.le_add_right ..) (hw.codes _ hn)
  | @disabled _ _ _ _ _ _ factor _ _ hf =>
    refine ⟨one (.inl (hp.2.free (List.mem_singleton_self _))), none, one (.inl hf), ?_⟩
    cases factor with
    | totp => exact none
    | recovery => exact one (.inl (hp.1.free (List.mem_singleton_self _)))

/-! ### Turns that lock -/

theorem sound_revokeRefreshSessions {here : Bulk Jti → Proc} {after : List Jti → Turn}
    {b : Bulk Jti} {locks : Locks} (ho : w.refreshSessions.OwnsAll pid b.locked)
    (h : revokeRefreshSessions w pid a here after b = some (p', .lock locks)) :
    (∃ sessions, b = .finished sessions ∧ after sessions = some (p', .lock locks)) ∨
      ∃ b' jtis, p' = here b' ∧ locks = { refreshSessions := jtis } ∧
        (Effect.lock locks).Permitted pid w ∧
        (w.refreshSessions.acquireAll pid jtis).OwnsAll pid b'.locked := by
  refine (revokeRefreshSessions_eq_some h).imp id ?_
  rintro ⟨b', jtis, hb, rfl, he⟩
  cases he
  refine ⟨b', jtis, rfl, rfl, ⟨by simp, fun k hk => ?_, by simp, by simp⟩, Bulk.ownsAll_step hb ho⟩
  exact ((Bulk.step_locked hb).2 k hk).1

theorem sound_deleteRecoveryCodes {here : Bulk CodeHash → Proc} {after : List CodeHash → Turn}
    {b : Bulk CodeHash} {locks : Locks} (ho : w.mfaRecoveryCodes.OwnsAll pid b.locked)
    (h : deleteRecoveryCodes w pid a here after b = some (p', .lock locks)) :
    (∃ codes, b = .finished codes ∧ after codes = some (p', .lock locks)) ∨
      ∃ b' hashes, p' = here b' ∧ locks = { mfaRecoveryCodes := hashes } ∧
        (Effect.lock locks).Permitted pid w ∧
        (w.mfaRecoveryCodes.acquireAll pid hashes).OwnsAll pid b'.locked := by
  refine (deleteRecoveryCodes_eq_some h).imp id ?_
  rintro ⟨b', hashes, hb, rfl, he⟩
  cases he
  refine ⟨b', hashes, rfl, rfl, ⟨by simp, by simp, by simp, fun k hk => ?_⟩,
    Bulk.ownsAll_step hb ho⟩
  exact ((Bulk.step_locked hb).2 k hk).1

section Steps

variable {locks : Locks}

theorem Login.sound {req : LoginRequest} {pc : Login.Pc}
    (h : Login.step S pid req w pc = some (p', .lock locks)) :
    (Effect.lock locks).Permitted pid w ∧ p'.Holds S pid (w.apply pid (.lock locks)) := by
  cases pc with
  | readUser =>
    simp only [Login.step] at h
    split at h
    · cases h
    · split at h <;> cases h
  | lockTotp user =>
    simp only [Login.step, Table.locate_eq_some] at h
    obtain ⟨o, ho, he⟩ := h
    cases ho with
    | miss => cases he
    | hit hr hp hf =>
      rename_i record
      simp only [Enrolled, decide_eq_true_eq] at hp
      dsimp only at he
      split at he <;> cases he
      refine ⟨⟨by simp, by simp, fun _ _ => hf, by simp⟩, ?_⟩
      cases hv : verifyTotpCode S record.secret _ w.now (lastCounter S record) with
      | none => trivial
      | some counter =>
        have hown := Table.owns_acquireAll (t := w.userTotpSecrets) (s := pid)
          (List.mem_singleton_self ())
        rw [hr] at hown
        exact ⟨record, hown, rfl, hp.2, (verifyTotpCode_eq_some hv).2.2⟩
  | lockRecovery user code =>
    simp only [Login.step, Table.locate_eq_some] at h
    obtain ⟨o, ho, he⟩ := h
    cases ho with
    | miss => cases he
    | hit hr hp hf =>
      cases he
      refine ⟨⟨by simp, by simp, by simp, by simpa using hf⟩, ?_⟩
      have hown := Table.owns_acquireAll (t := w.mfaRecoveryCodes) (s := pid)
        (List.mem_singleton_self (S.hashRecoveryCode code))
      rw [hr] at hown
      exact ⟨_, hown, by simpa using hp⟩
  | issueTokens user factor => cases h

theorem Refresh.sound {token : Token} {pc : Refresh.Pc} (hp : Refresh.Holds pid token w pc)
    (h : Refresh.step S pid token w a pc = some (p', .lock locks)) :
    (Effect.lock locks).Permitted pid w ∧ p'.Holds S pid (w.apply pid (.lock locks)) := by
  cases pc with
  | readUser =>
    simp only [Refresh.step] at h
    split at h <;> cases h
  | lockSession user =>
    simp only [Refresh.step, Table.locate_eq_some] at h
    obtain ⟨o, ho, he⟩ := h
    cases ho with
    | miss => cases he
    | hit hr _ hf =>
      rename_i s _
      have hown := Table.owns_acquireAll (t := w.refreshSessions) (s := pid)
        (List.mem_singleton_self token.jti)
      rw [hr] at hown
      dsimp only at he
      split at he
      · cases he
        exact ⟨⟨by simp, by simpa using hf, by simp, by simp⟩, Table.ownsAll_nil⟩
      · next hl =>
        split at he <;> cases he
        exact ⟨⟨by simp, by simpa using hf, by simp, by simp⟩, s, hown, by simpa using hl⟩
  | rotate user => cases h
  | revokeSessions user b =>
    rw [Refresh.step] at h
    rcases sound_revokeRefreshSessions hp h with ⟨sessions, rfl, ha⟩ | ⟨b', _, rfl, rfl, hper, ho⟩
    · simp only [flushSessionVersion, Table.locate_eq_some] at ha
      obtain ⟨o, -, he⟩ := ha
      cases o <;> cases he
    · exact ⟨hper, ho⟩

theorem Logout.sound {token : Token} {pc : Logout.Pc} (hp : Logout.Holds pid w pc)
    (h : Logout.step pid token w a pc = some (p', .lock locks)) :
    (Effect.lock locks).Permitted pid w ∧ p'.Holds S pid (w.apply pid (.lock locks)) := by
  cases pc with
  | authenticate =>
    simp only [Logout.step] at h
    split at h <;> cases h
  | revokeSessions user b =>
    rw [Logout.step] at h
    rcases sound_revokeRefreshSessions hp h with ⟨sessions, rfl, ha⟩ | ⟨b', _, rfl, rfl, hper, ho⟩
    · simp only [flushSessionVersion, Table.locate_eq_some] at ha
      obtain ⟨o, -, he⟩ := ha
      cases o <;> cases he
    · exact ⟨hper, ho⟩

theorem ResetPassword.sound {password : Password} {pc : ResetPassword.Pc}
    (hp : ResetPassword.Holds pid w pc)
    (h : ResetPassword.step pid password w a pc = some (p', .lock locks)) :
    (Effect.lock locks).Permitted pid w ∧ p'.Holds S pid (w.apply pid (.lock locks)) := by
  cases pc with
  | lockUser =>
    simp only [ResetPassword.step, Table.locate_eq_some] at h
    obtain ⟨o, ho, he⟩ := h
    cases ho with
    | miss => cases he
    | hit hr _ hf =>
      dsimp only at he
      split at he <;> cases he
      have hown := Table.owns_acquireAll (t := w.users) (s := pid) (List.mem_singleton_self ())
      rw [hr] at hown
      exact ⟨⟨fun _ _ => hf, by simp, by simp, by simp⟩, hown, Table.ownsAll_nil⟩
  | revokeSessions user b =>
    rw [ResetPassword.step] at h
    rcases sound_revokeRefreshSessions hp.2 h with ⟨sessions, rfl, ha⟩ | ⟨b', _, rfl, rfl, hper, ho⟩
    · cases ha
    · refine ⟨hper, ?_, ho⟩
      exact (Table.acquireAll_nil w.users pid).symm ▸ hp.1

theorem DeleteMyAccount.sound {token : Token} {pc : DeleteMyAccount.Pc}
    (hp : DeleteMyAccount.Holds pid w pc)
    (h : DeleteMyAccount.step pid token w a pc = some (p', .lock locks)) :
    (Effect.lock locks).Permitted pid w ∧ p'.Holds S pid (w.apply pid (.lock locks)) := by
  cases pc with
  | authenticate =>
    simp only [DeleteMyAccount.step] at h
    split at h <;> cases h
  | flushUser user =>
    simp only [DeleteMyAccount.step, Table.locate_eq_some] at h
    obtain ⟨o, ho, he⟩ := h
    cases ho with
    | miss => cases he
    | hit hr _ hf =>
      cases he
      refine ⟨⟨fun _ _ => hf, by simp, by simp, by simp⟩, ?_, Table.ownsAll_nil⟩
      exact fun k hk => ⟨_, hr ▸ Table.owns_acquireAll hk⟩
  | revokeSessions user b =>
    rw [DeleteMyAccount.step] at h
    rcases sound_revokeRefreshSessions hp.2 h with ⟨sessions, rfl, ha⟩ | ⟨b', _, rfl, rfl, hper, ho⟩
    · cases ha
    · refine ⟨hper, ?_, ho⟩
      exact (Table.acquireAll_nil w.users pid).symm ▸ hp.1
  | deleteCodes user sessions b =>
    rw [DeleteMyAccount.step] at h
    rcases sound_deleteRecoveryCodes hp.2.2 h with ⟨codes, rfl, ha⟩ | ⟨b', _, rfl, rfl, hper, ho⟩
    · simp only [Table.locate_eq_some] at ha
      obtain ⟨o, -, he⟩ := ha
      cases he
    · refine ⟨hper, ?_, ?_, ho⟩
      · exact (Table.acquireAll_nil w.users pid).symm ▸ hp.1
      · exact (Table.acquireAll_nil w.refreshSessions pid).symm ▸ hp.2.1

theorem SetupTotp.proc_of_step {token : Token} {pc : SetupTotp.Pc}
    (h : SetupTotp.step pid token w pc = some (p', f)) :
    p' = .done ∨ ∃ pc', p' = .setupTotp token pc' := by
  cases pc with
  | authenticate | readTotp =>
    simp only [SetupTotp.step] at h
    split at h <;> cases h
    · exact .inl rfl
    · exact .inr ⟨_, rfl⟩
  | writeTotp existing =>
    cases existing with
    | none =>
      simp only [SetupTotp.step] at h
      split at h <;> cases h <;> exact .inl rfl
    | some existing =>
      simp only [SetupTotp.step, Table.locate_eq_some] at h
      obtain ⟨o, -, he⟩ := h
      cases o <;> cases he <;> exact .inl rfl

theorem SetupTotp.not_lock {token : Token} {pc : SetupTotp.Pc} :
    SetupTotp.step pid token w pc ≠ some (p', .lock locks) := by
  intro h
  cases pc with
  | authenticate | readTotp =>
    simp only [SetupTotp.step] at h
    split at h <;> cases h
  | writeTotp existing =>
    cases existing with
    | none =>
      simp only [SetupTotp.step] at h
      split at h <;> cases h
    | some existing =>
      simp only [SetupTotp.step, Table.locate_eq_some] at h
      obtain ⟨o, -, he⟩ := h
      cases o <;> cases he

theorem ConfirmTotp.sound {token : Token} {code : Code} {pc : ConfirmTotp.Pc}
    (hp : ConfirmTotp.Holds pid w pc)
    (h : ConfirmTotp.step S pid token code w a pc = some (p', .lock locks)) :
    (Effect.lock locks).Permitted pid w ∧ p'.Holds S pid (w.apply pid (.lock locks)) := by
  cases pc with
  | authenticate =>
    simp only [ConfirmTotp.step] at h
    split at h <;> cases h
  | readTotp =>
    simp only [ConfirmTotp.step] at h
    split at h
    · cases h
    · split at h <;> cases h
  | flushTotp record counter confirmedAt =>
    simp only [ConfirmTotp.step, Table.locate_eq_some] at h
    obtain ⟨o, ho, he⟩ := h
    cases ho with
    | miss => cases he
    | hit hr _ hf =>
      cases he
      refine ⟨⟨by simp, by simp, fun _ _ => hf, by simp⟩, ?_, Table.ownsAll_nil⟩
      exact fun k hk => ⟨_, hr ▸ Table.owns_acquireAll hk⟩
  | deleteCodes record counter confirmedAt b =>
    rw [ConfirmTotp.step] at h
    rcases sound_deleteRecoveryCodes hp.2 h with ⟨codes, rfl, ha⟩ | ⟨b', _, rfl, rfl, hper, ho⟩
    · cases ha
    · refine ⟨hper, ?_, ho⟩
      exact (Table.acquireAll_nil w.userTotpSecrets pid).symm ▸ hp.1

theorem DisableTotp.sound {token : Token} {password : Password} {code : Code}
    {pc : DisableTotp.Pc} (hp : DisableTotp.Holds pid w pc)
    (h : DisableTotp.step S pid token password code w pc = some (p', .lock locks)) :
    (Effect.lock locks).Permitted pid w ∧ p'.Holds S pid (w.apply pid (.lock locks)) := by
  cases pc with
  | authenticate | readTotp | readRecovery =>
    simp only [DisableTotp.step] at h
    split at h <;> cases h
  | flushRecovery user record hash =>
    simp only [DisableTotp.step, Table.locate_eq_some] at h
    obtain ⟨o, ho, he⟩ := h
    cases ho with
    | miss => cases he
    | hit hr _ hf =>
      cases he
      refine ⟨⟨by simp, by simp, by simp, by simpa using hf⟩, ?_⟩
      intro k hk
      obtain rfl := List.mem_singleton.mp hk
      exact ⟨_, hr ▸ Table.owns_acquireAll hk⟩
  | flushUser user record factor =>
    simp only [DisableTotp.step, Table.locate_eq_some] at h
    obtain ⟨o, ho, he⟩ := h
    cases ho with
    | miss => cases he
    | hit hr _ hf =>
      cases he
      refine ⟨⟨fun _ _ => hf, by simp, by simp, by simp⟩, ?_, ?_⟩
      · exact (Table.acquireAll_nil w.mfaRecoveryCodes pid).symm ▸ hp
      · exact fun k hk => ⟨_, hr ▸ Table.owns_acquireAll hk⟩
  | flushTotp user record factor =>
    simp only [DisableTotp.step, Table.locate_eq_some] at h
    obtain ⟨o, -, he⟩ := h
    cases o <;> cases he

theorem Playback.not_lock {token : Token} {pc : Playback.Pc} :
    Playback.step S token w pc ≠ some (p', .lock locks) := by
  intro h
  cases pc with
  | authenticate =>
    simp only [Playback.step] at h
    split at h <;> cases h
  | mint => cases h

/-- A statement that takes no lock hands on what the request owns. -/
theorem Login.holds_skip {req : LoginRequest} {pc : Login.Pc}
    (h : Login.step S pid req w pc = some (p', .skip)) : p'.Holds S pid w := by
  cases pc with
  | readUser =>
    simp only [Login.step] at h
    split at h
    · cases h
    · split at h <;> cases h
      trivial
  | lockTotp user =>
    simp only [Login.step, Table.locate_eq_some] at h
    obtain ⟨o, -, he⟩ := h
    cases o with
    | none => cases he; trivial
    | some => dsimp only at he; split at he <;> cases he
  | lockRecovery user code =>
    simp only [Login.step, Table.locate_eq_some] at h
    obtain ⟨o, -, he⟩ := h
    cases o <;> cases he
  | issueTokens => cases h

theorem Refresh.holds_skip {token : Token} {pc : Refresh.Pc}
    (h : Refresh.step S pid token w a pc = some (p', .skip)) : p'.Holds S pid w := by
  cases pc with
  | readUser =>
    simp only [Refresh.step] at h
    split at h <;> cases h
    trivial
  | lockSession user =>
    simp only [Refresh.step, Table.locate_eq_some] at h
    obtain ⟨o, -, he⟩ := h
    cases o with
    | none => cases he
    | some =>
      dsimp only at he
      split at he
      · cases he
      · split at he <;> cases he
  | rotate => cases h
  | revokeSessions user b =>
    rw [Refresh.step] at h
    obtain ⟨sessions, rfl, ha⟩ := finished_of_revokeRefreshSessions h (by rintro _ ⟨⟩)
    simp only [flushSessionVersion, Table.locate_eq_some] at ha
    obtain ⟨o, -, he⟩ := ha
    cases o <;> cases he

theorem Logout.holds_skip {token : Token} {pc : Logout.Pc}
    (h : Logout.step pid token w a pc = some (p', .skip)) : p'.Holds S pid w := by
  cases pc with
  | authenticate =>
    simp only [Logout.step] at h
    split at h <;> cases h
    exact Table.ownsAll_nil
  | revokeSessions user b =>
    rw [Logout.step] at h
    obtain ⟨sessions, rfl, ha⟩ := finished_of_revokeRefreshSessions h (by rintro _ ⟨⟩)
    simp only [flushSessionVersion, Table.locate_eq_some] at ha
    obtain ⟨o, -, he⟩ := ha
    cases o <;> cases he

theorem ResetPassword.holds_skip {password : Password} {pc : ResetPassword.Pc}
    (h : ResetPassword.step pid password w a pc = some (p', .skip)) : p'.Holds S pid w := by
  cases pc with
  | lockUser =>
    simp only [ResetPassword.step, Table.locate_eq_some] at h
    obtain ⟨o, -, he⟩ := h
    cases o with
    | none => cases he
    | some => dsimp only at he; split at he <;> cases he
  | revokeSessions user b =>
    rw [ResetPassword.step] at h
    obtain ⟨sessions, rfl, ha⟩ := finished_of_revokeRefreshSessions h (by rintro _ ⟨⟩)
    cases ha

theorem DeleteMyAccount.holds_skip {token : Token} {pc : DeleteMyAccount.Pc}
    (hp : DeleteMyAccount.Holds pid w pc)
    (h : DeleteMyAccount.step pid token w a pc = some (p', .skip)) : p'.Holds S pid w := by
  cases pc with
  | authenticate =>
    simp only [DeleteMyAccount.step] at h
    split at h <;> cases h
    trivial
  | flushUser user =>
    simp only [DeleteMyAccount.step, Table.locate_eq_some] at h
    obtain ⟨o, -, he⟩ := h
    cases o <;> cases he
  | revokeSessions user b =>
    rw [DeleteMyAccount.step] at h
    obtain ⟨sessions, rfl, ha⟩ := finished_of_revokeRefreshSessions h (by rintro _ ⟨⟩)
    cases ha
    exact ⟨hp.1, hp.2, Table.ownsAll_nil⟩
  | deleteCodes user sessions b =>
    rw [DeleteMyAccount.step] at h
    obtain ⟨codes, rfl, ha⟩ := finished_of_deleteRecoveryCodes h (by rintro _ ⟨⟩)
    simp only [Table.locate_eq_some] at ha
    obtain ⟨o, -, he⟩ := ha
    cases he

theorem ConfirmTotp.holds_skip {token : Token} {code : Code} {pc : ConfirmTotp.Pc}
    (h : ConfirmTotp.step S pid token code w a pc = some (p', .skip)) : p'.Holds S pid w := by
  cases pc with
  | authenticate =>
    simp only [ConfirmTotp.step] at h
    split at h <;> cases h
    trivial
  | readTotp =>
    simp only [ConfirmTotp.step] at h
    split at h
    · cases h
    · split at h <;> cases h
      trivial
  | flushTotp =>
    simp only [ConfirmTotp.step, Table.locate_eq_some] at h
    obtain ⟨o, -, he⟩ := h
    cases o <;> cases he
  | deleteCodes =>
    rw [ConfirmTotp.step] at h
    obtain ⟨codes, rfl, ha⟩ := finished_of_deleteRecoveryCodes h (by rintro _ ⟨⟩)
    cases ha

theorem DisableTotp.holds_skip {token : Token} {password : Password} {code : Code}
    {pc : DisableTotp.Pc}
    (h : DisableTotp.step S pid token password code w pc = some (p', .skip)) :
    p'.Holds S pid w := by
  cases pc with
  | authenticate | readRecovery =>
    simp only [DisableTotp.step] at h
    split at h <;> cases h
    trivial
  | readTotp =>
    simp only [DisableTotp.step] at h
    split at h <;> cases h
    split
    · exact Table.ownsAll_nil
    · trivial
  | flushRecovery | flushUser | flushTotp =>
    simp only [DisableTotp.step, Table.locate_eq_some] at h
    obtain ⟨o, -, he⟩ := h
    cases o <;> cases he

theorem SetupTotp.holds_skip {token : Token} {pc : SetupTotp.Pc}
    (h : SetupTotp.step pid token w pc = some (p', .skip)) : p'.Holds S pid w := by
  rcases SetupTotp.proc_of_step h with rfl | ⟨pc', rfl⟩
  · trivial
  · trivial

theorem Playback.holds_skip {token : Token} {pc : Playback.Pc}
    (h : Playback.step S token w pc = some (p', .skip)) : p'.Holds S pid w := by
  cases pc with
  | authenticate =>
    simp only [Playback.step] at h
    split at h <;> cases h
    trivial
  | mint => cases h

theorem holds_skip (hp : p.Holds S pid w) (h : p.turn S pid a w = some (p', .skip)) :
    p'.Holds S pid w := by
  cases p with
  | login => exact Login.holds_skip h
  | refresh => exact Refresh.holds_skip h
  | logout => exact Logout.holds_skip h
  | resetPassword => exact ResetPassword.holds_skip h
  | deleteMyAccount => exact DeleteMyAccount.holds_skip hp h
  | confirmTotp => exact ConfirmTotp.holds_skip h
  | disableTotp => exact DisableTotp.holds_skip h
  | setupTotp => exact SetupTotp.holds_skip h
  | playback => exact Playback.holds_skip h
  | clock => cases a <;> cases h
  | done => cases h

theorem clock_of_tick {n : ℕ} (h : p.step S pid a w = some (p', .tick n)) :
    p = .clock ∧ p' = .clock := by
  rw [step_of_ne_error (by rintro rfl; cases (step_error h).2)] at h
  cases p with
  | clock => cases a <;> cases h; exact ⟨rfl, rfl⟩
  | done => cases h
  | login req pc =>
    cases pc <;> simp only [Proc.turn, Login.step, Table.locate_eq_some] at h <;> grind
  | refresh token pc =>
    cases pc <;> simp only [Proc.turn, Refresh.step, Table.locate_eq_some] at h <;>
      grind [revokeRefreshSessions_eq_some, flushSessionVersion, Table.locate_eq_some]
  | logout token pc =>
    cases pc <;> simp only [Proc.turn, Logout.step] at h <;>
      grind [revokeRefreshSessions_eq_some, flushSessionVersion, Table.locate_eq_some]
  | resetPassword password pc =>
    cases pc <;> simp only [Proc.turn, ResetPassword.step, Table.locate_eq_some] at h <;>
      grind [revokeRefreshSessions_eq_some]
  | deleteMyAccount token pc =>
    cases pc <;> simp only [Proc.turn, DeleteMyAccount.step, Table.locate_eq_some] at h <;>
      grind [revokeRefreshSessions_eq_some, deleteRecoveryCodes_eq_some, Table.locate_eq_some]
  | setupTotp token pc =>
    rcases pc with _ | _ | (_ | _) <;>
      simp only [Proc.turn, SetupTotp.step, Table.locate_eq_some] at h <;> grind
  | confirmTotp token code pc =>
    cases pc <;> simp only [Proc.turn, ConfirmTotp.step, Table.locate_eq_some] at h <;>
      grind [deleteRecoveryCodes_eq_some]
  | disableTotp token password code pc =>
    cases pc <;> simp only [Proc.turn, DisableTotp.step, Table.locate_eq_some] at h <;> grind
  | playback token pc =>
    cases pc <;> simp only [Proc.turn, Playback.step] at h <;> grind

/-- **Turns are sound.** -/
theorem Proc.step_sound (hw : w.Drawn) (hp : p.Holds S pid w)
    (h : p.step S pid a w = some (p', f)) :
    f.Permitted pid w ∧ p'.Holds S pid (w.apply pid f) := by
  cases f with
  | commit tx =>
    obtain ⟨rfl, hc⟩ := commits_of_step h
    exact ⟨hc.permitted hw hp, trivial⟩
  | skip =>
    rw [step_of_ne_error (by rintro rfl; cases (step_error h).2)] at h
    exact ⟨trivial, holds_skip hp h⟩
  | tick n =>
    obtain ⟨rfl, rfl⟩ := clock_of_tick h
    exact ⟨trivial, trivial⟩
  | lock locks =>
    rw [step_of_ne_error (by rintro rfl; cases (step_error h).2)] at h
    cases p with
    | login => exact Login.sound h
    | refresh => exact Refresh.sound hp h
    | logout => exact Logout.sound hp h
    | resetPassword => exact ResetPassword.sound hp h
    | deleteMyAccount => exact DeleteMyAccount.sound hp h
    | setupTotp => exact (SetupTotp.not_lock h).elim
    | confirmTotp => exact ConfirmTotp.sound hp h
    | disableTotp => exact DisableTotp.sound hp h
    | playback => exact (Playback.not_lock h).elim
    | clock => cases a <;> cases h
    | done => cases h

end Steps

/-- What holds of the processes and the world in every run. -/
structure State.Sound (S : Settings) (c : State) : Prop where
  drawn : c.world.Drawn
  holds : ∀ i, (c.procs i).Holds S i c.world

theorem State.Sound.after {c : State} {i : Pid} (hc : c.Sound S)
    (hs : (c.procs i).step S i a c.world = some (p, f)) : (c.after i p f).Sound S where
  drawn := hc.drawn.step hs
  holds k := by
    obtain ⟨hper, hown⟩ := Proc.step_sound hc.drawn (hc.holds i) hs
    by_cases hk : k = i
    · subst hk
      rw [State.procs_after]
      exact hown
    · rw [State.procs_after_of_ne _ _ _ _ hk]
      exact (hc.holds k).of_respects (apply_respects hper) hk

theorem Deployed.sound {c : State} (h : Deployed c) : c.Sound S :=
  ⟨h.world.drawn, fun i => (h.fresh i).holds⟩

/-- **What a request owns.** -/
theorem sound_of_reach {init : State → Prop} (hinit : ∀ c, init c → c.Sound S)
    {ok : State → Pid → Answer → Prop} {c : State} (h : (system S).Reach init ok c) :
    c.Sound S := by
  refine h.invariant hinit fun c c' i a hc _ hn => ?_
  obtain ⟨p, f, hs, rfl⟩ := next_eq_some.mp hn
  exact hc.after hs

end NextBallUp.Auth
