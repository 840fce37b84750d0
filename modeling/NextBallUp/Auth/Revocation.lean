import NextBallUp.Auth.Locks

/-!
# Revocation

The session version of the user revokes every token of an earlier one. A request that raises it
writes one more than the value it loaded, which need not be the value that is stored by then.

## Main definitions

* `RevocationIsFinal`: between two moments the session version has not decreased, and no token that
  it had rejected is accepted
* `Proc.writesFrom`: the user whose session version the next turn of a request adds one to
* `WritesNoOlderVersion`: the write does not take the session version back

## Main results

* `revocationIsFinal_of_reach`: if no write takes the session version back, revocation is final
* `exists_not_revocationIsFinal`: three overlapping requests can revive a token
-/

namespace NextBallUp.Auth

variable {S : Settings} {pid : Pid} {a : Answer} {p p' : Proc} {w w' : World} {tx : Tx} {f : Effect}

/-- The session version of `w` revokes the token. -/
def Revokes (w : World) (t : Token) : Prop :=
  ∃ user, w.user? = some user ∧ t.sv ≠ user.sessionVersion

/-- Between `w` and `w'` the session version has not decreased, and no token that `w` revokes is
accepted in `w'`. -/
def RevocationIsFinal (w w' : World) : Prop :=
  (∀ user ∈ w.user?, ∀ user' ∈ w'.user?, user.sessionVersion ≤ user'.sessionVersion) ∧
    ∀ t, .issued t ∈ w.history → Revokes w t → ∀ type, userOfToken w' type t = none

/-- The user that the next turn of the request takes the session version of, to store one more. -/
def Proc.writesFrom (w : World) : Proc → Option User
  | .refresh _ (.revokeSessions user (.finished _)) | .logout _ (.revokeSessions user (.finished _))
  | .resetPassword _ (.revokeSessions user (.finished _))
  | .deleteMyAccount _ (.deleteCodes user _ (.finished _)) => some user
  | .disableTotp _ _ _ (.flushTotp user record _) =>
    if w.totp?.any record.IsRow then some user else none
  | _ => none

/-- A request that stores a session version has loaded one that is smaller by at most one than the
one it overwrites. -/
def WritesNoOlderVersion (c : State) (i : Pid) (a : Answer) : Prop :=
  a ≠ .error → ∀ loaded ∈ (c.procs i).writesFrom c.world, ∀ user ∈ c.world.user?,
    user.sessionVersion ≤ loaded.sessionVersion + 1

instance (c : State) (i : Pid) (a : Answer) : Decidable (WritesNoOlderVersion c i a) :=
  inferInstanceAs (Decidable (_ → _))

/-! ### What is loaded and what is written -/

/-- The user as the request has loaded it. -/
def Proc.loaded : Proc → Option User
  | .login _ (.lockTotp user) | .login _ (.lockRecovery user _) | .login _ (.issueTokens user _)
  | .refresh _ (.lockSession user) | .refresh _ (.rotate user) | .refresh _ (.revokeSessions user _)
  | .logout _ (.revokeSessions user _) | .resetPassword _ (.revokeSessions user _)
  | .deleteMyAccount _ (.flushUser user) | .deleteMyAccount _ (.revokeSessions user _)
  | .deleteMyAccount _ (.deleteCodes user _ _) | .disableTotp _ _ _ (.readTotp user)
  | .disableTotp _ _ _ (.readRecovery user _) | .disableTotp _ _ _ (.flushRecovery user _ _)
  | .disableTotp _ _ _ (.flushUser user _ _) | .disableTotp _ _ _ (.flushTotp user _ _)
  | .playback _ (.mint user) => some user
  | _ => none

theorem user_of_userOfToken {type : TokenType} {t : Token} {user : User}
    (h : userOfToken w type t = some user) : w.user? = some user := by
  simp only [userOfToken, Option.ite_none_right_eq_some, Option.filter_eq_some_iff] at h
  exact h.2.1

theorem user_of_filter {type : TokenType} {t : Token} {q : User → Bool} {user : User}
    (h : (userOfToken w type t).filter q = some user) : w.user? = some user :=
  user_of_userOfToken (Option.filter_eq_some_iff.mp h).1

/-- A turn keeps the user that has been loaded, drops it, or loads the user as stored. -/
theorem loaded_of_step (h : p.step S pid a w = some (p', f)) :
    p'.loaded = none ∨ p'.loaded = p.loaded ∨ p'.loaded = w.user? := by
  by_cases ha : a = .error
  · subst ha
    obtain ⟨rfl, -⟩ := step_error h
    exact .inl rfl
  rw [step_of_ne_error ha] at h
  cases p with
  | clock => cases a <;> cases h; exact .inl rfl
  | done => cases h
  | login req pc =>
    cases pc <;> simp only [Proc.turn, Login.step, Table.locate_eq_some] at h <;>
      grind [Proc.loaded]
  | refresh token pc =>
    cases pc <;> simp only [Proc.turn, Refresh.step, Table.locate_eq_some] at h <;>
      grind [Proc.loaded, user_of_userOfToken, revokeRefreshSessions_eq_some, flushSessionVersion,
        Table.locate_eq_some]
  | logout token pc =>
    cases pc <;> simp only [Proc.turn, Logout.step] at h <;>
      grind [Proc.loaded, user_of_userOfToken, revokeRefreshSessions_eq_some, flushSessionVersion,
        Table.locate_eq_some]
  | resetPassword password pc =>
    cases pc <;> simp only [Proc.turn, ResetPassword.step, Table.locate_eq_some] at h <;>
      grind [Proc.loaded, World.user?, Table.located_some, revokeRefreshSessions_eq_some]
  | deleteMyAccount token pc =>
    cases pc <;> simp only [Proc.turn, DeleteMyAccount.step, Table.locate_eq_some] at h <;>
      grind [Proc.loaded, user_of_userOfToken, revokeRefreshSessions_eq_some,
        deleteRecoveryCodes_eq_some, Table.locate_eq_some]
  | setupTotp token pc =>
    rcases pc with _ | _ | (_ | _) <;>
      simp only [Proc.turn, SetupTotp.step, Table.locate_eq_some] at h <;> grind [Proc.loaded]
  | confirmTotp token code pc =>
    cases pc <;> simp only [Proc.turn, ConfirmTotp.step, Table.locate_eq_some] at h <;>
      grind [Proc.loaded, deleteRecoveryCodes_eq_some]
  | disableTotp token password code pc =>
    cases pc <;> simp only [Proc.turn, DisableTotp.step, Table.locate_eq_some] at h <;>
      grind [Proc.loaded, user_of_filter]
  | playback token pc =>
    cases pc <;> simp only [Proc.turn, Playback.step] at h <;>
      grind [Proc.loaded, user_of_userOfToken]

theorem Proc.loaded_of_writesFrom {user : User} (h : p.writesFrom w = some user) :
    p.loaded = some user := by
  unfold Proc.writesFrom at h
  split at h
  · exact h
  · exact h
  · exact h
  · exact h
  · split at h <;> cases h
    rfl
  · cases h

/-- A commit leaves the row of the user alone, or stores one more than the session version that
was loaded. -/
theorem Commits.user_cases (h : Commits S pid w p tx) :
    (w.commit pid tx).user? = w.user? ∨ ∃ user ∈ p.writesFrom w,
      ∃ g : User → User, (w.commit pid tx).user? = w.user?.map g ∧
        ∀ row, (g row).sessionVersion = user.sessionVersion + 1 := by
  cases h with
  | replay | logout | reset | erase => exact .inr ⟨_, rfl, _, rfl, fun _ => rfl⟩
  | disabled hr hrow => exact .inr ⟨_, by simp [Proc.writesFrom, hr, hrow], _, rfl, fun _ => rfl⟩
  | @signIn _ _ factor => rcases factor with _ | ⟨⟩ | ⟨⟩ <;> exact .inl rfl
  | rollback | rotation | expiry | overwritten | inserted | confirmed | minted => exact .inl rfl

/-- Tokens are issued under the session version that was loaded. -/
theorem Commits.issued (h : Commits S pid w p tx) {t : Token} (ht : .issued t ∈ tx.events) :
    ∃ user, p.loaded = some user ∧ t.sv = user.sessionVersion := by
  have revoked {sessions : List Jti} : Event.issued t ∉ sessions.map Event.revoked := by simp
  cases h with
  | @signIn _ user factor =>
    refine ⟨user, rfl, ?_⟩
    have hu : Event.issued t ∉ (Login.useFactor S w factor).events := by
      rcases factor with _ | ⟨⟩ | ⟨⟩ <;> simp [Login.useFactor]
    simp only [Login.signIn, List.mem_append, hu, false_or, List.mem_cons, Event.issued.injEq,
      List.not_mem_nil, or_false] at ht
    rcases ht with rfl | rfl <;> rfl
  | @rotation _ user =>
    refine ⟨user, rfl, ?_⟩
    simp only [Refresh.rotation, List.mem_cons, reduceCtorEq, false_or, Event.issued.injEq,
      List.not_mem_nil, or_false] at ht
    rcases ht with rfl | rfl <;> rfl
  | @minted _ user =>
    obtain rfl := Event.issued.inj (List.mem_singleton.mp ht)
    exact ⟨user, rfl, rfl⟩
  | replay | logout => simp [revokeAndBump] at ht
  | reset => exact (revoked ht).elim
  | erase => exact (revoked ht).elim
  | rollback | expiry | overwritten | inserted | confirmed | disabled =>
    simp [Refresh.expiry, SetupTotp.overwritten, SetupTotp.inserted, ConfirmTotp.confirmed,
      DisableTotp.disabled] at ht

theorem Proc.IsFresh.loaded (h : p.IsFresh) : p.loaded = none := by
  revert h
  unfold Proc.loaded
  split <;> simp [Proc.IsFresh]

/-! ### The session version bounds every other -/

/-- No token that has been issued, and no request, knows of a later session version than the one
that is stored. -/
structure Versioned (c : State) : Prop where
  issued : ∀ t, .issued t ∈ c.world.history → ∀ user ∈ c.world.user?, t.sv ≤ user.sessionVersion
  loaded : ∀ i, ∀ u ∈ (c.procs i).loaded, ∀ user ∈ c.world.user?,
    u.sessionVersion ≤ user.sessionVersion

theorem Deployed.versioned {c : State} (h : Deployed c) : Versioned c where
  issued t ht := (h.world.issued t ht).2
  loaded i u hu := by
    rw [(h.fresh i).loaded] at hu
    cases hu

/-- What a turn that satisfies the condition does to the session version. -/
theorem version_le_of_step {c : State} {i : Pid} (hok : WritesNoOlderVersion c i a)
    (hs : (c.procs i).step S i a c.world = some (p, f)) :
    ∀ user ∈ c.world.user?, ∀ user' ∈ (c.world.apply i f).user?,
      user.sessionVersion ≤ user'.sessionVersion := by
  intro user hu user' hu'
  cases f with
  | skip | lock | tick =>
    obtain rfl := Option.some.inj (hu.symm.trans hu')
    exact Nat.le_refl _
  | commit tx =>
    have kept (hk : (c.world.commit i tx).user? = c.world.user?) :
        user.sessionVersion ≤ user'.sessionVersion := by
      obtain rfl := Option.some.inj (hu.symm.trans (hk.symm.trans hu'))
      exact Nat.le_refl _
    by_cases ha : a = .error
    · subst ha
      cases (step_error hs).2
      exact kept rfl
    · rcases (commits_of_step hs).2.user_cases with hk | ⟨loaded, hl, g, hg, hv⟩
      · exact kept hk
      · change (c.world.commit i tx).user? = some user' at hu'
        rw [hg, Option.mem_def.mp hu, Option.map_some, Option.some.injEq] at hu'
        rw [← hu', hv]
        exact hok ha loaded hl user hu

/-- The row of the user is never deleted. -/
theorem user_ne_none_of_step (hs : p.step S pid a w = some (p', f)) (h : w.user? ≠ none) :
    (w.apply pid f).user? ≠ none := by
  cases f with
  | skip | lock | tick => exact h
  | commit tx =>
    change (w.commit pid tx).user? ≠ none
    rcases (commits_of_step hs).2.user_cases with hk | ⟨_, -, g, hg, -⟩
    · rw [hk]
      exact h
    · rw [hg, ne_eq, Option.map_eq_none_iff]
      exact h

theorem Versioned.after {c : State} {i : Pid} (hc : Versioned c) (hu : c.world.user? ≠ none)
    (hok : WritesNoOlderVersion c i a) (hs : (c.procs i).step S i a c.world = some (p, f)) :
    Versioned (c.after i p f) := by
  obtain ⟨user, hu⟩ := Option.ne_none_iff_exists'.mp hu
  have hle := version_le_of_step hok hs user hu
  constructor
  · intro t ht user' hu'
    cases f with
    | skip | lock | tick => exact hc.issued t ht user' hu'
    | commit tx =>
      refine Nat.le_trans ?_ (hle user' hu')
      rcases List.mem_append.mp ht with ht | ht
      · obtain ⟨loaded, hl, hv⟩ := (commits_of_step hs).2.issued ht
        exact hv ▸ hc.loaded i loaded hl user hu
      · exact hc.issued t ht user hu
  · intro k u hk user' hu'
    refine Nat.le_trans ?_ (hle user' hu')
    by_cases hki : k = i
    · subst hki
      rw [State.procs_after] at hk
      rcases loaded_of_step hs with hl | hl | hl <;> rw [hl] at hk
      · cases hk
      · exact hc.loaded k u hk user hu
      · obtain rfl := Option.some.inj (hk.symm.trans hu)
        exact Nat.le_refl _
    · rw [State.procs_after_of_ne _ _ _ _ hki] at hk
      exact hc.loaded k u hk user hu

/-! ### Runs -/

/-- What holds in every run all of whose turns satisfy the condition. -/
theorem versioned_of_reach {init : State → Prop}
    (hinit : ∀ c, init c → Versioned c ∧ c.world.user? ≠ none) {c : State}
    (h : (system S).Reach init WritesNoOlderVersion c) : Versioned c ∧ c.world.user? ≠ none := by
  refine h.invariant hinit fun c c' i a hc hok hn => ?_
  obtain ⟨p, f, hs, rfl⟩ := next_eq_some.mp hn
  exact ⟨hc.1.after hc.2 hok hs, user_ne_none_of_step hs hc.2⟩

/-- Over a run that satisfies the condition the session version does not decrease. -/
theorem version_le_of_reach {c c' : State} (hu : c.world.user? ≠ none)
    (h : (system S).Reach (· = c) WritesNoOlderVersion c') :
    ∀ user ∈ c.world.user?, ∀ user' ∈ c'.world.user?,
      user.sessionVersion ≤ user'.sessionVersion := by
  intro user hm
  obtain ⟨user₀, hu⟩ := Option.ne_none_iff_exists'.mp hu
  refine (h.invariant (Q := fun d => d.world.user? ≠ none ∧ ∀ user' ∈ d.world.user?,
    user.sessionVersion ≤ user'.sessionVersion) ?_ fun d d' i a hd hok hn => ?_).2
  · rintro _ rfl
    refine ⟨by simp [hu], fun user' hu' => ?_⟩
    obtain rfl := Option.some.inj (hm.symm.trans hu')
    exact Nat.le_refl _
  · obtain ⟨p, f, hs, rfl⟩ := next_eq_some.mp hn
    refine ⟨user_ne_none_of_step hs hd.1, fun user' hu' => ?_⟩
    obtain ⟨user₁, hu₁⟩ := Option.ne_none_iff_exists'.mp hd.1
    exact Nat.le_trans (hd.2 user₁ hu₁) (version_le_of_step hok hs user₁ hu₁ user' hu')

/-- **Revocation is final.** -/
theorem revocationIsFinal_of_reach {c c' : State}
    (h : (system S).Reach Deployed WritesNoOlderVersion c)
    (h' : (system S).Reach (· = c) WritesNoOlderVersion c') :
    RevocationIsFinal c.world c'.world := by
  obtain ⟨hc, hu⟩ := versioned_of_reach (fun c hc => ⟨hc.versioned, hc.world.user⟩) h
  have hle := version_le_of_reach hu h'
  refine ⟨hle, fun t ht hr type => ?_⟩
  obtain ⟨user, hm, hne⟩ := hr
  have hlt : t.sv < user.sessionVersion := Nat.lt_of_le_of_ne (hc.issued t ht user hm) hne
  rw [Option.eq_none_iff_forall_ne_some]
  intro user' hacc
  simp only [userOfToken, Option.ite_none_right_eq_some, Option.filter_eq_some_iff,
    decide_eq_true_eq] at hacc
  obtain ⟨-, hu', -, hsv⟩ := hacc
  exact Nat.not_lt.mpr (hle user hm user' hu') (hsv ▸ hlt)

/-! ### Three overlapping requests -/

/-- The access token of the first login, after the session version has become two. -/
def loginToken : Token := ⟨.access, 2, 3, 900⟩

/-- A logout: it authenticates, sees these sessions, locks them and commits. -/
def logoutTurns (i : Pid) (sessions : List Jti) : List (Pid × Answer) :=
  (i, .ok) :: (i, .snapshot sessions) :: List.replicate (sessions.length + 1) (i, .ok)

/-- Two logouts with the token of the registration, a login, and a logout with its token. -/
def threeLogouts : State :=
  registered .plain .coach 5 [.logout registrationToken .authenticate,
    .logout registrationToken .authenticate, .login ⟨5, none⟩ .readUser,
    .logout loginToken .authenticate]

theorem deployed_threeLogouts : Deployed threeLogouts := by
  refine deployed_registered ?_
  simp [Proc.IsFresh]

/-- The second logout, the login and the third logout, one after the other. -/
def oneAfterTheOther : List (Pid × Answer) :=
  logoutTurns 1 [0] ++ List.replicate 3 (2, .ok) ++ logoutTurns 3 [2]

/-- **Requests that do not overlap.** -/
theorem exists_revocationIsFinal :
    ∃ c c' : State, RevocationIsFinal c.world c'.world ∧ Revokes c.world registrationToken ∧
      c'.world.user? = some ⟨.coach, some 5, true, 3⟩ := by
  obtain ⟨c, c', h, h', hb⟩ := Machine.exists_reach_reach_of_exec (system .plain)
    WritesNoOlderVersion deployed_threeLogouts (logoutTurns 1 [0])
    (List.replicate 3 (2, .ok) ++ logoutTurns 3 [2])
    (fun c c' => c.world.user? = some ⟨.coach, some 5, true, 2⟩ ∧
      c'.world.user? = some ⟨.coach, some 5, true, 3⟩) (by decide +kernel)
  simp only [Bool.decide_and, Bool.and_eq_true, decide_eq_true_eq] at hb
  exact ⟨c, c', revocationIsFinal_of_reach h h', ⟨_, hb.1, by decide⟩, hb.2⟩

/-- **A revived token.** The first logout has loaded the session version one. The others make it
two and three, and then the first one stores two. -/
theorem exists_not_revocationIsFinal :
    ∃ c c' : State, (system .plain).Reach Deployed Machine.Always c ∧
      (system .plain).Reach (· = c) Machine.Always c' ∧ ¬ RevocationIsFinal c.world c'.world := by
  obtain ⟨c, c', h, h', hb⟩ := Machine.exists_reach_reach_of_exec (system .plain)
    Machine.Always deployed_threeLogouts ((0, .ok) :: oneAfterTheOther)
    [(0, .snapshot []), (0, .ok)]
    (fun c c' => c.world.user? = some ⟨.coach, some 5, true, 3⟩ ∧
      .issued loginToken ∈ c.world.history ∧
      userOfToken c'.world .access loginToken = some ⟨.coach, some 5, true, 2⟩)
    (by decide +kernel)
  simp only [Bool.decide_and, Bool.and_eq_true, decide_eq_true_eq] at hb
  obtain ⟨hu, hi, hacc⟩ := hb
  refine ⟨c, c', h, h', fun hfinal => ?_⟩
  have hnone := hfinal.2 loginToken hi ⟨_, hu, by decide⟩ .access
  rw [hnone] at hacc
  cases hacc

end NextBallUp.Auth
