import NextBallUp.Auth.Revocation

/-!
# Rotation of refresh tokens

A refresh consumes its session and puts another in its place. A token whose session is no longer
live must not be presented: when it is, all sessions of the user are revoked.

## Main definitions

* `SingleUse`: what a history may look like
* `Proc.IsSessionRequest`: refresh, logout, password reset and account deletion
* `RotatesUnderCurrentVersion`: the session version is still the one the refresh has loaded

## Main results

* `singleUse_of_reach`: if every rotation is committed under the session version that was loaded,
  refresh tokens are single-use
* `exists_not_singleUse`: a refresh can succeed after a replay with a token issued before it
-/

namespace NextBallUp.Auth

variable {S : Settings} {pid : Pid} {a : Answer} {p p' : Proc} {w w' : World} {tx : Tx} {f : Effect}
  {jti : Jti} {older : List Event}

/-! ### Histories -/

/-- The refresh token of the session was issued before a replay. -/
def IssuedBeforeReplay (jti : Jti) : List Event → Prop
  | [] => False
  | .replayed _ :: older =>
    (∃ t, .issued t ∈ older ∧ t.type = .refresh ∧ t.jti = jti) ∨ IssuedBeforeReplay jti older
  | _ :: older => IssuedBeforeReplay jti older

/-- A session is consumed only if it has been neither consumed nor revoked before, and only if its
token was not issued before a replay. -/
def SingleUse : List Event → Prop
  | [] => True
  | .rotated jti _ :: older =>
    (∀ successor, .rotated jti successor ∉ older) ∧ .revoked jti ∉ older ∧
      ¬ IssuedBeforeReplay jti older ∧ SingleUse older
  | _ :: older => SingleUse older

/-- The event ends the life of the session. -/
def Event.Ends (jti : Jti) : Event → Prop
  | .rotated jti' _ | .revoked jti' => jti' = jti
  | _ => False

theorem exists_replayed_of_issuedBeforeReplay (h : IssuedBeforeReplay jti older) :
    ∃ jti', .replayed jti' ∈ older := by
  induction older with
  | nil => exact h.elim
  | cons e older ih =>
    cases e with
    | replayed jti' => exact ⟨jti', List.mem_cons_self⟩
    | _ =>
      obtain ⟨jti', hm⟩ := ih h
      exact ⟨jti', List.mem_cons_of_mem _ hm⟩

theorem singleUse_append (events : List Event) (he : ∀ jti s, Event.rotated jti s ∉ events)
    (h : SingleUse older) : SingleUse (events ++ older) := by
  induction events with
  | nil => exact h
  | cons e events ih =>
    have ih := ih fun jti s hm => he jti s (List.mem_cons_of_mem _ hm)
    cases e with
    | rotated jti s => exact (he jti s List.mem_cons_self).elim
    | _ => exact ih

/-! ### The requests and the condition -/

/-- The requests that rotate or revoke sessions. -/
def Proc.IsSessionRequest : Proc → Prop
  | .refresh .. | .logout .. | .resetPassword .. | .deleteMyAccount .. | .clock | .done => True
  | _ => False

/-- A run of such requests begins. -/
structure DeployedSessions (c : State) : Prop extends Deployed c where
  kinds : ∀ i, (c.procs i).IsSessionRequest

/-- The user as a refresh that is about to commit its rotation has loaded it. -/
def Proc.rotatesAs : Proc → Option User
  | .refresh _ (.rotate user) => some user
  | _ => none

/-- A refresh that commits its rotation finds the session version as it has loaded it. -/
def RotatesUnderCurrentVersion (c : State) (i : Pid) (a : Answer) : Prop :=
  a ≠ .error → ∀ loaded ∈ (c.procs i).rotatesAs, ∀ user ∈ c.world.user?,
    user.sessionVersion = loaded.sessionVersion

instance (c : State) (i : Pid) (a : Answer) : Decidable (RotatesUnderCurrentVersion c i a) :=
  inferInstanceAs (Decidable (_ → _))

/-! ### The token of a refresh -/

/-- A refresh that has loaded the user has been let in by a token of the session version it has
loaded. -/
def Proc.IsLetIn (w : World) : Proc → Prop
  | .refresh token (.lockSession user) | .refresh token (.rotate user)
  | .refresh token (.revokeSessions user _) =>
    .issued token ∈ w.history ∧ token.sv = user.sessionVersion
  | _ => True

theorem issued_of_userOfToken {type : TokenType} {t : Token} {user : User}
    (h : userOfToken w type t = some user) :
    .issued t ∈ w.history ∧ t.sv = user.sessionVersion := by
  simp only [userOfToken, decodes, Option.ite_none_right_eq_some, Option.filter_eq_some_iff,
    decide_eq_true_eq] at h
  exact ⟨h.1.1, h.2.2.2⟩

theorem Proc.IsLetIn.apply (h : p.IsLetIn w) : p.IsLetIn (w.apply pid f) := by
  cases p with
  | refresh token pc =>
    cases pc with
    | readUser => trivial
    | lockSession | rotate | revokeSessions => exact ⟨history_subset_apply w pid f h.1, h.2⟩
  | _ => trivial

theorem isLetIn_of_step (hk : p.IsSessionRequest) (hp : p.IsLetIn w)
    (h : p.step S pid a w = some (p', f)) : p'.IsSessionRequest ∧ p'.IsLetIn w := by
  by_cases ha : a = .error
  · subst ha
    obtain ⟨rfl, -⟩ := step_error h
    exact ⟨trivial, trivial⟩
  rw [step_of_ne_error ha] at h
  cases p with
  | clock => cases a <;> cases h; exact ⟨trivial, trivial⟩
  | done => cases h
  | refresh token pc =>
    cases pc <;> simp only [Proc.turn, Refresh.step, Table.locate_eq_some] at h <;>
      grind [Proc.IsSessionRequest, Proc.IsLetIn, issued_of_userOfToken,
        revokeRefreshSessions_eq_some, flushSessionVersion, Table.locate_eq_some]
  | logout token pc =>
    cases pc <;> simp only [Proc.turn, Logout.step] at h <;>
      grind [Proc.IsSessionRequest, Proc.IsLetIn, revokeRefreshSessions_eq_some,
        flushSessionVersion, Table.locate_eq_some]
  | resetPassword password pc =>
    cases pc <;> simp only [Proc.turn, ResetPassword.step, Table.locate_eq_some] at h <;>
      grind [Proc.IsSessionRequest, Proc.IsLetIn, revokeRefreshSessions_eq_some]
  | deleteMyAccount token pc =>
    cases pc <;> simp only [Proc.turn, DeleteMyAccount.step, Table.locate_eq_some] at h <;>
      grind [Proc.IsSessionRequest, Proc.IsLetIn, revokeRefreshSessions_eq_some,
        deleteRecoveryCodes_eq_some, Table.locate_eq_some]
  | login | setupTotp | confirmTotp | disableTotp | playback => exact hk.elim

/-! ### Ended sessions -/

/-- A session that is not live, or none. -/
def IsEnded (o : Option RefreshSession) : Prop := ∀ s, o = some s → s.revokedAt ≠ none

theorem isEnded_map {g : RefreshSession → RefreshSession} (hg : ∀ s, (g s).revokedAt ≠ none)
    (o : Option RefreshSession) : IsEnded (o.map g) := by
  intro s hs
  obtain ⟨s, -, rfl⟩ := Option.map_eq_some_iff.mp hs
  exact hg s

/-- A session that has been consumed or revoked is not live, and its identifier will not be drawn
again. -/
def World.EndedStay (w : World) : Prop :=
  ∀ jti, ∀ e ∈ w.history, e.Ends jti →
    jti < w.uuid ∧ IsEnded (w.refreshSessions.row jti)

/-- The sessions that a commit says it ends are stored as ended. -/
theorem Commits.ended (h : Commits S pid w p tx) (hp : p.Holds S pid w) {e : Event}
    (he : e ∈ tx.events) (hj : e.Ends jti) :
    w.refreshSessions.row jti ≠ none ∧
      ∃ g : RefreshSession → RefreshSession, (jti, Option.map g) ∈ tx.refreshSessions ∧
        ∀ s, (g s).revokedAt ≠ none := by
  have revoked {now : Time} {reason : RevokedReason} {sessions : List Jti}
      (ho : w.refreshSessions.OwnsAll pid sessions) (he : e ∈ sessions.map Event.revoked) :
      w.refreshSessions.row jti ≠ none ∧
        ∃ g : RefreshSession → RefreshSession,
          (jti, Option.map g) ∈ revocations now reason sessions ∧ ∀ s, (g s).revokedAt ≠ none := by
    obtain ⟨jti', hm, rfl⟩ := List.mem_map.mp he
    obtain rfl : jti' = jti := hj
    obtain ⟨s, hs⟩ := ho jti' hm
    exact ⟨by simp [hs.2], _, List.mem_map.mpr ⟨jti', hm, rfl⟩, fun s => Option.some_ne_none _⟩
  cases h with
  | @signIn _ _ factor =>
    rcases factor with _ | ⟨⟩ | ⟨⟩ <;>
      simp only [Login.signIn, Login.useFactor, List.nil_append, List.cons_append, List.mem_cons,
        List.not_mem_nil, or_false] at he <;>
      rcases he with rfl | rfl | rfl <;> exact hj.elim
  | @rotation token =>
    simp only [Refresh.rotation, List.mem_cons, List.not_mem_nil, or_false] at he
    obtain ⟨s, hs, -⟩ := hp
    rcases he with rfl | rfl | rfl
    · obtain rfl : token.jti = jti := hj
      exact ⟨by simp [hs.2], _, List.mem_cons_self, fun s => Option.some_ne_none _⟩
    · exact hj.elim
    · exact hj.elim
  | @expiry token _ s hs =>
    obtain rfl := List.mem_singleton.mp he
    obtain rfl : token.jti = jti := hj
    exact ⟨by simp [hs], _, List.mem_singleton_self _, fun s => Option.some_ne_none _⟩
  | replay =>
    rcases List.mem_append.mp he with he | he
    · obtain rfl := List.mem_singleton.mp he
      exact hj.elim
    · exact revoked hp he
  | logout => exact revoked hp he
  | reset => exact revoked hp.2 he
  | erase => exact revoked hp.2.1 he
  | rollback | overwritten | inserted => cases he
  | confirmed | disabled | minted =>
    obtain rfl := List.mem_singleton.mp he
    exact hj.elim

theorem World.EndedStay.step (hw : w.EndedStay) (hd : w.Drawn) (hp : p.Holds S pid w)
    (h : p.step S pid a w = some (p', f)) : (w.apply pid f).EndedStay := by
  cases f with
  | skip | lock | tick => exact hw
  | commit tx =>
    have hc := (commits_of_step h).2
    intro jti e he hj
    -- Every alteration of the row of a drawn session leaves it ended, if it was.
    have keeps (hlt : jti < w.uuid) :
        ∀ x ∈ tx.refreshSessions, x.1 = jti → ∀ o, IsEnded o → IsEnded (x.2 o) := by
      rintro x hx rfl o -
      rcases hc.session_cases hx with ⟨rfl, -⟩ | ⟨g, hg, hg'⟩
      · exact (Nat.lt_irrefl _ hlt).elim
      · exact hg ▸ isEnded_map hg' o
    rcases List.mem_append.mp he with he | he
    · obtain ⟨hn, g, hg, hg'⟩ := hc.ended hp he hj
      have hlt := hd.jtis jti hn
      exact ⟨Nat.lt_add_right _ hlt,
        Table.row_alterAll_of_mem (Q := IsEnded) hg (isEnded_map hg') (keeps hlt)⟩
    · obtain ⟨hlt, hrow⟩ := hw jti e he hj
      exact ⟨Nat.lt_add_right _ hlt,
        Table.row_alterAll_of_keeps (Q := IsEnded) hrow (keeps hlt)⟩

/-! ### Runs -/

/-- A request that rotates or revokes sessions issues tokens only as a refresh. -/
theorem Commits.issued_of_isSessionRequest (h : Commits S pid w p tx) (hk : p.IsSessionRequest)
    {t : Token} (ht : .issued t ∈ tx.events) :
    ∃ token user, p = .refresh token (.rotate user) ∧ t.sv = user.sessionVersion := by
  obtain ⟨user, hl, hv⟩ := h.issued ht
  cases h with
  | @rotation token user' =>
    obtain rfl := Option.some.inj hl
    exact ⟨token, user', rfl, hv⟩
  | signIn | overwritten | inserted | confirmed | disabled | minted => exact hk.elim
  | rollback => cases ht
  | expiry => simp [Refresh.expiry] at ht
  | replay | logout => simp [revokeAndBump] at ht
  | reset => simp [ResetPassword.reset] at ht
  | erase => simp [DeleteMyAccount.erase] at ht

/-- A replay stores a new session version. -/
theorem Commits.replayed (h : Commits S pid w p tx) (hm : .replayed jti ∈ tx.events) :
    ∃ loaded ∈ p.loaded, ∀ user ∈ (w.commit pid tx).user?,
      user.sessionVersion = loaded.sessionVersion + 1 := by
  cases h with
  | @replay _ user =>
    refine ⟨user, rfl, fun user' hu' => ?_⟩
    obtain ⟨row, -, rfl⟩ := Option.map_eq_some_iff.mp hu'
    rfl
  | @signIn _ _ factor =>
    rcases factor with _ | ⟨⟩ | ⟨⟩ <;> simp [Login.signIn, Login.useFactor] at hm
  | rollback | overwritten | inserted => cases hm
  | rotation => simp [Refresh.rotation] at hm
  | expiry => simp [Refresh.expiry] at hm
  | logout => simp [revokeAndBump] at hm
  | reset => simp [ResetPassword.reset] at hm
  | erase => simp [DeleteMyAccount.erase] at hm
  | confirmed => simp [ConfirmTotp.confirmed] at hm
  | disabled => simp [DisableTotp.disabled] at hm
  | minted => simp [Playback.minted] at hm

/-- A commit that consumes a session is that of a refresh. -/
theorem Commits.rotated {successor : Jti} (h : Commits S pid w p tx)
    (hm : .rotated jti successor ∈ tx.events) :
    ∃ token user, p = .refresh token (.rotate user) ∧ tx = Refresh.rotation S token w user := by
  cases h with
  | @rotation token user => exact ⟨token, user, rfl, rfl⟩
  | @signIn _ _ factor =>
    rcases factor with _ | ⟨⟩ | ⟨⟩ <;> simp [Login.signIn, Login.useFactor] at hm
  | rollback | overwritten | inserted => cases hm
  | expiry => simp [Refresh.expiry] at hm
  | replay | logout => simp [revokeAndBump] at hm
  | reset => simp [ResetPassword.reset] at hm
  | erase => simp [DeleteMyAccount.erase] at hm
  | confirmed => simp [ConfirmTotp.confirmed] at hm
  | disabled => simp [DisableTotp.disabled] at hm
  | minted => simp [Playback.minted] at hm

/-- What holds throughout a run in which the session version was `v` at the beginning: every token
is of that version or an earlier one, every version that a request has loaded is at least that,
and after a replay the stored one is larger. -/
structure Rotating (S : Settings) (v : ℕ) (c : State) : Prop where
  sound : c.Sound S
  kinds : ∀ i, (c.procs i).IsSessionRequest
  letIn : ∀ i, (c.procs i).IsLetIn c.world
  ended : c.world.EndedStay
  user : c.world.user? ≠ none
  issued : ∀ t, .issued t ∈ c.world.history → t.sv ≤ v
  loaded : ∀ i, ∀ u ∈ (c.procs i).loaded, v ≤ u.sessionVersion
  stored : ∀ user ∈ c.world.user?, v ≤ user.sessionVersion
  replayed : ∀ jti, .replayed jti ∈ c.world.history →
    ∀ user ∈ c.world.user?, v < user.sessionVersion
  singleUse : SingleUse c.world.history

/-- A rotation under the current session version keeps the history single-use. -/
theorem Rotating.singleUse_rotation {c : State} {v : ℕ} {i : Pid} {token : Token} {user : User}
    (hc : Rotating S v c) (hp : c.procs i = .refresh token (.rotate user))
    (hv : ∀ u ∈ c.world.user?, u.sessionVersion = user.sessionVersion) :
    SingleUse ((Refresh.rotation S token c.world user).events ++ c.world.history) := by
  have hown := hc.sound.holds i
  have hin := hc.letIn i
  rw [hp] at hown hin
  obtain ⟨s, ⟨-, hrow⟩, hlive⟩ := hown
  obtain ⟨htoken, hsv⟩ := hin
  -- The session is live, so nothing has ended it.
  have notEnded (e : Event) (he : e ∈ c.world.history) : ¬ e.Ends token.jti := fun hj =>
    (hc.ended token.jti e he hj).2 s hrow hlive
  have notReplayed : ¬ IssuedBeforeReplay token.jti c.world.history := by
    intro hb
    obtain ⟨jti, hm⟩ := exists_replayed_of_issuedBeforeReplay hb
    obtain ⟨u, hu⟩ := Option.ne_none_iff_exists'.mp hc.user
    have h₁ := hc.replayed jti hm u hu
    have h₂ := hc.issued token htoken
    have h₃ := hv u hu
    omega
  change SingleUse (.rotated token.jti c.world.uuid :: .issued (accessToken S c.world user) ::
    .issued (refreshToken S c.world user) :: c.world.history)
  refine ⟨fun successor hm => ?_, fun hm => ?_, notReplayed, hc.singleUse⟩
  · simp only [List.mem_cons, reduceCtorEq, false_or] at hm
    exact notEnded _ hm rfl
  · simp only [List.mem_cons, reduceCtorEq, false_or] at hm
    exact notEnded _ hm rfl

/-- A commit leaves the session version alone and reports no replay, or it stores a version later
than the first one. -/
theorem Rotating.stored_commit {c : State} {v : ℕ} {i : Pid} (hc : Rotating S v c)
    (h : Commits S i c.world (c.procs i) tx) :
    ((c.world.commit i tx).user? = c.world.user? ∧ ∀ jti, .replayed jti ∉ tx.events) ∨
      ∀ user ∈ (c.world.commit i tx).user?, v < user.sessionVersion := by
  by_cases hr : ∃ jti, .replayed jti ∈ tx.events
  · obtain ⟨jti, hm⟩ := hr
    obtain ⟨loaded, hl, hv⟩ := h.replayed hm
    exact .inr fun user hu => hv user hu ▸ Nat.lt_succ_of_le (hc.loaded i loaded hl)
  rcases h.user_cases with hk | ⟨loaded, hw, g, hg, hv⟩
  · exact .inl ⟨hk, fun jti hm => hr ⟨jti, hm⟩⟩
  · right
    intro user hu
    rw [hg] at hu
    obtain ⟨row, -, rfl⟩ := Option.map_eq_some_iff.mp hu
    exact hv row ▸ Nat.lt_succ_of_le (hc.loaded i loaded (Proc.loaded_of_writesFrom hw))

theorem Rotating.after {c : State} {v : ℕ} {i : Pid} (hc : Rotating S v c)
    (hok : RotatesUnderCurrentVersion c i a)
    (hs : (c.procs i).step S i a c.world = some (p, f)) : Rotating S v (c.after i p f) := by
  have kindLetIn := isLetIn_of_step (hc.kinds i) (hc.letIn i) hs
  obtain ⟨user, hu⟩ := Option.ne_none_iff_exists'.mp hc.user
  -- What the request has loaded, and what a commit stores.
  have loadedOk : ∀ u ∈ p.loaded, v ≤ u.sessionVersion := by
    intro u hm
    rcases loaded_of_step hs with hl | hl | hl <;> rw [hl] at hm
    · cases hm
    · exact hc.loaded i u hm
    · exact hc.stored u hm
  constructor
  · exact hc.sound.after hs
  · intro k
    by_cases hk : k = i
    · subst hk
      rw [State.procs_after]
      exact kindLetIn.1
    · rw [State.procs_after_of_ne _ _ _ _ hk]
      exact hc.kinds k
  · intro k
    by_cases hk : k = i
    · subst hk
      rw [State.procs_after]
      exact kindLetIn.2.apply
    · rw [State.procs_after_of_ne _ _ _ _ hk]
      exact (hc.letIn k).apply
  · exact hc.ended.step hc.sound.drawn (hc.sound.holds i) hs
  · exact user_ne_none_of_step hs hc.user
  · intro t ht
    cases f with
    | skip | lock | tick => exact hc.issued t ht
    | commit tx =>
      rcases List.mem_append.mp ht with ht | ht
      · obtain ⟨token, u, hp, hv⟩ :=
          (commits_of_step hs).2.issued_of_isSessionRequest (hc.kinds i) ht
        have hin := hc.letIn i
        rw [hp] at hin
        rw [hv, ← hin.2]
        exact hc.issued token hin.1
      · exact hc.issued t ht
  · intro k u hm
    by_cases hk : k = i
    · subst hk
      rw [State.procs_after] at hm
      exact loadedOk u hm
    · rw [State.procs_after_of_ne _ _ _ _ hk] at hm
      exact hc.loaded k u hm
  · intro user' hu'
    cases f with
    | skip | lock | tick => exact hc.stored user' hu'
    | commit tx =>
      rcases hc.stored_commit (commits_of_step hs).2 with ⟨hk, -⟩ | hlt
      · exact hc.stored user' (hk.symm.trans hu')
      · exact Nat.le_of_lt (hlt user' hu')
  · intro jti hm user' hu'
    cases f with
    | skip | lock | tick => exact hc.replayed jti hm user' hu'
    | commit tx =>
      rcases hc.stored_commit (commits_of_step hs).2 with ⟨hk, hn⟩ | hlt
      · refine hc.replayed jti ?_ user' (hk.symm.trans hu')
        exact (List.mem_append.mp hm).resolve_left (hn jti)
      · exact hlt user' hu'
  · cases f with
    | skip | lock | tick => exact hc.singleUse
    | commit tx =>
      by_cases hr : ∃ jti successor, .rotated jti successor ∈ tx.events
      · obtain ⟨jti, successor, hm⟩ := hr
        obtain ⟨token, loaded, hp, rfl⟩ := (commits_of_step hs).2.rotated hm
        refine hc.singleUse_rotation hp fun u hu => hok ?_ loaded (by rw [hp]; rfl) u hu
        rintro rfl
        cases (step_error hs).2
      · exact singleUse_append _ (fun jti s hm => hr ⟨jti, s, hm⟩) hc.singleUse

theorem DeployedSessions.rotating {c : State} (h : DeployedSessions c) :
    ∃ v, Rotating S v c := by
  obtain ⟨user, hu⟩ := Option.ne_none_iff_exists'.mp h.world.user
  have only {e : Event} (he : e ∈ c.world.history) :
      (∃ t, e = .issued t) ∨ ∃ jti, e = .revoked jti := h.world.history e he
  refine ⟨user.sessionVersion, h.sound, h.kinds, fun i => ?_, fun jti e he hj => ?_, h.world.user,
    fun t ht => (h.world.issued t ht).2 user hu, fun i u hl => ?_, fun u hu' => ?_,
    fun jti hm => ?_, ?_⟩
  · have hfresh := h.fresh i
    revert hfresh
    generalize c.procs i = p
    unfold Proc.IsLetIn
    split <;> simp [Proc.IsFresh]
  · rcases only he with ⟨t, rfl⟩ | ⟨jti', rfl⟩
    · exact hj.elim
    · obtain rfl : jti' = jti := hj
      obtain ⟨s, hs, hr⟩ := (h.world.revoked jti').mp he
      refine ⟨h.world.jtis jti' (by simp [hs]), fun s' hs' => ?_⟩
      obtain rfl := Option.some.inj (hs.symm.trans hs')
      exact hr
  · rw [(h.fresh i).loaded] at hl
    cases hl
  · obtain rfl := Option.some.inj (hu.symm.trans hu')
    exact Nat.le_refl _
  · rcases only hm with ⟨t, ht⟩ | ⟨jti', ht⟩ <;> cases ht
  · have hs : SingleUse (c.world.history ++ []) :=
      singleUse_append _ (fun jti s hm => ?_) trivial
    · rwa [List.append_nil] at hs
    · rcases only hm with ⟨t, ht⟩ | ⟨jti', ht⟩ <;> cases ht

/-- **Refresh tokens are single-use**, in every run in which a rotation is committed only under the
session version that the refresh has loaded. -/
theorem singleUse_of_reach {c : State}
    (h : (system S).Reach DeployedSessions RotatesUnderCurrentVersion c) :
    SingleUse c.world.history := by
  obtain ⟨v, hv⟩ := h.invariant (Q := fun c => ∃ v, Rotating S v c) (fun c hc => hc.rotating)
    fun c c' i a ⟨v, hc⟩ hok hn => by
      obtain ⟨p, f, hs, rfl⟩ := next_eq_some.mp hn
      exact ⟨v, hc.after hok hs⟩
  exact hv.singleUse

/-! ### A rotation during a replay -/

/-- The refresh token of the registration, and those of the sessions that replace its session. -/
def refreshTokenOf (jti : Jti) : Token := ⟨.refresh, 1, jti, 604800⟩

/-- Four refreshes: with the first token, with the second, with the first again, and with the
third. -/
def fourRefreshes : State :=
  registered .plain .coach 5 [.refresh (refreshTokenOf 0) .readUser,
    .refresh (refreshTokenOf 2) .readUser, .refresh (refreshTokenOf 0) .readUser,
    .refresh (refreshTokenOf 4) .readUser]

theorem deployedSessions_fourRefreshes : DeployedSessions fourRefreshes := by
  have hkinds : ∀ i, (fourRefreshes.procs i).IsSessionRequest
    | 0 | 1 | 2 | 3 => trivial
    | i + 4 => by simp [fourRefreshes, registered, Proc.IsSessionRequest]
  exact ⟨deployed_registered (by simp [Proc.IsFresh]), hkinds⟩

/-- **A rotation, and then a replay.** The second token is refused after the replay. -/
theorem exists_singleUse :
    ∃ c : State, SingleUse c.world.history ∧ .rotated 0 2 ∈ c.world.history ∧
      .replayed 0 ∈ c.world.history ∧ userOfToken c.world .refresh (refreshTokenOf 2) = none := by
  obtain ⟨c, h, hb⟩ := Machine.exists_reach_of_exec (system .plain) RotatesUnderCurrentVersion
    deployedSessions_fourRefreshes
    (List.replicate 3 (0, .ok) ++ [(2, .ok), (2, .ok), (2, .snapshot [2]), (2, .ok), (2, .ok)])
    (fun c => .rotated 0 2 ∈ c.world.history ∧ .replayed 0 ∈ c.world.history ∧
      userOfToken c.world .refresh (refreshTokenOf 2) = none) (by decide +kernel)
  rw [decide_eq_true_eq] at hb
  exact ⟨c, singleUse_of_reach h, hb⟩

/-- **A rotation during a replay.** While the first token is being replayed, a refresh with the
second token replaces its session. The replay does not see the new session, and the third token,
whose refresh has loaded the user before the replay commits, is accepted after it. -/
theorem exists_not_singleUse :
    ∃ c : State, (system .plain).Reach DeployedSessions Machine.Always c ∧
      ¬ SingleUse c.world.history := by
  obtain ⟨c, h, hb⟩ := Machine.exists_reach_of_exec (system .plain) Machine.Always
    deployedSessions_fourRefreshes
    (List.replicate 3 (0, .ok) ++ [(1, .ok), (1, .ok)] ++
      [(2, .ok), (2, .ok), (2, .snapshot [2]), (1, .ok), (2, .ok), (3, .ok), (2, .ok)] ++
      [(3, .ok), (3, .ok)])
    (fun c => c.world.history.take 4 = [.rotated 4 6, .issued ⟨.access, 1, 7, 900⟩,
      .issued (refreshTokenOf 6), .replayed 0] ∧
      .issued (refreshTokenOf 4) ∈ c.world.history.drop 4) (by decide +kernel)
  simp only [Bool.decide_and, Bool.and_eq_true, decide_eq_true_eq] at hb
  refine ⟨c, h, fun hs => ?_⟩
  rw [← List.take_append_drop 4 c.world.history, hb.1] at hs
  exact hs.2.2.1 (.inl ⟨_, hb.2, rfl, rfl⟩)

end NextBallUp.Auth
