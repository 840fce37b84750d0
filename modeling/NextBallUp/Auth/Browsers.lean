import NextBallUp.Auth.ApiClient

/-!
# The tokens of the browsers

A refresh token that is presented twice gets the user signed out everywhere. A page that keeps its
refreshes apart presents the token in its jar, which its last refresh has put there, and so never
one that has been consumed, unless a response was lost or another page uses the same jar.

## Main definitions

* `Spent`, `Ended`: a session that a refresh has consumed, or that is not live for any reason
* `OnlyRevokedReplayed`: what a history may look like
* `Owned`: the invariant, under which every token belongs to one browser

## Main results

* `onlyRevokedReplayed_of_reach`: if every page has a browser to itself and no response to a refresh
  is lost, a replay is only found of a session that was revoked, and never of one that a refresh
  has consumed
* `exists_replayed_of_two_pages`, `exists_replayed_of_lost`: neither can be left out
-/

namespace NextBallUp.Auth.ApiClient

/-! ### What the server can do -/

section Server

variable {S : Settings} {pid : Pid} {a : Answer} {p p' : Proc} {w : World} {tx : Tx} {f : Effect}
  {jti : Jti} {t : Token}

/-- A refresh has consumed the session. -/
def Spent (w : World) (jti : Jti) : Prop := ∃ successor, .rotated jti successor ∈ w.history

/-- The session has been consumed or revoked. -/
def Ended (w : World) (jti : Jti) : Prop := ∃ e ∈ w.history, e.Ends jti

theorem revoked_of_ended (h : Ended w jti) (hs : ¬ Spent w jti) : .revoked jti ∈ w.history := by
  obtain ⟨e, he, hj⟩ := h
  cases e with
  | rotated jti' successor =>
    obtain rfl : jti' = jti := hj
    exact (hs ⟨successor, he⟩).elim
  | revoked jti' =>
    obtain rfl : jti' = jti := hj
    exact he
  | issued | replayed | accepted => exact hj.elim

theorem Ended.apply (h : Ended w jti) : Ended (w.apply pid f) jti := by
  obtain ⟨e, he, hj⟩ := h
  exact ⟨e, history_subset_apply w pid f he, hj⟩

/-- A refresh revokes all sessions only after it has found its own session ended. -/
def Refresh.Follows (w : World) (token : Token) (pc : Refresh.Pc) : Refresh.Pc → Prop
  | .revokeSessions .. =>
    (∃ user b, pc = .revokeSessions user b) ∨
      ∃ s, w.refreshSessions.row token.jti = some s ∧ s.revokedAt ≠ none
  | _ => True

/-- Only a refresh goes on as a refresh, and with the same token. -/
theorem refresh_of_step {pc' : Refresh.Pc} (h : p.step S pid a w = some (.refresh t pc', f)) :
    ∃ pc, p = .refresh t pc ∧ Refresh.Follows w t pc pc' := by
  by_cases ha : a = .error
  · subst ha
    cases (step_error h).1
  rw [step_of_ne_error ha] at h
  cases p with
  | refresh token pc =>
    cases pc <;> simp only [Proc.turn, Refresh.step, Table.locate_eq_some] at h <;>
      grind [Refresh.Follows, Table.located_some, revokeRefreshSessions_eq_some,
        flushSessionVersion, Table.locate_eq_some]
  | clock => cases a <;> cases h
  | done => cases h
  | login req pc =>
    cases pc <;> simp only [Proc.turn, Login.step, Table.locate_eq_some] at h <;> grind
  | logout token pc =>
    cases pc <;> simp only [Proc.turn, Logout.step] at h <;>
      grind [revokeRefreshSessions_eq_some, flushSessionVersion, Table.locate_eq_some]
  | resetPassword password pc =>
    cases pc <;> simp only [Proc.turn, ResetPassword.step, Table.locate_eq_some] at h <;>
      grind [revokeRefreshSessions_eq_some]
  | deleteMyAccount token pc =>
    cases pc <;> simp only [Proc.turn, DeleteMyAccount.step, Table.locate_eq_some] at h <;>
      grind [revokeRefreshSessions_eq_some, deleteRecoveryCodes_eq_some, Table.locate_eq_some]
  | setupTotp token pc =>
    rcases SetupTotp.proc_of_step h with he | ⟨_, he⟩ <;> cases he
  | confirmTotp token code pc =>
    cases pc <;> simp only [Proc.turn, ConfirmTotp.step, Table.locate_eq_some] at h <;>
      grind [deleteRecoveryCodes_eq_some]
  | disableTotp token password code pc =>
    cases pc <;> simp only [Proc.turn, DisableTotp.step, Table.locate_eq_some] at h <;> grind
  | playback token pc =>
    cases pc <;> simp only [Proc.turn, Playback.step] at h <;> grind

theorem issued_of_set (h : setCookie p tx = .set t) : .issued t ∈ tx.events := by
  have issued (ho : issuedRefreshToken tx = some t) : .issued t ∈ tx.events := by
    obtain ⟨e, he, hi⟩ := List.exists_of_findSome?_eq_some ho
    cases e with
    | issued t' =>
      simp only [Option.ite_none_right_eq_some, Option.some.injEq] at hi
      exact hi.2 ▸ he
    | rotated | revoked | replayed | accepted => cases hi
  cases p with
  | login | refresh =>
    simp only [setCookie] at h
    split at h
    · cases h
      exact issued ‹_›
    · cases h
  | logout | resetPassword | deleteMyAccount =>
    simp only [setCookie] at h
    split at h <;> cases h
  | setupTotp | confirmTotp | disableTotp | playback | clock | done => cases h

/-- A response sets the cookie to a token under the identifier that has just been drawn. -/
theorem set_of_commits (h : Commits S pid w p tx) (hs : setCookie p tx = .set t) :
    t.jti = w.uuid ∧ tx.draws = 2 := by
  cases h with
  | @signIn req user factor =>
    have he : setCookie (.login req (.issueTokens user factor)) (Login.signIn S w user factor) =
        .set (refreshToken S w user) := by
      rcases factor with _ | ⟨⟩ | ⟨⟩ <;> rfl
    obtain rfl := SetCookie.set.inj (he.symm.trans hs)
    exact ⟨rfl, rfl⟩
  | @rotation token user =>
    obtain rfl : refreshToken S w user = t := SetCookie.set.inj hs
    exact ⟨rfl, rfl⟩
  | rollback => cases p <;> cases hs
  | expiry | overwritten | inserted | confirmed | disabled | minted | logout | reset | erase =>
    cases hs
  | replay =>
    have hm := issued_of_set hs
    simp [revokeAndBump] at hm

/-- A commit that consumes a session is that of a refresh, which sets the cookie. -/
theorem spent_commit (h : Commits S pid w p tx) (hs : Spent (w.commit pid tx) jti) :
    Spent w jti ∨ ∃ token pc successor,
      p = .refresh token pc ∧ token.jti = jti ∧ setCookie p tx = .set successor := by
  obtain ⟨successor, hm⟩ := hs
  rcases List.mem_append.mp hm with hm | hm
  · obtain ⟨token, user, rfl, rfl⟩ := h.rotated hm
    simp only [Refresh.rotation, List.mem_cons, Event.rotated.injEq, reduceCtorEq, or_false,
      List.not_mem_nil] at hm
    exact .inr ⟨token, _, refreshToken S w user, rfl, hm.1.symm, rfl⟩
  · exact .inl ⟨successor, hm⟩

/-- What a commit does to a session, it says. -/
theorem ends_of_alters (h : Commits S pid w p tx) {e : Alteration Jti RefreshSession}
    (he : e ∈ tx.refreshSessions) :
    e = createRefreshSession S w ∨ ∃ event ∈ tx.events, event.Ends e.1 := by
  have revoked {now : Time} {reason : RevokedReason} {sessions : List Jti}
      (events : List Event) (he : e ∈ revocations now reason sessions) :
      ∃ event ∈ events ++ sessions.map .revoked, event.Ends e.1 := by
    obtain ⟨jti, hm, rfl⟩ := List.mem_map.mp he
    exact ⟨.revoked jti, List.mem_append_right _ (List.mem_map_of_mem hm), rfl⟩
  cases h with
  | signIn => exact .inl (List.mem_singleton.mp he)
  | rotation =>
    rcases List.mem_cons.mp he with rfl | he
    · exact .inr ⟨_, List.mem_cons_self, rfl⟩
    · exact .inl (List.mem_singleton.mp he)
  | expiry => exact .inr (revoked [] he)
  | replay | logout => exact .inr (revoked _ he)
  | reset | erase => exact .inr (revoked [] he)
  | rollback | overwritten | inserted | confirmed | disabled | minted => cases he

/-- What is told of the sessions that are stored as ended, and of those by which a refresh has been
refused. -/
structure Known (c : State) : Prop where
  rows : ∀ jti s, c.world.refreshSessions.row jti = some s → s.revokedAt ≠ none →
    Ended c.world jti
  procs : ∀ i t user b, c.procs i = .refresh t (.revokeSessions user b) → Ended c.world t.jti

theorem Known.after {c : State} {i : Pid} (hc : Known c)
    (hs : (c.procs i).step S i a c.world = some (p', f)) : Known (c.after i p' f) where
  rows jti s hrow hend := by
    cases f with
    | skip | lock | tick => exact hc.rows jti s hrow hend
    | commit tx =>
      refine Table.row_alterAll_of_keeps (t := c.world.refreshSessions) (k := jti)
        (Q := fun o => ∀ s ∈ o, s.revokedAt ≠ none → Ended (c.world.commit i tx) jti)
        (fun s hs he => (hc.rows jti s hs he).apply (f := .commit tx)) ?_ s hrow hend
      rintro e he rfl o -
      rcases ends_of_alters (commits_of_step hs).2 he with rfl | ⟨event, hm, hj⟩
      · rintro s ⟨⟩ hne
        exact (hne rfl).elim
      · exact fun _ _ _ => ⟨event, List.mem_append_left _ hm, hj⟩
  procs k t user b hk := by
    by_cases hki : k = i
    · subst hki
      rw [State.procs_after] at hk
      subst hk
      obtain ⟨pc, hp, ⟨user', b', rfl⟩ | ⟨s, hrow, hend⟩⟩ := refresh_of_step hs
      · exact (hc.procs k t user' b' hp).apply
      · exact (hc.rows t.jti s hrow hend).apply
    · rw [State.procs_after_of_ne _ _ _ _ hki] at hk
      exact (hc.procs k t user b hk).apply

theorem Known.update {c : State} (hc : Known c) (i : Pid)
    (hp : ∀ t user b, p ≠ .refresh t (.revokeSessions user b)) :
    Known { c with procs := Function.update c.procs i p } where
  rows := hc.rows
  procs k t user b hk := by
    by_cases hki : k = i
    · subst hki
      exact (hp t user b ((Function.update_self ..).symm.trans hk)).elim
    · exact hc.procs k t user b ((Function.update_of_ne hki ..).symm.trans hk)

/-- A replay is only found of a session that was revoked, and that no refresh had consumed. -/
def OnlyRevokedReplayed : List Event → Prop
  | [] => True
  | .replayed jti :: older =>
    .revoked jti ∈ older ∧ (∀ successor, .rotated jti successor ∉ older) ∧
      OnlyRevokedReplayed older
  | _ :: older => OnlyRevokedReplayed older

theorem onlyRevokedReplayed_append {older : List Event} (events : List Event)
    (he : ∀ jti, .replayed jti ∉ events) (h : OnlyRevokedReplayed older) :
    OnlyRevokedReplayed (events ++ older) := by
  induction events with
  | nil => exact h
  | cons e events ih =>
    have ih := ih fun jti hm => he jti (List.mem_cons_of_mem _ hm)
    cases e with
    | replayed jti => exact (he jti List.mem_cons_self).elim
    | issued | rotated | revoked | accepted => exact ih

theorem onlyRevokedReplayed_commit (h : Commits S pid w p tx)
    (hp : ∀ t user b, p = .refresh t (.revokeSessions user b) →
      Ended w t.jti ∧ ¬ Spent w t.jti)
    (hw : OnlyRevokedReplayed w.history) : OnlyRevokedReplayed (w.commit pid tx).history := by
  cases h with
  | @replay token user sessions =>
    obtain ⟨hend, hspent⟩ := hp token user _ rfl
    have hmap : ∀ jti, Event.replayed jti ∉ sessions.map .revoked := by simp
    refine ⟨?_, fun successor hm => ?_, onlyRevokedReplayed_append _ hmap hw⟩
    · exact List.mem_append_right _ (revoked_of_ended hend hspent)
    · rcases List.mem_append.mp hm with hm | hm
      · simp at hm
      · exact hspent ⟨successor, hm⟩
  | @signIn _ _ factor =>
    refine onlyRevokedReplayed_append _ (fun jti hm => ?_) hw
    rcases factor with _ | ⟨⟩ | ⟨⟩ <;> simp [Login.signIn, Login.useFactor] at hm
  | rollback | rotation | expiry | logout | reset | erase | overwritten | inserted | confirmed
  | disabled | minted =>
    refine onlyRevokedReplayed_append _ (fun jti hm => ?_) hw
    simp [Refresh.rotation, Refresh.expiry, revokeAndBump, ResetPassword.reset,
      DeleteMyAccount.erase, SetupTotp.overwritten, SetupTotp.inserted, ConfirmTotp.confirmed,
      DisableTotp.disabled, Playback.minted] at hm

end Server

/-! ### Whose tokens they are -/

section Tokens

variable {P B : Type} {S : Settings} {browser : P → B} {owner : Jti → Option B} {c c' : Web P B}

/-- A response with the token is on its way. -/
def Web.Pending (c : Web P B) (jti : Jti) : Prop :=
  ∃ i p t, c.exchanges i = .replied p (.set t) ∧ t.jti = jti

/-- The response to a refresh is on its way to the browser, with a new token. -/
def Web.Delivers (browser : P → B) (c : Web P B) (b : B) : Prop :=
  ∃ p i t, browser p = b ∧ (c.pages p).refreshInFlight = some i ∧
    c.exchanges i = .replied p (.set t)

/-- Every token has been issued to one browser. It is on its way there, or it is in the jar, from
where the promise in flight may have presented it. One that has been consumed is about to be
replaced. -/
structure Owned (browser : P → B) (owner : Jti → Option B) (c : Web P B) : Prop where
  unused : ∀ i, c.exchanges i = .unused → c.server.procs i = .done
  presented : ∀ i t pc, c.server.procs i = .refresh t pc →
    ∃ p, c.exchanges i = .waiting p ∧ (c.pages p).refreshInFlight = some i ∧
      owner t.jti = some (browser p)
  presentedToken : ∀ i t pc, c.server.procs i = .refresh t pc →
    t.jti < c.server.world.uuid ∧ ¬ Spent c.server.world t.jti ∧ ¬ c.Pending t.jti
  stored : ∀ b t, c.jars b = some t →
    owner t.jti = some b ∧ t.jti < c.server.world.uuid ∧ ¬ c.Pending t.jti
  storedSpent : ∀ b t, c.jars b = some t → Spent c.server.world t.jti → c.Delivers browser b
  sent : ∀ i p t, c.exchanges i = .replied p (.set t) →
    owner t.jti = some (browser p) ∧ t.jti < c.server.world.uuid ∧ ¬ Spent c.server.world t.jti
  once : ∀ i i' p p' t t', c.exchanges i = .replied p (.set t) →
    c.exchanges i' = .replied p' (.set t') → t.jti = t'.jti → i = i'
  drawn : ∀ jti, Spent c.server.world jti → jti < c.server.world.uuid

theorem IsInitial.owned (h : IsInitial c) : ∃ owner, Owned browser owner c := by
  have notRefresh (i : Pid) (t : Token) (pc : Refresh.Pc) : c.server.procs i ≠ .refresh t pc := by
    intro hp
    rcases h.procs i with hi | hi <;> cases hi.symm.trans hp
  have notReplied (i : Pid) (p : P) (cookie : SetCookie) : c.exchanges i ≠ .replied p cookie := by
    intro he
    rcases h.exchanges i with ⟨hi, -⟩ | ⟨ok, hi⟩ <;> cases hi.symm.trans he
  have notSpent (jti : Jti) : ¬ Spent c.server.world jti := by
    rintro ⟨successor, hm⟩
    rcases h.world.history _ hm with ⟨t, ht⟩ | ⟨jti', ht⟩ <;> cases ht
  -- The owner of a token is the browser that holds it.
  classical
  let owner (jti : Jti) : Option B :=
    if hb : ∃ b t, c.jars b = some t ∧ t.jti = jti then some hb.choose else none
  have owner_eq (b : B) (t : Token) (hj : c.jars b = some t) : owner t.jti = some b := by
    have hb : ∃ b t', c.jars b = some t' ∧ t'.jti = t.jti := ⟨b, t, hj, rfl⟩
    obtain ⟨t', hj', ht⟩ := hb.choose_spec
    exact (dif_pos hb).trans (congrArg some (h.distinct _ _ _ _ hj' hj ht))
  refine ⟨owner, ⟨fun i hi => ?_, fun i t pc hp => (notRefresh i t pc hp).elim,
    fun i t pc hp => (notRefresh i t pc hp).elim,
    fun b t hj => ⟨owner_eq b t hj, h.jars b t hj, ?_⟩,
    fun b t _ hs => (notSpent _ hs).elim, fun i p t he => (notReplied i p _ he).elim,
    fun i _ p _ t _ he => (notReplied i p _ he).elim, fun jti hs => (notSpent jti hs).elim⟩⟩
  · rcases h.exchanges i with ⟨-, hd⟩ | ⟨ok, he⟩
    · exact hd
    · cases hi.symm.trans he
  · rintro ⟨i, p, t', he, -⟩
    exact notReplied i p _ he

/-- A page presents a token in one request at a time. -/
theorem Owned.eq_of_presented (h : Owned browser owner c) (hb : Function.Injective browser)
    {i i' : Pid} {t t' : Token} {pc pc' : Refresh.Pc} (hp : c.server.procs i = .refresh t pc)
    (hp' : c.server.procs i' = .refresh t' pc') (ht : t.jti = t'.jti) : i = i' := by
  obtain ⟨p, -, hf, ho⟩ := h.presented i t pc hp
  obtain ⟨p', -, hf', ho'⟩ := h.presented i' t' pc' hp'
  obtain rfl : p = p' := hb (Option.some.inj (by rw [← ho, ← ho', ht]))
  exact Option.some.inj (hf.symm.trans hf')

/-- What there is to show of a step after which the server has the same history and no new token is
on its way. -/
theorem Owned.of_le (h : Owned browser owner c)
    (hhistory : c'.server.world.history = c.server.world.history)
    (huuid : c'.server.world.uuid = c.server.world.uuid)
    (hunused : ∀ i, c'.exchanges i = .unused → c'.server.procs i = .done)
    (hsent : ∀ i p t, c'.exchanges i = .replied p (.set t) → c.exchanges i = .replied p (.set t))
    (hpresented : ∀ i t pc, c'.server.procs i = .refresh t pc →
      (∃ p, c'.exchanges i = .waiting p ∧ (c'.pages p).refreshInFlight = some i ∧
        owner t.jti = some (browser p)) ∧
      t.jti < c.server.world.uuid ∧ ¬ Spent c.server.world t.jti ∧ ¬ c.Pending t.jti)
    (hstored : ∀ b t, c'.jars b = some t →
      owner t.jti = some b ∧ t.jti < c.server.world.uuid ∧ ¬ c'.Pending t.jti ∧
        (Spent c.server.world t.jti → c'.Delivers browser b)) : Owned browser owner c' := by
  have hspent (jti : Jti) : Spent c'.server.world jti ↔ Spent c.server.world jti := by
    rw [Spent, Spent, hhistory]
  have hpending (jti : Jti) : c'.Pending jti → c.Pending jti :=
    fun ⟨i, p, t, he, ht⟩ => ⟨i, p, t, hsent i p t he, ht⟩
  refine ⟨hunused, fun i t pc hp => (hpresented i t pc hp).1, fun i t pc hp => ?_,
    fun b t hj => ?_, fun b t hj hs => ?_, fun i p t he => ?_, fun i i' p p' t t' he he' => ?_,
    fun jti hs => ?_⟩
  · obtain ⟨-, hlt, hs, hn⟩ := hpresented i t pc hp
    exact ⟨huuid ▸ hlt, mt (hspent _).mp hs, mt (hpending _) hn⟩
  · obtain ⟨ho, hlt, hn, -⟩ := hstored b t hj
    exact ⟨ho, huuid ▸ hlt, hn⟩
  · exact (hstored b t hj).2.2.2 ((hspent _).mp hs)
  · obtain ⟨ho, hlt, hs⟩ := h.sent i p t (hsent i p t he)
    exact ⟨ho, huuid ▸ hlt, mt (hspent _).mp hs⟩
  · exact h.once i i' p p' t t' (hsent i p t he) (hsent i' p' t' he')
  · exact huuid ▸ h.drawn jti ((hspent _).mp hs)

section Update

variable {i k : Pid} {e e' : Exchange P}

theorem cases_of_update {α : Type} {g : Pid → α} {x y : α} (h : Function.update g i x k = y) :
    k = i ∧ x = y ∨ k ≠ i ∧ g k = y := by
  by_cases hk : k = i
  · subst hk
    rw [Function.update_self] at h
    exact .inl ⟨rfl, h⟩
  · rw [Function.update_of_ne hk] at h
    exact .inr ⟨hk, h⟩

theorem update_of_exchange (hk : c.exchanges k = e) (hi : c.exchanges i ≠ e) :
    Function.update c.exchanges i e' k = e := by
  rw [Function.update_of_ne (by rintro rfl; exact hi hk)]
  exact hk

theorem replied_of_update {p : P} {t : Token} (hne : ∀ p t, e' ≠ .replied p (.set t))
    (h : Function.update c.exchanges i e' k = .replied p (.set t)) :
    c.exchanges k = .replied p (.set t) := by
  rcases cases_of_update h with ⟨-, he⟩ | ⟨-, he⟩
  · exact (hne p t he).elim
  · exact he

theorem pending_of_update {jti : Jti} (hne : ∀ p t, e' ≠ .replied p (.set t))
    (hc : c'.exchanges = Function.update c.exchanges i e') (h : c'.Pending jti) :
    c.Pending jti := by
  obtain ⟨k, p, t, he, ht⟩ := h
  rw [hc] at he
  exact ⟨k, p, t, replied_of_update hne he, ht⟩

theorem Owned.unused_of_update (h : Owned browser owner c) (he' : e' ≠ .unused)
    (hu : Function.update c.exchanges i e' k = .unused) (proc : Proc) :
    c.server.procs k = .done ∧ Function.update c.server.procs i proc k = .done := by
  rcases cases_of_update hu with ⟨-, he⟩ | ⟨hk, he⟩
  · exact (he' he).elim
  · exact ⟨h.unused k he, (Function.update_of_ne hk ..).trans (h.unused k he)⟩

end Update

/-! ### Requests and connections -/

theorem Owned.request {proc : Proc} {p : P} {i : Pid} (h : Owned browser owner c)
    (hproc : isOther proc = true) (hs : c.request p i proc = some c') :
    Owned browser owner c' := by
  simp only [Web.request] at hs
  split at hs
  case h_2 => cases hs
  rename_i hi
  obtain rfl := Option.some.inj hs
  have hne (q : P) (t : Token) : Exchange.waiting p ≠ .replied q (.set t) := by simp
  refine h.of_le rfl rfl (fun k hu => (h.unused_of_update (by simp) hu proc).2)
    (fun k q t => replied_of_update hne) (fun k t pc ht => ?_) fun b t hj => ?_
  · rcases cases_of_update ht with ⟨-, rfl⟩ | ⟨hk, ht⟩
    · cases hproc
    · obtain ⟨q, he, hf, ho⟩ := h.presented k t pc ht
      exact ⟨⟨q, (Function.update_of_ne hk ..).trans he, hf, ho⟩, h.presentedToken k t pc ht⟩
  · obtain ⟨ho, hlt, hn⟩ := h.stored b t hj
    refine ⟨ho, hlt, mt (pending_of_update hne rfl) hn, fun hs => ?_⟩
    obtain ⟨q, k, t', hq, hf, he⟩ := h.storedSpent b t hj hs
    exact ⟨q, k, t', hq, hf, update_of_exchange he (by simp [hi])⟩

/-- A request that is given up does not matter, unless it is the refresh of its page and the server
has replied. -/
theorem Owned.of_settled (h : Owned browser owner c) {i : Pid} {ok : Bool} {procs : Pid → Proc}
    (hprocs : ∀ k t pc, procs k = .refresh t pc → k ≠ i ∧ c.server.procs k = .refresh t pc)
    (hunused : ∀ k, c.server.procs k = .done → procs k = .done)
    (hi : ∀ p t, c.exchanges i = .replied p (.set t) → (c.pages p).refreshInFlight ≠ some i) :
    Owned browser owner
      { c with
        server := { c.server with procs := procs }
        exchanges := Function.update c.exchanges i (.settled ok) } := by
  have hne (q : P) (t : Token) : Exchange.settled ok ≠ .replied q (.set t) := by simp
  refine h.of_le rfl rfl
    (fun k hu => hunused k (h.unused_of_update (by simp) hu .done).1)
    (fun k q t => replied_of_update hne) (fun k t pc ht => ?_) fun b t hj => ?_
  · obtain ⟨hk, ht⟩ := hprocs k t pc ht
    obtain ⟨q, he, hf, ho⟩ := h.presented k t pc ht
    exact ⟨⟨q, (Function.update_of_ne hk ..).trans he, hf, ho⟩, h.presentedToken k t pc ht⟩
  · obtain ⟨ho, hlt, hn⟩ := h.stored b t hj
    refine ⟨ho, hlt, mt (pending_of_update hne rfl) hn, fun hs => ?_⟩
    obtain ⟨q, k, t', hq, hf, he⟩ := h.storedSpent b t hj hs
    have hk : k ≠ i := by
      rintro rfl
      exact hi q t' he hf
    exact ⟨q, k, t', hq, hf, (Function.update_of_ne hk ..).trans he⟩

/-- A connection may break unless it is that of a refresh. -/
theorem Owned.lose {i : Pid} (h : Owned browser owner c) (hok : Careful c (.lose i))
    (hs : c.lose i = some c') : Owned browser owner c' := by
  have hc' : c' = { c with exchanges := Function.update c.exchanges i (.settled false) } := by
    simp only [Web.lose] at hs
    split at hs <;> cases hs <;> rfl
  subst hc'
  refine h.of_settled (fun k t pc ht => ⟨?_, ht⟩) (fun k => id) fun p t he => ?_
  · rintro rfl
    obtain ⟨p, he, hf, -⟩ := h.presented k t pc ht
    exact hok p (by rw [he]; rfl) hf
  · exact hok p (by rw [he]; rfl)

theorem Owned.drop {i : Pid} (h : Owned browser owner c) (hs : c.drop i = some c') :
    Owned browser owner c' := by
  simp only [Web.drop] at hs
  split at hs
  case h_2 => cases hs
  rename_i p hi
  split at hs
  case isFalse => cases hs
  obtain rfl := Option.some.inj hs
  refine h.of_settled (fun k t pc ht => ?_) (fun k hk => ?_) fun p t he => ?_
  · rcases cases_of_update ht with ⟨-, he⟩ | h
    · cases he
    · exact h
  · by_cases hki : k = i
    · rw [hki, Function.update_self]
    · rw [Function.update_of_ne hki]
      exact hk
  · cases hi.symm.trans he

variable [DecidableEq B] in
/-- The token of a response goes from the way into the jar. -/
theorem Owned.arrive {i : Pid} (h : Owned browser owner c) (hs : c.arrive browser i = some c') :
    Owned browser owner c' := by
  simp only [Web.arrive] at hs
  split at hs
  case h_2 => cases hs
  rename_i p cookie hi
  replace hs := Option.some.inj hs
  have hserver : c'.server = c.server := by rw [← hs]
  have hpages : c'.pages = c.pages := by rw [← hs]
  have hexchanges : c'.exchanges = Function.update c.exchanges i (.settled cookie.ok) := by
    rw [← hs]
  have hjars : c'.jars =
      Function.update c.jars (browser p) (cookie.apply (c.jars (browser p))) := by rw [← hs]
  have hne (q : P) (t : Token) : Exchange.settled cookie.ok ≠ .replied q (.set t) := by simp
  -- A token that was in the jar before.
  have kept {b : B} {t : Token} (hj : c.jars b = some t)
      (hcookie : browser p = b → cookie = .keep) :
      owner t.jti = some b ∧ t.jti < c.server.world.uuid ∧ ¬ c'.Pending t.jti ∧
        (Spent c.server.world t.jti → c'.Delivers browser b) := by
    obtain ⟨ho, hlt, hn⟩ := h.stored b t hj
    refine ⟨ho, hlt, mt (pending_of_update hne hexchanges) hn, fun hs => ?_⟩
    obtain ⟨q, k, t', hq, hf, he⟩ := h.storedSpent b t hj hs
    have hk : k ≠ i := by
      rintro rfl
      obtain ⟨rfl, rfl⟩ := Exchange.replied.inj (hi.symm.trans he)
      cases hcookie hq
    refine ⟨q, k, t', hq, hpages ▸ hf, ?_⟩
    rw [hexchanges, Function.update_of_ne hk]
    exact he
  refine h.of_le (by rw [hserver]) (by rw [hserver]) (fun k hu => ?_) (fun k q t he => ?_)
    (fun k t pc ht => ?_) fun b t hj => ?_
  · rw [hexchanges] at hu
    rw [hserver]
    exact (h.unused_of_update (by simp) hu .done).1
  · rw [hexchanges] at he
    exact replied_of_update hne he
  · rw [hserver] at ht
    obtain ⟨q, he, hf, ho⟩ := h.presented k t pc ht
    refine ⟨⟨q, ?_, hpages ▸ hf, ho⟩, h.presentedToken k t pc ht⟩
    rw [hexchanges]
    exact update_of_exchange he (by simp [hi])
  · rw [hjars] at hj
    by_cases hb : b = browser p
    · subst hb
      rw [Function.update_self] at hj
      cases cookie with
      | keep => exact kept hj fun _ => rfl
      | clear => cases hj
      | set token =>
        obtain rfl := Option.some.inj hj
        obtain ⟨ho, hlt, hn⟩ := h.sent i p token hi
        refine ⟨ho, hlt, ?_, fun hs => (hn hs).elim⟩
        rintro ⟨k, q, t', he, ht⟩
        rw [hexchanges] at he
        rcases cases_of_update he with ⟨-, he⟩ | ⟨hk, he⟩
        · cases he
        · exact hk (h.once k i q p t' token he hi ht)
    · rw [Function.update_of_ne hb] at hj
      exact kept hj fun hp => (hb hp.symm).elim

/-! ### Turns of the server -/

/-- A turn in the middle of a transaction. -/
theorem Owned.turn_of_ne_commit {i : Pid} {a : Answer} {proc : Proc} {f : Effect}
    (h : Owned browser owner c)
    (hs : (c.server.procs i).step S i a c.server.world = some (proc, f))
    (hf : ∀ tx, f ≠ .commit tx) (hserver : c'.server = c.server.after i proc f)
    (hjars : c'.jars = c.jars) (hpages : c'.pages = c.pages)
    (hexchanges : c'.exchanges = c.exchanges) : Owned browser owner c' := by
  have hworld : c'.server.world.history = c.server.world.history ∧
      c'.server.world.uuid = c.server.world.uuid := by
    rw [hserver]
    cases f with
    | skip | lock | tick => exact ⟨rfl, rfl⟩
    | commit tx => exact (hf tx rfl).elim
  -- A refresh was one before the turn.
  have before (k : Pid) (t : Token) (pc : Refresh.Pc) (ht : c'.server.procs k = .refresh t pc) :
      ∃ pc', c.server.procs k = .refresh t pc' := by
    rw [hserver] at ht
    by_cases hk : k = i
    · subst hk
      rw [State.procs_after] at ht
      subst ht
      obtain ⟨pc', hp, -⟩ := refresh_of_step hs
      exact ⟨pc', hp⟩
    · rw [State.procs_after_of_ne _ _ _ _ hk] at ht
      exact ⟨pc, ht⟩
  refine h.of_le hworld.1 hworld.2 (fun k hu => ?_) (fun k q t he => hexchanges ▸ he)
    (fun k t pc ht => ?_) fun b t hj => ?_
  · rw [hexchanges] at hu
    have hd := h.unused k hu
    rw [hserver]
    by_cases hk : k = i
    · subst hk
      rw [hd] at hs
      cases a <;> cases hs
    · rw [State.procs_after_of_ne _ _ _ _ hk]
      exact hd
  · obtain ⟨pc', hp⟩ := before k t pc ht
    obtain ⟨q, he, hf, ho⟩ := h.presented k t pc' hp
    exact ⟨⟨q, hexchanges ▸ he, hpages ▸ hf, ho⟩, h.presentedToken k t pc' hp⟩
  · rw [hjars] at hj
    obtain ⟨ho, hlt, hn⟩ := h.stored b t hj
    refine ⟨ho, hlt, fun ⟨k, q, t', he, ht⟩ => hn ⟨k, q, t', hexchanges ▸ he, ht⟩, fun hs => ?_⟩
    obtain ⟨q, k, t', hq, hf, he⟩ := h.storedSpent b t hj hs
    exact ⟨q, k, t', hq, hpages ▸ hf, hexchanges ▸ he⟩

/-- A token under this identifier would be issued to the browser of the page that waits. -/
def Exchange.issuesTo (browser : P → B) (owner : Jti → Option B) (uuid : Jti) :
    Exchange P → Jti → Option B
  | .waiting p => Function.update owner uuid (some (browser p))
  | _ => owner

theorem owner_of_ne (e : Exchange P) {uuid jti : Jti} (hne : jti ≠ uuid) :
    e.issuesTo browser owner uuid jti = owner jti := by
  cases e with
  | waiting p => exact Function.update_of_ne hne ..
  | unused | replied | settled => rfl

/-- The end of a transaction. The token that it has issued is on its way to the browser that has
asked for it, and the one that it has consumed is in the jar of the same browser at most. -/
theorem Owned.turn_commit (hb : Function.Injective browser) {i : Pid} {tx : Tx}
    (h : Owned browser owner c) (hc : Commits S i c.server.world (c.server.procs i) tx)
    (hserver : c'.server = c.server.after i .done (.commit tx))
    (hjars : c'.jars = c.jars) (hpages : c'.pages = c.pages)
    (hexchanges : c'.exchanges = Function.update c.exchanges i
      ((c.exchanges i).reply (setCookie (c.server.procs i) tx))) :
    ∃ owner, Owned browser owner c' := by
  have huuid : c'.server.world.uuid = c.server.world.uuid + tx.draws := by
    rw [hserver]
    rfl
  have hworld : c'.server.world = c.server.world.commit i tx := by
    rw [hserver]
    rfl
  have procs (k : Pid) (t : Token) (pc : Refresh.Pc) (ht : c'.server.procs k = .refresh t pc) :
      k ≠ i ∧ c.server.procs k = .refresh t pc := by
    rw [hserver] at ht
    have hk : k ≠ i := by
      rintro rfl
      rw [State.procs_after] at ht
      cases ht
    rw [State.procs_after_of_ne _ _ _ _ hk] at ht
    exact ⟨hk, ht⟩
  have replied {k : Pid} {q : P} {cookie : SetCookie} (he : c.exchanges k = .replied q cookie) :
      c'.exchanges k = .replied q cookie := by
    rw [hexchanges]
    by_cases hk : k = i
    · subst hk
      rw [Function.update_self, he]
      rfl
    · rw [Function.update_of_ne hk]
      exact he
  -- A token on its way was so before, or it has just been issued.
  have cases_sent {k : Pid} {q : P} {t : Token} (he : c'.exchanges k = .replied q (.set t)) :
      c.exchanges k = .replied q (.set t) ∨ k = i ∧ c.exchanges i = .waiting q ∧
        setCookie (c.server.procs i) tx = .set t := by
    rw [hexchanges] at he
    rcases cases_of_update he with ⟨rfl, he⟩ | ⟨-, he⟩
    · generalize hi : c.exchanges k = e at he
      cases e with
      | unused | settled => cases he
      | waiting p =>
        obtain ⟨rfl, hset⟩ := Exchange.replied.inj he
        exact .inr ⟨rfl, rfl, hset⟩
      | replied p cookie => exact .inl he
    · exact .inl he
  have pending {jti : Jti} (hlt : jti < c.server.world.uuid) (hp : c'.Pending jti) :
      c.Pending jti := by
    obtain ⟨k, q, t, he, rfl⟩ := hp
    rcases cases_sent he with he | ⟨-, -, hset⟩
    · exact ⟨k, q, t, he, rfl⟩
    · rw [(set_of_commits hc hset).1] at hlt
      exact (Nat.lt_irrefl _ hlt).elim
  have owner_old {jti : Jti} (hlt : jti < c.server.world.uuid) :
      (c.exchanges i).issuesTo browser owner c.server.world.uuid jti = owner jti :=
    owner_of_ne _ (Nat.ne_of_lt hlt)
  refine ⟨(c.exchanges i).issuesTo browser owner c.server.world.uuid, ⟨fun k hu => ?_,
    fun k t pc ht => ?_, fun k t pc ht => ?_, fun b t hj => ?_, fun b t hj hs => ?_,
    fun k q t he => ?_, fun k k' q q' t t' he he' ht => ?_,
    fun jti hs => ?_⟩⟩
  · rw [hserver]
    by_cases hk : k = i
    · subst hk
      exact State.procs_after ..
    · rw [hexchanges, Function.update_of_ne hk] at hu
      rw [State.procs_after_of_ne _ _ _ _ hk]
      exact h.unused k hu
  · obtain ⟨hk, ht⟩ := procs k t pc ht
    obtain ⟨q, he, hf, ho⟩ := h.presented k t pc ht
    refine ⟨q, ?_, hpages ▸ hf, (owner_old (h.presentedToken k t pc ht).1).trans ho⟩
    rw [hexchanges, Function.update_of_ne hk]
    exact he
  · obtain ⟨hk, ht⟩ := procs k t pc ht
    obtain ⟨hlt, hn, hp⟩ := h.presentedToken k t pc ht
    refine ⟨huuid ▸ Nat.lt_add_right _ hlt, fun hs => ?_, mt (pending hlt) hp⟩
    rw [hworld] at hs
    rcases spent_commit hc hs with hs | ⟨token, pc', _, hi, hj, -⟩
    · exact hn hs
    · exact hk (h.eq_of_presented hb ht hi hj.symm)
  · rw [hjars] at hj
    obtain ⟨ho, hlt, hn⟩ := h.stored b t hj
    exact ⟨(owner_old hlt).trans ho, huuid ▸ Nat.lt_add_right _ hlt, mt (pending hlt) hn⟩
  · rw [hjars] at hj
    rw [hworld] at hs
    rcases spent_commit hc hs with hs | ⟨token, pc, successor, hi, ht, hset⟩
    · obtain ⟨q, k, t', hq, hf, he⟩ := h.storedSpent b t hj hs
      exact ⟨q, k, t', hq, hpages ▸ hf, replied he⟩
    · obtain ⟨q, he, hf, ho⟩ := h.presented i token pc hi
      refine ⟨q, i, successor, ?_, hpages ▸ hf, ?_⟩
      · rw [ht, (h.stored b t hj).1] at ho
        exact (Option.some.inj ho).symm
      · rw [hexchanges, Function.update_self, he, hset]
        rfl
  · rcases cases_sent he with he | ⟨rfl, hi, hset⟩
    · obtain ⟨ho, hlt, hn⟩ := h.sent k q t he
      refine ⟨(owner_old hlt).trans ho, huuid ▸ Nat.lt_add_right _ hlt, fun hs => ?_⟩
      rw [hworld] at hs
      rcases spent_commit hc hs with hs | ⟨token, pc, _, hi, hj, -⟩
      · exact hn hs
      · exact (h.presentedToken i token pc hi).2.2 ⟨k, q, t, he, hj.symm⟩
    · obtain ⟨hj, hdraws⟩ := set_of_commits hc hset
      refine ⟨?_, ?_, fun hs => ?_⟩
      · rw [hi, hj]
        exact Function.update_self ..
      · rw [hj, huuid, hdraws]
        exact Nat.lt_add_of_pos_right Nat.two_pos
      · rw [hworld, hj] at hs
        rcases spent_commit hc hs with hs | ⟨token, pc, _, hi, hj, -⟩
        · exact Nat.lt_irrefl _ (h.drawn _ hs)
        · exact Nat.lt_irrefl _ (hj ▸ (h.presentedToken k token pc hi).1)
  · rcases cases_sent he with he | ⟨rfl, hi, hset⟩ <;>
      rcases cases_sent he' with he' | ⟨rfl, hi', hset'⟩
    · exact h.once k k' q q' t t' he he' ht
    · have hlt := (h.sent k q t he).2.1
      rw [ht, (set_of_commits hc hset').1] at hlt
      exact (Nat.lt_irrefl _ hlt).elim
    · have hlt := (h.sent k' q' t' he').2.1
      rw [← ht, (set_of_commits hc hset).1] at hlt
      exact (Nat.lt_irrefl _ hlt).elim
    · rfl
  · rw [hworld] at hs
    rw [huuid]
    rcases spent_commit hc hs with hs | ⟨token, pc, _, hi, hj, -⟩
    · exact Nat.lt_add_right _ (h.drawn jti hs)
    · exact Nat.lt_add_right _ (hj ▸ (h.presentedToken i token pc hi).1)

theorem Owned.turn (hb : Function.Injective browser) {i : Pid} {a : Answer}
    (h : Owned browser owner c) (hs : c.turn S i a = some c') :
    ∃ owner, Owned browser owner c' := by
  obtain ⟨proc, f, ht, hserver, hjars, hpages, hexchanges⟩ := turn_eq_some hs
  cases f with
  | commit tx =>
    obtain ⟨rfl, hc⟩ := commits_of_step ht
    exact h.turn_commit hb hc hserver hjars hpages hexchanges
  | skip | lock | tick =>
    exact ⟨owner, h.turn_of_ne_commit ht (fun tx => by simp) hserver hjars hpages hexchanges⟩

/-! ### The pages -/

section Pages

variable [DecidableEq P]

/-- What a page does with its calls is of no importance. -/
theorem Owned.setCall (h : Owned browser owner c) (p : P) (k : ℕ) (call : Call) :
    Owned browser owner (c.setCall p k call) := by
  have hp (q : P) : ((c.setCall p k call).pages q).refreshInFlight =
      (c.pages q).refreshInFlight := by
    show (Function.update c.pages p _ q).refreshInFlight = _
    by_cases hq : q = p
    · subst hq
      rw [Function.update_self]
    · rw [Function.update_of_ne hq]
  refine h.of_le rfl rfl h.unused (fun i p t he => he) (fun i t pc ht => ⟨?_, ?_⟩)
    fun b t hj => ⟨(h.stored b t hj).1, (h.stored b t hj).2.1, (h.stored b t hj).2.2, fun hs => ?_⟩
  · obtain ⟨q, he, hf, ho⟩ := h.presented i t pc ht
    exact ⟨q, he, (hp q).trans hf, ho⟩
  · exact h.presentedToken i t pc ht
  · obtain ⟨q, i, t', hq, hf, he⟩ := h.storedSpent b t hj hs
    exact ⟨q, i, t', hq, (hp q).trans hf, he⟩

/-- A page that refreshes presents a token that nothing has consumed, as the promise of an earlier
refresh is not in flight. -/
theorem Owned.doRefresh (hb : Function.Injective browser) {p : P} {i : Pid}
    (h : Owned browser owner c) (hp : (c.pages p).refreshInFlight = none)
    (hs : c.doRefresh browser p i = some c') : Owned browser owner c' := by
  obtain ⟨d, hd, rfl⟩ := Option.map_eq_some_iff.mp hs
  have hi : c.exchanges i = .unused := by
    simp only [Web.post, Web.request] at hd
    split at hd <;> split at hd <;> first | assumption | cases hd
  -- The promises of the other pages.
  have other {q : P} {k : Pid} {e : Exchange P} (hf : (c.pages q).refreshInFlight = some k)
      (he : c.exchanges k = e) (hne : e ≠ .unused) (page : Page) (e' : Exchange P) :
      (Function.update c.pages p page q).refreshInFlight = some k ∧
        Function.update c.exchanges i e' k = e := by
    refine ⟨?_, update_of_exchange he (by rw [hi]; exact hne.symm)⟩
    rw [Function.update_of_ne (by rintro rfl; cases hp.symm.trans hf)]
    exact hf
  simp only [Web.post] at hd
  split at hd
  · rename_i token hjar
    simp only [Web.request, hi, Option.some.injEq] at hd
    subst hd
    obtain ⟨ho, hlt, hn⟩ := h.stored _ token hjar
    have hspent : ¬ Spent c.server.world token.jti := by
      intro hs
      obtain ⟨q, k, t, hq, hf, -⟩ := h.storedSpent _ token hjar hs
      obtain rfl := hb hq
      cases hp.symm.trans hf
    have hne (q : P) (t : Token) : Exchange.waiting p ≠ .replied q (.set t) := by simp
    refine h.of_le rfl rfl (fun k hu => (h.unused_of_update (by simp) hu _).2)
      (fun k q t => replied_of_update hne) (fun k t pc ht => ?_) fun b t hj => ?_
    · rcases cases_of_update ht with ⟨rfl, he⟩ | ⟨-, ht⟩
      · obtain ⟨rfl, -⟩ := Proc.refresh.inj he
        refine ⟨⟨p, Function.update_self .., ?_, ho⟩, hlt, hspent, hn⟩
        show (Function.update c.pages p _ p).refreshInFlight = _
        rw [Function.update_self]
      · obtain ⟨q, he, hf, ho⟩ := h.presented k t pc ht
        obtain ⟨hf', he'⟩ := other hf he (by simp) _ _
        exact ⟨⟨q, he', hf', ho⟩, h.presentedToken k t pc ht⟩
    · obtain ⟨ho, hlt, hn⟩ := h.stored b t hj
      refine ⟨ho, hlt, mt (pending_of_update hne rfl) hn, fun hs => ?_⟩
      obtain ⟨q, k, t', hq, hf, he⟩ := h.storedSpent b t hj hs
      obtain ⟨hf', he'⟩ := other hf he (by simp) _ _
      exact ⟨q, k, t', hq, hf', he'⟩
  · simp only [hi, Option.some.injEq] at hd
    subst hd
    have hne (q : P) (t : Token) : Exchange.replied p .keep ≠ .replied q (.set t) := by simp
    refine h.of_le rfl rfl (fun k hu => (h.unused_of_update (by simp) hu .done).1)
      (fun k q t => replied_of_update hne) (fun k t pc ht => ?_) fun b t hj => ?_
    · obtain ⟨q, he, hf, ho⟩ := h.presented k t pc ht
      obtain ⟨hf', he'⟩ := other hf he (by simp) _ _
      exact ⟨⟨q, he', hf', ho⟩, h.presentedToken k t pc ht⟩
    · obtain ⟨ho, hlt, hn⟩ := h.stored b t hj
      refine ⟨ho, hlt, mt (pending_of_update hne rfl) hn, fun hs => ?_⟩
      obtain ⟨q, k, t', hq, hf, he⟩ := h.storedSpent b t hj hs
      obtain ⟨hf', he'⟩ := other hf he (by simp) _ _
      exact ⟨q, k, t', hq, hf', he'⟩

theorem Owned.clear {p : P} (h : Owned browser owner c) (hs : c.clear p = some c') :
    Owned browser owner c' := by
  simp only [Web.clear] at hs
  split at hs
  · cases hs
  rename_i i hp
  split at hs
  case h_2 => cases hs
  rename_i ok hi
  obtain rfl := Option.some.inj hs
  -- The promise of `p` is over, and the others stay in flight.
  have other {q : P} {k : Pid} {e : Exchange P} (hf : (c.pages q).refreshInFlight = some k)
      (he : c.exchanges k = e) (hne : e ≠ .settled ok) (page : Page) :
      (Function.update c.pages p page q).refreshInFlight = some k := by
    have hq : q ≠ p := by
      rintro rfl
      obtain rfl := Option.some.inj (hp.symm.trans hf)
      exact hne (he.symm.trans hi)
    rw [Function.update_of_ne hq]
    exact hf
  refine h.of_le rfl rfl h.unused (fun k q t he => he) (fun k t pc ht => ?_) fun b t hj => ?_
  · obtain ⟨q, he, hf, ho⟩ := h.presented k t pc ht
    exact ⟨⟨q, he, other hf he (by simp) _, ho⟩, h.presentedToken k t pc ht⟩
  · obtain ⟨ho, hlt, hn⟩ := h.stored b t hj
    refine ⟨ho, hlt, hn, fun hs => ?_⟩
    obtain ⟨q, k, t', hq, hf, he⟩ := h.storedSpent b t hj hs
    exact ⟨q, k, t', hq, other hf he (by simp) _, he⟩

theorem abort_eq_replied {p q : P} {e : Exchange P} {cookie : SetCookie}
    (h : e.abort p = .replied q cookie) : e = .replied q cookie := by
  cases e with
  | unused | settled => cases h
  | waiting =>
    simp only [Exchange.abort] at h
    split at h <;> cases h
  | replied =>
    simp only [Exchange.abort] at h
    split at h
    · cases h
    · exact h

/-- A page may be left while no refresh is in flight. -/
theorem Owned.reload {p : P} (h : Owned browser owner c)
    (hp : (c.pages p).refreshInFlight = none) : Owned browser owner (c.reload p) := by
  have other {q : P} {k : Pid} (hf : (c.pages q).refreshInFlight = some k) :
      q ≠ p ∧ ((c.reload p).pages q).refreshInFlight = some k := by
    have hq : q ≠ p := by
      rintro rfl
      cases hp.symm.trans hf
    refine ⟨hq, ?_⟩
    show (Function.update c.pages p _ q).refreshInFlight = _
    rw [Function.update_of_ne hq]
    exact hf
  have hsent (k : Pid) (q : P) (t : Token)
      (he : (c.reload p).exchanges k = .replied q (.set t)) :
      c.exchanges k = .replied q (.set t) := abort_eq_replied he
  refine h.of_le rfl rfl (fun k hu => h.unused k ?_) hsent (fun k t pc ht => ?_) fun b t hj => ?_
  · replace hu : (c.exchanges k).abort p = .unused := hu
    generalize c.exchanges k = e at hu
    cases e with
    | unused => rfl
    | settled => cases hu
    | waiting | replied =>
      simp only [Exchange.abort] at hu
      split at hu <;> cases hu
  · obtain ⟨q, he, hf, ho⟩ := h.presented k t pc ht
    obtain ⟨hq, hf'⟩ := other hf
    refine ⟨⟨q, ?_, hf', ho⟩, h.presentedToken k t pc ht⟩
    show (c.exchanges k).abort p = _
    rw [he, Exchange.abort, if_neg hq]
  · obtain ⟨ho, hlt, hn⟩ := h.stored b t hj
    refine ⟨ho, hlt, ?_, fun hs => ?_⟩
    · rintro ⟨k, q, t', he, ht⟩
      exact hn ⟨k, q, t', hsent k q t' he, ht⟩
    · obtain ⟨q, k, t', hb, hf, he⟩ := h.storedSpent b t hj hs
      obtain ⟨hq, hf'⟩ := other hf
      refine ⟨q, k, t', hb, hf', ?_⟩
      show (c.exchanges k).abort p = _
      rw [he, Exchange.abort, if_neg hq]

end Pages

/-! ### Runs -/

/-- What holds throughout a careful run of pages of different browsers. -/
structure Holds (browser : P → B) (c : Web P B) : Prop where
  owned : ∃ owner, Owned browser owner c
  known : Known c.server
  history : OnlyRevokedReplayed c.server.world.history

theorem IsInitial.holds (h : IsInitial c) : Holds browser c where
  owned := h.owned
  known := by
    refine ⟨fun jti s hrow hend => ?_, fun i t user b hp => ?_⟩
    · exact ⟨.revoked jti, (h.world.revoked jti).mpr ⟨s, hrow, hend⟩, rfl⟩
    · rcases h.procs i with hi | hi <;> cases hi.symm.trans hp
  history := by
    have hs : OnlyRevokedReplayed (c.server.world.history ++ []) :=
      onlyRevokedReplayed_append _ (fun jti hm => ?_) trivial
    · rwa [List.append_nil] at hs
    · rcases h.world.history _ hm with ⟨t, ht⟩ | ⟨jti', ht⟩ <;> cases ht

/-- A step of the pages or the connections: the server may have been asked for something. -/
theorem Holds.of_procs (h : Holds browser c) (howned : ∃ owner, Owned browser owner c')
    (hserver : ∃ i proc, (∀ t user b, proc ≠ .refresh t (.revokeSessions user b)) ∧
      c'.server = { c.server with procs := Function.update c.server.procs i proc }) :
    Holds browser c' := by
  obtain ⟨i, proc, hproc, hs⟩ := hserver
  refine ⟨howned, hs ▸ h.known.update i hproc, ?_⟩
  rw [hs]
  exact h.history

theorem Holds.of_server_eq (h : Holds browser c) (howned : ∃ owner, Owned browser owner c')
    (hserver : c'.server = c.server) : Holds browser c' :=
  ⟨howned, hserver ▸ h.known, hserver ▸ h.history⟩

theorem Holds.turn (hb : Function.Injective browser) {i : Pid} {a : Answer}
    (h : Holds browser c) (hs : c.turn S i a = some c') : Holds browser c' := by
  obtain ⟨owner, ho⟩ := h.owned
  obtain ⟨proc, f, ht, hserver, -⟩ := turn_eq_some hs
  refine ⟨ho.turn hb hs, hserver ▸ h.known.after ht, ?_⟩
  rw [hserver]
  cases f with
  | skip | lock | tick => exact h.history
  | commit tx =>
    refine onlyRevokedReplayed_commit (commits_of_step ht).2 (fun t user b hp => ?_) h.history
    exact ⟨h.known.procs i t user b hp, (ho.presentedToken i t _ hp).2.1⟩

theorem Holds.request {proc : Proc} {p : P} {i : Pid} (h : Holds browser c)
    (hproc : isOther proc = true) (hs : c.request p i proc = some c') : Holds browser c' := by
  obtain ⟨owner, ho⟩ := h.owned
  refine h.of_procs ⟨owner, ho.request hproc hs⟩ ⟨i, proc, fun t user b hp => ?_, ?_⟩
  · rw [hp] at hproc
    cases hproc
  · simp only [Web.request] at hs
    split at hs <;> cases hs
    rfl

variable [DecidableEq P]

theorem Holds.setCall (h : Holds browser c) (p : P) (k : ℕ) (call : Call) :
    Holds browser (c.setCall p k call) := by
  obtain ⟨owner, ho⟩ := h.owned
  exact h.of_server_eq ⟨owner, ho.setCall p k call⟩ rfl

theorem Holds.doRefresh (hb : Function.Injective browser) {p : P} {i : Pid}
    (h : Holds browser c) (hp : (c.pages p).refreshInFlight = none)
    (hs : c.doRefresh browser p i = some c') : Holds browser c' := by
  obtain ⟨owner, ho⟩ := h.owned
  have howned : ∃ owner, Owned browser owner c' := ⟨owner, ho.doRefresh hb hp hs⟩
  obtain ⟨d, hd, rfl⟩ := Option.map_eq_some_iff.mp hs
  simp only [Web.post] at hd
  split at hd
  · rename_i token _
    simp only [Web.request] at hd
    split at hd <;> cases hd
    exact h.of_procs howned ⟨i, .refresh token .readUser, fun t user b => by simp, rfl⟩
  · split at hd <;> cases hd
    exact h.of_server_eq howned rfl

theorem Holds.answer (hb : Function.Injective browser) {p : P} {k : ℕ} {status : Option ℕ}
    {i : Pid} (h : Holds browser c) (hs : c.answer browser p k status i = some c') :
    Holds browser c' := by
  simp only [Web.answer] at hs
  split at hs
  · split at hs
    · obtain ⟨⟨j, d⟩, hd, rfl⟩ := Option.map_eq_some_iff.mp hs
      refine Holds.setCall ?_ p k _
      simp only [Web.beginRefresh] at hd
      split at hd
      · cases hd
        exact h
      · obtain ⟨d', hd', he⟩ := Option.map_eq_some_iff.mp hd
        cases he
        exact h.doRefresh hb ‹_› hd'
    · cases hs
      exact h.setCall p k _
  · cases hs
    exact h.setCall p k _
  · cases hs

theorem Holds.resume {p : P} {k : ℕ} (h : Holds browser c) (hs : c.resume p k = some c') :
    Holds browser c' := by
  simp only [Web.resume] at hs
  split at hs
  case h_2 => cases hs
  split at hs
  · cases hs
  split at hs <;> cases hs
  exact h.setCall p k _

variable [DecidableEq B]

theorem Holds.step (hb : Function.Injective browser) {l : Action P} (h : Holds browser c)
    (hok : Careful c l) (hs : (web S browser).step c l = some c') : Holds browser c' := by
  obtain ⟨owner, ho⟩ := h.owned
  cases l with
  | turn i a => exact h.turn hb hs
  | request p i proc =>
    simp only [web, Option.ite_none_right_eq_some] at hs
    exact h.request hs.1 hs.2
  | fetch p k noRefreshOn401 =>
    simp only [web, Web.fetch] at hs
    split at hs <;> cases hs
    exact h.setCall p k _
  | answer p k status i => exact h.answer hb hs
  | resume p k => exact h.resume hs
  | clear p =>
    refine h.of_server_eq ⟨owner, ho.clear hs⟩ ?_
    simp only [web, Web.clear] at hs
    split at hs
    · cases hs
    · split at hs <;> cases hs
      rfl
  | reload p =>
    obtain rfl := Option.some.inj hs
    exact h.of_server_eq ⟨owner, ho.reload hok⟩ rfl
  | arrive i =>
    refine h.of_server_eq ⟨owner, ho.arrive hs⟩ ?_
    simp only [web, Web.arrive] at hs
    split at hs <;> cases hs
    rfl
  | lose i =>
    refine h.of_server_eq ⟨owner, ho.lose hok hs⟩ ?_
    simp only [web, Web.lose] at hs
    split at hs <;> cases hs <;> rfl
  | drop i =>
    refine h.of_procs ⟨owner, ho.drop hs⟩ ⟨i, .done, fun t user b => by simp, ?_⟩
    simp only [web, Web.drop] at hs
    split at hs
    · split at hs <;> cases hs
      rfl
    · cases hs

/-- **No page is taken for a thief.** If every page has a browser to itself and no response to a
refresh is lost, a replay is only found of a session that something else has revoked. -/
theorem onlyRevokedReplayed_of_reach (hb : Function.Injective browser)
    (h : (web S browser).Reach IsInitial Careful c) :
    OnlyRevokedReplayed c.server.world.history := by
  have hc : Holds browser c :=
    h.invariant (fun c => IsInitial.holds) fun c c' l hc hok hs => hc.step hb hok hs
  exact hc.history

end Tokens

/-! ### Two pages, and a lost response -/

/-- The turns of a refresh that finds its session ended. -/
def replays (i : Pid) (sessions : List Jti) : List (Action (Fin 2)) :=
  [.turn i .ok, .turn i .ok, .turn i (.snapshot sessions)] ++
    List.replicate (sessions.length + 1) (.turn i .ok)

/-- **A replay of a session that was revoked.** The other page logs out while the first one
refreshes. -/
theorem exists_onlyRevokedReplayed :
    ∃ c : Web (Fin 2) (Fin 2), OnlyRevokedReplayed c.server.world.history ∧
      .replayed 0 ∈ c.server.world.history := by
  obtain ⟨c, h, hb⟩ := Steps.exists_reach_of_exec (web .plain id) Careful isInitial_signedIn
    (refresh 0 0 0 ++ [.turn 0 .ok, .request 1 1 (.logout registrationToken .authenticate),
      .turn 1 .ok, .turn 1 (.snapshot [0]), .turn 1 .ok, .turn 1 .ok] ++
      [.turn 0 .ok, .turn 0 (.snapshot []), .turn 0 .ok])
    (fun c => .replayed 0 ∈ c.server.world.history) (by decide +kernel)
  rw [decide_eq_true_eq] at hb
  exact ⟨c, onlyRevokedReplayed_of_reach Function.injective_id h, hb⟩

/-- **Two pages of one browser.** Both refresh with the token that they share, and the user is
signed out. -/
theorem exists_replayed_of_two_pages :
    ∃ c : Web (Fin 2) (Fin 2), (web .plain fun _ => 0).Reach IsInitial Careful c ∧
      ¬ OnlyRevokedReplayed c.server.world.history := by
  obtain ⟨c, h, hb⟩ := Steps.exists_reach_of_exec (web .plain fun _ => 0) Careful isInitial_signedIn
    (refresh 0 0 0 ++ refresh 1 0 1 ++ rotates 0 ++ replays 1 [2])
    (fun c => c.server.world.history.take 3 = [.replayed 0, .revoked 2, .rotated 0 2])
    (by decide +kernel)
  rw [decide_eq_true_eq] at hb
  refine ⟨c, h, fun hs => ?_⟩
  rw [← List.take_append_drop 3 c.server.world.history, hb] at hs
  exact hs.2.1 2 (by simp)

/-- **A lost response.** The page presents the consumed token again. -/
theorem exists_replayed_of_lost :
    ∃ c : Web (Fin 2) (Fin 2), (web .plain id).Reach IsInitial Steps.Always c ∧
      ¬ OnlyRevokedReplayed c.server.world.history := by
  obtain ⟨c, h, hb⟩ := Steps.exists_reach_of_exec (web .plain id) Steps.Always isInitial_signedIn
    (refresh 0 0 0 ++ rotates 0 ++ [.lose 0, .clear 0] ++ refresh 0 1 1 ++ replays 1 [2])
    (fun c => c.server.world.history.take 3 = [.replayed 0, .revoked 2, .rotated 0 2])
    (by decide +kernel)
  rw [decide_eq_true_eq] at hb
  refine ⟨c, h, fun hs => ?_⟩
  rw [← List.take_append_drop 3 c.server.world.history, hb] at hs
  exact hs.2.1 2 (by simp)

end NextBallUp.Auth.ApiClient
