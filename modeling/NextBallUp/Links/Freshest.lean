import NextBallUp.Links.Locks

/-!
# The freshest link wins

An issue retires the unused tokens that it can see, and then inserts its own. A request for a
password reset holds the lock of its user meanwhile, so that no other token appears. A request for
an e-mail verification holds no lock, and two of them leave two tokens.

## Main definitions

* `World.isLive`, `lastIssued`: an unused and unexpired token; the token issued last
* `FreshestLinkWins`: at most the last token of a user is live, and no token is redeemed twice
* `RetiresLive`: the condition on a turn

## Main results

* `freshestLinkWins_of_reach`: **in every run of turns that satisfy the condition, the freshest link
  wins in both families**; the condition is about e-mail verifications only
* `exists_not_freshestLinkWins`: two requests for an e-mail verification at once
-/

namespace NextBallUp.Links

variable {S : Settings} {pid : Pid} {a : Answer} {p p' : Proc} {w w' : World} {tx : Tx}
  {f : Effect} {family : Family} {user : UserId} {token : TokenId}

/-! ### The law -/

/-- The token is an unused and unexpired one of the user. -/
def World.isLive (w : World) (family : Family) (user : UserId) (token : TokenId) : Bool :=
  ((w.tokens family).row token).any fun r => r.IsUnused user ∧ w.now < r.expiresAt

/-- The token that the request that committed last has issued to the user. -/
def lastIssued (family : Family) (user : UserId) (events : List Event) : Option TokenId :=
  events.findSome? fun
    | .issued family' user' token => if family' = family ∧ user' = user then some token else none
    | .redeemed .. => none

/-- The tokens that have been redeemed. -/
def redeemedTokens (family : Family) (events : List Event) : List TokenId :=
  events.filterMap fun
    | .redeemed family' token => if family' = family then some token else none
    | .issued .. => none

/-- A user has at most one live token, which is the one issued last, and no token has been redeemed
twice. -/
structure FreshestLinkWins (w : World) (family : Family) : Prop where
  unique : ∀ user token token', w.isLive family user token = true →
    w.isLive family user token' = true → token = token'
  freshest : ∀ user token, w.isLive family user token = true →
    lastIssued family user w.history = some token
  once : (redeemedTokens family w.history).Nodup

/-- A request for an e-mail verification that issues its token has retired all those that are
live. -/
def RetiresLive (c : State) (i : Pid) (a : Answer) : Prop :=
  a ≠ .error → match c.procs i with
  | .requestEmailVerification user (.issue (.retire _ (.finished retired))) =>
    ∀ token < c.world.uuid, c.world.isLive .emailVerification user token = true → token ∈ retired
  | _ => True

instance (c : State) (i : Pid) (a : Answer) : Decidable (RetiresLive c i a) := by
  unfold RetiresLive
  split <;> infer_instance

/-! ### What a commit does to a token -/

theorem usedAt_usages {now : Time} {tokens : List TokenId} {e : Alteration TokenId LinkToken}
    (he : e ∈ usages now tokens) : e.1 ∈ tokens ∧ e.2 = Option.map (LinkToken.use now) := by
  obtain ⟨token, ht, rfl⟩ := List.mem_map.mp he
  exact ⟨ht, rfl⟩

/-- A commit uses tokens, and an issue inserts one. -/
theorem Commits.token_cases (h : Commits S pid w p tx) {e : Alteration TokenId LinkToken}
    (he : e ∈ tx.tokens family) :
    (∃ now, e.2 = Option.map (LinkToken.use now)) ∨ ∃ user now retired,
      p.issuing = some (family, user, .retire now (.finished retired)) ∧
        tx = Issue.issued S family user w now retired ∧
        e = (w.uuid, fun _ => some ⟨user, now + S.ttlMinutes family * 60, none⟩) := by
  have used {family' : Family} {tokens : List TokenId}
      (he : e ∈ only family' (usages w.now tokens) family) :
      ∃ now, e.2 = Option.map (LinkToken.use now) :=
    ⟨w.now, (usedAt_usages (mem_only.mp he).2).2⟩
  cases h with
  | rollback => cases he
  | @issued _ family' user now retired hi =>
    obtain ⟨rfl, he⟩ := mem_only.mp he
    rcases List.mem_append.mp he with he | he
    · exact .inl ⟨now, (usedAt_usages he).2⟩
    · exact .inr ⟨user, now, retired, hi, rfl, List.mem_singleton.mp he⟩
  | undelivered | resetSpent | reset | confirmSpent | confirm => exact .inl (used he)

/-- The issue whose commit this is. -/
def IsIssue (S : Settings) (w : World) (p : Proc) (tx : Tx) (family : Family) (user : UserId)
    (retired : List TokenId) : Prop :=
  ∃ now, p.issuing = some (family, user, .retire now (.finished retired)) ∧
    tx = Issue.issued S family user w now retired

/-- **An unused token after a commit** is one that the commit has not touched, or the one that it
inserts. -/
theorem Commits.unused (h : Commits S pid w p tx) (hd : w.Drawn) {r : LinkToken}
    (hr : ((w.commit pid tx).tokens family).row token = some r) (hu : r.usedAt = none) :
    ((w.tokens family).row token = some r ∧ ∀ e ∈ tx.tokens family, token ≠ e.1) ∨
      token = w.uuid ∧ ∃ retired, IsIssue S w p tx family r.userId retired := by
  change ((w.tokens family).alterAll (tx.tokens family)).row token = some r at hr
  by_cases ht : token = w.uuid
  · subst ht
    by_cases hi : ∃ user retired, IsIssue S w p tx family user retired
    · obtain ⟨user, retired, now, hi, rfl⟩ := hi
      simp only [Issue.issued, only_self, Table.alterAll_append, Table.alterAll_cons,
        Table.alterAll_nil, Table.row_alter, if_true, Option.some.injEq] at hr
      subst hr
      exact .inr ⟨rfl, retired, now, hi, rfl⟩
    · have hn : ((w.tokens family).alterAll (tx.tokens family)).row w.uuid = none := by
        refine Table.row_alterAll_of_keeps (Q := fun o => o = none) (hd.row_uuid family) ?_
        rintro e he - o rfl
        rcases h.token_cases he with ⟨now, hg⟩ | ⟨user, now, retired, hp, htx, -⟩
        · rw [hg, Option.map_none]
        · exact (hi ⟨user, retired, now, hp, htx⟩).elim
      rw [hn] at hr
      cases hr
  · have used {e : Alteration TokenId LinkToken} (he : e ∈ tx.tokens family) (hk : e.1 = token) :
        ∃ now, e.2 = Option.map (LinkToken.use now) := by
      rcases h.token_cases he with hg | ⟨user, now, retired, -, -, rfl⟩
      · exact hg
      · exact (ht hk.symm).elim
    by_cases hm : ∃ e ∈ tx.tokens family, e.1 = token
    · obtain ⟨e, he, rfl⟩ := hm
      -- What one of the updates has used, the others leave used.
      refine (Table.row_alterAll_of_mem (Q := fun o => ∀ r, o = some r → r.usedAt ≠ none) he
        (fun o r ho => ?_) (fun e' he' hk o _ r ho => ?_) r hr hu).elim
      · obtain ⟨now, hg⟩ := used he rfl
        rw [hg] at ho
        obtain ⟨r, -, rfl⟩ := Option.map_eq_some_iff.mp ho
        exact Option.some_ne_none _
      · obtain ⟨now, hg⟩ := used he' hk
        rw [hg] at ho
        obtain ⟨r, -, rfl⟩ := Option.map_eq_some_iff.mp ho
        exact Option.some_ne_none _
    · have hne : ∀ e ∈ tx.tokens family, token ≠ e.1 := fun e he hk => hm ⟨e, he, hk.symm⟩
      rw [Table.row_alterAll_of_ne hne] at hr
      exact .inl ⟨hr, hne⟩

theorem World.Drawn.commit (hd : w.Drawn) (h : Commits S pid w p tx) : (w.commit pid tx).Drawn := by
  intro family token
  refine Table.row_alterAll_of_keeps (Q := fun o => o ≠ none → token < w.uuid + tx.draws)
    (fun hr => Nat.lt_add_right _ (hd family token hr)) ?_
  rintro e he rfl o ho hn
  rcases h.token_cases he with ⟨now, hg⟩ | ⟨user, now, retired, -, rfl, rfl⟩
  · rw [hg, ne_eq, Option.map_eq_none_iff] at hn
    exact ho hn
  · exact Nat.lt_add_of_pos_right Nat.one_pos

theorem World.Drawn.step (hd : w.Drawn) (h : p.step S pid a w = some (p', f)) :
    (w.apply pid f).Drawn := by
  cases f with
  | skip | lock | tick => exact hd
  | commit tx => exact hd.commit (commits_of_step h).1

/-! ### No token escapes a password reset -/

/-- A request for a password reset has locked every unused token of its user, or comes to it. -/
def Proc.Covers (w : World) : Proc → Prop
  | .requestPasswordReset user (.issue (.retire _ b)) =>
    b.Covers (w.tokens .passwordReset) (LinkToken.IsUnused user)
  | _ => True

/-- What adds no unused token. -/
theorem Proc.Covers.mono (h : p.Covers w)
    (hw : ∀ user, (∃ now b, p = .requestPasswordReset user (.issue (.retire now b))) →
      ∀ token r', (w'.tokens .passwordReset).row token = some r' → r'.IsUnused user = true →
        ∃ r, (w.tokens .passwordReset).row token = some r ∧ r.IsUnused user = true) :
    p.Covers w' := by
  cases p with
  | requestPasswordReset user pc =>
    rcases pc with _ | _ | ⟨now, b⟩ | _ | _
    case issue.retire => exact Bulk.Covers.mono h (hw user ⟨now, b, rfl⟩)
    all_goals trivial
  | _ => trivial

/-- A request comes to retire tokens from the lock on its user, or goes on to retire them. -/
theorem retire_of_step {now : Time} {b' : Bulk TokenId}
    (h : p.turn S pid a w = some (.requestPasswordReset user (.issue (.retire now b')), f)) :
    b' = .select ∨ ∃ b ks, p = .requestPasswordReset user (.issue (.retire now b)) ∧
      b.step (w.tokens .passwordReset) pid (LinkToken.IsUnused user) (List.range w.uuid) a.keys =
        some (b', ks) ∧ f = .lock { tokens := only .passwordReset ks } := by
  cases p with
  | requestPasswordReset user' pc =>
    rcases pc with _ | _ | ⟨now', b⟩ | _ | _ <;>
      simp only [Proc.turn, RequestPasswordReset.step, Issue.step, Table.locate_eq_some] at h
    case issue.retire =>
      obtain ⟨retired, rfl, ha⟩ | ⟨b', ks, hb, he, rfl⟩ := retireTokens_eq_some h
      · cases ha
      · cases he
        exact .inr ⟨b, ks, rfl, hb, rfl⟩
    all_goals grind [Table.locate_eq_some]
  | requestEmailVerification user' pc =>
    rcases pc with _ | ⟨_ | _ | _⟩ <;>
      simp only [Proc.turn, RequestEmailVerification.step, Issue.step] at h <;>
      grind [retireTokens_eq_some, Table.locate_eq_some]
  | resetPassword token pc =>
    cases pc <;> simp only [Proc.turn, ResetPassword.step, Table.locate_eq_some] at h <;>
      grind [retireTokens_eq_some]
  | confirmEmailVerification token pc =>
    cases pc <;>
      simp only [Proc.turn, ConfirmEmailVerification.step, Table.locate_eq_some] at h <;> grind
  | clock => cases a <;> cases h
  | done => cases h

/-- A turn of the request itself. -/
theorem Proc.Covers.step (hd : w.Drawn) (hp : p.Covers w) (h : p.step S pid a w = some (p', f)) :
    p'.Covers (w.apply pid f) := by
  cases p' with
  | requestPasswordReset user pc' =>
    rcases pc' with _ | _ | ⟨now, b'⟩ | _ | _
    case issue.retire =>
      have ha : a ≠ .error := by
        rintro rfl
        cases (step_error h).1
      rw [step_of_ne_error ha] at h
      rcases retire_of_step h with rfl | ⟨b, ks, rfl, hb, rfl⟩
      · exact Bulk.covers_select
      · have hc : b'.Covers (w.tokens .passwordReset) (LinkToken.IsUnused user) :=
          Bulk.Covers.step hp
            (fun k r hr => List.mem_range.mpr (hd .passwordReset k (by simp [hr]))) hb
        exact hc.mono fun k r hr hu => ⟨r, hr, hu⟩
    all_goals trivial
  | _ => trivial

/-! ### What a commit does to the law -/

theorem lastIssued_append (family : Family) (user : UserId) (events events' : List Event) :
    lastIssued family user (events ++ events') =
      (lastIssued family user events).or (lastIssued family user events') :=
  List.findSome?_append

/-- Only an issue changes which token was issued last. -/
theorem Commits.lastIssued (h : Commits S pid w p tx) :
    lastIssued family user tx.events = none ∨ ∃ retired, IsIssue S w p tx family user retired := by
  cases h with
  | @issued _ family' user' now retired hi =>
    by_cases he : family' = family ∧ user' = user
    · obtain ⟨rfl, rfl⟩ := he
      exact .inr ⟨retired, now, hi, rfl⟩
    · exact .inl (by simp [Issue.issued, Links.lastIssued, he])
  | rollback | undelivered | resetSpent | reset | confirmSpent | confirm => exact .inl rfl

theorem IsIssue.lastIssued {retired : List TokenId} (h : IsIssue S w p tx family user retired) :
    lastIssued family user tx.events = some w.uuid := by
  obtain ⟨now, -, rfl⟩ := h
  simp [Issue.issued, Links.lastIssued]

/-- What an issue has retired it writes. -/
theorem IsIssue.mem_tokens {retired : List TokenId} (h : IsIssue S w p tx family user retired)
    (ht : token ∈ retired) : ∃ e ∈ tx.tokens family, token = e.1 := by
  obtain ⟨now, -, rfl⟩ := h
  refine ⟨(token, Option.map (LinkToken.use now)), ?_, rfl⟩
  simp only [Issue.issued, only_self]
  exact List.mem_append_left _ (List.mem_map_of_mem ht)

/-- A commit redeems at most one token, which was unused and is its own. -/
theorem Commits.redeems (h : Commits S pid w p tx) (hp : p.Holds pid w) :
    redeemedTokens family tx.events = [] ∨ ∃ token, redeemedTokens family tx.events = [token] ∧
      OwnsUnused w family pid token ∧ ∃ e ∈ tx.tokens family, token = e.1 := by
  cases h with
  | @reset token user others =>
    by_cases he : Family.passwordReset = family
    · subst he
      exact .inr ⟨token, rfl, hp.1, _, List.mem_cons_self .., rfl⟩
    · exact .inl (by simp [ResetPassword.redeemed, redeemedTokens, he])
  | @confirm token user =>
    by_cases he : Family.emailVerification = family
    · subst he
      exact .inr ⟨token, rfl, hp, _, List.mem_cons_self .., rfl⟩
    · exact .inl (by simp [ConfirmEmailVerification.redeemed, redeemedTokens, he])
  | issued | rollback | undelivered | resetSpent | confirmSpent => exact .inl rfl

/-! ### Runs -/

/-- A request that has not begun. -/
def Proc.IsFresh : Proc → Prop
  | .requestPasswordReset _ .readUser | .requestEmailVerification _ .authenticate
  | .resetPassword _ .readToken | .confirmEmailVerification _ .lockToken | .clock | .done => True
  | _ => False

/-- The tokens that have been redeemed are used. -/
def World.RedeemedAreUsed (w : World) : Prop :=
  ∀ family, ∀ token ∈ redeemedTokens family w.history, token < w.uuid ∧
    ∀ r, (w.tokens family).row token = some r → r.usedAt ≠ none

/-- Any rows between two requests of which the law holds. -/
structure World.IsInitial (w : World) : Prop where
  users : w.users.lock = fun _ => none
  tokens : ∀ family, (w.tokens family).lock = fun _ => none
  drawn : w.Drawn
  wins : ∀ family, FreshestLinkWins w family
  redeemed : w.RedeemedAreUsed

/-- A run begins with such rows and any requests that have not begun. -/
structure Deployed (c : State) : Prop where
  world : c.world.IsInitial
  fresh : ∀ i, (c.procs i).IsFresh

theorem Proc.IsFresh.holds (h : p.IsFresh) : p.Holds pid w := by
  rcases p with ⟨_, pc⟩ | ⟨_, pc⟩ | ⟨_, pc⟩ | ⟨_, pc⟩ | _ | _ <;>
    first | trivial | cases pc <;> trivial

theorem Proc.IsFresh.covers (h : p.IsFresh) : p.Covers w := by
  rcases p with ⟨_, pc⟩ | _ | _ | _ | _ | _
  case requestPasswordReset => cases pc <;> trivial
  all_goals trivial

/-- What holds in every run all of whose turns satisfy the condition. -/
structure Lawful (c : State) : Prop where
  drawn : c.world.Drawn
  holds : ∀ i, (c.procs i).Holds i c.world
  covers : ∀ i, (c.procs i).Covers c.world
  wins : ∀ family, FreshestLinkWins c.world family
  redeemed : c.world.RedeemedAreUsed

theorem Deployed.lawful {c : State} (h : Deployed c) : Lawful c where
  drawn := h.world.drawn
  holds i := (h.fresh i).holds
  covers i := (h.fresh i).covers
  wins := h.world.wins
  redeemed := h.world.redeemed

theorem issuing_eq_some {now : Time} {b : Bulk TokenId}
    (h : p.issuing = some (family, user, .retire now b)) :
    (family = .passwordReset ∧ p = .requestPasswordReset user (.issue (.retire now b))) ∨
      family = .emailVerification ∧
        p = .requestEmailVerification user (.issue (.retire now b)) := by
  cases p with
  | requestPasswordReset user' pc => cases pc <;> cases h; exact .inl ⟨rfl, rfl⟩
  | requestEmailVerification user' pc => cases pc <;> cases h; exact .inr ⟨rfl, rfl⟩
  | _ => cases h

theorem Lawful.holds_after {c : State} {i : Pid} (hc : Lawful c)
    (hs : (c.procs i).step S i a c.world = some (p, f)) (j : Pid) :
    ((c.after i p f).procs j).Holds j (c.after i p f).world := by
  obtain ⟨hper, hown⟩ := Proc.step_sound hc.drawn (hc.holds i) hs
  by_cases hj : j = i
  · subst hj
    rw [State.procs_after]
    exact hown
  · rw [State.procs_after_of_ne _ _ _ _ hj]
    exact (hc.holds j).of_respects (apply_respects hper) hj

/-- While a request for a password reset holds its user, no other one issues a token to him. -/
theorem Lawful.covers_after {c : State} {i : Pid} (hc : Lawful c)
    (hs : (c.procs i).step S i a c.world = some (p, f)) (j : Pid) :
    ((c.after i p f).procs j).Covers (c.after i p f).world := by
  by_cases hj : j = i
  · subst hj
    rw [State.procs_after]
    exact (hc.covers j).step hc.drawn hs
  rw [State.procs_after_of_ne _ _ _ _ hj]
  cases f with
  | skip | lock | tick => exact (hc.covers j).mono fun _ _ _ r hr hu => ⟨r, hr, hu⟩
  | commit tx =>
    refine (hc.covers j).mono fun user hpj token r hr hu => ?_
    obtain ⟨now, b, hpj⟩ := hpj
    obtain ⟨hid, hunused⟩ := of_decide_eq_true hu
    rcases (commits_of_step hs).1.unused hc.drawn hr hunused with
      ⟨hr', -⟩ | ⟨-, retired, now', hi, -⟩
    · exact ⟨r, hr', hu⟩
    · rcases issuing_eq_some hi with ⟨-, hpi⟩ | ⟨hf, -⟩
      · have hoi := hc.holds i
        have hoj := hc.holds j
        rw [hpi] at hoi
        rw [hpj] at hoj
        obtain ⟨_, hr₁⟩ := hoi.1 r.userId (List.mem_singleton_self _)
        obtain ⟨_, hr₂⟩ := hoj.1 user (List.mem_singleton_self _)
        rw [hid] at hr₁
        exact (hj (hr₂.session_eq hr₁)).elim
      · cases hf

/-- An issue has retired every live token of its user. -/
theorem Lawful.mem_retired {c : State} {i : Pid} (hc : Lawful c) (hok : RetiresLive c i a)
    (ha : a ≠ .error) {retired : List TokenId}
    (hi : IsIssue S c.world (c.procs i) tx family user retired)
    (ht : c.world.isLive family user token = true) : token ∈ retired := by
  obtain ⟨now, hi, -⟩ := hi
  obtain ⟨r, hr, hlive⟩ := (Option.any_eq_true _ _).mp ht
  rcases issuing_eq_some hi with ⟨rfl, hpi⟩ | ⟨rfl, hpi⟩
  · have hcov := hc.covers i
    rw [hpi] at hcov
    have hu : r.IsUnused user = true := (of_decide_eq_true hlive).1
    exact (hcov (by intro h; cases h) token r hr hu).resolve_right List.not_mem_nil
  · have hret := hok ha
    rw [hpi] at hret
    exact hret token (hc.drawn _ token (Option.ne_none_iff_exists'.mpr ⟨r, hr⟩)) ht

/-- A token that is live after a commit was issued last. -/
theorem Lawful.freshest_commit {c : State} {i : Pid} (hc : Lawful c) (hok : RetiresLive c i a)
    (ha : a ≠ .error) (h : Commits S i c.world (c.procs i) tx)
    (ht : (c.world.commit i tx).isLive family user token = true) :
    lastIssued family user (c.world.commit i tx).history = some token := by
  obtain ⟨r, hr, hlive⟩ := (Option.any_eq_true _ _).mp ht
  have hu := (of_decide_eq_true hlive).1
  obtain ⟨hid, hunused⟩ := of_decide_eq_true hu
  change Links.lastIssued family user (tx.events ++ c.world.history) = some token
  rw [lastIssued_append]
  rcases h.unused hc.drawn hr hunused with ⟨hr', hne⟩ | ⟨rfl, retired, hi⟩
  · have hold : c.world.isLive family user token = true :=
      (Option.any_eq_true _ _).mpr ⟨r, hr', hlive⟩
    rcases h.lastIssued with hn | ⟨retired, hi⟩
    · rw [hn, Option.none_or]
      exact (hc.wins family).freshest user token hold
    · obtain ⟨e, he, hk⟩ := hi.mem_tokens (hc.mem_retired hok ha hi hold)
      exact (hne e he hk).elim
  · rw [hid] at hi
    rw [hi.lastIssued, Option.some_or]

/-- What has been redeemed after a commit. -/
theorem Lawful.redeemed_commit {c : State} {i : Pid} (hc : Lawful c)
    (h : Commits S i c.world (c.procs i) tx) :
    (∀ family, (redeemedTokens family (c.world.commit i tx).history).Nodup) ∧
      (c.world.commit i tx).RedeemedAreUsed := by
  have hist (family : Family) : redeemedTokens family (c.world.commit i tx).history =
      redeemedTokens family tx.events ++ redeemedTokens family c.world.history :=
    List.filterMap_append
  have kept {family : Family} {token : TokenId}
      (ht : token ∈ redeemedTokens family c.world.history) :
      token < (c.world.commit i tx).uuid ∧
        ∀ r, ((c.world.commit i tx).tokens family).row token = some r → r.usedAt ≠ none := by
    obtain ⟨hlt, hused⟩ := hc.redeemed family token ht
    refine ⟨Nat.lt_add_right _ hlt, fun r hr hu => ?_⟩
    rcases h.unused hc.drawn hr hu with ⟨hr', -⟩ | ⟨rfl, -⟩
    · exact hused r hr' hu
    · exact Nat.lt_irrefl _ hlt
  constructor
  · intro family
    rw [hist]
    rcases h.redeems (hc.holds i) with hn | ⟨token, hone, ⟨r, ho, hu⟩, -⟩
    · rw [hn, List.nil_append]
      exact (hc.wins family).once
    · rw [hone, List.singleton_append]
      refine List.nodup_cons.mpr ⟨fun hm => ?_, (hc.wins family).once⟩
      exact (hc.redeemed family token hm).2 r ho.2 hu
  · intro family token ht
    rw [hist, List.mem_append] at ht
    rcases ht with ht | ht
    · rcases h.redeems (hc.holds i) with hn | ⟨token', hone, ⟨r₀, ho, -⟩, e, he, rfl⟩
      · rw [hn] at ht
        cases ht
      · rw [hone] at ht
        obtain rfl := List.mem_singleton.mp ht
        have hlt := hc.drawn family e.1 (Option.ne_none_iff_exists'.mpr ⟨r₀, ho.2⟩)
        refine ⟨Nat.lt_add_right _ hlt, fun r hr hu => ?_⟩
        rcases h.unused hc.drawn hr hu with ⟨-, hne⟩ | ⟨heq, -⟩
        · exact hne e he rfl
        · exact Nat.ne_of_lt hlt heq
    · exact kept ht

/-- A law that says nothing of locks and whose tokens live no longer. -/
theorem FreshestLinkWins.mono (h : FreshestLinkWins w family) (hist : w'.history = w.history)
    (hlive : ∀ user token, w'.isLive family user token = true → w.isLive family user token = true) :
    FreshestLinkWins w' family where
  unique user token token' ht ht' := h.unique user token token' (hlive _ _ ht) (hlive _ _ ht')
  freshest user token ht := by
    rw [hist]
    exact h.freshest user token (hlive _ _ ht)
  once := by
    rw [hist]
    exact h.once

theorem isLive_of_tick {seconds : ℕ}
    (h : (w.apply pid (.tick seconds)).isLive family user token = true) :
    w.isLive family user token = true := by
  obtain ⟨r, hr, hlive⟩ := (Option.any_eq_true _ _).mp h
  obtain ⟨hu, hexp⟩ := of_decide_eq_true hlive
  refine (Option.any_eq_true _ _).mpr ⟨r, hr, decide_eq_true ⟨hu, ?_⟩⟩
  exact Nat.lt_of_le_of_lt (Nat.le_add_right _ seconds) hexp

theorem Lawful.after {c : State} {i : Pid} (hc : Lawful c) (hok : RetiresLive c i a)
    (hs : (c.procs i).step S i a c.world = some (p, f)) : Lawful (c.after i p f) := by
  have hlaw : (∀ family, FreshestLinkWins (c.world.apply i f) family) ∧
      (c.world.apply i f).RedeemedAreUsed := by
    cases f with
    | skip | lock => exact ⟨fun family => (hc.wins family).mono rfl fun _ _ h => h, hc.redeemed⟩
    | tick => exact
      ⟨fun family => (hc.wins family).mono rfl fun _ _ h => isLive_of_tick h, hc.redeemed⟩
    | commit tx =>
      have hcom := (commits_of_step hs).1
      obtain ⟨honce, hred⟩ := hc.redeemed_commit hcom
      refine ⟨fun family => ?_, hred⟩
      by_cases ha : a = .error
      · subst ha
        cases (step_error hs).2
        exact (hc.wins family).mono rfl fun _ _ h => h
      · have hfresh : ∀ user token, (c.world.commit i tx).isLive family user token = true →
            Links.lastIssued family user (c.world.commit i tx).history = some token :=
          fun user token ht => hc.freshest_commit hok ha hcom ht
        refine ⟨fun user token token' ht ht' => ?_, hfresh, honce family⟩
        exact Option.some.inj ((hfresh user token ht).symm.trans (hfresh user token' ht'))
  exact ⟨hc.drawn.step hs, hc.holds_after hs, hc.covers_after hs, hlaw.1, hlaw.2⟩

/-- **The freshest link wins** in both families, in every run in which a request for an e-mail
verification has retired every live token when it issues its own. -/
theorem freshestLinkWins_of_reach {c : State} (h : (system S).Reach Deployed RetiresLive c)
    (family : Family) : FreshestLinkWins c.world family := by
  have hc : Lawful c := by
    refine h.invariant (fun c hc => hc.lawful) fun c c' i a hc hok hn => ?_
    obtain ⟨p, f, hs, rfl⟩ := next_eq_some.mp hn
    exact hc.after hok hs
  exact hc.wins family

/-! ### Two requests for an e-mail verification -/

/-- An active user who is not verified, and no tokens. -/
def registered (procs : List Proc) : State where
  procs i := procs.getD i .done
  world :=
    { users := .unlocked fun user => if user = 0 then some ⟨true, false⟩ else none
      tokens := fun _ => .unlocked fun _ => none
      history := []
      uuid := 0
      now := 0 }

theorem deployed_registered {procs : List Proc} (h : ∀ p ∈ procs, p.IsFresh) :
    Deployed (registered procs) where
  world :=
    { users := rfl
      tokens := fun _ => rfl
      drawn := fun _ _ ht => (ht rfl).elim
      wins := fun _ =>
        { unique := fun _ _ _ ht => by cases ht
          freshest := fun _ _ ht => by cases ht
          once := List.nodup_nil }
      redeemed := fun _ _ ht => by cases ht }
  fresh i := by
    by_cases hi : i < procs.length
    · simpa [registered, hi] using h _ (List.getElem_mem hi)
    · simp [registered, hi, Proc.IsFresh]

/-- Two requests for an e-mail verification, a request for a password reset, and a verification. -/
def twoRequests : State :=
  registered [.requestEmailVerification 0 .authenticate, .requestEmailVerification 0 .authenticate,
    .requestPasswordReset 0 .readUser, .confirmEmailVerification 1 .lockToken]

theorem deployed_twoRequests : Deployed twoRequests := by
  refine deployed_registered ?_
  simp [Proc.IsFresh]

/-- A request for an e-mail verification: it authenticates, sees these tokens, retires them, commits
and delivers. -/
def issueTurns (i : Pid) (tokens : List TokenId) : List (Pid × Answer) :=
  [(i, .ok), (i, .snapshot tokens)] ++ List.replicate (tokens.length + 2) (i, .ok)

/-- **Requests that do not overlap.** -/
theorem exists_freshestLinkWins :
    ∃ c : State, (∀ family, FreshestLinkWins c.world family) ∧
      c.world.history = [.redeemed .emailVerification 1, .issued .passwordReset 0 2,
        .issued .emailVerification 0 1, .issued .emailVerification 0 0] := by
  obtain ⟨c, hc, hb⟩ := Machine.exists_reach_of_exec (system .default) RetiresLive
    deployed_twoRequests
    (issueTurns 0 [] ++ issueTurns 1 [0] ++ ((2, .ok) :: issueTurns 2 []) ++
      List.replicate 3 (3, .ok))
    (fun c => c.world.history = [.redeemed .emailVerification 1, .issued .passwordReset 0 2,
      .issued .emailVerification 0 1, .issued .emailVerification 0 0]) (by decide +kernel)
  exact ⟨c, freshestLinkWins_of_reach hc, of_decide_eq_true hb⟩

/-- **Two live tokens.** Neither request sees the token of the other. -/
theorem exists_not_freshestLinkWins :
    ∃ c : State, (system .default).Reach Deployed Machine.Always c ∧
      ¬ FreshestLinkWins c.world .emailVerification := by
  obtain ⟨c, hc, hb⟩ := Machine.exists_reach_of_exec (system .default) Machine.Always
    deployed_twoRequests
    [(0, .ok), (1, .ok), (0, .snapshot []), (1, .snapshot []), (0, .ok), (1, .ok)]
    (fun c => c.world.isLive .emailVerification 0 0 && c.world.isLive .emailVerification 0 1)
    (by decide +kernel)
  obtain ⟨h₀, h₁⟩ := Bool.and_eq_true_iff.mp hb
  exact ⟨c, hc, fun h => Nat.zero_ne_one (h.unique 0 0 1 h₀ h₁)⟩

end NextBallUp.Links
