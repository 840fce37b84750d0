import NextBallUp.Teams.Requests

/-!
# Invites grant what they say

In every state that runs of the three requests reach, an invite has been used as many times as
there are memberships that have come about through it, and at most as often as it allows; a user has
one membership of a team; and whoever coaches a team has created it, or was invited to coach it. The
seat of a head coach goes back, invite by invite, to the creator of the team or to an operator.

## Main definitions

* `World.Through`: a membership has come about through an invite
* `World.Entitled`: where the seat of a head coach comes from
* `World.GrantsNoMore`: the law
* `Proc.Holds`: what a request has locked, inserted and found out at its program point
* `Commits`: everything that a request can commit
* `World.Sound`: the invariant

## Main results

* `Proc.step_sound`: a turn locks and writes only what it may, and establishes what holds at the
  next program point
* `World.Sound.apply`: what a turn may do keeps the invariant
* `grantsNoMore_of_reach`: **the law holds in every state reached**
-/

namespace NextBallUp.Teams

open Rls (User UserRole TeamRole)

variable {requireVerified : Bool} {pid j : Pid} {a : Answer} {w w' : World} {p p' : Proc}
  {f : Effect} {userId : UserId} {code : String} {m seat : Membership} {invite : Invite}

/-! ### The law -/

/-- The user is an operator. -/
def World.IsAdmin (w : World) (userId : UserId) : Prop :=
  ∃ user, w.account userId = some user ∧ user.role = .admin

/-- The membership is that of the user who has created the team. -/
def World.CreatedTeam (w : World) (m : Membership) : Prop :=
  m.origin = .created ∧ ∃ team ∈ w.teams.rows, team.id = m.teamId ∧ team.creator = m.userId

/-- The membership has come about through the invite of this code, and is of the team and has the
role that the invite says. -/
structure World.Through (w : World) (m : Membership) (code : String) (invite : Invite) : Prop where
  row : w.invites.row code = some invite
  origin : m.origin = .invite code
  team : m.teamId = invite.teamId
  role : m.teamRole = invite.role

/-- The user has issued something for the team as its head coach: this is the membership that the
request has found. -/
structure World.IsHeadCoach (w : World) (userId : UserId) (teamId : TeamId)
    (authority : Option Membership) (seat : Membership) : Prop where
  authority : authority = some seat
  mem : seat ∈ w.memberships.rows
  team : seat.teamId = teamId
  user : seat.userId = userId
  role : seat.teamRole = .headCoach

/-- Where the seat of a head coach comes from: its holder has created the team, or was invited by an
operator, or by a head coach whose own seat comes from somewhere. -/
inductive World.Entitled (w : World) : Membership → Prop
  | creator {m : Membership} : w.CreatedTeam m → Entitled w m
  | admin {m : Membership} {code : String} {invite : Invite} :
      w.Through m code invite → w.IsAdmin invite.createdBy → Entitled w m
  | headCoach {m seat : Membership} {code : String} {invite : Invite} :
      w.Through m code invite →
      w.IsHeadCoach invite.createdBy invite.teamId invite.authority seat → Entitled w seat →
      Entitled w m

/-- How many memberships have come about through the invite of a code. -/
def World.joins (w : World) (code : String) : ℕ :=
  w.memberships.rows.countP fun m => m.origin = .invite code

/-- **Invites grant what they say and no more.** The last two hold of operators as well. -/
structure World.GrantsNoMore (w : World) : Prop where
  uses_nonneg : ∀ code invite, w.invites.row code = some invite → 0 ≤ invite.uses
  uses_le : ∀ code invite, w.invites.row code = some invite → invite.uses ≤ invite.maxUses
  uses_eq : ∀ code invite, w.invites.row code = some invite → invite.uses = w.joins code
  one_membership : (w.memberships.rows.map fun m => (m.teamId, m.userId)).Nodup
  coach : ∀ m ∈ w.memberships.rows, m.teamRole.isCoach = true →
    w.CreatedTeam m ∨ ∃ code invite, w.Through m code invite
  headCoach : ∀ m ∈ w.memberships.rows, m.teamRole = .headCoach → w.Entitled m

/-! ### What a request knows -/

/-- The user may issue an invite for this role. -/
def World.MayIssue (w : World) (userId : UserId) (role : TeamRole) (teamId : TeamId)
    (authority : Option Membership) : Prop :=
  role = .headCoach → w.IsAdmin userId ∨ ∃ seat, w.IsHeadCoach userId teamId authority seat

/-- The issuer of the invite may issue it. -/
def World.RightlyIssued (w : World) (invite : Invite) : Prop :=
  w.MayIssue invite.createdBy invite.role invite.teamId invite.authority

/-- Session `pid` has inserted these rows and nothing else. -/
structure World.Inserted (w : World) (pid : Pid) (teams : List Team)
    (memberships : List Membership) : Prop where
  teams : w.teams.own pid = teams
  memberships : w.memberships.own pid = memberships

/-- The membership is that of the creator of the team. -/
structure Founds (team : Team) (m : Membership) : Prop where
  origin : m.origin = .created
  teamId : team.id = m.teamId
  creator : team.creator = m.userId

/-- Session `pid` has locked the invite of this code, which can be used once more. -/
structure World.Usable (w : World) (pid : Pid) (code : String) (invite : Invite) : Prop where
  owns : w.invites.Owns pid code (some invite)
  uses_lt : invite.uses < invite.maxUses

/-- The membership is what the invite of this code says. -/
structure Invite.Grants (invite : Invite) (code : String) (m : Membership) : Prop where
  origin : m.origin = .invite code
  team : m.teamId = invite.teamId
  role : m.teamRole = invite.role

/-- The invite has just been made by someone who may. -/
structure World.IsNew (w : World) (invite : Invite) : Prop where
  uses : invite.uses = 0
  maxUses : 1 ≤ invite.maxUses
  issued : w.RightlyIssued invite

def CreateTeam.Holds (pid : Pid) (userId : UserId) (w : World) : CreateTeam.Pc → Prop
  | .authenticate | .generate _ | .insertTeam _ => w.Inserted pid [] []
  | .insertMembership team => w.Inserted pid [team] [] ∧ team.creator = userId
  | .commit team m => w.Inserted pid [team] [m] ∧ Founds team m

def CreateInvite.Holds (pid : Pid) (userId : UserId) (payload : CreateInviteRequest) (w : World)
    (pc : CreateInvite.Pc) : Prop :=
  w.Inserted pid [] [] ∧ match pc with
    | .authenticate => True
    | .readTeam user | .readMembership user _ => w.account userId = some user
    | .generate teamId authority _ | .insertInvite teamId authority _ _ =>
      w.MayIssue userId payload.role teamId authority
    | .commit invite => w.invites.Owns pid invite.inviteCode none ∧ w.IsNew invite

def JoinTeam.Holds (pid : Pid) (code : String) (w : World) : JoinTeam.Pc → Prop
  | .authenticate | .readTeam _ | .lockInvite _ => w.Inserted pid [] []
  | .readTeamOfInvite _ invite =>
    w.Inserted pid [] [] ∧ w.invites.Owns pid code (some invite)
  | .readMembership _ team invite | .readJerseyNumber _ team invite
  | .insertMembership _ team invite =>
    w.Inserted pid [] [] ∧ ∀ i ∈ invite, w.Usable pid code i ∧ team.id = i.teamId
  | .updateInvite invite m | .commit (some invite) m =>
    w.Inserted pid [] [m] ∧ w.Usable pid code invite ∧ invite.Grants code m
  | .commit none m => w.Inserted pid [] [m] ∧ m.origin = .teamCode ∧ m.teamRole = .player

/-- **What a request has locked, inserted and found out.** -/
def Proc.Holds (pid : Pid) (w : World) : Proc → Prop
  | .createTeam userId pc => CreateTeam.Holds pid userId w pc
  | .createInvite userId _ payload pc => CreateInvite.Holds pid userId payload w pc
  | .joinTeam _ payload pc => JoinTeam.Holds pid payload.inviteCode w pc
  | .clock | .done => w.Inserted pid [] []

/-- Everything that a request can commit: the invites that it writes, beside the rows that it has
inserted. -/
inductive Commits (pid : Pid) (w : World) : List (String × Invite) → Prop
  | nothing : w.Inserted pid [] [] → Commits pid w []
  | founded {team : Team} {m : Membership} :
      w.Inserted pid [team] [m] → Founds team m → Commits pid w []
  | issued {invite : Invite} : w.Inserted pid [] [] →
      w.invites.Owns pid invite.inviteCode none → w.IsNew invite →
      Commits pid w [(invite.inviteCode, invite)]
  | joined {m : Membership} : w.Inserted pid [] [m] → m.origin = .teamCode →
      m.teamRole = .player → Commits pid w []
  | used {code : String} {invite : Invite} {m : Membership} : w.Inserted pid [] [m] →
      w.Usable pid code invite → invite.Grants code m → Commits pid w [(code, invite.use)]

/-- What session `pid` may do. -/
def Effect.Permitted (pid : Pid) (w : World) : Effect → Prop
  | .lockInvite code => w.invites.Free pid code
  | .insertMembership m => w.memberships.Fits Membership.Clashes m
  | .commit invites => Commits pid w invites
  | _ => True

/-! ### Growth

Rows are only added, and of an invite only the number of uses changes. -/

/-- What there is in `w` is still there in `w'`. -/
structure World.Grows (w w' : World) : Prop where
  users : w'.users = w.users
  teams : w.teams.rows ⊆ w'.teams.rows
  memberships : w.memberships.rows ⊆ w'.memberships.rows
  invites : ∀ code invite, w.invites.row code = some invite →
    ∃ n, w'.invites.row code = some { invite with uses := n }

theorem World.Grows.of_rows (hu : w'.users = w.users) (ht : w'.teams.rows = w.teams.rows)
    (hm : w'.memberships.rows = w.memberships.rows) (hi : w'.invites.row = w.invites.row) :
    w.Grows w' :=
  ⟨hu, ht ▸ List.Subset.refl _, hm ▸ List.Subset.refl _, fun _ invite h => ⟨invite.uses, hi ▸ h⟩⟩

theorem World.IsAdmin.mono (hg : w.Grows w') (h : w.IsAdmin userId) : w'.IsAdmin userId := by
  obtain ⟨user, hu, hadmin⟩ := h
  refine ⟨user, ?_, hadmin⟩
  rw [World.account, hg.users]
  exact hu

theorem World.CreatedTeam.mono (hg : w.Grows w') (h : w.CreatedTeam m) : w'.CreatedTeam m := by
  obtain ⟨ho, team, ht, hid⟩ := h
  exact ⟨ho, team, hg.teams ht, hid⟩

theorem World.Through.mono (hg : w.Grows w') (h : w.Through m code invite) :
    ∃ n, w'.Through m code { invite with uses := n } := by
  obtain ⟨n, hn⟩ := hg.invites code invite h.row
  exact ⟨n, hn, h.origin, h.team, h.role⟩

theorem World.IsHeadCoach.mono {teamId : TeamId} {authority : Option Membership} (hg : w.Grows w')
    (h : w.IsHeadCoach userId teamId authority seat) :
    w'.IsHeadCoach userId teamId authority seat :=
  ⟨h.authority, hg.memberships h.mem, h.team, h.user, h.role⟩

theorem World.MayIssue.mono {role : TeamRole} {teamId : TeamId} {authority : Option Membership}
    (hg : w.Grows w') (h : w.MayIssue userId role teamId authority) :
    w'.MayIssue userId role teamId authority := by
  intro hr
  obtain ha | ⟨seat, hs⟩ := h hr
  · exact .inl (ha.mono hg)
  · exact .inr ⟨seat, hs.mono hg⟩

/-- A seat that comes from somewhere keeps coming from there. -/
theorem World.Entitled.mono (hg : w.Grows w') (h : w.Entitled m) : w'.Entitled m := by
  induction h with
  | creator h => exact .creator (h.mono hg)
  | admin ht ha =>
    obtain ⟨n, ht⟩ := ht.mono hg
    exact .admin ht (ha.mono hg)
  | headCoach ht hs _ ih =>
    obtain ⟨n, ht⟩ := ht.mono hg
    exact .headCoach ht (hs.mono hg) ih

theorem grows_lock : w.Grows (w.apply pid (.lockInvite code)) := .of_rows rfl rfl rfl rfl

/-- The invites of a commit are new, or are used once more. -/
theorem Commits.invite_cases {l : List (String × Invite)} (h : Commits pid w l) :
    (∀ e ∈ l, w.invites.lock e.1 = some pid) ∧ ∀ code invite, w.invites.row code = some invite →
      ∃ n, (w.invites.putAll l).row code = some { invite with uses := n } := by
  have same : ∀ code invite, w.invites.row code = some invite →
      ∃ n, w.invites.row code = some { invite with uses := n } :=
    fun code invite hr => ⟨invite.uses, hr⟩
  cases h with
  | nothing | founded | joined => exact ⟨fun e he => (List.not_mem_nil he).elim, same⟩
  | @issued invite _ howns _ =>
    refine ⟨fun e he => List.mem_singleton.mp he ▸ howns.1, fun code i hi => ?_⟩
    have hne : code ≠ invite.inviteCode := by
      rintro rfl
      rw [howns.2] at hi
      cases hi
    rw [Table.putAll_cons, Table.putAll_nil, Table.row_put, if_neg hne]
    exact same code i hi
  | @used code invite m _ husable _ =>
    refine ⟨fun e he => List.mem_singleton.mp he ▸ husable.owns.1, fun code' i hi => ?_⟩
    rw [Table.putAll_cons, Table.putAll_nil, Table.row_put]
    split
    · next hc =>
      rw [hc, husable.owns.2] at hi
      cases hi
      exact ⟨invite.uses + 1, rfl⟩
    · exact same code' i hi

/-- What a turn may do makes the world grow. -/
theorem Effect.Permitted.grows (h : f.Permitted pid w) : w.Grows (w.apply pid f) := by
  cases f with
  | commit l =>
    exact ⟨rfl, List.subset_append_left _ _, List.subset_append_left _ _,
      (Commits.invite_cases h).2⟩
  | _ => exact .of_rows rfl rfl rfl rfl

/-! ### Turns are sound -/

theorem World.Inserted.lock {teams : List Team} {memberships : List Membership}
    (h : w.Inserted pid teams memberships) :
    (w.apply pid (.lockInvite code)).Inserted pid teams memberships :=
  ⟨h.teams, h.memberships⟩

theorem inserted_commit {l : List (String × Invite)} :
    (w.apply pid (.commit l)).Inserted pid [] [] :=
  ⟨UniqueTable.own_commit_self, UniqueTable.own_commit_self⟩

theorem inserted_rollback : (w.apply pid .rollback).Inserted pid [] [] :=
  ⟨UniqueTable.own_rollback_self, UniqueTable.own_rollback_self⟩

theorem account_eq_some {user : User} (h : w.account userId = some user) : user.id = userId := by
  simpa using List.find?_some h

theorem currentUser_eq_some {user : User} (h : currentUser requireVerified w userId = some user) :
    w.account userId = some user :=
  (Option.filter_eq_some_iff.mp h).1

theorem see_eq_some {R : Type} {row : Option R} {r : R} (h : a.see row = some r) :
    row = some r := by
  unfold Answer.see at h
  split at h
  · cases h
  · exact h

/-- A turn of the search for a code. -/
theorem GenerateInviteCode.cases {here : Pc → Proc} {after : String → Turn} {pc : Pc}
    (h : GenerateInviteCode.step w a here after pc = some (p', f)) :
    (∃ pc', p' = here pc' ∧ f = .skip) ∨ (p' = .done ∧ f = .rollback) ∨
      ∃ code, after code = some (p', f) := by
  cases pc with
  | generate retries =>
    cases retries with
    | zero =>
      cases h
      exact .inr (.inl ⟨rfl, rfl⟩)
    | succ retries =>
      cases a <;> cases h
      exact .inl ⟨_, rfl, rfl⟩
  | readTeam retries code =>
    simp only [GenerateInviteCode.step] at h
    split at h <;> cases h <;> exact .inl ⟨_, rfl, rfl⟩
  | readInvite retries code =>
    simp only [GenerateInviteCode.step] at h
    split at h
    · cases h
      exact .inl ⟨_, rfl, rfl⟩
    · exact .inr (.inr ⟨code, h⟩)

theorem CreateTeam.sound {pc : CreateTeam.Pc} (hp : CreateTeam.Holds pid userId w pc)
    (h : CreateTeam.step requireVerified pid w a userId pc = some (p', f)) :
    f.Permitted pid w ∧ p'.Holds pid (w.apply pid f) := by
  cases pc with
  | authenticate =>
    simp only [CreateTeam.step] at h
    split at h
    · cases h
      exact ⟨trivial, inserted_rollback⟩
    · split at h <;> cases h
      · exact ⟨trivial, hp⟩
      · exact ⟨trivial, inserted_rollback⟩
  | generate pc =>
    rw [CreateTeam.step] at h
    obtain ⟨pc', rfl, rfl⟩ | ⟨rfl, rfl⟩ | ⟨code, h⟩ := GenerateInviteCode.cases h
    · exact ⟨trivial, hp⟩
    · exact ⟨trivial, inserted_rollback⟩
    · cases h
      exact ⟨trivial, hp⟩
  | insertTeam code =>
    cases a with
    | uuid id =>
      simp only [CreateTeam.step, UniqueTable.tryInsert_eq_some] at h
      obtain ⟨-, he⟩ | ⟨-, he⟩ := h <;> cases he
      · exact ⟨trivial, inserted_rollback⟩
      · refine ⟨trivial, ⟨?_, hp.memberships⟩, rfl⟩
        show (w.teams.insert pid _).own pid = _
        rw [UniqueTable.own_insert_self, hp.teams]
    | _ => cases h
  | insertMembership team =>
    cases a with
    | uuid id =>
      simp only [CreateTeam.step, UniqueTable.tryInsert_eq_some] at h
      obtain ⟨-, he⟩ | ⟨hfit, he⟩ := h <;> cases he
      · exact ⟨trivial, inserted_rollback⟩
      · refine ⟨hfit, ⟨hp.1.teams, ?_⟩, rfl, rfl, hp.2⟩
        show (w.memberships.insert pid _).own pid = _
        rw [UniqueTable.own_insert_self, hp.1.memberships]
    | _ => cases h
  | commit team m =>
    cases h
    exact ⟨.founded hp.1 hp.2, inserted_commit⟩

/-- The user whom the check of the role lets issue the invite may issue it. -/
theorem mayIssue_of_requireTeamCoach {user : User} {role teamRole : TeamRole} {teamId : TeamId}
    {authority : Option Membership} (hu : w.account userId = some user)
    (h : requireTeamCoach user (a.see (w.memberships.rows.find? fun m =>
      m.teamId = teamId && m.userId = user.id && m.isActive)) = some (teamRole, authority))
    (hrole : ¬(role = .headCoach ∧ user.role ≠ .admin ∧ teamRole ≠ .headCoach)) :
    w.MayIssue userId role teamId authority := by
  intro hr
  by_cases hadmin : user.role = .admin
  · exact .inl ⟨user, hu, hadmin⟩
  · have hhead : teamRole = .headCoach := by
      by_contra hne
      exact hrole ⟨hr, hadmin, hne⟩
    right
    unfold requireTeamCoach at h
    split at h
    · exact (hadmin ‹_›).elim
    · exact (hadmin ‹_›).elim
    · cases h
    · next seat hs _ =>
      have hfind := see_eq_some hs
      split at h <;> cases h
      have hmatch := List.find?_some hfind
      simp only [Bool.and_eq_true, decide_eq_true_eq] at hmatch
      exact ⟨seat, rfl, List.mem_of_find?_eq_some hfind, hmatch.1.1,
        hmatch.1.2.trans (account_eq_some hu), hhead⟩

theorem CreateInvite.sound {teamId : TeamId} {payload : CreateInviteRequest} {pc : CreateInvite.Pc}
    (hp : CreateInvite.Holds pid userId payload w pc)
    (h : CreateInvite.step requireVerified pid w a userId teamId payload pc = some (p', f)) :
    f.Permitted pid w ∧ p'.Holds pid (w.apply pid f) := by
  obtain ⟨hown, hp⟩ := hp
  cases pc with
  | authenticate =>
    simp only [CreateInvite.step] at h
    split at h <;> cases h
    · exact ⟨trivial, inserted_rollback⟩
    · exact ⟨trivial, hown, currentUser_eq_some ‹_›⟩
  | readTeam user =>
    simp only [CreateInvite.step] at h
    split at h <;> cases h
    · exact ⟨trivial, inserted_rollback⟩
    · exact ⟨trivial, hown, hp⟩
  | readMembership user team =>
    simp only [CreateInvite.step] at h
    split at h
    · cases h
      exact ⟨trivial, inserted_rollback⟩
    · next hcoach =>
      split at h <;> cases h
      · exact ⟨trivial, inserted_rollback⟩
      · next hrole => exact ⟨trivial, hown, mayIssue_of_requireTeamCoach hp hcoach hrole⟩
  | generate team authority pc =>
    rw [CreateInvite.step] at h
    obtain ⟨pc', rfl, rfl⟩ | ⟨rfl, rfl⟩ | ⟨code, h⟩ := GenerateInviteCode.cases h
    · exact ⟨trivial, hown, hp⟩
    · exact ⟨trivial, inserted_rollback⟩
    · cases h
      exact ⟨trivial, hown, hp⟩
  | insertInvite team authority code expiresAt =>
    cases a with
    | uuid id =>
      simp only [CreateInvite.step, Table.tryInsert_eq_some] at h
      obtain ⟨-, he⟩ | ⟨⟨hrow, hfree⟩, he⟩ := h <;> cases he
      · exact ⟨trivial, inserted_rollback⟩
      · refine ⟨hfree, hown.lock, ?_, rfl, payload.maxUses_ge, hp.mono grows_lock⟩
        exact hrow ▸ Table.owns_acquireAll (List.mem_singleton_self code)
    | _ => cases h
  | commit invite =>
    cases h
    exact ⟨.issued hown hp.1 hp.2, inserted_commit⟩

/-- The checks end the request, or find that the invite can be used once more. -/
theorem JoinTeam.checks_cases {user : User} {team : Option Team} {invite : Option Invite}
    {after : Team → Proc} (h : JoinTeam.checks w user team invite after = some (p', f)) :
    (p' = .done ∧ f = .commit []) ∨ ∃ t, team = some t ∧
      (∀ i ∈ invite, i.uses < i.maxUses) ∧ p' = after t ∧ f = .skip := by
  unfold JoinTeam.checks at h
  split at h
  · cases h
    exact .inl ⟨rfl, rfl⟩
  · next t ht =>
    split at h
    · cases h
      exact .inl ⟨rfl, rfl⟩
    · next hnone =>
      split at h <;> cases h
      · refine .inr ⟨t, (Option.filter_eq_some_iff.mp ht).1, ?_, rfl, rfl⟩
        intro i hi
        obtain rfl := Option.mem_def.mp hi
        by_contra hlt
        have hle : i.maxUses ≤ i.uses := Int.not_lt.mp hlt
        simp only [Option.bind_some, Rls.inviteRejection] at hnone
        split at hnone
        · cases hnone
        · split at hnone
          · cases hnone
          · cases hnone
      · exact .inl ⟨rfl, rfl⟩

theorem JoinTeam.sound {payload : JoinTeamRequest} {pc : JoinTeam.Pc}
    (hp : JoinTeam.Holds pid payload.inviteCode w pc)
    (h : JoinTeam.step requireVerified pid w a userId payload pc = some (p', f)) :
    f.Permitted pid w ∧ p'.Holds pid (w.apply pid f) := by
  have fails (hown : w.Inserted pid [] []) :
      (Effect.commit []).Permitted pid w ∧ Proc.done.Holds pid (w.apply pid (.commit [])) :=
    ⟨.nothing hown, inserted_commit⟩
  cases pc with
  | authenticate =>
    simp only [JoinTeam.step] at h
    split at h <;> cases h
    · exact ⟨trivial, inserted_rollback⟩
    · exact ⟨trivial, hp⟩
  | readTeam user =>
    simp only [JoinTeam.step] at h
    split at h
    · cases h
      exact ⟨trivial, hp⟩
    · obtain ⟨rfl, rfl⟩ | ⟨t, -, -, rfl, rfl⟩ := JoinTeam.checks_cases h
      · exact fails hp
      · exact ⟨trivial, hp, fun i hi => by cases hi⟩
  | lockInvite user =>
    simp only [JoinTeam.step] at h
    split at h
    · cases h
      exact fails hp
    · simp only [Table.locate_eq_some] at h
      obtain ⟨o, ho, he⟩ := h
      cases ho with
      | miss =>
        cases he
        exact fails hp
      | hit hr _ hfree =>
        cases he
        exact ⟨hfree, World.Inserted.lock hp,
          hr ▸ Table.owns_acquireAll (List.mem_singleton_self _)⟩
  | readTeamOfInvite user invite =>
    rw [JoinTeam.step] at h
    obtain ⟨rfl, rfl⟩ | ⟨t, ht, huses, rfl, rfl⟩ := JoinTeam.checks_cases h
    · exact fails hp.1
    · refine ⟨trivial, hp.1, fun i hi => ?_⟩
      cases hi
      exact ⟨⟨hp.2, huses _ rfl⟩, by simpa using List.find?_some (see_eq_some ht)⟩
  | readMembership user team invite =>
    simp only [JoinTeam.step] at h
    split at h
    · cases h
      exact fails hp.1
    · split at h
      · cases h
        exact fails hp.1
      · split at h <;> cases h
        · exact ⟨trivial, hp⟩
        · exact ⟨trivial, hp⟩
  | readJerseyNumber user team invite =>
    simp only [JoinTeam.step] at h
    split at h <;> cases h
    · exact fails hp.1
    · exact ⟨trivial, hp⟩
  | insertMembership user team invite =>
    cases a with
    | uuid id =>
      simp only [JoinTeam.step, UniqueTable.tryInsert_eq_some] at h
      obtain ⟨-, he⟩ | ⟨hfit, he⟩ := h <;> cases he
      · exact ⟨trivial, inserted_rollback⟩
      · have hown : (w.apply pid (.insertMembership (newMembership user payload team invite id)))
            |>.Inserted pid [] [newMembership user payload team invite id] := by
          refine ⟨hp.1.teams, ?_⟩
          show (w.memberships.insert pid _).own pid = _
          rw [UniqueTable.own_insert_self, hp.1.memberships]
        cases invite with
        | none => exact ⟨hfit, hown, rfl, rfl⟩
        | some invite =>
          obtain ⟨husable, hteam⟩ := hp.2 invite rfl
          exact ⟨hfit, hown, ⟨husable.owns, husable.uses_lt⟩, rfl, hteam, rfl⟩
    | _ => cases h
  | updateInvite invite m =>
    simp only [JoinTeam.step] at h
    split at h <;> cases h
    · exact ⟨trivial, inserted_rollback⟩
    · exact ⟨trivial, hp⟩
  | commit invite m =>
    cases invite with
    | none =>
      cases h
      exact ⟨.joined hp.1 hp.2.1 hp.2.2, inserted_commit⟩
    | some invite =>
      cases h
      exact ⟨.used hp.1 hp.2.1 hp.2.2, inserted_commit⟩

/-- **Turns are sound.** -/
theorem Proc.step_sound (hp : p.Holds pid w) (h : p.step requireVerified pid a w = some (p', f)) :
    f.Permitted pid w ∧ p'.Holds pid (w.apply pid f) := by
  by_cases ha : a = .error
  · subst ha
    cases p <;> cases h <;> exact ⟨trivial, inserted_rollback⟩
  · have hturn : p.step requireVerified pid a w = p.turn requireVerified pid w a := by
      cases a <;> first | rfl | exact (ha rfl).elim
    rw [hturn] at h
    cases p with
    | createTeam userId pc => exact CreateTeam.sound hp h
    | createInvite userId teamId payload pc => exact CreateInvite.sound hp h
    | joinTeam userId payload pc => exact JoinTeam.sound hp h
    | clock =>
      cases a <;> cases h
      exact ⟨trivial, hp.teams, hp.memberships⟩
    | done => cases h

/-! ### Other requests -/

theorem World.Inserted.other {teams : List Team} {memberships : List Membership} (hj : j ≠ pid)
    (h : w.Inserted j teams memberships) : (w.apply pid f).Inserted j teams memberships := by
  obtain ⟨ht, hm⟩ := h
  cases f with
  | insertTeam team => exact ⟨(UniqueTable.own_insert_of_ne hj).trans ht, hm⟩
  | insertMembership m => exact ⟨ht, (UniqueTable.own_insert_of_ne hj).trans hm⟩
  | commit l =>
    exact ⟨(UniqueTable.own_commit_of_ne hj).trans ht, (UniqueTable.own_commit_of_ne hj).trans hm⟩
  | rollback =>
    exact ⟨(UniqueTable.own_rollback_of_ne hj).trans ht,
      (UniqueTable.own_rollback_of_ne hj).trans hm⟩
  | skip | lockInvite | tick => exact ⟨ht, hm⟩

theorem Effect.Permitted.respects (h : f.Permitted pid w) :
    w.invites.Respects pid (w.apply pid f).invites := by
  cases f with
  | lockInvite code =>
    exact Table.respects_acquireAll fun k hk => List.mem_singleton.mp hk ▸ h
  | commit l =>
    have hfree : ∀ e ∈ l, w.invites.Free pid e.1 :=
      fun e he => .inr ((Commits.invite_cases h).1 e he)
    exact (Table.respects_putAll hfree).trans (Table.respects_release _ _)
  | rollback => exact Table.respects_release _ _
  | skip | insertTeam | insertMembership | tick => exact .refl _ _

theorem World.Usable.other (hj : j ≠ pid) (hf : f.Permitted pid w) (h : w.Usable j code invite) :
    (w.apply pid f).Usable j code invite :=
  ⟨hf.respects j hj _ _ h.owns, h.uses_lt⟩

/-- What a request knows stays true when another one takes a turn. -/
theorem Proc.Holds.other (hj : j ≠ pid) (hf : f.Permitted pid w) (hp : p.Holds j w) :
    p.Holds j (w.apply pid f) := by
  cases p with
  | createTeam userId pc =>
    cases pc with
    | authenticate | generate | insertTeam => exact World.Inserted.other hj hp
    | insertMembership | commit => exact ⟨hp.1.other hj, hp.2⟩
  | createInvite userId teamId payload pc =>
    obtain ⟨hown, hp⟩ := hp
    refine ⟨hown.other hj, ?_⟩
    cases pc with
    | authenticate => trivial
    | readTeam user | readMembership user team =>
      show (w.apply pid f).users.find? _ = _
      rw [hf.grows.users]
      exact hp
    | generate | insertInvite => exact World.MayIssue.mono hf.grows hp
    | commit invite =>
      exact ⟨hf.respects j hj _ _ hp.1, hp.2.uses, hp.2.maxUses, hp.2.issued.mono hf.grows⟩
  | joinTeam userId payload pc =>
    cases pc with
    | authenticate | readTeam | lockInvite => exact World.Inserted.other hj hp
    | readTeamOfInvite user invite => exact ⟨hp.1.other hj, hf.respects j hj _ _ hp.2⟩
    | readMembership user team invite | readJerseyNumber user team invite
    | insertMembership user team invite =>
      exact ⟨hp.1.other hj, fun i hi => ⟨(hp.2 i hi).1.other hj hf, (hp.2 i hi).2⟩⟩
    | updateInvite invite m => exact ⟨hp.1.other hj, hp.2.1.other hj hf, hp.2.2⟩
    | commit invite m =>
      cases invite with
      | none => exact ⟨hp.1.other hj, hp.2⟩
      | some invite => exact ⟨hp.1.other hj, hp.2.1.other hj hf, hp.2.2⟩
  | clock | done => exact World.Inserted.other hj hp

/-! ### The invariant -/

/-- The membership has come about in one of the three ways. -/
def World.Obtained (w : World) (m : Membership) : Prop :=
  w.CreatedTeam m ∨ m.origin = .teamCode ∧ m.teamRole = .player ∨
    ∃ code invite, w.Through m code invite

/-- The number of uses of the invite of a code is right, and within its bound. -/
structure World.Counts (w : World) (code : String) (invite : Invite) : Prop where
  uses_eq : invite.uses = w.joins code
  uses_le : invite.uses ≤ invite.maxUses

/-- **The invariant.** -/
structure World.Sound (w : World) : Prop where
  consistent : w.memberships.Consistent Membership.Clashes
  counts : ∀ code invite, w.invites.row code = some invite → w.Counts code invite
  issued : ∀ code invite, w.invites.row code = some invite → w.RightlyIssued invite
  obtained : ∀ m ∈ w.memberships.rows, w.Obtained m
  entitled : ∀ m ∈ w.memberships.rows, m.teamRole = .headCoach → w.Entitled m

theorem World.Obtained.mono (hg : w.Grows w') (h : w.Obtained m) : w'.Obtained m := by
  obtain h | h | ⟨code, invite, h⟩ := h
  · exact .inl (h.mono hg)
  · exact .inr (.inl h)
  · obtain ⟨n, hn⟩ := h.mono hg
    exact .inr (.inr ⟨code, _, hn⟩)

theorem Membership.clashes_symm (r q : Membership) (h : r.Clashes q) : q.Clashes r := by
  obtain h | ⟨ht, hu | ⟨hn, hj⟩⟩ := h
  · exact .inl h.symm
  · exact .inr ⟨ht.symm, .inl hu.symm⟩
  · exact .inr ⟨ht.symm, .inr ⟨hj ▸ hn, hj.symm⟩⟩

/-- Nobody has come through an invite that there is not. -/
theorem World.Sound.joins_eq_zero (h : w.Sound) (hr : w.invites.row code = none) :
    w.joins code = 0 := by
  refine List.countP_eq_zero.mpr fun m hm ho => ?_
  rw [decide_eq_true_eq] at ho
  obtain ⟨hc, -⟩ | ⟨hc, -⟩ | ⟨code', invite, ht⟩ := h.obtained m hm
  · rw [ho] at hc
    cases hc
  · rw [ho] at hc
    cases hc
  · have hcode : code = code' := by
      have he := ho.symm.trans ht.origin
      cases he
      rfl
    rw [hcode, ht.row] at hr
    cases hr

/-- What a commit does to the rows. -/
theorem rows_commit {l : List (String × Invite)} {teams : List Team} {ms : List Membership}
    (h : w.Inserted pid teams ms) :
    (w.apply pid (.commit l)).memberships.rows = w.memberships.rows ++ ms ∧
      (w.apply pid (.commit l)).teams.rows = w.teams.rows ++ teams := by
  obtain ⟨rfl, rfl⟩ := h
  exact ⟨rfl, rfl⟩

theorem joins_commit {l : List (String × Invite)} {teams : List Team} {ms : List Membership}
    (h : w.Inserted pid teams ms) :
    (w.apply pid (.commit l)).joins code =
      w.joins code + ms.countP fun m => m.origin = .invite code := by
  rw [World.joins, (rows_commit h).1, List.countP_append, World.joins]

/-- A membership that has not come about through the invite of a code is not counted for it. -/
theorem countP_origin_of_ne (h : m.origin ≠ .invite code) :
    [m].countP (fun m => m.origin = .invite code) = 0 := by
  simp [h]

/-- The number of uses of an invite is right after a commit. -/
theorem Commits.counts {l : List (String × Invite)} (hc : Commits pid w l) (h : w.Sound)
    (hr : (w.apply pid (.commit l)).invites.row code = some invite) :
    (w.apply pid (.commit l)).Counts code invite := by
  have unjoined {l : List (String × Invite)} {teams : List Team} {ms : List Membership}
      (hown : w.Inserted pid teams ms) (hms : (ms.countP fun m => m.origin = .invite code) = 0)
      (hr : w.invites.row code = some invite) : (w.apply pid (.commit l)).Counts code invite := by
    obtain ⟨he, hle⟩ := h.counts code invite hr
    exact ⟨by rw [joins_commit hown, hms, he]; rfl, hle⟩
  cases hc with
  | nothing hown => exact unjoined hown rfl hr
  | founded hown hm => exact unjoined hown (countP_origin_of_ne (by simp [hm.origin])) hr
  | joined hown ho => exact unjoined hown (countP_origin_of_ne (by simp [ho])) hr
  | @issued i hown howns hnew =>
    change ((w.invites.put i.inviteCode i).row code) = _ at hr
    rw [Table.row_put] at hr
    split at hr
    · next hcode =>
      cases hr
      refine ⟨?_, ?_⟩
      · rw [joins_commit hown, hcode, h.joins_eq_zero howns.2, hnew.uses]
        rfl
      · rw [hnew.uses]
        exact Int.le_trans (by decide) hnew.maxUses
    · exact unjoined hown rfl hr
  | @used code' i m hown husable hgrants =>
    change ((w.invites.put code' i.use).row code) = _ at hr
    rw [Table.row_put] at hr
    split at hr
    · next hcode =>
      cases hr
      obtain ⟨he, -⟩ := h.counts code' i husable.owns.2
      have hone : [m].countP (fun m => m.origin = .invite code') = 1 := by simp [hgrants.origin]
      refine ⟨?_, husable.uses_lt⟩
      rw [joins_commit hown, hcode, hone]
      show i.uses + 1 = _
      rw [he]
      rfl
    · next hcode =>
      refine unjoined hown (countP_origin_of_ne ?_) hr
      rw [hgrants.origin]
      intro he
      cases he
      exact hcode rfl

/-- What the memberships of a commit come from. -/
theorem Commits.membership_cases {l : List (String × Invite)} (hc : Commits pid w l) :
    ∃ teams ms, w.Inserted pid teams ms ∧ ∀ m ∈ ms, (w.apply pid (.commit l)).CreatedTeam m ∨
      m.origin = .teamCode ∧ m.teamRole = .player ∨ ∃ code invite, w.Through m code invite := by
  cases hc with
  | nothing hown | issued hown => exact ⟨[], [], hown, fun m hm => (List.not_mem_nil hm).elim⟩
  | @founded team m hown hm =>
    refine ⟨[team], [m], hown, fun m' hm' => ?_⟩
    obtain rfl := List.mem_singleton.mp hm'
    refine .inl ⟨hm.origin, team, ?_, hm.teamId, hm.creator⟩
    rw [(rows_commit hown).2]
    exact List.mem_append_right _ (List.mem_singleton_self _)
  | @joined m hown ho hr =>
    refine ⟨[], [m], hown, fun m' hm' => ?_⟩
    obtain rfl := List.mem_singleton.mp hm'
    exact .inr (.inl ⟨ho, hr⟩)
  | @used code invite m hown husable hgrants =>
    refine ⟨[], [m], hown, fun m' hm' => ?_⟩
    obtain rfl := List.mem_singleton.mp hm'
    exact .inr (.inr ⟨code, invite, husable.owns.2, hgrants.origin, hgrants.team, hgrants.role⟩)

/-- The invites of a commit have been issued rightly. -/
theorem Commits.issued_of_row {l : List (String × Invite)} (hc : Commits pid w l) (h : w.Sound)
    (hr : (w.apply pid (.commit l)).invites.row code = some invite) : w.RightlyIssued invite := by
  cases hc with
  | nothing | founded | joined => exact h.issued code invite hr
  | @issued i hown howns hnew =>
    change ((w.invites.put i.inviteCode i).row code) = _ at hr
    rw [Table.row_put] at hr
    split at hr
    · cases hr
      exact hnew.issued
    · exact h.issued code invite hr
  | @used code' i m hown husable hgrants =>
    change ((w.invites.put code' i.use).row code) = _ at hr
    rw [Table.row_put] at hr
    split at hr
    · cases hr
      exact h.issued code' i husable.owns.2
    · exact h.issued code invite hr

/-- **The seat of a head coach comes from somewhere**, if those that there are do and the invite has
been issued rightly. -/
theorem World.Sound.entitled_of_through (h : w.Sound) (ht : w.Through m code invite)
    (hr : m.teamRole = .headCoach) : w.Entitled m := by
  obtain ha | ⟨seat, hs⟩ := h.issued code invite ht.row (ht.role ▸ hr)
  · exact .admin ht ha
  · exact .headCoach ht hs (h.entitled seat hs.mem hs.role)

theorem World.Sound.commit {l : List (String × Invite)} (h : w.Sound) (hc : Commits pid w l) :
    (w.apply pid (.commit l)).Sound := by
  have hg : w.Grows (w.apply pid (.commit l)) := Effect.Permitted.grows (f := .commit l) hc
  obtain ⟨teams, ms, hown, hms⟩ := hc.membership_cases
  have hrows := (rows_commit (l := l) hown).1
  refine ⟨h.consistent.commit Membership.clashes_symm, fun code invite => hc.counts h,
    fun code invite hr => (hc.issued_of_row h hr).mono hg, fun m hm => ?_, fun m hm hr => ?_⟩
  · rw [hrows] at hm
    rcases List.mem_append.mp hm with hm | hm
    · exact (h.obtained m hm).mono hg
    · obtain hcreated | hcode | ⟨code, invite, ht⟩ := hms m hm
      · exact .inl hcreated
      · exact .inr (.inl hcode)
      · obtain ⟨n, hn⟩ := ht.mono hg
        exact .inr (.inr ⟨code, _, hn⟩)
  · rw [hrows] at hm
    rcases List.mem_append.mp hm with hm | hm
    · exact (h.entitled m hm hr).mono hg
    · obtain hcreated | ⟨-, hplayer⟩ | ⟨code, invite, ht⟩ := hms m hm
      · exact .creator hcreated
      · rw [hplayer] at hr
        cases hr
      · exact (h.entitled_of_through ht hr).mono hg

/-- The invariant is about committed rows and about clashes. -/
theorem World.Sound.of_rows (h : w.Sound) (hg : w.Grows w')
    (hc : w'.memberships.Consistent Membership.Clashes)
    (hm : w'.memberships.rows = w.memberships.rows) (hi : w'.invites.row = w.invites.row) :
    w'.Sound := by
  refine ⟨hc, fun code invite hr => ?_, fun code invite hr => ?_, fun m hr => ?_, fun m hr hh => ?_⟩
  · obtain ⟨he, hle⟩ := h.counts code invite (hi ▸ hr)
    exact ⟨by rw [World.joins, hm]; exact he, hle⟩
  · exact (h.issued code invite (hi ▸ hr)).mono hg
  · exact (h.obtained m (hm ▸ hr)).mono hg
  · exact (h.entitled m (hm ▸ hr) hh).mono hg

/-- **What a turn may do keeps the invariant.** -/
theorem World.Sound.apply (h : w.Sound) (hf : f.Permitted pid w) : (w.apply pid f).Sound := by
  have hg := hf.grows
  cases f with
  | commit l => exact h.commit hf
  | insertMembership m =>
    exact h.of_rows hg (h.consistent.insert Membership.clashes_symm hf) rfl rfl
  | rollback => exact h.of_rows hg h.consistent.rollback rfl rfl
  | skip | lockInvite | insertTeam | tick => exact h.of_rows hg h.consistent rfl rfl

/-! ### Runs -/

/-- The request has not begun. -/
def Proc.IsStart : Proc → Prop
  | .createTeam _ .authenticate | .createInvite _ _ _ .authenticate | .joinTeam _ _ .authenticate
  | .clock | .done => True
  | _ => False

/-- There are users and nothing else, and no request has begun. -/
structure State.IsInitial (c : State) : Prop where
  teams : c.world.teams = .empty
  memberships : c.world.memberships = .empty
  invites : c.world.invites = .unlocked fun _ => none
  start : ∀ i, (c.procs i).IsStart

theorem World.Sound.of_empty (hm : w.memberships = .empty)
    (hi : w.invites = .unlocked fun _ => none) : w.Sound := by
  have hrow : ∀ code, w.invites.row code = none := fun code => by rw [hi]; rfl
  have hmem : ∀ m, m ∉ w.memberships.rows := fun m => by rw [hm]; exact List.not_mem_nil
  refine ⟨hm ▸ UniqueTable.consistent_empty, fun code invite hr => ?_, fun code invite hr => ?_,
    fun m h => (hmem m h).elim, fun m h => (hmem m h).elim⟩ <;>
  · rw [hrow] at hr
    cases hr

theorem Proc.IsStart.holds (hs : p.IsStart) (hown : w.Inserted pid [] []) : p.Holds pid w := by
  cases p with
  | createTeam userId pc =>
    cases pc <;> first | exact hown | exact hs.elim
  | createInvite userId teamId payload pc =>
    cases pc <;> first | exact ⟨hown, trivial⟩ | exact hs.elim
  | joinTeam userId payload pc =>
    cases pc <;> first | exact hown | exact hs.elim
  | clock | done => exact hown

/-- The invariant of the whole system. -/
structure State.Sound (c : State) : Prop where
  world : c.world.Sound
  procs : ∀ i, (c.procs i).Holds i c.world

theorem State.IsInitial.sound {c : State} (h : c.IsInitial) : c.Sound := by
  refine ⟨.of_empty h.memberships h.invites, fun i => (h.start i).holds ⟨?_, ?_⟩⟩
  · rw [h.teams]
    rfl
  · rw [h.memberships]
    rfl

/-- A turn keeps the invariant. -/
theorem State.Sound.next {c c' : State} {i : Pid} (h : c.Sound)
    (hnext : (system requireVerified).next c i a = some c') : c'.Sound := by
  obtain ⟨p, f, hs, rfl⟩ := Machine.next_ofEffects_eq_some.mp hnext
  obtain ⟨hf, hp⟩ := Proc.step_sound (h.procs i) hs
  refine ⟨h.world.apply hf, fun j => ?_⟩
  by_cases hj : j = i
  · subst hj
    simpa using hp
  · simpa [Function.update_of_ne hj] using (h.procs j).other hj hf

theorem sound_of_reach {c : State}
    (h : (system requireVerified).Reach State.IsInitial Machine.Always c) : c.Sound :=
  h.invariant (fun _ => State.IsInitial.sound) fun _ _ _ _ hc _ hnext => hc.next hnext

theorem World.Sound.grantsNoMore (h : w.Sound) : w.GrantsNoMore where
  uses_nonneg code invite hr := by
    rw [(h.counts code invite hr).uses_eq]
    exact Int.natCast_nonneg _
  uses_le code invite hr := (h.counts code invite hr).uses_le
  uses_eq code invite hr := (h.counts code invite hr).uses_eq
  one_membership := by
    refine List.pairwise_map.mpr (h.consistent.rows_pairwise.imp fun hclash heq => hclash ?_)
    exact .inr ⟨congrArg Prod.fst heq, .inl (congrArg Prod.snd heq)⟩
  coach m hm hcoach := by
    obtain h | ⟨-, hr⟩ | h := h.obtained m hm
    · exact .inl h
    · rw [hr] at hcoach
      cases hcoach
    · exact .inr h
  headCoach := h.entitled

/-- **Invites grant what they say and no more**, in every state that runs of the three requests
reach. -/
theorem grantsNoMore_of_reach {c : State}
    (h : (system requireVerified).Reach State.IsInitial Machine.Always c) :
    c.world.GrantsNoMore :=
  (sound_of_reach h).world.grantsNoMore

/-- Three coaches: the first creates a team and invites an assistant coach, and the others join. -/
def sampleStart : State where
  procs
    | 0 => .createTeam 0 .authenticate
    | 1 => .createInvite 0 7 { CreateInviteRequest.default with
        role := .assistantCoach
        maxUses := 1
        maxUses_ge := by decide
        maxUses_le := by decide } .authenticate
    | 2 => .joinTeam 1 ⟨"INVITE", none, fun _ h => absurd h (Option.not_mem_none _)⟩ .authenticate
    | 3 => .joinTeam 2 ⟨"INVITE", none, fun _ h => absurd h (Option.not_mem_none _)⟩ .authenticate
    | _ => .done
  world :=
    { users := [.plain 0 "a@example.com" .coach, .plain 1 "b@example.com" .coach,
        .plain 2 "c@example.com" .coach]
      teams := .empty
      memberships := .empty
      invites := .unlocked fun _ => none
      now := 0 }

theorem isInitial_sampleStart : sampleStart.IsInitial where
  teams := rfl
  memberships := rfl
  invites := rfl
  start i := by
    match i with
    | 0 | 1 | 2 | 3 => trivial
    | _ + 4 => trivial

def sampleRun : List (Pid × Answer) :=
  [(0, .ok), (0, .code "TEAM"), (0, .ok), (0, .ok), (0, .uuid 7), (0, .uuid 8), (0, .ok),
    (1, .ok), (1, .ok), (1, .ok), (1, .code "INVITE"), (1, .ok), (1, .ok), (1, .uuid 9), (1, .ok),
    (2, .ok), (2, .ok), (3, .ok), (3, .ok), (2, .ok), (2, .ok), (2, .ok), (2, .uuid 10), (2, .ok),
    (2, .ok), (3, .ok), (3, .ok)]

/-- Both look for the invite at the same time, and the second finds that it has been used. -/
theorem exists_grantsNoMore :
    ∃ c : State, (∃ invite, c.world.invites.row "INVITE" = some invite ∧ invite.uses = 1) ∧
      c.world.memberships.rows.length = 2 ∧ c.world.GrantsNoMore := by
  obtain ⟨c, hreach, hrun⟩ := Machine.exists_reach_of_exec (system true) Machine.Always
    isInitial_sampleStart sampleRun
    (fun c => (c.world.invites.row "INVITE").any (fun invite => invite.uses = 1) &&
      c.world.memberships.rows.length = 2) (by decide +kernel)
  rw [Bool.and_eq_true, decide_eq_true_eq] at hrun
  obtain ⟨invite, hrow, huses⟩ := (Option.any_eq_true _ _).mp hrun.1
  exact ⟨c, ⟨invite, hrow, by simpa using huses⟩, hrun.2, grantsNoMore_of_reach hreach⟩

end NextBallUp.Teams
