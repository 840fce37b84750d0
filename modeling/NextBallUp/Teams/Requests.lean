import NextBallUp.Lib.Interleaving
import NextBallUp.Lib.UniqueRows
import NextBallUp.Rls.DeleteTeam
import NextBallUp.Rls.JoinTeam

/-!
# Teams, invites and seats

`create_team`, `create_invite` and `join_team` of `routers/teams.py`, as requests of any number of
users that run at the same time. One turn is one SQL statement. The rows and the pure parts of the
requests are those of the requests under the policies; here a statement finds what the others have
committed, locks rows, and waits.

A join by an invite locks the row of the invite before it looks at the number of uses, and writes
that number plus one at the end. Everything else is read without a lock, and is guarded by the
unique constraints of the tables alone.

## What is deliberately absent

Rate limits, the audit log, the names and seasons of teams, and responses. Whether the policies let
a statement see the row that it selects is up to the environment (`Answer.hidden`). Foreign keys:
nothing is deleted here.

## Main definitions

* `Team`, `Membership`, `Invite`, `World`: what the requests share
* one `Pc` for each request, and `Proc`: a request
* `Proc.step`: one turn of a request
* `system`: the machine
-/

namespace NextBallUp.Teams

open Rls (User UserRole TeamRole)

/-! ### Rows -/

/-- How a membership has come about. No request reads it. -/
inductive Origin
  | created | teamCode
  | invite (code : String)
  deriving DecidableEq, Repr

/-- A row of `team_memberships`. -/
structure Membership extends Rls.TeamMembership where
  origin : Origin
  deriving DecidableEq, Repr

/-- A row of `teams`. -/
structure Team extends Rls.Team where
  /-- Who has created the team. No request reads it. -/
  creator : UserId
  deriving DecidableEq, Repr

/-- A row of `team_invites`, under its code, which is unique. -/
structure Invite extends Rls.TeamInvite where
  createdBy : UserId
  /-- The membership on which it has been issued, unless an operator without one has issued it. No
  request reads it. -/
  authority : Option Membership
  deriving DecidableEq, Repr

/-- The primary key and `teams.invite_code`. -/
def Team.Clashes (r q : Team) : Prop := r.id = q.id ∨ r.inviteCode = q.inviteCode

instance : DecidableRel Team.Clashes := fun _ _ => inferInstanceAs (Decidable (_ ∨ _))

/-- The primary key, `uq_team_memberships_team_user` and `uq_team_memberships_team_jersey`, which
leaves rows without a number alone. -/
def Membership.Clashes (r q : Membership) : Prop :=
  r.id = q.id ∨ r.teamId = q.teamId ∧
    (r.userId = q.userId ∨ r.jerseyNumber ≠ none ∧ r.jerseyNumber = q.jerseyNumber)

instance : DecidableRel Membership.Clashes := fun _ _ =>
  inferInstanceAs (Decidable (_ ∨ _ ∧ (_ ∨ _ ∧ _)))

/-- Everything the requests share. -/
structure World where
  users : List User
  teams : UniqueTable Team Pid
  memberships : UniqueTable Membership Pid
  invites : Table String Invite Pid
  now : Time

/-- The account of a user. -/
def World.account (w : World) (userId : UserId) : Option User :=
  w.users.find? fun user => user.id = userId

/-- What one turn of a request does to the world. -/
inductive Effect
  | skip
  | lockInvite (code : String)
  | insertTeam (team : Team)
  | insertMembership (membership : Membership)
  /-- The end of a transaction that has written these invites. -/
  | commit (invites : List (String × Invite))
  | rollback
  | tick (seconds : ℕ)

/-- What an effect of session `pid` makes of the world. -/
def World.apply (w : World) (pid : Pid) : Effect → World
  | .skip => w
  | .lockInvite code => { w with invites := w.invites.acquireAll pid [code] }
  | .insertTeam team => { w with teams := w.teams.insert pid team }
  | .insertMembership membership =>
    { w with memberships := w.memberships.insert pid membership }
  | .commit invites =>
    { w with
      teams := w.teams.commit pid
      memberships := w.memberships.commit pid
      invites := (w.invites.putAll invites).release pid }
  | .rollback =>
    { w with
      teams := w.teams.rollback pid
      memberships := w.memberships.rollback pid
      invites := w.invites.release pid }
  | .tick seconds => { w with now := w.now + seconds }

/-! ### Requests -/

/-- `CreateInviteRequest`, with its bounds. -/
structure CreateInviteRequest where
  role : TeamRole
  maxUses : ℤ
  expiresInDays : ℕ
  maxUses_ge : 1 ≤ maxUses
  maxUses_le : maxUses ≤ 1000
  expiresInDays_ge : 1 ≤ expiresInDays
  expiresInDays_le : expiresInDays ≤ 365

/-- The defaults of `CreateInviteRequest`. -/
def CreateInviteRequest.default : CreateInviteRequest where
  role := .player
  maxUses := 20
  expiresInDays := 30
  maxUses_ge := by decide
  maxUses_le := by decide
  expiresInDays_ge := by decide
  expiresInDays_le := by decide

/-- `JoinTeamRequest`, with its bound and with the code as `_normalize_invite_code` leaves it. -/
structure JoinTeamRequest where
  inviteCode : String
  jerseyNumber : Option ℕ
  jerseyNumber_le : ∀ n ∈ jerseyNumber, n ≤ 99

/-- What the environment decides in a turn. -/
inductive Answer
  | ok
  /-- The database statement raises. -/
  | error
  /-- No policy lets the statement see the row. -/
  | hidden
  /-- `generate_invite_code` -/
  | code (code : String)
  /-- `uuid4` -/
  | uuid (id : ℕ)
  | seconds (n : ℕ)
  deriving DecidableEq, Repr

/-- What a statement sees of the row that it selects. -/
def Answer.see {R : Type} (a : Answer) (row : Option R) : Option R :=
  if a = .hidden then none else row

/-! ### Program points

A point is named after what comes next. -/

/-- `_generate_unique_invite_code`, with the number of attempts that are left. -/
inductive GenerateInviteCode.Pc
  | generate (retries : ℕ)
  | readTeam (retries : ℕ) (code : String)
  | readInvite (retries : ℕ) (code : String)

inductive CreateTeam.Pc
  | authenticate
  | generate (pc : GenerateInviteCode.Pc)
  | insertTeam (code : String)
  | insertMembership (team : Team)
  | commit (team : Team) (membership : Membership)

inductive CreateInvite.Pc
  | authenticate
  | readTeam (user : User)
  | readMembership (user : User) (teamId : TeamId)
  | generate (teamId : TeamId) (authority : Option Membership) (pc : GenerateInviteCode.Pc)
  | insertInvite (teamId : TeamId) (authority : Option Membership) (code : String)
    (expiresAt : Time)
  | commit (invite : Invite)

inductive JoinTeam.Pc
  | authenticate
  | readTeam (user : User)
  | lockInvite (user : User)
  | readTeamOfInvite (user : User) (invite : Invite)
  | readMembership (user : User) (team : Team) (invite : Option Invite)
  | readJerseyNumber (user : User) (team : Team) (invite : Option Invite)
  | insertMembership (user : User) (team : Team) (invite : Option Invite)
  | updateInvite (invite : Invite) (membership : Membership)
  | commit (invite : Option Invite) (membership : Membership)

/-- A request, or the clock. -/
inductive Proc
  | createTeam (userId : UserId) (pc : CreateTeam.Pc)
  | createInvite (userId : UserId) (teamId : TeamId) (payload : CreateInviteRequest)
    (pc : CreateInvite.Pc)
  | joinTeam (userId : UserId) (payload : JoinTeamRequest) (pc : JoinTeam.Pc)
  | clock
  | done

/-- Where a turn takes the request, and what it does; `none` if it cannot be taken. -/
abbrev Turn := Option (Proc × Effect)

/-- The request raises, and its transaction is rolled back. -/
def raises : Turn := some (.done, .rollback)

section Steps

variable (requireVerified : Bool) (pid : Pid) (w : World) (a : Answer)

/-- `get_current_user` and `require_verified_account` -/
def currentUser (userId : UserId) : Option User :=
  (w.account userId).filter fun user =>
    user.isActive && (!requireVerified || user.role = .admin || user.isVerified)

/-! ### Creating a team -/

def GenerateInviteCode.step (here : Pc → Proc) (after : String → Turn) : Pc → Turn
  | .generate 0 => raises
  | .generate (retries + 1) =>
    match a with
    | .code code => some (here (.readTeam retries code), .skip)
    | _ => none
  | .readTeam retries code =>
    match a.see (w.teams.rows.find? fun team => team.inviteCode = code) with
    | some _ => some (here (.generate retries), .skip)
    | none => some (here (.readInvite retries code), .skip)
  | .readInvite retries code =>
    match a.see (w.invites.row code) with
    | some _ => some (here (.generate retries), .skip)
    | none => after code

/-- `_INVITE_LOOKUP_RETRIES` -/
def inviteLookupRetries : ℕ := 5

/-- The team that a request of this user adds. -/
def newTeam (userId : UserId) (id : ℕ) (code : String) : Team where
  id := id
  inviteCode := code
  isActive := true
  deletedAt := none
  creator := userId

/-- The membership of the user who creates the team. -/
def founder (team : Team) (userId : UserId) (id : ℕ) : Membership where
  id := id
  teamId := team.id
  userId := userId
  teamRole := .headCoach
  jerseyNumber := none
  isActive := true
  origin := .created

/-- `create_team` -/
def CreateTeam.step (userId : UserId) : CreateTeam.Pc → Turn
  | .authenticate =>
    match currentUser requireVerified w userId with
    | none => raises
    | some user =>
      -- `require_user_role`
      if user.role = .coach ∨ user.role = .admin then
        some (.createTeam userId (.generate (.generate inviteLookupRetries)), .skip)
      else raises
  | .generate pc =>
    GenerateInviteCode.step w a (fun pc => .createTeam userId (.generate pc))
      (fun code => some (.createTeam userId (.insertTeam code), .skip)) pc
  | .insertTeam code =>
    match a with
    | .uuid id =>
      let team := newTeam userId id code
      w.teams.tryInsert Team.Clashes pid team (.done, .rollback)
        (.createTeam userId (.insertMembership team), .insertTeam team)
    | _ => none
  | .insertMembership team =>
    match a with
    | .uuid id =>
      let membership := founder team userId id
      w.memberships.tryInsert Membership.Clashes pid membership (.done, .rollback)
        (.createTeam userId (.commit team membership), .insertMembership membership)
    | _ => none
  | .commit _ _ => some (.done, .commit [])

/-! ### Issuing an invite -/

/-- `require_team_coach`, with the membership on which the request goes on: an operator who has none
is given one that is not stored. -/
def requireTeamCoach (user : User) (membership : Option Membership) :
    Option (TeamRole × Option Membership) :=
  match user.role, membership with
  | .admin, none => some (.manager, none)
  | .admin, some m => some (m.teamRole, some m)
  | _, none => none
  | _, some m => if m.teamRole.isCoach then some (m.teamRole, some m) else none

/-- The invite that the request adds. -/
def newInvite (userId : UserId) (payload : CreateInviteRequest) (teamId : TeamId)
    (authority : Option Membership) (code : String) (expiresAt : Time) (id : ℕ) : Invite where
  id := id
  teamId := teamId
  inviteCode := code
  role := payload.role
  maxUses := payload.maxUses
  uses := 0
  expiresAt := expiresAt
  isActive := true
  createdBy := userId
  authority := authority

/-- `create_invite` -/
def CreateInvite.step (userId : UserId) (teamId : TeamId) (payload : CreateInviteRequest) :
    CreateInvite.Pc → Turn
  | .authenticate =>
    match currentUser requireVerified w userId with
    | none => raises
    | some user => some (.createInvite userId teamId payload (.readTeam user), .skip)
  | .readTeam user =>
    match (a.see (w.teams.rows.find? fun team => team.id = teamId)).filter fun team =>
      team.isActive && team.deletedAt.isNone with
    | none => raises
    | some team =>
      some (.createInvite userId teamId payload (.readMembership user team.id), .skip)
  | .readMembership user team =>
    match requireTeamCoach user (a.see (w.memberships.rows.find? fun m =>
      m.teamId = team && m.userId = user.id && m.isActive)) with
    | none => raises
    | some (teamRole, authority) =>
      if payload.role = .headCoach ∧ user.role ≠ .admin ∧ teamRole ≠ .headCoach then raises
      else some (.createInvite userId teamId payload
        (.generate team authority (.generate inviteLookupRetries)), .skip)
  | .generate team authority pc =>
    GenerateInviteCode.step w a
      (fun pc => .createInvite userId teamId payload (.generate team authority pc))
      (fun code => some (.createInvite userId teamId payload (.insertInvite team authority code
        (w.now + payload.expiresInDays * 86400)), .skip)) pc
  | .insertInvite team authority code expiresAt =>
    match a with
    | .uuid id =>
      w.invites.tryInsert pid code (.done, .rollback) (.createInvite userId teamId payload
        (.commit (newInvite userId payload team authority code expiresAt id)), .lockInvite code)
    | _ => none
  | .commit invite => some (.done, .commit [(invite.inviteCode, invite)])

/-! ### Joining a team -/

/-- `_record_join_failure`, and the error that is raised then. -/
def joinFails : Turn := some (.done, .commit [])

/-- `invite.uses += 1` -/
def Invite.use (invite : Invite) : Invite := { invite with uses := invite.uses + 1 }

/-- The role of the new membership. -/
def targetTeamRole (invite : Option Invite) : TeamRole :=
  Rls.targetTeamRole (invite.map Invite.toTeamInvite)

/-- The membership that the request adds. -/
def newMembership (user : User) (payload : JoinTeamRequest) (team : Team) (invite : Option Invite)
    (id : ℕ) : Membership where
  toTeamMembership :=
    Rls.newMembership user team.id (targetTeamRole invite) payload.jerseyNumber id
  origin := match invite with
    | none => .teamCode
    | some _ => .invite payload.inviteCode

/-- The checks that need no statement, once the team and the invite have been looked up. -/
def JoinTeam.checks (user : User) (team : Option Team) (invite : Option Invite)
    (after : Team → Proc) : Turn :=
  match team.filter fun team => team.isActive && team.deletedAt.isNone with
  | none => joinFails
  | some team =>
    match invite.bind fun invite => Rls.inviteRejection w.now invite.toTeamInvite with
    | some _ => joinFails
    | none =>
      if Rls.teamRoleAllowedForUser user.role (targetTeamRole invite) then some (after team, .skip)
      else joinFails

/-- `join_team` -/
def JoinTeam.step (userId : UserId) (payload : JoinTeamRequest) : JoinTeam.Pc → Turn
  | .authenticate =>
    match currentUser requireVerified w userId with
    | none => raises
    | some user => some (.joinTeam userId payload (.readTeam user), .skip)
  | .readTeam user =>
    match a.see (w.teams.rows.find? fun team => team.inviteCode = payload.inviteCode) with
    | none => some (.joinTeam userId payload (.lockInvite user), .skip)
    | some team =>
      JoinTeam.checks w user (some team) none fun team =>
        .joinTeam userId payload (.readMembership user team none)
  | .lockInvite user =>
    if a = .hidden then joinFails
    else w.invites.locate pid payload.inviteCode (fun _ => true) fun
      | none => (.done, .commit [])
      | some invite => (.joinTeam userId payload (.readTeamOfInvite user invite),
          .lockInvite payload.inviteCode)
  | .readTeamOfInvite user invite =>
    JoinTeam.checks w user (a.see (w.teams.rows.find? fun team => team.id = invite.teamId))
      (some invite) fun team => .joinTeam userId payload (.readMembership user team (some invite))
  | .readMembership user team invite =>
    let role := targetTeamRole invite
    match a.see (w.memberships.rows.find? fun m => m.teamId = team.id && m.userId = user.id) with
    | some _ => joinFails
    | none =>
      if role.isPlayerSeat && user.role = .player && payload.jerseyNumber.isNone then joinFails
      else if role.isPlayerSeat && payload.jerseyNumber.isSome then
        some (.joinTeam userId payload (.readJerseyNumber user team invite), .skip)
      else some (.joinTeam userId payload (.insertMembership user team invite), .skip)
  | .readJerseyNumber user team invite =>
    match a.see (w.memberships.rows.find? fun m =>
      m.teamId = team.id && m.jerseyNumber = payload.jerseyNumber) with
    | some _ => joinFails
    | none => some (.joinTeam userId payload (.insertMembership user team invite), .skip)
  | .insertMembership user team invite =>
    match a with
    | .uuid id =>
      let membership := newMembership user payload team invite id
      w.memberships.tryInsert Membership.Clashes pid membership (.done, .rollback)
        (.joinTeam userId payload (match invite with
          | none => .commit none membership
          | some invite => .updateInvite invite membership), .insertMembership membership)
    | _ => none
  -- The flush may also come to the invite first: its row is locked, and waits for nobody.
  | .updateInvite invite membership =>
    if a = .hidden then raises
    else some (.joinTeam userId payload (.commit (some invite) membership), .skip)
  | .commit invite _ =>
    some (.done, .commit (invite.map fun invite => (payload.inviteCode, invite.use)).toList)

/-! ### One turn -/

/-- One turn of request `pid`, unless a database statement raises. -/
def Proc.turn : Proc → Turn
  | .createTeam userId pc => CreateTeam.step requireVerified pid w a userId pc
  | .createInvite userId teamId payload pc =>
    CreateInvite.step requireVerified pid w a userId teamId payload pc
  | .joinTeam userId payload pc => JoinTeam.step requireVerified pid w a userId payload pc
  | .clock =>
    match a with
    | .seconds n => some (.clock, .tick n)
    | _ => none
  | .done => none

end Steps

/-- One turn of request `pid`. A database error ends it, and rolls its transaction back. -/
def Proc.step (requireVerified : Bool) (pid : Pid) (a : Answer) (p : Proc) (w : World) : Turn :=
  match a, p with
  | .error, .clock | .error, .done => none
  | .error, _ => raises
  | a, p => p.turn requireVerified pid w a

/-- The machine whose processes are the requests. -/
def system (requireVerified : Bool) : Machine Pid Answer Proc World :=
  .ofEffects (fun pid a p w => p.step requireVerified pid a w) World.apply

/-- A configuration of the system. -/
abbrev State := Conf Pid Proc World

end NextBallUp.Teams
