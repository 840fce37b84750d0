import NextBallUp.Rls.Requests

/-!
# Joining a team under the policies

`join_team` of `routers/teams.py`, as the runtime role runs it. The request looks for a team with
the code first, and then for an invite with the code, which it locks. At that moment it has bound
the code and no team. The code lets the session see the invite, but only the team of the invite lets
it lock the invite: the request finds no invite, and answers that there is none.

## What is deliberately absent

The code is taken as `_normalize_invite_code` has left it. The response, which is built after the
commit.

## Main definitions

* `joinTeam`: the request
* `Joins`: it succeeds, adds one membership with the role of the invite and counts one use
* `MayJoin`: when it should

## Main results

* `preserves_joinTeam`: the request never uses an invite
* `joins_iff_mayJoin_iff`: it works when it should exactly when it should not
* `joins_unguarded_iff`: for the owner of the tables it works when it should
-/

namespace NextBallUp.Rls

open RowSecurity

/-- `_PLAYER_SEAT_ROLES` -/
def TeamRole.isPlayerSeat : TeamRole → Bool
  | .player | .captain => true
  | .headCoach | .assistantCoach | .manager => false

/-- `_team_role_allowed_for_user` -/
def teamRoleAllowedForUser (userRole : UserRole) (teamRole : TeamRole) : Bool :=
  if userRole = .admin then true
  else if teamRole.isPlayerSeat then userRole = .player
  else userRole = .coach

section Request

variable (c : Catalog TableName PolicyName Clause)

/-- The team and the invite that the code stands for. -/
def lookUpCode (code : String) : Request (Option Team × Option TeamInvite) := do
  setTenantContext none
  setJoinInviteContext (some code)
  let teams ← select c .teams fun r => r.inviteCode = code
  match teams.head? with
  | some team =>
    setTenantContext (some team.id)
    setJoinInviteContext none
    return (some team, none)
  | none =>
    let invites ← selectForUpdate c .teamInvites fun r => r.inviteCode = code
    match invites.head? with
    | none =>
      setJoinInviteContext none
      return (none, none)
    | some invite =>
      setTenantContext (some invite.teamId)
      let teams ← select c .teams fun r => r.id = invite.teamId
      setJoinInviteContext none
      return (teams.head?, some invite)

/-- Why the invite cannot be used. -/
def inviteRejection (now : Time) (invite : TeamInvite) : Option ErrorCode :=
  if !invite.isActive then some .inviteInactive
  else if invite.expiresAt ≤ now then some .inviteExpired
  else if invite.maxUses ≤ invite.uses then some .inviteExhausted
  else none

/-- The role of the new membership. -/
def targetTeamRole (invite : Option TeamInvite) : TeamRole :=
  (invite.map TeamInvite.role).getD .player

/-- Why the user cannot join the team. -/
def joinRejection (user : User) (team : Team) (invite : Option TeamInvite)
    (jerseyNumber : Option ℕ) (now : Time) : Request (Option ErrorCode) := do
  let role := targetTeamRole invite
  if let some reason := invite.bind (inviteRejection now) then
    return some reason
  if !teamRoleAllowedForUser user.role role then
    return some .inviteRoleMismatch
  let existing ← select c .teamMemberships fun r => r.teamId = team.id && r.userId = user.id
  if !existing.isEmpty then
    return some .alreadyMember
  if role.isPlayerSeat && user.role = .player && jerseyNumber.isNone then
    return some .jerseyNumberRequired
  if role.isPlayerSeat && jerseyNumber.isSome then
    let clash ← select c .teamMemberships fun r =>
      r.teamId = team.id && r.jerseyNumber = jerseyNumber
    return if clash.isEmpty then none else some .jerseyNumberTaken
  return none

/-- `_record_join_failure`, and the error that the request then raises. -/
def joinFailure (user : User) (teamId : Option TeamId) (reason : ErrorCode) :
    Request TeamMembership := do
  writeAudit c .teamJoinFailed (some user.id) teamId
  commit
  throw (.app reason)

/-- The flush of the new membership and of the invite that it uses. -/
def addMember (membership : TeamMembership) : Option TeamInvite → Request Unit
  | none => insert c .teamMemberships membership
  | some invite => do
    insert c .teamMemberships membership
    updateOne c .teamInvites (fun r => r.id = invite.id) fun r => { r with uses := invite.uses + 1 }

/-- `except IntegrityError` -/
def onIntegrityError : Failure → Request Unit
  | .sql (.uniqueViolation _) => throw (.app .jerseyNumberTaken)
  | e => throw e

/-- The membership that the request adds, under the id `newId`. -/
def newMembership (user : User) (teamId : TeamId) (role : TeamRole) (jerseyNumber : Option ℕ)
    (newId : ℕ) : TeamMembership :=
  ⟨newId, teamId, user.id, role, if role.isPlayerSeat then jerseyNumber else none, true⟩

/-- What the request does with a user whom nothing keeps from joining. -/
def enrol (user : User) (team : Team) (invite : Option TeamInvite) (membership : TeamMembership) :
    Request TeamMembership := do
  tryCatch (addMember c membership invite) onIntegrityError
  writeAudit c .teamJoinSucceeded (some user.id) (some team.id)
  commit
  bindAuthenticatedContext user.id user.role team.id
  -- `session.refresh(membership)`
  let rows ← select c .teamMemberships fun r => r.id = membership.id
  match rows.head? with
  | none => throw (.notRefreshed .teamMemberships)
  | some row => return row

/-- The part of `join_team` that follows the search. -/
def joinFound (user : User) (found : Option Team) (invite : Option TeamInvite)
    (jerseyNumber : Option ℕ) (now : Time) (newId : ℕ) : Request TeamMembership :=
  match found.filter fun team => team.isActive && team.deletedAt.isNone with
  | none => joinFailure c user none .inviteNotFound
  | some team => do
    match ← joinRejection c user team invite jerseyNumber now with
    | some reason => joinFailure c user (some team.id) reason
    | none =>
      enrol c user team invite
        (newMembership user team.id (targetTeamRole invite) jerseyNumber newId)

/-- `join_team` -/
def joinTeam (requireVerified : Bool) (user : User) (code : String) (jerseyNumber : Option ℕ)
    (now : Time) (newId : ℕ) : Request TeamMembership := do
  requireVerifiedAccount requireVerified user
  let (team, invite) ← lookUpCode c code
  joinFound c user team invite jerseyNumber now newId

end Request

/-- One more use of the invite. -/
def countUse (invite : TeamInvite) (invites : List TeamInvite) : List TeamInvite :=
  invites.map fun r => if r.id = invite.id then { r with uses := r.uses + 1 } else r

/-- **Joining works.** The request succeeds, adds one membership, with the role of the invite, and
counts one use of the invite. -/
structure Joins (c : Catalog TableName PolicyName Clause) (requireVerified : Bool) (user : User)
    (invite : TeamInvite) (jerseyNumber : Option ℕ) (now : Time) (newId : ℕ) (db : Database) :
    Prop where
  returns : ∃ membership, (joinTeam c requireVerified user invite.inviteCode jerseyNumber now newId
    (authenticated db user)).1 = .ok membership
  membership : ((joinTeam c requireVerified user invite.inviteCode jerseyNumber now newId).result
    (authenticated db user)).teamMemberships =
      db.teamMemberships ++ [newMembership user invite.teamId invite.role jerseyNumber newId]
  uses : ((joinTeam c requireVerified user invite.inviteCode jerseyNumber now newId).result
    (authenticated db user)).teamInvites = countUse invite db.teamInvites

/-- **When the invite may be used.** -/
structure MayJoin (user : User) (invite : TeamInvite) (jerseyNumber : Option ℕ) (now : Time)
    (db : Database) : Prop where
  isActive : invite.isActive = true
  notExpired : now < invite.expiresAt
  notExhausted : invite.uses < invite.maxUses
  team : ∃ team ∈ db.teams, team.id = invite.teamId ∧ team.isActive = true ∧ team.deletedAt = none
  role : teamRoleAllowedForUser user.role invite.role = true
  notMember : ∀ r ∈ db.teamMemberships, ¬ (r.teamId = invite.teamId ∧ r.userId = user.id)
  jerseyRequired : invite.role.isPlayerSeat = true → user.role = .player → jerseyNumber ≠ none
  jerseyFree : invite.role.isPlayerSeat = true → ∀ n, jerseyNumber = some n →
    ∀ r ∈ db.teamMemberships, r.teamId = invite.teamId → r.jerseyNumber ≠ some n

/-! ### The invites stay as they are -/

section InvitesAre

variable {invites : List TeamInvite} {user : User}

/-- These are the invites, in what is committed and in what the session sees. -/
def InvitesAre (invites : List TeamInvite) (s : Transaction.Session Database Settings) : Prop :=
  s.committed.teamInvites = invites ∧ s.working.teamInvites = invites

theorem irrelevant_teamMemberships : TableOf.teamMemberships.Irrelevant (InvitesAre invites) :=
  ⟨fun _ _ hs => hs, fun _ _ _ hs => hs⟩

theorem irrelevant_auditLogs : TableOf.auditLogs.Irrelevant (InvitesAre invites) :=
  ⟨fun _ _ hs => hs, fun _ _ _ hs => hs⟩

theorem preserves_commit : commit.Preserves (InvitesAre invites) :=
  ⟨.commit fun _ hs => ⟨hs.2, hs.2⟩⟩

/-- **No invite is found.** When the request looks for one, the session has bound no team. -/
theorem lookUpCode_spec (code : String) : Transaction.Spec (InvitesAre invites)
    (lookUpCode installed code) (fun found s => found.2 = none ∧ InvitesAre invites s)
    (InvitesAre invites) := by
  let NoTeam (s : Transaction.Session Database Settings) : Prop :=
    InvitesAre invites s ∧ s.settings.currentTeamId = none
  unfold lookUpCode
  refine .bind (Q := fun _ => NoTeam) (.set fun s hs => ⟨hs, rfl⟩) fun _ => ?_
  refine .bind (Q := fun _ => NoTeam) (.set fun s hs => hs) fun _ => ?_
  refine (Transaction.Spec.bind (preserves_select (I := NoTeam)).spec fun teams => ?_).mono
    (fun _ hs => hs) (fun _ _ hs => hs) (fun _ hs => hs.1)
  cases teams.head? with
  | some team => exact fun s hs => ⟨rfl, hs.1⟩
  | none =>
    refine .bind_of_returns (fun s hs => selectForUpdate_teamTable (by decide) hs.2) ?_
    exact fun s hs => ⟨rfl, hs.1⟩

theorem preserves_joinRejection {c : Catalog TableName PolicyName Clause} {team : Team}
    {invite : Option TeamInvite} {jerseyNumber : Option ℕ} {now : Time}
    {I : Transaction.Session Database Settings → Prop} :
    (joinRejection c user team invite jerseyNumber now).Preserves I := by
  unfold joinRejection
  dsimp only
  split
  · exact .pure _
  · split
    · exact .pure _
    · refine .bind preserves_select fun existing => ?_
      split
      · exact .pure _
      · split
        · exact .pure _
        · split
          · exact .bind preserves_select fun _ => .pure _
          · exact .pure _

theorem preserves_joinFailure {c : Catalog TableName PolicyName Clause} {teamId : Option TeamId}
    {reason : ErrorCode} : (joinFailure c user teamId reason).Preserves (InvitesAre invites) :=
  .bind (preserves_insert irrelevant_auditLogs) fun _ => .bind preserves_commit fun _ => .throw _

theorem preserves_requireVerifiedAccount {requireVerified : Bool}
    {I : Transaction.Session Database Settings → Prop} :
    (requireVerifiedAccount requireVerified user).Preserves I := by
  unfold requireVerifiedAccount
  split
  · exact .pure _
  · exact .throw _

theorem preserves_enrol {c : Catalog TableName PolicyName Clause} {team : Team}
    {membership : TeamMembership} :
    (enrol c user team none membership).Preserves (InvitesAre invites) := by
  refine .bind (.tryCatch (preserves_insert irrelevant_teamMemberships) fun e => ?_) fun _ => ?_
  · unfold onIntegrityError
    split <;> exact .throw _
  · refine .bind (preserves_insert irrelevant_auditLogs) fun _ => .bind preserves_commit fun _ =>
      .bind ⟨.set fun _ hs => hs⟩ fun _ => .bind preserves_select fun rows => ?_
    split
    · exact .throw _
    · exact .pure _

theorem preserves_joinFound {c : Catalog TableName PolicyName Clause} {found : Option Team}
    {jerseyNumber : Option ℕ} {now : Time} {newId : ℕ} :
    (joinFound c user found none jerseyNumber now newId).Preserves (InvitesAre invites) := by
  unfold joinFound
  split
  · exact preserves_joinFailure
  · refine .bind preserves_joinRejection fun rejection => ?_
    split
    · exact preserves_joinFailure
    · exact preserves_enrol

/-- **The request never uses an invite.** -/
theorem preserves_joinTeam {requireVerified : Bool} {code : String} {jerseyNumber : Option ℕ}
    {now : Time} {newId : ℕ} :
    (joinTeam installed requireVerified user code jerseyNumber now newId).Preserves
      (InvitesAre invites) := by
  refine .bind preserves_requireVerifiedAccount fun _ => ⟨.bind (lookUpCode_spec code) ?_⟩
  rintro ⟨team, _⟩ s ⟨rfl, hs⟩
  exact preserves_joinFound.spec s hs

end InvitesAre

/-- An invite that is there is not used. -/
theorem not_joins {requireVerified : Bool} {user : User} {invite : TeamInvite}
    {jerseyNumber : Option ℕ} {now : Time} {newId : ℕ} {db : Database}
    (hi : invite ∈ db.teamInvites) :
    ¬ Joins installed requireVerified user invite jerseyNumber now newId db := by
  intro hj
  have hkept : ((joinTeam installed requireVerified user invite.inviteCode jerseyNumber now
      newId).result (authenticated db user)).teamInvites = db.teamInvites :=
    (preserves_joinTeam.apply (I := InvitesAre db.teamInvites) ⟨rfl, rfl⟩).1
  have huses : invite = { invite with uses := invite.uses + 1 } := by
    have hmap := hkept.symm.trans hj.uses
    rw [countUse, ← List.map_id db.teamInvites, List.map_map] at hmap
    simpa using List.map_inj_left.mp hmap invite hi
  have : invite.uses = invite.uses + 1 := congrArg TeamInvite.uses huses
  omega

/-- **Joining by invite under the policies.** That the request works if and only if the invite may
be used is true exactly where the invite may not be used. -/
theorem joins_iff_mayJoin_iff {requireVerified : Bool} {user : User} {invite : TeamInvite}
    {jerseyNumber : Option ℕ} {now : Time} {newId : ℕ} {db : Database}
    (hi : invite ∈ db.teamInvites) :
    (Joins installed requireVerified user invite jerseyNumber now newId db ↔
      MayJoin user invite jerseyNumber now db) ↔ ¬ MayJoin user invite jerseyNumber now db := by
  constructor
  · intro h hm
    exact not_joins hi (h.mpr hm)
  · intro hn
    exact ⟨fun hj => (not_joins hi hj).elim, fun hm => (hn hm).elim⟩

/-- An invite for players to the team of a coach, good for `maxUses` uses before 100. -/
def inviteFor (maxUses : ℤ) : TeamInvite := ⟨0, 0, "INVITE", .player, maxUses, 0, 100, true⟩

/-- The team, its coach, the invite and a player who is not on the team. -/
def withInvite (maxUses : ℤ) : Database :=
  { Database.empty with
    users := [.plain 0 "coach@example.com" .coach, .plain 1 "player@example.com" .player]
    teams := [⟨0, "TEAM", true, none⟩]
    teamVisibility := [(0, none)]
    teamMemberships := [⟨0, 0, 0, .headCoach, none, true⟩]
    teamInvites := [inviteFor maxUses] }

/-- The invite has no uses left, and the request refuses it. -/
theorem exists_joins_iff_mayJoin : ∃ db invite, invite ∈ db.teamInvites ∧
    (Joins installed true (.plain 1 "player@example.com" .player) invite (some 7) 10 1 db ↔
      MayJoin (.plain 1 "player@example.com" .player) invite (some 7) 10 db) := by
  refine ⟨withInvite 0, inviteFor 0, List.mem_singleton_self _,
    (joins_iff_mayJoin_iff (List.mem_singleton_self _)).mpr fun hm => ?_⟩
  exact absurd hm.notExhausted (by decide)

/-- The invite is good, and the player is told that there is none. -/
theorem exists_mayJoin_not_joins : ∃ db invite, invite ∈ db.teamInvites ∧
    MayJoin (.plain 1 "player@example.com" .player) invite (some 7) 10 db ∧
    (joinTeam installed true (.plain 1 "player@example.com" .player) invite.inviteCode (some 7) 10 1
      (authenticated db (.plain 1 "player@example.com" .player))).1 =
        .error (.app .inviteNotFound) ∧
    ¬ Joins installed true (.plain 1 "player@example.com" .player) invite (some 7) 10 1 db := by
  refine ⟨withInvite 20, inviteFor 20, List.mem_singleton_self _, ?_, by decide +kernel,
    not_joins (List.mem_singleton_self _)⟩
  exact ⟨rfl, by decide, by decide, ⟨⟨0, "TEAM", true, none⟩, by decide, by decide⟩, by decide,
    by decide, by decide, fun _ n hn r hr _ => by cases hn; revert r; decide⟩

/-! ### Without the policies -/

section Unguarded

variable {user : User} {team : Team} {invite : TeamInvite} {jerseyNumber : Option ℕ} {now : Time}
  {s : Transaction.Session Database Settings}

theorem inviteRejection_eq_none_iff : inviteRejection now invite = none ↔
    invite.isActive = true ∧ now < invite.expiresAt ∧ invite.uses < invite.maxUses := by
  unfold inviteRejection
  split
  · simp_all
  · split
    · simp_all [Nat.not_lt.mpr]
    · split <;> simp_all

/-- The checks let the user through exactly when the invite may be used. -/
theorem joinRejection_unguarded (user : User) (jerseyNumber : Option ℕ) (now : Time)
    (hteam : team ∈ s.working.teams) (hid : team.id = invite.teamId)
    (hactive : team.isActive = true) (hdeleted : team.deletedAt = none) :
    ∃ rejection, joinRejection unguarded user team (some invite) jerseyNumber now s =
        (.ok rejection, s) ∧
      (rejection = none ↔ MayJoin user invite jerseyNumber now s.working) := by
  have htarget : targetTeamRole (some invite) = invite.role := rfl
  unfold joinRejection
  dsimp only [Option.bind_some]
  cases hinvite : inviteRejection now invite with
  | some reason =>
    refine ⟨some reason, rfl, by simp, fun hm => ?_⟩
    rw [inviteRejection_eq_none_iff.mpr ⟨hm.isActive, hm.notExpired, hm.notExhausted⟩] at hinvite
    cases hinvite
  | none =>
    obtain ⟨hon, htime, huses⟩ := inviteRejection_eq_none_iff.mp hinvite
    dsimp only
    rw [Transaction.ite_apply]
    split
    next hrole => exact ⟨_, rfl, by simp, fun hm => by simp [htarget, hm.role] at hrole⟩
    next hrole =>
    rw [Transaction.bind_ok select_unguarded, Transaction.ite_apply]
    split
    next hmember =>
      refine ⟨_, rfl, by simp, fun hm => ?_⟩
      simp [TableOf.teamMemberships, hid] at hmember
      obtain ⟨r, hr, hboth⟩ := hmember
      exact (hm.notMember r hr hboth).elim
    next hmember =>
    simp [TableOf.teamMemberships, hid] at hmember
    rw [Transaction.ite_apply]
    split
    next hrequired =>
      simp [htarget] at hrequired
      exact ⟨_, rfl, by simp, fun hm =>
        absurd hrequired.2 (hm.jerseyRequired hrequired.1.1 hrequired.1.2)⟩
    next hrequired =>
    have hfree (hseat : ∀ r ∈ s.working.teamMemberships, invite.role.isPlayerSeat = true →
        ∀ n, jerseyNumber = some n → r.teamId = invite.teamId → r.jerseyNumber ≠ some n) :
        MayJoin user invite jerseyNumber now s.working := {
      isActive := hon
      notExpired := htime
      notExhausted := huses
      team := ⟨team, hteam, hid, hactive, hdeleted⟩
      role := by simpa [htarget] using hrole
      notMember := fun r hr hboth => hmember r hr hboth.1 hboth.2
      jerseyRequired := fun hplayer huser hnone => by
        simp [htarget, hplayer, huser, hnone] at hrequired
      jerseyFree := fun hplayer n hn r hr hsame => hseat r hr hplayer n hn hsame }
    rw [Transaction.ite_apply]
    split
    next hseat =>
      rw [Transaction.bind_ok select_unguarded]
      refine ⟨_, rfl, ?_⟩
      split
      next hclash =>
        refine ⟨fun _ => hfree fun r hr hplayer n hn hsame hnumber => ?_, fun _ => rfl⟩
        simp [TableOf.teamMemberships] at hclash
        exact hclash r hr (hsame.trans hid.symm) (hnumber.trans hn.symm)
      next hclash =>
        simp [TableOf.teamMemberships, hid] at hclash
        simp [htarget] at hseat
        obtain ⟨r, hr, hsame, hnumber⟩ := hclash
        obtain ⟨n, hn⟩ := Option.isSome_iff_exists.mp hseat.2
        refine ⟨by simp, fun hm => ?_⟩
        exact absurd (hnumber.trans hn) (hm.jerseyFree hseat.1 n hn r hr hsame)
    next hseat =>
      refine ⟨none, rfl, fun _ => hfree fun r hr hplayer n hn => ?_, fun _ => rfl⟩
      simp [htarget, hplayer, hn] at hseat

/-- No two teams have the same id, no two invites have the same id or the same code, and no team has
the code of an invite. -/
structure Consistent (db : Database) : Prop where
  teams : db.teams.Pairwise fun a b => a.id ≠ b.id
  inviteIds : db.teamInvites.Pairwise fun a b => a.id ≠ b.id
  inviteCodes : db.teamInvites.Pairwise fun a b => a.inviteCode ≠ b.inviteCode
  codes : ∀ team ∈ db.teams, ∀ invite ∈ db.teamInvites, team.inviteCode ≠ invite.inviteCode

theorem lookUpCode_unguarded (hc : Consistent s.working) (hi : invite ∈ s.working.teamInvites) :
    lookUpCode unguarded invite.inviteCode s =
      (.ok ((s.working.teams.filter fun r => r.id = invite.teamId).head?, some invite), { s with
        settings := { s.settings with
          currentTeamId := some invite.teamId
          currentJoinInviteCode := none } }) := by
  have hteams : s.working.teams.filter (fun r => r.inviteCode = invite.inviteCode) = [] :=
    List.filter_eq_nil_iff.mpr fun r hr => by simpa using hc.codes r hr invite hi
  rw [lookUpCode, setTenantContext, setJoinInviteContext, Transaction.set_bind,
    Transaction.set_bind, Transaction.bind_ok select_unguarded]
  simp only [TableOf.teams, hteams, List.head?_nil]
  rw [Transaction.bind_ok selectForUpdate_unguarded]
  simp only [TableOf.teamInvites, filter_key_eq hc.inviteCodes hi, List.head?_cons]
  rw [setTenantContext, Transaction.set_bind, Transaction.bind_ok select_unguarded]
  rfl

theorem addMember_unguarded {membership : TeamMembership} (hc : Consistent s.working)
    (hi : invite ∈ s.working.teamInvites)
    (hnew : ∀ r ∈ s.working.teamMemberships,
      TableOf.teamMemberships.conflicts membership r = false) :
    addMember unguarded membership (some invite) s = (.ok (), { s with
      working := { s.working with
        teamMemberships := s.working.teamMemberships ++ [membership]
        teamInvites := countUse invite s.working.teamInvites } }) := by
  have hone : s.working.teamInvites.filter (fun r => r.id = invite.id) = [invite] :=
    filter_key_eq hc.inviteIds hi
  have huse : countUse invite s.working.teamInvites = s.working.teamInvites.map fun r =>
      if decide (r.id = invite.id) then { r with uses := invite.uses + 1 } else r := by
    refine List.map_congr_left fun r hr => ?_
    split
    next hid =>
      have : r ∈ s.working.teamInvites.filter fun r => r.id = invite.id :=
        List.mem_filter.mpr ⟨hr, by simpa using hid⟩
      rw [hone, List.mem_singleton] at this
      simp [this]
    next hid => simp [hid]
  rw [addMember, Transaction.bind_ok (insert_unguarded hnew), updateOne,
    Transaction.bind_ok (update_unguarded rfl ?_ ?_)]
  · rw [huse, Transaction.ite_apply, if_pos]
    · rfl
    · simp [TableOf.teamInvites, TableOf.teamMemberships, hone]
  · simp [TableOf.teamInvites, TableOf.teamMemberships, hone]
  · refine List.pairwise_map.mpr ((hc.inviteIds.and hc.inviteCodes).imp fun {a b} hab => ?_)
    simp only [TableOf.teamInvites]
    split <;> split <;> simp [hab.1, hab.2]

/-- Who may join conflicts with nobody who is there. -/
theorem MayJoin.conflicts_eq_false {db : Database} {newId : ℕ}
    (hm : MayJoin user invite jerseyNumber now db) (hnew : ∀ r ∈ db.teamMemberships, r.id ≠ newId) :
    ∀ r ∈ db.teamMemberships,
      TableOf.teamMemberships.conflicts
        (newMembership user invite.teamId invite.role jerseyNumber newId) r = false := by
  intro r hr
  rw [Bool.eq_false_iff]
  intro hconflict
  simp only [TableOf.teamMemberships, newMembership, Bool.or_eq_true, Bool.and_eq_true,
    decide_eq_true_eq] at hconflict
  rcases hconflict with hid | ⟨hteam, huser | ⟨hsome, hnumber⟩⟩
  · exact hnew r hr hid.symm
  · exact hm.notMember r hr ⟨hteam.symm, huser.symm⟩
  · split at hsome
    next hseat =>
      obtain ⟨n, hn⟩ := Option.isSome_iff_exists.mp hsome
      rw [if_pos hseat] at hnumber
      exact hm.jerseyFree hseat n hn r hr hteam.symm (hnumber.symm.trans hn)
    next => cases hsome

theorem enrol_unguarded (user : User) (team : Team) {membership : TeamMembership}
    (hc : Consistent s.working) (hi : invite ∈ s.working.teamInvites)
    (hnew : ∀ r ∈ s.working.teamMemberships, r.id ≠ membership.id)
    (hfree : ∀ r ∈ s.working.teamMemberships,
      TableOf.teamMemberships.conflicts membership r = false) :
    ∃ s', enrol unguarded user team (some invite) membership s = (.ok membership, s') ∧
      s'.committed.teamMemberships = s.working.teamMemberships ++ [membership] ∧
      s'.committed.teamInvites = countUse invite s.working.teamInvites := by
  have hadd := Transaction.tryCatch_ok onIntegrityError
    (addMember_unguarded hc hi hfree)
  have hfind : (s.working.teamMemberships ++ [membership]).filter (fun r => r.id = membership.id) =
      [membership] := by
    rw [List.filter_append, List.filter_eq_nil_iff.mpr fun r hr => by simpa using hnew r hr]
    simp
  rw [enrol, Transaction.bind_ok hadd, writeAudit,
    Transaction.bind_ok (insert_unguarded fun _ _ => rfl), commit, Transaction.commit_bind,
    bindAuthenticatedContext, Transaction.set_bind, Transaction.bind_ok select_unguarded]
  change ∃ s', (match ((s.working.teamMemberships ++ [membership]).filter
      fun r => r.id = membership.id).head? with
    | none => throw (.notRefreshed .teamMemberships)
    | some row => pure row : Request TeamMembership) _ = _ ∧ _
  rw [hfind]
  exact ⟨_, rfl, rfl, rfl⟩

theorem joinFailure_raises {c : Catalog TableName PolicyName Clause} {teamId : Option TeamId}
    {reason : ErrorCode} {membership : TeamMembership} :
    (joinFailure c user teamId reason s).1 ≠ .ok membership := by
  have h : Transaction.Spec (fun _ => True) (joinFailure c user teamId reason)
      (fun _ _ => False) fun _ => True :=
    .bind (Q := fun _ _ => True) (fun s _ => by split <;> trivial) fun _ =>
      .bind (Q := fun _ _ => True) (.commit fun _ _ => trivial) fun _ => .throw fun _ _ => trivial
  intro hok
  have h := h s trivial
  cases hr : joinFailure c user teamId reason s with
  | mk r s' =>
    rw [hr] at h hok
    rw [show r = .ok membership from hok] at h
    exact h

/-- Whoever may join does so once the team and the invite are found. -/
theorem joinFound_of_mayJoin {newId : ℕ} (hc : Consistent s.working)
    (hi : invite ∈ s.working.teamInvites) (hnew : ∀ r ∈ s.working.teamMemberships, r.id ≠ newId)
    (hm : MayJoin user invite jerseyNumber now s.working) :
    ∃ s', joinFound unguarded user (s.working.teams.filter fun r => r.id = invite.teamId).head?
        (some invite) jerseyNumber now newId s =
          (.ok (newMembership user invite.teamId invite.role jerseyNumber newId), s') ∧
      s'.committed.teamMemberships = s.working.teamMemberships ++
        [newMembership user invite.teamId invite.role jerseyNumber newId] ∧
      s'.committed.teamInvites = countUse invite s.working.teamInvites := by
  obtain ⟨team, hteam, hid, hactive, hdeleted⟩ := hm.team
  obtain ⟨s', hok, hrows⟩ := enrol_unguarded user team hc hi hnew
    (hm.conflicts_eq_false hnew)
  obtain ⟨rejection, hchecks, hnone⟩ := joinRejection_unguarded user jerseyNumber now
    hteam hid hactive hdeleted
  rw [hnone.mpr hm] at hchecks
  have hfound : ((s.working.teams.filter fun r => r.id = invite.teamId).head?).filter
      (fun team => team.isActive && team.deletedAt.isNone) = some team := by
    rw [← hid, filter_key_eq hc.teams hteam]
    simp [hactive, hdeleted]
  refine ⟨s', ?_, hrows⟩
  rw [joinFound, hfound]
  dsimp only
  rw [Transaction.bind_ok hchecks]
  dsimp only
  rw [hid]
  exact hok

/-- Nobody else does. -/
theorem mayJoin_of_joinFound {newId : ℕ} {membership : TeamMembership}
    (hok : (joinFound unguarded user (s.working.teams.filter fun r => r.id = invite.teamId).head?
      (some invite) jerseyNumber now newId s).1 = .ok membership) :
    MayJoin user invite jerseyNumber now s.working := by
  cases hfound : ((s.working.teams.filter fun r => r.id = invite.teamId).head?).filter
      fun team => team.isActive && team.deletedAt.isNone with
  | none =>
    rw [joinFound, hfound] at hok
    exact (joinFailure_raises hok).elim
  | some team =>
    obtain ⟨hhead, husable⟩ := Option.filter_eq_some_iff.mp hfound
    obtain ⟨hteam, hid⟩ := List.mem_filter.mp (List.mem_of_head? hhead)
    simp only [decide_eq_true_eq, Bool.and_eq_true, Option.isNone_iff_eq_none] at hid husable
    obtain ⟨rejection, hchecks, hnone⟩ := joinRejection_unguarded user jerseyNumber now
      hteam hid husable.1 husable.2
    rw [joinFound, hfound] at hok
    dsimp only at hok
    rw [Transaction.bind_ok hchecks] at hok
    cases rejection with
    | none => exact hnone.mp rfl
    | some reason => exact (joinFailure_raises hok).elim

end Unguarded

/-- **The request without the policies.** For the owner of the tables, joining works exactly when
the invite may be used. -/
theorem joins_unguarded_iff {requireVerified : Bool} {user : User} {invite : TeamInvite}
    {jerseyNumber : Option ℕ} {now : Time} {newId : ℕ} {db : Database} (hc : Consistent db)
    (hi : invite ∈ db.teamInvites)
    (hverified : (!requireVerified || user.role = .admin || user.isVerified) = true)
    (hnew : ∀ r ∈ db.teamMemberships, r.id ≠ newId) :
    Joins unguarded requireVerified user invite jerseyNumber now newId db ↔
      MayJoin user invite jerseyNumber now db := by
  obtain ⟨s, hs, hrun⟩ : ∃ s : Transaction.Session Database Settings, s.working = db ∧
      joinTeam unguarded requireVerified user invite.inviteCode jerseyNumber now newId
        (authenticated db user) =
      joinFound unguarded user (s.working.teams.filter fun r => r.id = invite.teamId).head?
        (some invite) jerseyNumber now newId s := by
    rw [joinTeam, Transaction.bind_ok (requireVerifiedAccount_ok hverified _),
      Transaction.bind_ok (lookUpCode_unguarded (s := authenticated db user) hc hi)]
    exact ⟨{ authenticated db user with
      settings := { (authenticated db user).settings with
        currentTeamId := some invite.teamId
        currentJoinInviteCode := none } }, rfl, rfl⟩
  subst hs
  constructor
  · rintro ⟨⟨membership, hok⟩, -⟩
    rw [hrun] at hok
    exact mayJoin_of_joinFound hok
  · intro hm
    obtain ⟨s', hok, hmemberships, hinvites⟩ := joinFound_of_mayJoin hc hi hnew hm
    rw [hok] at hrun
    refine ⟨⟨_, by rw [hrun]⟩, ?_, ?_⟩
    · rw [Transaction.result, hrun, hmemberships]
    · rw [Transaction.result, hrun, hinvites]

end NextBallUp.Rls
