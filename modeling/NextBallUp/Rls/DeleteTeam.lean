import NextBallUp.Rls.Requests

/-!
# Deleting a team under the policies

`delete_team` of `routers/teams.py`, as the runtime role runs it. The request sets `deleted_at` of a
team. An `UPDATE` has to leave a row that its session can see, and the policy for reading `teams`
shows a row with `deleted_at` only to an operator who has asked for deleted rows, which this request
never does. So the statement raises, whoever the coach is.

What the policies say of a team that is marked as deleted is right nevertheless: nobody but an
operator reaches a row of it.

## Main definitions

* `deleteTeam`: the request
* `CoachOf`: a coach of a team, as the request asks for one
* `Hidden`: no session without the role of an operator reaches a row of the team
* `SoftDeletes`: the request commits, the team has `deleted_at`, and is hidden

## Main results

* `deleteTeam_raises`: for every coach the request raises, and the rows stay as they were
* `not_softDeletes`: it deletes no team
* `hidden_of_deleted`: a team that the visibility table has as deleted is hidden
-/

namespace NextBallUp.Rls

open RowSecurity

/-- `COACH_TEAM_ROLES` -/
def TeamRole.isCoach : TeamRole → Bool
  | .headCoach | .assistantCoach => true
  | .manager | .player | .captain => false

section Request

variable (c : Catalog TableName PolicyName Clause)

/-- `require_team_coach` -/
def requireTeamCoach (user : User) (teamId : TeamId) : Request Unit := do
  let memberships ← select c .teamMemberships fun r =>
    r.teamId = teamId && r.userId = user.id && r.isActive
  match user.role, memberships.head? with
  | .admin, _ => pure ()
  | _, none => throw (.app .forbidden)
  | _, some membership =>
    if membership.teamRole.isCoach then pure () else throw (.app .forbidden)

/-- `delete_team` -/
def deleteTeam (requireVerified : Bool) (user : User) (teamId : TeamId) (now : Time) :
    Request Unit := do
  requireVerifiedAccount requireVerified user
  setJoinInviteContext none
  setTenantContext (some teamId)
  let teams ← select c .teams fun r => r.id = teamId
  match teams.head?.filter Team.isActive with
  | none => return
  | some team =>
    requireTeamCoach c user team.id
    if team.deletedAt.isSome then return
    updateOne c .teams (fun r => r.id = team.id) fun r => { r with deletedAt := some now }
    writeAudit c .teamDeleted (some user.id) (some team.id)
    commit

end Request

/-- The columns of a row of any table. -/
instance : HasColumns (Column → Option Value) := ⟨id⟩

/-- **Nobody reaches the team.** A session without the role of an operator, whatever else it has
bound, can neither select, lock, update or delete a row of the team nor write one. -/
structure Hidden (c : Catalog TableName PolicyName Clause) (teamId : TeamId) (db : Database) :
    Prop where
  teams : ∀ s : Settings, s.currentUserRole ≠ some .admin → ∀ r ∈ db.teams, r.id = teamId →
    ∀ cmd, (c .teams).admits (holdsIn s db) .select r = false ∧
      (c .teams).reaches (holdsIn s db) cmd (fun _ => true) r = false
  rows : ∀ s : Settings, s.currentUserRole ≠ some .admin →
    ∀ table ∈ TableName.usageEvents :: teamWriteTables, ∀ r : Column → Option Value,
      r .teamId = some (.number teamId) → ∀ cmd,
        (c table).admits (holdsIn s db) .select r = false ∧
        (c table).reaches (holdsIn s db) cmd (fun _ => true) r = false ∧
        (c table).mayWrite (holdsIn s db) cmd r = false

/-- **The deletion takes effect and is complete.** -/
structure SoftDeletes (c : Catalog TableName PolicyName Clause) (requireVerified : Bool)
    (user : User) (teamId : TeamId) (now : Time) (db : Database) : Prop where
  commits : (deleteTeam c requireVerified user teamId now (authenticated db user)).1 = .ok ()
  deleted : ∀ r ∈ ((deleteTeam c requireVerified user teamId now).result
    (authenticated db user)).teams, r.id = teamId → r.deletedAt = some now
  hidden : Hidden c teamId ((deleteTeam c requireVerified user teamId now).result
    (authenticated db user))

/-- The user is a verified and active coach of the team, which is active and not deleted. -/
structure CoachOf (requireVerified : Bool) (user : User) (team : Team) (db : Database) : Prop where
  verified : (!requireVerified || user.role = .admin || user.isVerified) = true
  mem : team ∈ db.teams
  isActive : team.isActive = true
  notDeleted : team.deletedAt = none
  membership : ∃ r ∈ db.teamMemberships, r.teamId = team.id ∧ r.userId = user.id ∧
    r.isActive = true ∧ r.teamRole.isCoach = true
  /-- What `sync_team_visibility` has written. -/
  visible : (team.id, none) ∈ db.teamVisibility
  /-- The primary key. -/
  ids : db.teams.Pairwise fun a b => a.id ≠ b.id
  /-- `uq_team_memberships_team_user` -/
  members : db.teamMemberships.Pairwise fun a b => (a.teamId, a.userId) ≠ (b.teamId, b.userId)

/-! ### The request raises -/

section Raises

variable {requireVerified : Bool} {user : User} {team : Team} {db : Database} {now : Time}

/-- The connection of the request when it has bound the team. -/
def inTeam (db : Database) (user : User) (teamId : TeamId) :
    Transaction.Session Database Settings :=
  { authenticated db user with
    settings := { (authenticated db user).settings with currentTeamId := some teamId } }

/-- A session that has not asked for deleted rows sees no deleted team. -/
theorem not_admits_deleted (db : Database) {s : Settings} (hs : s.showsDeleted = false) {r : Team}
    (hr : r.deletedAt ≠ none) : (installed .teams).admits (holdsIn s db) .select r = false := by
  obtain ⟨t, ht⟩ := Option.ne_none_iff_exists'.mp hr
  rw [installed_eq .teams (by decide), guardOf]
  simp [Guard.admits, crud, Policy.appliesTo, holdsIn, Clause.holds, notDeleted,
    HasColumns.column, ht, hs]

namespace CoachOf

variable (h : CoachOf requireVerified user team db)

include h

theorem teamVisible : db.teamVisible (inTeam db user team.id).settings (some (.number team.id)) =
    true :=
  List.any_eq_true.mpr ⟨(team.id, none), h.visible, by simp⟩

/-- The coach sees the team, and reaches it with an update. -/
theorem admits_team {cmd : Command} (hcmd : cmd = .select ∨ cmd = .update) :
    (installed .teams).admits (holdsIn (inTeam db user team.id).settings db) cmd team = true := by
  have hvisible := h.teamVisible
  rw [installed_eq .teams (by decide), guardOf]
  rcases hcmd with rfl | rfl <;>
    simp_all [Guard.admits, crud, Policy.appliesTo, holdsIn, Clause.holds, Rls.notDeleted,
      visibilityClause, h.notDeleted, HasColumns.column, Setting.value, inTeam]

theorem select_team : select installed .teams (fun r => r.id = team.id) (inTeam db user team.id) =
    (.ok [team], inTeam db user team.id) := by
  have hone : db.teams.filter (fun r => r.id = team.id) = [team] := filter_key_eq h.ids h.mem
  refine select_ok ((Guard.select_eq_filter (by decide +kernel) fun r hr hid => ?_).trans
    (congrArg _ hone))
  have : r ∈ db.teams.filter fun r => r.id = team.id := List.mem_filter.mpr ⟨hr, hid⟩
  rw [hone, List.mem_singleton] at this
  rw [this]
  exact h.admits_team (.inl rfl)

/-- The coach sees the memberships of the team. -/
theorem admits_membership {r : TeamMembership} (hr : r.teamId = team.id) :
    (installed .teamMemberships).admits (holdsIn (inTeam db user team.id).settings db) .select r =
      true := by
  have hvisible := h.teamVisible
  rw [admits_select_teamTable (by decide)]
  simp_all [holdsIn, Clause.holds, teamAccess, HasColumns.column, Setting.value, inTeam]

/-- The request lets the coach in. -/
theorem requireTeamCoach_eq : requireTeamCoach installed user team.id (inTeam db user team.id) =
    (.ok (), inTeam db user team.id) := by
  obtain ⟨membership, hmem, hteam, huser, hactive, hcoach⟩ := h.membership
  have hone : db.teamMemberships.filter (fun r =>
      r.teamId = team.id && r.userId = user.id && r.isActive) = [membership] := by
    have hkey := filter_key_eq h.members hmem
    rw [hteam, huser] at hkey
    calc db.teamMemberships.filter (fun r =>
          r.teamId = team.id && r.userId = user.id && r.isActive)
        = (db.teamMemberships.filter fun r => (r.teamId, r.userId) = (team.id, user.id)).filter
            TeamMembership.isActive := by
          rw [List.filter_filter]
          exact List.filter_congr fun r _ => by simp [Bool.and_comm, Prod.ext_iff]
      _ = [membership] := by rw [hkey, List.filter_cons_of_pos hactive, List.filter_nil]
  have hselect : select installed .teamMemberships (fun r =>
      r.teamId = team.id && r.userId = user.id && r.isActive) (inTeam db user team.id) =
      (.ok [membership], inTeam db user team.id) := by
    refine select_ok ((Guard.select_eq_filter (by decide +kernel) fun r hr hp => ?_).trans
      (congrArg _ hone))
    simp only [Bool.and_eq_true, decide_eq_true_eq] at hp
    exact h.admits_membership hp.1.1
  rw [requireTeamCoach, Transaction.bind_ok hselect]
  cases user.role <;> simp [hcoach] <;> rfl

/-- **The update violates the policy for reading.** The row with `deleted_at` would be one that the
coach cannot see. -/
theorem updateOne_team : updateOne installed .teams (fun r => r.id = team.id)
    (fun r => { r with deletedAt := some now }) (inTeam db user team.id) =
      (.error (.sql (.rowSecurity .teams)), inTeam db user team.id) := by
  refine Transaction.bind_error
    (update_error (Guard.update_eq_error (by decide +kernel) h.mem ?_ ?_))
  · exact Bool.and_eq_true_iff.mpr ⟨Bool.and_eq_true_iff.mpr ⟨by simp, h.admits_team (.inl rfl)⟩,
      h.admits_team (.inr rfl)⟩
  · rw [Guard.mayWrite, Bool.and_eq_false_iff]
    refine .inr (not_admits_deleted _ ?_ (by simp))
    simp [Settings.showsDeleted, inTeam, authenticated, Settings.unset]

end CoachOf

theorem deleteTeam_eq (h : CoachOf requireVerified user team db) :
    deleteTeam installed requireVerified user team.id now (authenticated db user) =
      (.error (.sql (.rowSecurity .teams)), inTeam db user team.id) := by
  have hfound : [team].head?.filter Team.isActive = some team := by simp [h.isActive]
  rw [deleteTeam, Transaction.bind_ok (requireVerifiedAccount_ok h.verified _),
    setJoinInviteContext, Transaction.set_bind, setTenantContext, Transaction.set_bind]
  refine (Transaction.bind_ok h.select_team).trans ?_
  rw [hfound]
  refine (Transaction.bind_ok h.requireTeamCoach_eq).trans ?_
  rw [Transaction.ite_apply, if_neg (by simp [h.notDeleted])]
  exact Transaction.bind_error h.updateOne_team

/-- **The deletion raises, and the rows stay as they were.** -/
theorem deleteTeam_raises (now : Time) (h : CoachOf requireVerified user team db) :
    (deleteTeam installed requireVerified user team.id now (authenticated db user)).1 =
        .error (.sql (.rowSecurity .teams)) ∧
      (deleteTeam installed requireVerified user team.id now).result (authenticated db user) =
        db := by
  rw [Transaction.result, deleteTeam_eq h]
  exact ⟨rfl, rfl⟩

/-- **No team is deleted.** -/
theorem not_softDeletes (h : CoachOf requireVerified user team db) :
    ¬ SoftDeletes installed requireVerified user team.id now db := by
  intro hdeletes
  have hcommits := hdeletes.commits
  rw [deleteTeam_eq h] at hcommits
  cases hcommits

/-- A team with its head coach. -/
def withCoach : Database :=
  { Database.empty with
    users := [.plain 0 "coach@example.com" .coach]
    teams := [⟨0, "TEAM", true, none⟩]
    teamVisibility := [(0, none)]
    teamMemberships := [⟨0, 0, 0, .headCoach, none, true⟩] }

theorem coachOf_withCoach :
    CoachOf true (.plain 0 "coach@example.com" .coach) ⟨0, "TEAM", true, none⟩ withCoach where
  verified := rfl
  mem := List.mem_singleton_self _
  isActive := rfl
  notDeleted := rfl
  membership := ⟨_, List.mem_singleton_self _, rfl, rfl, rfl, rfl⟩
  visible := List.mem_singleton_self _
  ids := List.pairwise_singleton ..
  members := List.pairwise_singleton ..

/-- There is a coach, and the team cannot be deleted. -/
theorem exists_not_softDeletes : ∃ db user team, CoachOf true user team db ∧
    ¬ SoftDeletes installed true user team.id 10 db :=
  ⟨_, _, _, coachOf_withCoach, not_softDeletes coachOf_withCoach⟩

/-- What the coach gets is an error of the database, and the team stays. -/
theorem exists_deleteTeam_raises : ∃ db user team, CoachOf true user team db ∧
    (deleteTeam installed true user team.id 10 (authenticated db user)).1 =
      .error (.sql (.rowSecurity .teams)) ∧
    (deleteTeam installed true user team.id 10).result (authenticated db user) = db ∧
    ¬ SoftDeletes installed true user team.id 10 db := by
  have hraises := deleteTeam_raises 10 coachOf_withCoach
  refine ⟨_, _, _, coachOf_withCoach, hraises.1, hraises.2, fun hdeletes => ?_⟩
  cases hraises.1.symm.trans hdeletes.commits

end Raises

/-! ### What the policies hide -/

section Hides

variable {teamId : TeamId} {db : Database} {s : Settings}

theorem not_teamVisible (hs : s.showsDeleted = false)
    (hvisibility : ∀ v ∈ db.teamVisibility, v.1 = teamId → v.2 ≠ none) :
    db.teamVisible s (some (.number teamId)) = false := by
  rw [Database.teamVisible, List.any_eq_false]
  rintro ⟨id, deletedAt⟩ hv hvisible
  simp only [hs, Bool.or_false, Bool.and_eq_true, decide_eq_true_eq, Option.some.injEq,
    Value.number.injEq, Option.isNone_iff_eq_none] at hvisible
  exact hvisibility _ hv hvisible.1.symm hvisible.2

/-- Rows of a team that is not visible cannot be seen. -/
theorem not_admits_row {R : Type} [HasColumns R] {r : R} {table : TableName}
    (ht : table ∈ TableName.usageEvents :: teamWriteTables)
    (hr : HasColumns.column r .teamId = some (.number teamId))
    (hvisible : db.teamVisible s (some (.number teamId)) = false) :
    (installed table).admits (holdsIn s db) .select r = false := by
  rcases List.mem_cons.mp ht with rfl | ht
  · rw [installed_eq .usageEvents (by decide), guardOf]
    simp [Guard.admits, Policy.appliesTo, holdsIn, usageEventsAccess, Clause.holds, hr, hvisible]
  · rw [admits_select_teamTable ht]
    simp [holdsIn, Clause.holds, hr, hvisible]

/-- **A deleted team is hidden.** -/
theorem hidden_of_deleted (hteams : ∀ r ∈ db.teams, r.id = teamId → r.deletedAt ≠ none)
    (hvisibility : ∀ v ∈ db.teamVisibility, v.1 = teamId → v.2 ≠ none) :
    Hidden installed teamId db := by
  have hshows (s : Settings) (hs : s.currentUserRole ≠ some .admin) : s.showsDeleted = false := by
    simp [Settings.showsDeleted, hs]
  constructor
  · intro s hs r hr hid cmd
    have hselect := not_admits_deleted db (hshows s hs) (hteams r hr hid)
    exact ⟨hselect, Guard.reaches_eq_false (.inl hselect)⟩
  · intro s hs table ht r hr cmd
    have hselect := not_admits_row (s := s) (r := r) ht hr
      (not_teamVisible (hshows s hs) hvisibility)
    exact ⟨hselect, Guard.reaches_eq_false (.inl hselect), by rw [Guard.mayWrite, hselect,
      Bool.and_false]⟩

end Hides

end NextBallUp.Rls
