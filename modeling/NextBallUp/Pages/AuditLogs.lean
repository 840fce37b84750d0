import NextBallUp.Lib.Datetimes
import NextBallUp.Pages.VideoEvents
import NextBallUp.Rls.Requests
import Mathlib.Order.OrderDual

/-!
# The listing of the audit log

Administrators read the audit log page by page, from the latest entry on. The query runs under the
policies of the table, which show them the entries that belong to no team, and those of the teams
that are not deleted. The route does not ask for deleted records.

## Main definitions

* `AuditLog`, `AuditFilter`: the rows and the filters of the query
* `encodeCursor`, `decodeCursor`: the cursor
* `listAuditLogs`: the route
* `shownLogs`: the rows that match the filters and are shown to administrators

## Main results

* `admits_iff`: what the policies show to an administrator
* `auditPage_eq`: **a request gives a page of the rows that match its filters and are shown**
* `isComplete_listings`: **the pages of both listings lose and repeat nothing that is shown**
* `exists_not_isComplete`: an entry of a deleted team, which matches and is on no page

## What is deliberately absent

The columns of an entry that the query does not read, and the entry that the route itself writes:
for the pages after it, that is one of the changes of the table. So is the deletion of a team.
-/

namespace NextBallUp.Pages

open Events (Caller)

/-- `_MAX_PAGE_SIZE` -/
def maxPageSize : ℕ := 200

/-- A row of `audit_logs`. -/
structure AuditLog where
  id : Uuid
  createdAt : Datetime
  actorUserId : Option Uuid
  actorEmail : Option (List ℕ)
  action : List ℕ
  resourceType : Option (List ℕ)
  resourceId : Option Uuid
  teamId : Option Uuid

instance : Rls.HasColumns AuditLog := ⟨fun r => fun
  | .teamId => r.teamId.map (.number ·.value)
  | .actorUserId => r.actorUserId.map (.number ·.value)
  | _ => none⟩

/-- The table, with its primary key, and the one that its policies look at. -/
structure AuditLogs where
  rows : List AuditLog
  nodup_id : (rows.map AuditLog.id).Nodup
  /-- When each team was deleted. -/
  teamVisibility : List (TeamId × Option Time)

/-- `current_user` -/
structure CurrentUser where
  id : Uuid
  role : Rls.UserRole

/-! ### The cursor -/

/-- `_encode_cursor` -/
def encodeCursor (row : AuditLog) : List ℕ :=
  let raw := row.createdAt.isoformat ++ 124 :: row.id.str
  Base64.encode raw

/-- The instant that a `datetime` means; without an offset it is in UTC. -/
def utcInstant (ts : Fields × Option ℤ) : ℤ := ts.1.instant - ts.2.getD 0

/-- `_decode_cursor` -/
def decodeCursor (T : DigitTable) (cursor : List ℕ) : Except ListingError (ℤ × Uuid) :=
  let read := do
    let bytes ← Base64.decode cursor
    let raw ← JsonText.decodeStrict bytes
    let (tsStr, idStr) ← splitFirst 124 raw
    let ts ← fromisoformat tsStr
    let id ← Uuid.ofText T idStr
    some (utcInstant ts, id)
  match read with
  | some pair => .ok pair
  | none => .error (.validationFailed "Invalid audit log cursor" cursor)

/-! ### The route -/

/-- The filters of the query; the times are those that the client has written. -/
structure AuditFilter where
  teamId : Option Uuid
  actorUserId : Option Uuid
  actorEmail : Option (List ℕ)
  action : Option (List ℕ)
  resourceType : Option (List ℕ)
  resourceId : Option Uuid
  fromTs : Option (Fields × Option ℤ)
  toTs : Option (Fields × Option ℤ)

/-- The conditions that the filters add to the query. A column without a value equals nothing. -/
def AuditFilter.admits (f : AuditFilter) (row : AuditLog) : Bool :=
  f.teamId.all (row.teamId = some ·) && f.actorUserId.all (row.actorUserId = some ·) &&
    f.actorEmail.all (row.actorEmail = some ·) && f.action.all (row.action = ·) &&
    f.resourceType.all (row.resourceType = some ·) &&
    f.resourceId.all (row.resourceId = some ·) &&
    f.fromTs.all (fun ts => utcInstant ts ≤ row.createdAt.instant) &&
    f.toTs.all fun ts => row.createdAt.instant < utcInstant ts

/-- The lengths that the query admits. -/
def AuditFilter.isAdmitted (f : AuditFilter) : Bool :=
  f.actorEmail.all (fun s => s.length ≤ 255) && f.action.all (fun s => s.length ≤ 80) &&
    f.resourceType.all fun s => s.length ≤ 40

/-- `ORDER BY created_at DESC, id DESC` -/
def AuditLog.precedes (row row' : AuditLog) : Prop :=
  row'.createdAt.instant < row.createdAt.instant ∨
    row'.createdAt.instant = row.createdAt.instant ∧ row'.id ≤ row.id

instance (row row' : AuditLog) : Decidable (row.precedes row') :=
  inferInstanceAs (Decidable (_ ∨ _))

/-- The condition that a cursor adds to the query. -/
def AuditLog.isBehind (row : AuditLog) (cursorTs : ℤ) (cursorId : Uuid) : Bool :=
  row.createdAt.instant < cursorTs || (row.createdAt.instant = cursorTs && row.id < cursorId)

/-- `AuditLogPage` -/
structure AuditLogPage where
  items : List AuditLog
  nextCursor : Option (List ℕ)

/-- The page for the rows that the query has found, of which one may be too many. -/
def auditLogPage (limit : ℕ) (rows : List AuditLog) : AuditLogPage :=
  if limit < rows.length then
    { items := rows.take limit
      nextCursor := rows[limit - 1]?.map encodeCursor }
  else
    { items := rows
      nextCursor := none }

/-- The settings that `get_current_user` makes. -/
def CurrentUser.settings (user : CurrentUser) : Rls.Settings :=
  { Rls.Settings.unset with
    currentUserId := some user.id.value
    currentUserRole := some user.role }

/-- A condition of the policies is true of the row. -/
def AuditLogs.holds (table : AuditLogs) (user : CurrentUser) (c : Rls.Clause) (row : AuditLog) :
    Bool :=
  Rls.holdsIn user.settings { Rls.Database.empty with teamVisibility := table.teamVisibility } c row

/-- `list_audit_logs` -/
def listAuditLogs (T : DigitTable) (table : AuditLogs) (user : CurrentUser) (f : AuditFilter)
    (limit : ℕ) (cursor : Option (List ℕ)) : Except ListingError AuditLogPage := do
  if ¬(f.isAdmitted = true ∧ 1 ≤ limit ∧ limit ≤ maxPageSize) then throw .requestValidation
  if user.role ≠ .admin then throw .authorizationDenied
  let cursor ← cursor.mapM (decodeCursor T)
  let filtered ← ((Rls.installed .auditLogs).select Rls.TableName.auditLogs (table.holds user)
    (fun row => f.admits row && cursor.all fun c => row.isBehind c.1 c.2) table.rows).mapError
      fun _ => .databaseError
  pure (auditLogPage limit ((filtered.insertionSort AuditLog.precedes).take (limit + 1)))

/-! ### Keys -/

/-- What the listing is ordered by. -/
def AuditLog.key (row : AuditLog) : (Datetime ×ₗ Uuid)ᵒᵈ :=
  OrderDual.toDual (toLex (row.createdAt, row.id))

/-- The cursor that points to a row with the key. -/
def writeAuditKey (key : (Datetime ×ₗ Uuid)ᵒᵈ) : List ℕ :=
  Base64.encode ((ofLex (OrderDual.ofDual key)).1.isoformat ++
    124 :: (ofLex (OrderDual.ofDual key)).2.str)

/-- The rows that match the filters. -/
def matchingLogs (f : AuditFilter) (table : AuditLogs) : List AuditLog := table.rows.filter f.admits

/-- The row belongs to no team, or to one that is not deleted. -/
def AuditLogs.shows (table : AuditLogs) (row : AuditLog) : Bool :=
  row.teamId.all fun team => table.teamVisibility.any fun v => v.1 = team.value && v.2.isNone

/-- The rows that match the filters and are shown to administrators. -/
def shownLogs (f : AuditFilter) (table : AuditLogs) : List AuditLog :=
  (matchingLogs f table).filter table.shows

variable {T : DigitTable} {table : AuditLogs} {user : CurrentUser} {f : AuditFilter} {limit : ℕ}

theorem lt_iff_instant_lt (t t' : Datetime) : t < t' ↔ t.instant < t'.instant := Iff.rfl

theorem eq_iff_instant_eq (t t' : Datetime) : t = t' ↔ t.instant = t'.instant :=
  Datetime.instant_injective.eq_iff.symm

theorem auditLog_precedes_iff (row row' : AuditLog) : row.precedes row' ↔ row.key ≤ row'.key := by
  rw [AuditLog.key, AuditLog.key, OrderDual.toDual_le_toDual, Prod.Lex.toLex_le_toLex,
    lt_iff_instant_lt, eq_iff_instant_eq]
  rfl

theorem isBehind_iff (row : AuditLog) (key : (Datetime ×ₗ Uuid)ᵒᵈ) :
    row.isBehind (ofLex (OrderDual.ofDual key)).1.instant (ofLex (OrderDual.ofDual key)).2 = true ↔
      key < row.key := by
  have hkey : key = OrderDual.toDual (toLex ((ofLex (OrderDual.ofDual key)).1,
    (ofLex (OrderDual.ofDual key)).2)) := rfl
  conv_rhs => rw [hkey]
  rw [AuditLog.key, OrderDual.toDual_lt_toDual, Prod.Lex.toLex_lt_toLex, lt_iff_instant_lt,
    eq_iff_instant_eq, AuditLog.isBehind, Bool.or_eq_true, Bool.and_eq_true, decide_eq_true_iff,
    decide_eq_true_iff, decide_eq_true_iff, Nat.cast_lt, Nat.cast_inj]

/-- The ids are a key of the table, and so are the times and ids. -/
theorem hasKey_shownLogs (f : AuditFilter) (table : AuditLogs) :
    Keyset.HasKey AuditLog.key (shownLogs f table) := by
  have hsub : (shownLogs f table).Sublist table.rows :=
    List.filter_sublist.trans List.filter_sublist
  have hnodup := table.nodup_id.sublist (hsub.map AuditLog.id)
  refine (List.Nodup.of_map
    (fun key : (Datetime ×ₗ Uuid)ᵒᵈ => (ofLex (OrderDual.ofDual key)).2) ?_)
  rw [List.map_map]
  exact hnodup

theorem insertionSort_auditLog (rows : List AuditLog) :
    rows.insertionSort AuditLog.precedes = Keyset.orderBy AuditLog.key rows := by
  have hrel : AuditLog.precedes = fun row row' => row.key ≤ row'.key := by
    funext row row'
    exact propext (auditLog_precedes_iff row row')
  rw [Keyset.orderBy]
  congr!

/-! ### Policies -/

theorem installed_auditLogs : Rls.installed .auditLogs = Rls.guardOf .auditLogs :=
  Rls.installed_eq .auditLogs (by decide)

/-- **What the policies show to an administrator.** -/
theorem admits_iff (hadmin : user.role = .admin) (row : AuditLog) :
    (Rls.installed .auditLogs).admits (table.holds user) .select row = table.shows row := by
  have hadmits : (Rls.installed .auditLogs).admits (table.holds user) .select row =
      table.holds user (.or (.isNull .teamId) (.and (.teamVisible .teamId)
        (.or .adminRole (.or (.eq .teamId .teamId) (.eq .actorUserId .userId))))) row := by
    rw [installed_auditLogs]
    exact Bool.or_false _
  have hrole : user.settings.currentUserRole = some .admin := congrArg some hadmin
  have hdeleted : user.settings.showsDeleted = false := Bool.and_false _
  rw [hadmits, AuditLogs.holds, Rls.holdsIn, Rls.Clause.holds_or, Rls.Clause.holds_and,
    Rls.Clause.holds_or, AuditLogs.shows]
  simp only [Rls.Clause.holds, Rls.Database.teamVisible, hrole, hdeleted, decide_true, Bool.true_or,
    Bool.and_true, Bool.or_false]
  cases hteam : row.teamId with
  | none => simp [Rls.HasColumns.column, hteam]
  | some team =>
    simp only [Rls.HasColumns.column, hteam, Option.map_some, Option.isNone_some, Bool.false_or,
      Option.all_some, Option.some.injEq, Rls.Value.number.injEq, eq_comm (a := team.value)]

/-- The query gives the rows that are shown. -/
theorem select_eq (hadmin : user.role = .admin) (p : AuditLog → Bool) :
    (Rls.installed .auditLogs).select Rls.TableName.auditLogs (table.holds user) p table.rows =
      .ok ((table.rows.filter table.shows).filter p) := by
  have hprivilege : [RowSecurity.Command.select] ⊆ (Rls.installed .auditLogs).privileges := by
    rw [installed_auditLogs]
    decide
  rw [RowSecurity.Guard.select, RowSecurity.Guard.privileged_of_subset hprivilege,
    List.filter_filter]
  simp only [admits_iff hadmin]

/-! ### Requests -/

/-- **What was written is read.** -/
theorem decodeCursor_writeAuditKey (T : DigitTable) (key : (Datetime ×ₗ Uuid)ᵒᵈ) :
    decodeCursor T (writeAuditKey key) = .ok ((ofLex (OrderDual.ofDual key)).1.instant,
      (ofLex (OrderDual.ofDual key)).2) := by
  rw [writeAuditKey]
  generalize (ofLex (OrderDual.ofDual key)).1 = t, (ofLex (OrderDual.ofDual key)).2 = id
  have hascii : ∀ c ∈ t.isoformat ++ 124 :: id.str, c < 0x80 := by
    intro c hc
    rcases List.mem_append.mp hc with hc | hc
    · exact (lt_of_mem_isoformat hc).trans_lt (by decide)
    · rcases List.mem_cons.mp hc with rfl | hc
      · decide
      · have := Uuid.cases_of_mem_str hc
        omega
  have hbar : 124 ∉ t.isoformat := fun hc => absurd (lt_of_mem_isoformat hc) (by decide)
  have hinstant : utcInstant (t.toFields, some 0) = t.instant := Int.sub_zero _
  simp only [decodeCursor, Base64.decode_encode fun c hc => (hascii c hc).trans (by decide),
    JsonText.decodeStrict_ascii hascii, splitFirst_append hbar, fromisoformat_isoformat,
    Uuid.ofText_str, Option.bind_eq_bind, Option.bind_some, hinstant]

/-- A page, as a client sees it who follows the cursors. -/
def auditPage (T : DigitTable) (user : CurrentUser) (f : AuditFilter) (table : AuditLogs)
    (limit : ℕ) (cursor : Option (List ℕ)) : Except ListingError (Keyset.Page AuditLog (List ℕ)) :=
  (listAuditLogs T table user f limit cursor).map fun page => ⟨page.items, page.nextCursor⟩

/-- **A request of an administrator gives a page of the rows that match its filters and are shown.**
-/
theorem auditPage_eq (hadmin : user.role = .admin) (hf : f.isAdmitted = true)
    (hlimit : 1 ≤ limit ∧ limit ≤ maxPageSize) (cursor : Option (Datetime ×ₗ Uuid)ᵒᵈ) :
    auditPage T user f table limit (cursor.map writeAuditKey) =
      .ok ⟨(Keyset.page AuditLog.key (shownLogs f table) limit cursor).rows,
        (Keyset.page AuditLog.key (shownLogs f table) limit cursor).next.map writeAuditKey⟩ := by
  have hread : (cursor.map writeAuditKey).mapM (decodeCursor T) =
      .ok (cursor.map fun key => (((ofLex (OrderDual.ofDual key)).1.instant : ℤ),
        (ofLex (OrderDual.ofDual key)).2)) := by
    cases cursor with
    | none => rfl
    | some key =>
      show (decodeCursor T (writeAuditKey key)).map some = _
      rw [decodeCursor_writeAuditKey]
      rfl
  have hfilter : ((table.rows.filter table.shows).filter fun row => f.admits row && (cursor.map
      fun key => (((ofLex (OrderDual.ofDual key)).1.instant : ℤ),
        (ofLex (OrderDual.ofDual key)).2)).all fun c => row.isBehind c.1 c.2) =
      Keyset.after AuditLog.key cursor (shownLogs f table) := by
    rw [Keyset.after, shownLogs, matchingLogs, List.filter_filter, List.filter_filter,
      List.filter_filter]
    refine List.filter_congr fun row _ => ?_
    have hbehind : (cursor.map fun key => (((ofLex (OrderDual.ofDual key)).1.instant : ℤ),
        (ofLex (OrderDual.ofDual key)).2)).all (fun c => row.isBehind c.1 c.2) =
          decide (∀ k ∈ cursor, k < row.key) := by
      cases cursor with
      | none => simp
      | some key =>
        rw [Option.map_some, Option.all_some, Bool.eq_iff_iff, isBehind_iff, decide_eq_true_iff]
        simp
    rw [hbehind, Bool.and_comm (f.admits row), Bool.and_assoc, Bool.and_assoc,
      Bool.and_comm (f.admits row)]
  unfold auditPage listAuditLogs
  rw [if_neg (not_not_intro ⟨hf, hlimit⟩), if_neg (not_not_intro hadmin), hread]
  show (((RowSecurity.Guard.select _ _ _ _ _).mapError _ >>= _)).map _ = _
  rw [select_eq hadmin, hfilter]
  show Except.ok (Keyset.Page.mk (auditLogPage limit ((List.insertionSort _ _).take
    (limit + 1))).items _) = _
  rw [insertionSort_auditLog, Keyset.page]
  generalize (Keyset.orderBy AuditLog.key (Keyset.after AuditLog.key cursor
    (shownLogs f table))).take (limit + 1) = found
  congr 1
  by_cases hmore : limit < found.length
  · have hlast : (found.take limit).getLast? = found[limit - 1]? := by
      rw [List.getLast?_take, if_neg (by omega), List.getElem?_eq_getElem (by omega)]
      rfl
    simp only [auditLogPage, if_pos hmore, hlast, Option.map_map]
    rfl
  · simp only [auditLogPage, if_neg hmore, Option.map_none]

/-! ### Both listings -/

/-- The states in which a coach of the team finds the video. -/
def Tables.OfVideo (videoId : VideoId) (video : Events.Video) : Type :=
  {tables : Tables // tables.videos videoId = some video}

/-- **The pages of both listings lose and repeat nothing that is shown.** -/
theorem isComplete_listings (T : DigitTable) {caller : Caller} {videoId : VideoId}
    {video : Events.Video} (hcoach : caller.isCoach video.teamId = true) (eventFilter : EventFilter)
    {user : CurrentUser} (hadmin : user.role = .admin) {f : AuditFilter}
    (hf : f.isAdmitted = true) :
    Keyset.IsComplete
      (fun tables : Tables.OfVideo videoId video =>
        eventPage T caller videoId eventFilter tables.val)
      EventRow.key (fun tables => matchingEvents videoId eventFilter tables.val)
      videoEventsMaxLimit ∧
    Keyset.IsComplete (auditPage T user f) AuditLog.key (shownLogs f) maxPageSize := by
  constructor
  · refine Keyset.isComplete_of_page writeEventKey
      (fun tables => hasKey_matchingEvents videoId eventFilter tables.val) ?_
    intro tables limit hlimit cursor
    exact eventPage_eq tables.property hcoach hlimit cursor
  · refine Keyset.isComplete_of_page writeAuditKey (hasKey_shownLogs f) ?_
    intro table limit hlimit cursor
    exact auditPage_eq hadmin hf hlimit cursor

/-- A query without filters. -/
def allLogs : AuditFilter := ⟨none, none, none, none, none, none, none, none⟩

/-- An administrator. -/
def admin : CurrentUser := ⟨someUuid, .admin⟩

theorem isComplete_all : Keyset.IsComplete
    (fun tables : Tables.OfVideo 0 (Events.sampleVideo 60) =>
      eventPage DigitTable.ascii Events.sampleCoach 0 ⟨[], [], none⟩ tables.val)
    EventRow.key (fun tables => matchingEvents 0 ⟨[], [], none⟩ tables.val) videoEventsMaxLimit ∧
    Keyset.IsComplete (auditPage DigitTable.ascii admin allLogs) AuditLog.key (shownLogs allLogs)
      maxPageSize :=
  isComplete_listings DigitTable.ascii rfl ⟨[], [], none⟩ rfl rfl

/-- An entry of a team that has been deleted. -/
def deletedTeamLog : AuditLog where
  id := someUuid
  createdAt := ⟨⟨2026, 4, 26, 0, 0, 0, 0⟩, by decide⟩
  actorUserId := none
  actorEmail := none
  action := "team.deleted".codePoints
  resourceType := none
  resourceId := none
  teamId := some ⟨7, by decide⟩

def deletedTeamLogs : AuditLogs where
  rows := [deletedTeamLog]
  nodup_id := List.nodup_singleton _
  teamVisibility := [(7, some 0)]

/-- **An entry of a deleted team matches every query without filters and is on no page.** -/
theorem exists_not_isComplete : ∃ table row, row ∈ matchingLogs allLogs table ∧
    auditPage DigitTable.ascii admin allLogs table 50 none = .ok ⟨[], none⟩ ∧
    ¬ Keyset.IsComplete (auditPage DigitTable.ascii admin allLogs) AuditLog.key (matchingLogs allLogs)
      maxPageSize := by
  have hmem : deletedTeamLog ∈ matchingLogs allLogs deletedTeamLogs :=
    List.mem_filter.mpr ⟨List.mem_singleton_self _, rfl⟩
  have hpage : auditPage DigitTable.ascii admin allLogs deletedTeamLogs 50 none = .ok ⟨[], none⟩ :=
    @auditPage_eq _ _ admin allLogs _ rfl rfl (by decide) none
  refine ⟨deletedTeamLogs, deletedTeamLog, hmem, hpage, fun h => ?_⟩
  obtain ⟨pages, isLast, hfollow, -, -, hreturned⟩ := h.changing [(deletedTeamLogs, 50)] (by decide)
  rw [Keyset.follow, hpage] at hfollow
  obtain ⟨rfl, rfl⟩ := Prod.mk.inj (Except.ok.inj hfollow)
  obtain ⟨before, after, hrow, -⟩ := hreturned rfl deletedTeamLog fun r hr => by
    rw [List.mem_singleton.mp hr]
    exact hmem
  cases before with
  | nil => cases hrow
  | cons _ _ => cases hrow

end NextBallUp.Pages
