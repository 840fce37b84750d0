import NextBallUp.Links.Requests
import NextBallUp.Rls.Erasure

/-!
# Links that were not delivered

`request_password_reset`, `request_email_verification` and the two endpoints that redeem a link, as
the runtime role runs them. A request commits its token before it delivers the link. If the delivery
raises, it sets out to mark the token as used, in a second transaction.

The policies show a token to its user and to whoever knows it. The request has bound its user in the
first transaction, and the binding ended with it: the second transaction has no settings, and its
update reaches no row. So the link of a failed delivery can be redeemed until it expires.

## What is deliberately absent

Rate limits, and the texts of links: a token is named by its hash, and a link that is empty or
longer than 256 characters names none. Other sessions: requests follow one another.

## Main definitions

* `requestPasswordReset`, `requestEmailVerification`, `resetPassword`, `confirmEmailVerification`
* `Later`: a request that comes after the failed delivery
* `LinkIsDead`: no later requests end with the link being redeemed

## Main results

* `retireUndelivered_eq`: the update after a failed delivery reaches nothing
* `linkIsDead_iff`: **the link is dead exactly when it has expired by the time the delivery fails**
* `exists_not_linkIsDead`: a link that is redeemed after its delivery has failed
-/

namespace NextBallUp.Rls

open RowSecurity

open Links (Family)

/-! ### Tokens -/

/-- The table of a family. -/
def tokensOf : Family → TableOf AccountToken
  | .emailVerification => .emailVerificationTokens
  | .passwordReset => .passwordResetTokens

/-- `_hash_token` of some token, 64 hexadecimal digits. -/
structure TokenHash where
  hex : String
  hex_ne : hex ≠ ""
  deriving DecidableEq

/-- What a request draws when it issues a token, and what it notes of its client. -/
structure Draw where
  id : ℕ
  token : TokenHash
  requestedIp : Option String
  requestedUserAgent : Option String

/-- How the delivery of a link ends. -/
inductive Delivery
  | sent
  /-- It raises. -/
  | failed (failureAt : Time)
  deriving DecidableEq, Repr

/-- Why a link is not redeemed. -/
inductive Rejection
  | invalid | expired | used | alreadyVerified
  deriving DecidableEq, Repr

/-- The settings that `get_current_user` and the issue of a token bind. -/
def setUserContext (userId : UserId) : Request Unit :=
  .set fun s => { s with currentUserId := some userId }

/-- The session knows the token. -/
def setTokenHash (family : Family) (token : TokenHash) : Request Unit :=
  .set fun s => match family with
    | .emailVerification => { s with currentEmailVerificationTokenHash := some token.hex }
    | .passwordReset => { s with currentPasswordResetTokenHash := some token.hex }

/-- The row that is inserted at `now`. -/
def Draw.row (S : Links.Settings) (family : Family) (userId : UserId) (now : Time) (d : Draw) :
    AccountToken where
  id := d.id
  userId := userId
  tokenHash := d.token.hex
  expiresAt := now + S.ttlMinutes family * 60
  usedAt := none
  requestedIp := d.requestedIp
  requestedUserAgent := d.requestedUserAgent
  usedIp := none

/-- `used_at = now` -/
def AccountToken.use (now : Time) (r : AccountToken) : AccountToken := { r with usedAt := some now }

/-- The assignments to a token that is redeemed. -/
def AccountToken.redeem (now : Time) (ip : Option String) (r : AccountToken) : AccountToken :=
  { r.use now with usedIp := ip }

/-- The assignments to the user of a password reset. -/
def User.resetPassword (newPasswordHash : String) (sessionVersion : ℕ) (u : User) : User :=
  { u with passwordHash := newPasswordHash, sessionVersion := sessionVersion }

/-- The assignment to the user of a verification. -/
def User.verify (u : User) : User := { u with isVerified := true }

section Requests

variable (c : Catalog TableName PolicyName Clause) (S : Links.Settings)

/-! ### Issuing -/

/-- `UPDATE … SET used_at WHERE user_id AND used_at IS NULL` -/
def retireTokens (family : Family) (userId : UserId) (now : Time) : Request Unit := do
  let _ ← update c (tokensOf family) (fun r => r.userId = userId && r.usedAt = none)
    (AccountToken.use now)

/-- What `issue_verification_token` and `issue_password_reset_token` have in common. -/
def issueToken (family : Family) (userId : UserId) (d : Draw) (now : Time) : Request Unit := do
  setUserContext userId
  retireTokens c family userId now
  insert c (tokensOf family) (d.row S family userId now)

/-- `issue_verification_token` -/
def issueVerificationToken (user : User) (d : Draw) (now : Time) : Request Unit :=
  issueToken c S .emailVerification user.id d now

/-- `issue_password_reset_token` -/
def issuePasswordResetToken (user : User) (d : Draw) (now : Time) : Request Unit := do
  let lockedUsers ← selectForUpdate c .users fun r => r.id = user.id
  match lockedUsers.head?.filter User.isActive with
  | none => throw .valueError
  | some lockedUser => issueToken c S .passwordReset lockedUser.id d now

/-- The update after a failed delivery. -/
def retireUndelivered (family : Family) (d : Draw) (failureAt : Time) : Request Unit := do
  let _ ← update c (tokensOf family) (fun r => r.id = d.id && r.usedAt = none)
    (AccountToken.use failureAt)

/-- `request_password_reset` -/
def requestPasswordReset (email : String) (d : Draw) (now : Time) (delivery : Delivery) :
    Request Unit := do
  let users ← select c .users fun r => r.email = email
  match users.head?.filter User.isActive with
  | none => do
    writeAudit c .userPasswordResetRequested none none
    commit
  | some user => do
    issuePasswordResetToken c S user d now
    writeAudit c .userPasswordResetRequested (some user.id) none
    commit
    match delivery with
    | .sent => writeAudit c .userPasswordResetSent (some user.id) none
    | .failed failureAt => do
      retireUndelivered c .passwordReset d failureAt
      writeAudit c .userPasswordResetRejected (some user.id) none
    commit

/-- `request_email_verification` -/
def requestEmailVerification (user : User) (d : Draw) (now : Time) (delivery : Delivery) :
    Request Unit :=
  if user.isVerified then do
    writeAudit c .userEmailVerificationRequested (some user.id) none
    commit
  else do
    issueVerificationToken c S user d now
    writeAudit c .userEmailVerificationRequested (some user.id) none
    commit
    match delivery with
    | .sent => do
      writeAudit c .userEmailVerificationSent (some user.id) none
      commit
    | .failed failureAt => do
      retireUndelivered c .emailVerification d failureAt
      writeAudit c .userEmailVerificationRejected (some user.id) none
      commit
      throw (.app .internalError)

/-! ### Redeeming -/

/-- What has been assigned to a loaded token. -/
def flushToken (family : Family) (loaded : AccountToken) (f : AccountToken → AccountToken) :
    Request Unit :=
  updateOne c (tokensOf family) (fun r => r.id = loaded.id) f

/-- `consume_password_reset_token`, which leaves it to its caller to write what it assigns. -/
def consumePasswordResetToken (now : Time) :
    Option TokenHash → Request (Except Rejection (User × AccountToken))
  | none => return .error .invalid
  | some token => do
    setTokenHash .passwordReset token
    let owners ← select c (tokensOf .passwordReset) fun r => r.tokenHash = token.hex
    match owners.head? with
    | none => return .error .invalid
    | some owner => do
      let users ← selectForUpdate c .users fun r => r.id = owner.userId
      let tokens ← selectForUpdate c (tokensOf .passwordReset) fun r =>
        r.tokenHash = token.hex && r.userId = owner.userId
      match tokens.head? with
      | none => return .error .invalid
      | some r =>
        if r.usedAt ≠ none then return .error .used
        else if r.expiresAt ≤ now then return .error .expired
        else match users.head?.filter User.isActive with
          | none => do
            flushToken c .passwordReset r (AccountToken.use now)
            return .error .invalid
          | some user => do
            setUserContext user.id
            return .ok (user, r)

/-- The error of `reset_password` and of `confirm_email_verification`. -/
def Rejection.code : Family → Rejection → ErrorCode
  | .passwordReset, .expired => .passwordResetTokenExpired
  | .passwordReset, .used => .passwordResetTokenUsed
  | .passwordReset, _ => .passwordResetTokenInvalid
  | .emailVerification, .expired => .emailVerificationTokenExpired
  | .emailVerification, .used => .emailVerificationTokenUsed
  | .emailVerification, .alreadyVerified => .emailAlreadyVerified
  | .emailVerification, .invalid => .emailVerificationTokenInvalid

def rejectedAction : Family → AuditAction
  | .emailVerification => .userEmailVerificationRejected
  | .passwordReset => .userPasswordResetRejected

def rejectLink (family : Family) (reason : Rejection) : Request Time := do
  writeAudit c (rejectedAction family) none none
  commit
  throw (.app (reason.code family))

/-- `reset_password` -/
def resetPassword (link : Option TokenHash) (newPasswordHash : String) (resetIp : Option String)
    (now : Time) : Request Time := do
  let consumed ← consumePasswordResetToken c now link
  match consumed with
  | .error reason => rejectLink c .passwordReset reason
  | .ok (user, token) => do
    updateOne c .users (fun u => u.id = user.id)
      (User.resetPassword newPasswordHash (user.sessionVersion + 1))
    flushToken c .passwordReset token (AccountToken.redeem now resetIp)
    revokeRefreshSessions c user now "password_reset"
    retireTokens c .passwordReset user.id now
    writeAudit c .userPasswordResetSucceeded (some user.id) none
    commit
    return now

/-- `confirm_verification_token`, with the assignments written. -/
def confirmVerificationToken (confirmedIp : Option String) (now : Time) :
    Option TokenHash → Request (Except Rejection UserId)
  | none => return .error .invalid
  | some token => do
    setTokenHash .emailVerification token
    let tokens ← selectForUpdate c (tokensOf .emailVerification) fun r => r.tokenHash = token.hex
    match tokens.head? with
    | none => return .error .invalid
    | some r =>
      if r.usedAt ≠ none then return .error .used
      else if r.expiresAt ≤ now then return .error .expired
      else do
        let users ← select c .users fun u => u.id = r.userId
        match users.head?.filter User.isActive with
        | none => return .error .invalid
        | some user =>
          if user.isVerified then do
            flushToken c .emailVerification r (AccountToken.redeem now confirmedIp)
            return .error .alreadyVerified
          else do
            updateOne c .users (fun u => u.id = user.id) User.verify
            flushToken c .emailVerification r (AccountToken.redeem now confirmedIp)
            return .ok user.id

/-- `confirm_email_verification` -/
def confirmEmailVerification (link : Option TokenHash) (confirmedIp : Option String) (now : Time) :
    Request Time := do
  let confirmed ← confirmVerificationToken c confirmedIp now link
  match confirmed with
  | .error reason => rejectLink c .emailVerification reason
  | .ok userId => do
    writeAudit c .userEmailVerificationConfirmed (some userId) none
    commit
    return now

/-! ### Requests of either family -/

/-- The request by which a user asks for a link. -/
def requestLink (family : Family) (user : User) (d : Draw) (now : Time) (delivery : Delivery) :
    Request Unit :=
  match family with
  | .emailVerification => requestEmailVerification c S user d now delivery
  | .passwordReset => requestPasswordReset c S user.email d now delivery

/-- The connection on which it runs. Nobody is let in to ask for a password reset. -/
def connection (family : Family) (db : Database) (user : User) :
    Transaction.Session Database Settings :=
  match family with
  | .emailVerification => authenticated db user
  | .passwordReset => fresh db

/-- What a link is redeemed with. -/
structure Redemption where
  link : Option TokenHash
  newPasswordHash : String
  ip : Option String
  now : Time

/-- The request that redeems a link. -/
def redeem (family : Family) (r : Redemption) : Request Time :=
  match family with
  | .emailVerification => confirmEmailVerification c r.link r.ip r.now
  | .passwordReset => resetPassword c r.link r.newPasswordHash r.ip r.now

/-- A request that comes after a failed delivery. -/
inductive Later
  | requestPasswordReset (email : String) (d : Draw) (now : Time) (delivery : Delivery)
  | requestEmailVerification (userId : UserId) (d : Draw) (now : Time) (delivery : Delivery)
  | redeem (family : Family) (r : Redemption)
  /-- Any request that leaves the tokens alone. -/
  | other (f : Database → Database)
    (rows_eq : ∀ family db, (tokensOf family).rows (f db) = (tokensOf family).rows db)

/-- What the request leaves behind. -/
def runLater (db : Database) : Later → Database
  | .requestPasswordReset email d now delivery =>
    (requestPasswordReset c S email d now delivery).result (fresh db)
  | .requestEmailVerification userId d now delivery =>
    -- `get_current_user`
    match db.users.find? fun r => r.id = userId && r.isActive with
    | none => db
    | some user => (requestEmailVerification c S user d now delivery).result (authenticated db user)
  | .redeem family r => (redeem c family r).result (fresh db)
  | .other f _ => f db

/-- The rows after a request whose delivery has failed. -/
def afterFailedDelivery (family : Family) (user : User) (d : Draw) (now failureAt : Time)
    (db : Database) : Database :=
  (requestLink c S family user d now (.failed failureAt)).result (connection family db user)

/-- **The link is dead.** Whatever requests there are after the delivery has failed, whenever they
take place, nobody redeems the link afterwards. -/
def LinkIsDead (family : Family) (user : User) (d : Draw) (now failureAt : Time) (db : Database) :
    Prop :=
  ∀ (later : List Later) (r : Redemption), r.link = some d.token → failureAt ≤ r.now → ∀ t : Time,
    (redeem c family r (fresh (later.foldl (runLater c S)
      (afterFailedDelivery c S family user d now failureAt db)))).1 ≠ .ok t

end Requests

/-! ### What the policies let a session do with tokens -/

/-- The session has bound the user of the token, or knows the token. -/
def knows (s : Settings) (family : Family) (r : AccountToken) : Bool :=
  s.currentUserId = some r.userId ||
    match family with
    | .emailVerification => s.currentEmailVerificationTokenHash = some r.tokenHash
    | .passwordReset => s.currentPasswordResetTokenHash = some r.tokenHash

section Policies

variable {family : Family} {r : AccountToken} {s : Settings} {db : Database}

theorem tokensOf_plain (family : Family) : (tokensOf family).Plain := by
  cases family <;> exact ⟨rfl, fun _ _ => rfl, fun _ => rfl⟩

theorem rows_setRows (family : Family) (l : List AccountToken) (db : Database) :
    (tokensOf family).rows ((tokensOf family).setRows l db) = l := by
  cases family <;> rfl

theorem privileges_tokensOf (family : Family) (cmds : List Command) :
    cmds ⊆ (installed (tokensOf family).name).privileges := by
  intro cmd _
  cases family
  · rw [show (tokensOf .emailVerification).name = .emailVerificationTokens from rfl,
      installed_eq .emailVerificationTokens (by decide), guardOf]
    cases cmd <;> simp [crud, Command.all]
  · rw [show (tokensOf .passwordReset).name = .passwordResetTokens from rfl,
      installed_eq .passwordResetTokens (by decide), guardOf]
    cases cmd <;> simp [crud, Command.all]

theorem holds_emailTokenAccess :
    holdsIn s db emailTokenAccess r = knows s .emailVerification r := by
  simp [emailTokenAccess, holdsIn, Clause.holds, HasColumns.column, Setting.value, knows, eq_comm]

theorem holds_resetTokenAccess :
    holdsIn s db resetTokenAccess r = knows s .passwordReset r := by
  simp [resetTokenAccess, holdsIn, Clause.holds, HasColumns.column, Setting.value, knows, eq_comm]

theorem admits_update_token :
    (installed (tokensOf family).name).admits (holdsIn s db) .update r = knows s family r := by
  cases family
  · rw [show (tokensOf .emailVerification).name = .emailVerificationTokens from rfl,
      installed_eq .emailVerificationTokens (by decide), guardOf]
    simp [Guard.admits, crud, Policy.appliesTo, holds_emailTokenAccess]
  · rw [show (tokensOf .passwordReset).name = .passwordResetTokens from rfl,
      installed_eq .passwordResetTokens (by decide), guardOf]
    simp [Guard.admits, crud, Policy.appliesTo, holds_resetTokenAccess]

theorem accepts_update_token :
    (installed (tokensOf family).name).accepts (holdsIn s db) .update r = knows s family r := by
  cases family
  · rw [show (tokensOf .emailVerification).name = .emailVerificationTokens from rfl,
      installed_eq .emailVerificationTokens (by decide), guardOf]
    simp [Guard.accepts, crud, Policy.appliesTo, holds_emailTokenAccess]
  · rw [show (tokensOf .passwordReset).name = .passwordResetTokens from rfl,
      installed_eq .passwordResetTokens (by decide), guardOf]
    simp [Guard.accepts, crud, Policy.appliesTo, holds_resetTokenAccess]

theorem admits_select_token (h : knows s family r = true) :
    (installed (tokensOf family).name).admits (holdsIn s db) .select r = true := by
  cases family
  · rw [show (tokensOf .emailVerification).name = .emailVerificationTokens from rfl,
      installed_eq .emailVerificationTokens (by decide), guardOf]
    simp [Guard.admits, crud, Policy.appliesTo, holds_emailTokenAccess, h]
  · have hor : holdsIn s db (.or resetTokenAccess .adminRole) r = true := by
      rw [← holds_resetTokenAccess, holdsIn] at h
      rw [holdsIn, Clause.holds, h, Bool.true_or]
    rw [show (tokensOf .passwordReset).name = .passwordResetTokens from rfl,
      installed_eq .passwordResetTokens (by decide), guardOf]
    simp [Guard.admits, crud, Policy.appliesTo, hor]

/-- A session that has bound a user may insert a token of that user. -/
theorem mayWrite_insert_token (h : s.currentUserId = some r.userId) :
    (installed (tokensOf family).name).mayWrite (holdsIn s db) .insert r = true := by
  have hsel : (installed (tokensOf family).name).admits (holdsIn s db) .select r = true :=
    admits_select_token (by simp [knows, h])
  rw [Guard.mayWrite, hsel, Bool.and_true]
  cases family
  · rw [show (tokensOf .emailVerification).name = .emailVerificationTokens from rfl,
      installed_eq .emailVerificationTokens (by decide), guardOf]
    simp [Guard.accepts, crud, Policy.appliesTo, holdsIn, Clause.holds, HasColumns.column,
      Setting.value, h]
  · rw [show (tokensOf .passwordReset).name = .passwordResetTokens from rfl,
      installed_eq .passwordResetTokens (by decide), guardOf]
    simp [Guard.accepts, crud, Policy.appliesTo, holdsIn, Clause.holds, HasColumns.column,
      Setting.value, h]

/-- A token that is known can be seen and updated. -/
theorem admits_of_knows {f : AccountToken → AccountToken} (h : knows s family r = true)
    (hf : knows s family (f r) = knows s family r) :
    (installed (tokensOf family).name).admits (holdsIn s db) .select r = true ∧
      (installed (tokensOf family).name).admits (holdsIn s db) .update r = true ∧
      (installed (tokensOf family).name).mayWrite (holdsIn s db) .update (f r) = true := by
  refine ⟨admits_select_token h, by rw [admits_update_token, h], ?_⟩
  rw [Guard.mayWrite, accepts_update_token, hf, h, admits_select_token (by rw [hf, h]),
    Bool.and_true]

end Policies

/-- **A session without settings knows no token.** -/
theorem knows_unset (family : Family) (r : AccountToken) : knows .unset family r = false := by
  cases family <;> simp [knows, Settings.unset]

/-- **The update after a failed delivery reaches nothing.** The commit before it has ended the
settings. -/
theorem retireUndelivered_eq {family : Family} {d : Draw} {failureAt : Time}
    {s : Transaction.Session Database Settings} (hs : s.settings = .unset) :
    retireUndelivered installed family d failureAt s = (.ok (), s) := by
  rw [retireUndelivered, Transaction.bind_ok (update_none (Guard.update_eq_self
    (privileges_tokensOf family _) fun r _ => Guard.reaches_eq_false (.inr ?_)))]
  · rfl
  · rw [admits_update_token, hs, knows_unset]

/-! ### Expired tokens

A token that has expired by `t` is not redeemed from `t` on, and there is no other of its hash. -/

section Expired

/-- The token is there, and it has expired by `t`. -/
def HasExpired (family : Family) (token : TokenHash) (t : Time) (db : Database) : Prop :=
  (∃ r ∈ (tokensOf family).rows db, r.tokenHash = token.hex) ∧
    ∀ r ∈ (tokensOf family).rows db, r.tokenHash = token.hex → r.expiresAt ≤ t

/-- The same of a connection. -/
def Expired (family : Family) (token : TokenHash) (t : Time)
    (s : Transaction.Session Database Settings) : Prop :=
  HasExpired family token t s.committed ∧ HasExpired family token t s.working

variable {c : Catalog TableName PolicyName Clause} {S : Links.Settings} {family : Family}
  {token : TokenHash} {t : Time}

theorem HasExpired.of_rows_eq {db db' : Database} (h : HasExpired family token t db)
    (hrows : (tokensOf family).rows db' = (tokensOf family).rows db) :
    HasExpired family token t db' := by
  rw [HasExpired, hrows]
  exact h

/-- An update that does not touch hashes and expiries. -/
theorem HasExpired.map {db : Database} (h : HasExpired family token t db) (q : AccountToken → Bool)
    {f : AccountToken → AccountToken} (hhash : ∀ r, (f r).tokenHash = r.tokenHash)
    (hexpires : ∀ r, (f r).expiresAt = r.expiresAt) :
    HasExpired family token t ((tokensOf family).setRows
      (((tokensOf family).rows db).map fun r => if q r then f r else r) db) := by
  have hq (r : AccountToken) : (if q r then f r else r).tokenHash = r.tokenHash ∧
      (if q r then f r else r).expiresAt = r.expiresAt := by
    split
    · exact ⟨hhash r, hexpires r⟩
    · exact ⟨rfl, rfl⟩
  rw [HasExpired, rows_setRows]
  obtain ⟨⟨r, hr, hrt⟩, hall⟩ := h
  refine ⟨⟨_, List.mem_map_of_mem hr, (hq r).1.trans hrt⟩, fun r' hr' hr't => ?_⟩
  obtain ⟨r₀, hr₀, rfl⟩ := List.mem_map.mp hr'
  rw [(hq r₀).2]
  exact hall r₀ hr₀ ((hq r₀).1.symm.trans hr't)

/-- A new token has a hash of its own. -/
theorem HasExpired.append {db : Database} (h : HasExpired family token t db) {new : AccountToken}
    (hnew : ∀ r ∈ (tokensOf family).rows db, (tokensOf family).conflicts new r = false) :
    HasExpired family token t
      ((tokensOf family).setRows ((tokensOf family).rows db ++ [new]) db) := by
  rw [HasExpired, rows_setRows]
  obtain ⟨⟨r, hr, hrt⟩, hall⟩ := h
  have hne : new.tokenHash ≠ token.hex := by
    intro heq
    have := hnew r hr
    cases family <;> simp [tokensOf, TableOf.emailVerificationTokens, TableOf.passwordResetTokens,
      heq, hrt] at this
  refine ⟨⟨r, List.mem_append_left _ hr, hrt⟩, fun r' hr' hr't => ?_⟩
  rcases List.mem_append.mp hr' with hr' | hr'
  · exact hall r' hr' hr't
  · rw [List.mem_singleton.mp hr'] at hr't
    exact absurd hr't hne

namespace Expired

/-- A table other than that of the token. -/
theorem irrelevant_of_rows_eq {R : Type} {u : TableOf R}
    (hset : ∀ l db, (tokensOf family).rows (u.setRows l db) = (tokensOf family).rows db)
    (hafter : ∀ written db, u.afterWrite written db = db) :
    u.Irrelevant (Expired family token t) where
  setRows s l hs := ⟨hs.1, hs.2.of_rows_eq (hset l _)⟩
  afterWrite s l written hs := ⟨hs.1, hs.2.of_rows_eq (by rw [hafter, hset])⟩

theorem irrelevant_users : TableOf.users.Irrelevant (Expired family token t) :=
  irrelevant_of_rows_eq (by cases family <;> exact fun _ _ => rfl) fun _ _ => rfl

theorem irrelevant_refreshSessions :
    TableOf.refreshSessions.Irrelevant (Expired family token t) :=
  irrelevant_of_rows_eq (by cases family <;> exact fun _ _ => rfl) fun _ _ => rfl

theorem irrelevant_auditLogs : TableOf.auditLogs.Irrelevant (Expired family token t) :=
  irrelevant_of_rows_eq (by cases family <;> exact fun _ _ => rfl) fun _ _ => rfl

theorem irrelevant_tokensOf {family' : Family} (h : family' ≠ family) :
    (tokensOf family').Irrelevant (Expired family token t) := by
  refine irrelevant_of_rows_eq ?_ (tokensOf_plain family').afterWrite
  cases family <;> cases family' <;> first | exact absurd rfl h | exact fun _ _ => rfl

theorem preserves_updateTokens (family' : Family) {p : AccountToken → Bool}
    {f : AccountToken → AccountToken} (hhash : ∀ r, (f r).tokenHash = r.tokenHash)
    (hexpires : ∀ r, (f r).expiresAt = r.expiresAt) :
    (update c (tokensOf family') p f).Preserves (Expired family token t) := by
  by_cases h : family' = family
  · subst h
    exact preserves_update_rows (tokensOf_plain _) fun s q hs => ⟨hs.1, hs.2.map q hhash hexpires⟩
  · exact preserves_update (irrelevant_tokensOf h)

theorem preserves_flushToken (family' : Family) {loaded : AccountToken}
    {f : AccountToken → AccountToken} (hhash : ∀ r, (f r).tokenHash = r.tokenHash)
    (hexpires : ∀ r, (f r).expiresAt = r.expiresAt) :
    (flushToken c family' loaded f).Preserves (Expired family token t) := by
  refine .bind (preserves_updateTokens family' hhash hexpires) fun written => ?_
  split
  · exact .pure _
  · exact .throw _

theorem preserves_insertToken (family' : Family) (new : AccountToken) :
    (insert c (tokensOf family') new).Preserves (Expired family token t) := by
  by_cases h : family' = family
  · subst h
    exact preserves_insert_rows (tokensOf_plain _) fun s hs hnew => ⟨hs.1, hs.2.append hnew⟩
  · exact preserves_insert (irrelevant_tokensOf h)

theorem preserves_writeAudit (action : AuditAction) (actor : Option UserId) (team : Option TeamId) :
    (writeAudit c action actor team).Preserves (Expired family token t) :=
  preserves_insert irrelevant_auditLogs

theorem preserves_commit : commit.Preserves (Expired family token t) :=
  .commit fun _ hs => ⟨hs.2, hs.2⟩

theorem preserves_retireTokens (family' : Family) (userId : UserId) (now : Time) :
    (retireTokens c family' userId now).Preserves (Expired family token t) :=
  .bind (preserves_updateTokens family' (fun _ => rfl) fun _ => rfl) fun _ => .pure _

theorem preserves_retireUndelivered (family' : Family) (d : Draw) (failureAt : Time) :
    (retireUndelivered c family' d failureAt).Preserves (Expired family token t) :=
  .bind (preserves_updateTokens family' (fun _ => rfl) fun _ => rfl) fun _ => .pure _

theorem preserves_issueToken (family' : Family) (userId : UserId) (d : Draw) (now : Time) :
    (issueToken c S family' userId d now).Preserves (Expired family token t) :=
  .bind (.set fun _ hs => hs) fun _ =>
    .bind (preserves_retireTokens family' userId now) fun _ => preserves_insertToken family' _

theorem preserves_requestPasswordReset (email : String) (d : Draw) (now : Time)
    (delivery : Delivery) :
    (requestPasswordReset c S email d now delivery).Preserves (Expired family token t) := by
  unfold requestPasswordReset issuePasswordResetToken
  refine .bind preserves_select fun users => ?_
  split
  · exact .bind (preserves_writeAudit ..) fun _ => preserves_commit
  · refine .bind (.bind preserves_selectForUpdate fun locked => ?_) fun _ =>
      .bind (preserves_writeAudit ..) fun _ => .bind preserves_commit fun _ => ?_
    · split
      · exact .throw _
      · exact preserves_issueToken ..
    · cases delivery with
      | sent => exact .bind (preserves_writeAudit ..) fun _ => preserves_commit
      | failed failureAt =>
        exact .bind (preserves_retireUndelivered ..) fun _ => .bind (preserves_writeAudit ..)
          fun _ => preserves_commit

theorem preserves_requestEmailVerification (user : User) (d : Draw) (now : Time)
    (delivery : Delivery) :
    (requestEmailVerification c S user d now delivery).Preserves (Expired family token t) := by
  unfold requestEmailVerification
  split
  · exact .bind (preserves_writeAudit ..) fun _ => preserves_commit
  · refine .bind (preserves_issueToken ..) fun _ => .bind (preserves_writeAudit ..) fun _ =>
      .bind preserves_commit fun _ => ?_
    cases delivery with
    | sent => exact .bind (preserves_writeAudit ..) fun _ => preserves_commit
    | failed failureAt =>
      exact .bind (preserves_retireUndelivered ..) fun _ => .bind (preserves_writeAudit ..)
        fun _ => .bind preserves_commit fun _ => .throw _

/-- What a redemption comes to, when it is of the expired token. -/
def IsRejected {α : Type} (family family' : Family) (token : TokenHash) (t now : Time)
    (link : Option TokenHash) (consumed : Except Rejection α) : Prop :=
  family' = family → link = some token → t ≤ now → ∃ reason, consumed = .error reason

theorem spec_reject {α : Type} {family' : Family} {now : Time} {link : Option TokenHash}
    (reason : Rejection) :
    (Pure.pure (.error reason) : Request (Except Rejection α)).Spec (Expired family token t)
      (fun a s => Expired family token t s ∧ IsRejected family family' token t now link a)
      (Expired family token t) :=
  .pure fun _ hs => ⟨hs, fun _ _ _ => ⟨reason, rfl⟩⟩

theorem spec_consumePasswordResetToken (now : Time) (link : Option TokenHash) :
    (consumePasswordResetToken c now link).Spec (Expired family token t)
      (fun a s => Expired family token t s ∧ IsRejected family .passwordReset token t now link a)
      (Expired family token t) := by
  cases link with
  | none => exact spec_reject _
  | some token' =>
    unfold consumePasswordResetToken
    refine .bind (.set fun _ hs => hs) fun _ => .bind preserves_select.spec fun owners => ?_
    cases owners.head? with
    | none => exact spec_reject _
    | some owner =>
      refine .bind preserves_selectForUpdate.spec fun users => .bind spec_selectForUpdate
        fun tokens => ?_
      cases htokens : tokens.head? with
      | none => exact (spec_reject _).of_imp fun _ hs => hs.1
      | some r =>
        have hr : r ∈ tokens := List.mem_of_mem_head? (by rw [htokens]; rfl)
        dsimp only
        split_ifs with hused hexp
        · exact (spec_reject _).of_imp fun _ hs => hs.1
        · exact (spec_reject _).of_imp fun _ hs => hs.1
        · -- The token has not expired, so that it is another one.
          have hother (s : Transaction.Session Database Settings)
              (hs : Expired family token t s ∧ ∀ r ∈ tokens,
                r ∈ (tokensOf .passwordReset).rows s.working ∧
                  (r.tokenHash = token'.hex && r.userId = owner.userId) = true)
              (hfamily : Family.passwordReset = family) (hlink : some token' = some token)
              (hnow : t ≤ now) : False := by
            subst hfamily
            cases hlink
            obtain ⟨hmem, hp⟩ := hs.2 r hr
            simp only [Bool.and_eq_true, decide_eq_true_eq] at hp
            exact hexp (Nat.le_trans (hs.1.2.2 r hmem hp.1) hnow)
          have hflush : (flushToken c .passwordReset r (AccountToken.use now)).Preserves
              (Expired family token t) := preserves_flushToken _ (fun _ => rfl) fun _ => rfl
          refine Transaction.Spec.of_imp (.of_and fun hno => ?_) fun s hs => ⟨hs.1, hother s hs⟩
          cases users.head?.filter User.isActive with
          | none => exact hflush.spec.bind fun _ => spec_reject _
          | some user =>
            exact .bind (.set fun _ hs => hs) fun _ => .pure fun s hs =>
              ⟨hs, fun hfamily hlink hnow => (hno hfamily hlink hnow).elim⟩

theorem spec_confirmVerificationToken (ip : Option String) (now : Time) (link : Option TokenHash) :
    (confirmVerificationToken c ip now link).Spec (Expired family token t)
      (fun a s => Expired family token t s ∧
        IsRejected family .emailVerification token t now link a)
      (Expired family token t) := by
  cases link with
  | none => exact spec_reject _
  | some token' =>
    unfold confirmVerificationToken
    refine .bind (.set fun _ hs => hs) fun _ => .bind spec_selectForUpdate fun tokens => ?_
    cases htokens : tokens.head? with
    | none => exact (spec_reject _).of_imp fun _ hs => hs.1
    | some r =>
      have hr : r ∈ tokens := List.mem_of_mem_head? (by rw [htokens]; rfl)
      dsimp only
      split_ifs with hused hexp
      · exact (spec_reject _).of_imp fun _ hs => hs.1
      · exact (spec_reject _).of_imp fun _ hs => hs.1
      · have hother (s : Transaction.Session Database Settings)
            (hs : Expired family token t s ∧ ∀ r ∈ tokens,
              r ∈ (tokensOf .emailVerification).rows s.working ∧
                decide (r.tokenHash = token'.hex) = true)
            (hfamily : Family.emailVerification = family) (hlink : some token' = some token)
            (hnow : t ≤ now) : False := by
          subst hfamily
          cases hlink
          obtain ⟨hmem, hp⟩ := hs.2 r hr
          exact hexp (Nat.le_trans (hs.1.2.2 r hmem (of_decide_eq_true hp)) hnow)
        have hflush : (flushToken c .emailVerification r (AccountToken.redeem now ip)).Preserves
            (Expired family token t) := preserves_flushToken _ (fun _ => rfl) fun _ => rfl
        refine Transaction.Spec.of_imp (.of_and fun hno => ?_) fun s hs => ⟨hs.1, hother s hs⟩
        refine preserves_select.spec.bind fun users => ?_
        cases users.head?.filter User.isActive with
        | none => exact spec_reject _
        | some user =>
          dsimp only
          split_ifs with hverified
          · exact hflush.spec.bind fun _ => spec_reject _
          · refine (preserves_updateOne irrelevant_users).spec.bind fun _ => ?_
            exact hflush.spec.bind fun _ => .pure fun s hs =>
              ⟨hs, fun hfamily hlink hnow => (hno hfamily hlink hnow).elim⟩

theorem spec_rejectLink (family' : Family) (reason : Rejection) :
    (rejectLink c family' reason).Spec (Expired family token t) (fun _ _ => False)
      (Expired family token t) :=
  (preserves_writeAudit ..).spec.bind fun _ => preserves_commit.spec.bind fun _ =>
    .throw fun _ hs => hs

/-- **The expired token is not redeemed**, and stays expired whatever is redeemed. -/
theorem spec_redeem (family' : Family) (r : Redemption) :
    (redeem c family' r).Spec (Expired family token t)
      (fun _ s => Expired family token t s ∧
        ¬ (family' = family ∧ r.link = some token ∧ t ≤ r.now))
      (Expired family token t) := by
  cases family' with
  | emailVerification =>
    refine (spec_confirmVerificationToken r.ip r.now r.link).bind fun confirmed => ?_
    refine .of_and fun h => ?_
    cases confirmed with
    | error reason => exact .of_raises (spec_rejectLink _ reason)
    | ok userId =>
      refine (preserves_writeAudit ..).spec.bind fun _ => preserves_commit.spec.bind fun _ =>
        .pure fun s hs => ⟨hs, fun hr => ?_⟩
      obtain ⟨reason, hreason⟩ := h hr.1 hr.2.1 hr.2.2
      cases hreason
  | passwordReset =>
    refine (spec_consumePasswordResetToken r.now r.link).bind fun consumed => ?_
    refine .of_and fun h => ?_
    cases consumed with
    | error reason => exact .of_raises (spec_rejectLink _ reason)
    | ok consumed =>
      have hflush : (flushToken c .passwordReset consumed.2
          (AccountToken.redeem r.now r.ip)).Preserves (Expired family token t) :=
        preserves_flushToken _ (fun _ => rfl) fun _ => rfl
      refine (preserves_updateOne irrelevant_users).spec.bind fun _ => hflush.spec.bind fun _ =>
        (Transaction.Preserves.bind (preserves_update irrelevant_refreshSessions)
          fun _ => .pure _).spec.bind fun _ => (preserves_retireTokens ..).spec.bind fun _ =>
        (preserves_writeAudit ..).spec.bind fun _ => preserves_commit.spec.bind fun _ =>
        .pure fun s hs => ⟨hs, fun hr => ?_⟩
      obtain ⟨reason, hreason⟩ := h hr.1 hr.2.1 hr.2.2
      cases hreason

theorem preserves_redeem (family' : Family) (r : Redemption) :
    (redeem c family' r).Preserves (Expired family token t) :=
  ⟨Transaction.Spec.mono (spec_redeem family' r) (fun _ hs => hs) (fun _ _ hq => hq.1)
    fun _ hs => hs⟩

/-- A later request leaves the token expired. -/
theorem runLater (l : Later) {db : Database} (h : HasExpired family token t db) :
    HasExpired family token t (Rls.runLater c S db l) := by
  have hfresh : Expired family token t (fresh db) := ⟨h, h⟩
  cases l with
  | requestPasswordReset email d now delivery =>
    exact ((preserves_requestPasswordReset email d now delivery).apply hfresh).1
  | requestEmailVerification userId d now delivery =>
    simp only [Rls.runLater]
    split
    · exact h
    · rename_i user _
      exact ((preserves_requestEmailVerification user d now delivery).apply
        (s := authenticated db user) ⟨h, h⟩).1
  | redeem family' r => exact ((preserves_redeem family' r).apply hfresh).1
  | other f rows_eq => exact h.of_rows_eq (rows_eq family db)

/-- So do any later requests. -/
theorem foldl_runLater (later : List Later) {db : Database} (h : HasExpired family token t db) :
    HasExpired family token t (later.foldl (Rls.runLater c S) db) := by
  induction later generalizing db with
  | nil => exact h
  | cons l later ih => exact ih (runLater l h)

end Expired

end Expired

/-! ### Statements that succeed -/

/-- The constraints of the tables hold. -/
structure Constrained (family : Family) (db : Database) : Prop where
  users : db.users.Pairwise fun a b => TableOf.users.conflicts a b = false
  refreshSessions : db.refreshSessions.Pairwise
    fun a b => TableOf.refreshSessions.conflicts a b = false
  tokens : ((tokensOf family).rows db).Pairwise fun a b => (tokensOf family).conflicts a b = false

section Statements

variable {family : Family} {user : User} {r : AccountToken} {p : AccountToken → Bool}
  {f : AccountToken → AccountToken} {s : Transaction.Session Database Settings}

theorem conflicts_tokensOf (family : Family) (a b : AccountToken) :
    (tokensOf family).conflicts a b = (a.id = b.id || a.tokenHash = b.tokenHash) := by
  cases family <;> rfl

/-- What an update writes keeps the identity of a token. -/
def KeepsKeys (f : AccountToken → AccountToken) : Prop :=
  ∀ r, (f r).id = r.id ∧ (f r).userId = r.userId ∧ (f r).tokenHash = r.tokenHash

theorem KeepsKeys.knows_eq (hf : KeepsKeys f) (settings : Settings) :
    knows settings family (f r) = knows settings family r := by
  obtain ⟨-, huser, hhash⟩ := hf r
  simp only [knows, huser, hhash]

theorem KeepsKeys.pairwise_map (hf : KeepsKeys f) {rows : List AccountToken}
    (h : rows.Pairwise fun a b => (tokensOf family).conflicts a b = false) :
    (rows.map fun r => if p r then f r else r).Pairwise
      fun a b => (tokensOf family).conflicts a b = false := by
  have hkey (r : AccountToken) : (if p r then f r else r).id = r.id ∧
      (if p r then f r else r).tokenHash = r.tokenHash := by
    split
    · exact ⟨(hf r).1, (hf r).2.2⟩
    · exact ⟨rfl, rfl⟩
  rw [List.pairwise_map]
  refine h.imp fun {a b} hab => ?_
  rw [conflicts_tokensOf] at hab ⊢
  rw [(hkey a).1, (hkey a).2, (hkey b).1, (hkey b).2]
  exact hab

/-- An update of tokens that the session knows. -/
theorem updateTokens_ok (hf : KeepsKeys f)
    (hkeys : ((tokensOf family).rows s.working).Pairwise
      fun a b => (tokensOf family).conflicts a b = false)
    (hknows : ∀ r ∈ (tokensOf family).rows s.working, p r = true →
      knows s.settings family r = true) :
    update installed (tokensOf family) p f s =
      (.ok ((((tokensOf family).rows s.working).filter p).map f), { s with
        working := (tokensOf family).setRows
          (((tokensOf family).rows s.working).map fun r => if p r then f r else r) s.working }) :=
  update_ok (tokensOf_plain family) (privileges_tokensOf family _)
    (fun r hr hp => admits_of_knows (hknows r hr hp) (hf.knows_eq _)) (hf.pairwise_map hkeys)

theorem keepsKeys_use (now : Time) : KeepsKeys (AccountToken.use now) := fun _ => ⟨rfl, rfl, rfl⟩

theorem keepsKeys_redeem (now : Time) (ip : Option String) :
    KeepsKeys (AccountToken.redeem now ip) := fun _ => ⟨rfl, rfl, rfl⟩

theorem retireTokens_ok {userId : UserId} (now : Time)
    (hs : s.settings.currentUserId = some userId)
    (hkeys : ((tokensOf family).rows s.working).Pairwise
      fun a b => (tokensOf family).conflicts a b = false) :
    retireTokens installed family userId now s = (.ok (), { s with
      working := (tokensOf family).setRows (((tokensOf family).rows s.working).map fun r =>
        if r.userId = userId && r.usedAt = none then r.use now else r) s.working }) := by
  rw [retireTokens,
    Transaction.bind_ok (updateTokens_ok (keepsKeys_use now) hkeys fun r _ hp => ?_)]
  · rfl
  · simp only [Bool.and_eq_true, decide_eq_true_eq] at hp
    simp [knows, hs, hp.1]

/-- The row of a token is the only one with its id, and the only one with its hash. -/
theorem filter_id_eq (hkeys : ((tokensOf family).rows s.working).Pairwise
      fun a b => (tokensOf family).conflicts a b = false)
    (hr : r ∈ (tokensOf family).rows s.working) :
    ((tokensOf family).rows s.working).filter (fun a => a.id = r.id) = [r] := by
  refine filter_key_eq (hkeys.imp fun {a b} hab => ?_) hr
  rw [conflicts_tokensOf, Bool.or_eq_false_iff] at hab
  exact of_decide_eq_false hab.1

theorem filter_tokenHash_eq (hkeys : ((tokensOf family).rows s.working).Pairwise
      fun a b => (tokensOf family).conflicts a b = false)
    (hr : r ∈ (tokensOf family).rows s.working) :
    ((tokensOf family).rows s.working).filter (fun a => a.tokenHash = r.tokenHash) = [r] := by
  refine filter_key_eq (hkeys.imp fun {a b} hab => ?_) hr
  rw [conflicts_tokensOf, Bool.or_eq_false_iff] at hab
  exact of_decide_eq_false hab.2

/-- A loaded token that the session knows is written. -/
theorem flushToken_ok (hf : KeepsKeys f)
    (hkeys : ((tokensOf family).rows s.working).Pairwise
      fun a b => (tokensOf family).conflicts a b = false)
    (hr : r ∈ (tokensOf family).rows s.working) (hknows : knows s.settings family r = true) :
    flushToken installed family r f s = (.ok (), { s with
      working := (tokensOf family).setRows (((tokensOf family).rows s.working).map fun r' =>
        if decide (r'.id = r.id) then f r' else r') s.working }) := by
  rw [flushToken, updateOne_ok (tokensOf_plain family) (privileges_tokensOf family _)
    (filter_id_eq hkeys hr) (admits_of_knows hknows (hf.knows_eq _)) (hf.pairwise_map hkeys)]

/-- Tokens that the session knows can be read and locked. -/
theorem selectTokens_ok (hknows : ∀ r ∈ (tokensOf family).rows s.working, p r = true →
      knows s.settings family r = true) :
    select installed (tokensOf family) p s =
      (.ok (((tokensOf family).rows s.working).filter p), s) :=
  select_ok (Guard.select_eq_filter
    (privileges_tokensOf family [.select] (List.mem_singleton_self _))
    fun r hr hp => admits_select_token (hknows r hr hp))

theorem lockTokens_ok (hknows : ∀ r ∈ (tokensOf family).rows s.working, p r = true →
      knows s.settings family r = true) :
    selectForUpdate installed (tokensOf family) p s =
      (.ok (((tokensOf family).rows s.working).filter p), s) :=
  selectForUpdate_ok (Guard.selectForUpdate_eq_filter (privileges_tokensOf family _)
    fun r hr hp => ⟨admits_select_token (hknows r hr hp),
      by rw [admits_update_token, hknows r hr hp]⟩)

theorem users_plain : TableOf.users.Plain := ⟨rfl, fun _ _ => rfl, fun _ => rfl⟩

/-- A loaded user is written. -/
theorem updateUser_ok {f : User → User} (hf : ∀ u, (f u).id = u.id ∧ (f u).email = u.email)
    (hkeys : s.working.users.Pairwise fun a b => TableOf.users.conflicts a b = false)
    (hu : user ∈ s.working.users) :
    updateOne installed .users (fun u => u.id = user.id) f s = (.ok (), { s with
      working := { s.working with
        users := s.working.users.map fun u => if u.id = user.id then f u else u } }) := by
  have hname : installed TableOf.users.name = installed .users := rfl
  have hkey (u : User) : (if (decide (u.id = user.id) = true) then f u else u).id = u.id ∧
      (if (decide (u.id = user.id) = true) then f u else u).email = u.email := by
    split
    · exact hf u
    · exact ⟨rfl, rfl⟩
  rw [updateOne_ok users_plain (r := user)]
  · simp only [decide_eq_true_eq]
    rfl
  · rw [hname, installed_eq .users (by decide), guardOf]
    simp [Command.all]
  · refine filter_key_eq (hkeys.imp fun {a b} hab => ?_) hu
    exact of_decide_eq_false (Bool.or_eq_false_iff.mp hab).1
  · rw [hname, installed_eq .users (by decide), guardOf]
    exact ⟨rfl, rfl, rfl⟩
  · rw [List.pairwise_map]
    refine hkeys.imp fun {a b} hab => ?_
    simp only [TableOf.users] at hab ⊢
    rw [(hkey a).1, (hkey a).2, (hkey b).1, (hkey b).2]
    exact hab

/-- The sessions of a user are revoked. -/
theorem revokeRefreshSessions_ok (now : Time) (reason : String)
    (hkeys : s.working.refreshSessions.Pairwise
      fun a b => TableOf.refreshSessions.conflicts a b = false) :
    revokeRefreshSessions installed user now reason s = (.ok (), { s with
      working := { s.working with
        refreshSessions := s.working.refreshSessions.map fun r =>
          if r.userId = user.id && r.revokedAt = none then
            { r with revokedAt := some now, revokedReason := some reason }
          else r } }) := by
  have hname : installed TableOf.refreshSessions.name = installed .refreshSessions := rfl
  rw [revokeRefreshSessions, Transaction.bind_ok (update_ok ⟨rfl, fun _ _ => rfl, fun _ => rfl⟩ ?_
    (fun r _ _ => ?_) ?_)]
  · rfl
  · rw [hname, installed_eq .refreshSessions (by decide), guardOf]
    simp [Command.all]
  · rw [List.pairwise_map]
    refine hkeys.imp fun {a b} hab => ?_
    simp only [TableOf.refreshSessions] at hab ⊢
    split <;> split <;> exact hab
  · rw [hname, installed_eq .refreshSessions (by decide), guardOf]
    exact ⟨rfl, rfl, rfl⟩

/-- Users can always be read and locked. -/
theorem selectUsers_ok (p : User → Bool) :
    select installed .users p s = (.ok (s.working.users.filter p), s) := by
  have hname : installed TableOf.users.name = installed .users := rfl
  refine select_ok (Guard.select_eq_filter ?_ fun _ _ _ => ?_) <;>
    rw [hname, installed_eq .users (by decide), guardOf]
  · decide
  · rfl

theorem lockUsers_ok (p : User → Bool) :
    selectForUpdate installed .users p s = (.ok (s.working.users.filter p), s) := by
  have hname : installed TableOf.users.name = installed .users := rfl
  refine selectForUpdate_ok (Guard.selectForUpdate_eq_filter ?_ fun _ _ _ => ?_) <;>
    rw [hname, installed_eq .users (by decide), guardOf]
  · decide
  · exact ⟨rfl, rfl⟩

theorem filter_userId_eq (hkeys : s.working.users.Pairwise
      fun a b => TableOf.users.conflicts a b = false) (hu : user ∈ s.working.users) :
    s.working.users.filter (fun u => u.id = user.id) = [user] := by
  refine filter_key_eq (hkeys.imp fun {a b} hab => ?_) hu
  exact of_decide_eq_false (Bool.or_eq_false_iff.mp hab).1

theorem filter_email_eq (hkeys : s.working.users.Pairwise
      fun a b => TableOf.users.conflicts a b = false) (hu : user ∈ s.working.users) :
    s.working.users.filter (fun u => u.email = user.email) = [user] := by
  refine filter_key_eq (hkeys.imp fun {a b} hab => ?_) hu
  exact of_decide_eq_false (Bool.or_eq_false_iff.mp hab).2

end Statements

/-! ### A link that is redeemed -/

/-- The token can be redeemed until it expires. -/
structure Redeemable (family : Family) (user : User) (r : AccountToken) (db : Database) : Prop
    extends Constrained family db where
  user_mem : user ∈ db.users
  active : user.isActive = true
  unverified : family = .emailVerification → user.isVerified = false
  mem : r ∈ (tokensOf family).rows db
  userId : r.userId = user.id
  unused : r.usedAt = none

section Redeemed

variable {user : User} {r : AccountToken} {db : Database} {token : TokenHash}

theorem consumePasswordResetToken_ok (h : Redeemable .passwordReset user r db)
    (hash : r.tokenHash = token.hex) {now : Time} (hnow : now < r.expiresAt) :
    consumePasswordResetToken installed now (some token) (fresh db) = (.ok (.ok (user, r)),
      { fresh db with settings := { Settings.unset with
          currentUserId := some user.id
          currentPasswordResetTokenHash := some token.hex } }) := by
  have hknows : ∀ a ∈ (tokensOf .passwordReset).rows db, a.tokenHash = token.hex →
      knows { Settings.unset with currentPasswordResetTokenHash := some token.hex }
        .passwordReset a = true := by
    intro a _ ha
    simp [knows, ha]
  have hone : ((tokensOf .passwordReset).rows db).filter (fun a => a.tokenHash = token.hex) =
      [r] := by
    rw [← hash]
    exact filter_tokenHash_eq (s := fresh db) h.tokens h.mem
  have hboth : ((tokensOf .passwordReset).rows db).filter
      (fun a => a.tokenHash = token.hex && a.userId = r.userId) = [r] := by
    rw [show (fun a : AccountToken => a.tokenHash = token.hex && a.userId = r.userId) =
      fun a => (decide (a.userId = r.userId)) && (decide (a.tokenHash = token.hex)) from
        funext fun a => Bool.and_comm _ _, ← List.filter_filter, hone]
    simp
  have huser : db.users.filter (fun u => u.id = r.userId) = [user] := by
    rw [h.userId]
    exact filter_userId_eq (s := fresh db) h.users h.user_mem
  rw [consumePasswordResetToken, setTokenHash, Transaction.set_bind,
    Transaction.bind_ok (selectTokens_ok fun a ha hp => hknows a ha (of_decide_eq_true hp))]
  simp only [fresh, hone, List.head?_cons]
  rw [Transaction.bind_ok (lockUsers_ok _), Transaction.bind_ok (lockTokens_ok fun a ha hp => ?_)]
  · simp only [hboth, huser, List.head?_cons, h.unused, ne_eq, not_true_eq_false, if_false,
      Nat.not_le.mpr hnow, Option.filter_some, h.active, if_true]
    rfl
  · exact hknows a ha (of_decide_eq_true (Bool.and_eq_true_iff.mp hp).1)

/-- A password reset goes through. -/
theorem resetPassword_ok (h : Redeemable .passwordReset user r db) (hash : r.tokenHash = token.hex)
    (newPasswordHash : String) (ip : Option String) {now : Time} (hnow : now < r.expiresAt) :
    (resetPassword installed (some token) newPasswordHash ip now (fresh db)).1 = .ok now := by
  rw [resetPassword, Transaction.bind_ok (consumePasswordResetToken_ok h hash hnow)]
  dsimp only
  rw [Transaction.bind_ok (updateUser_ok (f := User.resetPassword _ _) (fun _ => ⟨rfl, rfl⟩) h.users
      h.user_mem),
    Transaction.bind_ok (flushToken_ok (keepsKeys_redeem now ip) h.tokens h.mem ?_),
    Transaction.bind_ok (revokeRefreshSessions_ok _ _ h.refreshSessions),
    Transaction.bind_ok (retireTokens_ok now rfl ?_), Transaction.bind_ok (writeAudit_none _ _),
    commit, Transaction.commit_bind]
  · rfl
  · exact KeepsKeys.pairwise_map (p := fun a => a.id = r.id) (keepsKeys_redeem now ip) h.tokens
  · simp [knows, h.userId]

/-- An e-mail verification goes through. -/
theorem confirmEmailVerification_ok (h : Redeemable .emailVerification user r db)
    (hash : r.tokenHash = token.hex) (ip : Option String) {now : Time} (hnow : now < r.expiresAt) :
    (confirmEmailVerification installed (some token) ip now (fresh db)).1 = .ok now := by
  have hknows : ∀ a ∈ (tokensOf .emailVerification).rows db, a.tokenHash = token.hex →
      knows { Settings.unset with currentEmailVerificationTokenHash := some token.hex }
        .emailVerification a = true := by
    intro a _ ha
    simp [knows, ha]
  have hone : ((tokensOf .emailVerification).rows db).filter (fun a => a.tokenHash = token.hex) =
      [r] := by
    rw [← hash]
    exact filter_tokenHash_eq (s := fresh db) h.tokens h.mem
  have huser : db.users.filter (fun u => u.id = r.userId) = [user] := by
    rw [h.userId]
    exact filter_userId_eq (s := fresh db) h.users h.user_mem
  have hconfirm : ∃ s, confirmVerificationToken installed ip now (some token) (fresh db) =
      (.ok (.ok user.id), s) := by
    rw [confirmVerificationToken, setTokenHash, Transaction.set_bind,
      Transaction.bind_ok (lockTokens_ok fun a ha hp => hknows a ha (of_decide_eq_true hp))]
    simp only [fresh, hone, List.head?_cons, h.unused, ne_eq, not_true_eq_false, if_false,
      Nat.not_le.mpr hnow]
    rw [Transaction.bind_ok (selectUsers_ok _)]
    simp only [huser, List.head?_cons, Option.filter_some, h.active, if_true, h.unverified rfl,
      Bool.false_eq_true, if_false]
    rw [Transaction.bind_ok (updateUser_ok (f := User.verify) (fun _ => ⟨rfl, rfl⟩) h.users
        h.user_mem),
      Transaction.bind_ok (flushToken_ok (keepsKeys_redeem now ip) h.tokens h.mem
        (hknows r h.mem hash))]
    exact ⟨_, rfl⟩
  obtain ⟨s, hs⟩ := hconfirm
  rw [confirmEmailVerification, Transaction.bind_ok hs]
  dsimp only
  rw [Transaction.bind_ok (writeAudit_none _ _), commit, Transaction.commit_bind]
  rfl

/-- **A link can be redeemed until it expires.** -/
theorem redeem_ok {family : Family} (h : Redeemable family user r db)
    (hash : r.tokenHash = token.hex) (now : Time) (hnow : now < r.expiresAt) :
    (redeem installed family ⟨some token, "", none, now⟩ (fresh db)).1 = .ok now := by
  cases family with
  | emailVerification => exact confirmEmailVerification_ok h hash none hnow
  | passwordReset => exact resetPassword_ok h hash "" none hnow

end Redeemed

/-! ### After a failed delivery -/

/-- The request of the user will issue the token that it draws. -/
structure Issues (family : Family) (user : User) (d : Draw) (db : Database) : Prop
    extends Constrained family db where
  user_mem : user ∈ db.users
  active : user.isActive = true
  unverified : family = .emailVerification → user.isVerified = false
  fresh : ∀ r ∈ (tokensOf family).rows db, r.id ≠ d.id ∧ r.tokenHash ≠ d.token.hex

/-- The tokens after the issue. -/
def issued (S : Links.Settings) (family : Family) (user : User) (d : Draw) (now : Time)
    (db : Database) : List AccountToken :=
  ((tokensOf family).rows db).map (fun r =>
    if r.userId = user.id && r.usedAt = none then r.use now else r) ++ [d.row S family user.id now]

section Failed

variable {S : Links.Settings} {family : Family} {user : User} {d : Draw} {now failureAt : Time}
  {db : Database}

/-- The new token conflicts with no other. -/
theorem Issues.not_conflicts (h : Issues family user d db) {r : AccountToken}
    (hr : r ∈ ((tokensOf family).rows db).map fun r =>
      if r.userId = user.id && r.usedAt = none then r.use now else r) :
    (tokensOf family).conflicts (d.row S family user.id now) r = false := by
  obtain ⟨r₀, hr₀, rfl⟩ := List.mem_map.mp hr
  obtain ⟨hid, hhash⟩ := h.fresh r₀ hr₀
  rw [conflicts_tokensOf]
  split <;> simp [Draw.row, AccountToken.use, hid.symm, hhash.symm]

theorem issueToken_ok (h : Issues family user d db) {s : Transaction.Session Database Settings}
    (hs : s.working = db) :
    issueToken installed S family user.id d now s = (.ok (), { s with
      working := (tokensOf family).setRows (issued S family user d now db) db
      settings := { s.settings with currentUserId := some user.id } }) := by
  subst hs
  have hretire := @retireTokens_ok family
    { s with settings := { s.settings with currentUserId := some user.id } } user.id now rfl
    h.tokens
  rw [issueToken, setUserContext, Transaction.set_bind, Transaction.bind_ok hretire,
    insert_ok (Guard.insert_ok (privileges_tokensOf family _) (mayWrite_insert_token rfl) ?_)]
  · cases family <;> rfl
  · intro r hr
    rw [rows_setRows] at hr
    exact h.not_conflicts hr

/-- **What a failed delivery leaves**: the token, unused, and entries in the audit log. -/
theorem afterFailedDelivery_eq (h : Issues family user d db) :
    ∃ entries, afterFailedDelivery installed S family user d now failureAt db =
      { (tokensOf family).setRows (issued S family user d now db) db with
        auditLogs := entries } := by
  cases family with
  | emailVerification =>
    refine ⟨db.auditLogs ++ [⟨.userEmailVerificationRequested, some user.id, none⟩] ++
      [⟨.userEmailVerificationRejected, some user.id, none⟩], ?_⟩
    rw [afterFailedDelivery, requestLink, connection, Transaction.result, requestEmailVerification,
      if_neg (by simp [h.unverified rfl]), issueVerificationToken,
      Transaction.bind_ok (issueToken_ok h rfl), Transaction.bind_ok (writeAudit_none _ _), commit,
      Transaction.commit_bind]
    dsimp only
    rw [Transaction.bind_ok (retireUndelivered_eq rfl), Transaction.bind_ok (writeAudit_none _ _),
      Transaction.commit_bind]
    rfl
  | passwordReset =>
    refine ⟨db.auditLogs ++ [⟨.userPasswordResetRequested, some user.id, none⟩] ++
      [⟨.userPasswordResetRejected, some user.id, none⟩], ?_⟩
    have hemail := filter_email_eq (s := fresh db) h.users h.user_mem
    have hid := filter_userId_eq (s := fresh db) h.users h.user_mem
    have hissue : issuePasswordResetToken installed S user d now (fresh db) =
        issueToken installed S .passwordReset user.id d now (fresh db) := by
      rw [issuePasswordResetToken, Transaction.bind_ok (lockUsers_ok _), hid]
      simp only [List.head?_cons, Option.filter_some, h.active, if_true]
    rw [afterFailedDelivery, requestLink, connection, Transaction.result, requestPasswordReset,
      Transaction.bind_ok (selectUsers_ok _), hemail]
    simp only [List.head?_cons, Option.filter_some, h.active, if_true]
    rw [Transaction.bind_ok (hissue.trans (issueToken_ok h rfl)),
      Transaction.bind_ok (writeAudit_none _ _), commit, Transaction.commit_bind]
    dsimp only
    rw [Transaction.bind_ok (retireUndelivered_eq rfl), Transaction.bind_ok (writeAudit_none _ _)]
    rfl

/-- The token can be redeemed. -/
theorem redeemable_afterFailedDelivery (h : Issues family user d db) :
    Redeemable family user (d.row S family user.id now)
      (afterFailedDelivery installed S family user d now failureAt db) := by
  obtain ⟨entries, hentries⟩ : ∃ entries,
      afterFailedDelivery installed S family user d now failureAt db = _ :=
    afterFailedDelivery_eq h
  have hrows : (tokensOf family).rows (afterFailedDelivery installed S family user d now failureAt
      db) = issued S family user d now db := by
    rw [hentries]
    cases family <;> rfl
  have husers : (afterFailedDelivery installed S family user d now failureAt db).users =
      db.users := by
    rw [hentries]
    cases family <;> rfl
  have hsessions : (afterFailedDelivery installed S family user d now failureAt
      db).refreshSessions = db.refreshSessions := by
    rw [hentries]
    cases family <;> rfl
  refine ⟨⟨?_, ?_, ?_⟩, ?_, h.active, h.unverified, ?_, rfl, rfl⟩
  · rw [husers]
    exact h.users
  · rw [hsessions]
    exact h.refreshSessions
  · rw [hrows, issued, List.pairwise_append]
    refine ⟨(keepsKeys_use now).pairwise_map h.tokens, List.pairwise_singleton _ _, ?_⟩
    intro a ha b hb
    have hnew := h.not_conflicts (S := S) ha
    rw [conflicts_tokensOf, Bool.or_eq_false_iff] at hnew
    rw [List.mem_singleton.mp hb, conflicts_tokensOf, Bool.or_eq_false_iff]
    exact ⟨decide_eq_false (Ne.symm (of_decide_eq_false hnew.1)),
      decide_eq_false (Ne.symm (of_decide_eq_false hnew.2))⟩
  · rw [husers]
    exact h.user_mem
  · rw [hrows, issued]
    exact List.mem_append_right _ (List.mem_singleton_self _)

/-- **A link is dead exactly when it has expired by the time its delivery fails.** -/
theorem linkIsDead_iff (h : Issues family user d db) :
    LinkIsDead installed S family user d now failureAt db ↔
      now + S.ttlMinutes family * 60 ≤ failureAt := by
  have hred : Redeemable family user (d.row S family user.id now)
      (afterFailedDelivery installed S family user d now failureAt db) :=
    redeemable_afterFailedDelivery h
  constructor
  · intro hdead
    by_contra hlt
    exact hdead [] ⟨some d.token, "", none, failureAt⟩ rfl (Nat.le_refl _) failureAt
      (redeem_ok hred rfl failureAt (Nat.not_le.mp hlt))
  · intro hle later r hlink hnow t hok
    have hexpired : HasExpired family d.token failureAt
        (afterFailedDelivery installed S family user d now failureAt db) := by
      refine ⟨⟨_, hred.mem, rfl⟩, fun r' hr' hr't => ?_⟩
      have hone := filter_tokenHash_eq (s := fresh _) hred.tokens hred.mem
      have hmem : r' ∈ [d.row S family user.id now] := by
        rw [← hone]
        exact List.mem_filter.mpr ⟨hr', decide_eq_true hr't⟩
      rw [List.mem_singleton.mp hmem]
      exact hle
    have hrun := Expired.foldl_runLater (c := installed) (S := S) later hexpired
    have hspec := Expired.spec_redeem (c := installed) family r (fresh _) ⟨hrun, hrun⟩
    cases hres : redeem installed family r (fresh (later.foldl (runLater installed S)
        (afterFailedDelivery installed S family user d now failureAt db))) with
    | mk a s =>
      rw [hres] at hok hspec
      subst hok
      exact hspec.2 ⟨rfl, hlink, hnow⟩

/-- **A link that was never delivered.** It is sent in the first second of its life, the delivery
fails in the fifth, and the link is redeemed in the sixth. -/
theorem exists_not_linkIsDead : ∃ user d db, db.users = [user] ∧ user.isActive = true ∧
    ¬ LinkIsDead installed .default .passwordReset user d 1 5 db ∧
    ¬ LinkIsDead installed .default .emailVerification user d 1 5 db := by
  refine ⟨{ User.plain 0 "player@example.com" .player with isVerified := false },
    ⟨7, ⟨"9f86", by decide⟩, none, none⟩, { Database.empty with
      users := [{ User.plain 0 "player@example.com" .player with isVerified := false }] },
    rfl, rfl, fun hdead => ?_, fun hdead => ?_⟩
  · exact hdead [] ⟨some ⟨"9f86", by decide⟩, "new hash", none, 6⟩ rfl (by decide) 6
      (by decide +kernel)
  · exact hdead [] ⟨some ⟨"9f86", by decide⟩, "", none, 6⟩ rfl (by decide) 6
      (by decide +kernel)

/-- A link whose delivery fails when the link has expired anyway. -/
theorem exists_linkIsDead : ∃ user d db,
    LinkIsDead installed .default .emailVerification user d 0 3600 db := by
  refine ⟨{ User.plain 0 "player@example.com" .player with isVerified := false },
    ⟨7, ⟨"9f86", by decide⟩, none, none⟩, { Database.empty with
      users := [{ User.plain 0 "player@example.com" .player with isVerified := false }] }, ?_⟩
  refine (linkIsDead_iff ⟨⟨by decide, by decide, by decide⟩, List.mem_singleton_self _, rfl,
    fun _ => rfl, by decide⟩).mpr ?_
  decide

end Failed

end NextBallUp.Rls
