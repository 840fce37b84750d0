import NextBallUp.Lib.BulkStatements
import NextBallUp.Auth.Totp

/-!
# Requests for a session

The endpoints of `routers/auth.py` and `routers/mfa.py` that issue, rotate or revoke tokens, or
that enrol, use or remove a second factor. One turn is one SQL statement; what a turn reads of a
row is the row as committed, what an object of the ORM holds is what was read when it was loaded.
A flush updates the columns that the request has assigned, by primary key, and raises
`StaleDataError` if the row is gone.

## What is deliberately absent

Rate limits, the audit log, e-mail verification and reset tokens (whether the token of a password
reset is good is up to the environment), memberships, and everything an account deletion writes
after the rows modelled here.

## Main definitions

* `Answer`: what the environment decides in a turn
* one `Pc` for each endpoint, and `Proc`: a request
* `Proc.step`: one turn of a request
-/

namespace NextBallUp.Auth

/-- What the environment decides in a turn. -/
inductive Answer
  | ok
  /-- The database statement raises, and the transaction is rolled back. -/
  | error
  /-- The token of a password reset is unknown, used or expired. -/
  | refused
  /-- The rows that a statement over many rows sees, in the order in which it comes to them. -/
  | snapshot (keys : List ℕ)
  | seconds (n : ℕ)
  deriving DecidableEq, Repr

def Answer.keys : Answer → List ℕ
  | .snapshot keys => keys
  | _ => []

structure LoginRequest where
  password : Password
  mfaCode : Option Code
  deriving DecidableEq, Repr

/-! ### Program points

A point is named after the statement that comes next. `user` is the user as it was loaded, `record`
the enrolment as it was loaded. -/

inductive Login.Pc
  | readUser
  | lockTotp (user : User)
  | lockRecovery (user : User) (code : Code)
  | issueTokens (user : User) (factor : Option Factor)

inductive Refresh.Pc
  | readUser
  | lockSession (user : User)
  | rotate (user : User)
  /-- The session was not live: `_revoke_refresh_sessions`, and then the new session version. -/
  | revokeSessions (user : User) (b : Bulk Jti)

inductive Logout.Pc
  | authenticate
  | revokeSessions (user : User) (b : Bulk Jti)

inductive ResetPassword.Pc
  | lockUser
  | revokeSessions (user : User) (b : Bulk Jti)

inductive DeleteMyAccount.Pc
  | authenticate
  | flushUser (user : User)
  | revokeSessions (user : User) (b : Bulk Jti)
  | deleteCodes (user : User) (sessions : List Jti) (b : Bulk CodeHash)

inductive SetupTotp.Pc
  | authenticate
  | readTotp
  | writeTotp (existing : Option UserTotpSecret)

inductive ConfirmTotp.Pc
  | authenticate
  | readTotp
  | flushTotp (record : UserTotpSecret) (counter : ℕ) (confirmedAt : Time)
  | deleteCodes (record : UserTotpSecret) (counter : ℕ) (confirmedAt : Time) (b : Bulk CodeHash)

inductive DisableTotp.Pc
  | authenticate
  | readTotp (user : User)
  | readRecovery (user : User) (record : UserTotpSecret)
  | flushRecovery (user : User) (record : UserTotpSecret) (hash : CodeHash)
  | flushUser (user : User) (record : UserTotpSecret) (factor : Factor)
  | flushTotp (user : User) (record : UserTotpSecret) (factor : Factor)

/-- The request for a video, which hands out a playback token. -/
inductive Playback.Pc
  | authenticate
  | mint (user : User)

/-- A request, or the clock. -/
inductive Proc
  | login (req : LoginRequest) (pc : Login.Pc)
  | refresh (token : Token) (pc : Refresh.Pc)
  | logout (token : Token) (pc : Logout.Pc)
  | resetPassword (newPassword : Password) (pc : ResetPassword.Pc)
  | deleteMyAccount (token : Token) (pc : DeleteMyAccount.Pc)
  | setupTotp (token : Token) (pc : SetupTotp.Pc)
  | confirmTotp (token : Token) (code : Code) (pc : ConfirmTotp.Pc)
  | disableTotp (token : Token) (password : Password) (code : Code) (pc : DisableTotp.Pc)
  | playback (token : Token) (pc : Playback.Pc)
  | clock
  | done

/-- Where a turn takes the request, and what it does; `none` if it cannot be taken. -/
abbrev Turn := Option (Proc × Effect)

/-! ### Tokens -/

/-- `decode_token` -/
def decodes (w : World) (type : TokenType) (t : Token) : Bool :=
  .issued t ∈ w.history ∧ t.type = type ∧ w.now < t.exp

/-- `get_current_user`, and the beginning of `_user_from_refresh_token`. -/
def userOfToken (w : World) (type : TokenType) (t : Token) : Option User :=
  if decodes w type t then
    w.user?.filter fun user => user.isActive ∧ t.sv = user.sessionVersion
  else none

/-- `_require_mfa_eligible` -/
def isMfaEligible (user : User) : Bool := user.role = .admin ∨ user.role = .coach

/-- `verify_password` -/
def verifyPassword (password : Password) (user : User) : Bool := user.passwordHash = some password

section IssueTokens

variable (S : Settings) (w : World) (user : User)

def accessToken : Token :=
  ⟨.access, user.sessionVersion, w.uuid + 1, w.now + S.accessTokenExpireMinutes * 60⟩

/-- When a refresh token issued now, and its session, expire. -/
def refreshExpiresAt : Time := w.now + S.refreshTokenExpireDays * 86400

/-- The refresh token, under the next identifier. -/
def refreshToken : Token := ⟨.refresh, user.sessionVersion, w.uuid, refreshExpiresAt S w⟩

def playbackToken : Token :=
  ⟨.playback, user.sessionVersion, w.uuid, w.now + S.playbackTokenExpireSeconds⟩

/-- `_create_refresh_session` -/
def createRefreshSession : Alteration Jti RefreshSession :=
  (w.uuid, fun _ => some ⟨refreshExpiresAt S w, none, none, none⟩)

end IssueTokens

/-! ### Revocation -/

/-- `revoked_at = now, revoked_reason = reason` -/
def RefreshSession.revoke (now : Time) (reason : RevokedReason) (s : RefreshSession) :
    RefreshSession :=
  { s with revokedAt := some now, revokedReason := some reason }

/-- What `_revoke_refresh_sessions` writes to the sessions it has come to. -/
def revocations (now : Time) (reason : RevokedReason) (sessions : List Jti) :
    List (Alteration Jti RefreshSession) :=
  sessions.map fun jti => (jti, Option.map (RefreshSession.revoke now reason))

/-- `session_version += 1`: one more than the value that was loaded. -/
def bumpSessionVersion (user : User) : Alteration Unit User :=
  ((), Option.map fun row => { row with sessionVersion := user.sessionVersion + 1 })

/-- `_revoke_refresh_sessions`, one turn of it, and what comes after it. -/
def revokeRefreshSessions (w : World) (pid : Pid) (a : Answer) (here : Bulk Jti → Proc)
    (after : List Jti → Turn) : Bulk Jti → Turn
  | .finished sessions => after sessions
  | b =>
    (b.step w.refreshSessions pid (fun s => s.revokedAt = none) (List.range w.uuid) a.keys).map
      fun t => (here t.1, .lock { refreshSessions := t.2 })

/-- `DELETE FROM mfa_recovery_codes`, one turn of it, and what comes after it. -/
def deleteRecoveryCodes (w : World) (pid : Pid) (a : Answer) (here : Bulk CodeHash → Proc)
    (after : List CodeHash → Turn) : Bulk CodeHash → Turn
  | .finished codes => after codes
  | b =>
    (b.step w.mfaRecoveryCodes pid (fun _ => true) (List.range w.uuid) a.keys).map
      fun t => (here t.1, .lock { mfaRecoveryCodes := t.2 })

/-- The deletion of the codes it has come to. -/
def deletions (codes : List CodeHash) : List (Alteration CodeHash MfaRecoveryCode) :=
  codes.map fun hash => (hash, fun _ => none)

/-- The end of a replayed refresh and of a logout. -/
def revokeAndBump (w : World) (user : User) (reason : RevokedReason) (events : List Event)
    (sessions : List Jti) : Tx where
  users := [bumpSessionVersion user]
  refreshSessions := revocations w.now reason sessions
  events := events ++ sessions.map .revoked

/-- The flush of the new session version, and the commit. -/
def flushSessionVersion (w : World) (pid : Pid) (tx : Tx) : Turn :=
  w.users.locate pid () (fun _ => true) fun
    | none => (.done, .commit {})
    | some _ => (.done, .commit tx)

/-! ### Login and refresh -/

namespace Login

variable (S : Settings) (pid : Pid) (req : LoginRequest) (w : World)

def Enrolled (r : UserTotpSecret) : Bool := r.confirmedAt ≠ none ∧ r.disabledAt = none

/-- What an accepted factor writes. -/
def useFactor : Option Factor → Tx
  | none => {}
  | some (.totp secret counter) =>
    { userTotpSecrets :=
        [((), Option.map fun r => { r with lastUsedAt := some (counterTime S counter) })]
      events := [.accepted (.totp secret counter)] }
  | some (.recovery hash) =>
    { mfaRecoveryCodes := [(hash, Option.map fun r => { r with usedAt := some w.now })]
      events := [.accepted (.recovery hash)] }

/-- The end of a successful login. -/
def signIn (user : User) (factor : Option Factor) : Tx :=
  { useFactor S w factor with
    refreshSessions := [createRefreshSession S w]
    events := (useFactor S w factor).events ++
      [.issued (accessToken S w user), .issued (refreshToken S w user)]
    draws := 2 }

def step : Pc → Turn
  | .readUser =>
    match w.user? with
    | none => some (.done, .commit {})
    | some user =>
      if verifyPassword req.password user ∧ user.isActive then
        some (.login req (.lockTotp user), .skip)
      else some (.done, .commit {})
  | .lockTotp user =>
    w.userTotpSecrets.locate pid () Enrolled fun
      | none => (.login req (.issueTokens user none), .skip)
      | some record =>
        match req.mfaCode with
        | none | some [] => (.done, .commit {})
        | some code =>
          (.login req
            (match verifyTotpCode S record.secret code w.now (lastCounter S record) with
              | some counter => .issueTokens user (some (.totp record.secret counter))
              | none => .lockRecovery user code),
            .lock { userTotpSecrets := [()] })
  | .lockRecovery user code =>
    let hash := S.hashRecoveryCode code
    w.mfaRecoveryCodes.locate pid hash (fun r => r.usedAt = none) fun
      | none => (.done, .commit {})
      | some _ =>
        (.login req (.issueTokens user (some (.recovery hash))),
          .lock { mfaRecoveryCodes := [hash] })
  | .issueTokens user factor => some (.done, .commit (signIn S w user factor))

end Login

namespace Refresh

variable (S : Settings) (pid : Pid) (token : Token) (w : World)

/-- The consumed session, replaced by that under the next identifier. -/
def consume (s : RefreshSession) : RefreshSession :=
  { s.revoke w.now .rotated with replacedBySessionId := some w.uuid }

/-- The end of a successful refresh. -/
def rotation (user : User) : Tx where
  refreshSessions := [(token.jti, Option.map (consume w)), createRefreshSession S w]
  events := [.rotated token.jti w.uuid,
    .issued (accessToken S w user), .issued (refreshToken S w user)]
  draws := 2

/-- The session has expired. -/
def expiry : Tx where
  refreshSessions := revocations w.now .expired [token.jti]
  events := [.revoked token.jti]

def step (a : Answer) : Pc → Turn
  | .readUser =>
    match userOfToken w .refresh token with
    | none => some (.done, .commit {})
    | some user => some (.refresh token (.lockSession user), .skip)
  | .lockSession user =>
    w.refreshSessions.locate pid token.jti (fun _ => true) fun
      | none => (.done, .commit {})
      | some s =>
        if s.revokedAt ≠ none then
          (.refresh token (.revokeSessions user .select), .lock { refreshSessions := [token.jti] })
        else if s.expiresAt ≤ w.now then (.done, .commit (expiry token w))
        else (.refresh token (.rotate user), .lock { refreshSessions := [token.jti] })
  | .rotate user => some (.done, .commit (rotation S token w user))
  | .revokeSessions user b =>
    revokeRefreshSessions w pid a (fun b => .refresh token (.revokeSessions user b))
      (fun sessions => flushSessionVersion w pid
        (revokeAndBump w user .replayDetected [.replayed token.jti] sessions)) b

end Refresh

/-! ### Logout, password reset, account deletion -/

def Logout.step (pid : Pid) (token : Token) (w : World) (a : Answer) : Logout.Pc → Turn
  | .authenticate =>
    match userOfToken w .access token with
    | none => some (.done, .commit {})
    | some user => some (.logout token (.revokeSessions user .select), .skip)
  | .revokeSessions user b =>
    revokeRefreshSessions w pid a (fun b => .logout token (.revokeSessions user b))
      (fun sessions => flushSessionVersion w pid (revokeAndBump w user .logout [] sessions)) b

/-- The end of a password reset. -/
def ResetPassword.reset (w : World) (newPassword : Password) (user : User) (sessions : List Jti) :
    Tx where
  users := [((), Option.map fun row =>
    { row with passwordHash := some newPassword, sessionVersion := user.sessionVersion + 1 })]
  refreshSessions := revocations w.now .passwordReset sessions
  events := sessions.map .revoked

/-- The row of `users` is locked by the first statement, and the later ones are about it. -/
def ResetPassword.step (pid : Pid) (newPassword : Password) (w : World) (a : Answer) :
    ResetPassword.Pc → Turn
  | .lockUser =>
    w.users.locate pid () (fun _ => true) fun
      | none => (.done, .commit {})
      | some user =>
        if user.isActive ∧ a ≠ .refused then
          (.resetPassword newPassword (.revokeSessions user .select), .lock { users := [()] })
        else (.done, .commit {})
  | .revokeSessions user b =>
    revokeRefreshSessions w pid a (fun b => .resetPassword newPassword (.revokeSessions user b))
      (fun sessions => some (.done, .commit (reset w newPassword user sessions))) b

/-- The end of an account deletion; `enrolled` tells whether there is an enrolment to delete. -/
def DeleteMyAccount.erase (w : World) (user : User) (sessions : List Jti) (codes : List CodeHash)
    (enrolled : Bool) : Tx where
  users := [((), Option.map fun row => { row with
    passwordHash := none
    isActive := false
    sessionVersion := user.sessionVersion + 1 })]
  refreshSessions := revocations w.now .accountDeleted sessions
  mfaRecoveryCodes := deletions codes
  userTotpSecrets := if enrolled then [((), fun _ => none)] else []
  events := sessions.map .revoked

/-- The row of `users` is locked by the flush before the sessions are revoked. -/
def DeleteMyAccount.step (pid : Pid) (token : Token) (w : World) (a : Answer) :
    DeleteMyAccount.Pc → Turn
  | .authenticate =>
    match userOfToken w .access token with
    | none => some (.done, .commit {})
    | some user => some (.deleteMyAccount token (.flushUser user), .skip)
  | .flushUser user =>
    w.users.locate pid () (fun _ => true) fun
      | none => (.done, .commit {})
      | some _ =>
        (.deleteMyAccount token (.revokeSessions user .select), .lock { users := [()] })
  | .revokeSessions user b =>
    revokeRefreshSessions w pid a (fun b => .deleteMyAccount token (.revokeSessions user b))
      (fun sessions => some (.deleteMyAccount token (.deleteCodes user sessions .select), .skip)) b
  | .deleteCodes user sessions b =>
    deleteRecoveryCodes w pid a (fun b => .deleteMyAccount token (.deleteCodes user sessions b))
      (fun codes => w.userTotpSecrets.locate pid () (fun _ => true) fun record =>
        (.done, .commit (erase w user sessions codes record.isSome))) b

/-! ### Second factors -/

/-- `WHERE id = :id`, for the enrolment that was loaded. -/
def UserTotpSecret.IsRow (record r : UserTotpSecret) : Bool := r.id = record.id

namespace SetupTotp

variable (pid : Pid) (token : Token) (w : World)

/-- A column that the request sets to NULL is updated only if it was not NULL when loaded. -/
def clear {α : Type} (loaded stored : Option α) : Option α := if loaded = none then stored else none

/-- The flush of a new secret over a loaded enrolment. -/
def overwrite (existing : UserTotpSecret) (r : UserTotpSecret) : UserTotpSecret :=
  { r with
    secret := w.uuid
    confirmedAt := clear existing.confirmedAt r.confirmedAt
    disabledAt := clear existing.disabledAt r.disabledAt
    lastUsedAt := clear existing.lastUsedAt r.lastUsedAt }

/-- A new secret for a loaded enrolment. -/
def overwritten (existing : UserTotpSecret) : Tx where
  userTotpSecrets := [((), Option.map (overwrite w existing))]
  draws := 1

/-- A new enrolment. -/
def inserted : Tx where
  userTotpSecrets := [((), fun _ => some ⟨w.uuid, w.uuid, none, none, none⟩)]
  draws := 1

def step : Pc → Turn
  | .authenticate =>
    match (userOfToken w .access token).filter isMfaEligible with
    | none => some (.done, .commit {})
    | some _ => some (.setupTotp token .readTotp, .skip)
  | .readTotp =>
    if w.totp?.any Login.Enrolled then some (.done, .commit {})
    else some (.setupTotp token (.writeTotp w.totp?), .skip)
  | .writeTotp (some existing) =>
    w.userTotpSecrets.locate pid () existing.IsRow fun
      | none => (.done, .commit {})
      | some _ => (.done, .commit (overwritten w existing))
  | .writeTotp none =>
    match w.totp? with
    -- `user_id` is unique
    | some _ => some (.done, .commit {})
    | none => some (.done, .commit (inserted w))

end SetupTotp

namespace ConfirmTotp

variable (S : Settings) (pid : Pid) (token : Token) (code : Code) (w : World)

/-- The flush of a confirmation. -/
def confirm (counter : ℕ) (confirmedAt : Time) (r : UserTotpSecret) : UserTotpSecret :=
  { r with confirmedAt := some confirmedAt, lastUsedAt := some (counterTime S counter) }

/-- A fresh batch of recovery codes. -/
def freshCodes : List (Alteration CodeHash MfaRecoveryCode) :=
  (List.range S.mfaRecoveryCodeCount).map fun n => (w.uuid + n, fun _ => some ⟨none⟩)

/-- The end of a confirmation. -/
def confirmed (record : UserTotpSecret) (counter : ℕ) (confirmedAt : Time)
    (codes : List CodeHash) : Tx where
  userTotpSecrets := [((), Option.map (confirm S counter confirmedAt))]
  mfaRecoveryCodes := deletions codes ++ freshCodes S w
  events := [.accepted (.totp record.secret counter)]
  draws := S.mfaRecoveryCodeCount

def step (a : Answer) : Pc → Turn
  | .authenticate =>
    match (userOfToken w .access token).filter isMfaEligible with
    | none => some (.done, .commit {})
    | some _ => some (.confirmTotp token code .readTotp, .skip)
  | .readTotp =>
    match w.totp?.filter fun r => r.disabledAt = none with
    | none => some (.done, .commit {})
    | some record =>
      match verifyTotpCode S record.secret code w.now (lastCounter S record) with
      | none => some (.done, .commit {})
      | some counter => some (.confirmTotp token code (.flushTotp record counter w.now), .skip)
  | .flushTotp record counter confirmedAt =>
    w.userTotpSecrets.locate pid () record.IsRow fun
      | none => (.done, .commit {})
      | some _ =>
        (.confirmTotp token code (.deleteCodes record counter confirmedAt .select),
          .lock { userTotpSecrets := [()] })
  | .deleteCodes record counter confirmedAt b =>
    deleteRecoveryCodes w pid a
      (fun b => .confirmTotp token code (.deleteCodes record counter confirmedAt b))
      (fun codes => some (.done, .commit (confirmed S w record counter confirmedAt codes))) b

end ConfirmTotp

namespace DisableTotp

variable (S : Settings) (pid : Pid) (token : Token) (password : Password) (code : Code) (w : World)

/-- What the accepted recovery code writes; an accepted TOTP counter is not recorded. -/
def useFactor : Factor → List (Alteration CodeHash MfaRecoveryCode)
  | .totp .. => []
  | .recovery hash => [(hash, Option.map fun r => { r with usedAt := some w.now })]

/-- The end of a successful request. -/
def disabled (user : User) (factor : Factor) : Tx where
  users := [bumpSessionVersion user]
  userTotpSecrets := [((), Option.map fun r => { r with disabledAt := some w.now })]
  mfaRecoveryCodes := useFactor w factor
  events := [.accepted factor]

def step : Pc → Turn
  | .authenticate =>
    match (userOfToken w .access token).filter fun user =>
        isMfaEligible user ∧ verifyPassword password user with
    | none => some (.done, .commit {})
    | some user => some (.disableTotp token password code (.readTotp user), .skip)
  | .readTotp user =>
    match w.totp?.filter Login.Enrolled with
    | none => some (.done, .commit {})
    | some record =>
      some (.disableTotp token password code
        (match verifyTotpCode S record.secret code w.now (lastCounter S record) with
          | some counter => .flushUser user record (.totp record.secret counter)
          | none => .readRecovery user record), .skip)
  | .readRecovery user record =>
    let hash := S.hashRecoveryCode code
    if (w.mfaRecoveryCodes.row hash).any fun r => r.usedAt = none then
      some (.disableTotp token password code (.flushRecovery user record hash), .skip)
    else some (.done, .commit {})
  | .flushRecovery user record hash =>
    w.mfaRecoveryCodes.locate pid hash (fun _ => true) fun
      | none => (.done, .commit {})
      | some _ =>
        (.disableTotp token password code (.flushUser user record (.recovery hash)),
          .lock { mfaRecoveryCodes := [hash] })
  | .flushUser user record factor =>
    w.users.locate pid () (fun _ => true) fun
      | none => (.done, .commit {})
      | some _ =>
        (.disableTotp token password code (.flushTotp user record factor), .lock { users := [()] })
  | .flushTotp user record factor =>
    w.userTotpSecrets.locate pid () record.IsRow fun
      | none => (.done, .commit {})
      | some _ => (.done, .commit (disabled w user factor))

end DisableTotp

/-- A playback token. -/
def Playback.minted (S : Settings) (w : World) (user : User) : Tx where
  events := [.issued (playbackToken S w user)]
  draws := 1

def Playback.step (S : Settings) (token : Token) (w : World) : Playback.Pc → Turn
  | .authenticate =>
    match userOfToken w .access token with
    | none => some (.done, .commit {})
    | some user => some (.playback token (.mint user), .skip)
  | .mint user =>
    some (.done, .commit (minted S w user))

/-! ### One turn -/

/-- One turn of request `pid`, unless a database statement raises. -/
def Proc.turn (S : Settings) (pid : Pid) (a : Answer) (w : World) : Proc → Turn
  | .login req pc => Login.step S pid req w pc
  | .refresh token pc => Refresh.step S pid token w a pc
  | .logout token pc => Logout.step pid token w a pc
  | .resetPassword password pc => ResetPassword.step pid password w a pc
  | .deleteMyAccount token pc => DeleteMyAccount.step pid token w a pc
  | .setupTotp token pc => SetupTotp.step pid token w pc
  | .confirmTotp token code pc => ConfirmTotp.step S pid token code w a pc
  | .disableTotp token password code pc => DisableTotp.step S pid token password code w pc
  | .playback token pc => Playback.step S token w pc
  | .clock =>
    match a with
    | .seconds n => some (.clock, .tick n)
    | _ => none
  | .done => none

/-- One turn of request `pid`. A database error ends it, and rolls its transaction back. -/
def Proc.step (S : Settings) (pid : Pid) (a : Answer) (p : Proc) (w : World) : Turn :=
  match a, p with
  | .error, .clock | .error, .done => none
  | .error, _ => some (.done, .commit {})
  | a, p => p.turn S pid a w

end NextBallUp.Auth
