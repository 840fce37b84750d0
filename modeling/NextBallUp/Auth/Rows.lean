import NextBallUp.Rows
import Mathlib.Logic.Function.Basic

/-!
# The session and the factors of one user

The rows that decide whether one user is let in: the row of `users`, the refresh sessions, the
enrolled TOTP secret and the recovery codes.

## Identifiers

Whatever the source draws at random is a number below `World.uuid`, which grows with every draw:
the `jti` of a token, the id and the shared secret of an enrolment, the hash of a recovery code. A
refresh session is named by its `jti`, whose SHA-256 is the unique column of the table.

## What is deliberately absent

All columns of `users` that no request modelled here decides by, the address among them: once the
account is deleted, its password matches nothing, and a login fails the same way. Key-share locks
of foreign keys are absent too, so that an insertion never waits here for a locked row of `users`.

## Main definitions

* `User`, `RefreshSession`, `UserTotpSecret`, `MfaRecoveryCode`: the rows
* `Token`: a signed token
* `Event`: what is remembered of a run
* `World`, `Effect`, `World.apply`: what the requests share, and what a turn does to it
-/

namespace NextBallUp.Auth

/-- The identifier of a token; that of a refresh token also names its session. -/
abbrev Jti := ℕ

/-- A shared TOTP secret. -/
abbrev Secret := ℕ

/-- The keyed digest of a recovery code. -/
abbrev CodeHash := ℕ

abbrev Password := ℕ

/-- A code as the user has typed it, without the blanks around it. -/
abbrev Code := List Char

inductive UserRole
  | coach | player | admin
  deriving DecidableEq, Repr

/-- The settings that the modelled functions read, with the bounds that they are validated against,
and the two keyed functions. -/
structure Settings where
  accessTokenExpireMinutes : ℕ
  refreshTokenExpireDays : ℕ
  playbackTokenExpireSeconds : ℕ
  mfaTotpStepSeconds : ℕ
  mfaTotpDigits : ℕ
  mfaRecoveryCodeCount : ℕ
  mfaTotpStepSeconds_ge : 15 ≤ mfaTotpStepSeconds
  mfaTotpDigits_ge : 6 ≤ mfaTotpDigits
  mfaRecoveryCodeCount_ge : 4 ≤ mfaRecoveryCodeCount
  /-- The 31 bits that HOTP takes from the HMAC-SHA1 of a counter. -/
  truncatedHmac : Secret → ℕ → ℕ
  /-- The HMAC-SHA256 of a recovery code under the pepper. -/
  hashRecoveryCode : Code → CodeHash

/-- The defaults of `nextballup_core.settings`, under given keyed functions. -/
def Settings.default (truncatedHmac : Secret → ℕ → ℕ) (hashRecoveryCode : Code → CodeHash) :
    Settings where
  accessTokenExpireMinutes := 15
  refreshTokenExpireDays := 7
  playbackTokenExpireSeconds := 120
  mfaTotpStepSeconds := 30
  mfaTotpDigits := 6
  mfaRecoveryCodeCount := 10
  mfaTotpStepSeconds_ge := by decide
  mfaTotpDigits_ge := by decide
  mfaRecoveryCodeCount_ge := by decide
  truncatedHmac := truncatedHmac
  hashRecoveryCode := hashRecoveryCode

/-! ### Rows -/

/-- The row of `users`. -/
structure User where
  role : UserRole
  /-- `none` is the sentinel that no password matches. -/
  passwordHash : Option Password
  isActive : Bool
  sessionVersion : ℕ
  deriving DecidableEq, Repr

/-- The values of `revoked_reason`. -/
inductive RevokedReason
  | rotated | expired | replayDetected | logout | passwordReset | accountDeleted
  deriving DecidableEq, Repr

/-- A row of `refresh_sessions`. -/
structure RefreshSession where
  expiresAt : Time
  revokedAt : Option Time
  revokedReason : Option RevokedReason
  replacedBySessionId : Option Jti
  deriving DecidableEq, Repr

/-- A row of `user_totp_secrets`; `user_id` is unique. -/
structure UserTotpSecret where
  id : ℕ
  /-- What `secret_ciphertext` decrypts to. -/
  secret : Secret
  confirmedAt : Option Time
  disabledAt : Option Time
  lastUsedAt : Option Time
  deriving DecidableEq, Repr

/-- A row of `mfa_recovery_codes`; `code_hash` is unique. -/
structure MfaRecoveryCode where
  usedAt : Option Time
  deriving DecidableEq, Repr

/-! ### Tokens and events -/

inductive TokenType
  | access | refresh | playback
  deriving DecidableEq, Repr

/-- The claims of a signed token of the user. -/
structure Token where
  type : TokenType
  sv : ℕ
  jti : Jti
  exp : Time
  deriving DecidableEq, Repr

/-- What a request accepts as the second factor. -/
inductive Factor
  | totp (secret : Secret) (counter : ℕ)
  | recovery (hash : CodeHash)
  deriving DecidableEq, Repr

/-- What a committed request has done. -/
inductive Event
  | issued (token : Token)
  /-- A refresh has consumed the session `jti` and put another in its place. -/
  | rotated (jti successor : Jti)
  /-- The session has been revoked and not replaced. -/
  | revoked (jti : Jti)
  /-- A token whose session is no longer live has been presented, and the request fails. -/
  | replayed (jti : Jti)
  | accepted (factor : Factor)
  deriving DecidableEq, Repr

/-! ### The world -/

/-- Everything the requests share. -/
structure World where
  users : Table Unit User Pid
  refreshSessions : Table Jti RefreshSession Pid
  userTotpSecrets : Table Unit UserTotpSecret Pid
  mfaRecoveryCodes : Table CodeHash MfaRecoveryCode Pid
  /-- What has happened, the latest first. No request can see it, but that it presents a token that
  has been issued: signatures are not forged. -/
  history : List Event
  /-- The next identifier to be drawn. -/
  uuid : ℕ
  now : Time

/-- What a statement does to the row under a key. -/
abbrev Alteration (K R : Type) := K × (Option R → Option R)

/-- What a transaction writes when it commits. -/
structure Tx where
  users : List (Alteration Unit User) := []
  refreshSessions : List (Alteration Jti RefreshSession) := []
  userTotpSecrets : List (Alteration Unit UserTotpSecret) := []
  mfaRecoveryCodes : List (Alteration CodeHash MfaRecoveryCode) := []
  events : List Event := []
  /-- How many identifiers have been drawn for it. -/
  draws : ℕ := 0

/-- The rows that a statement locks, or that a process has locked. -/
structure Locks where
  users : List Unit := []
  refreshSessions : List Jti := []
  userTotpSecrets : List Unit := []
  mfaRecoveryCodes : List CodeHash := []

/-- What one turn of a request does to the world. -/
inductive Effect
  | skip
  | lock (locks : Locks)
  /-- The end of a transaction. A rollback is the commit of nothing. -/
  | commit (tx : Tx)
  | tick (seconds : ℕ)

namespace World

/-- The commit of a transaction of session `pid`. -/
def commit (w : World) (pid : Pid) (tx : Tx) : World where
  users := (w.users.alterAll tx.users).release pid
  refreshSessions := (w.refreshSessions.alterAll tx.refreshSessions).release pid
  userTotpSecrets := (w.userTotpSecrets.alterAll tx.userTotpSecrets).release pid
  mfaRecoveryCodes := (w.mfaRecoveryCodes.alterAll tx.mfaRecoveryCodes).release pid
  history := tx.events ++ w.history
  uuid := w.uuid + tx.draws
  now := w.now

/-- What an effect of session `pid` makes of the world. -/
def apply (w : World) (pid : Pid) : Effect → World
  | .skip => w
  | .lock locks =>
    { w with
      users := w.users.acquireAll pid locks.users
      refreshSessions := w.refreshSessions.acquireAll pid locks.refreshSessions
      userTotpSecrets := w.userTotpSecrets.acquireAll pid locks.userTotpSecrets
      mfaRecoveryCodes := w.mfaRecoveryCodes.acquireAll pid locks.mfaRecoveryCodes }
  | .commit tx => w.commit pid tx
  | .tick seconds => { w with now := w.now + seconds }

/-- The user row, which is never deleted. -/
def user? (w : World) : Option User := w.users.row ()

/-- The enrolment of the user. -/
def totp? (w : World) : Option UserTotpSecret := w.userTotpSecrets.row ()

end World

end NextBallUp.Auth
