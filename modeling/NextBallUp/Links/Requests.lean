import NextBallUp.Rows
import NextBallUp.Lib.BulkStatements
import NextBallUp.Lib.Interleaving

/-!
# Links sent by e-mail

`email_verification.py`, `password_reset.py` and the endpoints that call them: a request issues a
token of one of two families and delivers it as a link, and the link is redeemed by whoever follows
it. One turn is one SQL statement, as in the requests for a session.

A password reset locks the row of its user before it issues or redeems anything. An e-mail
verification does not.

## What is deliberately absent

Rate limits, the audit log, the session versions and passwords that a password reset writes, and the
addresses and user agents that are stored with a token. Whether the policies of the tables let a
request see the token whose delivery has failed is up to the environment.

## Main definitions

* `Family`, `LinkToken`, `User`, `World`: what the requests share
* one `Pc` for each endpoint, and `Proc`: a request
* `Proc.step`: one turn of a request
* `system`: the machine
-/

namespace NextBallUp.Links

abbrev UserId := ℕ

/-- A token, named by its hash. -/
abbrev TokenId := ℕ

/-- The two tables of tokens. -/
inductive Family
  | emailVerification | passwordReset
  deriving DecidableEq, Repr

/-- How long tokens live, with the bounds that the settings are validated against. -/
structure Settings where
  emailVerificationTokenTtlMinutes : ℕ
  passwordResetTokenTtlMinutes : ℕ
  emailVerificationTokenTtlMinutes_ge : 5 ≤ emailVerificationTokenTtlMinutes
  passwordResetTokenTtlMinutes_ge : 5 ≤ passwordResetTokenTtlMinutes

/-- The defaults of `nextballup_core.settings`. -/
def Settings.default : Settings where
  emailVerificationTokenTtlMinutes := 60
  passwordResetTokenTtlMinutes := 30
  emailVerificationTokenTtlMinutes_ge := by decide
  passwordResetTokenTtlMinutes_ge := by decide

def Settings.ttlMinutes (S : Settings) : Family → ℕ
  | .emailVerification => S.emailVerificationTokenTtlMinutes
  | .passwordReset => S.passwordResetTokenTtlMinutes

/-! ### Rows -/

/-- A row of `users`. -/
structure User where
  isActive : Bool
  isVerified : Bool
  deriving DecidableEq, Repr

/-- A row of `email_verification_tokens` or `password_reset_tokens`; `token_hash` is unique. -/
structure LinkToken where
  userId : UserId
  expiresAt : Time
  usedAt : Option Time
  deriving DecidableEq, Repr

/-- What a committed request has done. -/
inductive Event
  | issued (family : Family) (user : UserId) (token : TokenId)
  | redeemed (family : Family) (token : TokenId)
  deriving DecidableEq, Repr

/-- Everything the requests share. -/
structure World where
  users : Table UserId User Pid
  tokens : Family → Table TokenId LinkToken Pid
  /-- What has happened, the latest first. No request reads it. -/
  history : List Event
  /-- The next token to be drawn. -/
  uuid : ℕ
  now : Time

/-- What a statement does to the row under a key. -/
abbrev Alteration (K R : Type) := K × (Option R → Option R)

/-- What a transaction writes when it commits. -/
structure Tx where
  users : List (Alteration UserId User) := []
  tokens : Family → List (Alteration TokenId LinkToken) := fun _ => []
  events : List Event := []
  /-- How many tokens have been drawn for it. -/
  draws : ℕ := 0

/-- The rows of one family that a statement names. -/
def only {α : Type} (family : Family) (l : List α) : Family → List α := fun family' =>
  if family' = family then l else []

/-- The rows that a statement locks. -/
structure Locks where
  users : List UserId := []
  tokens : Family → List TokenId := fun _ => []

/-- What one turn of a request does to the world. -/
inductive Effect
  | skip
  | lock (locks : Locks)
  /-- The end of a transaction. A rollback is the commit of nothing. -/
  | commit (tx : Tx)
  | tick (seconds : ℕ)

namespace World

/-- The commit of a transaction of session `pid`. -/
def commit (w : World) (pid : Pid) (tx : Tx) : World where
  users := (w.users.alterAll tx.users).release pid
  tokens family := ((w.tokens family).alterAll (tx.tokens family)).release pid
  history := tx.events ++ w.history
  uuid := w.uuid + tx.draws
  now := w.now

/-- What an effect of session `pid` makes of the world. -/
def apply (w : World) (pid : Pid) : Effect → World
  | .skip => w
  | .lock locks =>
    { w with
      users := w.users.acquireAll pid locks.users
      tokens := fun family => (w.tokens family).acquireAll pid (locks.tokens family) }
  | .commit tx => w.commit pid tx
  | .tick seconds => { w with now := w.now + seconds }

end World

/-! ### Program points

A point is named after the statement that comes next. -/

/-- What the environment decides in a turn. -/
inductive Answer
  | ok
  /-- The database statement raises, and the transaction is rolled back. -/
  | error
  /-- The delivery raises. -/
  | undelivered
  /-- No policy lets the statement see the row. -/
  | hidden
  /-- The rows that a statement over many rows sees, in the order in which it comes to them. -/
  | snapshot (keys : List ℕ)
  | seconds (n : ℕ)
  deriving DecidableEq, Repr

def Answer.keys : Answer → List ℕ
  | .snapshot keys => keys
  | _ => []

/-- The common end of the requests that issue a token: `now` is when the token is drawn. -/
inductive Issue.Pc
  | retire (now : Time) (b : Bulk TokenId)
  | deliver (token : TokenId)
  | retireUndelivered (token : TokenId)

inductive RequestPasswordReset.Pc
  | readUser
  | lockUser
  | issue (pc : Issue.Pc)

inductive RequestEmailVerification.Pc
  | authenticate
  | issue (pc : Issue.Pc)

inductive ResetPassword.Pc
  | readToken
  | lockUser (user : UserId)
  | lockToken (user : UserId) (record : Option User)
  | retireOthers (user : UserId) (b : Bulk TokenId)

inductive ConfirmEmailVerification.Pc
  | lockToken
  | readUser (user : UserId)
  | flushUser (user : UserId)

/-- A request, or the clock. -/
inductive Proc
  | requestPasswordReset (user : UserId) (pc : RequestPasswordReset.Pc)
  | requestEmailVerification (user : UserId) (pc : RequestEmailVerification.Pc)
  | resetPassword (token : TokenId) (pc : ResetPassword.Pc)
  | confirmEmailVerification (token : TokenId) (pc : ConfirmEmailVerification.Pc)
  | clock
  | done

/-- Where a turn takes the request, and what it does; `none` if it cannot be taken. -/
abbrev Turn := Option (Proc × Effect)

/-! ### Issuing -/

/-- An unused token of the user. -/
def LinkToken.IsUnused (user : UserId) (r : LinkToken) : Bool := r.userId = user ∧ r.usedAt = none

/-- `used_at = now` -/
def LinkToken.use (now : Time) (r : LinkToken) : LinkToken := { r with usedAt := some now }

/-- What a statement writes to the tokens it has come to. -/
def usages (now : Time) (tokens : List TokenId) : List (Alteration TokenId LinkToken) :=
  tokens.map fun token => (token, Option.map (LinkToken.use now))

/-- `UPDATE … SET used_at WHERE user_id AND used_at IS NULL`, one turn of it, and what comes after
it. -/
def retireTokens (w : World) (pid : Pid) (a : Answer) (family : Family) (user : UserId)
    (keys : List TokenId) (here : Bulk TokenId → Proc) (after : List TokenId → Turn) :
    Bulk TokenId → Turn
  | .finished tokens => after tokens
  | b =>
    (b.step (w.tokens family) pid (LinkToken.IsUnused user) keys a.keys).map
      fun t => (here t.1, .lock { tokens := only family t.2 })

namespace Issue

variable (S : Settings) (pid : Pid) (family : Family) (user : UserId) (here : Pc → Proc) (w : World)

/-- The end of an issue: the tokens that have been retired, and the new one. -/
def issued (now : Time) (retired : List TokenId) : Tx where
  tokens := only family (usages now retired ++
    [(w.uuid, fun _ => some ⟨user, now + S.ttlMinutes family * 60, none⟩)])
  events := [.issued family user w.uuid]
  draws := 1

/-- The update after a failed delivery. -/
def undelivered (token : TokenId) : Tx where
  tokens := only family (usages w.now [token])

def step (a : Answer) : Pc → Turn
  | .retire now b =>
    retireTokens w pid a family user (List.range w.uuid) (fun b => here (.retire now b))
      (fun retired => some (here (.deliver w.uuid), .commit (issued S family user w now retired))) b
  | .deliver token =>
    if a = .undelivered then some (here (.retireUndelivered token), .skip)
    else some (.done, .commit {})
  | .retireUndelivered token =>
    if a = .hidden then some (.done, .commit {})
    else (w.tokens family).locate pid token (fun r => r.usedAt = none) fun
      | none => (.done, .commit {})
      | some _ => (.done, .commit (undelivered family w token))

end Issue

/-- `request_password_reset` -/
def RequestPasswordReset.step (S : Settings) (pid : Pid) (user : UserId) (w : World) (a : Answer) :
    RequestPasswordReset.Pc → Turn
  | .readUser =>
    if (w.users.row user).any User.isActive then
      some (.requestPasswordReset user .lockUser, .skip)
    else some (.done, .commit {})
  | .lockUser =>
    w.users.locate pid user (fun _ => true) fun
      | none => (.done, .commit {})
      -- The object is the one loaded before: its `is_active` is not read again.
      | some _ => (.requestPasswordReset user (.issue (.retire w.now .select)),
          .lock { users := [user] })
  | .issue pc =>
    Issue.step S pid .passwordReset user (fun pc => .requestPasswordReset user (.issue pc)) w a pc

/-- `request_email_verification` -/
def RequestEmailVerification.step (S : Settings) (pid : Pid) (user : UserId) (w : World)
    (a : Answer) : RequestEmailVerification.Pc → Turn
  | .authenticate =>
    if (w.users.row user).any fun r => r.isActive ∧ r.isVerified = false then
      some (.requestEmailVerification user (.issue (.retire w.now .select)), .skip)
    else some (.done, .commit {})
  | .issue pc =>
    Issue.step S pid .emailVerification user (fun pc => .requestEmailVerification user (.issue pc))
      w a pc

/-! ### Redeeming -/

/-- `used_at` is set, and nothing else is done. -/
def spent (family : Family) (w : World) (token : TokenId) : Tx where
  tokens := only family (usages w.now [token])

/-- The end of a password reset: the token and the others of the user. -/
def ResetPassword.redeemed (w : World) (token : TokenId) (others : List TokenId) : Tx where
  tokens := only .passwordReset (usages w.now (token :: others))
  events := [.redeemed .passwordReset token]

/-- `consume_password_reset_token` and `reset_password` -/
def ResetPassword.step (pid : Pid) (token : TokenId) (w : World) (a : Answer) :
    ResetPassword.Pc → Turn
  | .readToken =>
    match (w.tokens .passwordReset).row token with
    | none => some (.done, .commit {})
    | some r => some (.resetPassword token (.lockUser r.userId), .skip)
  | .lockUser user =>
    w.users.locate pid user (fun _ => true) fun
      | none => (.resetPassword token (.lockToken user none), .skip)
      | some record =>
        (.resetPassword token (.lockToken user (some record)), .lock { users := [user] })
  | .lockToken user record =>
    (w.tokens .passwordReset).locate pid token (fun r => r.userId = user) fun
      | none => (.done, .commit {})
      | some r =>
        if r.usedAt ≠ none then (.done, .commit {})
        else if r.expiresAt ≤ w.now then (.done, .commit {})
        else if record.any User.isActive then
          (.resetPassword token (.retireOthers user .select),
            .lock { tokens := only .passwordReset [token] })
        else (.done, .commit (spent .passwordReset w token))
  | .retireOthers user b =>
    retireTokens w pid a .passwordReset user ((List.range w.uuid).filter (· ≠ token))
      (fun b => .resetPassword token (.retireOthers user b))
      (fun others => some (.done, .commit (redeemed w token others))) b

/-- The end of a verification. -/
def ConfirmEmailVerification.redeemed (w : World) (token : TokenId) (user : UserId) : Tx where
  users := [(user, Option.map fun r => { r with isVerified := true })]
  tokens := only .emailVerification (usages w.now [token])
  events := [.redeemed .emailVerification token]

/-- `confirm_verification_token` -/
def ConfirmEmailVerification.step (pid : Pid) (token : TokenId) (w : World) :
    ConfirmEmailVerification.Pc → Turn
  | .lockToken =>
    (w.tokens .emailVerification).locate pid token (fun _ => true) fun
      | none => (.done, .commit {})
      | some r =>
        if r.usedAt ≠ none then (.done, .commit {})
        else if r.expiresAt ≤ w.now then (.done, .commit {})
        else (.confirmEmailVerification token (.readUser r.userId),
          .lock { tokens := only .emailVerification [token] })
  | .readUser user =>
    match (w.users.row user).filter User.isActive with
    | none => some (.done, .commit {})
    | some r =>
      if r.isVerified then some (.done, .commit (spent .emailVerification w token))
      else some (.confirmEmailVerification token (.flushUser user), .skip)
  | .flushUser user =>
    w.users.locate pid user (fun _ => true) fun
      | none => (.done, .commit {})
      | some _ => (.done, .commit (redeemed w token user))

/-! ### One turn -/

/-- One turn of request `pid`, unless a database statement raises. -/
def Proc.turn (S : Settings) (pid : Pid) (a : Answer) (w : World) : Proc → Turn
  | .requestPasswordReset user pc => RequestPasswordReset.step S pid user w a pc
  | .requestEmailVerification user pc => RequestEmailVerification.step S pid user w a pc
  | .resetPassword token pc => ResetPassword.step pid token w a pc
  | .confirmEmailVerification token pc => ConfirmEmailVerification.step pid token w pc
  | .clock =>
    match a with
    | .seconds n => some (.clock, .tick n)
    | _ => none
  | .done => none

/-- One turn of request `pid`. A database error ends it, and rolls its transaction back. -/
def Proc.step (S : Settings) (pid : Pid) (a : Answer) (p : Proc) (w : World) : Turn :=
  match a, p with
  | .error, .clock | .error, .done => none
  | .error, _ => some (.done, .commit {})
  | a, p => p.turn S pid a w

/-- The machine whose processes are the requests. -/
def system (S : Settings) : Machine Pid Answer Proc World :=
  .ofEffects (fun pid a p w => p.step S pid a w) World.apply

/-- A configuration of the system. -/
abbrev State := Conf Pid Proc World

end NextBallUp.Links
