import NextBallUp.Lib.Interleaving
import NextBallUp.Lib.RowLocks
import NextBallUp.Rows
import Mathlib.Data.Fintype.OfMap

/-!
# Updates of games

`update_game` of `routers/games.py`, as any number of requests that run at the same time. One turn
is one SQL statement. A request reads its game without a lock, changes what it has read, and writes
the columns in which the two differ.

## Main definitions

* `Column`, `Row`, `Game`: the columns that an update may change, and a row of them
* `UpdateGameRequest`: the payload
* `edit`: what a request makes of the game that it has read
* `merge`: what its `UPDATE` makes of the row as it then is
* `Proc.step`, `system`: one turn of a request, and the machine

## What is deliberately absent

Outages of the database, the audit log, and columns that no update changes. Whether the team may be
updated by the user, and whether the database takes a value, is up to the environment
(`Answer.refused`).
-/

namespace NextBallUp.Games

abbrev GameId := ℕ

inductive GameStatus
  | scheduled | uploading | processing | completed | failed
  deriving DecidableEq, Repr

/-! ### Rows -/

/-- The columns of `games` that are fields of `UpdateGameRequest`. -/
inductive Column
  | opponentName | location | time | isHome | periods | periodLengthMinutes | shotClockEnabled
  | shotClockSeconds | notes | scoreTeam | scoreOpponent | status
  deriving DecidableEq

def Column.all : List Column :=
  [.opponentName, .location, .time, .isHome, .periods, .periodLengthMinutes, .shotClockEnabled,
    .shotClockSeconds, .notes, .scoreTeam, .scoreOpponent, .status]

theorem Column.mem_all (c : Column) : c ∈ Column.all := by
  cases c
  all_goals decide

instance : Fintype Column := .ofList Column.all Column.mem_all

/-- The values of a column. A time of the day is in seconds. -/
abbrev Column.Value : Column → Type
  | .opponentName | .location | .notes => String
  | .isHome | .shotClockEnabled => Bool
  | .time | .periods | .periodLengthMinutes | .shotClockSeconds | .scoreTeam | .scoreOpponent => ℕ
  | .status => GameStatus

instance : (c : Column) → DecidableEq c.Value
  | .opponentName | .location | .notes => inferInstanceAs (DecidableEq String)
  | .isHome | .shotClockEnabled => inferInstanceAs (DecidableEq Bool)
  | .time | .periods | .periodLengthMinutes | .shotClockSeconds | .scoreTeam | .scoreOpponent =>
    inferInstanceAs (DecidableEq ℕ)
  | .status => inferInstanceAs (DecidableEq GameStatus)

/-- The column is not `nullable`. -/
def Column.isRequired : Column → Bool
  | .isHome | .periods | .periodLengthMinutes | .shotClockEnabled | .status => true
  | _ => false

/-- Values of the columns; `none` is `NULL`. -/
abbrev Row := (c : Column) → Option c.Value

/-- A row that the table takes. -/
structure Game where
  get : Row
  isSome_get : ∀ c : Column, c.isRequired = true → (get c).isSome = true

/-! ### Payloads -/

/-- The bounds of the fields. -/
def Column.admits : (c : Column) → c.Value → Bool
  | .opponentName, s | .location, s => s.length ≤ 255
  | .notes, s => s.length ≤ 2000
  | .periods, n => 1 ≤ n ∧ n ≤ 10
  | .periodLengthMinutes, n => 1 ≤ n ∧ n ≤ 60
  | .shotClockSeconds, n => 1 ≤ n ∧ n ≤ 35
  | .scoreTeam, n | .scoreOpponent, n => n ≤ 999
  | .time, n => n < 86400
  | .isHome, _ | .shotClockEnabled, _ | .status, _ => true

/-- `UpdateGameRequest`: the fields that are set, which may be set to `None`. -/
structure UpdateGameRequest where
  updates : (c : Column) → Option (Option c.Value)
  admits : ∀ c v, updates c = some (some v) → c.admits v = true
  /-- `_validate_shot_clock_patch` -/
  enabling : updates .shotClockEnabled = some (some true) →
    ∃ n, updates .shotClockSeconds = some (some n)
  disabling : updates .shotClockEnabled = some (some false) →
    ∀ n, updates .shotClockSeconds ≠ some (some n)

/-- What a request is made for. -/
structure Request where
  gameId : GameId
  payload : UpdateGameRequest
  /-- `current_user.role is UserRole.ADMIN` -/
  isAdmin : Bool

/-! ### The update -/

/-- `_TERMINAL_GAME_STATUSES` -/
def GameStatus.isTerminal (status : GameStatus) : Bool := status = .completed || status = .failed

structure Failure where
  status : ℕ
  message : String
  deriving DecidableEq, Repr

/-- The request would take a game out of a terminal status. -/
def forbidden (request : Request) (game : Game) : Bool :=
  match request.payload.updates .status with
  | some (some newStatus) =>
    (game.get .status).any GameStatus.isTerminal && game.get .status ≠ some newStatus &&
      !request.isAdmin
  | _ => false

/-- The fields that are set. -/
def assign (updates : (c : Column) → Option (Option c.Value)) (row : Row) : Row :=
  fun c => (updates c).getD (row c)

/-- The rule about the shot clock. -/
def checkShotClock (row : Row) : Except Failure Row :=
  if row .shotClockEnabled ≠ some true then .ok (Function.update row .shotClockSeconds none)
  else if row .shotClockSeconds = none then
    .error ⟨422, "shot_clock_seconds is required when shot_clock_enabled is true"⟩
  else .ok row

/-- What a request makes of the game that it has read. -/
def edit (request : Request) (game : Game) : Except Failure Row :=
  if forbidden request game then
    .error ⟨403, "Cannot change status of a terminal game; ask an admin to reopen"⟩
  else checkShotClock (assign request.payload.updates game.get)

/-- The `UPDATE` has the column. -/
abbrev Writes (game : Game) (edited : Row) (c : Column) : Prop := edited c ≠ game.get c

/-- What the `UPDATE` makes of a row. -/
def merge (game : Game) (edited row : Row) : Row :=
  fun c => if Writes game edited c then edited c else row c

/-! ### Requests -/

/-- What the environment decides in a turn. -/
inductive Answer
  | ok
  | refused (failure : Failure)
  deriving DecidableEq, Repr

/-- Where a request stands, named after what comes next. -/
inductive Pc
  | load
  | readTeam (game : Game)
  | readMembership (game : Game)
  | flush (game : Game) (edited : Row)
  | writeAudit (written : Option Game)
  | commit (written : Option Game)
  | refresh
  /-- The answer with the game. -/
  | done (game : Game)
  | failed (failure : Failure)

structure Proc where
  request : Request
  pc : Pc

/-- The games, and which request has locked which of them. -/
abbrev World := Table GameId Game Pid

/-- What one turn of a request does to the world. -/
inductive Effect
  | skip
  | lock (gameId : GameId)
  /-- The end of a transaction that has written these games. -/
  | commit (games : List (GameId × Game))
  | rollback

/-- What an effect of session `pid` makes of the world. -/
def World.apply (w : World) (pid : Pid) : Effect → World
  | .skip => w
  | .lock gameId => w.acquireAll pid [gameId]
  | .commit games => (w.putAll games).release pid
  | .rollback => w.release pid

/-- Where a turn takes the request, and what it does; `none` if it cannot be taken. -/
abbrev Turn := Option (Pc × Effect)

/-- The request raises, and its transaction is rolled back. -/
def raises (failure : Failure) : Turn := some (.failed failure, .rollback)

/-- A statement that the environment may refuse. -/
def Answer.guard (a : Answer) (turn : Turn) : Turn :=
  match a with
  | .ok => turn
  | .refused failure => raises failure

/-- `NotFoundError` of `update_game`. -/
def notFound : Failure := ⟨404, "Game not found"⟩

/-- An exception of the session that nothing catches. -/
def internal (message : String) : Failure := ⟨500, message⟩

/-- `session.flush()`: an update of one row, which waits while another session has locked it. -/
def flush (pid : Pid) (gameId : GameId) (game : Game) (edited : Row) (w : World) : Turn :=
  if ∀ c, ¬ Writes game edited c then some (.writeAudit none, .skip)
  else w.locate pid gameId (fun _ => true) fun
    | none => (.failed (internal "StaleDataError"), .rollback)
    | some row =>
      if h : ∀ c : Column, c.isRequired = true → (merge game edited row.get c).isSome = true then
        (.writeAudit (some ⟨merge game edited row.get, h⟩), .lock gameId)
      else (.failed (internal "IntegrityError"), .rollback)

/-- `update_game` -/
def Proc.turn (pid : Pid) (a : Answer) (request : Request) (w : World) : Pc → Turn
  | .load =>
    a.guard <|
      match w.row request.gameId with
      | none => raises notFound
      | some game => some (.readTeam game, .skip)
  | .readTeam game => a.guard (some (.readMembership game, .skip))
  | .readMembership game =>
    a.guard <|
      if ∀ c, request.payload.updates c = none then some (.done game, .rollback)
      else
        match edit request game with
        | .error failure => raises failure
        | .ok edited => some (.flush game edited, .skip)
  | .flush game edited => a.guard (flush pid request.gameId game edited w)
  | .writeAudit written => a.guard (some (.commit written, .skip))
  | .commit written =>
    a.guard (some (.refresh, .commit (written.map fun game => (request.gameId, game)).toList))
  | .refresh =>
    match w.row request.gameId with
    | none => raises (internal "InvalidRequestError")
    | some game => some (.done game, .rollback)
  | .done _ | .failed _ => none

/-- One turn of a request. -/
def Proc.step (pid : Pid) (a : Answer) (p : Proc) (w : World) : Option (Proc × Effect) :=
  (Proc.turn pid a p.request w p.pc).map fun t => ({ p with pc := t.1 }, t.2)

/-- The machine whose processes are the requests. -/
def system : Machine Pid Answer Proc World := .ofEffects Proc.step World.apply

/-- A configuration of the system. -/
abbrev State := Conf Pid Proc World

end NextBallUp.Games
