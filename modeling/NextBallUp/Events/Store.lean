import NextBallUp.Lib.Transactions
import NextBallUp.Events.Rows
import Mathlib.Data.List.Nodup
import Mathlib.Data.List.Range

/-!
# The tables of the events

The tables that the import and the routes of the events work on, and their statements. Each runs in
one transaction.

## Main definitions

* `Db`: the tables, whose events have a primary key
* `selectEvents`, `insertEvents`, `updateEvent`, `deleteEvents`: the statements

## What is deliberately absent

Row-level security: the import runs as the worker, and a route reads and writes events of a team
only after it has found the caller to be a coach of that team. The audit log, which none of these
functions reads.
-/

namespace NextBallUp.Events

/-- Why the job for the candidate tags failed: what `error_message` tells. -/
inductive ReportFailure
  /-- The tagger itself failed. -/
  | candidateTagsError (message : String)
  | missing
  /-- `OSError`, or the file is no UTF-8. -/
  | unreadable
  | notJson
  | invalid (message : String)
  deriving DecidableEq, Repr

/-- The row of `processing_jobs` for the stage EVENTS. -/
structure EventsJob where
  status : ProcessingJobStatus
  progressPercent : ℕ
  celeryTaskId : TaskId
  errorMessage : Option ReportFailure
  /-- `outputs.events` in its `result_metadata`. -/
  outputs : Option ℕ
  deriving DecidableEq, Repr

structure Db where
  events : List VideoEvent
  /-- The primary key of the next event. -/
  nextId : EventId
  eventsJob : VideoId → Option EventsJob
  /-- `shot_clock_enabled` of the game of a video. -/
  shotClockEnabled : VideoId → Bool
  id_lt : ∀ row ∈ events, row.id < nextId
  nodup_id : (events.map VideoEvent.id).Nodup

namespace Db

/-- No events yet. -/
def empty : Db where
  events := []
  nextId := 0
  eventsJob _ := none
  shotClockEnabled _ := false
  id_lt _ h := (List.not_mem_nil h).elim
  nodup_id := List.nodup_nil

/-- Rows with new primary keys. -/
def numbered (db : Db) (rows : List VideoEvent) : List VideoEvent :=
  rows.mapIdx fun i row => { row with id := db.nextId + i }

theorem mem_numbered {db : Db} {rows : List VideoEvent} {row : VideoEvent} :
    row ∈ db.numbered rows ↔ ∃ i, ∃ h : i < rows.length,
      { rows[i] with id := db.nextId + i } = row := by
  rw [numbered, List.mem_mapIdx]

theorem exists_mem_numbered {db : Db} {rows : List VideoEvent} {row : VideoEvent}
    (h : row ∈ rows) : ∃ i, { row with id := db.nextId + i } ∈ db.numbered rows := by
  obtain ⟨i, hi, rfl⟩ := List.mem_iff_getElem.mp h
  exact ⟨i, mem_numbered.mpr ⟨i, hi, rfl⟩⟩

theorem exists_of_mem_numbered {db : Db} {rows : List VideoEvent} {row : VideoEvent}
    (h : row ∈ db.numbered rows) : ∃ r ∈ rows, ∃ i, row = { r with id := db.nextId + i } := by
  obtain ⟨i, hi, rfl⟩ := mem_numbered.mp h
  exact ⟨_, List.getElem_mem hi, i, rfl⟩

theorem map_id_numbered (db : Db) (rows : List VideoEvent) :
    (db.numbered rows).map VideoEvent.id = (List.range rows.length).map (db.nextId + ·) := by
  refine List.ext_getElem (by simp [numbered]) fun i _ _ => ?_
  simp [numbered]

/-- The table with the new rows. -/
def append (db : Db) (rows : List VideoEvent) : Db where
  events := db.events ++ db.numbered rows
  nextId := db.nextId + rows.length
  eventsJob := db.eventsJob
  shotClockEnabled := db.shotClockEnabled
  id_lt row h := by
    rcases List.mem_append.mp h with h | h
    · exact (db.id_lt row h).trans_le (Nat.le_add_right _ _)
    · obtain ⟨i, hi, rfl⟩ := mem_numbered.mp h
      exact Nat.add_lt_add_left hi _
  nodup_id := by
    rw [List.map_append, map_id_numbered, List.nodup_append']
    refine ⟨db.nodup_id, List.nodup_range.map fun _ _ => Nat.add_left_cancel, ?_⟩
    intro id hold hnew
    obtain ⟨row, hrow, rfl⟩ := List.mem_map.mp hold
    obtain ⟨i, _, hi⟩ := List.mem_map.mp hnew
    exact absurd (hi ▸ db.id_lt row hrow) (Nat.not_lt.mpr (Nat.le_add_right _ _))

/-- New rows, if the table takes them all. -/
def insert (db : Db) (rows : List VideoEvent) : Option Db :=
  if (db.numbered rows).all VideoEvent.fits then some (db.append rows) else none

/-- The row with the primary key of the given one is replaced. -/
def replace (db : Db) (row : VideoEvent) : Db where
  events := db.events.map fun r => if r.id = row.id then row else r
  nextId := db.nextId
  eventsJob := db.eventsJob
  shotClockEnabled := db.shotClockEnabled
  id_lt r h := by
    obtain ⟨r, hr, rfl⟩ := List.mem_map.mp h
    split
    · next he => exact he ▸ db.id_lt r hr
    · exact db.id_lt r hr
  nodup_id := by
    have hid : VideoEvent.id ∘ (fun r => if r.id = row.id then row else r) = VideoEvent.id := by
      funext r
      show (if r.id = row.id then row else r).id = r.id
      split
      · next he => exact he.symm
      · rfl
    rw [List.map_map, hid]
    exact db.nodup_id

theorem mem_replace_self {db : Db} {r row : VideoEvent} (h : r ∈ db.events) (hid : r.id = row.id) :
    row ∈ (db.replace row).events :=
  List.mem_map.mpr ⟨r, h, if_pos hid⟩

theorem mem_replace_of_ne {db : Db} {r row : VideoEvent} (h : r ∈ db.events)
    (hid : r.id ≠ row.id) : r ∈ (db.replace row).events :=
  List.mem_map.mpr ⟨r, h, if_neg hid⟩

/-- The row replaces the one with its primary key, if the table takes it. -/
def update (db : Db) (row : VideoEvent) : Option Db :=
  if row.fits then some (db.replace row) else none

def delete (db : Db) (ids : List EventId) : Db where
  events := db.events.filter fun r => r.id ∉ ids
  nextId := db.nextId
  eventsJob := db.eventsJob
  shotClockEnabled := db.shotClockEnabled
  id_lt row h := db.id_lt row (List.mem_of_mem_filter h)
  nodup_id := db.nodup_id.sublist (List.filter_sublist.map _)

def setJob (db : Db) (videoId : VideoId) (job : EventsJob) : Db where
  events := db.events
  nextId := db.nextId
  eventsJob := Function.update db.eventsJob videoId (some job)
  shotClockEnabled := db.shotClockEnabled
  id_lt := db.id_lt
  nodup_id := db.nodup_id

end Db

section Statements

variable {ε : Type}

def selectEvents (p : VideoEvent → Bool) : Transaction Db Unit ε (List VideoEvent) :=
  Transaction.query fun _ db => .ok (db.events.filter p, db)

/-- `session.add` for each row, and `session.flush`. -/
def insertEvents (refused : ε) (rows : List VideoEvent) :
    Transaction Db Unit ε (List VideoEvent) :=
  Transaction.query fun _ db =>
    match db.insert rows with
    | some db' => .ok (db.numbered rows, db')
    | none => .error refused

theorem insertEvents_apply (refused : ε) (rows : List VideoEvent)
    (s : Transaction.Session Db Unit) :
    insertEvents refused rows s =
      match s.working.insert rows with
      | some db => (.ok (s.working.numbered rows), { s with working := db })
      | none => (.error refused, s) := by
  unfold insertEvents Transaction.query
  dsimp only
  cases s.working.insert rows <;> rfl

/-- `session.add` for one row, and `session.flush`. -/
def insertEvent (refused : ε) (row : VideoEvent) : Transaction Db Unit ε VideoEvent :=
  Transaction.query fun _ db =>
    match db.insert [row] with
    | some db' => .ok ({ row with id := db.nextId }, db')
    | none => .error refused

def updateEvent (refused : ε) (row : VideoEvent) : Transaction Db Unit ε Unit :=
  Transaction.query fun _ db =>
    match db.update row with
    | some db' => .ok ((), db')
    | none => .error refused

def deleteEvents (ids : List EventId) : Transaction Db Unit ε Unit :=
  Transaction.query fun _ db => .ok ((), db.delete ids)

def selectEventsJob (videoId : VideoId) : Transaction Db Unit ε (Option EventsJob) :=
  Transaction.query fun _ db => .ok (db.eventsJob videoId, db)

def setEventsJob (videoId : VideoId) (job : EventsJob) : Transaction Db Unit ε Unit :=
  Transaction.query fun _ db => .ok ((), db.setJob videoId job)

def selectShotClockEnabled (videoId : VideoId) : Transaction Db Unit ε Bool :=
  Transaction.query fun _ db => .ok (db.shotClockEnabled videoId, db)

theorem selectShotClockEnabled_apply (videoId : VideoId) (s : Transaction.Session Db Unit) :
    (selectShotClockEnabled videoId : Transaction Db Unit ε Bool) s =
      (.ok (s.working.shotClockEnabled videoId), s) := rfl

def commit : Transaction Db Unit ε Unit := Transaction.commit ()

/-- What a function without statements returns or raises. -/
def ofExcept {α : Type} : Except ε α → Transaction Db Unit ε α
  | .ok a => pure a
  | .error e => throw e

end Statements

/-- What a program makes of the tables. -/
def Db.after {ε α : Type} (db : Db) (m : Transaction Db Unit ε α) : Db := m.result ⟨db, db, ()⟩

end NextBallUp.Events
