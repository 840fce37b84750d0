import NextBallUp.Games.Requests

/-!
# Updates that overlap

The number of seconds of the shot clock is there if and only if the clock is enabled, and a coach
does not take a game out of a terminal status. A request checks both on the game that it has read.
Its `UPDATE` then writes some of the columns of a row that may have become another one.

## Main definitions

* `Row.IsValid`: the rule about the shot clock
* `KeepsGames`: what a turn of a request does to the games
* `isUndisturbed`, `IsUndisturbed`: what a request may find when it writes

## Main results

* `isValid_merge_iff`, `status_merge_iff`: **when a row is still right after the `UPDATE`**
* `keepsGames_of_reach`: **games stay right as long as no request is disturbed**
* `exists_not_keepsGames`: the clock is disabled while another request sets its seconds
-/

namespace NextBallUp.Games

variable {request : Request} {game game' : Game} {edited row : Row} {w : World} {pid j : Pid}
  {a : Answer} {p p' q : Proc} {f : Effect} {written : Option Game}

/-! ### Rows -/

/-- The shot clock has seconds if and only if it is enabled. -/
def Row.IsValid (row : Row) : Prop :=
  row .shotClockSeconds ≠ none ↔ row .shotClockEnabled = some true

def Row.isTerminal (row : Row) : Bool := (row .status).any GameStatus.isTerminal

theorem checkShotClock_ok (h : checkShotClock row = .ok edited) :
    edited.IsValid ∧ ∀ c, c ≠ .shotClockSeconds → edited c = row c := by
  rw [checkShotClock] at h
  split_ifs at h with henabled hseconds
  · obtain rfl := Except.ok.inj h
    refine ⟨?_, fun c hc => Function.update_of_ne hc _ _⟩
    rw [Row.IsValid, Function.update_self, Function.update_of_ne (by decide)]
    exact iff_of_false (not_not.mpr rfl) henabled
  · obtain rfl := Except.ok.inj h
    exact ⟨iff_of_true hseconds (not_not.mp henabled), fun _ _ => rfl⟩

/-- What a request has made of its game is valid, whatever the game was. -/
theorem isValid_of_edit (h : edit request game = .ok edited) : edited.IsValid := by
  rw [edit] at h
  split_ifs at h
  exact (checkShotClock_ok h).1

/-- A coach has not taken the game out of a terminal status. -/
theorem status_of_edit (h : edit request game = .ok edited) (hcoach : request.isAdmin = false)
    (hsome : (edited .status).isSome = true) (hterminal : game.get.isTerminal = true) :
    edited .status = game.get .status := by
  rw [edit] at h
  split_ifs at h with hforbidden
  have hstatus : edited .status = assign request.payload.updates game.get .status :=
    (checkShotClock_ok h).2 _ (by decide)
  rw [hstatus] at hsome ⊢
  rw [assign] at hsome ⊢
  cases hupdate : request.payload.updates .status with
  | none => rfl
  | some new =>
    rw [hupdate] at hsome
    obtain ⟨newStatus, hnew⟩ := Option.isSome_iff_exists.mp hsome
    obtain rfl : new = some newStatus := hnew
    by_contra hne
    refine hforbidden ?_
    have hne' : game.get .status ≠ some newStatus := fun heq => hne heq.symm
    simp only [forbidden, hupdate, hcoach, decide_eq_true hne', Bool.not_false, Bool.and_true]
    exact hterminal

/-! ### What the `UPDATE` makes of a row -/

theorem merge_of_writes {c : Column} (h : Writes game edited c) :
    merge game edited row c = edited c := if_pos h

theorem merge_of_not_writes {c : Column} (h : ¬ Writes game edited c) :
    merge game edited row c = row c := if_neg h

/-- **The rule about the shot clock** holds of the row if and only if the clock is as the request
has read it, in case that it writes the seconds alone. -/
theorem isValid_merge_iff (hgame : game.get.IsValid) (hedited : edited.IsValid) (hrow : row.IsValid)
    (hsome : (merge game edited row .shotClockEnabled).isSome = true) :
    (merge game edited row).IsValid ↔ (Writes game edited .shotClockSeconds →
      ¬ Writes game edited .shotClockEnabled →
        row .shotClockEnabled = game.get .shotClockEnabled) := by
  rw [Row.IsValid] at hgame hedited
  by_cases henabled : Writes game edited .shotClockEnabled
  · refine iff_of_true ?_ fun _ h => (h henabled).elim
    rw [Row.IsValid, merge_of_writes henabled]
    by_cases hseconds : Writes game edited .shotClockSeconds
    · rwa [merge_of_writes hseconds]
    · -- The flag does not change alone, as it is not `NULL` before and after.
      rw [merge_of_writes henabled] at hsome
      rw [not_not] at hseconds
      rw [hseconds, hgame] at hedited
      obtain ⟨b, hb⟩ := Option.isSome_iff_exists.mp hsome
      obtain ⟨b', hb'⟩ := Option.isSome_iff_exists.mp (game.isSome_get .shotClockEnabled rfl)
      rw [hb, hb', Option.some.injEq, Option.some.injEq, Bool.coe_iff_coe] at hedited
      have heq : edited .shotClockEnabled = game.get .shotClockEnabled := by
        rw [hb, hb', hedited]
      exact (henabled heq).elim
  · by_cases hseconds : Writes game edited .shotClockSeconds
    · rw [Row.IsValid, merge_of_writes hseconds, merge_of_not_writes henabled]
      rw [not_not] at henabled
      have htrue : edited .shotClockEnabled = some true := by
        by_contra hfalse
        have hnone : edited .shotClockSeconds = none := not_not.mp fun h => hfalse (hedited.mp h)
        have hnone' : game.get .shotClockSeconds = none := by
          rw [henabled] at hfalse
          exact not_not.mp fun h => hfalse (hgame.mp h)
        exact hseconds (hnone.trans hnone'.symm)
      rw [iff_true_left (hedited.mpr htrue), ← henabled, htrue]
      exact ⟨fun h _ _ => h, fun h => h hseconds (not_not.mpr henabled)⟩
    · refine iff_of_true ?_ fun h => (hseconds h).elim
      rw [Row.IsValid, merge_of_not_writes hseconds, merge_of_not_writes henabled]
      exact hrow

/-- **A terminal status** stays if and only if it is the one that the coach has read or writes, in
case that the request writes it. -/
theorem status_merge_iff (hedit : edit request game = .ok edited) (hcoach : request.isAdmin = false)
    (hsome : (merge game edited row .status).isSome = true) (hterminal : row.isTerminal = true) :
    merge game edited row .status = row .status ↔ (Writes game edited .status →
      row .status = game.get .status ∨ row .status = edited .status) := by
  by_cases hwrites : Writes game edited .status
  · rw [merge_of_writes hwrites] at hsome ⊢
    constructor
    · intro heq _
      exact .inr heq.symm
    · intro h
      rcases h hwrites with heq | heq
      · have hterminal' : game.get.isTerminal = true := by
          rwa [Row.isTerminal, ← heq]
        exact (hwrites (status_of_edit hedit hcoach hsome hterminal')).elim
      · exact heq.symm
  · exact iff_of_true (merge_of_not_writes hwrites) fun h => (hwrites h).elim

/-! ### One turn -/

/-- The request has been answered with the game, or has committed. -/
def Pc.hasSucceeded : Pc → Bool
  | .refresh | .done _ => true
  | _ => false

/-- The row as the request finds it when it writes: the flag of the shot clock is the one that it
has read, if it writes the seconds alone, and a coach who writes the status finds no terminal one,
but for the one that they have read or write. -/
def isUndisturbed (request : Request) (game : Game) (edited row : Row) : Bool :=
  (!Writes game edited .shotClockSeconds || Writes game edited .shotClockEnabled ||
      row .shotClockEnabled = game.get .shotClockEnabled) &&
    (request.isAdmin || !row.isTerminal || !Writes game edited .status ||
      row .status = game.get .status || row .status = edited .status)

/-- The request is not disturbed in this turn. -/
def isUndisturbedTurn (c : State) (i : Pid) : Bool :=
  match (c.procs i).pc, c.world.row (c.procs i).request.gameId with
  | .flush game edited, some row => isUndisturbed (c.procs i).request game edited row.get
  | _, _ => true

/-- The condition on the turns of a run. -/
def IsUndisturbed (c : State) (i : Pid) (_ : Answer) : Prop := isUndisturbedTurn c i = true

instance (c : State) (i : Pid) (a : Answer) : Decidable (IsUndisturbed c i a) :=
  inferInstanceAs (Decidable (_ = true))

/-- The request owns the row that it is going to replace by this game. -/
structure Replaces (pid : Pid) (request : Request) (w : World) (game row : Game) : Prop where
  owns : w.Owns pid request.gameId (some row)
  isValid : game.get.IsValid
  status : request.isAdmin = false → row.get.isTerminal = true →
    game.get .status = row.get .status

/-- What is known where a request stands. -/
def Pc.Holds (pid : Pid) (request : Request) (w : World) : Pc → Prop
  | .load | .done _ | .failed _ => True
  | .readTeam game | .readMembership game =>
    game.get.IsValid ∧ (w.row request.gameId).isSome = true
  | .flush game edited =>
    game.get.IsValid ∧ (w.row request.gameId).isSome = true ∧ edit request game = .ok edited
  | .writeAudit written | .commit written =>
    (w.row request.gameId).isSome = true ∧
      ∀ game ∈ written, ∃ row, Replaces pid request w game row
  | .refresh => (w.row request.gameId).isSome = true

/-- What a turn may do. -/
inductive Effect.Permitted (pid : Pid) (request : Request) (w : World) (pc : Pc) : Effect → Prop
  | skip : Permitted pid request w pc .skip
  | lock : w.Free pid request.gameId → Permitted pid request w pc (.lock request.gameId)
  | commit {written : Option Game} : pc = .refresh →
      (∀ game ∈ written, ∃ row, Replaces pid request w game row) →
      Permitted pid request w pc
        (.commit (written.map fun game => (request.gameId, game)).toList)
  | rollback : Permitted pid request w pc .rollback

theorem isUndisturbed_iff : isUndisturbed request game edited row = true ↔
    (Writes game edited .shotClockSeconds → ¬ Writes game edited .shotClockEnabled →
      row .shotClockEnabled = game.get .shotClockEnabled) ∧
    (request.isAdmin = false → row.isTerminal = true → Writes game edited .status →
      row .status = game.get .status ∨ row .status = edited .status) := by
  simp only [isUndisturbed, Bool.and_eq_true, Bool.or_eq_true, Bool.not_eq_true',
    decide_eq_true_eq, decide_eq_false_iff_not]
  refine and_congr ?_ ?_
  · tauto
  · cases request.isAdmin
    · cases row.isTerminal
      · simp
      · simp only [Bool.false_eq_true, false_or, Bool.true_eq_false, true_implies]
        tauto
    · simp

/-- What is known of a turn that a request takes. -/
structure Sound (pid : Pid) (request : Request) (w : World) (pc pc' : Pc) (f : Effect) : Prop where
  permitted : f.Permitted pid request w pc'
  holds : pc'.Holds pid request (w.apply pid f)
  hasSucceeded : pc.hasSucceeded = true → pc'.hasSucceeded = true

theorem sound_raises {pc : Pc} (failure : Failure) (h : pc.hasSucceeded = false) :
    Sound pid request w pc (.failed failure) .rollback where
  permitted := .rollback
  holds := trivial
  hasSucceeded hpc := by
    rw [h] at hpc
    cases hpc

/-- A statement is refused, or does what it does. -/
theorem sound_guard {pc pc' : Pc} {turn : Turn} (hpc : pc.hasSucceeded = false)
    (hturn : turn = some (pc', f) → Sound pid request w pc pc' f)
    (h : a.guard turn = some (pc', f)) : Sound pid request w pc pc' f := by
  cases a with
  | ok => exact hturn h
  | refused failure =>
    cases h
    exact sound_raises failure hpc

/-- The `UPDATE` of a request that is not disturbed. -/
theorem flush_sound {pc' : Pc} (hrows : ∀ gameId game, w.row gameId = some game → game.get.IsValid)
    (hgame : game.get.IsValid) (hsome : (w.row request.gameId).isSome = true)
    (hedit : edit request game = .ok edited)
    (hundisturbed : ∀ row, w.row request.gameId = some row →
      isUndisturbed request game edited row.get = true)
    (h : flush pid request.gameId game edited w = some (pc', f)) :
    Sound pid request w (.flush game edited) pc' f := by
  rw [flush] at h
  split_ifs at h with hsame
  · cases h
    exact ⟨.skip, ⟨hsome, fun game hmem => (Option.not_mem_none game hmem).elim⟩, fun h => h⟩
  · obtain ⟨found, hfound, hturn⟩ := Table.locate_eq_some.mp h
    cases hfound with
    | miss _ =>
      cases hturn
      exact sound_raises _ rfl
    | @hit row hrow _ hfree =>
      dsimp only at hturn
      split_ifs at hturn with hrequired
      · cases hturn
        obtain ⟨hclock, hstatus⟩ := isUndisturbed_iff.mp (hundisturbed row hrow)
        refine ⟨.lock hfree, ⟨hsome, fun game' hmem => ?_⟩, fun h => h⟩
        obtain rfl := Option.some.inj hmem
        refine ⟨row, ?_, ?_, fun hcoach hterminal => ?_⟩
        · rw [← hrow]
          exact Table.owns_acquireAll List.mem_cons_self
        · exact (isValid_merge_iff hgame (isValid_of_edit hedit) (hrows _ _ hrow)
            (hrequired _ rfl)).mpr hclock
        · exact (status_merge_iff hedit hcoach (hrequired _ rfl) hterminal).mpr
            (hstatus hcoach hterminal)
      · cases hturn
        exact sound_raises _ rfl

/-- **One turn** of a request that is not disturbed. -/
theorem turn_sound {pc pc' : Pc}
    (hrows : ∀ gameId game, w.row gameId = some game → game.get.IsValid)
    (hpc : pc.Holds pid request w)
    (hundisturbed : ∀ game edited row, pc = .flush game edited →
      w.row request.gameId = some row → isUndisturbed request game edited row.get = true)
    (h : Proc.turn pid a request w pc = some (pc', f)) : Sound pid request w pc pc' f := by
  cases pc with
  | load =>
    refine sound_guard rfl (fun hturn => ?_) h
    cases hrow : w.row request.gameId with
    | none =>
      rw [hrow] at hturn
      cases hturn
      exact sound_raises _ rfl
    | some game =>
      rw [hrow] at hturn
      cases hturn
      exact ⟨.skip, ⟨hrows _ _ hrow, Option.isSome_of_eq_some hrow⟩, fun h => h⟩
  | readTeam game =>
    refine sound_guard rfl (fun hturn => ?_) h
    cases hturn
    exact ⟨.skip, hpc, fun h => h⟩
  | readMembership game =>
    refine sound_guard rfl (fun hturn => ?_) h
    split_ifs at hturn
    · cases hturn
      exact ⟨.rollback, trivial, fun _ => rfl⟩
    · cases hedit : edit request game with
      | error failure =>
        rw [hedit] at hturn
        cases hturn
        exact sound_raises _ rfl
      | ok edited =>
        rw [hedit] at hturn
        cases hturn
        exact ⟨.skip, ⟨hpc.1, hpc.2, hedit⟩, fun h => h⟩
  | flush game edited =>
    refine sound_guard rfl (fun hturn => ?_) h
    obtain ⟨hgame, hsome, hedit⟩ := hpc
    exact flush_sound hrows hgame hsome hedit (fun row => hundisturbed game edited row rfl) hturn
  | writeAudit written =>
    refine sound_guard rfl (fun hturn => ?_) h
    cases hturn
    exact ⟨.skip, hpc, fun h => h⟩
  | commit written =>
    refine sound_guard rfl (fun hturn => ?_) h
    cases hturn
    refine ⟨.commit rfl hpc.2, ?_, fun _ => rfl⟩
    show (((w.putAll _).release pid).row request.gameId).isSome = true
    cases written with
    | none => exact hpc.1
    | some game => simp [Table.putAll, Table.put]
  | refresh =>
    obtain ⟨game, hrow⟩ := Option.isSome_iff_exists.mp hpc
    rw [Proc.turn, hrow] at h
    cases h
    exact ⟨.rollback, trivial, fun _ => rfl⟩
  | done _ | failed _ => cases h

/-! ### Runs -/

/-- Rows change only when a request commits, which is then about to be answered. -/
theorem Effect.Permitted.row_cases {pc : Pc} (h : f.Permitted pid request w pc) :
    (w.apply pid f).row = w.row ∨ pc = .refresh ∧ ∃ game row, Replaces pid request w game row ∧
      (w.apply pid f).row = fun gameId =>
        if gameId = request.gameId then some game else w.row gameId := by
  cases h with
  | skip | lock _ | rollback => exact .inl rfl
  | @commit written hpc hreplaces =>
    cases written with
    | none => exact .inl rfl
    | some game =>
      obtain ⟨row, hrow⟩ := hreplaces game rfl
      exact .inr ⟨hpc, game, row, hrow, rfl⟩

theorem Effect.Permitted.isSome_row {pc : Pc} (h : f.Permitted pid request w pc) {gameId : GameId}
    (hsome : (w.row gameId).isSome = true) : ((w.apply pid f).row gameId).isSome = true := by
  rcases h.row_cases with heq | ⟨-, game, row, -, heq⟩
  · rwa [heq]
  · rw [heq]
    dsimp only
    split_ifs
    · rfl
    · exact hsome

theorem Effect.Permitted.respects {pc : Pc} (h : f.Permitted pid request w pc) :
    Table.Respects pid w (w.apply pid f) := by
  cases h with
  | skip => exact Table.Respects.refl _ _
  | lock hfree =>
    refine Table.respects_acquireAll fun gameId hmem => ?_
    rwa [List.mem_singleton.mp hmem]
  | @commit written _ hreplaces =>
    refine (Table.respects_putAll fun e he => ?_).trans (Table.respects_release _ _)
    obtain ⟨game, hgame, rfl⟩ := Option.map_eq_some_iff.mp (Option.mem_toList.mp he)
    obtain ⟨row, hrow⟩ := hreplaces game hgame
    exact hrow.owns.free
  | rollback => exact Table.respects_release _ _

/-- What is known of a request stays so while another one takes a turn. -/
theorem Pc.Holds.other {pc pc' : Pc} {request' : Request} (hj : j ≠ pid)
    (hf : f.Permitted pid request w pc) (h : pc'.Holds j request' w) :
    pc'.Holds j request' (w.apply pid f) := by
  have hreplaces {game row : Game} (h : Replaces j request' w game row) :
      Replaces j request' (w.apply pid f) game row :=
    ⟨hf.respects j hj _ _ h.owns, h.isValid, h.status⟩
  cases pc' with
  | load | done _ | failed _ => trivial
  | readTeam game | readMembership game => exact ⟨h.1, hf.isSome_row h.2⟩
  | flush game edited => exact ⟨h.1, hf.isSome_row h.2.1, h.2.2⟩
  | writeAudit written | commit written =>
    refine ⟨hf.isSome_row h.1, fun game hgame => ?_⟩
    obtain ⟨row, hrow⟩ := h.2 game hgame
    exact ⟨row, hreplaces hrow⟩
  | refresh => exact hf.isSome_row h

/-- The games are valid, and no request has begun. -/
structure State.IsInitial (c : State) : Prop where
  rows : ∀ gameId game, c.world.row gameId = some game → game.get.IsValid
  start : ∀ i, (c.procs i).pc = .load

/-- The invariant of the whole system. -/
structure State.Sound (c : State) : Prop where
  rows : ∀ gameId game, c.world.row gameId = some game → game.get.IsValid
  procs : ∀ i, (c.procs i).pc.Holds i (c.procs i).request c.world

/-- What a turn of request `i` does to the games: they are valid behind it, a coach leaves those
with a terminal status in it, and they change only for a request that succeeds. -/
structure KeepsGames (c c' : State) (i : Pid) : Prop where
  isValid : ∀ gameId game, c'.world.row gameId = some game → game.get.IsValid
  status : (c.procs i).request.isAdmin = false → ∀ gameId row, c.world.row gameId = some row →
    row.get.isTerminal = true →
      ∃ game, c'.world.row gameId = some game ∧ game.get .status = row.get .status
  unchanged : (c'.procs i).pc.hasSucceeded = false → c'.world.row = c.world.row
  /-- Whoever has succeeded does not fail later. -/
  hasSucceeded : (c.procs i).pc.hasSucceeded = true → (c'.procs i).pc.hasSucceeded = true

theorem State.IsInitial.sound {c : State} (h : c.IsInitial) : c.Sound where
  rows := h.rows
  procs i := by
    rw [h.start i]
    trivial

/-- A turn that is not disturbed. -/
theorem State.Sound.next {c c' : State} {i : Pid} (h : c.Sound) (hundisturbed : IsUndisturbed c i a)
    (hnext : system.next c i a = some c') : c'.Sound ∧ KeepsGames c c' i := by
  obtain ⟨p', f, hs, rfl⟩ := Machine.next_ofEffects_eq_some.mp hnext
  obtain ⟨⟨pc', f'⟩, hturn, heq⟩ := Option.map_eq_some_iff.mp hs
  cases heq
  have hsound := turn_sound h.rows (h.procs i) (fun game edited row hpc hrow => by
    rw [IsUndisturbed, isUndisturbedTurn, hpc, hrow] at hundisturbed
    exact hundisturbed) hturn
  have hrows : ∀ gameId game, (c.world.apply i f').row gameId = some game → game.get.IsValid := by
    intro gameId game hrow
    rcases hsound.permitted.row_cases with heq | ⟨-, game', row, hreplaces, heq⟩
    · rw [heq] at hrow
      exact h.rows _ _ hrow
    · rw [heq] at hrow
      dsimp only at hrow
      split_ifs at hrow
      · rw [← Option.some.inj hrow]
        exact hreplaces.isValid
      · exact h.rows _ _ hrow
  refine ⟨⟨hrows, fun j => ?_⟩, ⟨hrows, fun hcoach gameId row hrow hterminal => ?_, ?_, ?_⟩⟩
  · by_cases hj : j = i
    · subst hj
      simpa using hsound.holds
    · simpa [Function.update_of_ne hj] using (h.procs j).other hj hsound.permitted
  · rcases hsound.permitted.row_cases with heq | ⟨-, game', row', hreplaces, heq⟩
    · exact ⟨row, (congrFun heq gameId).trans hrow, rfl⟩
    · by_cases hid : gameId = (c.procs i).request.gameId
      · have hrow' : c.world.row gameId = some row' := hid ▸ hreplaces.owns.2
        rw [hrow] at hrow'
        obtain rfl := Option.some.inj hrow'
        exact ⟨game', (congrFun heq gameId).trans (if_pos hid), hreplaces.status hcoach hterminal⟩
      · exact ⟨row, (congrFun heq gameId).trans ((if_neg hid).trans hrow), rfl⟩
  · intro hfails
    rcases hsound.permitted.row_cases with heq | ⟨hpc, -⟩
    · exact heq
    · have hfails' : pc'.hasSucceeded = false := by simpa using hfails
      have hrefresh : pc' = .refresh := hpc
      rw [hrefresh] at hfails'
      cases hfails'
  · simpa using hsound.hasSucceeded

theorem sound_of_reach {c : State} (h : system.Reach State.IsInitial IsUndisturbed c) : c.Sound :=
  h.invariant (fun _ => State.IsInitial.sound) fun _ _ _ _ hc hok hnext => (hc.next hok hnext).1

/-- **Games stay right** as long as no request is disturbed. -/
theorem keepsGames_of_reach {c : State} (h : system.Reach State.IsInitial IsUndisturbed c) :
    (∀ gameId game, c.world.row gameId = some game → game.get.IsValid) ∧
      ∀ i a c', IsUndisturbed c i a → system.next c i a = some c' → KeepsGames c c' i :=
  ⟨(sound_of_reach h).rows, fun _ _ _ hok hnext => ((sound_of_reach h).next hok hnext).2⟩

/-! ### Overlapping updates -/

/-- A game in progress, with a shot clock. -/
def sampleGame : Game where
  get
    | .isHome => some true
    | .periods => some 4
    | .periodLengthMinutes => some 8
    | .shotClockEnabled => some true
    | .shotClockSeconds => some 24
    | .status => some .processing
    | _ => none
  isSome_get := by decide

/-- A payload of one number of seconds. -/
def setSeconds : UpdateGameRequest where
  updates
    | .shotClockSeconds => some (some 30)
    | _ => none
  admits c v h := by
    cases c
    case shotClockSeconds =>
      cases h
      rfl
    all_goals cases h
  enabling h := by cases h
  disabling h := by cases h

/-- A payload that disables the shot clock. -/
def disable : UpdateGameRequest where
  updates
    | .shotClockEnabled => some (some false)
    | _ => none
  admits c v h := by
    cases c
    case shotClockEnabled => rfl
    all_goals cases h
  enabling h := by cases h
  disabling _ n h := by cases h

/-- A payload of one status. -/
def setStatus (status : GameStatus) : UpdateGameRequest where
  updates
    | .status => some (some status)
    | _ => none
  admits c v h := by
    cases c
    case status => rfl
    all_goals cases h
  enabling h := by cases h
  disabling h := by cases h

/-- Four coaches: the first two update the shot clock of a game, and the others its status. -/
def sampleStart : State where
  procs
    | 0 => ⟨⟨0, setSeconds, false⟩, .load⟩
    | 1 => ⟨⟨0, disable, false⟩, .load⟩
    | 2 => ⟨⟨0, setStatus .completed, false⟩, .load⟩
    | _ => ⟨⟨0, setStatus .uploading, false⟩, .load⟩
  world := .unlocked fun _ => some sampleGame

theorem isInitial_sampleStart : sampleStart.IsInitial where
  rows gameId game h := by
    obtain rfl := Option.some.inj h
    exact iff_of_true (by decide) rfl
  start i := by
    match i with
    | 0 | 1 | 2 | _ + 3 => rfl

/-- The turns in which a request reads. -/
def reads (i : Pid) : List (Pid × Answer) := List.replicate 3 (i, .ok)

/-- The turns in which it writes and commits. -/
def writes (i : Pid) : List (Pid × Answer) := List.replicate 3 (i, .ok)

/-- The clock is disabled after its seconds are set, and the game ends in between. -/
theorem exists_keepsGames_of_reach : ∃ c : State,
    ((c.world.row 0).any fun game => game.get .shotClockEnabled = some false &&
      game.get .status = some .completed) = true ∧
    ∀ gameId game, c.world.row gameId = some game → game.get.IsValid := by
  obtain ⟨c, hreach, hrun⟩ := Machine.exists_reach_of_exec system IsUndisturbed
    isInitial_sampleStart (reads 0 ++ reads 2 ++ writes 0 ++ reads 1 ++ writes 2 ++ writes 1)
    (fun c => (c.world.row 0).any fun game => game.get .shotClockEnabled = some false &&
      game.get .status = some .completed) (by decide +kernel)
  exact ⟨c, hrun, (keepsGames_of_reach hreach).1⟩

/-- **Both rules are broken.** The seconds are written to a clock that has been disabled, and a
coach takes a game out of the terminal status to which it has come since they read it. -/
theorem exists_not_keepsGames :
    (∃ c, system.Reach State.IsInitial Machine.Always c ∧
      ∃ gameId game, c.world.row gameId = some game ∧ ¬ game.get.IsValid) ∧
    ∃ c i a c', system.Reach State.IsInitial Machine.Always c ∧ system.next c i a = some c' ∧
      (c.procs i).request.isAdmin = false ∧
      ∃ gameId row game, c.world.row gameId = some row ∧ row.get.isTerminal = true ∧
        c'.world.row gameId = some game ∧ game.get .status ≠ row.get .status := by
  constructor
  · obtain ⟨c, hreach, hrun⟩ := Machine.exists_reach_of_exec system Machine.Always
      isInitial_sampleStart (reads 0 ++ reads 1 ++ writes 1 ++ writes 0)
      (fun c => (c.world.row 0).any fun game => game.get .shotClockEnabled = some false &&
        game.get .shotClockSeconds = some 30) (by decide +kernel)
    obtain ⟨game, hrow, hgame⟩ := (Option.any_eq_true _ _).mp hrun
    rw [Bool.and_eq_true, decide_eq_true_iff, decide_eq_true_iff] at hgame
    refine ⟨c, hreach, 0, game, hrow, fun hvalid => ?_⟩
    rw [Row.IsValid, hgame.1, hgame.2] at hvalid
    exact absurd hvalid (by decide)
  · obtain ⟨c, hreach, hrun⟩ := Machine.exists_reach_of_exec system Machine.Always
      isInitial_sampleStart (reads 3 ++ reads 2 ++ writes 2 ++ (writes 3).take 2)
      (fun c => !(c.procs 3).request.isAdmin &&
        (c.world.row 0).any (fun row => row.get .status = some .completed) &&
        (system.next c 3 .ok).any fun c' => (c'.world.row 0).any fun game =>
          game.get .status = some .uploading) (by decide +kernel)
    rw [Bool.and_eq_true, Bool.and_eq_true, Bool.not_eq_true'] at hrun
    obtain ⟨⟨hcoach, hbefore⟩, hafter⟩ := hrun
    obtain ⟨row, hrow, hcompleted⟩ := (Option.any_eq_true _ _).mp hbefore
    obtain ⟨c', hnext, hafter⟩ := (Option.any_eq_true _ _).mp hafter
    obtain ⟨game, hgame, huploading⟩ := (Option.any_eq_true _ _).mp hafter
    rw [decide_eq_true_iff] at hcompleted huploading
    refine ⟨c, 3, .ok, c', hreach, hnext, hcoach, 0, row, game, hrow, ?_, hgame, ?_⟩
    · rw [Row.isTerminal, hcompleted]
      rfl
    · rw [huploading, hcompleted]
      decide

end NextBallUp.Games
