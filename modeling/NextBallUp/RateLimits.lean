import NextBallUp.ClientIp
import NextBallUp.Lib.ExpiringStore
import NextBallUp.Lib.Strings
import NextBallUp.Preview.Rows

/-!
# Rate limits

The routes count the attempts of a client, by scope, address and subject, in Redis. A script begins
a window of time with the first attempt, and the attempts after the first `max_attempts` of a window
are refused. If Redis cannot be reached, staging and production refuse, and development does not.

## Main definitions

* `enforceRateLimit`: what a route calls
* `run`: calls one after another, from all clients
* `rateLimitKey`: the key under which a call is counted

## Main results

* `run_filter`: calls with other keys change nothing
* `filter_countsFor_run`: **the counts are those of fixed windows**
* `length_filter_passed_le`: **how many attempts pass in an interval**
* `passes_after_retry`: a client that waits as it was told passes
* `outcomes_eq_of_filter_eq`: no client can use up the attempts of another one

## What is deliberately absent

Redis losing its data. Its clock does not go back.
-/

namespace NextBallUp.RateLimits

open Expiring (Store)
open Expiring.Store (secondsLeft entryOf)
open FixedWindow (Window)

/-! ### The code -/

structure Settings where
  /-- `redis_url` -/
  redisUrl : Option (List ℕ)
  trustedProxyIps : List (List ℕ)
  appEnv : Preview.AppEnv
  rateLimitFailClosed : Option Bool

/-- `should_rate_limit_fail_closed` -/
def Settings.shouldRateLimitFailClosed (settings : Settings) : Bool :=
  match settings.rateLimitFailClosed with
  | some failClosed => failClosed
  | none => settings.appEnv = .staging || settings.appEnv = .production

/-- `bool(settings.redis_url)` -/
def Settings.hasRedis (settings : Settings) : Bool := settings.redisUrl.any (· ≠ [])

/-- What becomes of the script of a call. -/
inductive Answer
  | returned
  /-- The script has run, but its answer is lost. -/
  | lost
  | refused
  deriving DecidableEq

/-- The arguments of a call, and how Redis takes it. -/
structure Call where
  request : ClientIp.Request
  scope : List ℕ
  subject : List ℕ
  maxAttempts : ℤ
  windowSeconds : ℤ
  /-- The clock of Redis, in milliseconds. -/
  now : ℕ
  answer : Answer

inductive Outcome
  | passed
  | tooManyRequests (retryAfterSeconds limit windowSeconds : ℤ)
  | serviceUnavailable (message : String)
  deriving DecidableEq

variable (U : Unicode) (settings : Settings)

/-- `client_ip(request) or "unknown"` -/
def peerIp (request : ClientIp.Request) : List ℕ :=
  match ClientIp.clientIp settings.trustedProxyIps request with
  | some address => if address = [] then "unknown".codePoints else address
  | none => "unknown".codePoints

/-- `subject.strip().lower()` -/
def subjectKey (subject : List ℕ) : List ℕ := U.lower (strip isWhitespace subject)

/-- The key of the call. -/
def rateLimitKey (call : Call) : List ℕ :=
  "rate_limit:".codePoints ++ (call.scope ++ 58 :: (peerIp settings call.request ++
    58 :: subjectKey U call.subject))

/-- Redis could not be asked. -/
def unavailable (message : String) : Outcome :=
  if settings.shouldRateLimitFailClosed then .serviceUnavailable message else .passed

/-- The script has returned the count and the seconds that are left. -/
def judged (call : Call) (result : ℤ × ℤ) : Outcome :=
  let (count, retryAfter) := result
  if call.maxAttempts < count then
    .tooManyRequests (max retryAfter 1) call.maxAttempts call.windowSeconds
  else .passed

/-- `enforce_rate_limit` -/
def enforceRateLimit (redis : Store (List ℕ)) (call : Call) : Outcome × Store (List ℕ) :=
  if settings.hasRedis then
    let (result, redis') :=
      redis.countHit call.now (rateLimitKey U settings call) call.windowSeconds
    match call.answer with
    | .returned => (judged call result, redis')
    | .lost => (unavailable settings "Rate limiting is unavailable", redis')
    | .refused => (unavailable settings "Rate limiting is unavailable", redis)
  else (unavailable settings "Rate limiting is not configured", redis)

/-- The calls with their outcomes. -/
def run : Store (List ℕ) → List Call → List (Call × Outcome)
  | _, [] => []
  | redis, call :: calls =>
    let (outcome, redis) := enforceRateLimit U settings redis call
    (call, outcome) :: run redis calls

/-- What the calls leave in Redis. -/
def after : Store (List ℕ) → List Call → Store (List ℕ)
  | redis, [] => redis
  | redis, call :: calls => after (enforceRateLimit U settings redis call).2 calls

/-- The script of the call runs. -/
def isCounted (call : Call) : Bool := settings.hasRedis && call.answer ≠ .refused

/-- Redis, in production. -/
def sampleSettings : Settings where
  redisUrl := some "redis://redis:6379/0".codePoints
  trustedProxyIps := []
  appEnv := .production
  rateLimitFailClosed := none

/-- A login, with two attempts a minute. -/
def sampleLogin (email : String) (now : ℕ) : Call where
  request := ⟨none, none⟩
  scope := "auth_login".codePoints
  subject := email.codePoints
  maxAttempts := 2
  windowSeconds := 60
  now := now
  answer := .returned

/-! ### One key -/

variable {U settings} {redis redis' : Store (List ℕ)} {call : Call} {calls : List Call}
    {key : List ℕ}

theorem run_cons (redis : Store (List ℕ)) (call : Call) (calls : List Call) :
    run U settings redis (call :: calls) = (call, (enforceRateLimit U settings redis call).1) ::
      run U settings (enforceRateLimit U settings redis call).2 calls := rfl

theorem enforceRateLimit_of_isCounted (h : isCounted settings call = true) :
    (enforceRateLimit U settings redis call).2 =
      (redis.countHit call.now (rateLimitKey U settings call) call.windowSeconds).2 := by
  obtain ⟨hredis, hanswer⟩ := (Bool.and_eq_true _ _).mp h
  rw [enforceRateLimit, if_pos hredis]
  cases he : call.answer with
  | returned => rfl
  | lost => rfl
  | refused => exact (of_decide_eq_true hanswer he).elim

theorem enforceRateLimit_of_not_isCounted (h : isCounted settings call = false) :
    (enforceRateLimit U settings redis call).2 = redis := by
  rw [enforceRateLimit]
  split_ifs with hredis
  · have hanswer : call.answer = .refused := by simpa [isCounted, hredis] using h
    rw [hanswer]
  · rfl

/-- A call with another key leaves this one as it is. -/
theorem enforceRateLimit_of_ne (h : rateLimitKey U settings call ≠ key) :
    (enforceRateLimit U settings redis call).2 key = redis key := by
  cases hcounted : isCounted settings call with
  | true =>
    rw [enforceRateLimit_of_isCounted hcounted]
    exact Store.countHit_of_ne (fun he => h he.symm) ..
  | false => rw [enforceRateLimit_of_not_isCounted hcounted]

/-- A call sees only what is under its key. -/
theorem enforceRateLimit_congr
    (h : redis (rateLimitKey U settings call) = redis' (rateLimitKey U settings call)) :
    (enforceRateLimit U settings redis call).1 = (enforceRateLimit U settings redis' call).1 ∧
      (enforceRateLimit U settings redis call).2 (rateLimitKey U settings call) =
        (enforceRateLimit U settings redis' call).2 (rateLimitKey U settings call) := by
  obtain ⟨hresult, hstore⟩ := Store.countHit_congr h call.now call.windowSeconds
  unfold enforceRateLimit
  split_ifs
  · cases call.answer with
    | returned => exact ⟨congrArg (judged call) hresult, hstore⟩
    | lost => exact ⟨rfl, hstore⟩
    | refused => exact ⟨rfl, h⟩
  · exact ⟨rfl, h⟩

/-- **Calls with other keys change nothing.** -/
theorem run_filter (h : redis key = redis' key) :
    (run U settings redis calls).filter (fun r => rateLimitKey U settings r.1 = key) =
      run U settings redis' (calls.filter fun call => rateLimitKey U settings call = key) := by
  induction calls generalizing redis redis' with
  | nil => rfl
  | cons call calls ih =>
    by_cases hkey : rateLimitKey U settings call = key
    · have hseen :
          redis (rateLimitKey U settings call) = redis' (rateLimitKey U settings call) := by
        rw [hkey]
        exact h
      obtain ⟨houtcome, hstore⟩ := enforceRateLimit_congr hseen
      rw [hkey] at hstore
      rw [List.filter_cons_of_pos (by simpa using hkey), run_cons, run_cons,
        List.filter_cons_of_pos (by simpa using hkey), houtcome, ih hstore]
    · rw [List.filter_cons_of_neg (by simpa using hkey), run_cons,
        List.filter_cons_of_neg (by simpa using hkey)]
      exact ih ((enforceRateLimit_of_ne hkey).trans h)

/-! ### Windows -/

/-- The outcome of a call that the window counts. -/
def outcomeOf (settings : Settings) (length : ℕ) (call : Call) (w : Window) : Outcome :=
  match call.answer with
  | .returned => judged call (w.count, secondsLeft length call.now w)
  | _ => unavailable settings "Rate limiting is unavailable"

/-- The call is counted under the key. -/
def countsFor (U : Unicode) (settings : Settings) (key : List ℕ) (call : Call) : Bool :=
  rateLimitKey U settings call = key && isCounted settings call

variable {length : ℕ} {seconds : ℤ} {window : Option Window}

theorem enforceRateLimit_spec (hs : 0 < seconds) (hlength : length = 1000 * seconds.toNat)
    (hseconds : call.windowSeconds = seconds) (hcount : ∀ w ∈ window, 0 < w.count)
    (h : redis key = window.map (entryOf length)) (hcall : countsFor U settings key call = true) :
    let hit := FixedWindow.hit length window call.now
    (enforceRateLimit U settings redis call).1 = outcomeOf settings length call hit ∧
      (enforceRateLimit U settings redis call).2 key = some (entryOf length hit) := by
  obtain ⟨hkey, hcounted⟩ := (Bool.and_eq_true _ _).mp hcall
  obtain rfl := of_decide_eq_true hkey
  obtain ⟨hresult, hstore⟩ := Store.countHit_spec call.now hs hlength hcount h
  rw [← hseconds] at hresult hstore
  refine ⟨?_, (congrFun (enforceRateLimit_of_isCounted hcounted) _).trans hstore⟩
  obtain ⟨hredis, hanswer⟩ := (Bool.and_eq_true _ _).mp hcounted
  rw [enforceRateLimit, if_pos hredis, outcomeOf]
  cases he : call.answer with
  | returned => exact congrArg (judged call) hresult
  | lost => rfl
  | refused => exact (of_decide_eq_true hanswer he).elim

/-- A call that is not counted under the key leaves it as it is. -/
theorem enforceRateLimit_of_not_countsFor (redis : Store (List ℕ))
    (h : countsFor U settings key call = false) :
    (enforceRateLimit U settings redis call).2 key = redis key := by
  by_cases hkey : rateLimitKey U settings call = key
  · have hcounted : isCounted settings call = false := by simpa [countsFor, hkey] using h
    rw [enforceRateLimit_of_not_isCounted hcounted]
  · exact enforceRateLimit_of_ne hkey

/-- **The counts under a key are those of fixed windows.** -/
theorem filter_countsFor_run (U : Unicode) (settings : Settings) (redis : Store (List ℕ))
    (calls : List Call) (hs : 0 < seconds) (hlength : length = 1000 * seconds.toNat)
    (hseconds : ∀ call ∈ calls, rateLimitKey U settings call = key → call.windowSeconds = seconds)
    (hcount : ∀ w ∈ window, 0 < w.count) (h : redis key = window.map (entryOf length)) :
    (run U settings redis calls).filter (fun r => countsFor U settings key r.1) =
        (FixedWindow.hits Call.now length window (calls.filter (countsFor U settings key))).map
          (fun hit => (hit.1, outcomeOf settings length hit.1 hit.2)) ∧
      after U settings redis calls key =
        (FixedWindow.current Call.now length window
          (calls.filter (countsFor U settings key))).map (entryOf length) := by
  induction calls generalizing redis window with
  | nil => exact ⟨rfl, h⟩
  | cons call calls ih =>
    have hrest : ∀ call ∈ calls, rateLimitKey U settings call = key →
      call.windowSeconds = seconds :=
      fun c hc => hseconds c (List.mem_cons_of_mem _ hc)
    rw [run_cons]
    cases hcall : countsFor U settings key call with
    | true =>
      have hkey : rateLimitKey U settings call = key :=
        of_decide_eq_true ((Bool.and_eq_true _ _).mp hcall).1
      obtain ⟨houtcome, hstore⟩ := enforceRateLimit_spec hs hlength
        (hseconds call List.mem_cons_self hkey) hcount h hcall
      have hpos : ∀ w ∈ some (FixedWindow.hit length window call.now), 0 < w.count :=
        fun w hw => Option.some.inj hw ▸ FixedWindow.count_hit_pos length window call.now
      obtain ⟨hrun, hafter⟩ := ih _ hrest hpos hstore
      rw [List.filter_cons_of_pos hcall, List.filter_cons_of_pos (by simpa using hcall), hrun,
        houtcome]
      exact ⟨rfl, hafter⟩
    | false =>
      have hstore := enforceRateLimit_of_not_countsFor redis hcall
      obtain ⟨hrun, hafter⟩ := ih _ hrest hcount (hstore.trans h)
      rw [List.filter_cons_of_neg (by simpa using hcall),
        List.filter_cons_of_neg (by simpa using hcall)]
      exact ⟨hrun, hafter⟩

/-- Unless Redis could not be asked, the script has returned. -/
theorem returned_of_ne_unavailable (U : Unicode) (settings : Settings) (redis : Store (List ℕ))
    (call : Call)
    (h : ∀ message, (enforceRateLimit U settings redis call).1 ≠ unavailable settings message) :
    settings.hasRedis = true ∧ call.answer = .returned := by
  have hredis : settings.hasRedis = true := by
    by_contra hne
    rw [enforceRateLimit, if_neg hne] at h
    exact h _ rfl
  rw [enforceRateLimit, if_pos hredis] at h
  cases he : call.answer with
  | returned => exact ⟨hredis, rfl⟩
  | lost =>
    rw [he] at h
    exact (h _ rfl).elim
  | refused =>
    rw [he] at h
    exact (h _ rfl).elim

/-- Redis without keys holds no windows. -/
theorem empty_holds (key : List ℕ) (length : ℕ) :
    (fun _ => none : Store (List ℕ)) key = (none : Option Window).map (entryOf length) := rfl

theorem count_pos_none : ∀ w ∈ (none : Option Window), 0 < w.count := fun w hw => by cases hw

theorem start_le_none {t : ℕ} : ∀ w ∈ (none : Option Window), w.start ≤ t := fun w hw => by cases hw

/-- Where the code fails closed, only calls that are counted pass. -/
theorem countsFor_of_passed (hclosed : settings.shouldRateLimitFailClosed = true)
    {r : Call × Outcome} (hr : r ∈ run U settings redis calls)
    (hkey : rateLimitKey U settings r.1 = key) (hpassed : r.2 = .passed) :
    countsFor U settings key r.1 = true := by
  induction calls generalizing redis with
  | nil => exact (List.not_mem_nil hr).elim
  | cons call calls ih =>
    rw [run_cons] at hr
    rcases List.mem_cons.mp hr with rfl | hr
    · obtain ⟨hredis, hanswer⟩ := returned_of_ne_unavailable U settings redis call
        fun message he => by
          have hpassed : unavailable settings message = .passed := he.symm.trans hpassed
          rw [unavailable, if_pos hclosed] at hpassed
          cases hpassed
      simp [countsFor, isCounted, hkey, hredis, hanswer]
    · exact ih hr

/-- A call that passes is among the first of its window. -/
theorem count_le_of_passed (hclosed : settings.shouldRateLimitFailClosed = true) {w : Window}
    (h : outcomeOf settings length call w = .passed) : (w.count : ℤ) ≤ call.maxAttempts := by
  rw [outcomeOf] at h
  split at h
  · by_contra hlt
    rw [judged] at h
    simp only [if_pos (not_le.mp hlt)] at h
    cases h
  · rw [unavailable, if_pos hclosed] at h
    cases h

/-- **How many attempts pass.** In any interval that is as long as a window, fewer than twice the
attempts of a window pass, whatever the other clients do, and whenever Redis fails. -/
theorem length_filter_passed_le (hclosed : settings.shouldRateLimitFailClosed = true)
    (hsorted : calls.Pairwise fun call call' => call.now ≤ call'.now) (hs : 0 < seconds) {m : ℤ}
    (hcalls : ∀ call ∈ calls, rateLimitKey U settings call = key →
      call.maxAttempts = m ∧ call.windowSeconds = seconds) (a : ℕ) :
    ((run U settings (fun _ => none) calls).filter fun r => rateLimitKey U settings r.1 = key ∧
      r.2 = .passed ∧ a ≤ r.1.now ∧ r.1.now ≤ a + 1000 * seconds.toNat).length ≤
        2 * m.toNat - 1 := by
  obtain ⟨hrun, -⟩ := filter_countsFor_run U settings (fun _ => none) calls hs rfl
    (fun call hc hk => (hcalls call hc hk).2) (count_pos_none) (empty_holds key _)
  have hle := FixedWindow.length_filter_hits_le (1000 * seconds.toNat) none
    (fun v hv => by cases hv) (fun v hv => by cases hv)
    (hsorted.filter (countsFor U settings key)) a m.toNat
  rw [← List.countP_eq_length_filter] at hle ⊢
  refine le_trans ?_ hle
  calc _ ≤ ((run U settings (fun _ => none) calls).filter
        fun r => countsFor U settings key r.1).countP _ := by
        rw [List.countP_filter]
        refine List.countP_mono_left fun r hr hp => ?_
        obtain ⟨hkey, hpassed, -⟩ := of_decide_eq_true hp
        exact (Bool.and_eq_true _ _).mpr ⟨hp, countsFor_of_passed hclosed hr hkey hpassed⟩
    _ ≤ _ := by
        rw [hrun, List.countP_map]
        refine List.countP_mono_left fun hit hmem hp => decide_eq_true ?_
        obtain ⟨hkey, hpassed, hlow, hhigh⟩ := of_decide_eq_true hp
        have hcall : hit.1 ∈ calls := (List.mem_filter.mp (FixedWindow.mem_of_mem_hits hmem)).1
        have hcount := count_le_of_passed hclosed hpassed
        rw [(hcalls hit.1 hcall hkey).1] at hcount
        exact ⟨hlow, hhigh, by omega⟩

/-- The bound is met: one attempt at the end of a window, and two at the beginning of the next. -/
theorem exists_length_filter_passed_le : ∃ calls key,
    ((run .ascii sampleSettings (fun _ => none) calls).filter fun r =>
      rateLimitKey .ascii sampleSettings r.1 = key ∧ r.2 = .passed ∧ 1 ≤ r.1.now ∧
        r.1.now ≤ 1 + 1000 * (60 : ℤ).toNat).length = 2 * (2 : ℤ).toNat - 1 :=
  ⟨[0, 59999, 60001, 60001, 60001].map (sampleLogin "coach@example.org"),
    rateLimitKey .ascii sampleSettings (sampleLogin "coach@example.org" 0),
    le_antisymm (length_filter_passed_le rfl (by decide) (by decide) (by decide) 1) (by decide)⟩

theorem after_append (redis : Store (List ℕ)) (calls calls' : List Call) :
    after U settings redis (calls ++ calls') =
      after U settings (after U settings redis calls) calls' := by
  induction calls generalizing redis with
  | nil => rfl
  | cons call calls ih => exact ih _

/-- A call that is refused was counted, and is told when the window has passed. -/
theorem of_tooManyRequests {retryAfter limit windowSeconds : ℤ} {window : Option Window}
    (hs : 0 < seconds) (hseconds : call.windowSeconds = seconds)
    (hcount : ∀ w ∈ window, 0 < w.count)
    (h : redis (rateLimitKey U settings call) = window.map (entryOf (1000 * seconds.toNat)))
    (hrejected : (enforceRateLimit U settings redis call).1 =
      .tooManyRequests retryAfter limit windowSeconds) :
    countsFor U settings (rateLimitKey U settings call) call = true ∧
      retryAfter = max (secondsLeft (1000 * seconds.toNat) call.now
        (FixedWindow.hit (1000 * seconds.toNat) window call.now)) 1 := by
  obtain ⟨hredis, hanswer⟩ := returned_of_ne_unavailable U settings redis call
    fun message he => by
      have hunavailable := he.symm.trans hrejected
      rw [unavailable] at hunavailable
      split_ifs at hunavailable
  have hcall : countsFor U settings (rateLimitKey U settings call) call = true := by
    simp [countsFor, isCounted, hredis, hanswer]
  refine ⟨hcall, ?_⟩
  obtain ⟨houtcome, -⟩ := enforceRateLimit_spec hs rfl hseconds hcount h hcall
  rw [houtcome, outcomeOf, hanswer] at hrejected
  dsimp only [judged] at hrejected
  split_ifs at hrejected
  exact (Outcome.tooManyRequests.inj hrejected).1.symm

/-- **A client that waits as it was told passes**, unless it has sent other calls of its own: it is
told at most the length of a window, and half a second after that its attempts are counted anew. -/
theorem passes_after_retry {before between : List Call} {call' : Call}
    {retryAfter limit windowSeconds : ℤ} (hs : 0 < seconds)
    (hseconds : ∀ c ∈ before ++ call :: (between ++ [call']),
      rateLimitKey U settings c = rateLimitKey U settings call → c.windowSeconds = seconds)
    (hsorted : ∀ c ∈ before, c.now ≤ call.now)
    (hrejected : (enforceRateLimit U settings (after U settings (fun _ => none) before) call).1 =
      .tooManyRequests retryAfter limit windowSeconds)
    (hkey : rateLimitKey U settings call' = rateLimitKey U settings call)
    (hanswer : call'.answer = .returned)
    (hwait : call.now + 1000 * retryAfter + 500 < call'.now)
    (hfew : (between.countP (countsFor U settings (rateLimitKey U settings call)) : ℤ) <
      call'.maxAttempts) :
    (1 ≤ retryAfter ∧ retryAfter ≤ seconds) ∧
      (enforceRateLimit U settings (after U settings (fun _ => none) (before ++ call :: between))
        call').1 = .passed := by
  -- The window in which the call was refused.
  obtain ⟨-, hbefore⟩ := filter_countsFor_run U settings (fun _ => none) before hs rfl
    (fun c hc => hseconds c (by simp [hc])) count_pos_none
    (empty_holds (rateLimitKey U settings call) _)
  have hpos := FixedWindow.count_pos_of_current Call.now (1000 * seconds.toNat)
    (before.filter (countsFor U settings (rateLimitKey U settings call))) count_pos_none
  have hearlier : ∀ c ∈ before.filter (countsFor U settings (rateLimitKey U settings call)),
      c.now ≤ call.now := fun c hc => hsorted c (List.mem_filter.mp hc).1
  have hcovers := FixedWindow.hit_covers (1000 * seconds.toNat)
    (FixedWindow.start_le_of_current (1000 * seconds.toNat) start_le_none hearlier)
  have hcall := hseconds call (by simp) rfl
  obtain ⟨hcounted, hretry⟩ := of_tooManyRequests hs hcall hpos hbefore hrejected
  obtain ⟨-, hstore⟩ := enforceRateLimit_spec hs rfl hcall hpos hbefore hcounted
  have hfirst := FixedWindow.count_hit_pos (1000 * seconds.toNat)
    (FixedWindow.current Call.now (1000 * seconds.toNat) none
      (before.filter (countsFor U settings (rateLimitKey U settings call)))) call.now
  generalize FixedWindow.hit (1000 * seconds.toNat) _ call.now = w at hcovers hretry hstore hfirst
  dsimp only [secondsLeft] at hretry
  refine ⟨by omega, ?_⟩
  -- It has passed, so only the calls since then are counted.
  have hfirst' : ∀ v ∈ some w, 0 < v.count := fun v hv => Option.some.inj hv ▸ hfirst
  obtain ⟨-, hbetween⟩ := filter_countsFor_run U settings _ between hs rfl
    (fun c hc => hseconds c (by simp [hc])) hfirst' hstore
  obtain ⟨w', hw'⟩ := FixedWindow.exists_current Call.now (1000 * seconds.toNat) w
    (between.filter (countsFor U settings (rateLimitKey U settings call)))
  have hpassed : w.start + 1000 * seconds.toNat < call'.now := by omega
  have hcount := FixedWindow.count_hit_of_passed hpassed hw'
  have hlater : ∀ v ∈ some w', 0 < v.count := by
    rw [← hw']
    exact FixedWindow.count_pos_of_current Call.now _ _ hfirst'
  rw [← List.countP_eq_length_filter] at hcount
  rw [hw'] at hbetween
  have hcall' : countsFor U settings (rateLimitKey U settings call) call' = true := by
    have hredis := ((Bool.and_eq_true _ _).mp ((Bool.and_eq_true _ _).mp hcounted).2).1
    simp [countsFor, isCounted, hkey, hredis, hanswer]
  obtain ⟨houtcome, -⟩ := enforceRateLimit_spec hs rfl (hseconds call' (by simp) hkey) hlater
    hbetween hcall'
  rw [after_append]
  refine houtcome.trans ?_
  rw [outcomeOf, hanswer]
  exact if_neg (by omega)

/-- A third attempt is refused, and told to wait. -/
theorem exists_passes_after_retry : ∃ before call call',
    (enforceRateLimit .ascii sampleSettings
        (after .ascii sampleSettings (fun _ => none) before) call).1 = .tooManyRequests 30 2 60 ∧
      (enforceRateLimit .ascii sampleSettings
        (after .ascii sampleSettings (fun _ => none) (before ++ call :: [])) call').1 =
          .passed := by
  have hrejected : (enforceRateLimit .ascii sampleSettings (after .ascii sampleSettings
      (fun _ => none) [sampleLogin "coach@example.org" 0, sampleLogin "coach@example.org" 1])
        (sampleLogin "coach@example.org" 30000)).1 = .tooManyRequests 30 2 60 := by decide
  have hseconds : ∀ c ∈ [sampleLogin "coach@example.org" 0, sampleLogin "coach@example.org" 1] ++
      sampleLogin "coach@example.org" 30000 :: ([] ++ [sampleLogin "coach@example.org" 60501]),
      c.windowSeconds = 60 := by decide
  have hwait : (sampleLogin "coach@example.org" 30000).now + 1000 * (30 : ℤ) + 500 <
      (sampleLogin "coach@example.org" 60501).now := by decide
  exact ⟨_, _, _, hrejected, (passes_after_retry (by decide) (fun c hc _ => hseconds c hc)
    (by decide) hrejected rfl rfl hwait (by decide)).2⟩

/-! ### Clients -/

/-- Whose attempts the call counts with. -/
def client (U : Unicode) (settings : Settings) (call : Call) : List ℕ × List ℕ × List ℕ :=
  (call.scope, peerIp settings call.request, subjectKey U call.subject)

/-- No colon in the scope and the subject, as in those of the routes: emails, UUIDs and words. -/
def IsPlain (U : Unicode) (call : Call) : Prop := 58 ∉ call.scope ∧ 58 ∉ subjectKey U call.subject

instance (U : Unicode) (call : Call) : Decidable (IsPlain U call) :=
  inferInstanceAs (Decidable (_ ∧ _))

theorem append_colon_inj {s s' t t' : List ℕ} (hs : 58 ∉ s) (hs' : 58 ∉ s')
    (h : s ++ 58 :: t = s' ++ 58 :: t') : s = s' ∧ t = t' := by
  have hsplit := congrArg (splitFirst 58) h
  rw [splitFirst_append hs, splitFirst_append hs'] at hsplit
  exact Prod.mk.inj (Option.some.inj hsplit)

/-- Addresses may hold colons. They stand between the first colon and the last one. -/
theorem rateLimitKey_inj {call' : Call} (hplain : IsPlain U call) (hplain' : IsPlain U call')  :
    rateLimitKey U settings call = rateLimitKey U settings call' ↔
      client U settings call = client U settings call' := by
  refine ⟨fun h => ?_, fun h => ?_⟩
  · obtain ⟨hscope, hrest⟩ := append_colon_inj hplain.1 hplain'.1 (List.append_cancel_left h)
    have hreverse := congrArg List.reverse hrest
    rw [List.reverse_append, List.reverse_append, List.reverse_cons, List.reverse_cons,
      List.append_assoc, List.append_assoc] at hreverse
    obtain ⟨hsubject, hip⟩ := append_colon_inj (fun hc => hplain.2 (List.mem_reverse.mp hc))
      (fun hc => hplain'.2 (List.mem_reverse.mp hc)) hreverse
    exact Prod.ext hscope (Prod.ext (List.reverse_injective hip) (List.reverse_injective hsubject))
  · obtain ⟨hscope, hrest⟩ := Prod.mk.inj h
    obtain ⟨hip, hsubject⟩ := Prod.mk.inj hrest
    rw [rateLimitKey, rateLimitKey, hscope, hip, hsubject]

theorem map_fst_run (redis : Store (List ℕ)) (calls : List Call) :
    (run U settings redis calls).map Prod.fst = calls := by
  induction calls generalizing redis with
  | nil => rfl
  | cons call calls ih => exact congrArg (call :: ·) (ih _)

/-- The calls of a client run as if there were no others. -/
theorem filter_client_run (hplain : ∀ call ∈ calls, IsPlain U call)
    (who : List ℕ × List ℕ × List ℕ) :
    (run U settings redis calls).filter (fun r => client U settings r.1 = who) =
      run U settings redis (calls.filter fun call => client U settings call = who) := by
  have hmem {r : Call × Outcome} (hr : r ∈ run U settings redis calls) : r.1 ∈ calls := by
    have hmap := List.mem_map_of_mem (f := Prod.fst) hr
    rwa [map_fst_run] at hmap
  by_cases hnone : ∃ call ∈ calls, client U settings call = who
  · obtain ⟨call, hcall, rfl⟩ := hnone
    have hiff {c : Call} (hc : c ∈ calls) : client U settings c = client U settings call ↔
        rateLimitKey U settings c = rateLimitKey U settings call :=
      (rateLimitKey_inj (hplain c hc) (hplain call hcall)).symm
    rw [List.filter_congr fun r hr => decide_eq_decide.mpr (hiff (hmem hr)),
      List.filter_congr fun c hc => decide_eq_decide.mpr (hiff hc)]
    exact run_filter rfl
  · have hcalls : calls.filter (fun call => client U settings call = who) = [] :=
      List.filter_eq_nil_iff.mpr fun c hc he => hnone ⟨c, hc, of_decide_eq_true he⟩
    rw [hcalls]
    exact List.filter_eq_nil_iff.mpr fun r hr he => hnone ⟨r.1, hmem hr, of_decide_eq_true he⟩

/-- **No client can use up the attempts of another one**: what becomes of the calls of a client
depends on these calls only. -/
theorem outcomes_eq_of_filter_eq {calls' : List Call} (hplain : ∀ call ∈ calls, IsPlain U call)
    (hplain' : ∀ call ∈ calls', IsPlain U call) (who : List ℕ × List ℕ × List ℕ)
    (h : calls.filter (fun call => client U settings call = who) =
      calls'.filter fun call => client U settings call = who) :
    (run U settings (fun _ => none) calls).filter (fun r => client U settings r.1 = who) =
      (run U settings (fun _ => none) calls').filter fun r => client U settings r.1 = who := by
  rw [filter_client_run hplain, filter_client_run hplain', h]

/-- A coach who has used up the attempts, and another one. -/
theorem exists_outcomes_eq :
    ∃ calls who, 2 ≤ (calls.map (client .ascii sampleSettings)).dedup.length ∧
    (run .ascii sampleSettings (fun _ => none) calls).filter
        (fun r => client .ascii sampleSettings r.1 = who) =
      (run .ascii sampleSettings (fun _ => none)
        (calls.filter fun call => client .ascii sampleSettings call = who)).filter
          fun r => client .ascii sampleSettings r.1 = who := by
  have hplain : ∀ call ∈ [sampleLogin "coach@example.org" 0, sampleLogin "coach@example.org" 1,
      sampleLogin "coach@example.org" 2, sampleLogin "other@example.org" 3],
        IsPlain .ascii call := by decide
  refine ⟨_, client .ascii sampleSettings (sampleLogin "other@example.org" 3), by decide,
    outcomes_eq_of_filter_eq hplain (fun call hcall => hplain call (List.mem_of_mem_filter hcall)) _
      ?_⟩
  rw [List.filter_filter]
  simp

end NextBallUp.RateLimits
