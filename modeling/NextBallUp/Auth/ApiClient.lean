import NextBallUp.Auth.Rotation
import NextBallUp.Lib.Steps

/-!
# The pages that refresh their session

`lib/api-client.ts`, and how its requests meet `/auth/refresh`: pages in browsers, the cookie in
the jar of each browser, the requests and responses between them and the server, and the server
taking turns in the meantime.

A page keeps the promise of a refresh that is in flight, so that many calls that are answered by a
401 begin one refresh. What this is worth to a token that can be used once is said in
`NextBallUp.Auth.Browsers`.

## What is deliberately absent

All of a call but the status of its responses. The access token, as any call may be answered by a
401 here, and the CSRF token, which `/auth/refresh` does not ask for. Cookies under other names or
paths than the one that is written now, and all users but one.

## Main definitions

* `Page`, `Exchange`, `Web`: a page, a request on its way, everything
* `Web.doRefresh`, `Web.beginRefresh`: the functions of the source, and `apiFetch` in three pieces,
  `Web.fetch`, `Web.answer` and `Web.resume`
* `Web.turn`, `Web.arrive`, `Web.lose`: the server, and the connections to it
* `web`: the system, and `IsInitial`: the states in which a run begins

## Main results

* `singleFlight_of_reach`: at most one refresh of a page is on its way, and a call that awaits one
  is not left waiting
-/

namespace NextBallUp.Auth.ApiClient

/-- A call of `apiFetch`. -/
inductive Call
  | idle
  | sent (noRefreshOn401 : Bool)
  /-- The response was a 401, and the call awaits the promise of this request. -/
  | refreshing (request : Pid)
  | retried
  /-- The status of the last response; none if the request has failed. -/
  | returned (status : Option ℕ)
  deriving DecidableEq, Repr

/-- A page, in which the module is loaded. -/
structure Page where
  /-- A promise goes by the name of its request. -/
  refreshInFlight : Option Pid
  calls : ℕ → Call
  /-- The requests of `doRefresh`, the latest first. The code does not keep them. -/
  refreshes : List Pid

/-- The page as it is loaded. -/
def Page.loaded : Page := ⟨none, fun _ => .idle, []⟩

/-- What a response does to the cookie of the refresh token. -/
inductive SetCookie
  | keep
  | set (token : Token)
  | clear
  deriving DecidableEq, Repr

/-- A request that a page makes of the server, and its response. -/
inductive Exchange (P : Type)
  | unused
  | waiting (page : P)
  | replied (page : P) (cookie : SetCookie)
  /-- The page has the response, which was `ok` or not, or has given up. -/
  | settled (ok : Bool)
  deriving DecidableEq, Repr

/-- The server, the requests, the browsers and their pages. -/
structure Web (P B : Type) where
  server : State
  exchanges : Pid → Exchange P
  /-- The refresh token in the cookie jar. -/
  jars : B → Option Token
  pages : P → Page

/-! ### The server -/

/-- The refresh token that a transaction has issued. -/
def issuedRefreshToken (tx : Tx) : Option Token :=
  tx.events.findSome? fun
    | .issued t => if t.type = .refresh then some t else none
    | _ => none

/-- `set_auth_cookies` and `clear_auth_cookies`, in the response of a request that has ended
with `tx`. -/
def setCookie (p : Proc) (tx : Tx) : SetCookie :=
  match p with
  | .login .. | .refresh .. =>
    match issuedRefreshToken tx with
    | some t => .set t
    | none => .keep
  | .logout .. | .resetPassword .. | .deleteMyAccount .. =>
    if tx.users.isEmpty then .keep else .clear
  | _ => .keep

/-- `response.ok` of `/auth/refresh`, which sets the cookies exactly if it succeeds. -/
def SetCookie.ok : SetCookie → Bool
  | .set _ => true
  | .keep | .clear => false

/-- A jar after a response. -/
def SetCookie.apply : SetCookie → Option Token → Option Token
  | .keep, jar => jar
  | .set token, _ => some token
  | .clear, _ => none

/-- The server responds. No one takes the response to a request that has been given up. -/
def Exchange.reply {P : Type} (cookie : SetCookie) : Exchange P → Exchange P
  | .waiting p => .replied p cookie
  | e => e

/-- The page is left. -/
def Exchange.abort {P : Type} [DecidableEq P] (p : P) : Exchange P → Exchange P
  | .waiting q => if q = p then .settled false else .waiting q
  | .replied q cookie => if q = p then .settled false else .replied q cookie
  | e => e

/-- The page that still has to do with the request. -/
def Exchange.page? {P : Type} : Exchange P → Option P
  | .waiting p | .replied p _ => some p
  | .unused | .settled _ => none

/-- The requests of a page other than those of `doRefresh`. -/
def isOther : Proc → Bool
  | .login _ .readUser | .logout _ .authenticate | .resetPassword _ .lockUser
  | .deleteMyAccount _ .authenticate | .setupTotp _ .authenticate
  | .confirmTotp _ _ .authenticate | .disableTotp _ _ _ .authenticate
  | .playback _ .authenticate => true
  | _ => false

/-- The request has not taken a turn yet. -/
def hasNotBegun : Proc → Bool
  | .refresh _ .readUser => true
  | proc => isOther proc

namespace Web

variable {P B : Type} [DecidableEq P] [DecidableEq B] (S : Settings) (browser : P → B)
  (c : Web P B)

/-- A request takes a turn on the server, and the server responds when it has ended. -/
def turn (i : Pid) (a : Answer) : Option (Web P B) :=
  ((c.server.procs i).step S i a c.server.world).map fun t =>
    { c with
      server := c.server.after i t.1 t.2
      exchanges :=
        match t.2 with
        | .commit tx =>
          Function.update c.exchanges i ((c.exchanges i).reply (setCookie (c.server.procs i) tx))
        | _ => c.exchanges }

/-- A page makes a request under an identifier that has not been used. -/
def request (p : P) (i : Pid) (proc : Proc) : Option (Web P B) :=
  match c.exchanges i with
  | .unused =>
    some { c with
      server := { c.server with procs := Function.update c.server.procs i proc }
      exchanges := Function.update c.exchanges i (.waiting p) }
  | _ => none

/-! ### The pages -/

def setPage (p : P) (page : Page) : Web P B := { c with pages := Function.update c.pages p page }

def setCall (p : P) (k : ℕ) (call : Call) : Web P B :=
  c.setPage p { c.pages p with calls := Function.update (c.pages p).calls k call }

/-- `fetch` of `doRefresh`, as request `i`. Without a cookie, the server refuses it. -/
def post (p : P) (i : Pid) : Option (Web P B) :=
  match c.jars (browser p) with
  | some token => c.request p i (.refresh token .readUser)
  | none =>
    match c.exchanges i with
    | .unused =>
      some { c with exchanges := Function.update c.exchanges i (.replied p .keep) }
    | _ => none

/-- `doRefresh` -/
def doRefresh (p : P) (i : Pid) : Option (Web P B) :=
  (c.post browser p i).map fun c =>
    c.setPage p { c.pages p with
      refreshInFlight := some i, refreshes := i :: (c.pages p).refreshes }

/-- `beginRefresh`, and the promise that it returns. -/
def beginRefresh (p : P) (i : Pid) : Option (Pid × Web P B) :=
  match (c.pages p).refreshInFlight with
  | some j => some (j, c)
  | none => (c.doRefresh browser p i).map fun c => (i, c)

/-- `apiFetch` up to its first `doRequest()`. -/
def fetch (p : P) (k : ℕ) (noRefreshOn401 : Bool) : Option (Web P B) :=
  match (c.pages p).calls k with
  | .idle => some (c.setCall p k (.sent noRefreshOn401))
  | _ => none

/-- `apiFetch` when a `doRequest()` has been answered or has failed. -/
def answer (p : P) (k : ℕ) (status : Option ℕ) (i : Pid) : Option (Web P B) :=
  match (c.pages p).calls k with
  | .sent noRefreshOn401 =>
    if status = some 401 ∧ noRefreshOn401 = false then
      (c.beginRefresh browser p i).map fun t => t.2.setCall p k (.refreshing t.1)
    else some (c.setCall p k (.returned status))
  | .retried => some (c.setCall p k (.returned status))
  | _ => none

/-- `apiFetch` when the refresh it has awaited is over. The promise is resolved after `finally`. -/
def resume (p : P) (k : ℕ) : Option (Web P B) :=
  match (c.pages p).calls k with
  | .refreshing i =>
    if (c.pages p).refreshInFlight = some i then none
    else
      match c.exchanges i with
      | .settled ok =>
        some (c.setCall p k (if ok then .retried else .returned (some 401)))
      | _ => none
  | _ => none

/-- The callback of `finally` in `beginRefresh`. -/
def clear (p : P) : Option (Web P B) :=
  match (c.pages p).refreshInFlight with
  | none => none
  | some i =>
    match c.exchanges i with
    | .settled _ => some (c.setPage p { c.pages p with refreshInFlight := none })
    | _ => none

/-- The page is left and loaded again. -/
def reload (p : P) : Web P B :=
  { c with
    exchanges := fun i => (c.exchanges i).abort p
    pages := Function.update c.pages p .loaded }

/-! ### The connections -/

/-- A response reaches the browser of its page. -/
def arrive (i : Pid) : Option (Web P B) :=
  match c.exchanges i with
  | .replied p cookie =>
    some { c with
      exchanges := Function.update c.exchanges i (.settled cookie.ok)
      jars := Function.update c.jars (browser p) (cookie.apply (c.jars (browser p))) }
  | _ => none

/-- The connection breaks after the request has been sent. -/
def lose (i : Pid) : Option (Web P B) :=
  match c.exchanges i with
  | .waiting _ | .replied _ _ =>
    some { c with exchanges := Function.update c.exchanges i (.settled false) }
  | _ => none

/-- The request does not reach the server. -/
def drop (i : Pid) : Option (Web P B) :=
  match c.exchanges i with
  | .waiting _ =>
    if hasNotBegun (c.server.procs i) then
      some { c with
        server := { c.server with procs := Function.update c.server.procs i .done }
        exchanges := Function.update c.exchanges i (.settled false) }
    else none
  | _ => none

end Web

/-! ### The system -/

inductive Action (P : Type)
  /-- A turn of a request on the server, or of the clock. -/
  | turn (i : Pid) (a : Answer)
  | request (p : P) (i : Pid) (proc : Proc)
  | fetch (p : P) (k : ℕ) (noRefreshOn401 : Bool)
  /-- If the call begins a refresh, it is request `i`. -/
  | answer (p : P) (k : ℕ) (status : Option ℕ) (i : Pid)
  | resume (p : P) (k : ℕ)
  | clear (p : P)
  | reload (p : P)
  | arrive (i : Pid)
  | lose (i : Pid)
  | drop (i : Pid)

section System

variable {P B : Type} [DecidableEq P] [DecidableEq B] (S : Settings) (browser : P → B)

/-- The system of the server and the pages of these browsers. -/
def web : Steps (Web P B) (Action P) where
  step c
    | .turn i a => c.turn S i a
    | .request p i proc => if isOther proc then c.request p i proc else none
    | .fetch p k noRefreshOn401 => c.fetch p k noRefreshOn401
    | .answer p k status i => c.answer browser p k status i
    | .resume p k => c.resume p k
    | .clear p => c.clear p
    | .reload p => some (c.reload p)
    | .arrive i => c.arrive browser i
    | .lose i => c.lose i
    | .drop i => c.drop i

/-- Any rows of the user, browsers of which each may hold a token of its own, and pages that have
just been loaded. -/
structure IsInitial (c : Web P B) : Prop where
  world : c.server.world.IsInitial
  procs : ∀ i, c.server.procs i = .clock ∨ c.server.procs i = .done
  exchanges : ∀ i, c.exchanges i = .unused ∧ c.server.procs i = .done ∨
    ∃ ok, c.exchanges i = .settled ok
  jars : ∀ b t, c.jars b = some t → t.jti < c.server.world.uuid
  distinct : ∀ b b' t t', c.jars b = some t → c.jars b' = some t' → t.jti = t'.jti → b = b'
  pages : ∀ p, c.pages p = .loaded

/-- No response to a refresh is lost, by a broken connection or because the page is left. -/
def Careful (c : Web P B) : Action P → Prop
  | .lose i => ∀ p ∈ (c.exchanges i).page?, (c.pages p).refreshInFlight ≠ some i
  | .reload p => (c.pages p).refreshInFlight = none
  | _ => True

instance (c : Web P B) : ∀ l, Decidable (Careful c l)
  | .lose i => inferInstanceAs (Decidable (∀ p ∈ (c.exchanges i).page?, _))
  | .reload p => inferInstanceAs (Decidable ((c.pages p).refreshInFlight = none))
  | .turn .. | .request .. | .fetch .. | .answer .. | .resume .. | .clear .. | .arrive ..
  | .drop .. => .isTrue trivial

end System

/-! ### One refresh at a time -/

section Flights

variable {P B : Type} {S : Settings} {browser : P → B} {c c' : Web P B} {p : P} {page : Page}
  {exchanges exchanges' : Pid → Exchange P}

/-- What a request can become. -/
def Exchange.Goes : Exchange P → Exchange P → Prop
  | .unused, _ => True
  | .waiting p, e =>
    e = .waiting p ∨ (∃ cookie, e = .replied p cookie) ∨ ∃ ok, e = .settled ok
  | .replied p cookie, e => e = .replied p cookie ∨ ∃ ok, e = .settled ok
  | .settled ok, e => e = .settled ok

theorem Exchange.Goes.refl (e : Exchange P) : e.Goes e := by
  cases e with
  | unused => trivial
  | waiting | replied => exact .inl rfl
  | settled => exact Eq.refl _

theorem goes_update {i : Pid} {e : Exchange P} (h : (exchanges i).Goes e) (k : Pid) :
    (exchanges k).Goes (Function.update exchanges i e k) := by
  by_cases hk : k = i
  · subst hk
    rwa [Function.update_self]
  · rw [Function.update_of_ne hk]
    exact .refl _

theorem goes_reply (e : Exchange P) (cookie : SetCookie) : e.Goes (e.reply cookie) := by
  cases e with
  | waiting => exact .inr (.inl ⟨cookie, rfl⟩)
  | unused | replied | settled => exact .refl _

/-- All refreshes of the page but the one in flight are over, and its calls wait for one of them. -/
structure Page.Sound (p : P) (exchanges : Pid → Exchange P) (page : Page) : Prop where
  begun : ∀ i ∈ page.refreshes, exchanges i = .waiting p ∨
    (∃ cookie, exchanges i = .replied p cookie) ∨ ∃ ok, exchanges i = .settled ok
  inFlight : ∀ i, page.refreshInFlight = some i → i ∈ page.refreshes
  ended : ∀ i ∈ page.refreshes,
    page.refreshInFlight = some i ∨ ∃ ok, exchanges i = .settled ok
  awaited : ∀ k i, page.calls k = .refreshing i → i ∈ page.refreshes

theorem Page.sound_loaded : Page.loaded.Sound p exchanges where
  begun i hi := (List.not_mem_nil hi).elim
  inFlight i hi := by cases hi
  ended i hi := (List.not_mem_nil hi).elim
  awaited k i hi := by cases hi

theorem Page.Sound.mono (h : page.Sound p exchanges)
    (hg : ∀ i, (exchanges i).Goes (exchanges' i)) : page.Sound p exchanges' where
  begun i hi := by
    have hgi := hg i
    rcases h.begun i hi with he | ⟨cookie, he⟩ | ⟨ok, he⟩ <;> rw [he] at hgi
    · exact hgi
    · rcases hgi with he | he
      · exact .inr (.inl ⟨cookie, he⟩)
      · exact .inr (.inr he)
    · exact .inr (.inr ⟨ok, hgi⟩)
  inFlight := h.inFlight
  ended i hi := by
    refine (h.ended i hi).imp_right fun ⟨ok, he⟩ => ⟨ok, ?_⟩
    have hgi := hg i
    rw [he] at hgi
    exact hgi
  awaited := h.awaited

theorem Page.Sound.setCall (h : page.Sound p exchanges) (k : ℕ) {call : Call}
    (hcall : ∀ i, call = .refreshing i → i ∈ page.refreshes) :
    Page.Sound p exchanges { page with calls := Function.update page.calls k call } where
  begun := h.begun
  inFlight := h.inFlight
  ended := h.ended
  awaited k' i hi := by
    by_cases hk : k' = k
    · subst hk
      exact hcall i ((Function.update_self ..).symm.trans hi)
    · exact h.awaited k' i ((Function.update_of_ne hk ..).symm.trans hi)

/-- A refresh begins when all others are over. -/
theorem Page.Sound.refresh (h : page.Sound p exchanges) (hp : page.refreshInFlight = none)
    {i : Pid} (hi : exchanges i = .waiting p ∨ ∃ cookie, exchanges i = .replied p cookie) :
    Page.Sound p exchanges
      { page with refreshInFlight := some i, refreshes := i :: page.refreshes } where
  begun j hj := by
    rcases List.mem_cons.mp hj with rfl | hj
    · rcases hi with he | he
      · exact .inl he
      · exact .inr (.inl he)
    · exact h.begun j hj
  inFlight j hj := by
    obtain rfl := Option.some.inj hj
    exact List.mem_cons_self
  ended j hj := by
    rcases List.mem_cons.mp hj with rfl | hj
    · exact .inl rfl
    · rcases h.ended j hj with hf | he
      · cases hp.symm.trans hf
      · exact .inr he
  awaited k j hj := List.mem_cons_of_mem _ (h.awaited k j hj)

theorem Page.Sound.clear (h : page.Sound p exchanges) {i : Pid} {ok : Bool}
    (hp : page.refreshInFlight = some i) (hi : exchanges i = .settled ok) :
    Page.Sound p exchanges { page with refreshInFlight := none } where
  begun := h.begun
  inFlight i hi := by cases hi
  ended j hj := by
    rcases h.ended j hj with hf | he
    · obtain rfl := Option.some.inj (hp.symm.trans hf)
      exact .inr ⟨ok, hi⟩
    · exact .inr he
  awaited := h.awaited

/-- What holds of the pages throughout every run. -/
def Flights (c : Web P B) : Prop := ∀ p, (c.pages p).Sound p c.exchanges

theorem Flights.of_pages_eq (h : Flights c) (hpages : c'.pages = c.pages)
    (hg : ∀ i, (c.exchanges i).Goes (c'.exchanges i)) : Flights c' := fun p =>
  hpages ▸ (h p).mono hg

theorem turn_eq_some {i : Pid} {a : Answer} (h : c.turn S i a = some c') :
    ∃ proc f, (c.server.procs i).step S i a c.server.world = some (proc, f) ∧
      c'.server = c.server.after i proc f ∧ c'.jars = c.jars ∧ c'.pages = c.pages ∧
        c'.exchanges = match f with
          | .commit tx => Function.update c.exchanges i
              ((c.exchanges i).reply (setCookie (c.server.procs i) tx))
          | _ => c.exchanges := by
  obtain ⟨t, ht, rfl⟩ := Option.map_eq_some_iff.mp h
  exact ⟨t.1, t.2, ht, rfl, rfl, rfl, rfl⟩

variable [DecidableEq P]

theorem goes_abort (e : Exchange P) (p : P) : e.Goes (e.abort p) := by
  cases e with
  | unused | settled => exact .refl _
  | waiting =>
    rw [Exchange.abort]
    split
    · exact .inr (.inr ⟨_, rfl⟩)
    · exact .refl _
  | replied =>
    rw [Exchange.abort]
    split
    · exact .inr ⟨_, rfl⟩
    · exact .refl _

theorem Flights.setPage (h : Flights c) (hp : page.Sound p c.exchanges) :
    Flights (c.setPage p page) := by
  intro q
  show Page.Sound q c.exchanges (Function.update c.pages p page q)
  by_cases hq : q = p
  · subst hq
    rwa [Function.update_self]
  · rw [Function.update_of_ne hq]
    exact h q

theorem Flights.setCall (h : Flights c) (k : ℕ) {call : Call}
    (hcall : ∀ i, call = .refreshing i → i ∈ (c.pages p).refreshes) :
    Flights (c.setCall p k call) :=
  h.setPage ((h p).setCall k hcall)

theorem Flights.resume {k : ℕ} (h : Flights c) (hs : c.resume p k = some c') : Flights c' := by
  simp only [Web.resume] at hs
  split at hs
  case h_2 => cases hs
  split at hs
  · cases hs
  split at hs <;> cases hs
  exact h.setCall k fun i hi => by split at hi <;> cases hi

theorem Flights.clear (h : Flights c) (hs : c.clear p = some c') : Flights c' := by
  simp only [Web.clear] at hs
  split at hs
  · cases hs
  rename_i hf
  split at hs <;> cases hs
  rename_i he
  exact h.setPage ((h p).clear hf he)

theorem Flights.reload (h : Flights c) : Flights (c.reload p) := by
  intro q
  show Page.Sound q (fun i => (c.exchanges i).abort p) (Function.update c.pages p _ q)
  by_cases hq : q = p
  · subst hq
    rw [Function.update_self]
    exact Page.sound_loaded
  · rw [Function.update_of_ne hq]
    exact (h q).mono fun i => goes_abort _ p

theorem Flights.doRefresh {i : Pid} (h : Flights c)
    (hp : (c.pages p).refreshInFlight = none) (hs : c.doRefresh browser p i = some c') :
    Flights c' ∧ i ∈ (c'.pages p).refreshes := by
  obtain ⟨d, hd, rfl⟩ := Option.map_eq_some_iff.mp hs
  have hd' : d.pages = c.pages ∧ (∀ k, (c.exchanges k).Goes (d.exchanges k)) ∧
      (d.exchanges i = .waiting p ∨ ∃ cookie, d.exchanges i = .replied p cookie) := by
    simp only [Web.post, Web.request] at hd
    split at hd <;> split at hd <;> cases hd <;> rename_i hi
    · exact ⟨rfl, goes_update (by rw [hi]; trivial), .inl (Function.update_self ..)⟩
    · exact ⟨rfl, goes_update (by rw [hi]; trivial), .inr ⟨_, Function.update_self ..⟩⟩
  obtain ⟨hpages, hg, hi⟩ := hd'
  refine ⟨(h.of_pages_eq hpages hg).setPage ?_, ?_⟩
  · rw [hpages]
    exact ((h p).mono hg).refresh hp hi
  · show i ∈ (Function.update d.pages p _ p).refreshes
    rw [Function.update_self]
    exact List.mem_cons_self

theorem Flights.answer {k : ℕ} {status : Option ℕ} {i : Pid} (h : Flights c)
    (hs : c.answer browser p k status i = some c') : Flights c' := by
  simp only [Web.answer] at hs
  split at hs
  · split at hs
    · obtain ⟨⟨j, d⟩, hd, rfl⟩ := Option.map_eq_some_iff.mp hs
      simp only [Web.beginRefresh] at hd
      split at hd
      · rename_i hf
        cases hd
        exact h.setCall k fun i hi => Call.refreshing.inj hi ▸ (h p).inFlight j hf
      · obtain ⟨d', hd', he⟩ := Option.map_eq_some_iff.mp hd
        cases he
        obtain ⟨hd, hi⟩ := h.doRefresh ‹_› hd'
        exact hd.setCall k fun j hj => Call.refreshing.inj hj ▸ hi
    · cases hs
      exact h.setCall k fun i hi => by cases hi
  · cases hs
    exact h.setCall k fun i hi => by cases hi
  · cases hs

variable [DecidableEq B]

theorem Flights.step {l : Action P} (h : Flights c) (hs : (web S browser).step c l = some c') :
    Flights c' := by
  cases l with
  | turn i a =>
    obtain ⟨proc, f, -, -, -, hpages, hexchanges⟩ := turn_eq_some hs
    refine h.of_pages_eq hpages fun k => ?_
    rw [hexchanges]
    cases f with
    | commit tx => exact goes_update (goes_reply _ _) k
    | skip | lock | tick => exact .refl _
  | request p i proc =>
    simp only [web, Option.ite_none_right_eq_some, Web.request] at hs
    replace hs := hs.2
    split at hs <;> cases hs
    rename_i hi
    exact h.of_pages_eq rfl (goes_update (by rw [hi]; trivial))
  | fetch p k noRefreshOn401 =>
    simp only [web, Web.fetch] at hs
    split at hs <;> cases hs
    exact h.setCall k fun i hi => by cases hi
  | answer p k status i => exact h.answer hs
  | resume p k => exact h.resume hs
  | clear p => exact h.clear hs
  | reload p =>
    obtain rfl := Option.some.inj hs
    exact h.reload
  | arrive i =>
    simp only [web, Web.arrive] at hs
    split at hs <;> cases hs
    rename_i hi
    exact h.of_pages_eq rfl (goes_update (by rw [hi]; exact .inr ⟨_, rfl⟩))
  | lose i =>
    simp only [web, Web.lose] at hs
    split at hs <;> cases hs <;> rename_i hi
    · exact h.of_pages_eq rfl (goes_update (by rw [hi]; exact .inr (.inr ⟨_, rfl⟩)))
    · exact h.of_pages_eq rfl (goes_update (by rw [hi]; exact .inr ⟨_, rfl⟩))
  | drop i =>
    simp only [web, Web.drop] at hs
    split at hs
    case h_2 => cases hs
    rename_i hi
    split at hs <;> cases hs
    exact h.of_pages_eq rfl (goes_update (by rw [hi]; exact .inr (.inr ⟨_, rfl⟩)))

theorem flights_of_reach {ok : Web P B → Action P → Prop}
    (h : (web S browser).Reach IsInitial ok c) : Flights c := by
  refine h.invariant (fun c hc p => ?_) fun c c' l hc _ hs => hc.step hs
  rw [hc.pages p]
  exact Page.sound_loaded

/-- At most one refresh of the page is on its way, and a call that waits for one is not left
waiting: when the server has answered, the call can go on, as a retry or with its 401. -/
structure SingleFlight (S : Settings) (browser : P → B) (c : Web P B) (p : P) : Prop where
  unique : ∀ i ∈ (c.pages p).refreshes, ∀ j ∈ (c.pages p).refreshes,
    (∀ ok, c.exchanges i ≠ .settled ok) → (∀ ok, c.exchanges j ≠ .settled ok) → i = j
  resumes : ∀ k i, (c.pages p).calls k = .refreshing i → c.exchanges i ≠ .waiting p →
    ∃ run c', (∀ l ∈ run, l = .arrive i ∨ l = .clear p ∨ l = .resume p k) ∧
      (web S browser).exec Steps.Always c run = some c' ∧
      (c'.pages p).calls k =
        if c'.exchanges i = .settled true then .retried else .returned (some 401)

/-- A call goes on after the refresh that it awaits. -/
theorem exists_resume_of_settled (S : Settings) (browser : P → B) {k : ℕ} {i : Pid} {ok : Bool}
    (hk : (c.pages p).calls k = .refreshing i) (hi : c.exchanges i = .settled ok) :
    ∃ run c', (∀ l ∈ run, l = .clear p ∨ l = .resume p k) ∧
      (web S browser).exec Steps.Always c run = some c' ∧
      c'.exchanges i = .settled ok ∧
      (c'.pages p).calls k = if ok then .retried else .returned (some 401) := by
  -- The turn of the call, when the promise is not in flight any more.
  have resume {d : Web P B} (hk : (d.pages p).calls k = .refreshing i)
      (hi : d.exchanges i = .settled ok) (hf : (d.pages p).refreshInFlight ≠ some i) :
      d.resume p k =
        some (d.setCall p k (if ok then .retried else .returned (some 401))) := by
    simp only [Web.resume, hk, if_neg hf, hi]
  have calls (d : Web P B) (call : Call) : ((d.setCall p k call).pages p).calls k = call := by
    show (Function.update d.pages p _ p).calls k = call
    rw [Function.update_self]
    exact Function.update_self ..
  by_cases hf : (c.pages p).refreshInFlight = some i
  · have hclear : c.clear p = some (c.setPage p { c.pages p with refreshInFlight := none }) := by
      simp only [Web.clear, hf, hi]
    generalize hd : c.setPage p { c.pages p with refreshInFlight := none } = d at hclear
    have hpage : d.pages p = { c.pages p with refreshInFlight := none } := by
      rw [← hd]
      exact Function.update_self ..
    have hid : d.exchanges i = .settled ok := by
      rw [← hd]
      exact hi
    have hresume := resume (d := d) (by rw [hpage]; exact hk) hid (by simp [hpage])
    refine ⟨[.clear p, .resume p k], d.setCall p k _, by simp, ?_, hid, calls d _⟩
    rw [Steps.exec_cons _ trivial hclear, Steps.exec_cons _ trivial hresume, Steps.exec]
  · refine ⟨[.resume p k], c.setCall p k _, by simp, ?_, hi, calls c _⟩
    rw [Steps.exec_cons _ trivial (resume hk hi hf), Steps.exec]

/-- **One refresh at a time**, whatever becomes of the requests. -/
theorem singleFlight_of_reach {ok : Web P B → Action P → Prop}
    (h : (web S browser).Reach IsInitial ok c) (p : P) : SingleFlight S browser c p where
  unique i hi j hj hni hnj := by
    have hc := flights_of_reach h p
    rcases hc.ended i hi with hf | ⟨ok, he⟩
    · rcases hc.ended j hj with hf' | ⟨ok, he⟩
      · exact Option.some.inj (hf.symm.trans hf')
      · exact (hnj ok he).elim
    · exact (hni ok he).elim
  resumes k i hk hi := by
    have hc := flights_of_reach h
    rcases (hc p).begun i ((hc p).awaited k i hk) with he | ⟨cookie, he⟩ | ⟨ok, he⟩
    · exact (hi he).elim
    · obtain ⟨d, harrive, hpages, hd⟩ : ∃ d, c.arrive browser i = some d ∧
          d.pages = c.pages ∧ d.exchanges i = .settled cookie.ok := by
        rw [Web.arrive, he]
        exact ⟨_, rfl, rfl, Function.update_self ..⟩
      rw [← hpages] at hk
      obtain ⟨run, c', hrun, hexec, he', hk'⟩ := exists_resume_of_settled S browser hk hd
      refine ⟨.arrive i :: run, c', fun l hl => ?_, ?_, ?_⟩
      · rcases List.mem_cons.mp hl with rfl | hl
        · exact .inl rfl
        · exact .inr (hrun l hl)
      · rw [Steps.exec_cons _ trivial harrive]
        exact hexec
      · rw [hk', he']
        cases cookie.ok <;> simp
    · obtain ⟨run, c', hrun, hexec, he', hk'⟩ := exists_resume_of_settled S browser hk he
      refine ⟨run, c', fun l hl => .inr (hrun l hl), hexec, ?_⟩
      rw [hk', he']
      cases ok <;> simp

end Flights

/-! ### Two pages -/

/-- Two pages. The browser of the first holds the token of the registration. -/
def signedIn : Web (Fin 2) (Fin 2) where
  server := registered .plain .coach 5 []
  exchanges _ := .unused
  jars b := if b = 0 then some (refreshTokenOf 0) else none
  pages _ := .loaded

theorem isInitial_signedIn : IsInitial signedIn where
  world := World.isInitial_registered ..
  procs _ := .inr rfl
  exchanges _ := .inl ⟨rfl, rfl⟩
  jars b t hj := by
    obtain ⟨-, ht⟩ := Option.ite_none_right_eq_some.mp hj
    obtain rfl := Option.some.inj ht
    exact Nat.two_pos
  distinct b b' t t' hj hj' _ := by
    obtain ⟨rfl, -⟩ := Option.ite_none_right_eq_some.mp hj
    exact (Option.ite_none_right_eq_some.mp hj').1.symm
  pages _ := rfl

/-- Call `k` of a page is answered by a 401, and the page refreshes by request `i`. -/
def refresh (p : Fin 2) (k : ℕ) (i : Pid) : List (Action (Fin 2)) :=
  [.fetch p k false, .answer p k (some 401) i]

/-- The turns of a refresh that succeeds. -/
def rotates (i : Pid) : List (Action (Fin 2)) := List.replicate 3 (.turn i .ok)

/-- Two calls of the page await one refresh, to which the server has replied. -/
theorem exists_singleFlight :
    ∃ c : Web (Fin 2) (Fin 2), SingleFlight .plain id c 0 ∧
      (c.pages 0).calls 0 = .refreshing 0 ∧ (c.pages 0).calls 1 = .refreshing 0 ∧
      c.exchanges 0 = .replied 0 (.set (refreshTokenOf 2)) := by
  obtain ⟨c, h, hb⟩ := Steps.exists_reach_of_exec (web .plain id) Steps.Always isInitial_signedIn
    (refresh 0 0 0 ++ rotates 0 ++ refresh 0 1 1)
    (fun c => (c.pages 0).calls 0 = .refreshing 0 ∧ (c.pages 0).calls 1 = .refreshing 0 ∧
      c.exchanges 0 = .replied 0 (.set (refreshTokenOf 2))) (by decide +kernel)
  rw [decide_eq_true_eq] at hb
  exact ⟨c, singleFlight_of_reach h 0, hb⟩

end NextBallUp.Auth.ApiClient
