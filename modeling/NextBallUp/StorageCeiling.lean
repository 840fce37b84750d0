import NextBallUp.Ledger
import Mathlib.Algebra.Order.BigOperators.Group.List
import Mathlib.Algebra.Order.Group.Nat
import Mathlib.Data.List.Range

/-!
# The storage ceiling

What an account has stored is bounded when an upload is initiated, under the lock of the account.
The bound counts the videos that are not FAILED, and all the later ways of a video lead towards
FAILED or leave it where it counts, except one: a requeue takes a FAILED video back, and checks no
quota. The check itself adds up what the request sees. The row policies hide the videos of the
account's other teams from a coach who is not a member of them.

## Main definitions

* `storedBytes`: what an account has stored
* `reservedBytes`: what one video counts for an account
* `Proc.checkedBytes`: what a request has checked and not inserted yet
* `StoresWithin`: the condition on a turn

## Main results

* `storedBytes_le_of_reach`: **in every run of turns that satisfy the condition, no account
  has stored more than its plan allows**
* `exists_lt_storedBytes`: an account requeues more than its plan allows
* `exists_lt_storedBytes_of_hidden`: the coaches of two teams upload more than it allows
-/

namespace NextBallUp

variable {S : Settings} {w w' : World} {pid : Pid} {a : Answer} {p p' : Proc} {f : Effect}

/-- What an account has stored: what a request would add up that sees all videos. -/
def storedBytes (w : World) (account : AccountId) : ℕ :=
  storageBytesReserved (fun _ => true) w account

/-- What a video counts for an account. -/
def reservedBytes (links : TeamId → Option AccountId) (account : AccountId) : Option Video → ℕ
  | none => 0
  | some r => if links r.teamId = some account ∧ r.status ≠ .failed then r.fileSizeBytes else 0

/-- What a request has checked against the quota of the account and has not inserted yet. -/
def Proc.checkedBytes (account : AccountId) : Proc → ℕ
  | .initiate req (.flushVideo checked _) | .initiate req (.presign checked _ _)
  | .initiate req (.insertVideo checked _ _ _) =>
    if checked = account then req.fileSizeBytes else 0
  | _ => 0

/-- The condition on a turn. A video is requeued only if its size is within what its account may
still store, whatever upload is being initiated. And where the videos that a request sees leave room
for its upload, so do all videos of the account. -/
def StoresWithin (c : State) (i : Pid) (a : Answer) : Prop :=
  a.isError ∨ match c.procs i with
  | .requeueProcessing _ (.setPending video _ _) =>
    ∀ account plan limit, c.world.accountTeamLinks video.teamId = some account →
      c.world.accounts.row account = some plan → plan.storageLimit = some limit →
      ∀ j, storedBytes c.world account + video.fileSizeBytes +
        (c.procs j).checkedBytes account ≤ limit
  | .initiate req (.checkStorageQuota account plan) =>
    ∀ limit, plan.storageLimit = some limit →
      storageBytesReserved req.shows c.world account + req.fileSizeBytes ≤ limit →
        storedBytes c.world account + req.fileSizeBytes ≤ limit
  | _ => True

/-! ### Sums -/

theorem storedBytes_eq (w : World) (account : AccountId) : storedBytes w account =
    ((List.range w.uuid).map fun v =>
      reservedBytes w.accountTeamLinks account (w.videos.row v)).sum := by
  unfold storedBytes storageBytesReserved
  refine congrArg List.sum (List.map_congr_left fun v _ => ?_)
  cases w.videos.row v with
  | none => rfl
  | some r => exact if_congr (and_iff_right rfl) rfl rfl

/-- If only one summand grows, the sum grows by no more. -/
theorem sum_map_le_add {l : List ℕ} (hl : l.Nodup) {f g : ℕ → ℕ} {v n : ℕ}
    (h : ∀ u, u ≠ v → f u ≤ g u) (hv : f v ≤ g v + n) : (l.map f).sum ≤ (l.map g).sum + n := by
  induction l with
  | nil => simp
  | cons u l ih =>
    obtain ⟨hu, hl⟩ := List.nodup_cons.mp hl
    rw [List.map_cons, List.sum_cons, List.map_cons, List.sum_cons]
    by_cases huv : u = v
    · subst huv
      have hrest : (l.map f).sum ≤ (l.map g).sum := List.sum_le_sum fun x hx =>
        h x fun hxu => hu (hxu ▸ hx)
      omega
    · have := ih hl
      have := h u huv
      omega

theorem sum_map_range_add (g : ℕ → ℕ) (m n : ℕ) (h : ∀ u, m ≤ u → g u = 0) :
    ((List.range (m + n)).map g).sum = ((List.range m).map g).sum := by
  induction n with
  | zero => rfl
  | succ n ih =>
    rw [← Nat.add_assoc, List.range_succ, List.map_append, List.sum_append, ih]
    simp [h]

/-- What a turn adds to the stored bytes of an account is what it adds to one video. -/
theorem storedBytes_le {account : AccountId}
    (hlinks : w'.accountTeamLinks = w.accountTeamLinks) (huuid : w.uuid ≤ w'.uuid)
    (hnone : ∀ u, w.uuid ≤ u → w.videos.row u = none) {v : VideoId} {n : ℕ}
    (h : ∀ u, u ≠ v → reservedBytes w.accountTeamLinks account (w'.videos.row u) ≤
      reservedBytes w.accountTeamLinks account (w.videos.row u))
    (hv : reservedBytes w.accountTeamLinks account (w'.videos.row v) ≤
      reservedBytes w.accountTeamLinks account (w.videos.row v) + n) :
    storedBytes w' account ≤ storedBytes w account + n := by
  rw [storedBytes_eq, storedBytes_eq, hlinks]
  calc ((List.range w'.uuid).map fun u =>
        reservedBytes w.accountTeamLinks account (w'.videos.row u)).sum
      ≤ ((List.range w'.uuid).map fun u =>
          reservedBytes w.accountTeamLinks account (w.videos.row u)).sum + n :=
        sum_map_le_add List.nodup_range h hv
    _ = ((List.range w.uuid).map fun u =>
          reservedBytes w.accountTeamLinks account (w.videos.row u)).sum + n := by
        obtain ⟨k, hk⟩ := Nat.exists_eq_add_of_le huuid
        rw [hk, sum_map_range_add _ _ _ fun u hu => by rw [hnone u hu]; rfl]

/-! ### One turn -/

/-- Only an insertion and a requeue make a video count for more. -/
theorem VideoMove.reservedBytes_le (links : TeamId → Option AccountId) (account : AccountId)
    {v : VideoId} {o o' : Option Video} (h : VideoMove S w p v o o') :
    reservedBytes links account o' ≤ reservedBytes links account o ∨
      (∃ req checked plan uploadId, p = .initiate req (.insertVideo checked plan v uploadId) ∧
        o' = some (InitiateUpload.newVideo S req w v uploadId)) ∨
      ∃ r loaded row, p = .requeueProcessing v (.setPending r loaded row) ∧ o = some r ∧
        o' = some { r with status := .queued } := by
  have le {r r' : Video} (ht : r'.teamId = r.teamId) (hn : r'.fileSizeBytes = r.fileSizeBytes)
      (hs : r.status = .failed → r'.status = .failed) :
      reservedBytes links account (some r') ≤ reservedBytes links account (some r) := by
    simp only [reservedBytes, ht, hn]
    split
    · next h => rw [if_pos ⟨h.1, fun hf => h.2 (hs hf)⟩]
    · exact Nat.zero_le _
  cases h with
  | keep => exact .inl (Nat.le_refl _)
  | delete => exact .inl (Nat.zero_le _)
  | insert hp => exact .inr (.inl ⟨_, _, _, _, hp, rfl⟩)
  | requeueProcessing hp => exact .inr (.inr ⟨_, _, _, hp, rfl, rfl⟩)
  | raw _ _ _ hu => exact .inl (le hu.teamId hu.fileSizeBytes fun hf => hu.status.trans hf)
  | setProcessing _ _ hs | setQueued _ _ hs =>
    exact .inl (le rfl rfl fun hf => by rcases hs with hs | hs <;> cases hs.symm.trans hf)
  | materialize _ _ hs | setProcessed _ _ hs | complete _ _ hs =>
    exact .inl (le rfl rfl fun hf => by cases hs.symm.trans hf)
  | markFailed => exact .inl (le rfl rfl fun hf => hf)
  | _ => exact .inl (le rfl rfl fun _ => rfl)

theorem InitiateUpload.step_checkedBytes (account : AccountId) {req : InitiateUpload} {pc pc' : Pc}
    (h : step S pid req w a pc = some (.initiate req pc', f)) :
    (Proc.initiate req pc').checkedBytes account ≤ (Proc.initiate req pc).checkedBytes account ∨
      ∃ plan, pc = .checkStorageQuota account plan ∧ f = .skip ∧
        checkVideoStorageQuota req.shows w account plan req.fileSizeBytes ∧
        (Proc.initiate req pc').checkedBytes account = req.fileSizeBytes := by
  cases pc with
  | checkStorageQuota checked plan =>
    simp only [step, deny] at h
    split at h
    · next hq =>
      cases h
      by_cases hc : checked = account
      · subst hc
        exact .inr ⟨plan, rfl, rfl, hq, by simp [Proc.checkedBytes]⟩
      · exact .inl (by simp [Proc.checkedBytes, hc])
    · cases h
  | lockAccount | checkUploadQuota | flushVideo | presign | insertVideo =>
    left
    simp only [step, deny] at h
    grind [Proc.checkedBytes]

/-- A request checks the quota before it counts as checked. -/
theorem Proc.step_checkedBytes (account : AccountId) (h : p.step S pid a w = some (p', f)) :
    p'.checkedBytes account ≤ p.checkedBytes account ∨
      ∃ req plan, p = .initiate req (.checkStorageQuota account plan) ∧ f = .skip ∧
        checkVideoStorageQuota req.shows w account plan req.fileSizeBytes ∧
        p'.checkedBytes account = req.fileSizeBytes := by
  cases p' with
  | initiate req pc' =>
    obtain ⟨pc, rfl, hs⟩ := Proc.step_origin h
    rcases InitiateUpload.step_checkedBytes account hs with hle | ⟨plan, rfl, hq⟩
    · exact .inl hle
    · exact .inr ⟨req, plan, rfl, hq⟩
  | _ => exact .inl (Nat.zero_le _)

/-- What the turn of a process may add to the stored bytes of an account. -/
def Proc.growth (links : TeamId → Option AccountId) (account : AccountId) : Proc → ℕ
  | .initiate req (.insertVideo ..) =>
    if links req.teamId = some account then req.fileSizeBytes else 0
  | .requeueProcessing _ (.setPending video _ _) =>
    if links video.teamId = some account then video.fileSizeBytes else 0
  | _ => 0

/-- The video whose row the turn of a process may make count for more. -/
def Proc.grown : Proc → VideoId
  | .initiate _ (.insertVideo _ _ v _) | .requeueProcessing v _ => v
  | _ => 0

section Step

variable {c : State} {i : Pid} {account : AccountId}

/-- **What a turn adds to the stored bytes of an account.** -/
theorem storedBytes_after (hid : c.Identified) (hsound : c.Sound S)
    (hs : (c.procs i).step S i a c.world = some (p, f)) (account : AccountId) :
    storedBytes (c.world.apply i f) account ≤
      storedBytes c.world account +
        (c.procs i).growth c.world.accountTeamLinks account := by
  have hframe := apply_frame (Proc.step_sound (hsound.holds i) p f hs).1
  have hnone : ∀ u, c.world.uuid ≤ u → c.world.videos.row u = none := by
    intro u hu
    rw [Option.eq_none_iff_forall_ne_some]
    intro r hr
    exact Nat.not_lt.mpr hu (hid.rows u r hr).drawn
  have hmove u := (Proc.videoMove (hsound.holds i) hs u).reservedBytes_le c.world.accountTeamLinks
    account
  refine storedBytes_le hframe.links hframe.uuid hnone (v := (c.procs i).grown) ?_ ?_
  · intro u hu
    rcases hmove u with hle | ⟨req, checked, plan, uploadId, hp, -⟩ | ⟨r, loaded, row, hp, -⟩
    · exact hle
    · exact (hu (by rw [hp]; rfl)).elim
    · exact (hu (by rw [hp]; rfl)).elim
  · rcases hmove (c.procs i).grown with hle | ⟨req, checked, plan, uploadId, hp, ho⟩ |
      ⟨r, loaded, row, hp, -, ho⟩
    · exact Nat.le_add_right_of_le hle
    · rw [ho, hp]
      exact Nat.le_add_left_of_le (by simp [reservedBytes, Proc.growth, InitiateUpload.newVideo])
    · rw [ho, hp]
      exact Nat.le_add_left_of_le (by simp [reservedBytes, Proc.growth])

theorem storedBytes_error {message : String}
    (hs : (c.procs i).step S i (.error message) c.world = some (p, f)) :
    storedBytes (c.world.apply i f) account = storedBytes c.world account := by
  obtain ⟨-, rfl⟩ := Proc.step_error.mp hs
  simp only [storedBytes_eq, World.apply, World.row_videos_commit, List.not_mem_nil,
    if_false, Table.putAll_nil]
  rfl

/-- Who has checked a quota holds the lock of the account. -/
theorem Proc.Holds.owns_of_checkedBytes (h : p.Holds S pid w) (hp : 0 < p.checkedBytes account) :
    ∃ plan, w.accounts.Owns pid account (some plan) := by
  cases p with
  | initiate req pc =>
    cases pc with
    | flushVideo checked plan | presign checked plan _ | insertVideo checked plan _ _ =>
      have hc : checked = account := by
        by_contra hne
        simp [checkedBytes, hne] at hp
      exact ⟨plan, hc ▸ h.1⟩
    | lockAccount | checkUploadQuota | checkStorageQuota => cases hp
  | _ => cases hp

/-- The turn that inserts a video ends the request. -/
theorem InitiateUpload.step_insertVideo {req : InitiateUpload} {checked : AccountId} {plan : Plan}
    {v : VideoId} {uploadId : Option UploadId}
    (h : (Proc.initiate req (.insertVideo checked plan v uploadId)).step S pid a w = some (p, f)) :
    p = .done := by
  by_cases ha : a.isError = true
  · obtain ⟨message, rfl⟩ := Answer.isError_iff.mp ha
    exact (Option.some.inj (Proc.step_error.mp h).1).symm
  · rw [Proc.step_of_not_error fun m hm => ha (by rw [hm]; rfl)] at h
    cases h
    rfl

/-- No account has stored more than its plan allows, whatever upload is being initiated. -/
def State.WithinLimits (c : State) : Prop :=
  ∀ account plan limit, c.world.accounts.row account = some plan → plan.storageLimit = some limit →
    ∀ j, storedBytes c.world account + (c.procs j).checkedBytes account ≤ limit

theorem State.WithinLimits.after (hc : c.WithinLimits) (hid : c.Identified) (hsound : c.Sound S)
    (hok : StoresWithin c i a) (hs : (c.procs i).step S i a c.world = some (p, f)) :
    (c.after i p f).WithinLimits := by
  intro account plan limit hplan hlimit j
  have hh := hsound.holds i
  have hframe := apply_frame (Proc.step_sound hh p f hs).1
  replace hplan : c.world.accounts.row account = some plan := hframe.plans ▸ hplan
  have hinv := hc account plan limit hplan hlimit
  have hgrow := storedBytes_after hid hsound hs account
  rw [State.world_after]
  -- Where nothing grows, a process counts for more only if it has just checked the quota, and then
  -- the condition says that all that is stored leaves room too.
  have still (hle : storedBytes (c.world.apply i f) account ≤
      storedBytes c.world account) :
      storedBytes (c.world.apply i f) account +
        ((c.after i p f).procs j).checkedBytes account ≤ limit := by
    by_cases hj : j = i
    · subst hj
      rw [State.procs_after]
      rcases Proc.step_checkedBytes account hs with hk | ⟨req, plan', hp, hf, hq, hk⟩
      · have := hinv j
        omega
      · rw [hp] at hh
        obtain rfl : plan' = plan := Option.some.inj (hh.1.2.symm.trans hplan)
        simp only [checkVideoStorageQuota, hlimit, Option.all_some, decide_eq_true_eq] at hq
        have ha : ¬ a.isError := by
          intro ha
          obtain ⟨message, rfl⟩ := Answer.isError_iff.mp ha
          cases hf.symm.trans (Proc.step_error.mp hs).2
        have hroom := hok.resolve_left ha
        rw [hp] at hroom
        have := hroom limit hlimit hq
        omega
    · rw [State.procs_after_of_ne _ _ _ _ hj]
      have := hinv j
      omega
  by_cases ha : a.isError = true
  · obtain ⟨message, rfl⟩ := Answer.isError_iff.mp ha
    exact still (storedBytes_error hs).le
  cases hp : c.procs i with
  | initiate req pc =>
    cases pc with
    | insertVideo checked plan' v uploadId =>
      rw [hp] at hs hh hgrow
      have hdone := InitiateUpload.step_insertVideo hs
      have hk : (c.procs i).growth c.world.accountTeamLinks account =
          (c.procs i).checkedBytes account := by
        simp [hp, Proc.growth, Proc.checkedBytes, hh.2.1]
      rw [← hp, hk] at hgrow
      have hi := hinv i
      by_cases hj : j = i
      · subst hj
        rw [State.procs_after, hdone]
        exact Nat.le_trans hgrow hi
      · rw [State.procs_after_of_ne _ _ _ _ hj]
        have hj' := hinv j
        by_cases h0 : 0 < (c.procs i).checkedBytes account ∧ 0 < (c.procs j).checkedBytes account
        · obtain ⟨_, hoi⟩ := (hsound.holds i).owns_of_checkedBytes h0.1
          obtain ⟨_, hoj⟩ := (hsound.holds j).owns_of_checkedBytes h0.2
          exact (hj (hoj.session_eq hoi)).elim
        · omega
    | lockAccount | checkUploadQuota | checkStorageQuota | flushVideo | presign =>
      exact still (by rw [hp] at hgrow; exact hgrow)
  | requeueProcessing v pc =>
    cases pc with
    | setPending video loaded row =>
      replace hok := hok.resolve_left ha
      rw [hp] at hok hgrow
      by_cases hlink : c.world.accountTeamLinks video.teamId = some account
      · have hlim := hok account plan limit hlink hplan hlimit j
        have hk : ((c.after i p f).procs j).checkedBytes account ≤
            (c.procs j).checkedBytes account := by
          by_cases hj : j = i
          · subst hj
            rw [State.procs_after]
            rcases Proc.step_checkedBytes account hs with hk | ⟨req, plan', hp', -⟩
            · exact hk
            · cases hp.symm.trans hp'
          · rw [State.procs_after_of_ne _ _ _ _ hj]
        simp only [Proc.growth, hlink, if_true] at hgrow
        omega
      · exact still (by simpa [Proc.growth, hlink] using hgrow)
    | lockVideo | loadJob | lockJob | headRaw =>
      exact still (by rw [hp] at hgrow; exact hgrow)
  | _ => exact still (by rw [hp] at hgrow; exact hgrow)

end Step

/-- **In every run whose turns satisfy the condition, no account has stored more than its plan
allows.** -/
theorem storedBytes_le_of_reach {c : State}
    (h : (system S).Reach Deployed StoresWithin c) {account : AccountId} {plan : Plan} {limit : ℕ}
    (hplan : c.world.accounts.row account = some plan) (hlimit : plan.storageLimit = some limit) :
    storedBytes c.world account ≤ limit := by
  have hc : c.WithinLimits := by
    refine invariant_of_reach (Q := State.WithinLimits) ?_ ?_ h
    · rintro c ⟨⟨accounts, links, hw⟩, hf⟩ account plan limit - - j
      have hnone : (c.procs j).checkedBytes account = 0 := by
        have hfresh := hf j
        revert hfresh
        cases c.procs j with
        | initiate req pc => cases pc <;> first | exact fun h => h.elim | exact fun _ => rfl
        | _ => exact fun _ => rfl
      rw [hnone, hw]
      exact Nat.zero_le _
    · intro c i a p f hreach hc hok hs
      exact hc.after (identified_of_reach hreach) (sound_of_reach hreach) hok hs
  exact Nat.le_of_add_right_le (hc account plan limit hplan hlimit 0)

/-! ### Given runs -/

/-- A deployment with one account, whose plan allows 1 GB, and processes that upload a video of
that size: the first six as in `oneUpload`. -/
def oneGigabyte (procs : List Proc) : State :=
  deployment (fun _ => some ⟨none, some 1, none, 0⟩) (fun _ => some 0)
    (.initiate ⟨0, 1073741824, none, []⟩ .lockAccount :: .client 0 ⟨1073741824, 7, none, none⟩ ::
      .complete ⟨0, none, none⟩ .lockVideo :: procs)

theorem deployed_oneGigabyte (procs : List Proc) (h : ∀ p ∈ procs, p.IsFresh) :
    Deployed (oneGigabyte procs) := by
  refine deployed_deployment ?_
  simpa [Proc.IsFresh] using h

/-- A check that implies the condition where nothing is requeued. -/
def State.storesWithinCheck (c : State) (i : Pid) (_ : Answer) : Bool :=
  match c.procs i with
  | .requeueProcessing _ (.setPending ..) => false
  | .initiate req (.checkStorageQuota account plan) =>
    plan.storageLimit.all fun limit => storedBytes c.world account + req.fileSizeBytes ≤ limit
  | _ => true

theorem storesWithin_of_check {c : State} {i : Pid} (h : c.storesWithinCheck i a = true) :
    StoresWithin c i a := by
  unfold State.storesWithinCheck at h
  refine .inr ?_
  split at h
  · cases h
  · intro limit hlimit _
    simpa [hlimit] using h
  · trivial

/-- An account uploads what its plan allows. -/
theorem exists_storedBytes_le :
    ∃ c plan limit, (system .default).Reach Deployed StoresWithin c ∧
      c.world.accounts.row 0 = some plan ∧ plan.storageLimit = some limit ∧
      0 < storedBytes c.world 0 ∧ storedBytes c.world 0 ≤ limit := by
  obtain ⟨c, hc, hs⟩ := exists_reach_of_check (S := .default) (n := 3) State.storesWithinCheck
    (fun _ _ _ _ => storesWithin_of_check)
    (deployed_oneGigabyte [] (by simp)) (bounded_deployment _ _ [_, _, _]) uploadTurns
    (fun c => (c.world.accounts.row 0).any fun plan => plan.storageLimit.isSome &&
      decide (0 < storedBytes c.world 0)) (by decide +kernel)
  obtain ⟨plan, hplan, hs⟩ := (Option.any_eq_true _ _).mp hs
  simp only [Bool.and_eq_true, Option.isSome_iff_exists, decide_eq_true_eq] at hs
  obtain ⟨⟨limit, hlimit⟩, hpos⟩ := hs
  exact ⟨c, plan, limit, hc, hplan, hlimit, hpos,
    storedBytes_le_of_reach hc hplan hlimit⟩

/-- A video whose transcode has been cancelled does not count. The account uploads another one, and
requeues the first. -/
theorem exists_lt_storedBytes :
    ∃ c plan limit, (system .default).Reach Deployed Machine.Always c ∧
      c.world.accounts.row 0 = some plan ∧ plan.storageLimit = some limit ∧
      limit < storedBytes c.world 0 := by
  obtain ⟨c, hc, hs⟩ := Machine.exists_reach_of_exec (system .default) Machine.Always
    (deployed_oneGigabyte [.clock, .dispatch .select, .worker, .cancelProcessing 0 1 .lockVideo,
      .initiate ⟨0, 1073741824, none, []⟩ .lockAccount, .requeueProcessing 0 .lockVideo]
      (by simp [Proc.IsFresh]))
    (deliveryTurns ++ turns 5 2 ++ turns 6 4 ++ turns 7 6 ++ turns 8 5)
    (fun c : State => (c.world.accounts.row 0).any fun plan => plan.storageLimit.any fun limit =>
      limit < storedBytes c.world 0) (by decide +kernel)
  obtain ⟨plan, hplan, hs⟩ := (Option.any_eq_true _ _).mp hs
  obtain ⟨limit, hlimit, hs⟩ := (Option.any_eq_true _ _).mp hs
  exact ⟨c, plan, limit, hc, hplan, hlimit, by simpa using hs⟩

/-- The same without a requeue: the coach of another team of the account, who is not a member of the
first one, does not see what that team has stored. -/
theorem exists_lt_storedBytes_of_hidden :
    ∃ c plan limit, (system .default).Reach Deployed Machine.Always c ∧
      c.world.accounts.row 0 = some plan ∧ plan.storageLimit = some limit ∧
      limit < storedBytes c.world 0 := by
  obtain ⟨c, hc, hs⟩ := Machine.exists_reach_of_exec (system .default) Machine.Always
    (deployed_oneGigabyte [.initiate ⟨1, 1073741824, none, []⟩ .lockAccount]
      (by simp [Proc.IsFresh])) (uploadTurns ++ turns 3 6)
    (fun c : State => (c.world.accounts.row 0).any fun plan => plan.storageLimit.any fun limit =>
      limit < storedBytes c.world 0) (by decide +kernel)
  obtain ⟨plan, hplan, hs⟩ := (Option.any_eq_true _ _).mp hs
  obtain ⟨limit, hlimit, hs⟩ := (Option.any_eq_true _ _).mp hs
  exact ⟨c, plan, limit, hc, hplan, hlimit, by simpa using hs⟩

end NextBallUp
