import NextBallUp.Reservations

/-!
# Releases of upload slots

Three paths release the slot of a video: a cancelled upload, a deleted video, and the pass over
abandoned uploads. Each sums the ledger, and records a release if the sum is positive. The two
requests do so under the lock of the video. The pass does not, when its `UPDATE` has matched no row,
and then nothing keeps two sessions from releasing the same slot.

## Main definitions

* `Proc.summing`: the video for which a process is about to sum the ledger
* `ReleasesOnce`: the condition on a turn

## Main results

* `netSlots_of_reach`: **in every run of turns that satisfy the condition, the net reservation of
  every video is 0 or 1**
* `exists_netSlots_neg`: two passes release the same slot
-/

namespace NextBallUp

variable {S : Settings} {w w' : World} {pid : Pid} {a : Answer} {p p' : Proc} {f : Effect}

/-- The video for which the process is about to sum the ledger, and the team it does so for. -/
def Proc.summing : Proc → Option (TeamId × VideoId)
  | .abandoned (.sumReserved video _ _ _ _) => some (video.2.teamId, video.1)
  | .cancelUpload v (.sumReserved video) | .deleteFailed v (.sumReserved video) =>
    some (video.teamId, v)
  | _ => none

/-- The condition on a turn: it sums the ledger for a video only if no other session has found a
positive sum for the same video and has still to record the release. -/
def ReleasesOnce (c : State) (i : Pid) (a : Answer) : Prop :=
  a.isError ∨ ∀ x, (c.procs i).summing = some x →
    ∀ j, j ≠ i → ∀ r, (c.procs j).releasing = some r → 0 < r.net → r.videoId ≠ x.2

theorem CleanupAbandonedUploads.loop_ne_release {turns done : List AbandonedTurn}
    {todo rest : List (VideoId × Video)} {video : VideoId × Video} {moved : Option Video}
    {cleaned : Bool} {account : Option AccountId} {net : ℤ} :
    loop turns todo ≠ .release video moved cleaned account net rest done := by
  cases todo <;> intro h <;> cases h

theorem DeleteFailedVideo.next_ne_release {r video : Video} {failures todo : List StorageHandle}
    {account : Option AccountId} {net : ℤ} : next r failures todo ≠ .release video account net := by
  cases todo with
  | nil => by_cases h : failures = [] <;> simp [next, h]
  | cons =>
    intro h
    cases h

/-- A process comes to release a slot by summing the ledger. -/
theorem Proc.step_releasing {r : Release} (h : p.step S pid a w = some (p', f))
    (hr : p'.releasing = some r) :
    f = .skip ∧ ∃ x, p.summing = some x ∧
      r = ⟨x.2, x.1, (sumReserved w x.1 x.2).1, (sumReserved w x.1 x.2).2⟩ := by
  cases p' with
  | abandoned pc' =>
    cases pc' <;> cases hr
    obtain ⟨pc, rfl, hs⟩ := Proc.step_origin h
    cases pc <;> simp only [CleanupAbandonedUploads.step, Table.locate_eq_some] at hs
    case sumReserved =>
      cases hs
      exact ⟨rfl, _, rfl, rfl⟩
    all_goals grind [CleanupAbandonedUploads.loop_ne_release]
  | cancelUpload v pc' =>
    cases pc' <;> cases hr
    obtain ⟨pc, rfl, hs⟩ := Proc.step_origin h
    cases pc <;> simp only [CancelUpload.step, Table.locate_eq_some] at hs
    case sumReserved =>
      cases hs
      exact ⟨rfl, _, rfl, rfl⟩
    all_goals grind
  | deleteFailed v pc' =>
    cases pc' <;> cases hr
    obtain ⟨pc, rfl, hs⟩ := Proc.step_origin h
    cases pc <;> simp only [DeleteFailedVideo.step, Table.locate_eq_some] at hs
    case sumReserved =>
      cases hs
      exact ⟨rfl, _, rfl, rfl⟩
    all_goals grind [DeleteFailedVideo.next_ne_release]
  | _ => cases hr

/-! ### Runs -/

/-- The ledger is balanced, and whoever is about to record a release is the only one to do so, and
the slot is reserved. -/
structure State.Slots (c : State) : Prop where
  balanced : Balanced c.world.usageEvents
  reserved : ∀ i r, (c.procs i).releasing = some r → 0 < r.net →
    ∃ account, r.account = some account ∧
      IsReserved c.world.usageEvents account r.teamId r.videoId
  once : ∀ i j r r', (c.procs i).releasing = some r → (c.procs j).releasing = some r' →
    0 < r.net → 0 < r'.net → r.videoId = r'.videoId → i = j

section Step

variable {c : State} {i : Pid}

/-- What a turn records keeps the ledger balanced, and releases no slot that another session is
about to release. -/
theorem State.Slots.ledger (hc : c.Slots) (hid : c.Identified) (hsound : c.Sound S)
    (hs : (c.procs i).step S i a c.world = some (p, f)) :
    Balanced (c.world.usageEvents ++ f.usageEvents) ∧
      ∀ j, j ≠ i → ∀ r, (c.procs j).releasing = some r → 0 < r.net →
        ∀ e ∈ f.usageEvents, e.releases → e.videoId ≠ r.videoId := by
  have hm := Proc.ledgerMove (hsound.holds i) hs
  generalize f.usageEvents = events at hm ⊢
  cases hm with
  | nothing => exact ⟨by simpa using hc.balanced, by simp⟩
  | @initiate req _ plan v uploadId account hp =>
    refine ⟨hc.balanced.initiate (fun e he hv => ?_) _, fun j _ r _ _ e he hrel => ?_⟩
    · exact (hid.events e he).free i (by rw [hp, hv]; rfl)
    · simp only [initiateEvents, List.mem_cons, List.not_mem_nil, or_false] at he
      rcases he with rfl | rfl <;> simp [UsageEvent.releases] at hrel
  | @release r hr =>
    by_cases hn : 0 < r.net
    · obtain ⟨account, hacc, hres⟩ := hc.reserved i r hr hn
      have hev : r.events c.world.now =
          [⟨account, r.teamId, .videoUploadInitiated, -1, c.world.now, r.videoId⟩] := by
        simp [Release.events, releaseEvents, hacc, Int.not_le.mpr hn]
      rw [hev]
      refine ⟨hc.balanced.release hres, fun j hj r' hr' hn' e he _ hv => hj ?_⟩
      rw [List.mem_singleton.mp he] at hv
      exact hc.once j i r' r hr' hr hn' hn hv.symm
    · have hev : r.events c.world.now = [] := by
        unfold Release.events releaseEvents
        split <;> simp [Int.not_lt.mp hn]
      rw [hev]
      exact ⟨by simpa using hc.balanced, by simp⟩

/-- A process that has just found a positive sum. -/
theorem State.Slots.summed (hc : c.Slots) {x : TeamId × VideoId}
    (hn : 0 < (sumReserved c.world x.1 x.2).2) :
    ∃ account, (sumReserved c.world x.1 x.2).1 = some account ∧
      IsReserved c.world.usageEvents account x.1 x.2 := by
  unfold sumReserved at hn ⊢
  split at hn
  · cases hn
  · next account plan hr => exact ⟨account, by simp, hc.balanced.isReserved hn⟩

theorem State.Slots.after (hc : c.Slots) (hid : c.Identified) (hsound : c.Sound S)
    (hok : ReleasesOnce c i a) (hs : (c.procs i).step S i a c.world = some (p, f)) :
    (c.after i p f).Slots := by
  obtain ⟨hbal, hothers⟩ := hc.ledger hid hsound hs
  -- What a process that is about to release afterwards has found, and when.
  have new {r} (hr : p.releasing = some r) : f = .skip ∧ ∃ x, (c.procs i).summing = some x ∧
      r = ⟨x.2, x.1, (sumReserved c.world x.1 x.2).1, (sumReserved c.world x.1 x.2).2⟩ ∧
      ∀ j, j ≠ i → ∀ r, (c.procs j).releasing = some r → 0 < r.net → r.videoId ≠ x.2 := by
    obtain ⟨hf, x, hx, hr'⟩ := Proc.step_releasing hs hr
    refine ⟨hf, x, hx, hr', fun j => ?_⟩
    rcases hok with ha | hok
    · obtain ⟨message, rfl⟩ := Answer.isError_iff.mp ha
      cases (Proc.step_error.mp hs).2.symm.trans hf
    · exact hok x hx j
  refine ⟨?_, fun j r hr hn => ?_, fun j k r r' hr hr' hn hn' hv => ?_⟩
  · rwa [State.world_after, usageEvents_apply]
  · rw [State.world_after, usageEvents_apply]
    by_cases hj : j = i
    · subst hj
      rw [State.procs_after] at hr
      obtain ⟨rfl, x, -, rfl, -⟩ := new hr
      simpa [Effect.usageEvents] using hc.summed hn
    · rw [State.procs_after_of_ne _ _ _ _ hj] at hr
      obtain ⟨account, hacc, hres⟩ := hc.reserved j r hr hn
      exact ⟨account, hacc, hres.append fun e he hrel => hothers j hj r hr hn e he hrel⟩
  · by_cases hj : j = i <;> by_cases hk : k = i
    · exact hj.trans hk.symm
    · subst hj
      rw [State.procs_after] at hr
      rw [State.procs_after_of_ne _ _ _ _ hk] at hr'
      obtain ⟨-, x, -, rfl, hne⟩ := new hr
      exact absurd hv.symm (hne k hk r' hr' hn')
    · subst hk
      rw [State.procs_after_of_ne _ _ _ _ hj] at hr
      rw [State.procs_after] at hr'
      obtain ⟨-, x, -, rfl, hne⟩ := new hr'
      exact absurd hv (hne j hj r hr hn)
    · rw [State.procs_after_of_ne _ _ _ _ hj] at hr
      rw [State.procs_after_of_ne _ _ _ _ hk] at hr'
      exact hc.once j k r r' hr hr' hn hn' hv

end Step

theorem slots_of_reach {c : State} (h : (system S).Reach Deployed ReleasesOnce c) : c.Slots := by
  refine invariant_of_reach (Q := State.Slots) ?_ ?_ h
  · rintro c ⟨⟨accounts, links, hw⟩, hf⟩
    have none {i r} (hr : (c.procs i).releasing = some r) : False := by
      have hfresh := hf i
      revert hr hfresh
      cases c.procs i with
      | abandoned pc | cancelUpload _ pc | deleteFailed _ pc =>
        cases pc <;> intro hr hfresh <;> first | exact hfresh | cases hr
      | _ => intro hr; cases hr
    refine ⟨?_, fun i r hr => (none hr).elim, fun i j r r' hr => (none hr).elim⟩
    rw [hw]
    exact balanced_nil
  · intro c i a p f hreach hc hok hs
    exact hc.after (identified_of_reach hreach) (sound_of_reach hreach) hok hs

/-- **In every run whose turns satisfy the condition, the net reservation of every video is 0 or
1.** -/
theorem netSlots_of_reach {c : State} (h : (system S).Reach Deployed ReleasesOnce c)
    (v : VideoId) : netSlots c.world.usageEvents v = 0 ∨ netSlots c.world.usageEvents v = 1 :=
  (slots_of_reach h).balanced.netSlots v

/-! ### Given runs -/

/-- Of the first `n` processes, no other than `i` is about to release a slot. -/
def State.releasesAlone (n : ℕ) (c : State) (i : Pid) (_ : Answer) : Bool :=
  (List.range n).all fun j => j = i || (c.procs j).releasing.isNone

theorem releasesOnce_of_releasesAlone {n : ℕ} {c : State} {i : Pid} (hb : c.Bounded n)
    (h : c.releasesAlone n i a = true) : ReleasesOnce c i a := by
  refine .inr fun x _ j hj r hr => ?_
  simp only [State.releasesAlone, List.all_eq_true, List.mem_range] at h
  by_cases hn : j < n
  · have hnone : (c.procs j).releasing = none := by simpa [hj] using h j hn
    cases hr.symm.trans hnone
  · rw [hb j (Nat.le_of_not_lt hn)] at hr
    cases hr

/-- An upload that is cancelled, and another one. -/
theorem exists_netSlots :
    ∃ c, (system .default).Reach Deployed ReleasesOnce c ∧
      (netSlots c.world.usageEvents 0 = 0 ∧ netSlots c.world.usageEvents 1 = 1) ∧
      ∀ v, netSlots c.world.usageEvents v = 0 ∨ netSlots c.world.usageEvents v = 1 := by
  obtain ⟨c, hc, hs⟩ := exists_reach_of_check (S := .default) (State.releasesAlone 5)
    (fun _ _ _ => releasesOnce_of_releasesAlone)
    (deployed_oneUpload [.cancelUpload 0 .lockVideo, .initiate ⟨0, 10, none, []⟩ .lockAccount]
      (by simp [Proc.IsFresh]))
    (bounded_oneUpload [.cancelUpload 0 .lockVideo, .initiate ⟨0, 10, none, []⟩ .lockAccount])
    (turns 0 6 ++ turns 4 6 ++ turns 3 4)
    (fun c => netSlots c.world.usageEvents 0 = 0 ∧ netSlots c.world.usageEvents 1 = 1)
    (by decide +kernel)
  exact ⟨c, hc, by simpa using hs, netSlots_of_reach hc⟩

/-- Two passes select an expired upload, which is then completed. Both sum the ledger before either
records its release. -/
theorem exists_netSlots_neg :
    ∃ c, (system .default).Reach Deployed Machine.Always c ∧
      netSlots c.world.usageEvents 0 = -1 := by
  obtain ⟨c, hc, hs⟩ := Machine.exists_reach_of_exec (system .default) Machine.Always
    (deployed_oneUpload [.clock, .abandoned .select, .abandoned .select] (by simp [Proc.IsFresh]))
    (turns 0 6 ++ turns 1 1 ++ [(3, .seconds 4000), (4, .videos [0]), (5, .videos [0])] ++
      turns 2 3 ++ turns 4 3 ++ turns 5 3 ++ turns 4 1 ++ turns 5 1)
    (fun c : State => netSlots c.world.usageEvents 0 = -1) (by decide +kernel)
  exact ⟨c, hc, by simpa using hs⟩

end NextBallUp
