import NextBallUp.UploadSlots

/-!
# Slots of failed uploads

`cancel_upload`, `delete_failed_video` and `cleanup_abandoned_uploads` take a video out of
PENDING_UPLOAD, and give its slot back in the same transaction. They look for the reservation at the
account that the team resolves to by then. If that is no active account, or another one than that
which holds the reservation, they record nothing.

## Main definitions

* `BillingChange`: what may change between two turns
* `HoldsSlot`, `SlotReturned`, `HoldsNoSlot`: what the ledger says of the slot of a video
* `GivesUp`: a turn that takes a video out of PENDING_UPLOAD on one of the three paths
* `ResolvesReservation`: the condition on a turn

## Main results

* `netSlots_of_givesUp`: **in every run of turns that satisfy the condition, nothing remains
  recorded for a video that has been given up**, whatever billing changes come between them
* `exists_netSlots_of_inactive`: an account that is charged for a cancelled upload
-/

namespace NextBallUp

variable {S : Settings} {w : World} {pid : Pid} {a : Answer} {p p' : Proc} {f : Effect}
  {v : VideoId} {events : List UsageEvent}

/-! ### Billing changes -/

/-- A change of the billing data, made elsewhere. -/
inductive BillingChange
  /-- The account becomes active under a plan, or it is suspended or deleted or loses its
  subscription. -/
  | account (id : AccountId) (plan : Option Plan)
  /-- The team is linked to an account, or its link is removed. -/
  | link (team : TeamId) (account : Option AccountId)

def BillingChange.apply (b : BillingChange) (w : World) : World :=
  match b with
  | .account id plan =>
    { w with accounts := { w.accounts with row := Function.update w.accounts.row id plan } }
  | .link team id => { w with accountTeamLinks := Function.update w.accountTeamLinks team id }

/-- The states reached by turns that satisfy a condition, between which billing data change. -/
abbrev BilledReach (S : Settings) (init : State → Prop) (ok : State → Pid → Answer → Prop) :
    State → Prop :=
  (system S).ReachUnder BillingChange.apply init ok

/-- A billing change. -/
def State.bill (c : State) (b : BillingChange) : State := ⟨c.procs, b.apply c.world⟩

@[simp] theorem State.procs_bill (c : State) (b : BillingChange) : (c.bill b).procs = c.procs := rfl

section Bill

variable (w) (b : BillingChange)

@[simp] theorem BillingChange.videos_apply : (b.apply w).videos = w.videos := by cases b <;> rfl

@[simp] theorem BillingChange.uuid_apply : (b.apply w).uuid = w.uuid := by cases b <;> rfl

@[simp] theorem BillingChange.usageEvents_apply : (b.apply w).usageEvents = w.usageEvents := by
  cases b <;> rfl

end Bill

theorem Proc.HoldsRows.bill {b : BillingChange} (h : p.HoldsRows S pid w) :
    p.HoldsRows S pid (b.apply w) := by
  cases p with
  | initiate req pc => cases b <;> cases pc <;> exact h
  | _ => cases b <;> exact h

/-- **Induction over runs under billing changes.** -/
theorem BilledReach.invariant {init : State → Prop} {ok : State → Pid → Answer → Prop}
    {Q : State → Prop} (hinit : ∀ c, init c → Q c)
    (hstep : ∀ (c : State) i a p f, Q c → ok c i a →
      (c.procs i).step S i a c.world = some (p, f) → Q (c.after i p f))
    (hbill : ∀ c b, Q c → Q (State.bill c b)) {c : State} (h : BilledReach S init ok c) : Q c := by
  refine Machine.ReachUnder.invariant hinit ?_ hbill h
  intro c c' i a hc hok hn
  obtain ⟨p, f, hs, rfl⟩ := next_eq_some.mp hn
  exact hstep c i a p f hc hok hs

theorem State.HoldsRows.after {c : State} {i : Pid} (h : c.HoldsRows S)
    (hs : (c.procs i).step S i a c.world = some (p, f)) : (c.after i p f).HoldsRows S := by
  intro j
  obtain ⟨he, hp⟩ := Proc.step_rows (h i) hs
  by_cases hj : j = i
  · subst hj
    rw [State.procs_after]
    exact hp
  · rw [State.procs_after_of_ne _ _ _ _ hj]
    exact (h j).frame (apply_frame he) hj

/-! ### The entries of a slot -/

/-- The entries that reserve the slot of a video or give it back. -/
def slotEntries (events : List UsageEvent) (v : VideoId) : List UsageEvent :=
  events.filter fun e => e.eventKey = .videoUploadInitiated ∧ e.videoId = v

/-- The slot has been reserved by one entry, and not been given back. -/
def HoldsSlot (events : List UsageEvent) (v : VideoId) (account : AccountId) (team : TeamId) :
    Prop :=
  ∃ now, slotEntries events v = [⟨account, team, .videoUploadInitiated, 1, now, v⟩]

/-- The slot has been given back to the account that reserved it. -/
def SlotReturned (events : List UsageEvent) (v : VideoId) : Prop :=
  ∃ account team now now', slotEntries events v =
    [⟨account, team, .videoUploadInitiated, 1, now, v⟩,
      ⟨account, team, .videoUploadInitiated, -1, now', v⟩]

/-- No slot is reserved: none has been, because the team had no account any more when the video was
inserted, or it has been given back. -/
def HoldsNoSlot (events : List UsageEvent) (v : VideoId) : Prop :=
  slotEntries events v = [] ∨ SlotReturned events v

theorem slotEntries_append (events events' : List UsageEvent) (v : VideoId) :
    slotEntries (events ++ events') v = slotEntries events v ++ slotEntries events' v :=
  List.filter_append ..

theorem slotEntries_eq_nil (h : ∀ e ∈ events, e.videoId ≠ v) : slotEntries events v = [] := by
  rw [slotEntries, List.filter_eq_nil_iff]
  intro e he hv
  exact h e he (of_decide_eq_true hv).2

theorem netSlots_eq (events : List UsageEvent) (v : VideoId) :
    netSlots events v = ((slotEntries events v).map UsageEvent.quantity).sum := rfl

theorem netReserved_eq (events : List UsageEvent) (account : AccountId) (team : TeamId)
    (v : VideoId) : netReserved events account team v =
      sumQuantities (slotEntries events v) fun e =>
        e.billingAccountId = account ∧ e.teamId = team := by
  rw [netReserved, sumQuantities, sumQuantities, slotEntries, List.filter_filter]
  congr 2
  refine List.filter_congr fun e _ => ?_
  rw [Bool.eq_iff_iff]
  simp only [decide_eq_true_eq, Bool.and_eq_true]
  tauto

theorem HoldsSlot.netReserved {account : AccountId} {team : TeamId}
    (h : HoldsSlot events v account team) : netReserved events account team v = 1 := by
  obtain ⟨now, h⟩ := h
  rw [netReserved_eq, h]
  simp [sumQuantities]

theorem SlotReturned.netSlots (h : SlotReturned events v) : netSlots events v = 0 := by
  obtain ⟨account, team, now, now', h⟩ := h
  rw [netSlots_eq, h]
  rfl

theorem HoldsNoSlot.netSlots (h : HoldsNoSlot events v) : netSlots events v = 0 := by
  rcases h with h | h
  · rw [netSlots_eq, h]
    rfl
  · exact h.netSlots

/-- Whichever account is asked, nothing is reserved. -/
theorem SlotReturned.netReserved (h : SlotReturned events v) (account : AccountId) (team : TeamId) :
    netReserved events account team v = 0 := by
  obtain ⟨account', team', now, now', h⟩ := h
  rw [netReserved_eq, h]
  by_cases ha : account' = account ∧ team' = team <;> simp [sumQuantities, ha]

theorem netReserved_of_nil (h : slotEntries events v = []) (account : AccountId) (team : TeamId) :
    netReserved events account team v = 0 := by
  rw [netReserved_eq, h]
  rfl

theorem HoldsNoSlot.netReserved (h : HoldsNoSlot events v) (account : AccountId) (team : TeamId) :
    netReserved events account team v = 0 :=
  h.elim (fun h => netReserved_of_nil h account team) fun h => h.netReserved account team

/-! ### Pending videos -/

/-- The video is PENDING_UPLOAD. -/
def World.isPending (w : World) (v : VideoId) : Bool :=
  (w.videos.row v).any (·.status = .pendingUpload)

theorem World.isPending_iff :
    w.isPending v ↔ ∃ r, w.videos.row v = some r ∧ r.status = .pendingUpload := by
  simp [isPending, Option.any_eq_true]

theorem VideoMove.teamId {r r' : Video} (h : VideoMove S w p v (some r) (some r')) :
    r'.teamId = r.teamId := by
  cases h with
  | raw _ _ _ hu => exact hu.teamId
  | _ => rfl

/-- A video that is PENDING_UPLOAD has been so before, or is new. -/
theorem VideoMove.pending {o : Option Video} {r' : Video} (h : VideoMove S w p v o (some r'))
    (hr' : r'.status = .pendingUpload) :
    (∃ r, o = some r ∧ r.status = .pendingUpload) ∨ o = none ∧
      ∃ req account plan id, p = .initiate req (.insertVideo account plan v id) ∧
        r'.teamId = req.teamId := by
  cases h with
  | keep => exact .inl ⟨r', rfl, hr'⟩
  | insert hp => exact .inr ⟨rfl, _, _, _, _, hp, rfl⟩
  | raw _ _ _ hu => exact .inl ⟨_, rfl, hu.status.symm.trans hr'⟩
  | markFailed => exact .inl ⟨_, rfl, hr'⟩
  | materialize => exact .inl ⟨_, rfl, hr'⟩
  | _ => cases hr'

/-- The video whose row the `UPDATE` of a pass has not matched. -/
def Proc.missed : Proc → Option VideoId
  | .abandoned (.sumReserved video none _ _ _) => some video.1
  | .abandoned (.release video none _ _ _ _ _) => some video.1
  | _ => none

theorem CleanupAbandonedUploads.missed_loop (turns : List AbandonedTurn)
    (todo : List (VideoId × Video)) : (Proc.abandoned (loop turns todo)).missed = none := by
  cases todo <;> rfl

theorem Proc.mem_batch_of_missed (h : p.missed = some v) : ∃ r, (v, r) ∈ p.batch := by
  unfold missed at h
  split at h <;> cases h <;> exact ⟨_, List.mem_cons_self ..⟩

/-- An `UPDATE` matches no row only if the video is not PENDING_UPLOAD. -/
theorem Proc.step_missed (h : p.step S pid a w = some (p', f)) (hv : p'.missed = some v) :
    f = .skip ∧ (p.missed = some v ∨ w.isPending v = false) := by
  cases p' with
  | abandoned pc' =>
    obtain ⟨pc, rfl, hs⟩ := Proc.step_origin h
    cases pc with
    | setFailed video cleaned rest turns =>
      simp only [CleanupAbandonedUploads.step, Table.locate_eq_some] at hs
      obtain ⟨o, ho, he⟩ := hs
      cases ho with
      | miss hm =>
        cases he
        cases hv
        refine ⟨rfl, .inr ?_⟩
        rw [← Bool.not_eq_true, World.isPending_iff]
        rintro ⟨r, hr, hp⟩
        have := hm r hr
        simp [CleanupAbandonedUploads.failUpload, hp] at this
      | hit =>
        cases he
        cases hv
    | sumReserved video moved cleaned rest turns =>
      cases hs
      cases moved with
      | none => exact ⟨rfl, .inl hv⟩
      | some => cases hv
    | select | cleanStorage | release | finished =>
      simp only [CleanupAbandonedUploads.step] at hs
      grind [CleanupAbandonedUploads.missed_loop, Proc.missed]
  | _ => cases hv

/-! ### Releases -/

theorem Release.videoId_of_mem {x : Release} {now : Time} {e : UsageEvent}
    (h : e ∈ x.events now) : e.videoId = x.videoId := by
  rw [(Release.of_mem_events h).2.2]

theorem Proc.of_releasing {x : Release} (hx : p.releasing = some x) :
    (∃ video moved cleaned account net rest turns,
      p = .abandoned (.release video moved cleaned account net rest turns) ∧
        x = ⟨video.1, video.2.teamId, account, net⟩) ∨
      ∃ u video account net,
        (p = .cancelUpload u (.release video account net) ∨
          p = .deleteFailed u (.release video account net)) ∧
            x = ⟨u, video.teamId, account, net⟩ := by
  unfold releasing at hx
  split at hx <;> cases hx
  · exact .inl ⟨_, _, _, _, _, _, _, rfl, rfl⟩
  · exact .inr ⟨_, _, _, _, .inl rfl, rfl⟩
  · exact .inr ⟨_, _, _, _, .inr rfl, rfl⟩

/-- A process that is about to release a slot and has not missed the video takes it out of
PENDING_UPLOAD, unless the statement raises. -/
theorem Proc.step_of_releasing {x : Release} (hx : p.releasing = some x)
    (hs : p.step S pid a w = some (p', f)) :
    f = .commit {} ∨ f.usageEvents = x.events w.now ∧
      (p.missed = none → (w.apply pid f).isPending x.videoId = false) := by
  by_cases ha : ∃ message, a = .error message
  · obtain ⟨message, rfl⟩ := ha
    exact .inl (Proc.step_error.mp hs).2
  · rw [Proc.step_of_not_error (fun m hm => ha ⟨m, hm⟩)] at hs
    right
    rcases Proc.of_releasing hx with ⟨video, moved, _, account, net, _, _, rfl, rfl⟩ |
      ⟨u, video, account, net, rfl | rfl, rfl⟩
    · cases hs
      refine ⟨rfl, fun hm => ?_⟩
      cases moved with
      | none => cases hm
      | some r =>
        simp [World.isPending, World.apply, Table.row_put, CleanupAbandonedUploads.failUpload]
    · cases hs
      refine ⟨rfl, fun _ => ?_⟩
      simp [World.isPending, World.apply, Table.row_put, CleanupAbandonedUploads.failUpload]
    · simp only [Proc.turn, DeleteFailedVideo.step] at hs
      split at hs
      · cases hs
        refine ⟨rfl, fun _ => ?_⟩
        simp [World.isPending, World.apply]
      · cases hs

/-- A process that is about to release a slot holds the row of the video, or has missed it. -/
theorem Proc.owns_of_releasing {x : Release} (hh : p.HoldsRows S pid w)
    (hx : p.releasing = some x) :
    p.missed = some x.videoId ∨
      p.missed = none ∧ ∃ r, w.videos.Owns pid x.videoId (some r) := by
  rcases Proc.of_releasing hx with ⟨video, moved, _, account, net, _, _, rfl, rfl⟩ |
    ⟨u, video, account, net, rfl | rfl, rfl⟩
  · cases moved with
    | none => exact .inl rfl
    | some r => exact .inr ⟨rfl, r, hh.1⟩
  · exact .inr ⟨rfl, video, hh.1⟩
  · exact .inr ⟨rfl, video, hh.1⟩

/-- The turn that inserts a video records its reservation for the account of the team, unless the
statement raises. -/
theorem InitiateUpload.step_insertVideo_events {req : InitiateUpload} {account : AccountId}
    {plan : Plan} {id : Option UploadId}
    (hs : (Proc.initiate req (.insertVideo account plan v id)).step S pid a w = some (p', f)) :
    f = .commit {} ∨ f.usageEvents = uploadEvents w req.teamId v req.fileSizeBytes := by
  by_cases ha : ∃ message, a = .error message
  · obtain ⟨message, rfl⟩ := ha
    exact .inl (Proc.step_error.mp hs).2
  · rw [Proc.step_of_not_error (fun m hm => ha ⟨m, hm⟩)] at hs
    cases hs
    exact .inr rfl

/-! ### While a video is pending -/

/-- The condition on a turn, for a video: if it sums the ledger for the video and the video is
PENDING_UPLOAD, the team of the reservation is linked to the account that holds it, and that account
has an active plan. -/
def ResolvesReservation (v : VideoId) (c : State) (i : Pid) (a : Answer) : Prop :=
  a.isError ∨ ∀ x ∈ (c.procs i).summing, x.2 = v → c.world.isPending v →
    ∀ e ∈ c.world.usageEvents, e.reserves → e.videoId = v →
      c.world.accountTeamLinks e.teamId = some e.billingAccountId ∧
        (c.world.accounts.row e.billingAccountId).isSome

instance (v : VideoId) (c : State) (i : Pid) (a : Answer) :
    Decidable (ResolvesReservation v c i a) :=
  inferInstanceAs (Decidable (_ ∨ ∀ x ∈ _, _ → _ → ∀ e ∈ c.world.usageEvents, _))

/-- What is known of all videos in every run. -/
structure State.Treated (S : Settings) (c : State) : Prop where
  rows : c.HoldsRows S
  identified : c.Identified
  /-- A pass knows the teams of its videos. -/
  teams : ∀ i, ∀ x ∈ (c.procs i).batch, ∀ r, c.world.videos.row x.1 = some r →
    r.teamId = x.2.teamId
  missed : ∀ i v, (c.procs i).missed = some v → c.world.isPending v = false

/-- What has been found in the ledger is what it says of the video: no slot, or one that the account
holds. -/
def Release.Finds (x : Release) (events : List UsageEvent) : Prop :=
  slotEntries events x.videoId = [] ∧ x.net ≤ 0 ∨
    0 < x.net ∧ ∃ account, x.account = some account ∧ HoldsSlot events x.videoId account x.teamId

theorem Release.Finds.of_slotEntries_eq {x : Release} {events' : List UsageEvent}
    (h : x.Finds events) (he : slotEntries events' x.videoId = slotEntries events x.videoId) :
    x.Finds events' := by
  simpa only [Release.Finds, HoldsSlot, he] using h

/-- What is known of a video as long as it is PENDING_UPLOAD: its slot, if it has one, is reserved,
and whoever is about to give it back has found the reservation. -/
structure State.Reserving (c : State) (v : VideoId) : Prop where
  slot : ∀ r, c.world.videos.row v = some r → r.status = .pendingUpload →
    slotEntries c.world.usageEvents v = [] ∨
      ∃ account, HoldsSlot c.world.usageEvents v account r.teamId
  found : ∀ i x, (c.procs i).releasing = some x → x.videoId = v → c.world.isPending v →
    x.Finds c.world.usageEvents

section Step

variable {c : State} {i : Pid}

/-- No video becomes PENDING_UPLOAD a second time. -/
theorem State.Treated.pending_before (hc : c.Treated S) (hv : c.Used v)
    (hs : (c.procs i).step S i a c.world = some (p, f))
    (hp : (c.world.apply i f).isPending v = true) : c.world.isPending v = true := by
  obtain ⟨r', hr', hst⟩ := World.isPending_iff.mp hp
  have hm := hr' ▸ Proc.videoMove_of_rows (hc.rows i) hs v
  rcases hm.pending hst with ⟨r, hr, hst⟩ | ⟨-, req, account, plan, id, hi, -⟩
  · exact World.isPending_iff.mpr ⟨r, hr, hst⟩
  · exact (hv.free i (by rw [hi]; rfl)).elim

theorem State.Treated.after (hc : c.Treated S)
    (hs : (c.procs i).step S i a c.world = some (p, f)) : (c.after i p f).Treated S := by
  have hid := hc.identified
  refine ⟨hc.rows.after hs, hid.after hc.rows hs, fun j x hx r hr => ?_, fun j v hv => ?_⟩
  · have hr : (c.world.apply i f).videos.row x.1 = some r := hr
    have hm := hr ▸ Proc.videoMove_of_rows (hc.rows i) hs x.1
    -- A row that the pass has known, or has just selected.
    have known {r₀} (hr₀ : c.world.videos.row x.1 = some r₀) (ht : r₀.teamId = x.2.teamId) :
        r.teamId = x.2.teamId := by
      rw [hr₀] at hm
      exact hm.teamId.trans ht
    have old (hx : ∃ k, x ∈ (c.procs k).batch) : r.teamId = x.2.teamId := by
      obtain ⟨k, hx⟩ := hx
      cases hrow : c.world.videos.row x.1 with
      | some r₀ => exact known hrow (hc.teams k x hx r₀ hrow)
      | none =>
        rw [hrow] at hm
        cases hm with
        | insert hi => exact ((hid.batches k x hx).free i (by rw [hi]; rfl)).elim
    by_cases hj : j = i
    · subst hj
      rw [State.procs_after] at hx
      rcases Proc.step_batch hs with ⟨ids, hb⟩ | hb
      · rw [hb, Table.mem_rows] at hx
        exact known hx.2 rfl
      · exact old ⟨j, hb hx⟩
    · rw [State.procs_after_of_ne _ _ _ _ hj] at hx
      exact old ⟨j, hx⟩
  · have old {k} (hv : (c.procs k).missed = some v) :
        (c.after i p f).world.isPending v = false := by
      obtain ⟨r, hb⟩ := Proc.mem_batch_of_missed hv
      rw [← Bool.not_eq_true]
      intro hp
      have := hc.pending_before (hid.batches k _ hb) hs hp
      rw [hc.missed k v hv] at this
      cases this
    by_cases hj : j = i
    · subst hj
      rw [State.procs_after] at hv
      obtain ⟨rfl, hm | hp⟩ := Proc.step_missed hs hv
      · exact old hm
      · exact hp
    · rw [State.procs_after_of_ne _ _ _ _ hj] at hv
      exact old hv

/-- Only the turn that gives a slot back records an entry for a reserved slot. -/
theorem State.Treated.slotEntries_after (hc : c.Treated S) (hv : c.Used v)
    (hs : (c.procs i).step S i a c.world = some (p, f))
    (hx : ∀ x, (c.procs i).releasing = some x → x.videoId = v → f ≠ .commit {} →
      x.events c.world.now = []) :
    slotEntries (c.world.usageEvents ++ f.usageEvents) v = slotEntries c.world.usageEvents v := by
  rw [slotEntries_append]
  have hm := Proc.ledgerMove_of_rows (hc.rows i) hs
  have hnil : slotEntries f.usageEvents v = [] := by
    by_cases hf : f = .commit {}
    · rw [hf]
      rfl
    · refine slotEntries_eq_nil fun e he => ?_
      generalize f.usageEvents = events at hm he
      cases hm with
      | nothing => cases he
      | initiate hi =>
        rw [(mem_initiateEvents he).2.2]
        rintro rfl
        exact hv.free i (by rw [hi]; rfl)
      | @release x hr =>
        intro he'
        rw [hx x hr (Release.videoId_of_mem he ▸ he') hf] at he
        cases he
  rw [hnil, List.append_nil]

/-- As long as the video is PENDING_UPLOAD, its entries stay as they are. -/
theorem State.Treated.slotEntries_pending (hc : c.Treated S) (hv : c.Used v)
    (hs : (c.procs i).step S i a c.world = some (p, f))
    (hp : (c.world.apply i f).isPending v = true) :
    slotEntries (c.world.usageEvents ++ f.usageEvents) v = slotEntries c.world.usageEvents v := by
  refine hc.slotEntries_after hv hs ?_
  rintro x hx rfl hf
  obtain ⟨-, hgone⟩ := (Proc.step_of_releasing hx hs).resolve_left hf
  rcases Proc.owns_of_releasing (hc.rows i) hx with hm | ⟨hm, -⟩
  · have := hc.missed i x.videoId hm
    rw [hc.pending_before hv hs hp] at this
    cases this
  · rw [hgone hm] at hp
    cases hp

theorem State.Treated.team_of_summing (hc : c.Treated S) {team : TeamId}
    (h : (c.procs i).summing = some (team, v)) {r : Video} (hr : c.world.videos.row v = some r) :
    r.teamId = team := by
  have hh := hc.rows i
  have ht := hc.teams i
  revert h hh ht
  cases c.procs i with
  | abandoned pc =>
    cases pc <;> intro h hh ht <;> cases h
    exact ht _ (List.mem_cons_self ..) r hr
  | cancelUpload u pc | deleteFailed u pc =>
    cases pc <;> intro h hh ht <;> cases h
    have hrow : c.world.videos.row v = _ := hh.1.2
    rw [hr] at hrow
    cases hrow
    rfl
  | _ => intro h; cases h

/-- What a process finds that sums the ledger under the condition. -/
theorem State.Reserving.summed (hv : c.Reserving v) (hc : c.Treated S)
    (hok : ResolvesReservation v c i a) (ha : ¬ a.isError) {team : TeamId}
    (h : (c.procs i).summing = some (team, v)) (hp : c.world.isPending v = true) :
    Release.Finds ⟨v, team, (sumReserved c.world team v).1, (sumReserved c.world team v).2⟩
      c.world.usageEvents := by
  obtain ⟨r, hr, hst⟩ := World.isPending_iff.mp hp
  rcases hv.slot r hr hst with hnil | ⟨account, hslot⟩
  · refine .inl ⟨hnil, ?_⟩
    dsimp only [sumReserved]
    split
    · exact Int.le_refl _
    · exact (netReserved_of_nil hnil _ _).le
  rw [hc.team_of_summing h hr] at hslot
  obtain ⟨now, hentries⟩ := hslot
  have hmem : ⟨account, team, .videoUploadInitiated, 1, now, v⟩ ∈ c.world.usageEvents :=
    List.mem_of_mem_filter (hentries ▸ List.mem_singleton_self _)
  obtain ⟨hlink, haccount⟩ := hok.resolve_left ha _ h rfl hp _ hmem rfl rfl
  obtain ⟨plan, hplan⟩ := Option.isSome_iff_exists.mp haccount
  have hresolved : resolveTeamPlan c.world team = some (account, plan) := by
    rw [resolveTeamPlan, hlink]
    simp [hplan]
  refine .inr ⟨?_, account, ?_, now, hentries⟩
  · have := HoldsSlot.netReserved ⟨now, hentries⟩
    simp [sumReserved, hresolved, this]
  · simp [sumReserved, hresolved]

/-- A new video holds its slot, if the team still has an account. -/
theorem State.Treated.slot_after_insert (hc : c.Treated S) {req : InitiateUpload}
    {account : AccountId} {plan : Plan} {id : Option UploadId}
    (hi : c.procs i = .initiate req (.insertVideo account plan v id))
    (hs : (c.procs i).step S i a c.world = some (p, f)) (hf : f ≠ .commit {}) :
    slotEntries (c.world.usageEvents ++ f.usageEvents) v = [] ∨
      ∃ account, HoldsSlot (c.world.usageEvents ++ f.usageEvents) v account req.teamId := by
  have hold : slotEntries c.world.usageEvents v = [] := by
    refine slotEntries_eq_nil fun e he hv => ?_
    exact (hc.identified.events e he).free i (by rw [hi, hv]; rfl)
  rw [hi] at hs
  simp only [HoldsSlot, slotEntries_append, hold, List.nil_append,
    (InitiateUpload.step_insertVideo_events hs).resolve_left hf]
  rcases uploadEvents_cases c.world req.teamId v req.fileSizeBytes with h | ⟨account, h⟩
  · exact .inl (by rw [h]; rfl)
  · exact .inr ⟨account, c.world.now, by rw [h]; simp [slotEntries, initiateEvents]⟩

theorem State.Reserving.after (hv : c.Reserving v) (hc : c.Treated S)
    (hok : ResolvesReservation v c i a) (hs : (c.procs i).step S i a c.world = some (p, f)) :
    (c.after i p f).Reserving v := by
  have hevents : (c.after i p f).world.usageEvents = c.world.usageEvents ++ f.usageEvents := by
    rw [State.world_after, usageEvents_apply]
  refine ⟨fun r' hr' hst => ?_, fun j x hx hxv hp => ?_⟩
  · rw [hevents]
    have hr' : (c.world.apply i f).videos.row v = some r' := hr'
    have hm := hr' ▸ Proc.videoMove_of_rows (hc.rows i) hs v
    rcases hm.pending hst with ⟨r, hr, hst'⟩ | ⟨hnone, req, account, plan, id, hi, hteam⟩
    · have hslot := hv.slot r hr hst'
      rw [hr] at hm
      have hp := World.isPending_iff.mpr ⟨r', hr', hst⟩
      simpa only [HoldsSlot, hm.teamId, hc.slotEntries_pending (hc.identified.rows v r hr) hs hp]
        using hslot
    · rw [hteam]
      refine hc.slot_after_insert hi hs ?_
      rintro rfl
      have hsame : c.world.videos.row v = some r' := by simpa [World.apply] using hr'
      rw [hnone] at hsame
      cases hsame
  · rw [hevents]
    by_cases hj : j = i
    · subst hj
      rw [State.procs_after] at hx
      obtain ⟨rfl, ⟨team, u⟩, hsum, rfl⟩ := Proc.step_releasing hs hx
      subst hxv
      have ha : ¬ a.isError := by
        intro ha
        obtain ⟨message, rfl⟩ := Answer.isError_iff.mp ha
        cases (Proc.step_error.mp hs).2
      simpa [Effect.usageEvents] using hv.summed hc hok ha hsum hp
    · rw [State.procs_after_of_ne _ _ _ _ hj] at hx
      have hused : c.Used v := hxv ▸ hc.identified.releasing hc.rows hx
      subst hxv
      exact (hv.found j x hx rfl (hc.pending_before hused hs hp)).of_slotEntries_eq
        (hc.slotEntries_pending hused hs hp)

/-! ### When a video is given up -/

/-- A request or a pass that gives uploads up: `cancel_upload`, `delete_failed_video` or
`cleanup_abandoned_uploads`. -/
def Proc.isCleanup : Proc → Bool
  | .abandoned _ | .cancelUpload .. | .deleteFailed .. => true
  | _ => false

/-- A turn of one of the three paths takes the video out of PENDING_UPLOAD. -/
structure GivesUp (c : State) (i : Pid) (d : State) (v : VideoId) : Prop where
  path : (c.procs i).isCleanup
  pending : c.world.isPending v
  left : d.world.isPending v = false

/-- What is known of a video that has been given up: it holds no slot, and nobody is about to return
it again. -/
structure State.Returned (c : State) (v : VideoId) : Prop where
  slot : HoldsNoSlot c.world.usageEvents v
  used : c.Used v
  releasing : ∀ i x, (c.procs i).releasing = some x → x.videoId = v → x.net ≤ 0

theorem Release.events_of_nonpos {x : Release} (h : x.net ≤ 0) (now : Time) :
    x.events now = [] := by
  unfold events releaseEvents
  split <;> simp [h]

/-- Such a turn is about to release the slot of the video. -/
theorem VideoMove.releasing {r : Video} {o : Option Video} (h : VideoMove S w p v (some r) o)
    (hpath : p.isCleanup) (hr : r.status = .pendingUpload)
    (hleft : ∀ r', o = some r' → r'.status ≠ .pendingUpload) :
    ∃ x, p.releasing = some x ∧ x.videoId = v := by
  cases h with
  | keep => exact (hleft r rfl hr).elim
  | delete hp | cancelUpload hp => exact ⟨_, by rw [hp]; rfl, rfl⟩
  | abandoned hp hv => exact ⟨_, by rw [hp]; rfl, hv⟩
  | markFailed => exact (hleft _ rfl hr).elim
  | setProcessing hp | materialize hp | setProcessed hp | setQueued hp | setFailed hp
  | hookFailed hp | recoverFailed hp | raw hp | complete hp | cancelProcessing hp
  | requeueProcessing hp =>
    rw [hp] at hpath
    cases hpath

theorem State.Reserving.returned (hv : c.Reserving v) (hc : c.Treated S)
    (hs : (c.procs i).step S i a c.world = some (p, f)) (h : GivesUp c i (c.after i p f) v) :
    (c.after i p f).Returned v := by
  obtain ⟨r, hr, hst⟩ := World.isPending_iff.mp h.pending
  have hused := hc.identified.rows v r hr
  obtain ⟨x, hx, hxv⟩ : ∃ x, (c.procs i).releasing = some x ∧ x.videoId = v := by
    refine (hr ▸ Proc.videoMove_of_rows (hc.rows i) hs v).releasing h.path hst fun r' hr' hst' => ?_
    have := World.isPending_iff.mpr ⟨r', hr', hst'⟩
    rw [show (c.world.apply i f).isPending v = false from h.left] at this
    cases this
  have hfinds := hv.found i x hx hxv h.pending
  subst hxv
  have hne : f ≠ .commit {} := by
    rintro rfl
    have hpending := h.pending
    rw [show c.world.isPending x.videoId = false by
      simpa [World.isPending, World.apply] using h.left] at hpending
    cases hpending
  have hevents := ((Proc.step_of_releasing hx hs).resolve_left hne).1
  -- The process owns the row, so that no other one can be about to release the slot.
  have owns {j y} (hy : (c.procs j).releasing = some y) (hyv : y.videoId = x.videoId) :
      ∃ r, c.world.videos.Owns j x.videoId (some r) := by
    rcases Proc.owns_of_releasing (hc.rows j) hy with hm | ⟨-, ho⟩
    · have := hc.missed j _ hm
      rw [hyv, h.pending] at this
      cases this
    · exact hyv ▸ ho
  refine ⟨?_, hused.after hs, fun j y hy hyv => ?_⟩
  · rw [State.world_after, usageEvents_apply, hevents]
    rcases hfinds with ⟨hnil, hnet⟩ | ⟨hnet, account, hacc, now, hslot⟩
    · exact .inl (by rw [slotEntries_append, hnil, Release.events_of_nonpos hnet]; rfl)
    · refine .inr ⟨account, x.teamId, now, c.world.now, ?_⟩
      rw [slotEntries_append, hslot]
      simp [slotEntries, Release.events, releaseEvents, hacc, Int.not_le.mpr hnet]
  · by_cases hj : j = i
    · subst hj
      rw [State.procs_after] at hy
      obtain ⟨rfl, -⟩ := Proc.step_releasing hs hy
      cases h.pending.symm.trans h.left
    · rw [State.procs_after_of_ne _ _ _ _ hj] at hy
      obtain ⟨_, ho⟩ := owns hy hyv
      obtain ⟨_, ho'⟩ := owns hx rfl
      exact (hj (ho.session_eq ho')).elim

theorem State.Returned.after (hv : c.Returned v) (hc : c.Treated S)
    (hs : (c.procs i).step S i a c.world = some (p, f)) : (c.after i p f).Returned v := by
  refine ⟨?_, hv.used.after hs, fun j x hx hxv => ?_⟩
  · have he : slotEntries (c.after i p f).world.usageEvents v =
        slotEntries c.world.usageEvents v := by
      rw [State.world_after, usageEvents_apply, hc.slotEntries_after hv.used hs]
      intro x hx hxv _
      exact Release.events_of_nonpos (hv.releasing i x hx hxv) _
    simpa only [HoldsNoSlot, SlotReturned, he] using hv.slot
  · by_cases hj : j = i
    · subst hj
      rw [State.procs_after] at hx
      obtain ⟨-, ⟨team, u⟩, -, rfl⟩ := Proc.step_releasing hs hx
      subst hxv
      show (sumReserved c.world team u).2 ≤ 0
      unfold sumReserved
      split
      · exact Int.le_refl _
      · exact (hv.slot.netReserved _ _).le
    · rw [State.procs_after_of_ne _ _ _ _ hj] at hx
      exact hv.releasing j x hx hxv

end Step

/-! ### Runs -/

theorem State.Treated.bill {c : State} (h : c.Treated S) (b : BillingChange) :
    (c.bill b).Treated S := by
  have used {u} (hu : c.Used u) : (c.bill b).Used u :=
    ⟨by simpa [State.bill] using hu.drawn, hu.free⟩
  have hid := h.identified
  refine ⟨fun i => (h.rows i).bill, ⟨fun u r hr => ?_, fun i x hx => used (hid.batches i x hx),
    fun e he => ?_⟩, fun i x hx r hr => ?_, fun i u hu => ?_⟩
  · exact used (hid.rows u r (by simpa [State.bill] using hr))
  · exact used (hid.events e (by simpa [State.bill] using he))
  · exact h.teams i x hx r (by simpa [State.bill] using hr)
  · simpa [State.bill, World.isPending] using h.missed i u hu

theorem State.Reserving.bill {c : State} (h : c.Reserving v) (b : BillingChange) :
    (c.bill b).Reserving v := by
  refine ⟨fun r hr hst => ?_, fun i x hx hxv hp => ?_⟩
  · simpa [State.bill] using h.slot r (by simpa [State.bill] using hr) hst
  · simpa [State.bill] using
      h.found i x hx hxv (by simpa [State.bill, World.isPending] using hp)

theorem State.Returned.bill {c : State} (h : c.Returned v) (b : BillingChange) :
    (c.bill b).Returned v :=
  ⟨by simpa [State.bill] using h.slot, ⟨by simpa [State.bill] using h.used.drawn, h.used.free⟩,
    h.releasing⟩

theorem Deployed.treated {c : State} (h : Deployed c) : c.Treated S := by
  have hid := h.identified
  obtain ⟨⟨accounts, links, hw⟩, hf⟩ := h
  refine ⟨fun i => (hf i).holds.rows, hid, fun i x hx r hr => ?_, fun i u hu => ?_⟩
  · rw [hw] at hr
    cases hr
  · rw [hw]
    rfl

theorem Deployed.reserving {c : State} (h : Deployed c) : c.Reserving v := by
  obtain ⟨⟨accounts, links, hw⟩, hf⟩ := h
  refine ⟨fun r hr _ => ?_, fun i x hx hxv hp => ?_⟩
  · rw [hw] at hr
    cases hr
  · rw [hw] at hp
    cases hp

theorem reserving_of_billedReach {c : State}
    (h : BilledReach S Deployed (ResolvesReservation v) c) : c.Treated S ∧ c.Reserving v := by
  refine BilledReach.invariant (Q := fun c => c.Treated S ∧ c.Reserving v) ?_ ?_ ?_ h
  · intro c hc
    exact ⟨hc.treated, hc.reserving⟩
  · rintro c i a p f ⟨hc, hv⟩ hok hs
    exact ⟨hc.after hs, hv.after hc hok hs⟩
  · rintro c b ⟨hc, hv⟩
    exact ⟨hc.bill b, hv.bill b⟩

/-- **What is given up is given back.** In every run in which the ledger is summed for the video
only while the team is linked to the account that holds the reservation and that account has an
active plan, the quantities recorded for the video add up to 0 from the turn on that gives it up. -/
theorem netSlots_of_givesUp {c d e : State} {i : Pid}
    (hc : BilledReach S Deployed (ResolvesReservation v) c) (hn : (system S).next c i a = some d)
    (hv : GivesUp c i d v) (he : BilledReach S (· = d) Machine.Always e) :
    netSlots e.world.usageEvents v = 0 := by
  obtain ⟨htreated, hreserving⟩ := reserving_of_billedReach hc
  obtain ⟨p, f, hs, rfl⟩ := next_eq_some.mp hn
  have hreturned : e.Treated S ∧ e.Returned v := by
    refine BilledReach.invariant (Q := fun e => e.Treated S ∧ e.Returned v) ?_ ?_ ?_ he
    · rintro _ rfl
      exact ⟨htreated.after hs, hreserving.returned htreated hs hv⟩
    · rintro c i a p f ⟨hc, hv⟩ - hs
      exact ⟨hc.after hs, hv.after hc hs⟩
    · rintro c b ⟨hc, hv⟩
      exact ⟨hc.bill b, hv.bill b⟩
  exact hreturned.2.slot.netSlots

/-! ### Given runs -/

/-- Whether a turn of process `i` exists that gives the video up. -/
def State.givesUp (c : State) (i : Pid) (v : VideoId) : Bool :=
  (c.procs i).isCleanup && c.world.isPending v &&
    ((system .default).next c i .ok).any fun d => !d.world.isPending v

theorem State.exists_of_givesUp {c : State} {i : Pid} (h : c.givesUp i v = true) :
    ∃ d, (system .default).next c i .ok = some d ∧ GivesUp c i d v := by
  simp only [State.givesUp, Bool.and_eq_true, Option.any_eq_true, Bool.not_eq_true'] at h
  obtain ⟨⟨hpath, hpending⟩, d, hd, hleft⟩ := h
  exact ⟨d, hd, hpath, hpending, hleft⟩

/-- An upload is cancelled after its account has been suspended and resumed. -/
theorem exists_netSlots_of_givesUp :
    ∃ c d, BilledReach .default Deployed (ResolvesReservation 0) c ∧
      (system .default).next c 3 .ok = some d ∧ GivesUp c 3 d 0 ∧
        netSlots d.world.usageEvents 0 = 0 := by
  obtain ⟨c, hc, hup⟩ := (Option.any_eq_true _ _).mp
    (show ((system .default).execUnder BillingChange.apply (ResolvesReservation 0)
      (oneUpload [.cancelUpload 0 .lockVideo])
      ((turns 0 6).map .inl ++ [.inr (.account 0 none), .inr (.account 0 (some .unlimited))] ++
        (turns 3 3).map .inl)).any (fun c : State => c.givesUp 3 0) = true by decide +kernel)
  have hreach : BilledReach .default Deployed (ResolvesReservation 0) c :=
    Machine.reachUnder_of_execUnder (.start (deployed_oneUpload _ (by simp [Proc.IsFresh]))) hc
  obtain ⟨d, hd, hv⟩ := State.exists_of_givesUp hup
  exact ⟨c, d, hreach, hd, hv, netSlots_of_givesUp hreach hd hv (.start rfl)⟩

/-- An upload is cancelled while its account is suspended. Once the account is resumed, it is
charged for the upload. -/
theorem exists_netSlots_of_inactive :
    ∃ c d e, BilledReach .default Deployed Machine.Always c ∧
      (system .default).next c 3 .ok = some d ∧ GivesUp c 3 d 0 ∧
        BilledReach .default (· = d) Machine.Always e ∧ (e.world.accounts.row 0).isSome ∧
          netSlots e.world.usageEvents 0 = 1 ∧
            videosUsedThisPeriod e.world.usageEvents 0 0 = 1 := by
  obtain ⟨c, hc, hb⟩ := (Option.any_eq_true _ _).mp
    (show ((system .default).execUnder BillingChange.apply Machine.Always
      (oneUpload [.cancelUpload 0 .lockVideo])
      ((turns 0 6).map .inl ++ [.inr (.account 0 none)] ++ (turns 3 3).map .inl)).any
        (fun c : State => c.givesUp 3 0 && ((system .default).next c 3 .ok).any fun d =>
          netSlots d.world.usageEvents 0 = 1 ∧
            videosUsedThisPeriod d.world.usageEvents 0 0 = 1) = true by decide +kernel)
  obtain ⟨hup, hcharged⟩ := Bool.and_eq_true_iff.mp hb
  obtain ⟨d, hd, hv⟩ := State.exists_of_givesUp hup
  rw [hd] at hcharged
  have hreach : BilledReach .default Deployed Machine.Always c :=
    Machine.reachUnder_of_execUnder (.start (deployed_oneUpload _ (by simp [Proc.IsFresh]))) hc
  refine ⟨c, d, State.bill d (.account 0 (some .unlimited)), hreach, hd, hv,
    .change _ (.start rfl), ?_⟩
  simpa [State.bill, BillingChange.apply] using hcharged

end NextBallUp
