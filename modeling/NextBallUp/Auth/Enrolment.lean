import NextBallUp.Auth.Factors

/-!
# Enrolment of a second factor

`setup_totp` writes a new secret over the enrolment that it has loaded, and sets only those columns
to NULL that were not NULL when it loaded them. `confirm_totp` checks a code against the secret that
it has loaded, before it locks the row. If the row changes in between, what is confirmed is not what
was checked. This module proves that nothing else goes wrong: a confirmation deletes every recovery
code of another batch, because the row that it has locked keeps other confirmations out.

## Main definitions

* `IsConfirmation`: a turn that commits a confirmation, and what was submitted to it
* `EnrolmentIsSound`: the enrolment in force rests on one confirmation
* `KeepsEnrolment`: the condition on a turn

## Main results

* `enrolmentIsSound_of_reach`: **in every run of turns that satisfy the condition, an enrolment in
  force rests on a code of its own secret, and its recovery codes are one batch**
* `exists_not_enrolmentIsSound`: a second setup between the check and the flush of a confirmation
-/

namespace NextBallUp.Auth

variable {S : Settings} {pid : Pid} {a : Answer} {p p' : Proc} {w w' : World} {tx : Tx} {f : Effect}

/-! ### What an enrolment in force rests on -/

/-- The recovery codes that a confirmation returns. -/
def batch (S : Settings) (w : World) : List CodeHash := (ConfirmTotp.freshCodes S w).map Prod.fst

/-- Request `i` is about to commit a confirmation of `record` at `confirmedAt`, and `code` is a
valid code of its secret. -/
def IsConfirmation (S : Settings) (d : State) (i : Pid) (record : UserTotpSecret) (counter : ℕ)
    (confirmedAt : Time) (codes : List CodeHash) : Prop :=
  ∃ token code, d.procs i =
      .confirmTotp token code (.deleteCodes record counter confirmedAt (.finished codes)) ∧
    ∃ now, verifyTotpCode S record.secret code now (lastCounter S record) = some counter

/-- The state that it leaves. -/
def afterConfirmation (S : Settings) (d : State) (i : Pid) (record : UserTotpSecret) (counter : ℕ)
    (confirmedAt : Time) (codes : List CodeHash) : State :=
  d.after i .done (.commit (ConfirmTotp.confirmed S d.world record counter confirmedAt codes))

/-- The stored secret is this one. -/
def StoresSecret (secret : Secret) (c : State) (_ : Pid) (_ : Answer) : Prop :=
  c.world.totp?.map UserTotpSecret.secret = some secret

/-- A run begins without an enrolment in force. -/
def Unenrolled (c : State) : Prop :=
  Deployed c ∧ ∀ r ∈ c.world.totp?, Login.Enrolled r = false

/-- An enrolment in force was confirmed by a request to which a valid code of its secret was
submitted, and its secret has been stored ever since; the recovery codes are the batch that this
request returned. -/
def EnrolmentIsSound (S : Settings) (c : State) : Prop :=
  ∀ r, c.world.totp? = some r → Login.Enrolled r = true →
    ∃ d i record counter confirmedAt codes,
      (system S).Reach Unenrolled Machine.Always d ∧
      IsConfirmation S d i record counter confirmedAt codes ∧
      record.secret = r.secret ∧ r.confirmedAt = some confirmedAt ∧
      (system S).Reach (· = afterConfirmation S d i record counter confirmedAt codes)
        (StoresSecret r.secret) c ∧
      ∀ hash, c.world.mfaRecoveryCodes.row hash ≠ none ↔ hash ∈ batch S d.world

/-! ### The condition -/

/-- What the request is about to write fits the enrolment that it finds: a setup does not write
under a confirmation that it has not seen, and a confirmation is of the secret that is stored. -/
def Proc.Fits (w : World) : Proc → Prop
  | .setupTotp _ (.writeTotp (some existing)) => ∀ r ∈ w.totp?, existing.IsRow r = true →
    existing.confirmedAt = none → r.confirmedAt ≠ none →
      existing.disabledAt = none ∧ r.disabledAt ≠ none
  | .confirmTotp _ _ (.deleteCodes record _ _ (.finished _)) => ∀ r ∈ w.totp?,
    r.disabledAt = none → r.secret = record.secret
  | _ => True

instance (w : World) (p : Proc) : Decidable (p.Fits w) := by
  unfold Proc.Fits
  split <;> infer_instance

/-- The condition on a turn. -/
def KeepsEnrolment (c : State) (i : Pid) (a : Answer) : Prop :=
  a ≠ .error → (c.procs i).Fits c.world

instance (c : State) (i : Pid) (a : Answer) : Decidable (KeepsEnrolment c i a) :=
  inferInstanceAs (Decidable (_ → _))

/-! ### What a confirmation knows -/

/-- A confirmation has checked its code, and comes to every recovery code. -/
def ConfirmTotp.Knows (S : Settings) (w : World) (code : Code) : ConfirmTotp.Pc → Prop
  | .flushTotp record counter _ =>
    ∃ now, verifyTotpCode S record.secret code now (lastCounter S record) = some counter
  | .deleteCodes record counter _ b =>
    (∃ now, verifyTotpCode S record.secret code now (lastCounter S record) = some counter) ∧
      b.Covers w.mfaRecoveryCodes fun _ => true
  | _ => True

def Proc.Knows (S : Settings) (w : World) : Proc → Prop
  | .confirmTotp _ code pc => ConfirmTotp.Knows S w code pc
  | _ => True

theorem Proc.IsFresh.knows (h : p.IsFresh) : p.Knows S w := by
  rcases p with _ | _ | _ | _ | _ | _ | ⟨_, _, pc⟩ | _ | _ | _ | _
  case confirmTotp => cases pc <;> trivial
  all_goals trivial

/-- The recovery codes that are stored. -/
def World.StoresCode (w : World) (hash : CodeHash) : Prop := w.mfaRecoveryCodes.row hash ≠ none

/-- Nothing that other requests do adds a recovery code. -/
theorem Proc.Knows.mono (h : p.Knows S w) (hw : ∀ hash, w'.StoresCode hash → w.StoresCode hash) :
    p.Knows S w' := by
  cases p with
  | confirmTotp token code pc =>
    cases pc with
    | deleteCodes record counter confirmedAt b =>
      refine ⟨h.1, h.2.mono fun k r' hr' _ => ?_⟩
      obtain ⟨r, hr⟩ := Option.ne_none_iff_exists'.mp (hw k (by simp [World.StoresCode, hr']))
      exact ⟨r, hr, rfl⟩
    | _ => exact h
  | _ => trivial

/-- A confirmation goes on from a confirmation. -/
theorem confirmTotp_of_step {token : Token} {code : Code} {pc' : ConfirmTotp.Pc}
    (h : p.step S pid a w = some (.confirmTotp token code pc', f)) :
    ∃ pc, p = .confirmTotp token code pc ∧
      ConfirmTotp.step S pid token code w a pc = some (.confirmTotp token code pc', f) := by
  rw [step_of_ne_error (by rintro rfl; cases (step_error h).1)] at h
  cases p with
  | confirmTotp token₀ code₀ pc =>
    have hc : token₀ = token ∧ code₀ = code := by
      cases pc <;> simp only [Proc.turn, ConfirmTotp.step, Table.locate_eq_some] at h <;>
        grind [deleteRecoveryCodes_eq_some]
    obtain ⟨rfl, rfl⟩ := hc
    exact ⟨pc, rfl, h⟩
  | clock => cases a <;> cases h
  | done => cases h
  | login req pc =>
    cases pc <;> simp only [Proc.turn, Login.step, Table.locate_eq_some] at h <;> grind
  | refresh token pc =>
    cases pc <;> simp only [Proc.turn, Refresh.step, Table.locate_eq_some] at h <;>
      grind [revokeRefreshSessions_eq_some, flushSessionVersion, Table.locate_eq_some]
  | logout token pc =>
    cases pc <;> simp only [Proc.turn, Logout.step] at h <;>
      grind [revokeRefreshSessions_eq_some, flushSessionVersion, Table.locate_eq_some]
  | resetPassword password pc =>
    cases pc <;> simp only [Proc.turn, ResetPassword.step, Table.locate_eq_some] at h <;>
      grind [revokeRefreshSessions_eq_some]
  | deleteMyAccount token pc =>
    cases pc <;> simp only [Proc.turn, DeleteMyAccount.step, Table.locate_eq_some] at h <;>
      grind [revokeRefreshSessions_eq_some, deleteRecoveryCodes_eq_some, Table.locate_eq_some]
  | setupTotp token pc => rcases SetupTotp.proc_of_step h with he | ⟨_, he⟩ <;> cases he
  | disableTotp token password code pc =>
    cases pc <;> simp only [Proc.turn, DisableTotp.step, Table.locate_eq_some] at h <;> grind
  | playback token pc =>
    cases pc <;> simp only [Proc.turn, Playback.step] at h <;> grind

/-- **What a confirmation knows**, its turns keep. -/
theorem Proc.Knows.step (hd : w.Drawn) (hp : p.Knows S w) (h : p.step S pid a w = some (p', f)) :
    p'.Knows S (w.apply pid f) := by
  cases p' with
  | confirmTotp token code pc' =>
    obtain ⟨pc, rfl, hs⟩ := confirmTotp_of_step h
    cases pc with
    | authenticate =>
      simp only [ConfirmTotp.step] at hs
      split at hs <;> cases hs
      trivial
    | readTotp =>
      simp only [ConfirmTotp.step] at hs
      split at hs
      · cases hs
      · split at hs <;> cases hs
        exact ⟨w.now, ‹_›⟩
    | flushTotp record counter confirmedAt =>
      simp only [ConfirmTotp.step, Table.locate_eq_some] at hs
      obtain ⟨o, -, he⟩ := hs
      cases o with
      | none => cases he
      | some r =>
        cases he
        exact ⟨hp, Bulk.covers_select⟩
    | deleteCodes record counter confirmedAt b =>
      rw [ConfirmTotp.step] at hs
      obtain ⟨codes, -, he⟩ | ⟨b', hashes, hb, he, rfl⟩ := deleteRecoveryCodes_eq_some hs
      · cases he
      · cases he
        refine ⟨hp.1, hp.2.step (fun k r hr => ?_) hb⟩
        exact List.mem_range.mpr (hd.codes k (by simp [hr]))
  | _ => trivial

/-! ### What a commit does to the stored codes -/

theorem storesCode_commit (w : World) (pid : Pid) (tx : Tx) (hash : CodeHash) :
    (w.commit pid tx).StoresCode hash ↔
      (w.mfaRecoveryCodes.alterAll tx.mfaRecoveryCodes).row hash ≠ none :=
  Iff.rfl

theorem storesCode_commit_nil (h : tx.mfaRecoveryCodes = []) (hash : CodeHash) :
    (w.commit pid tx).StoresCode hash ↔ w.StoresCode hash := by
  rw [storesCode_commit, h, Table.alterAll_nil, World.StoresCode]

theorem storesCode_commit_map {k : CodeHash} {g : MfaRecoveryCode → MfaRecoveryCode}
    (h : tx.mfaRecoveryCodes = [(k, Option.map g)]) (hash : CodeHash) :
    (w.commit pid tx).StoresCode hash ↔ w.StoresCode hash := by
  rw [storesCode_commit, h, Table.alterAll_cons, Table.alterAll_nil, Table.row_alter,
    World.StoresCode]
  split
  · next he => rw [he, ne_eq, Option.map_eq_none_iff]
  · exact Iff.rfl

/-- **A confirmation leaves its own batch.** -/
theorem storesCode_confirmed {record : UserTotpSecret} {counter : ℕ} {confirmedAt : Time}
    {codes : List CodeHash} (hc : ∀ hash, w.StoresCode hash → hash ∈ codes) (hash : CodeHash) :
    (w.commit pid (ConfirmTotp.confirmed S w record counter confirmedAt codes)).StoresCode hash ↔
      hash ∈ batch S w := by
  rw [storesCode_commit, ConfirmTotp.confirmed, Table.alterAll_append]
  constructor
  · intro h
    by_contra hn
    have hfresh : ∀ e ∈ ConfirmTotp.freshCodes S w, hash ≠ e.1 := by
      rintro e he rfl
      exact hn (List.mem_map_of_mem he)
    rw [Table.row_alterAll_of_ne hfresh] at h
    refine h ?_
    by_cases hm : hash ∈ codes
    · have he : (hash, fun _ => none) ∈ deletions codes := List.mem_map_of_mem hm
      refine Table.row_alterAll_of_mem (Q := fun o => o = none) he (fun _ => rfl) ?_
      rintro e' he' - o -
      obtain ⟨_, -, rfl⟩ := List.mem_map.mp he'
      rfl
    · have hno : w.mfaRecoveryCodes.row hash = none := by
        by_contra hs
        exact hm (hc hash hs)
      refine Table.row_alterAll_of_keeps (Q := fun o => o = none) hno ?_
      rintro e' he' - o -
      obtain ⟨_, -, rfl⟩ := List.mem_map.mp he'
      rfl
  · intro h
    obtain ⟨e, he, rfl⟩ := List.mem_map.mp h
    have hsome : ∀ e ∈ ConfirmTotp.freshCodes S w, ∀ o, e.2 o ≠ none := by
      intro e he o
      obtain ⟨_, -, rfl⟩ := List.mem_map.mp he
      exact Option.some_ne_none _
    exact Table.row_alterAll_of_mem (Q := fun o => o ≠ none) he (hsome e he)
      fun e' he' _ o _ => hsome e' he' o

/-- The deletion of an account leaves no enrolment. -/
theorem DeleteMyAccount.totp_eq_none {token : Token} {pc : DeleteMyAccount.Pc}
    (h : DeleteMyAccount.step pid token w a pc = some (p', .commit tx)) :
    tx = {} ∨ (w.commit pid tx).totp? = none := by
  cases pc with
  | authenticate =>
    simp only [DeleteMyAccount.step] at h
    split at h <;> cases h
    exact .inl rfl
  | flushUser user =>
    simp only [DeleteMyAccount.step, Table.locate_eq_some] at h
    obtain ⟨o, -, he⟩ := h
    cases o with
    | none => cases he; exact .inl rfl
    | some => cases he
  | revokeSessions user b =>
    rw [DeleteMyAccount.step] at h
    obtain ⟨sessions, rfl, ha⟩ | ⟨_, _, -, -, he⟩ := revokeRefreshSessions_eq_some h
    · cases ha
    · cases he
  | deleteCodes user sessions b =>
    rw [DeleteMyAccount.step] at h
    obtain ⟨codes, rfl, ha⟩ | ⟨_, _, -, -, he⟩ := deleteRecoveryCodes_eq_some h
    · simp only [Table.locate_eq_some] at ha
      obtain ⟨o, ho, he⟩ := ha
      cases he
      rw [totp_commit]
      cases ho with
      | miss hm =>
        refine .inr (Option.eq_none_iff_forall_ne_some.mpr fun r hr => ?_)
        cases hm r hr
      | hit => exact .inr rfl
    · cases he

/-- A setup that writes over an enrolment has found the one it has loaded. -/
theorem SetupTotp.isRow_of_overwritten {token : Token} {existing : UserTotpSecret}
    (h : SetupTotp.step pid token w (.writeTotp (some existing)) =
      some (p', .commit (overwritten w existing))) :
    ∀ r ∈ w.totp?, existing.IsRow r = true := by
  simp only [SetupTotp.step, Table.locate_eq_some] at h
  obtain ⟨o, ho, he⟩ := h
  cases ho with
  | miss => cases he
  | hit hr hp =>
    intro r hr'
    obtain rfl := Option.some.inj (hr.symm.trans hr')
    exact hp

/-! ### One turn -/

/-- A commit that leaves an enrolment in force has left it as it was, or confirms it. -/
theorem enrolled_of_commit (h : p.step S pid a w = some (p', .commit tx))
    (hok : a ≠ .error → p.Fits w) {r' : UserTotpSecret} (hr' : (w.commit pid tx).totp? = some r')
    (he : Login.Enrolled r' = true) :
    (∃ r, w.totp? = some r ∧ Login.Enrolled r = true ∧ r'.secret = r.secret ∧
        r'.confirmedAt = r.confirmedAt ∧
        ∀ hash, (w.commit pid tx).StoresCode hash ↔ w.StoresCode hash) ∨
      ∃ token code record counter confirmedAt codes,
        p = .confirmTotp token code (.deleteCodes record counter confirmedAt (.finished codes)) ∧
        tx = ConfirmTotp.confirmed S w record counter confirmedAt codes ∧
        r'.secret = record.secret ∧ r'.confirmedAt = some confirmedAt := by
  by_cases ha : a = .error
  · subst ha
    cases (step_error h).2
    exact .inl ⟨r', hr', he, rfl, rfl, storesCode_commit_nil rfl⟩
  have hfits := hok ha
  have hc := (commits_of_step h).2
  rw [step_of_ne_error ha] at h
  cases hc with
  | rollback | rotation | expiry | replay | logout | reset | minted =>
    exact .inl ⟨r', hr', he, rfl, rfl, storesCode_commit_nil rfl⟩
  | @signIn _ _ factor =>
    rcases factor with _ | ⟨secret, counter⟩ | ⟨k⟩
    · exact .inl ⟨r', hr', he, rfl, rfl, storesCode_commit_nil rfl⟩
    · change w.totp?.map _ = some r' at hr'
      obtain ⟨r, hr, rfl⟩ := Option.map_eq_some_iff.mp hr'
      exact .inl ⟨r, hr, he, rfl, rfl, storesCode_commit_nil rfl⟩
    · exact .inl ⟨r', hr', he, rfl, rfl, storesCode_commit_map rfl⟩
  | erase =>
    rw [Proc.turn] at h
    rcases DeleteMyAccount.totp_eq_none h with ht | ht
    · cases ht
    · rw [ht] at hr'
      cases hr'
  | @overwritten _ existing _ hr =>
    change w.totp?.map _ = some r' at hr'
    rw [hr, Option.map_some, Option.some.injEq] at hr'
    subst hr'
    rw [Proc.turn] at h
    have hrow := SetupTotp.isRow_of_overwritten h
    obtain ⟨hconf, hdis⟩ := of_decide_eq_true he
    simp only [SetupTotp.overwrite, SetupTotp.clear] at hconf hdis
    split at hconf
    · next hn =>
      obtain ⟨hd, hd'⟩ := hfits _ hr (hrow _ hr) hn hconf
      rw [if_pos hd] at hdis
      exact (hd' hdis).elim
    · exact (hconf rfl).elim
  | inserted =>
    obtain rfl := Option.some.inj hr'
    cases he
  | @confirmed token code record counter confirmedAt codes =>
    change w.totp?.map _ = some r' at hr'
    obtain ⟨r, hr, rfl⟩ := Option.map_eq_some_iff.mp hr'
    have hdis : r.disabledAt = none := (of_decide_eq_true he).2
    exact .inr ⟨_, _, _, _, _, _, rfl, rfl, hfits r hr hdis, rfl⟩
  | disabled hr =>
    change w.totp?.map _ = some r' at hr'
    rw [hr] at hr'
    obtain rfl := Option.some.inj hr'
    simp [Login.Enrolled] at he

/-- Only a confirmation adds a recovery code. -/
theorem storesCode_of_commit (h : Commits S pid w p tx) {hash : CodeHash}
    (hs : (w.commit pid tx).StoresCode hash) :
    w.StoresCode hash ∨ ∃ token code record counter confirmedAt codes,
      p = .confirmTotp token code (.deleteCodes record counter confirmedAt (.finished codes)) := by
  cases h with
  | confirmed => exact .inr ⟨_, _, _, _, _, _, rfl⟩
  | rollback | rotation | expiry | replay | logout | reset | minted | overwritten | inserted =>
    exact .inl ((storesCode_commit_nil rfl hash).mp hs)
  | @signIn _ _ factor =>
    rcases factor with _ | ⟨⟩ | ⟨k⟩
    · exact .inl ((storesCode_commit_nil rfl hash).mp hs)
    · exact .inl ((storesCode_commit_nil rfl hash).mp hs)
    · exact .inl ((storesCode_commit_map rfl hash).mp hs)
  | @disabled _ _ _ _ _ _ factor =>
    cases factor with
    | totp => exact .inl ((storesCode_commit_nil rfl hash).mp hs)
    | recovery k => exact .inl ((storesCode_commit_map rfl hash).mp hs)
  | @erase _ _ _ codes =>
    refine .inl fun hn => hs ?_
    refine Table.row_alterAll_of_keeps (Q := fun o => o = none) hn ?_
    rintro e he - o -
    obtain ⟨_, -, rfl⟩ := List.mem_map.mp he
    rfl

/-! ### Runs -/

/-- What holds in every run all of whose turns satisfy the condition. -/
structure Enrolling (S : Settings) (c : State) : Prop where
  reach : (system S).Reach Unenrolled Machine.Always c
  sound : c.Sound S
  knows : ∀ i, (c.procs i).Knows S c.world
  isSound : EnrolmentIsSound S c

theorem Unenrolled.enrolling {c : State} (h : Unenrolled c) : Enrolling S c where
  reach := .start h
  sound := h.1.sound
  knows i := (h.1.fresh i).knows
  isSound r hr he := by
    rw [h.2 r hr] at he
    cases he

/-- Two confirmations never stand behind the lock of the enrolment at the same time. -/
theorem State.Sound.confirming_eq {c : State} (h : c.Sound S) {i j : Pid} {token token' : Token}
    {code code' : Code} {record record' : UserTotpSecret} {counter counter' : ℕ}
    {confirmedAt confirmedAt' : Time} {b b' : Bulk CodeHash}
    (hi : c.procs i = .confirmTotp token code (.deleteCodes record counter confirmedAt b))
    (hj : c.procs j = .confirmTotp token' code' (.deleteCodes record' counter' confirmedAt' b')) :
    i = j := by
  have hoi := h.holds i
  have hoj := h.holds j
  rw [hi] at hoi
  rw [hj] at hoj
  obtain ⟨r, hr⟩ := hoi.1 () (List.mem_singleton_self _)
  obtain ⟨r', hr'⟩ := hoj.1 () (List.mem_singleton_self _)
  exact hr.session_eq hr'

theorem Enrolling.knows_after {c : State} {i : Pid} (hc : Enrolling S c)
    (hs : (c.procs i).step S i a c.world = some (p, f)) (j : Pid) :
    ((c.after i p f).procs j).Knows S (c.after i p f).world := by
  by_cases hj : j = i
  · subst hj
    rw [State.procs_after]
    exact (hc.knows j).step hc.sound.drawn hs
  rw [State.procs_after_of_ne _ _ _ _ hj]
  cases f with
  | skip | lock | tick => exact (hc.knows j).mono fun _ h => h
  | commit tx =>
    have hcommits := (commits_of_step hs).2
    by_cases hconf : ∃ token code record counter confirmedAt b,
        c.procs j = .confirmTotp token code (.deleteCodes record counter confirmedAt b)
    · obtain ⟨_, _, _, _, _, _, hpj⟩ := hconf
      refine (hc.knows j).mono fun hash h => ?_
      rcases storesCode_of_commit hcommits h with h | ⟨_, _, _, _, _, _, hpi⟩
      · exact h
      · exact (hj (hc.sound.confirming_eq hpj hpi)).elim
    · have hk := hc.knows j
      generalize c.procs j = q at hk hconf
      cases q with
      | confirmTotp token code pc =>
        cases pc with
        | deleteCodes => exact (hconf ⟨_, _, _, _, _, _, rfl⟩).elim
        | _ => exact hk
      | _ => trivial

/-- An enrolment that a turn leaves as it was stays sound. -/
theorem EnrolmentIsSound.next {c c' : State} {i : Pid} (hc : EnrolmentIsSound S c)
    (hn : (system S).next c i a = some c') {r r' : UserTotpSecret} (hr : c.world.totp? = some r)
    (he : Login.Enrolled r = true) (hsec : r'.secret = r.secret)
    (hconf : r'.confirmedAt = r.confirmedAt)
    (hcodes : ∀ hash, c'.world.StoresCode hash ↔ c.world.StoresCode hash) :
    ∃ d i record counter confirmedAt codes,
      (system S).Reach Unenrolled Machine.Always d ∧
      IsConfirmation S d i record counter confirmedAt codes ∧
      record.secret = r'.secret ∧ r'.confirmedAt = some confirmedAt ∧
      (system S).Reach (· = afterConfirmation S d i record counter confirmedAt codes)
        (StoresSecret r'.secret) c' ∧
      ∀ hash, c'.world.mfaRecoveryCodes.row hash ≠ none ↔ hash ∈ batch S d.world := by
  obtain ⟨d, k, record, counter, confirmedAt, codes, hd, hd', hrec, hat, hreach, hbatch⟩ :=
    hc r hr he
  refine ⟨d, k, record, counter, confirmedAt, codes, hd, hd', hrec.trans hsec.symm,
    hconf.trans hat, ?_, fun hash => (hcodes hash).trans (hbatch hash)⟩
  rw [hsec]
  exact .next hreach (by rw [StoresSecret, hr, Option.map_some]) hn

theorem Enrolling.after {c : State} {i : Pid} (hc : Enrolling S c) (hok : KeepsEnrolment c i a)
    (hs : (c.procs i).step S i a c.world = some (p, f)) : Enrolling S (c.after i p f) := by
  have hn : (system S).next c i a = some (c.after i p f) := next_eq_some.mpr ⟨p, f, hs, rfl⟩
  refine ⟨.next hc.reach trivial hn, hc.sound.after hs, hc.knows_after hs, fun r' hr' he => ?_⟩
  cases f with
  | skip | lock | tick => exact hc.isSound.next hn hr' he rfl rfl fun _ => Iff.rfl
  | commit tx =>
    rcases enrolled_of_commit hs hok hr' he with ⟨r, hr, her, hsec, hconf, hcodes⟩ |
      ⟨token, code, record, counter, confirmedAt, codes, hp, rfl, hsec, hconf⟩
    · exact hc.isSound.next hn hr her hsec hconf hcodes
    · obtain rfl := (commits_of_step hs).1
      have hk := hc.knows i
      rw [hp] at hk
      refine ⟨c, i, record, counter, confirmedAt, codes, hc.reach, ⟨token, code, hp, hk.1⟩,
        hsec.symm, hconf, .start rfl, fun hash => ?_⟩
      refine storesCode_confirmed (fun hash h => ?_) hash
      obtain ⟨row, hrow⟩ := Option.ne_none_iff_exists'.mp h
      exact (hk.2 (by intro h; cases h) hash row hrow rfl).resolve_right List.not_mem_nil

/-- **Enrolment is sound**, in every run in which what a setup or a confirmation writes fits the
enrolment that it finds. -/
theorem enrolmentIsSound_of_reach {c : State}
    (h : (system S).Reach Unenrolled KeepsEnrolment c) : EnrolmentIsSound S c := by
  have hc : Enrolling S c := by
    refine h.invariant (fun c hc => hc.enrolling) fun c c' i a hc hok hn => ?_
    obtain ⟨p, f, hs, rfl⟩ := next_eq_some.mp hn
    exact hc.after hok hs
  exact hc.isSound

/-! ### Two setups and a confirmation -/

/-- What has happened has happened. -/
theorem mem_history_of_reach {ok : State → Pid → Answer → Prop} {c c' : State}
    (h : (system S).Reach (· = c) ok c') {e : Event} (he : e ∈ c.world.history) :
    e ∈ c'.world.history := by
  refine h.invariant (Q := fun d => e ∈ d.world.history) ?_ fun d d' i a hd _ hn => ?_
  · rintro _ rfl
    exact he
  · obtain ⟨p, f, -, rfl⟩ := next_eq_some.mp hn
    exact history_subset_apply d.world i f hd

/-- A code of the secret of a sound enrolment has been accepted. -/
theorem EnrolmentIsSound.accepted {c : State} (h : EnrolmentIsSound S c) {r : UserTotpSecret}
    (hr : c.world.totp? = some r) (he : Login.Enrolled r = true) :
    ∃ counter, .accepted (.totp r.secret counter) ∈ c.world.history := by
  obtain ⟨d, i, record, counter, confirmedAt, codes, -, -, hsec, -, hreach, -⟩ := h r hr he
  refine ⟨counter, mem_history_of_reach hreach ?_⟩
  rw [← hsec]
  exact List.mem_cons_self ..

/-- Two setups, a confirmation with a code of the secret of the first one, and a clock. -/
def twoSetups : State :=
  registered .plain .coach 5 [.setupTotp registrationToken .authenticate,
    .setupTotp registrationToken .authenticate,
    .confirmTotp registrationToken ['0', '0', '1', '0', '0', '2'] .authenticate, .clock]

theorem unenrolled_twoSetups : Unenrolled twoSetups := by
  refine ⟨deployed_registered ?_, fun r hr => ?_⟩
  · simp [Proc.IsFresh]
  · cases hr

/-- A setup and its confirmation, up to the check of the code. -/
def checkTurns : List (Pid × Answer) :=
  (3, .seconds 60) :: List.replicate 3 (0, .ok) ++ [(2, .ok), (2, .ok)]

/-- The rest of the confirmation, which finds no older codes. -/
def flushTurns : List (Pid × Answer) := [(2, .ok), (2, .snapshot []), (2, .ok)]

/-- **A setup and its confirmation.** -/
theorem exists_enrolmentIsSound :
    ∃ c : State, EnrolmentIsSound .plain c ∧
      c.world.totp? = some ⟨2, 2, some 60, none, some 30⟩ := by
  obtain ⟨c, hc, hb⟩ := Machine.exists_reach_of_exec (system .plain) KeepsEnrolment
    unenrolled_twoSetups (checkTurns ++ flushTurns)
    (fun c => c.world.totp? = some ⟨2, 2, some 60, none, some 30⟩) (by decide +kernel)
  exact ⟨c, enrolmentIsSound_of_reach hc, of_decide_eq_true hb⟩

/-- **A confirmation of another secret.** The second setup writes its secret between the check and
the flush of the confirmation. -/
theorem exists_not_enrolmentIsSound :
    ∃ c : State, (system .plain).Reach Unenrolled Machine.Always c ∧
      ¬ EnrolmentIsSound .plain c := by
  obtain ⟨c, hc, hb⟩ := Machine.exists_reach_of_exec (system .plain) Machine.Always
    unenrolled_twoSetups (checkTurns ++ List.replicate 3 (1, .ok) ++ flushTurns)
    (fun c => c.world.totp? = some ⟨2, 3, some 60, none, some 30⟩ ∧
      acceptedFactors c.world.history = [.totp 2 1]) (by decide +kernel)
  simp only [Bool.decide_and, Bool.and_eq_true, decide_eq_true_eq] at hb
  obtain ⟨hr, hacc⟩ := hb
  refine ⟨c, hc, fun hsound => ?_⟩
  obtain ⟨counter, hm⟩ := hsound.accepted hr rfl
  have hm' : Factor.totp 3 counter ∈ acceptedFactors c.world.history :=
    List.mem_filterMap.mpr ⟨_, hm, rfl⟩
  rw [hacc] at hm'
  cases List.mem_singleton.mp hm'

end NextBallUp.Auth
