import NextBallUp.Auth.Locks

/-!
# Second factors

A TOTP counter or a recovery code lets one request in. A login checks the factor on the row that it
has locked; a confirmation and a request to disable check it before they lock the row.

## Main definitions

* `FactorsAreOneTime`: between two moments no factor has been accepted twice, and the last used
  counter of a secret has not gone back
* `Admits`, `Spent`: the stored rows admit a factor; they no longer do
* `StillAdmitted`: a factor that was checked without a lock is still admitted when it is used

## Main results

* `factorsAreOneTime_of_reach`: if every such factor is still admitted, factors are one-time
* `exists_not_factorsAreOneTime`: two requests to disable can use one code
-/

namespace NextBallUp.Auth

variable {S : Settings} {pid : Pid} {a : Answer} {p p' : Proc} {w w' : World} {tx : Tx} {f : Effect}
  {factor : Factor}

/-- The factor that an event says was accepted. -/
def Event.accepted? : Event → Option Factor
  | .accepted factor => some factor
  | _ => none

/-- The factors that have been accepted. -/
def acceptedFactors (events : List Event) : List Factor := events.filterMap Event.accepted?

/-- What is stored of the last use has not gone back. -/
def LastUsedLe (r r' : UserTotpSecret) : Prop :=
  ∀ t ∈ r.lastUsedAt, ∃ t' ∈ r'.lastUsedAt, t ≤ t'

/-- No factor has been accepted twice, and from `w` to `w'` the time of the last use of a secret
has not gone back. -/
def FactorsAreOneTime (w w' : World) : Prop :=
  (acceptedFactors w'.history).Nodup ∧
    ∀ r ∈ w.totp?, ∀ r' ∈ w'.totp?, r'.secret = r.secret → LastUsedLe r r'

/-! ### The condition -/

/-- The stored rows admit the factor. -/
def Admits (S : Settings) (w : World) : Factor → Prop
  | .totp secret counter => ∀ r ∈ w.totp?,
    r.secret = secret ∧ r.disabledAt = none ∧ (lastCounter S r).all (· < counter) = true
  | .recovery hash => ∀ code ∈ w.mfaRecoveryCodes.row hash, code.usedAt = none

instance (S : Settings) (w : World) : ∀ factor, Decidable (Admits S w factor)
  | .totp secret counter => inferInstanceAs (Decidable (∀ r ∈ w.totp?,
      r.secret = secret ∧ r.disabledAt = none ∧ (lastCounter S r).all (· < counter) = true))
  | .recovery hash =>
    inferInstanceAs (Decidable (∀ code ∈ w.mfaRecoveryCodes.row hash, code.usedAt = none))

/-- The factor that the next turn of a request uses, where it was checked without a lock. -/
def Proc.usesUnlocked (w : World) : Proc → Option Factor
  | .confirmTotp _ _ (.deleteCodes record counter _ (.finished _)) =>
    some (.totp record.secret counter)
  | .disableTotp _ _ _ (.flushTotp _ record factor) =>
    if w.totp?.any record.IsRow then some factor else none
  | _ => none

/-- A factor that was checked without a lock is still admitted when it is used. -/
def StillAdmitted (S : Settings) (c : State) (i : Pid) (a : Answer) : Prop :=
  a ≠ .error → ∀ factor ∈ (c.procs i).usesUnlocked c.world, Admits S c.world factor

instance (S : Settings) (c : State) (i : Pid) (a : Answer) : Decidable (StillAdmitted S c i a) :=
  inferInstanceAs (Decidable (_ → _))

/-! ### Spent factors -/

/-- The row of the factor is there. -/
def Stored (w : World) : Factor → Prop
  | .totp .. => ∃ r, w.totp? = some r
  | .recovery hash => ∃ code, w.mfaRecoveryCodes.row hash = some code

/-- A recovery code that has been used, or none. -/
def IsUsed (o : Option MfaRecoveryCode) : Prop := ∀ code, o = some code → code.usedAt ≠ none

/-- The stored rows do not admit the factor, and never will. -/
def Spent (S : Settings) (w : World) : Factor → Prop
  | .totp secret counter => secret < w.uuid ∧ ∀ r ∈ w.totp?, r.secret = secret →
    r.disabledAt ≠ none ∨ ∃ last ∈ lastCounter S r, counter ≤ last
  | .recovery hash => hash < w.uuid ∧ IsUsed (w.mfaRecoveryCodes.row hash)

theorem Admits.not_spent (ha : Admits S w factor) (hs : Stored w factor) : ¬ Spent S w factor := by
  cases factor with
  | totp secret counter =>
    obtain ⟨r, hr⟩ := hs
    obtain ⟨hsec, hdis, hlast⟩ := ha r hr
    rintro ⟨-, hspent⟩
    rcases hspent r hr hsec with hd | ⟨last, hl, hle⟩
    · exact hd hdis
    · rw [Option.mem_def.mp hl, Option.all_some, decide_eq_true_eq] at hlast
      exact Nat.not_lt.mpr hle hlast
  | recovery hash =>
    obtain ⟨code, hc⟩ := hs
    rintro ⟨-, hspent⟩
    exact hspent code hc (ha code hc)

/-! ### What a commit does to factors -/

theorem LastUsedLe.refl (r : UserTotpSecret) : LastUsedLe r r := fun t ht => ⟨t, ht, Nat.le_refl t⟩

theorem LastUsedLe.trans {r r' r'' : UserTotpSecret} (h : LastUsedLe r r')
    (h' : LastUsedLe r' r'') : LastUsedLe r r'' := fun t ht =>
  have ⟨t', ht', hle⟩ := h t ht
  have ⟨t'', ht'', hle'⟩ := h' t' ht'
  ⟨t'', ht'', hle.trans hle'⟩

/-- A counter later than the last one begins later than the time that is stored. -/
theorem lastUsedLe_of_lastCounter {r r' : UserTotpSecret} {counter : ℕ}
    (h : (lastCounter S r).all (· < counter) = true)
    (hr' : r'.lastUsedAt = some (counterTime S counter)) : LastUsedLe r r' := by
  intro t ht
  refine ⟨_, hr', ?_⟩
  rw [lastCounter, Option.mem_def.mp ht, Option.map_some, Option.all_some, decide_eq_true_eq] at h
  exact Nat.le_of_lt ((Nat.div_lt_iff_lt_mul (by have := S.mfaTotpStepSeconds_ge; omega)).mp h)

/-- An enrolment after a commit has a fresh secret, or it is one that was there, and its last use
has not gone back. -/
theorem Commits.lastUsed (h : Commits S pid w p tx) (hp : p.Holds S pid w)
    (hok : ∀ factor ∈ p.usesUnlocked w, Admits S w factor) {r' : UserTotpSecret}
    (hr' : (w.commit pid tx).totp? = some r') :
    r'.secret = w.uuid ∨ ∃ r, w.totp? = some r ∧ r'.secret = r.secret ∧ LastUsedLe r r' := by
  have he := h.enrolment
  rw [hr'] at he
  generalize hb : w.totp? = before at he
  cases he with
  | kept => exact .inr ⟨r', rfl, rfl, .refl r'⟩
  | @used _ _ _ _ _ r =>
    obtain ⟨r₀, ho, -, -, hlast⟩ := hp
    obtain rfl := Option.some.inj (ho.2.symm.trans hb)
    exact .inr ⟨r₀, rfl, rfl, lastUsedLe_of_lastCounter hlast rfl⟩
  | enrolled | overwritten => exact .inl rfl
  | @confirmed _ _ _ _ _ _ _ r =>
    obtain ⟨-, -, hlast⟩ := hok _ rfl r hb
    exact .inr ⟨r, rfl, rfl, lastUsedLe_of_lastCounter hlast rfl⟩
  | @disabled _ _ r => exact .inr ⟨r, rfl, rfl, .refl r⟩

/-- A commit leaves a used recovery code used. -/
theorem Commits.isUsed (h : Commits S pid w p tx) {hash : CodeHash} (hlt : hash < w.uuid) :
    ∀ e ∈ tx.mfaRecoveryCodes, e.1 = hash → ∀ o, IsUsed o → IsUsed (e.2 o) := by
  rintro e he rfl o ho code hc
  rcases h.code_cases he with hd | hu | ⟨hge, -, -⟩
  · rw [hd] at hc
    cases hc
  · rw [hu] at hc
    obtain ⟨code, -, rfl⟩ := Option.map_eq_some_iff.mp hc
    exact Option.some_ne_none _
  · exact (Nat.not_lt.mpr hge hlt).elim

/-- A commit leaves a spent factor spent. -/
theorem Commits.spent (h : Commits S pid w p tx) (hp : p.Holds S pid w)
    (hok : ∀ factor ∈ p.usesUnlocked w, Admits S w factor) (hs : Spent S w factor) :
    Spent S (w.commit pid tx) factor := by
  cases factor with
  | totp secret counter =>
    obtain ⟨hlt, hs⟩ := hs
    refine ⟨Nat.lt_add_right _ hlt, fun r' hr' hsec => ?_⟩
    have later {r : UserTotpSecret} {n : ℕ} (hr : w.totp? = some r) (hsec : r.secret = secret)
        (hdis : r.disabledAt = none) (hlast : (lastCounter S r).all (· < n) = true) :
        counter ≤ n := by
      obtain ⟨last, hl, hle⟩ := (hs r hr hsec).resolve_left fun hd => hd hdis
      rw [Option.mem_def.mp hl, Option.all_some, decide_eq_true_eq] at hlast
      exact hle.trans (Nat.le_of_lt hlast)
    have he := h.enrolment
    rw [Option.mem_def.mp hr'] at he
    generalize hb : w.totp? = before at he
    cases he with
    | kept => exact hs r' hb hsec
    | @used _ _ _ n _ r =>
      obtain ⟨r₀, ho, -, hdis, hlast⟩ := hp
      obtain rfl := Option.some.inj (ho.2.symm.trans hb)
      exact .inr ⟨n, lastCounter_counterTime S r₀ n, later hb hsec hdis hlast⟩
    | enrolled | overwritten => exact (Nat.ne_of_gt hlt hsec).elim
    | @confirmed _ _ _ n at_ _ _ r =>
      obtain ⟨-, hdis, hlast⟩ := hok _ rfl r hb
      exact .inr ⟨n, lastCounter_counterTime S { r with confirmedAt := some at_ } n,
        later hb hsec hdis hlast⟩
    | disabled => exact .inl (Option.some_ne_none _)
  | recovery hash =>
    obtain ⟨hlt, hs⟩ := hs
    refine ⟨Nat.lt_add_right _ hlt, ?_⟩
    exact Table.row_alterAll_of_keeps (Q := IsUsed) hs (h.isUsed hlt)

theorem spent_of_totp {secret : Secret} {counter : ℕ} {r : UserTotpSecret}
    (hlt : secret < w.uuid) (hr : w.totp? = some r)
    (h : r.disabledAt ≠ none ∨ ∃ last ∈ lastCounter S r, counter ≤ last) :
    Spent S w (.totp secret counter) := by
  refine ⟨hlt, fun r' hr' _ => ?_⟩
  obtain rfl := Option.some.inj (hr.symm.trans hr')
  exact h

/-- A commit that uses a recovery code leaves it used. -/
theorem Commits.spent_recovery (h : Commits S pid w p tx) (hd : w.Drawn) {hash : CodeHash}
    (hs : w.mfaRecoveryCodes.row hash ≠ none)
    (hm : (hash, Option.map fun r : MfaRecoveryCode => { r with usedAt := some w.now }) ∈
      tx.mfaRecoveryCodes) :
    Spent S (w.commit pid tx) (.recovery hash) := by
  have hlt := hd.codes hash hs
  refine ⟨Nat.lt_add_right _ hlt, ?_⟩
  refine Table.row_alterAll_of_mem (Q := IsUsed) hm (fun o code hc => ?_) (h.isUsed hlt)
  obtain ⟨code, -, rfl⟩ := Option.map_eq_some_iff.mp hc
  exact Option.some_ne_none _

/-- A commit accepts at most one factor. Its row is there, it admits the factor, or the factor was
checked without a lock, and if it admits the factor, the factor is spent afterwards. -/
theorem Commits.accepts (h : Commits S pid w p tx) (hd : w.Drawn) (hp : p.Holds S pid w) :
    acceptedFactors tx.events = [] ∨ ∃ factor, acceptedFactors tx.events = [factor] ∧
      Stored w factor ∧ (Admits S w factor ∨ factor ∈ p.usesUnlocked w) ∧
      (Admits S w factor → Spent S (w.commit pid tx) factor) := by
  have revoked (sessions : List Jti) : acceptedFactors (sessions.map Event.revoked) = [] := by
    simp [acceptedFactors, Event.accepted?]
  -- The secret that a row admits has been drawn.
  have drawn {secret : Secret} {counter : ℕ} {r : UserTotpSecret} (hr : w.totp? = some r)
      (ha : Admits S w (.totp secret counter)) : secret < w.uuid + tx.draws := by
    obtain ⟨rfl, -⟩ := ha r hr
    exact Nat.lt_add_right _ (hd.totp r hr).2
  have hc := h
  cases h with
  | @signIn _ _ factor =>
    rcases factor with _ | ⟨secret, counter⟩ | ⟨hash⟩
    · exact .inl rfl
    · obtain ⟨r, ho, hsec, hdis, hlast⟩ := hp
      have hr : w.totp? = some r := ho.2
      refine .inr ⟨.totp secret counter, rfl, ⟨r, hr⟩, .inl fun r' hr' => ?_, fun ha => ?_⟩
      · obtain rfl := Option.some.inj (hr.symm.trans hr')
        exact ⟨hsec, hdis, hlast⟩
      · refine spent_of_totp (drawn hr ha) (congrArg (Option.map _) hr) (.inr ?_)
        exact ⟨counter, lastCounter_counterTime S r counter, Nat.le_refl _⟩
    · obtain ⟨r, ho, hused⟩ := hp
      refine .inr ⟨.recovery hash, rfl, ⟨r, ho.2⟩, .inl fun r' hr' => ?_, fun _ => ?_⟩
      · obtain rfl := Option.some.inj (ho.2.symm.trans hr')
        exact hused
      · exact hc.spent_recovery hd (by simp [ho.2]) (List.mem_singleton_self _)
  | @confirmed _ _ record counter confirmedAt =>
    obtain ⟨r, ho⟩ := hp.1 () (List.mem_singleton_self _)
    have hr : w.totp? = some r := ho.2
    refine .inr ⟨.totp record.secret counter, rfl, ⟨r, hr⟩, .inr rfl, fun ha => ?_⟩
    refine spent_of_totp (drawn hr ha) (congrArg (Option.map _) hr) (.inr ?_)
    exact ⟨counter, lastCounter_counterTime S { r with confirmedAt := some confirmedAt } counter,
      Nat.le_refl _⟩
  | @disabled _ _ _ _ record r factor hr hrow =>
    refine .inr ⟨factor, rfl, ?_, .inr (by simp [Proc.usesUnlocked, hr, hrow]), fun ha => ?_⟩
    · cases factor with
      | totp => exact ⟨r, hr⟩
      | recovery hash =>
        obtain ⟨code, ho⟩ := hp.1 hash (List.mem_singleton_self _)
        exact ⟨code, ho.2⟩
    · cases factor with
      | totp secret counter =>
        exact spent_of_totp (drawn hr ha) (congrArg (Option.map _) hr)
          (.inl (Option.some_ne_none _))
      | recovery hash =>
        obtain ⟨code, ho⟩ := hp.1 hash (List.mem_singleton_self _)
        exact hc.spent_recovery hd (by simp [ho.2]) (List.mem_singleton_self _)
  | replay | logout | reset | erase => exact .inl (revoked _)
  | rollback | rotation | expiry | overwritten | inserted | minted => exact .inl rfl

/-! ### Runs -/

/-- What holds in every run all of whose turns satisfy the condition. -/
structure OneTime (S : Settings) (c : State) : Prop where
  sound : c.Sound S
  distinct : (acceptedFactors c.world.history).Nodup
  spent : ∀ factor ∈ acceptedFactors c.world.history, Spent S c.world factor

theorem stillAdmitted_of_commit {c : State} {i : Pid} (hok : StillAdmitted S c i a)
    (hs : (c.procs i).step S i a c.world = some (p, .commit tx)) :
    tx = {} ∨ ∀ factor ∈ (c.procs i).usesUnlocked c.world, Admits S c.world factor := by
  by_cases ha : a = .error
  · subst ha
    exact .inl (Effect.commit.inj (step_error hs).2)
  · exact .inr (hok ha)

theorem OneTime.after {c : State} {i : Pid} (hc : OneTime S c) (hok : StillAdmitted S c i a)
    (hs : (c.procs i).step S i a c.world = some (p, f)) : OneTime S (c.after i p f) := by
  cases f with
  | skip | lock | tick => exact ⟨hc.sound.after hs, hc.distinct, hc.spent⟩
  | commit tx =>
    rcases stillAdmitted_of_commit hok hs with rfl | hadm
    · exact ⟨hc.sound.after hs, hc.distinct, hc.spent⟩
    have hcommits := (commits_of_step hs).2
    have hheld := hc.sound.holds i
    have kept {factor : Factor} (hm : factor ∈ acceptedFactors c.world.history) :
        Spent S (c.world.commit i tx) factor := hcommits.spent hheld hadm (hc.spent factor hm)
    have happ : acceptedFactors (c.after i p (.commit tx)).world.history =
        acceptedFactors tx.events ++ acceptedFactors c.world.history := List.filterMap_append
    rcases hcommits.accepts hc.sound.drawn hheld with hn | ⟨factor, hf, hstored, hor, hspent⟩
    · rw [hn, List.nil_append] at happ
      exact ⟨hc.sound.after hs, happ ▸ hc.distinct, happ ▸ fun factor hm => kept hm⟩
    · have hadmits : Admits S c.world factor := hor.elim id (hadm factor)
      rw [hf, List.singleton_append] at happ
      refine ⟨hc.sound.after hs, ?_, ?_⟩ <;> rw [happ]
      · -- What is admitted is not spent, and so has not been accepted before.
        exact List.nodup_cons.mpr
          ⟨fun hm => hadmits.not_spent hstored (hc.spent factor hm), hc.distinct⟩
      · exact List.forall_mem_cons.mpr ⟨hspent hadmits, fun factor hm => kept hm⟩

theorem Deployed.oneTime {c : State} (h : Deployed c) : OneTime S c := by
  have hnil : acceptedFactors c.world.history = [] := by
    rw [acceptedFactors, List.filterMap_eq_nil_iff]
    intro e he
    rcases h.world.history e he with ⟨t, rfl⟩ | ⟨jti, rfl⟩ <;> rfl
  refine ⟨h.sound, ?_, ?_⟩ <;> rw [hnil]
  · exact List.nodup_nil
  · exact fun factor hm => (List.not_mem_nil hm).elim

theorem oneTime_of_reach {init : State → Prop} (hinit : ∀ c, init c → OneTime S c) {c : State}
    (h : (system S).Reach init (StillAdmitted S) c) : OneTime S c := by
  refine h.invariant hinit fun c c' i a hc hok hn => ?_
  obtain ⟨p, f, hs, rfl⟩ := next_eq_some.mp hn
  exact hc.after hok hs

/-- Over a run that satisfies the condition the last use of a secret does not go back. -/
theorem lastUsedLe_of_reach {c c' : State} (hc : OneTime S c)
    (h : (system S).Reach (· = c) (StillAdmitted S) c') {r : UserTotpSecret}
    (hr : c.world.totp? = some r) :
    ∀ r' ∈ c'.world.totp?, r'.secret = r.secret → LastUsedLe r r' := by
  refine (h.invariant (Q := fun d => OneTime S d ∧ r.secret < d.world.uuid ∧
    ∀ r' ∈ d.world.totp?, r'.secret = r.secret → LastUsedLe r r') ?_ ?_).2.2
  · rintro _ rfl
    refine ⟨hc, (hc.sound.drawn.totp r hr).2, fun r' hr' _ => ?_⟩
    obtain rfl := Option.some.inj (hr.symm.trans hr')
    exact .refl r
  · rintro d d' i a ⟨hd, hlt, hle⟩ hok hn
    obtain ⟨p, f, hs, rfl⟩ := next_eq_some.mp hn
    refine ⟨hd.after hok hs, ?_, fun r'' hr'' hsec => ?_⟩ <;> cases f with
    | skip | lock | tick => first | exact hlt | exact hle r'' hr'' hsec
    | commit tx => ?_
    · exact Nat.lt_add_right _ hlt
    · rcases stillAdmitted_of_commit hok hs with rfl | hadm
      · exact hle r'' hr'' hsec
      · rcases (commits_of_step hs).2.lastUsed (hd.sound.holds i) hadm hr'' with
          hfresh | ⟨r', hr', hsec', hle'⟩
        · exact (Nat.ne_of_lt hlt (hsec.symm.trans hfresh)).elim
        · exact (hle r' hr' (hsec'.symm.trans hsec)).trans hle'

/-- **Factors are one-time**, in every run in which what was checked without a lock still holds
when it is used. -/
theorem factorsAreOneTime_of_reach {c c' : State}
    (h : (system S).Reach Deployed (StillAdmitted S) c)
    (h' : (system S).Reach (· = c) (StillAdmitted S) c') :
    FactorsAreOneTime c.world c'.world := by
  have hc : OneTime S c := oneTime_of_reach (fun c hc => hc.oneTime) h
  have hc' : OneTime S c' := oneTime_of_reach (fun _ he => he ▸ hc) h'
  exact ⟨hc'.distinct, fun r hr => lastUsedLe_of_reach hc h' hr⟩

/-! ### One code, two requests -/

/-- The codes of the first three counters of the first secret. -/
def firstCodes : ℕ → Code
  | 1 => ['0', '0', '1', '0', '0', '2']
  | 2 => ['0', '0', '2', '0', '0', '2']
  | _ => ['0', '0', '3', '0', '0', '2']

/-- An enrolment and its confirmation, a login, two requests to disable, and a clock. -/
def enrolment : State :=
  registered .plain .coach 5 [.setupTotp registrationToken .authenticate,
    .confirmTotp registrationToken (firstCodes 1) .authenticate,
    .login ⟨5, some (firstCodes 2)⟩ .readUser,
    .disableTotp registrationToken 5 (firstCodes 3) .authenticate,
    .disableTotp registrationToken 5 (firstCodes 3) .authenticate, .clock]

theorem deployed_enrolment : Deployed enrolment := by
  refine deployed_registered ?_
  simp [Proc.IsFresh]

/-- Two counters have passed, and the enrolment is confirmed. -/
def confirmTurns : List (Pid × Answer) :=
  (5, .seconds 60) :: List.replicate 3 (0, .ok) ++
    [(1, .ok), (1, .ok), (1, .ok), (1, .snapshot []), (1, .ok)]

/-- **Three factors, one after the other.** -/
theorem exists_factorsAreOneTime :
    ∃ c c' : State, FactorsAreOneTime c.world c'.world ∧
      acceptedFactors c.world.history = [.totp 2 1] ∧
      acceptedFactors c'.world.history = [.totp 2 3, .totp 2 2, .totp 2 1] := by
  obtain ⟨c, c', h, h', hb⟩ := Machine.exists_reach_reach_of_exec (system .plain)
    (StillAdmitted .plain) deployed_enrolment confirmTurns
    (List.replicate 3 (2, .ok) ++ List.replicate 4 (3, .ok))
    (fun c c' => acceptedFactors c.world.history = [.totp 2 1] ∧
      acceptedFactors c'.world.history = [.totp 2 3, .totp 2 2, .totp 2 1]) (by decide +kernel)
  rw [decide_eq_true_eq] at hb
  exact ⟨c, c', factorsAreOneTime_of_reach h h', hb⟩

/-- **One code, two requests.** Both requests to disable have checked the code before either of
them writes. -/
theorem exists_not_factorsAreOneTime :
    ∃ c c' : State, (system .plain).Reach Deployed Machine.Always c ∧
      (system .plain).Reach (· = c) Machine.Always c' ∧ ¬ FactorsAreOneTime c.world c'.world := by
  obtain ⟨c, c', h, h', hb⟩ := Machine.exists_reach_reach_of_exec (system .plain)
    Machine.Always deployed_enrolment confirmTurns
    ([(3, .ok), (3, .ok), (4, .ok), (4, .ok)] ++ [(3, .ok), (3, .ok), (4, .ok), (4, .ok)])
    (fun _ c' => acceptedFactors c'.world.history = [.totp 2 3, .totp 2 3, .totp 2 1])
    (by decide +kernel)
  rw [decide_eq_true_eq] at hb
  refine ⟨c, c', h, h', fun hfinal => ?_⟩
  have hnodup := hfinal.1
  rw [hb] at hnodup
  simp at hnodup

end NextBallUp.Auth
