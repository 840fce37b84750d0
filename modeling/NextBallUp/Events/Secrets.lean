import NextBallUp.Events.Candidates

/-!
# Forbidden tokens in imported texts

The import searches the text of a report for tokens that look like secrets, before it decodes the
text. A token that the text spells out is found, in whatever case. A token of which the text writes
a character as an escape is not.

## Main definitions

* `CandidateItem.texts`, `VideoEvent.importedTexts`: the texts of a candidate, and of its event
* `Hides`: a text contains a token, but no part of it that is spelled without escapes does

## Main results

* `not_infix_of_not_hides`: a token that is spelled out has been found
* `not_exposes_iff`: **the events of a report contain no forbidden token if and only if no text of
  its candidates hides one**
* `exists_exposes`: a report that spells a token with an escape
-/

namespace NextBallUp.Events

open JsonText
open Transaction (Session)

variable {U : Unicode} {recursionLimit : ℕ} {video : Video} {rawReport : List ℕ}

/-- The texts that the event of the candidate keeps. -/
def CandidateItem.texts (item : CandidateItem) : List (List CodePoint) :=
  item.candidateId :: item.predictedActions

/-- The texts that an event has from its candidate. -/
def VideoEvent.importedTexts (row : VideoEvent) : List (List ℕ) :=
  (row.eventMetadata.get "candidate_id").strings ++
    (row.eventMetadata.get "predicted_actions").strings

/-- A text that the event has from its candidate contains the token, in some case. -/
def VideoEvent.Exposes (U : Unicode) (row : VideoEvent) (token : String) : Prop :=
  ∃ x ∈ row.importedTexts, token.codePoints <:+: U.lower x

/-- The text contains the token in some case, but only with characters that are written as escapes,
or that `str` has written for a value. -/
def Hides (U : Unicode) (text : List CodePoint) (token : String) : Prop :=
  token.codePoints <:+: U.lower (codes text) ∧
    ∀ part, part <:+: text → Verbatim part → ¬token.codePoints <:+: U.lower (codes part)

/-! ### Texts of a candidate -/

theorem importedTexts_candidateEvent (shot : Bool) (now : Time) (item : CandidateItem)
    (id : EventId) :
    VideoEvent.importedTexts { candidateEvent video shot now item with id := id } =
      item.texts.map codes := by
  have hactions : ∀ actions : List (List CodePoint),
      Json.stringsOfItems (actions.map fun a => Json.str (codes a)) = actions.map codes := by
    intro actions
    induction actions with
    | nil => rfl
    | cons a rest ih =>
      rw [List.map_cons, Json.stringsOfItems, ih]
      rfl
  simp [VideoEvent.importedTexts, candidateEvent, get_dict_cons, Json.strings, hactions,
    CandidateItem.texts]

/-- A member of a report is spelled by its text. -/
theorem spellsValue_get {text : List ℕ} {fields : Json.Fields CodePoint}
    (h : ∀ s ∈ Json.stringsOfFields fields, Spells text s) (key : String) :
    SpellsValue text (fields.get key) :=
  fun s hs => h s (Json.Fields.mem_strings_get hs)

theorem spells_texts {text : List ℕ} {raw : Json CodePoint} {item : CandidateItem}
    (hraw : SpellsValue text raw) (h : candidateItem U raw = some item) :
    ∀ x ∈ item.texts, Spells text x := by
  cases raw with
  | obj fields =>
    simp only [candidateItem, Json.asObj, Option.bind_eq_bind, Option.bind_eq_some_iff,
      Option.some.injEq, exists_eq_left', Option.guard_eq_some', exists_const] at h
    obtain ⟨-, -, -, -, -, -, -, -, -, -, id, hid, -, rfl⟩ := h
    intro x hx
    rcases List.mem_cons.mp hx with rfl | hx
    · have hmem : id ∈ (Json.Fields.get fields "candidate_id").strings := by
        cases hg : Json.Fields.get fields "candidate_id" with
        | str s =>
          rw [hg] at hid
          cases hid
          exact List.mem_cons_self
        | _ =>
          rw [hg] at hid
          cases hid
      exact (spellsValue_get hraw "candidate_id" id hmem).part (List.take_prefix _ _).isInfix
    · obtain ⟨y, hy, rfl⟩ := List.mem_map.mp hx
      obtain ⟨a, ha, rfl⟩ := List.mem_map.mp (List.mem_of_mem_filter hy)
      refine Spells.part (U.spells_str ?_) (List.take_prefix _ _).isInfix
      have ha := List.mem_of_mem_take ha
      have hactions := spellsValue_get hraw "predicted_actions"
      cases hg : Json.Fields.get fields "predicted_actions" with
      | arr items =>
        rw [hg] at ha hactions
        exact fun s hs => hactions s (Json.mem_stringsOfItems.mpr ⟨a, ha, hs⟩)
      | _ =>
        rw [hg] at ha
        exact (List.not_mem_nil ha).elim
  | _ => cases h

/-! ### Tokens -/

/-- No token contains a sigma, whose lower case depends on what stands around it. -/
theorem sigma_notMem_of_forbidden {token : String} (h : token ∈ forbiddenCandidateReportTokens) :
    Unicode.smallSigma ∉ token.codePoints ∧ Unicode.finalSigma ∉ token.codePoints := by
  revert token
  decide +kernel

theorem assertCandidateReportSafe_ok (h : assertCandidateReportSafe U rawReport = .ok ())
    {token : String} (htoken : token ∈ forbiddenCandidateReportTokens) :
    ¬token.codePoints <:+: U.lower rawReport := by
  unfold assertCandidateReportSafe at h
  split at h
  · cases h
  · next hany =>
    intro hin
    exact hany (List.any_eq_true.mpr ⟨token, htoken, decide_eq_true hin⟩)

/-- A token that the text spells out has been found. -/
theorem not_infix_of_not_hides (hsafe : assertCandidateReportSafe U rawReport = .ok ())
    {x : List CodePoint} (hx : Spells rawReport x) {token : String}
    (htoken : token ∈ forbiddenCandidateReportTokens) (hhides : ¬Hides U x token) :
    ¬token.codePoints <:+: U.lower (codes x) := by
  intro hin
  refine hhides ⟨hin, fun part hpart hv hfound => ?_⟩
  obtain ⟨hsmall, hfinal⟩ := sigma_notMem_of_forbidden htoken
  exact assertCandidateReportSafe_ok hsafe htoken
    (U.infix_lower hsmall hfinal (hx part hpart hv) hfound)

/-! ### Reports that are imported -/

theorem importReport_ok {file : Option (List ℕ)} {now : Time} {n : ℕ} {s s' : Session Db Unit}
    (h : importReport U recursionLimit video now file s = (.ok n, s')) :
    ∃ rawReport report, file = some rawReport ∧ assertCandidateReportSafe U rawReport = .ok () ∧
      loads recursionLimit rawReport = .ok (.obj report) ∧
      replaceAlphaCandidateEvents U video now report s = (.ok n, s') := by
  cases file with
  | none => cases h
  | some rawReport =>
    obtain ⟨a, s₁, hsafe, h⟩ := Transaction.bind_eq_ok h
    cases hassert : assertCandidateReportSafe U rawReport with
    | error e =>
      rw [hassert] at hsafe
      cases hsafe
    | ok _ =>
      rw [hassert] at hsafe
      cases hsafe
      cases hloads : loads recursionLimit rawReport with
      | ok value =>
        rw [hloads] at h
        cases value with
        | obj report => exact ⟨rawReport, report, rfl, hassert, hloads, h⟩
        | _ => cases h
      | error e =>
        rw [hloads] at h
        cases e <;> cases h

/-- An import that stores events has found a report, and all that it has stored are the events of
its candidates. -/
theorem syncAlphaCandidateTags_ok {enabled : Bool} {artifact : DemoPreviewArtifact}
    {requestId : TaskId} {now : Time} {n : ℕ} {s s' : Session Db Unit}
    (h : syncAlphaCandidateTags U recursionLimit enabled video artifact requestId now s =
      (.ok (some n), s')) :
    ∃ file s₁ s₂, artifact.candidateTagsPath = some file ∧
      importReport U recursionLimit video now file s₁ = (.ok n, s₂) ∧
      s₁.working.events = s.working.events ∧ s₁.working.nextId = s.working.nextId ∧
      s₁.working.shotClockEnabled = s.working.shotClockEnabled ∧
      s'.working.events = s₂.working.events := by
  obtain ⟨path, error⟩ := artifact
  cases enabled with
  | false => cases h
  | true =>
    cases error with
    | some message =>
      cases path <;>
      · obtain ⟨job, s₁, -, h⟩ := Transaction.bind_eq_ok h
        obtain ⟨_, _, -, h⟩ := Transaction.bind_eq_ok h
        cases h
    | none =>
      cases path with
      | none => cases h
      | some file =>
        obtain ⟨job, s₁, hjob, h⟩ := Transaction.bind_eq_ok h
        cases hjob
        obtain ⟨inserted, s₂, hcatch, h⟩ := Transaction.bind_eq_ok h
        rcases Transaction.tryCatch_eq_ok hcatch with himport | ⟨e, s₃, -, hhandler⟩
        · obtain ⟨k, s₃, himport, hs₃⟩ := Transaction.bind_eq_ok himport
          cases hs₃
          obtain ⟨_, s₄, hset, h⟩ := Transaction.bind_eq_ok h
          cases hset
          cases h
          exact ⟨file, _, s₂, rfl, himport, rfl, rfl, rfl, rfl⟩
        · -- The handler marks the job as failed, and nothing is imported.
          cases hfailure : e.failure with
          | none =>
            rw [hfailure] at hhandler
            cases hhandler
          | some failure =>
            rw [hfailure] at hhandler
            obtain ⟨_, _, -, hhandler⟩ := Transaction.bind_eq_ok hhandler
            cases hhandler
            cases h

/-- What the import of a report has stored. -/
theorem isInserted_of_sync {enabled : Bool} {artifact : DemoPreviewArtifact} {requestId : TaskId}
    {now : Time} {n : ℕ} {s s' : Session Db Unit}
    (hpath : artifact.candidateTagsPath = some (some rawReport))
    (h : syncAlphaCandidateTags U recursionLimit enabled video artifact requestId now s =
      (.ok (some n), s')) :
    assertCandidateReportSafe U rawReport = .ok () ∧ ∃ report items,
      loads recursionLimit rawReport = .ok (.obj report) ∧
      validatedCandidateItems U report = .ok items ∧
      IsInserted video items now s.working s'.working := by
  obtain ⟨file, s₁, s₂, hfile, himport, hevents, hnext, hshot, hevents'⟩ :=
    syncAlphaCandidateTags_ok h
  obtain rfl : file = some rawReport := Option.some.inj (hfile.symm.trans hpath)
  obtain ⟨_, report, hraw, hsafe, hloads, hreplace⟩ := importReport_ok himport
  cases hraw
  obtain ⟨items, hitems, hinserted⟩ := replaceAlphaCandidateEvents_ok hreplace
  refine ⟨hsafe, report, items, hloads, hitems, ?_, ?_⟩
  · rw [hevents', ← hnext, ← hshot]
    exact hinserted.mem
  · rw [hevents', ← hnext, ← hshot]
    exact hinserted.of_mem

/-- The candidates of a report are spelled by its text. -/
theorem spells_texts_of_items {report : Json.Fields CodePoint} {items : List CandidateItem}
    (hloads : loads recursionLimit rawReport = .ok (.obj report))
    (hitems : validatedCandidateItems U report = .ok items) :
    ∀ item ∈ items, ∀ x ∈ item.texts, Spells rawReport x := by
  intro item hitem
  obtain ⟨raws, hraws, rfl⟩ := validatedCandidateItems_ok hitems
  obtain ⟨raw, hraw, hitem⟩ := List.mem_filterMap.mp hitem
  refine spells_texts (fun s hs => ?_) hitem
  refine spells_of_loads hloads ?_
  show s ∈ Json.stringsOfFields report
  refine @Json.Fields.mem_strings_get _ _ report "candidates" s ?_
  cases hg : report.get "candidates" with
  | arr all =>
    rw [hg] at hraws
    cases hraws
    exact Json.mem_stringsOfItems.mpr ⟨raw, List.mem_of_mem_take hraw, hs⟩
  | _ =>
    rw [hg] at hraws
    cases hraws

/-- **The events of a report contain no forbidden token if and only if no text of its candidates
hides one.** -/
theorem not_exposes_iff {enabled : Bool} {artifact : DemoPreviewArtifact} {requestId : TaskId}
    {now : Time} {n : ℕ} {s s' : Session Db Unit}
    (hpath : artifact.candidateTagsPath = some (some rawReport))
    (h : syncAlphaCandidateTags U recursionLimit enabled video artifact requestId now s =
      (.ok (some n), s')) :
    (∀ row ∈ s'.working.events, s.working.nextId ≤ row.id →
      ∀ token ∈ forbiddenCandidateReportTokens, ¬row.Exposes U token) ↔
    ∀ report items, loads recursionLimit rawReport = .ok (.obj report) →
      validatedCandidateItems U report = .ok items → ∀ item ∈ items, ∀ x ∈ item.texts,
        ∀ token ∈ forbiddenCandidateReportTokens, ¬Hides U x token := by
  obtain ⟨hsafe, report, items, hloads, hitems, hinserted⟩ := isInserted_of_sync hpath h
  constructor
  · intro hclean report' items' hloads' hitems' item hitem x hx token htoken hhides
    rw [hloads] at hloads'
    cases hloads'
    rw [hitems] at hitems'
    cases hitems'
    obtain ⟨id, hnew, hrow⟩ := hinserted.mem item hitem
    refine hclean _ hrow hnew token htoken ⟨codes x, ?_, hhides.1⟩
    rw [importedTexts_candidateEvent]
    exact List.mem_map_of_mem hx
  · rintro hhides row hrow hnew token htoken ⟨y, hy, hin⟩
    obtain ⟨-, item, hitem, id, rfl⟩ := hinserted.of_mem row hrow hnew
    rw [importedTexts_candidateEvent] at hy
    obtain ⟨x, hx, rfl⟩ := List.mem_map.mp hy
    exact not_infix_of_not_hides hsafe (spells_texts_of_items hloads hitems item hitem x hx) htoken
      (hhides report items hloads hitems item hitem x hx token htoken) hin

/-! ### Two reports -/

/-- The import of a report with one candidate, whose identifier is spelled like this. -/
def sampleSync (candidateId : String) : Except ImportError (Option ℕ) × Session Db Unit :=
  syncAlphaCandidateTags .ascii 1000 true (sampleVideo 30)
    { candidateTagsPath := some (some (sampleReportText candidateId))
      candidateTagsError := none } 0 0 ⟨.empty, .empty, ()⟩

theorem exists_sampleSync {candidateId : String}
    (h : (sampleSync candidateId).1.toOption = some (some 1)) :
    ∃ s', sampleSync candidateId = (.ok (some 1), s') := by
  cases hr : sampleSync candidateId with
  | mk r s' =>
    rw [hr] at h
    cases r with
    | ok n => exact ⟨s', by rw [Option.some.inj h]⟩
    | error e => cases h

/-- The candidates of the report contain no token at all. -/
def isClean (rawReport : List ℕ) : Bool :=
  match loads 1000 rawReport with
  | .ok (.obj report) =>
    match validatedCandidateItems .ascii report with
    | .ok items => items.all fun item => item.texts.all fun x =>
      forbiddenCandidateReportTokens.all fun token =>
        !(token.codePoints <:+: Unicode.ascii.lower (codes x) : Bool)
    | .error _ => true
  | _ => true

theorem not_hides_of_isClean (hclean : isClean rawReport) {report : Json.Fields CodePoint}
    {items : List CandidateItem} (hloads : loads 1000 rawReport = .ok (.obj report))
    (hitems : validatedCandidateItems .ascii report = .ok items) :
    ∀ item ∈ items, ∀ x ∈ item.texts, ∀ token ∈ forbiddenCandidateReportTokens,
      ¬Hides .ascii x token := by
  intro item hitem x hx token htoken hhides
  rw [isClean, hloads] at hclean
  dsimp only at hclean
  rw [hitems] at hclean
  have hitem := List.all_eq_true.mp hclean item hitem
  have hx := List.all_eq_true.mp (List.all_eq_true.mp hitem x hx) token htoken
  rw [Bool.not_eq_true', decide_eq_false_iff_not] at hx
  exact hx hhides.1

/-- An ordinary identifier. -/
theorem exists_not_exposes :
    ∃ s', sampleSync "candidate-000001" = (.ok (some 1), s') ∧
      ∀ row ∈ s'.working.events, ∀ token ∈ forbiddenCandidateReportTokens,
        ¬row.Exposes .ascii token := by
  obtain ⟨s', hs⟩ := exists_sampleSync (by decide +kernel :
    (sampleSync "candidate-000001").1.toOption = some (some 1))
  refine ⟨s', hs, fun row hrow token htoken => ?_⟩
  refine (not_exposes_iff rfl hs).mpr (fun report items hloads hitems => ?_) row hrow
    (Nat.zero_le _) token htoken
  exact not_hides_of_isClean (by decide +kernel) hloads hitems

/-- An address whose first letter is an escape. -/
theorem exists_exposes :
    ∃ s', sampleSync "\\u0068ttp://example.com" = (.ok (some 1), s') ∧
      ∃ row ∈ s'.working.events, row.Exposes .ascii "http://" := by
  have hrun : (sampleSync "\\u0068ttp://example.com").1.toOption = some (some 1) ∧
      ∃ row ∈ (sampleSync "\\u0068ttp://example.com").2.working.events,
        ∃ x ∈ row.importedTexts, "http://".codePoints <:+: Unicode.ascii.lower x := by
    decide +kernel
  obtain ⟨s', hs⟩ := exists_sampleSync hrun.1
  have hexposes := hrun.2
  rw [hs] at hexposes
  exact ⟨s', hs, hexposes⟩

end NextBallUp.Events
