import NextBallUp.Uploads.Parts
import Mathlib.Logic.Relation
import Mathlib.Data.List.Sort

/-!
# Multipart uploads

The browser uploads the parts of a file with a few workers, which take turns at a shared index. When
all of them have returned, and none has failed, it submits the list of the parts with their ETags,
and the API has the storage put the file together.

## Main definitions

* `Client`, `Step`: the state of `uploadMultipart`, with what the storage has, and what happens next
* `Client.submits`: the list that the browser submits
* `completeMultipart`: the file that the storage puts together

## Main results

* `Invariant.step`: what each worker keeps
* `submits_eq`: a list that is submitted names each part once, with the ETag of its bytes
* `multipart_upload`: **the parts are a partition of the file, and a completed upload is the file**
* `not_isPlan`: a part size beyond the numbers of JavaScript

## What is deliberately absent

Progress, and URLs that expire. The storage is what the API assumes of it: it keeps the bytes of
each part, and puts the listed parts together in the order of their numbers.
-/

namespace NextBallUp.Uploads

variable {β : Type}

/-! ### The browser -/

/-- `MULTIPART_CONCURRENCY` -/
def multipartConcurrency : ℕ := 5

/-- Why the upload of a part failed. -/
inductive PartFailure
  | rejected (httpStatus : ℕ)
  | noEtag
  | network
  | cancelled

def PartFailure.message : PartFailure → String
  | rejected httpStatus => "Storage rejected part (HTTP " ++ toString httpStatus ++ ")."
  | noEtag =>
    "Storage did not expose the ETag header. Ask an admin to add ETag to CORS ExposeHeaders."
  | network => "Network error during part upload."
  | cancelled => "Part upload was cancelled."

/-- `etag.replace(/^"|"$/g, "")` -/
def stripQuotes (etag : String) : String :=
  let chars := if etag.toList.head? = some '"' then etag.toList.tail else etag.toList
  String.ofList (if chars.getLast? = some '"' then chars.dropLast else chars)

/-- What `uploadMultipart` is given, and the ETag that the storage answers for the bytes of a part.
-/
structure Upload (β : Type) where
  file : List β
  partSize : ℕ
  parts : List PresignedPart
  etagHeader : List β → String

inductive Worker
  /-- At the head of its loop. -/
  | idle
  | uploading (i : ℕ)
  | returned
  deriving DecidableEq

inductive MultipartResult
  | success (parts : List CompletedPart)
  | failure (message : String)

namespace Upload

variable (upload : Upload β)

def sortedParts : List PresignedPart :=
  upload.parts.mergeSort fun a b => a.partNumber ≤ b.partNumber

/-- The bytes that are uploaded for a part. -/
def slice (part : PresignedPart) : List β := partSlice upload.file (.ofNat upload.partSize) part

/-- What `uploadPart` makes of the answer for a part. -/
def completedPart (part : PresignedPart) : CompletedPart :=
  ⟨part.partNumber, stripQuotes (upload.etagHeader (upload.slice part))⟩

/-- How many workers there are. -/
def numWorkers : ℕ := min multipartConcurrency upload.sortedParts.length

/-- The variables of `uploadMultipart`, and the parts that the storage has. -/
structure Client where
  nextIndex : ℕ
  failure : Option String
  /-- `pool.aborted` -/
  aborted : Bool
  results : List (Option CompletedPart)
  workers : Fin upload.numWorkers → Worker
  stored : ℕ → Option (List β)

def start : upload.Client where
  nextIndex := 0
  failure := none
  aborted := false
  results := upload.sortedParts.map fun _ => none
  workers _ := .idle
  stored _ := none

end Upload

open Upload

variable {upload : Upload β}

namespace Upload.Client

variable (s : upload.Client)

/-- `failure` is true for JavaScript. -/
def hasFailed : Bool := s.failure.any (· ≠ "")

/-- A worker at the head of its loop: it returns, or it starts the upload of the next part. -/
def claim (w : Fin upload.numWorkers) : upload.Client :=
  if s.hasFailed || s.aborted then { s with workers := Function.update s.workers w .returned }
  else
    let i := s.nextIndex
    if upload.sortedParts.length ≤ i then
      { s with
        nextIndex := i + 1
        workers := Function.update s.workers w .returned }
    else
      { s with
        nextIndex := i + 1
        workers := Function.update s.workers w (.uploading i) }

/-- The storage has taken the bytes of a part. -/
def put (part : PresignedPart) : upload.Client :=
  { s with stored := Function.update s.stored part.url.partNumber (some (upload.slice part)) }

/-- The upload of the part has succeeded. -/
def succeed (w : Fin upload.numWorkers) (i : ℕ) (part : PresignedPart) : upload.Client :=
  { s.put part with
    results := s.results.set i (some (upload.completedPart part))
    workers := Function.update s.workers w .idle }

/-- The upload of a part has failed. -/
def fail (w : Fin upload.numWorkers) (failure : PartFailure) : upload.Client :=
  { s with
    failure := some failure.message
    workers := Function.update s.workers w .returned }

/-- All workers have returned. -/
def IsDone : Prop := ∀ w, s.workers w = .returned

instance : Decidable s.IsDone := inferInstanceAs (Decidable (∀ _, _))

/-- What `uploadMultipart` returns when its workers have. -/
def result : MultipartResult :=
  if s.hasFailed then .failure (s.failure.getD "")
  else if s.aborted then .failure "Upload was cancelled."
  else
    let completed := s.results.filterMap id
    if completed.length ≠ upload.sortedParts.length then
      .failure "Not all parts finished uploading."
    else .success completed

/-- The list that the browser submits. -/
def submits : Option (List CompletedPart) :=
  if s.IsDone ∧ ¬s.aborted then
    match s.result with
    | .success parts => some parts
    | .failure _ => none
  else none

end Upload.Client

open Upload.Client

/-- What happens next, at any of the workers or outside of them. -/
inductive Step : upload.Client → upload.Client → Prop
  | claim {s : upload.Client} (w : Fin upload.numWorkers) (h : s.workers w = .idle) :
    Step s (s.claim w)
  | succeed {s : upload.Client} (w : Fin upload.numWorkers) {i : ℕ} {part : PresignedPart}
    (h : s.workers w = .uploading i) (hpart : upload.sortedParts[i]? = some part)
    (hetag : upload.etagHeader (upload.slice part) ≠ "") : Step s (s.succeed w i part)
  /-- Also a part that has failed for the browser may have reached the storage. -/
  | failStored {s : upload.Client} (w : Fin upload.numWorkers) {i : ℕ} {part : PresignedPart}
    (h : s.workers w = .uploading i) (hpart : upload.sortedParts[i]? = some part)
    (failure : PartFailure) : Step s ((s.put part).fail w failure)
  | fail {s : upload.Client} (w : Fin upload.numWorkers) {i : ℕ} (h : s.workers w = .uploading i)
    (failure : PartFailure) : Step s (s.fail w failure)
  | abort {s : upload.Client} : Step s { s with aborted := true }

/-- The states that a run reaches. -/
abbrev Reach (s s' : upload.Client) : Prop := Relation.ReflTransGen Step s s'

/-! ### The storage -/

/-- `complete_multipart`: the parts in the order of their numbers, which the storage puts together
if it has each of them with its ETag. -/
def completeMultipart (etagHeader : List β → String) (stored : ℕ → Option (List β))
    (parts : List CompletedPart) : Option (List β) :=
  let sortedParts := parts.mergeSort fun a b => a.partNumber ≤ b.partNumber
  let found := sortedParts.mapM fun part =>
    (stored part.partNumber).filter fun bytes => stripQuotes (etagHeader bytes) = part.etag
  found.map List.flatten

/-! ### What each worker keeps -/

theorem message_ne_empty (failure : PartFailure) : failure.message ≠ "" := by
  cases failure with
  | rejected httpStatus =>
    intro h
    exact absurd (String.append_eq_empty_iff.mp h).2 (by decide)
  | noEtag => decide +kernel
  | network => decide +kernel
  | cancelled => decide +kernel

structure Invariant (s : upload.Client) : Prop where
  /-- Every failure has a message. -/
  failure : ∀ message ∈ s.failure, message ≠ ""
  length : s.results.length = upload.sortedParts.length
  /-- Every result is that of its part, whose bytes the storage has. -/
  result : ∀ (i : ℕ) (r : CompletedPart), s.results[i]? = some (some r) →
    ∃ part, upload.sortedParts[i]? = some part ∧ r = upload.completedPart part ∧
      (s.stored part.url.partNumber).isSome
  /-- The storage has only slices of parts. -/
  stored : ∀ n bytes, s.stored n = some bytes → ∃ part ∈ upload.sortedParts,
    part.url.partNumber = n ∧ bytes = upload.slice part
  /-- Every part that a worker has claimed is done or under way. -/
  claimed : ∀ i < s.nextIndex, i < upload.sortedParts.length →
    (∃ r, s.results[i]? = some (some r)) ∨ (∃ w, s.workers w = .uploading i) ∨ s.hasFailed
  /-- A worker returns early only for a reason. -/
  returned : ∀ w, s.workers w = .returned →
    s.hasFailed ∨ s.aborted ∨ upload.sortedParts.length ≤ s.nextIndex

namespace Invariant

theorem start : Invariant upload.start where
  failure _ h := by cases h
  length := List.length_map _
  result i r h := by
    have hmem := List.mem_of_getElem? h
    rw [Upload.start, List.mem_map] at hmem
    obtain ⟨_, -, hmem⟩ := hmem
    cases hmem
  stored _ _ h := by cases h
  claimed i hi := (Nat.not_lt_zero i hi).elim
  returned _ h := by cases h

variable {s : upload.Client} {w : Fin upload.numWorkers}

theorem claim (hinv : Invariant s) (hw : s.workers w = .idle) : Invariant (s.claim w) := by
  have hothers : ∀ {w' worker i}, s.workers w' = .uploading i →
      Function.update s.workers w worker w' = .uploading i := by
    intro w' worker i h
    have hne : w' ≠ w := by
      rintro rfl
      cases hw.symm.trans h
    rwa [Function.update_of_ne hne]
  unfold Client.claim
  dsimp only
  split_ifs with hstop hall
  · refine { hinv with claimed := ?_, returned := ?_ }
    · intro i hi hlen
      exact (hinv.claimed i hi hlen).imp_right (Or.imp_left fun ⟨w', h⟩ => ⟨w', hothers h⟩)
    · intro w' h
      rcases (Bool.or_eq_true_iff).mp hstop with hfailed | haborted
      · exact .inl hfailed
      · exact .inr (.inl haborted)
  · refine { hinv with claimed := ?_, returned := ?_ }
    · intro i hi hlen
      have hi' : i < s.nextIndex := by omega
      exact (hinv.claimed i hi' hlen).imp_right (Or.imp_left fun ⟨w', h⟩ => ⟨w', hothers h⟩)
    · intro w' h
      exact .inr (.inr (Nat.le_succ_of_le hall))
  · refine { hinv with claimed := ?_, returned := ?_ }
    · intro i hi hlen
      rcases Nat.lt_succ_iff_lt_or_eq.mp hi with hi | rfl
      · exact (hinv.claimed i hi hlen).imp_right (Or.imp_left fun ⟨w', h⟩ => ⟨w', hothers h⟩)
      · exact .inr (.inl ⟨w, Function.update_self ..⟩)
    · intro w' h
      change Function.update s.workers w (.uploading s.nextIndex) w' = .returned at h
      have hne : w' ≠ w := by
        rintro rfl
        rw [Function.update_self] at h
        cases h
      rw [Function.update_of_ne hne] at h
      exact (hinv.returned w' h).imp_right (Or.imp_right Nat.le_succ_of_le)

/-- The storage takes the bytes of a part. -/
theorem put (hinv : Invariant s) {part : PresignedPart} (hpart : part ∈ upload.sortedParts) :
    Invariant (s.put part) := by
  refine { hinv with result := ?_, stored := ?_ }
  · intro i r h
    obtain ⟨part', hpart', hr, hstored⟩ := hinv.result i r h
    refine ⟨part', hpart', hr, ?_⟩
    show (Function.update s.stored part.url.partNumber _ _).isSome
    by_cases he : part'.url.partNumber = part.url.partNumber
    · rw [he, Function.update_self]
      rfl
    · rwa [Function.update_of_ne he]
  · intro n bytes h
    change Function.update s.stored part.url.partNumber _ n = _ at h
    by_cases he : n = part.url.partNumber
    · rw [he, Function.update_self] at h
      exact ⟨part, hpart, he.symm, (Option.some.inj h).symm⟩
    · rw [Function.update_of_ne he] at h
      exact hinv.stored n bytes h

theorem succeed (hinv : Invariant s) {i : ℕ} {part : PresignedPart}
    (hw : s.workers w = .uploading i) (hpart : upload.sortedParts[i]? = some part) :
    Invariant (s.succeed w i part) := by
  have hput := hinv.put (List.mem_of_getElem? hpart)
  have hi : i < s.results.length := by
    rw [hinv.length]
    exact (List.getElem?_eq_some_iff.mp hpart).1
  refine { hput with length := ?_, result := ?_, claimed := ?_, returned := ?_ }
  · exact (List.length_set ..).trans hinv.length
  · intro j r h
    by_cases hj : i = j
    · subst hj
      change (s.results.set i _)[i]? = _ at h
      rw [List.getElem?_set_self hi] at h
      refine ⟨part, hpart, (Option.some.inj (Option.some.inj h)).symm, ?_⟩
      show (Function.update s.stored part.url.partNumber _ _).isSome
      rw [Function.update_self]
      rfl
    · change (s.results.set i _)[j]? = _ at h
      rw [List.getElem?_set_ne hj] at h
      exact hput.result j r h
  · intro j hj hlen
    show (∃ r, (s.results.set i _)[j]? = _) ∨ _
    by_cases he : i = j
    · subst he
      exact .inl ⟨_, List.getElem?_set_self hi⟩
    · rw [List.getElem?_set_ne he]
      refine (hinv.claimed j hj hlen).imp_right (Or.imp_left ?_)
      rintro ⟨w', hw'⟩
      have hne : w' ≠ w := by
        rintro rfl
        exact he (Worker.uploading.inj (hw.symm.trans hw'))
      exact ⟨w', (Function.update_of_ne hne ..).trans hw'⟩
  · intro w' h
    change Function.update s.workers w .idle w' = .returned at h
    have hne : w' ≠ w := by
      rintro rfl
      rw [Function.update_self] at h
      cases h
    rw [Function.update_of_ne hne] at h
    exact hinv.returned w' h

theorem hasFailed_fail (s : upload.Client) (w : Fin upload.numWorkers) (failure : PartFailure) :
    (s.fail w failure).hasFailed :=
  decide_eq_true (message_ne_empty failure)

theorem fail (hinv : Invariant s) (failure : PartFailure) : Invariant (s.fail w failure) := by
  have hfailed := hasFailed_fail s w failure
  refine { hinv with failure := ?_, claimed := ?_, returned := ?_ }
  · intro message h
    cases h
    exact message_ne_empty failure
  · exact fun _ _ _ => .inr (.inr hfailed)
  · exact fun _ _ => .inl hfailed

theorem abort (hinv : Invariant s) : Invariant { s with aborted := true } :=
  { hinv with
    returned := fun _ _ => .inr (.inl rfl) }

theorem step {s' : upload.Client} (hinv : Invariant s) (h : Step s s') : Invariant s' := by
  cases h with
  | claim w hw => exact hinv.claim hw
  | succeed w hw hpart hetag => exact hinv.succeed hw hpart
  | failStored w hw hpart failure => exact (hinv.put (List.mem_of_getElem? hpart)).fail failure
  | fail w hw failure => exact hinv.fail failure
  | abort => exact hinv.abort

theorem of_reach {s : upload.Client} (h : Reach upload.start s) : Invariant s := by
  induction h with
  | refl => exact start
  | tail _ hstep ih => exact ih.step hstep

end Invariant

/-! ### What is submitted -/

variable {s s' : upload.Client}

/-- A failure stays, and so does an abort. -/
theorem Step.stopped (h : Step s s') (hs : s.hasFailed ∨ s.aborted) :
    s'.hasFailed ∨ s'.aborted := by
  cases h with
  | claim w hw =>
    unfold Client.claim
    dsimp only
    split_ifs <;> exact hs
  | succeed w hw hpart hetag => exact hs
  | failStored w hw hpart failure => exact .inl (Invariant.hasFailed_fail _ w failure)
  | fail w hw failure => exact .inl (Invariant.hasFailed_fail s w failure)
  | abort => exact .inr rfl

theorem submits_of_stopped (hs : s.hasFailed ∨ s.aborted) : s.submits = none := by
  unfold Client.submits
  split_ifs with h
  · rcases hs with hfailed | haborted
    · rw [Client.result, if_pos hfailed]
    · exact (h.2 haborted).elim
  · rfl

/-- Nothing is submitted after a failure or an abort. -/
theorem submits_of_reach_stopped (h : Reach s s') (hs : s.hasFailed ∨ s.aborted) :
    s'.submits = none := by
  refine submits_of_stopped ?_
  induction h with
  | refl => exact hs
  | tail _ hstep ih => exact hstep.stopped ih

/-- When all workers have returned and none has failed, every part has its result. -/
theorem results_eq (hinv : Invariant s) (hparts : upload.sortedParts ≠ []) (hdone : s.IsDone)
    (hfailed : ¬s.hasFailed) (haborted : ¬s.aborted) :
    s.results = upload.sortedParts.map fun part => some (upload.completedPart part) := by
  have hworker : 0 < upload.numWorkers :=
    lt_min (by decide) (List.length_pos_iff.mpr hparts)
  have hall : upload.sortedParts.length ≤ s.nextIndex :=
    ((hinv.returned ⟨0, hworker⟩ (hdone _)).resolve_left hfailed).resolve_left haborted
  refine List.ext_getElem? fun i => ?_
  rcases Nat.lt_or_ge i upload.sortedParts.length with hi | hi
  · rcases hinv.claimed i (by omega) hi with ⟨r, hr⟩ | ⟨w, hw⟩ | h
    · obtain ⟨part, hpart, rfl, -⟩ := hinv.result i r hr
      rw [hr, List.getElem?_map, hpart]
      rfl
    · cases (hdone w).symm.trans hw
    · exact (hfailed h).elim
  · rw [List.getElem?_eq_none (hinv.length.trans_le hi), List.getElem?_map,
      List.getElem?_eq_none hi]
    rfl

/-- The list that is submitted when all workers have returned and none has failed. -/
theorem submits_eq (hinv : Invariant s) (hparts : upload.sortedParts ≠ []) (hdone : s.IsDone)
    (hfailed : ¬s.hasFailed) (haborted : ¬s.aborted) :
    s.submits = some (upload.sortedParts.map upload.completedPart) := by
  have hcompleted : s.results.filterMap id = upload.sortedParts.map upload.completedPart := by
    rw [results_eq hinv hparts hdone hfailed haborted, List.filterMap_map]
    exact List.filterMap_eq_map ▸ rfl
  unfold Client.submits Client.result
  rw [if_pos ⟨hdone, haborted⟩, if_neg hfailed, if_neg haborted]
  dsimp only
  rw [hcompleted, if_neg (not_not.mpr (List.length_map _))]

/-- Only this list is submitted. -/
theorem eq_of_submits {parts : List CompletedPart} (hinv : Invariant s)
    (hparts : upload.sortedParts ≠ []) (h : s.submits = some parts) :
    s.IsDone ∧ parts = upload.sortedParts.map upload.completedPart := by
  have hgo : ¬(s.hasFailed ∨ s.aborted) := by
    intro hs
    rw [submits_of_stopped hs] at h
    cases h
  rw [not_or] at hgo
  have hdone : s.IsDone := by
    by_contra hdone
    rw [Client.submits, if_neg fun hs => hdone hs.1] at h
    cases h
  rw [submits_eq hinv hparts hdone hgo.1 hgo.2] at h
  exact ⟨hdone, (Option.some.inj h).symm⟩

/-! ### The plan of the API -/

/-- The upload of a file with the parts that the API has presigned for it. -/
def presignedUpload (file : List β) (partSize n : ℕ) (etagHeader : List β → String) : Upload β where
  file := file
  partSize := partSize
  parts := presignedParts n
  etagHeader := etagHeader

section Presigned

variable {settings : Settings} {file : List β} {p n : ℕ} {etagHeader : List β → String}

theorem sortedParts_presignedUpload :
    (presignedUpload file p n etagHeader).sortedParts = presignedParts n := by
  refine List.mergeSort_of_pairwise ?_
  rw [presignedUpload, presignedParts, List.pairwise_map]
  exact (List.pairwise_lt_range' ..).imp fun h => decide_eq_true h.le

theorem partNumber_of_mem {part : PresignedPart} (h : part ∈ presignedParts n) :
    part.url.partNumber = part.partNumber ∧ 1 ≤ part.partNumber ∧ part.partNumber ≤ n := by
  obtain ⟨i, hi, rfl⟩ := List.mem_map.mp h
  obtain ⟨h1, hn⟩ := List.mem_range'_1.mp hi
  have hle : i ≤ n := by omega
  exact ⟨rfl, h1, hle⟩

theorem eq_of_partNumber {part part' : PresignedPart} (h : part ∈ presignedParts n)
    (h' : part' ∈ presignedParts n) (he : part.partNumber = part'.partNumber) : part = part' := by
  obtain ⟨i, -, rfl⟩ := List.mem_map.mp h
  obtain ⟨j, -, rfl⟩ := List.mem_map.mp h'
  exact congrArg (fun i => PresignedPart.mk i ⟨i⟩) he

/-- The storage has the bytes of every part whose upload has succeeded. -/
theorem stored_eq {s : (presignedUpload file p n etagHeader).Client} (hinv : Invariant s)
    (hdone : s.results = (presignedParts n).map fun part =>
      some ((presignedUpload file p n etagHeader).completedPart part))
    {part : PresignedPart} (hpart : part ∈ presignedParts n) :
    s.stored part.partNumber = some ((presignedUpload file p n etagHeader).slice part) := by
  obtain ⟨i, hi⟩ := List.mem_iff_getElem?.mp hpart
  have hresult : s.results[i]? =
      some (some ((presignedUpload file p n etagHeader).completedPart part)) := by
    rw [hdone, List.getElem?_map, hi]
    rfl
  obtain ⟨part', hpart', -, hstored⟩ := hinv.result i _ hresult
  rw [sortedParts_presignedUpload, hi] at hpart'
  cases hpart'
  rw [(partNumber_of_mem hpart).1] at hstored
  obtain ⟨bytes, hbytes⟩ := Option.isSome_iff_exists.mp hstored
  obtain ⟨part'', hmem, hnumber, rfl⟩ := hinv.stored _ bytes hbytes
  rw [sortedParts_presignedUpload] at hmem
  rw [(partNumber_of_mem hmem).1] at hnumber
  rw [hbytes, eq_of_partNumber hmem hpart hnumber]

/-- The storage puts the slices together. -/
theorem completeMultipart_eq {stored : ℕ → Option (List β)}
    (h : ∀ part ∈ presignedParts n,
      stored part.partNumber = some ((presignedUpload file p n etagHeader).slice part)) :
    completeMultipart etagHeader stored
        ((presignedParts n).map (presignedUpload file p n etagHeader).completedPart) =
      some ((presignedParts n).flatMap (presignedUpload file p n etagHeader).slice) := by
  have hsorted : ((presignedParts n).map
      (presignedUpload file p n etagHeader).completedPart).mergeSort
        (fun a b => a.partNumber ≤ b.partNumber) =
      (presignedParts n).map (presignedUpload file p n etagHeader).completedPart := by
    refine List.mergeSort_of_pairwise ?_
    rw [presignedParts, List.map_map, List.pairwise_map]
    exact (List.pairwise_lt_range' ..).imp fun h => decide_eq_true h.le
  have hfound : ∀ l : List PresignedPart, (∀ part ∈ l, part ∈ presignedParts n) →
      (l.map (presignedUpload file p n etagHeader).completedPart).mapM (fun part =>
        (stored part.partNumber).filter fun bytes =>
          stripQuotes (etagHeader bytes) = part.etag) =
      some (l.map (presignedUpload file p n etagHeader).slice) := by
    intro l hl
    induction l with
    | nil => rfl
    | cons part rest ih =>
      have hpart := h part (hl part List.mem_cons_self)
      rw [List.map_cons, List.mapM_cons, ih fun q hq => hl q (List.mem_cons_of_mem _ hq)]
      have hfilter : (some ((presignedUpload file p n etagHeader).slice part)).filter (fun bytes =>
          stripQuotes (etagHeader bytes) =
            ((presignedUpload file p n etagHeader).completedPart part).etag) =
          some ((presignedUpload file p n etagHeader).slice part) := if_pos (decide_eq_true rfl)
      show ((stored part.partNumber).filter _ >>= _) = _
      rw [hpart, hfilter]
      rfl
  rw [completeMultipart, hsorted, hfound _ fun part hpart => hpart, Option.map_some,
    List.flatMap_def]

/-- The parts of the plan are a partition of the file, and the browser cuts the file at them. -/
structure IsPlan (file : List β) (p n : ℕ) : Prop where
  /-- The byte ranges that the browser computes. -/
  ranges : ∃ ranges, IsPartition file.length p ranges ∧
    ((presignedParts n).map fun part =>
        (partStart part (.ofNat p), partEnd part (.ofNat p) file.length)) =
      ranges.map fun r => (.finite r.1, .finite r.2)
  slices : (presignedParts n).flatMap (partSlice file (.ofNat p)) = file
  accepted : ∀ part ∈ presignedParts n, acceptsPartNumber part.partNumber

/-- What holds of the upload at any time. -/
structure IsFaithful (file : List β) (p n : ℕ) (etagHeader : List β → String)
    (s : (presignedUpload file p n etagHeader).Client) : Prop where
  /-- When all workers have succeeded, the list is submitted. -/
  submits : s.IsDone → ¬s.hasFailed → ¬s.aborted → s.submits.isSome
  /-- A list that is submitted names each part with the ETag of its bytes. -/
  parts : ∀ parts ∈ s.submits, parts = (presignedParts n).map fun part =>
    ⟨part.partNumber, stripQuotes (etagHeader (partSlice file (.ofNat p) part))⟩
  /-- Its completion is the file. -/
  completed : ∀ parts ∈ s.submits, completeMultipart etagHeader s.stored parts = some file
  /-- After a failure or an abort, nothing is submitted. -/
  stopped : s.hasFailed ∨ s.aborted → ∀ s', Reach s s' → s'.submits = none

theorem isPlan (h : IsNumParts file.length p n) (hfinite : IsFiniteSize p) (hp : 0 < p)
    (hsize : file.length ≤ 2 ^ 52) (hparts : file.length ≤ 10000 * p) : IsPlan file p n where
  ranges := ⟨_, isPartition_ranges h hp, partRanges_eq h hfinite hp hsize⟩
  slices := flatMap_slices h hfinite hp hsize
  accepted := by
    intro part hpart
    obtain ⟨-, h1, hn⟩ := partNumber_of_mem hpart
    have hn' : n - 1 < 10000 := Nat.lt_of_mul_lt_mul_right (h.lt_size.trans_le hparts)
    exact Bool.and_eq_true_iff.mpr ⟨decide_eq_true h1, decide_eq_true (by omega)⟩

theorem isFaithful (hn : 1 ≤ n)
    (hslices : (presignedParts n).flatMap (partSlice file (.ofNat p)) = file)
    {s : (presignedUpload file p n etagHeader).Client}
    (h : Reach (presignedUpload file p n etagHeader).start s) :
    IsFaithful file p n etagHeader s := by
  have hinv := Invariant.of_reach h
  have hne : (presignedUpload file p n etagHeader).sortedParts ≠ [] := by
    rw [sortedParts_presignedUpload]
    refine List.ne_nil_of_length_pos ?_
    rw [presignedParts, List.length_map, List.length_range']
    exact hn
  refine ⟨?_, ?_, ?_, ?_⟩
  · intro hdone hfailed haborted
    rw [submits_eq hinv hne hdone hfailed haborted]
    rfl
  · intro parts hparts
    obtain ⟨-, rfl⟩ := eq_of_submits hinv hne hparts
    rw [sortedParts_presignedUpload]
    rfl
  · intro parts hparts
    obtain ⟨hdone, rfl⟩ := eq_of_submits hinv hne hparts
    have hgo : ¬(s.hasFailed ∨ s.aborted) := by
      intro hs
      rw [submits_of_stopped hs] at hparts
      cases hparts
    rw [not_or] at hgo
    have hresults := results_eq hinv hne hdone hgo.1 hgo.2
    rw [sortedParts_presignedUpload] at hresults ⊢
    rw [completeMultipart_eq fun part hpart => stored_eq hinv hresults hpart]
    exact congrArg some hslices
  · exact fun hs s' hs' => submits_of_reach_stopped hs' hs

/-- **The parts of a multipart upload are a partition of the file, and what is completed is the
file**, for every part size that JavaScript's numbers hold. -/
theorem multipart_upload {settings : Settings} {file : List β} (etagHeader : List β → String)
    (hpart : 5 * 2 ^ 20 ≤ settings.uploadMultipartPartSizeBytes)
    (hfinite : settings.uploadMultipartPartSizeBytes < 2 ^ 1024 - 2 ^ 970)
    (hpos : 1 ≤ file.length)
    (hparts : file.length ≤ 10000 * settings.uploadMultipartPartSizeBytes)
    (hsize : file.length ≤ 5 * 2 ^ 40)
    (hmultipart : settings.uploadMultipartThresholdBytes < file.length) :
    ∃ n, presignUpload settings file.length =
        some (.multipart (presignedParts n) settings.uploadMultipartPartSizeBytes) ∧
      IsPlan file settings.uploadMultipartPartSizeBytes n ∧
      ∀ s, Reach (presignedUpload file settings.uploadMultipartPartSizeBytes n etagHeader).start s →
        IsFaithful file settings.uploadMultipartPartSizeBytes n etagHeader s := by
  have hsize' : file.length ≤ 2 ^ 52 := hsize.trans (by decide)
  have hpart' : 0 < settings.uploadMultipartPartSizeBytes := lt_of_lt_of_le (by decide) hpart
  obtain ⟨n, hn, hpresign⟩ := presignUpload_eq hmultipart hpart' hpos hsize'
  have hplan := isPlan hn hfinite hpart' hsize' hparts
  exact ⟨n, hpresign, hplan, fun s hs => isFaithful hn.pos hplan.slices hs⟩

/-- A file of six million bytes in parts of five mebibytes. -/
theorem exists_multipart_upload :
    ∃ n, presignUpload ⟨0, 5 * 2 ^ 20⟩ 6000000 =
        some (.multipart (presignedParts n) (5 * 2 ^ 20)) ∧
      IsPlan (List.replicate 6000000 0) (5 * 2 ^ 20) n ∧
      ∀ s, Reach
          (presignedUpload (List.replicate 6000000 0) (5 * 2 ^ 20) n fun _ => "etag").start s →
        IsFaithful (List.replicate 6000000 0) (5 * 2 ^ 20) n (fun _ => "etag") s := by
  have hlen : (List.replicate 6000000 0).length = 6000000 := List.length_replicate
  have h := @multipart_upload ℕ ⟨0, 5 * 2 ^ 20⟩ (List.replicate 6000000 0) (fun _ => "etag") le_rfl
    (lt_of_lt_of_le (by norm_num : 5 * 2 ^ 20 < 2 ^ 23) ?_) (by rw [hlen]; norm_num)
    (by rw [hlen]; norm_num) (by rw [hlen]; norm_num) (by rw [hlen]; norm_num)
  · rwa [hlen] at h
  · have hsum : ∀ {i j k : ℕ}, i ≤ j → j + 1 ≤ k → 2 ^ i ≤ 2 ^ k - 2 ^ j := by
      intro i j k hij hjk
      refine Nat.le_sub_of_add_le ?_
      calc 2 ^ i + 2 ^ j ≤ 2 ^ j + 2 ^ j :=
        Nat.add_le_add_right (pow_le_pow_right₀ one_le_two hij) _
        _ = 2 ^ (j + 1) := (two_mul _).symm.trans (pow_succ' 2 j).symm
        _ ≤ 2 ^ k := pow_le_pow_right₀ one_le_two hjk
    exact hsum (by omega) (by omega)

/-- The slice of the only part is empty if JavaScript reads the part size as infinite. -/
theorem partSlice_of_infinite {url : PartUrl} (hp : 2 ^ 1024 ≤ p) :
    partSlice file (.ofNat p) ⟨1, url⟩ = [] := by
  have hstart : partStart ⟨1, url⟩ (.ofNat p) = .nan := by
    unfold partStart
    rw [ofNat_sub_one le_rfl (by decide), Double.ofNat, Double.ofRat_eq_infinity hp]
    rfl
  unfold partSlice partEnd
  rw [hstart]
  rfl

/-- A file of one byte and a part size beyond JavaScript's numbers: the browser uploads no byte. -/
theorem not_isPlan :
    presignUpload ⟨0, 2 ^ 1024⟩ [0].length = some (.multipart (presignedParts 1) (2 ^ 1024)) ∧
      5 * 2 ^ 20 ≤ 2 ^ 1024 ∧ [0].length ≤ 10000 * 2 ^ 1024 ∧ ¬IsPlan [0] (2 ^ 1024) 1 := by
  have hpow : 2 ^ 23 ≤ 2 ^ 1024 := pow_le_pow_right₀ one_le_two (by omega)
  refine ⟨?_, le_trans (by norm_num) hpow, ?_, ?_⟩
  · obtain ⟨n, hn, h⟩ := @presignUpload_eq ⟨0, 2 ^ 1024⟩ 1 (by decide) (by positivity)
      one_pos (by decide)
    have hone : n = 1 := by
      by_contra hne
      have hpos := hn.pos
      have hlt := lt_of_two_le (by omega) hn.lt_size
      exact absurd hlt (not_lt.mpr (Nat.one_le_two_pow))
    rw [hone] at h
    exact h
  · exact Nat.mul_pos (by decide) (Nat.two_pow_pos 1024)
  · intro hplan
    have hslices := hplan.slices
    rw [presignedParts_eq] at hslices
    change partSlice [0] (.ofNat (2 ^ 1024)) ⟨1, ⟨1⟩⟩ ++ [] = [0] at hslices
    rw [partSlice_of_infinite le_rfl] at hslices
    cases hslices

end Presigned

end NextBallUp.Uploads
