import NextBallUp.Lib.Doubles
import Mathlib.Data.List.Chain

/-!
# Parts of an upload

A large file is uploaded in parts. The API decides how many there are, by a division in floating
point, and presigns a URL for each. The browser cuts the file into slices for them, with
JavaScript's numbers.

## Main definitions

* `presignUpload`: what the API answers
* `partStart`, `partEnd`, `slice`: the slice of a part
* `IsPartition`: byte ranges one after the other that cover a file

## Main results

* `presignUpload_eq`: the parts of an upload, as many as it takes
* `partStart_eq`, `partEnd_eq`: the byte ranges that the browser computes
* `isPartition_ranges`, `flatMap_slices`: they are a partition, and their slices are the file

## What is deliberately absent

Failures of the storage before there are URLs, checksums, and uploads in one piece.
-/

namespace NextBallUp.Uploads

/-! ### The API -/

structure Settings where
  uploadMultipartThresholdBytes : ℤ
  uploadMultipartPartSizeBytes : ℕ

/-- The URL of `generate_presigned_url("upload_part", …)` for a part of the upload. -/
structure PartUrl where
  partNumber : ℕ
  deriving DecidableEq

structure PresignedPart where
  partNumber : ℕ
  url : PartUrl
  deriving DecidableEq

inductive PresignedUpload
  | put
  | multipart (parts : List PresignedPart) (partSizeBytes : ℕ)

/-- `a / b`, which raises an exception for a divisor of zero. -/
def trueDiv (a b : ℕ) : Option Double := if b = 0 then none else some (.ofRat (a / b))

theorem trueDiv_of_pos {a b : ℕ} (hb : 0 < b) : trueDiv a b = some (.ofRat (a / b)) :=
  if_neg hb.ne'

/-- The parts from the first to the one with the number. -/
def presignedParts (numParts : ℕ) : List PresignedPart :=
  (List.range' 1 numParts).map fun i => ⟨i, ⟨i⟩⟩

/-- `presign_upload`, or nothing if the numbers of the parts raise an exception. -/
def presignUpload (settings : Settings) (fileSizeBytes : ℕ) : Option PresignedUpload :=
  if fileSizeBytes ≤ settings.uploadMultipartThresholdBytes then some .put
  else do
    let partSize := settings.uploadMultipartPartSizeBytes
    let quotient ← trueDiv fileSizeBytes partSize
    let numParts := max 1 (← quotient.ceil)
    some (.multipart (presignedParts numParts.toNat) partSize)

structure CompletedPart where
  partNumber : ℕ
  etag : String
  deriving DecidableEq

/-- The bounds of `CompletedPart.part_number`. -/
def acceptsPartNumber (partNumber : ℕ) : Bool := 1 ≤ partNumber && partNumber ≤ 10000

/-! ### The browser -/

/-- The first byte of the part. -/
def partStart (part : PresignedPart) (partSize : Double) : Double :=
  ((Double.ofNat part.partNumber).sub (.ofNat 1)).mul partSize

/-- The byte after the last one of the part. -/
def partEnd (part : PresignedPart) (partSize : Double) (fileSize : ℕ) : Double :=
  ((partStart part partSize).add partSize).min (.ofNat fileSize)

/-- A number as an argument of type `[Clamp] long long`. The bounds are those of the integers that a
number can tell apart. -/
def clampToLongLong : Double → ℤ
  | .finite q => max (-2 ^ 53 + 1) (min (2 ^ 53 - 1) (roundEven q))
  | .infinity true => -2 ^ 53 + 1
  | .infinity false => 2 ^ 53 - 1
  | .nan => 0

/-- A position in a file that is counted from its end if it is negative. -/
def position (size : ℕ) (offset : ℤ) : ℕ :=
  if offset < 0 then (max (size + offset) 0).toNat else min offset.toNat size

/-- `file.slice(start, end)` -/
def slice {β : Type} (file : List β) (start stop : Double) : List β :=
  let first := position file.length (clampToLongLong start)
  let last := position file.length (clampToLongLong stop)
  (file.take last).drop first

/-- The slice that the browser uploads for a part. -/
def partSlice {β : Type} (file : List β) (partSize : Double) (part : PresignedPart) : List β :=
  slice file (partStart part partSize) (partEnd part partSize file.length)

/-! ### The number of parts -/

variable {settings : Settings} {size p n : ℕ}

/-- As many parts as it takes. -/
structure IsNumParts (size p n : ℕ) : Prop where
  pos : 1 ≤ n
  lt_size : (n - 1) * p < size
  size_le : size ≤ n * p

theorem isNumParts_of_ceil (hp : 0 < p) (hsize : 0 < size) {c : ℤ}
    (hc : ⌈(size / p : ℚ)⌉ = c) : IsNumParts size p (max 1 c).toNat := by
  have hp' : (0 : ℚ) < p := by exact_mod_cast hp
  have hpos : 1 ≤ c := by
    rw [← hc]
    exact Int.ceil_pos.mpr (by positivity)
  obtain ⟨k, rfl⟩ := Int.eq_ofNat_of_zero_le (zero_le_one.trans hpos)
  have hk : (max 1 (k : ℤ)).toNat = k := by omega
  obtain ⟨hlt, hle⟩ := Int.ceil_eq_iff.mp hc
  rw [hk]
  refine ⟨by omega, ?_, ?_⟩
  · rw [lt_div_iff₀ hp'] at hlt
    have hk' : ((k - 1 : ℕ) : ℚ) = (k : ℤ) - 1 := by
      rw [Nat.cast_sub (by omega)]
      push_cast
      ring
    rw [← hk'] at hlt
    exact_mod_cast hlt
  · rw [div_le_iff₀ hp'] at hle
    exact_mod_cast hle

/-- The API presigns as many parts as it takes. -/
theorem presignUpload_eq (hmultipart : settings.uploadMultipartThresholdBytes < size)
    (hp : 0 < settings.uploadMultipartPartSizeBytes) (hpos : 0 < size) (hsize : size ≤ 2 ^ 52) :
    ∃ n, IsNumParts size settings.uploadMultipartPartSizeBytes n ∧
      presignUpload settings size =
        some (.multipart (presignedParts n) settings.uploadMultipartPartSizeBytes) := by
  generalize hpart : settings.uploadMultipartPartSizeBytes = p at hp
  have hp' : (0 : ℚ) < p := by exact_mod_cast hp
  have hpos' : (0 : ℚ) < size := by exact_mod_cast hpos
  unfold presignUpload
  rw [if_neg (not_le.mpr hmultipart), hpart]
  dsimp only
  rw [trueDiv_of_pos hp]
  rcases le_or_gt p size with hle | hlt
  · refine ⟨_, isNumParts_of_ceil hp hpos rfl, ?_⟩
    simp only [Option.bind_eq_bind, Option.bind_some, Double.ceil_ofRat_div hp hle hsize]
  · -- The file is shorter than a part; the quotient may even round to zero.
    have hq : (size / p : ℚ) ≤ (1 : ℕ) := by
      rw [Nat.cast_one, div_le_one hp']
      exact_mod_cast hlt.le
    obtain ⟨r, hr, h0, h1⟩ := Double.ofRat_mem_Icc (div_pos hpos' hp') hq (by decide)
    have hc : ⌈r⌉ ≤ 1 := Int.ceil_le.mpr (by exact_mod_cast h1)
    have hn : (max 1 ⌈r⌉).toNat = 1 := by omega
    refine ⟨1, ⟨le_rfl, by omega, by omega⟩, ?_⟩
    simp only [Option.bind_eq_bind, Option.bind_some, hr, Double.ceil, hn]

/-! ### Byte ranges -/

/-- The part size is a number for JavaScript, and not infinite. -/
def IsFiniteSize (p : ℕ) : Prop := p < 2 ^ 1024 - 2 ^ 970

/-- The part size as JavaScript reads it. -/
theorem ofNat_partSize (hp : IsFiniteSize p) :
    p < 2 ^ 53 ∧ Double.ofNat p = .finite p ∨
      2 ^ 53 ≤ p ∧ ∃ m : ℕ, Double.ofNat p = .finite m ∧ 2 ^ 53 ≤ m := by
  rcases Nat.lt_or_ge p (2 ^ 53) with hshort | hlong
  · exact .inl ⟨hshort, Double.ofRat_natCast hshort⟩
  · refine .inr ⟨hlong, (Double.ofRat_of_two_pow_le hlong).resolve_left fun hinf => ?_⟩
    obtain ⟨r, hr⟩ := Double.exists_ofRat_eq_finite hp
    cases hr.symm.trans hinf

/-- All parts but a single one are shorter than the file. -/
theorem lt_of_two_le (hn : 2 ≤ n) (hlt : (n - 1) * p < size) : p < size :=
  (Nat.le_mul_of_pos_left p (by omega)).trans_lt hlt

theorem ofNat_sub_one {url : PartUrl} (h : 1 ≤ n) (hn : n < 2 ^ 53) :
    (Double.ofNat (PresignedPart.mk n url).partNumber).sub (.ofNat 1) =
      .finite ((n - 1 : ℕ) : ℚ) := by
  have h1 : Double.ofNat 1 = .finite (1 : ℕ) := Double.ofRat_natCast (by decide)
  show (Double.ofNat n).add (Double.ofNat 1).neg = _
  rw [Double.ofNat, Double.ofRat_natCast hn, h1]
  show Double.ofRat ((n : ℚ) + -((1 : ℕ) : ℚ)) = _
  rw [← sub_eq_add_neg, ← Nat.cast_sub h]
  exact Double.ofRat_natCast (by omega)

theorem partStart_eq {url : PartUrl} (hp : IsFiniteSize p) (hpos : 0 < p) (hn : 1 ≤ n)
    (hlt : (n - 1) * p < size) (hsize : size ≤ 2 ^ 52) :
    partStart ⟨n, url⟩ (.ofNat p) = .finite (((n - 1) * p : ℕ) : ℚ) := by
  have hn' : n - 1 ≤ (n - 1) * p := Nat.le_mul_of_pos_right _ hpos
  unfold partStart
  rw [ofNat_sub_one hn (by omega)]
  have hmul : ∀ m : ℕ, Double.ofNat p = .finite m → (n - 1) * m = (n - 1) * p →
      (Double.finite ((n - 1 : ℕ) : ℚ)).mul (.ofNat p) = .finite (((n - 1) * p : ℕ) : ℚ) := by
    intro m hm heq
    rw [hm]
    show Double.ofRat (((n - 1 : ℕ) : ℚ) * m) = _
    rw [← Nat.cast_mul, heq]
    exact Double.ofRat_natCast (by omega)
  rcases ofNat_partSize hp with ⟨-, hexact⟩ | ⟨hlong, m, hm, -⟩
  · exact hmul p hexact rfl
  · -- Such a part is the only one.
    have hone : n = 1 := by
      by_contra hne
      have := lt_of_two_le (by omega) hlt
      omega
    exact hmul m hm (by rw [hone, Nat.sub_self, Nat.zero_mul, Nat.zero_mul])

theorem min_ofRat_of_short {m : ℕ} (hm : m < 2 ^ 53) (hsize : size ≤ 2 ^ 52) :
    (Double.ofRat m).min (.ofNat size) = .finite ((min m size : ℕ) : ℚ) := by
  rw [Double.ofRat_natCast hm, Double.ofNat, Double.ofRat_natCast (by omega)]
  show Double.finite (min (m : ℚ) size) = _
  rw [Nat.cast_min]

theorem min_ofRat_of_long {m : ℕ} (hm : 2 ^ 53 ≤ m) (hsize : size ≤ 2 ^ 52) :
    (Double.ofRat m).min (.ofNat size) = .finite ((min m size : ℕ) : ℚ) := by
  have hmin : min m size = size := by omega
  rw [hmin, Double.ofNat, Double.ofRat_natCast (n := size) (by omega)]
  rcases Double.ofRat_of_two_pow_le hm with hinf | ⟨k, hk, hle⟩
  · rw [hinf]
    rfl
  · rw [hk]
    show Double.finite (min (k : ℚ) size) = _
    rw [min_eq_right]
    exact_mod_cast (by omega : size ≤ k)

theorem partEnd_eq {url : PartUrl} (hp : IsFiniteSize p) (hpos : 0 < p) (hn : 1 ≤ n)
    (hlt : (n - 1) * p < size) (hsize : size ≤ 2 ^ 52) :
    partEnd ⟨n, url⟩ (.ofNat p) size = .finite ((min (n * p) size : ℕ) : ℚ) := by
  have hnp : (n - 1) * p + p = n * p := by
    rw [← Nat.succ_mul, Nat.succ_eq_add_one, Nat.sub_add_cancel hn]
  unfold partEnd
  rw [partStart_eq hp hpos hn hlt hsize]
  rcases ofNat_partSize hp with ⟨hshort, hexact⟩ | ⟨hlong, m, hm, hle⟩
  · rw [hexact]
    show (Double.ofRat ((((n - 1) * p : ℕ) : ℚ) + p)).min _ = _
    rw [← Nat.cast_add, hnp]
    rcases Nat.lt_or_ge (n * p) (2 ^ 53) with hsum | hsum
    · exact min_ofRat_of_short hsum hsize
    · exact min_ofRat_of_long hsum hsize
  · have hone : n = 1 := by
      by_contra hne
      have := lt_of_two_le (by omega) hlt
      omega
    subst hone
    rw [hm]
    show (Double.ofRat ((((1 - 1) * p : ℕ) : ℚ) + m)).min _ = _
    rw [Nat.sub_self, Nat.zero_mul, Nat.cast_zero, zero_add, one_mul, min_ofRat_of_long hle hsize,
      min_eq_right (by omega), min_eq_right (by omega)]

/-! ### Partitions -/

/-- Byte ranges, each from its first byte to the one after its last, that cover a file one after the
other. All but the last have the size of a part. -/
structure IsPartition (size p : ℕ) (ranges : List (ℕ × ℕ)) : Prop where
  ne_nil : ranges ≠ []
  first : ∀ r ∈ ranges.head?, r.1 = 0
  consecutive : ranges.IsChain fun r r' => r.2 = r'.1
  last : ∀ r ∈ ranges.getLast?, r.2 = size
  nonempty : ∀ r ∈ ranges, r.1 < r.2
  full : ∀ r ∈ ranges.dropLast, r.2 = r.1 + p

/-- The byte ranges of the parts. -/
def ranges (size p n : ℕ) : List (ℕ × ℕ) :=
  (List.range n).map fun i => (i * p, min ((i + 1) * p) size)

/-- All parts but the last end within the file. -/
theorem IsNumParts.mul_lt (h : IsNumParts size p n) {i : ℕ} (hi : i + 1 < n) : (i + 1) * p < size :=
  (Nat.mul_le_mul_right p (by omega)).trans_lt h.lt_size

theorem IsNumParts.lt_of_lt (h : IsNumParts size p n) {i : ℕ} (hi : i < n) : i * p < size :=
  (Nat.mul_le_mul_right p (by omega)).trans_lt h.lt_size

theorem isPartition_ranges (h : IsNumParts size p n) (hp : 0 < p) :
    IsPartition size p (ranges size p n) := by
  have hlen : (ranges size p n).length = n := by
    rw [ranges, List.length_map, List.length_range]
  have hget : ∀ i (hi : i < (ranges size p n).length),
      (ranges size p n)[i] = (i * p, min ((i + 1) * p) size) := by
    intro i hi
    simp only [ranges, List.getElem_map, List.getElem_range]
  have hpos := h.pos
  constructor
  · exact List.ne_nil_of_length_pos (by omega)
  · intro r hr
    rw [List.head?_eq_getElem?, List.getElem?_eq_getElem (by omega), hget] at hr
    obtain rfl := Option.some.inj hr
    exact Nat.zero_mul p
  · rw [List.isChain_iff_getElem]
    intro i hi
    rw [hget, hget]
    exact min_eq_left (h.mul_lt (by omega)).le
  · intro r hr
    rw [List.getLast?_eq_getElem?, List.getElem?_eq_getElem (by omega), hget] at hr
    obtain rfl := Option.some.inj hr
    have hsize := h.size_le
    rw [hlen, Nat.sub_add_cancel hpos]
    exact min_eq_right hsize
  · intro r hr
    obtain ⟨i, hi, rfl⟩ := List.mem_iff_getElem.mp hr
    rw [hget]
    exact lt_min (Nat.mul_lt_mul_of_pos_right (Nat.lt_succ_self i) hp) (h.lt_of_lt (by omega))
  · intro r hr
    obtain ⟨i, hi, rfl⟩ := List.mem_iff_getElem.mp hr
    rw [List.length_dropLast] at hi
    rw [List.getElem_dropLast, hget]
    show min ((i + 1) * p) size = i * p + p
    rw [min_eq_left (h.mul_lt (by omega)).le, Nat.succ_mul]

theorem presignedParts_eq (n : ℕ) :
    presignedParts n = (List.range n).map fun i => ⟨i + 1, ⟨i + 1⟩⟩ := by
  rw [presignedParts, List.range'_eq_map_range, List.map_map]
  refine List.map_congr_left fun i _ => ?_
  show PresignedPart.mk (1 + i) ⟨1 + i⟩ = _
  rw [add_comm]

/-- The browser computes the byte ranges. -/
theorem partRanges_eq (h : IsNumParts size p n) (hfinite : IsFiniteSize p) (hp : 0 < p)
    (hsize : size ≤ 2 ^ 52) :
    ((presignedParts n).map fun part =>
        (partStart part (.ofNat p), partEnd part (.ofNat p) size)) =
      (ranges size p n).map fun r => (.finite r.1, .finite r.2) := by
  rw [presignedParts_eq, ranges, List.map_map, List.map_map]
  refine List.map_congr_left fun i hi => ?_
  have hlt := h.lt_of_lt (List.mem_range.mp hi)
  exact Prod.ext (partStart_eq hfinite hp (Nat.le_add_left 1 i) hlt hsize)
    (partEnd_eq hfinite hp (Nat.le_add_left 1 i) hlt hsize)

/-! ### Slices -/

variable {β : Type} {file : List β}

theorem position_natCast {k : ℕ} (hk : k ≤ size) (hsize : size ≤ 2 ^ 52) :
    position size (clampToLongLong (.finite k)) = k := by
  have hround : roundEven (k : ℚ) = k := roundEven_intCast k
  have hclamp : clampToLongLong (.finite k) = k := by
    rw [clampToLongLong, hround]
    omega
  rw [hclamp, position, if_neg (by omega)]
  exact min_eq_left hk

/-- The slice of a part of the plan. -/
theorem partSlice_eq (h : IsNumParts file.length p n) (hfinite : IsFiniteSize p) (hp : 0 < p)
    (hsize : file.length ≤ 2 ^ 52) {i : ℕ} (hi : i < n) {url : PartUrl} :
    partSlice file (.ofNat p) ⟨i + 1, url⟩ = (file.drop (i * p)).take p := by
  have hlt := h.lt_of_lt hi
  unfold partSlice
  rw [partStart_eq hfinite hp (Nat.le_add_left 1 i) hlt hsize,
    partEnd_eq hfinite hp (Nat.le_add_left 1 i) hlt hsize, slice, Nat.add_sub_cancel]
  rw [position_natCast hlt.le hsize, position_natCast (min_le_right _ _) hsize, List.drop_take,
    List.take_eq_take_iff, List.length_drop]
  show min (min ((i + 1) * p) file.length - i * p) _ = _
  rw [Nat.succ_mul]
  omega

/-- The first chunks of a list, one after the other. -/
theorem take_eq_flatMap_chunks (xs : List β) (p n : ℕ) :
    xs.take (n * p) = (List.range n).flatMap fun i => (xs.drop (i * p)).take p := by
  induction n with
  | zero => simp
  | succ n ih =>
    rw [Nat.succ_mul, List.take_add, ih, List.range_succ, List.flatMap_append]
    simp

/-- **The slices of the parts, one after the other, are the file.** -/
theorem flatMap_slices (h : IsNumParts file.length p n) (hfinite : IsFiniteSize p) (hp : 0 < p)
    (hsize : file.length ≤ 2 ^ 52) :
    (presignedParts n).flatMap (partSlice file (.ofNat p)) = file := by
  rw [presignedParts_eq, List.flatMap_map]
  calc (List.range n).flatMap (fun i => partSlice file (.ofNat p) ⟨i + 1, ⟨i + 1⟩⟩)
      = (List.range n).flatMap fun i => (file.drop (i * p)).take p :=
        List.flatMap_congr fun i hi => partSlice_eq h hfinite hp hsize (List.mem_range.mp hi)
    _ = file.take (n * p) := (take_eq_flatMap_chunks file p n).symm
    _ = file := List.take_of_length_le h.size_le

end NextBallUp.Uploads
