import CraftecCore.Erasure.Homomorphic
import CraftecCore.Erasure.Ragged
import CraftecCore.Erasure.Segmenter

/-!
# Layout — how long the segments are, and how much content comes back

A receiver computes the length of a segment from its index and the length of the content, which come
from elsewhere and need not fit together.  Only the end of a segment is cut off at the end of the
content, so a segment that starts behind the content has a negative length.  Segments missing at the
end are not missed at all: the last truncation can only shorten.
-/

namespace CraftecCore
namespace Erasure

open GF256 RowReduction RowVector

/-! ## The verification record -/

structure ContentVerificationRecord where
  fileSize : UInt64
  segmentHashes : List SegmentHashes

def ContentVerificationRecord.segmentCount (record : ContentVerificationRecord) : Outcome ℕ :=
  if record.fileSize = 0 then
    pure 0
  else
    usizeDivCeil record.fileSize.toNat defaultSegmentSize

def ContentVerificationRecord.kForSegment (record : ContentVerificationRecord)
    (segmentIndex : ℕ) : Outcome ℕ := do
  let segCount ← record.segmentCount
  if segCount = 0 then
    pure 0
  else do
    let next ← usizeAdd segmentIndex 1
    if next < segCount then
      -- full segment
      pure (defaultSegmentSize / defaultPieceSize)
    else do
      -- last segment, may be partial
      let start ← usizeMul segmentIndex defaultSegmentSize
      let remaining ← usizeSub record.fileSize.toNat start
      let q ← usizeDivCeil remaining defaultPieceSize
      pure (max q 1)

/-! ## The length of one segment -/

/-- The length that the receiver computes for segment `i`. -/
def segmentLength (config : ErasureConfig) (originalLen i : ℕ) : Outcome ℕ := do
  let segmentStart ← usizeMul i config.segmentSize
  let next ← usizeAdd i 1
  let stop ← usizeMul next config.segmentSize
  usizeSub (min stop originalLen) segmentStart

section Segment

variable {segments : UInt32 → Option (List CodedPiece)} {config : ErasureConfig}
  {originalLen i : ℕ}

/-- The end does not fit a word, or the segment starts behind the content, or there is a length. -/
theorem segmentLength_cases (config : ErasureConfig) (originalLen : ℕ) (hi : i < 2 ^ 32) :
    (2 ^ 64 ≤ (i + 1) * config.segmentSize ∧
      segmentLength config originalLen i = .panic .overflow) ∨
    ((i + 1) * config.segmentSize < 2 ^ 64 ∧ originalLen < i * config.segmentSize ∧
      segmentLength config originalLen i = .panic .underflow) ∨
    ((i + 1) * config.segmentSize < 2 ^ 64 ∧ i * config.segmentSize ≤ originalLen ∧
      segmentLength config originalLen i =
        .ok (min ((i + 1) * config.segmentSize) originalLen - i * config.segmentSize)) := by
  have hnext := usizeAdd_eq_ok (show i + 1 < 2 ^ 64 by omega)
  have hle : i * config.segmentSize ≤ (i + 1) * config.segmentSize :=
    Nat.mul_le_mul_right _ (Nat.le_succ i)
  by_cases hend : (i + 1) * config.segmentSize < 2 ^ 64
  · have hmul := usizeMul_eq_ok (lt_of_le_of_lt hle hend)
    have hstop := usizeMul_eq_ok hend
    by_cases hstart : i * config.segmentSize ≤ originalLen
    · have hsub := usizeSub_eq_ok (le_min hle hstart)
      exact Or.inr (Or.inr ⟨hend, hstart, by simp [segmentLength, hmul, hnext, hstop, hsub]⟩)
    · have hlt : min ((i + 1) * config.segmentSize) originalLen < i * config.segmentSize :=
        min_lt_of_right_lt (Nat.lt_of_not_le hstart)
      have hsub := usizeSub_eq_panic hlt
      exact Or.inr (Or.inl ⟨hend, Nat.lt_of_not_le hstart,
        by simp [segmentLength, hmul, hnext, hstop, hsub]⟩)
  · refine Or.inl ⟨Nat.le_of_not_lt hend, ?_⟩
    by_cases hmul : i * config.segmentSize < 2 ^ 64
    · simp [segmentLength, usizeMul_eq_ok hmul, hnext, usizeMul_eq_panic hend]
    · simp [segmentLength, usizeMul_eq_panic hmul]

/-- A segment that is there is decoded with its length. -/
theorem decodeSegment_of_some {pieces : List CodedPiece}
    (hget : segments (UInt32.ofNat i) = some pieces) :
    decodeSegment segments config originalLen i = (do
      let segmentLen ← segmentLength config originalLen i
      let k ← config.kForSegment segmentLen
      match ← (RlncDecoder.new k config.pieceSize segmentLen).decode pieces with
      | .error err => pure (.error err)
      | .ok decoded => pure (.ok (UInt32.ofNat i, decoded))) := by
  have hbind : ∀ f : ℕ → Outcome (Except ErasureError (UInt32 × List GF256)),
      segmentLength config originalLen i >>= f = (do
        let segmentStart ← usizeMul i config.segmentSize
        let next ← usizeAdd i 1
        let stop ← usizeMul next config.segmentSize
        let segmentLen ← usizeSub (min stop originalLen) segmentStart
        f segmentLen) := by
    intro f
    simp only [segmentLength, bind_assoc]
  rw [decodeSegment, hget]
  exact (hbind _).symm

theorem kForSegment_ne_underflow (config : ErasureConfig) (segmentBytes : ℕ) :
    config.kForSegment segmentBytes ≠ .panic .underflow := by
  by_cases hzero : config.pieceSize = 0 <;> simp [ErasureConfig.kForSegment, usizeDivCeil, hzero]

theorem decode_ne_underflow (k pieceSize originalSize : ℕ) (pieces : List CodedPiece) :
    (RlncDecoder.new k pieceSize originalSize).decode pieces ≠ .panic .underflow := by
  by_cases hcount : pieces.length < k
  · simp [RlncDecoder.decode, RlncDecoder.new, hcount]
  · rcases decode_cases (Nat.le_of_not_lt hcount) pieceSize originalSize with
      ⟨-, ⟨-, hrun⟩ | ⟨-, rows, -, hrun⟩⟩ | ⟨-, hrun⟩
    · simp [hrun]
    · rw [hrun]
      split
      · simp
      · split <;> simp
    · simp [hrun]

/-- Only the length of a segment can underflow. -/
theorem decodeSegment_eq_underflow (segments : UInt32 → Option (List CodedPiece))
    (config : ErasureConfig) (originalLen : ℕ) (hi : i < 2 ^ 32) :
    decodeSegment segments config originalLen i = .panic .underflow ↔
      segments (UInt32.ofNat i) ≠ none ∧ (i + 1) * config.segmentSize < 2 ^ 64 ∧
        originalLen < i * config.segmentSize := by
  cases hget : segments (UInt32.ofNat i) with
  | none => simp [decodeSegment, hget]
  | some pieces =>
      rw [decodeSegment_of_some hget]
      rcases segmentLength_cases config originalLen hi with
        ⟨hend, hlen⟩ | ⟨hend, hstart, hlen⟩ | ⟨hend, hstart, hlen⟩
      · exact iff_of_false (by simp [hlen]) (fun h => absurd h.2.1 (Nat.not_lt_of_le hend))
      · exact iff_of_true (by simp [hlen]) ⟨by simp, hend, hstart⟩
      · -- behind the length, nothing is subtracted
        refine iff_of_false ?_ (fun h => absurd hstart (Nat.not_le_of_lt h.2.2))
        rw [hlen, Outcome.ok_bind]
        cases hk : config.kForSegment
            (min ((i + 1) * config.segmentSize) originalLen - i * config.segmentSize) with
        | panic why =>
            have hne := kForSegment_ne_underflow config
              (min ((i + 1) * config.segmentSize) originalLen - i * config.segmentSize)
            simpa [hk] using hne
        | ok k =>
            have hne := decode_ne_underflow k config.pieceSize
              (min ((i + 1) * config.segmentSize) originalLen - i * config.segmentSize) pieces
            rw [Outcome.ok_bind]
            cases hrun : (RlncDecoder.new k config.pieceSize
                (min ((i + 1) * config.segmentSize) originalLen -
                  i * config.segmentSize)).decode pieces with
            | panic why => simpa [hrun] using hne
            | ok result => cases result <;> simp

/-- An underflow of the whole is the underflow of a segment. -/
theorem decodeAndReassemble_eq_underflow {totalSegments : UInt32}
    (hpanic : decodeAndReassemble segments totalSegments config originalLen =
      .panic .underflow) :
    ∃ i < totalSegments.toNat,
      decodeSegment segments config originalLen i = .panic .underflow := by
  rcases Outcome.bind_eq_panic.1 hpanic with hrun | ⟨results, -, hrest⟩
  · rcases Outcome.exists_of_mapM_eq_panic hrun with ⟨i, hi, hsegment⟩
    exact ⟨i, List.mem_range.1 hi, hsegment⟩
  · -- collecting the results does not subtract
    unfold withCapacity at hrest
    split at hrest
    · cases hcollect : results.collectResults <;> simp [hcollect] at hrest
    · simp at hrest

/-! ## When a call is answered -/

/-- The number of pieces that the receiver asks for of segment `i`. -/
def neededPieces (config : ErasureConfig) (originalLen i : ℕ) : ℕ :=
  max ((min ((i + 1) * config.segmentSize) originalLen - i * config.segmentSize) ⌈/⌉
    config.pieceSize) 1

/-- Segment `i` ends at a word and starts within the content; and if there are enough pieces, none
of them is read out of bounds, and independent ones fit a buffer. -/
def Answerable (config : ErasureConfig) (originalLen i : ℕ) (pieces : List CodedPiece) : Prop :=
  (i + 1) * config.segmentSize < 2 ^ 64 ∧ i * config.segmentSize ≤ originalLen ∧
    (pieces.length < neededPieces config originalLen i ∨
      PiecesInBounds (neededPieces config originalLen i) pieces ∧
        (PiecesLeaveColumn (neededPieces config originalLen i) pieces ∨
          neededPieces config originalLen i * config.pieceSize ≤ isizeMax))

theorem decodeSegment_returns_iff (hpiece : 0 < config.pieceSize) (hi : i < 2 ^ 32) :
    (∃ result, decodeSegment segments config originalLen i = .ok result) ↔
      ∀ pieces, segments (UInt32.ofNat i) = some pieces →
        Answerable config originalLen i pieces := by
  cases hget : segments (UInt32.ofNat i) with
  | none => simp [decodeSegment, hget]
  | some pieces =>
      simp only [Option.some.injEq, forall_eq']
      rw [decodeSegment_of_some hget]
      rcases segmentLength_cases config originalLen hi with
        ⟨hend, hlen⟩ | ⟨hend, hstart, hlen⟩ | ⟨hend, hstart, hlen⟩
      · exact iff_of_false (by simp [hlen]) fun h => absurd h.1 (Nat.not_lt_of_le hend)
      · exact iff_of_false (by simp [hlen]) fun h => absurd h.2.1 (Nat.not_le_of_lt hstart)
      · have hk : config.kForSegment
            (min ((i + 1) * config.segmentSize) originalLen - i * config.segmentSize) =
              .ok (neededPieces config originalLen i) := by
          simp [ErasureConfig.kForSegment, usizeDivCeil_eq_ok _ hpiece, neededPieces]
        have hiff := decode_returns_iff (neededPieces config originalLen i) config.pieceSize
          (min ((i + 1) * config.segmentSize) originalLen - i * config.segmentSize) pieces
        rw [hlen, Outcome.ok_bind, hk, Outcome.ok_bind]
        constructor
        · rintro ⟨result, hrun⟩
          rcases Outcome.bind_eq_ok.1 hrun with ⟨decoded, hdecode, -⟩
          exact ⟨hend, hstart, hiff.1 ⟨decoded, hdecode⟩⟩
        · rintro ⟨-, -, hpieces⟩
          rcases hiff.2 hpieces with ⟨decoded, hdecode⟩
          rw [hdecode, Outcome.ok_bind]
          cases decoded with
          | error err => exact ⟨_, rfl⟩
          | ok bytes => exact ⟨_, rfl⟩

/-- The whole call is answered when each of its segments is and the content fits a buffer. -/
theorem decodeAndReassemble_returns_iff {totalSegments : UInt32}
    (hpiece : 0 < config.pieceSize) :
    (∃ result, decodeAndReassemble segments totalSegments config originalLen = .ok result) ↔
      originalLen ≤ isizeMax ∧ ∀ i < totalSegments.toNat, ∀ pieces,
        segments (UInt32.ofNat i) = some pieces → Answerable config originalLen i pieces := by
  have hsegments : (∃ parts, (List.range totalSegments.toNat).mapM
      (decodeSegment segments config originalLen) = .ok parts) ↔
      ∀ i < totalSegments.toNat, ∀ pieces,
        segments (UInt32.ofNat i) = some pieces → Answerable config originalLen i pieces := by
    rw [Outcome.mapM_returns_iff]
    constructor
    · intro h i hi
      exact (decodeSegment_returns_iff hpiece (lt_trans hi totalSegments.toNat_lt)).1
        (h i (List.mem_range.2 hi))
    · intro h i hi
      have hlt := List.mem_range.1 hi
      exact (decodeSegment_returns_iff hpiece (lt_trans hlt totalSegments.toNat_lt)).2 (h i hlt)
  rw [← hsegments]
  constructor
  · rintro ⟨result, hrun⟩
    rcases Outcome.bind_eq_ok.1 hrun with ⟨parts, hparts, hrun⟩
    rcases Outcome.bind_eq_ok.1 hrun with ⟨_, hcap, -⟩
    refine ⟨?_, parts, hparts⟩
    by_contra hbig
    simp [withCapacity, hbig] at hcap
  · rintro ⟨hcap, parts, hparts⟩
    rw [decodeAndReassemble, hparts, Outcome.ok_bind, withCapacity_eq_ok hcap, Outcome.ok_bind]
    cases parts.collectResults with
    | error err => exact ⟨_, rfl⟩
    | ok values => exact ⟨_, rfl⟩

end Segment

/-! ## The number of source pieces -/

/-- A file that is not empty has segments, and each of them starts within the file. -/
theorem ContentVerificationRecord.segmentCount_eq_ok {record : ContentVerificationRecord}
    (hzero : record.fileSize ≠ 0) :
    ∃ count, record.segmentCount = .ok count ∧ count ≠ 0 ∧
      ∀ i < count, i * defaultSegmentSize < record.fileSize.toNat := by
  have hsize : 0 < defaultSegmentSize := by decide
  have hpos : 0 < record.fileSize.toNat := by
    rw [Nat.pos_iff_ne_zero]
    exact fun h => hzero (UInt64.toNat_inj.1 h)
  refine ⟨record.fileSize.toNat ⌈/⌉ defaultSegmentSize, ?_, ?_, ?_⟩
  · simp [segmentCount, hzero, usizeDivCeil_eq_ok _ hsize]
  · exact Nat.pos_iff_ne_zero.1 (one_le_ceilDiv hsize hpos)
  · exact fun i hi => mul_lt_of_lt_ceilDiv hsize hi

/-- An empty file has no pieces; otherwise the start of the segment must lie within the file. -/
theorem ContentVerificationRecord.kForSegment_cases (record : ContentVerificationRecord)
    (segmentIndex : ℕ) :
    (record.fileSize = 0 ∧ record.kForSegment segmentIndex = .ok 0) ∨
    (record.fileSize ≠ 0 ∧
      ((2 ^ 64 ≤ segmentIndex * defaultSegmentSize ∧
          record.kForSegment segmentIndex = .panic .overflow) ∨
        (segmentIndex * defaultSegmentSize < 2 ^ 64 ∧
          record.fileSize.toNat < segmentIndex * defaultSegmentSize ∧
          record.kForSegment segmentIndex = .panic .underflow) ∨
        (segmentIndex * defaultSegmentSize ≤ record.fileSize.toNat ∧
          ∃ k, record.kForSegment segmentIndex = .ok k))) := by
  by_cases hzero : record.fileSize = 0
  · exact Or.inl ⟨hzero, by simp [kForSegment, segmentCount, hzero]⟩
  refine Or.inr ⟨hzero, ?_⟩
  rcases segmentCount_eq_ok hzero with ⟨count, hcount, hne, hstarts⟩
  unfold kForSegment
  rw [hcount, Outcome.ok_bind, if_neg hne]
  by_cases hnext : segmentIndex + 1 < 2 ^ 64
  · rw [usizeAdd_eq_ok hnext, Outcome.ok_bind]
    by_cases hfull : segmentIndex + 1 < count
    · rw [if_pos hfull]
      exact Or.inr (Or.inr ⟨(hstarts segmentIndex (by omega)).le, _, rfl⟩)
    · rw [if_neg hfull]
      by_cases hmul : segmentIndex * defaultSegmentSize < 2 ^ 64
      · rw [usizeMul_eq_ok hmul, Outcome.ok_bind]
        by_cases hstart : segmentIndex * defaultSegmentSize ≤ record.fileSize.toNat
        · rw [usizeSub_eq_ok hstart, Outcome.ok_bind,
            usizeDivCeil_eq_ok _ (show 0 < defaultPieceSize by decide)]
          exact Or.inr (Or.inr ⟨hstart, _, rfl⟩)
        · have hlt := Nat.lt_of_not_le hstart
          rw [usizeSub_eq_panic hlt]
          exact Or.inr (Or.inl ⟨hmul, hlt, rfl⟩)
      · rw [usizeMul_eq_panic hmul]
        exact Or.inl ⟨Nat.le_of_not_lt hmul, rfl⟩
  · rw [usizeAdd_eq_panic hnext]
    have hsize : defaultSegmentSize = 10485760 := rfl
    exact Or.inl ⟨by rw [hsize]; omega, rfl⟩

/-- The subtraction stays above zero, or is not reached. -/
theorem ContentVerificationRecord.kForSegment_ne_underflow (record : ContentVerificationRecord)
    (segmentIndex : ℕ) :
    record.kForSegment segmentIndex ≠ .panic .underflow ↔
      record.fileSize = 0 ∨ 2 ^ 64 ≤ segmentIndex * defaultSegmentSize ∨
        segmentIndex * defaultSegmentSize ≤ record.fileSize.toNat := by
  rcases record.kForSegment_cases segmentIndex with
    ⟨hzero, hrun⟩ | ⟨hzero, ⟨hbig, hrun⟩ | ⟨hmul, hlt, hrun⟩ | ⟨hstart, k, hrun⟩⟩
  · exact iff_of_true (by simp [hrun]) (Or.inl hzero)
  · exact iff_of_true (by simp [hrun]) (Or.inr (Or.inl hbig))
  · refine iff_of_false (by simp [hrun]) ?_
    rintro (h | h | h)
    · exact hzero h
    · exact absurd hmul (Nat.not_lt_of_le h)
    · exact absurd hlt (Nat.not_lt_of_le h)
  · exact iff_of_true (by simp [hrun]) (Or.inr (Or.inr hstart))

theorem ContentVerificationRecord.kForSegment_returns (record : ContentVerificationRecord)
    (segmentIndex : ℕ) :
    (∃ k, record.kForSegment segmentIndex = .ok k) ↔
      record.fileSize = 0 ∨ segmentIndex * defaultSegmentSize ≤ record.fileSize.toNat := by
  have hfit := record.fileSize.toNat_lt
  rcases record.kForSegment_cases segmentIndex with
    ⟨hzero, hrun⟩ | ⟨hzero, ⟨hbig, hrun⟩ | ⟨hmul, hlt, hrun⟩ | ⟨hstart, k, hrun⟩⟩
  · exact iff_of_true ⟨0, hrun⟩ (Or.inl hzero)
  · have hlt : ¬ segmentIndex * defaultSegmentSize ≤ record.fileSize.toNat := by omega
    simp [hrun, hzero, hlt]
  · simp [hrun, hzero, Nat.not_le_of_lt hlt]
  · exact iff_of_true ⟨k, hrun⟩ (Or.inr hstart)

/-! ## When no length is negative -/

/-- The subtractions stay above zero exactly when every segment that is looked up, and whose end
fits a word, starts within the content.  The whole call is answered exactly when every segment that
is looked up is answerable, and the count of a record when its segment starts within the file. -/
theorem lengths_nonnegative_iff (segments : UInt32 → Option (List CodedPiece))
    (totalSegments : UInt32) (config : ErasureConfig) (originalLen : ℕ)
    (record : ContentVerificationRecord) (segmentIndex : ℕ) :
    ((∀ i < totalSegments.toNat,
        decodeSegment segments config originalLen i ≠ .panic .underflow) ↔
      ∀ i < totalSegments.toNat, segments (UInt32.ofNat i) ≠ none →
        (i + 1) * config.segmentSize < 2 ^ 64 → i * config.segmentSize ≤ originalLen) ∧
    (decodeAndReassemble segments totalSegments config originalLen = .panic .underflow →
      ∃ i < totalSegments.toNat, segments (UInt32.ofNat i) ≠ none ∧
        (i + 1) * config.segmentSize < 2 ^ 64 ∧ originalLen < i * config.segmentSize) ∧
    (0 < config.pieceSize →
      ((∃ result, decodeAndReassemble segments totalSegments config originalLen = .ok result) ↔
        originalLen ≤ isizeMax ∧ ∀ i < totalSegments.toNat, ∀ pieces,
          segments (UInt32.ofNat i) = some pieces → Answerable config originalLen i pieces)) ∧
    (record.kForSegment segmentIndex ≠ .panic .underflow ↔
      record.fileSize = 0 ∨ 2 ^ 64 ≤ segmentIndex * defaultSegmentSize ∨
        segmentIndex * defaultSegmentSize ≤ record.fileSize.toNat) ∧
    ((∃ k, record.kForSegment segmentIndex = .ok k) ↔
      record.fileSize = 0 ∨ segmentIndex * defaultSegmentSize ≤ record.fileSize.toNat) := by
  have hseg := fun i (hi : i < totalSegments.toNat) =>
    decodeSegment_eq_underflow segments config originalLen (lt_trans hi totalSegments.toNat_lt)
  refine ⟨⟨?_, ?_⟩, ?_, fun hpiece => decodeAndReassemble_returns_iff hpiece,
    record.kForSegment_ne_underflow segmentIndex, record.kForSegment_returns segmentIndex⟩
  · intro h i hi hsome hend
    by_contra hlt
    exact h i hi ((hseg i hi).2 ⟨hsome, hend, Nat.lt_of_not_le hlt⟩)
  · intro h i hi hpanic
    rcases (hseg i hi).1 hpanic with ⟨hsome, hend, hlt⟩
    exact absurd (h i hi hsome hend) (Nat.not_le_of_lt hlt)
  · intro hpanic
    rcases decodeAndReassemble_eq_underflow hpanic with ⟨i, hi, hsegment⟩
    exact ⟨i, hi, (hseg i hi).1 hsegment⟩

/-- The pieces of content of one byte, and an empty list behind it. -/
def oneByteSegments (i : UInt32) : Option (List CodedPiece) :=
  if i = 0 then some [{ data := [7], coefficients := [1] }] else some []

/-- In two segments of two bytes the second is the one behind the content; in one segment the
content is answered. -/
theorem lengths_nonnegative_two_segments :
    (∃ i < (2 : UInt32).toNat, oneByteSegments (UInt32.ofNat i) ≠ none ∧
      (i + 1) * 2 < 2 ^ 64 ∧ 1 < i * 2) ∧
    1 ≤ isizeMax ∧ ∀ i < (1 : UInt32).toNat, ∀ pieces,
      oneByteSegments (UInt32.ofNat i) = some pieces →
        Answerable { pieceSize := 1, segmentSize := 2, initialParity := 0 } 1 i pieces :=
  ⟨(lengths_nonnegative_iff oneByteSegments 2
      { pieceSize := 1, segmentSize := 2, initialParity := 0 } 1
      { fileSize := 1, segmentHashes := [] } 0).2.1 (by decide +kernel),
    ((lengths_nonnegative_iff oneByteSegments 1
      { pieceSize := 1, segmentSize := 2, initialParity := 0 } 1
      { fileSize := 1, segmentHashes := [] } 0).2.2.1 (by decide)).1
        ⟨.ok [7], by decide +kernel⟩⟩

/-- Content of one byte, said to have two segments of two bytes each: the second starts at byte two
of one.  Further out, the products do not fit a word. -/
theorem segment_behind_content :
    decodeAndReassemble oneByteSegments 2
        { pieceSize := 1, segmentSize := 2, initialParity := 0 } 1 = .panic .underflow ∧
      ({ fileSize := 1, segmentHashes := [] } : ContentVerificationRecord).kForSegment 1 =
        .panic .underflow ∧
      decodeAndReassemble oneByteSegments 2
        { pieceSize := 1, segmentSize := 2 ^ 63, initialParity := 0 } 1 = .panic .overflow ∧
      ({ fileSize := 1, segmentHashes := [] } : ContentVerificationRecord).kForSegment (2 ^ 63) =
        .panic .overflow := by
  decide +kernel

/-! ## How much content comes back -/

section Reassembled

variable {segments : UInt32 → Option (List CodedPiece)} {totalSegments : UInt32}
  {config : ErasureConfig} {originalLen : ℕ}

/-- The elimination keeps the lengths of the data. -/
theorem eliminateLoop_perm :
    ∀ {cols : List ℕ} {rows rows' : List CodedPiece},
      eliminateLoop cols rows = .ok (.ok rows') →
        (rows'.map fun p => p.data.length).Perm (rows.map fun p => p.data.length)
  | [], rows, rows', h => by
      have heq : rows = rows' := by simpa [eliminateLoop] using h
      rw [heq]
  | col :: cols, rows, rows', h => by
      rcases Outcome.bind_eq_ok.1 h with ⟨result, hcol, h⟩
      cases result with
      | noPivot => cases h
      | zeroPivot rows => cases h
      | done next =>
          have hkept := eliminateColumn_perm (μ := fun p : CodedPiece => p.data.length)
            (by simp [decodeOps]) (by simp [decodeOps]) hcol
          exact (eliminateLoop_perm h).trans hkept

/-- Decoded pieces of full length fill the segment. -/
theorem length_decode {k pieceSize originalSize : ℕ} {pieces : List CodedPiece}
    {decoded : List GF256} (hdata : ∀ p ∈ pieces, p.data.length = pieceSize)
    (hrun : (RlncDecoder.new k pieceSize originalSize).decode pieces = .ok (.ok decoded)) :
    decoded.length = min originalSize (k * pieceSize) := by
  by_cases hcount : pieces.length < k
  · simp [RlncDecoder.decode, RlncDecoder.new, hcount] at hrun
  have hle := Nat.le_of_not_lt hcount
  rcases decode_cases hle pieceSize originalSize with
    ⟨-, ⟨-, hdep⟩ | ⟨-, rows, hrows, hdec⟩⟩ | ⟨-, hpanic⟩
  · simp [hdep] at hrun
  · have hsum : (rows.map fun p => p.data.length).sum = k * pieceSize := by
      rw [(eliminateLoop_perm hrows).sum_eq]
      have hconst : (pieces.take k).map (fun p => p.data.length) = List.replicate k pieceSize := by
        rw [List.eq_replicate_iff]
        refine ⟨by simpa using hle, ?_⟩
        intro n hn
        rcases List.mem_map.1 hn with ⟨p, hp, rfl⟩
        exact hdata p (List.mem_of_mem_take hp)
      rw [hconst, List.sum_replicate, smul_eq_mul]
    rw [hdec] at hrun
    split at hrun
    · have heq : ((rows.map CodedPiece.data).flatten).take originalSize = decoded := by
        simpa using hrun
      calc decoded.length
          = min originalSize (rows.map fun p => p.data.length).sum := by
            rw [← heq, List.length_take, List.length_flatten, List.map_map]
            rfl
        _ = min originalSize (k * pieceSize) := by rw [hsum]
    · split at hrun <;> cases hrun
  · simp [hpanic] at hrun

/-- The pieces of a segment are together at least as long as the segment. -/
theorem le_mul_of_kForSegment {len k : ℕ} (hk : config.kForSegment len = .ok k) :
    len ≤ k * config.pieceSize := by
  by_cases hzero : config.pieceSize = 0
  · simp [ErasureConfig.kForSegment, usizeDivCeil, hzero] at hk
  · have hpos := Nat.pos_iff_ne_zero.2 hzero
    have hmax : max (len ⌈/⌉ config.pieceSize) 1 = k := by
      simpa [ErasureConfig.kForSegment, usizeDivCeil_eq_ok _ hpos] using hk
    rw [Nat.mul_comm k, ← ceilDiv_le_iff_le_mul hpos, ← hmax]
    exact le_max_left _ _

/-- A decoded segment starts within the content, and has all bytes up to its end. -/
theorem length_decodeSegment
    (hdata : ∀ i pieces, segments i = some pieces →
      ∀ p ∈ pieces, p.data.length = config.pieceSize)
    {i : ℕ} (hi : i < 2 ^ 32) {part : UInt32 × List GF256}
    (hrun : decodeSegment segments config originalLen i = .ok (.ok part)) :
    i * config.segmentSize ≤ originalLen ∧
      part.2.length =
        min ((i + 1) * config.segmentSize) originalLen - i * config.segmentSize := by
  cases hget : segments (UInt32.ofNat i) with
  | none => simp [decodeSegment, hget] at hrun
  | some pieces =>
      rw [decodeSegment_of_some hget] at hrun
      rcases segmentLength_cases config originalLen hi with
        ⟨-, hlen⟩ | ⟨-, -, hlen⟩ | ⟨-, hstart, hlen⟩
      · simp [hlen] at hrun
      · simp [hlen] at hrun
      · refine ⟨hstart, ?_⟩
        rw [hlen, Outcome.ok_bind] at hrun
        rcases Outcome.bind_eq_ok.1 hrun with ⟨k, hk, hrun⟩
        rcases Outcome.bind_eq_ok.1 hrun with ⟨result, hdecode, hrun⟩
        cases result with
        | error err => simp at hrun
        | ok decoded =>
            have heq : (UInt32.ofNat i, decoded) = part := by simpa using hrun
            have hcover := le_mul_of_kForSegment hk
            rw [← heq, length_decode (hdata _ _ hget) hdecode, Nat.min_eq_left hcover]

/-- The lengths of the segments add up to the end of the last, cut off at the end of the content. -/
theorem sum_segmentLengths (config : ErasureConfig) (originalLen total : ℕ)
    (hstart : ∀ i < total, i * config.segmentSize ≤ originalLen) :
    ((List.range total).map fun i =>
      min ((i + 1) * config.segmentSize) originalLen - i * config.segmentSize).sum =
        min (total * config.segmentSize) originalLen := by
  induction total with
  | zero => simp
  | succ total ih =>
      have hlast := hstart total (Nat.lt_succ_self total)
      have hrest := ih fun i hi => hstart i (Nat.lt_succ_of_lt hi)
      calc ((List.range (total + 1)).map fun i =>
            min ((i + 1) * config.segmentSize) originalLen - i * config.segmentSize).sum
          = min (total * config.segmentSize) originalLen +
              (min ((total + 1) * config.segmentSize) originalLen -
                total * config.segmentSize) := by
            rw [List.range_succ, List.map_append, List.sum_append, hrest, List.map_singleton,
              List.sum_singleton]
        _ = min ((total + 1) * config.segmentSize) originalLen := by
            rw [Nat.succ_mul]
            omega

/-- What comes back is the content up to the end of the last segment; the last segment may be empty,
but does not start behind the content. -/
theorem length_reassembled
    (hdata : ∀ i pieces, segments i = some pieces →
      ∀ p ∈ pieces, p.data.length = config.pieceSize) {out : List GF256}
    (hrun : decodeAndReassemble segments totalSegments config originalLen = .ok (.ok out)) :
    out.length = min (totalSegments.toNat * config.segmentSize) originalLen ∧
      ∀ i < totalSegments.toNat, i * config.segmentSize ≤ originalLen := by
  rcases Outcome.bind_eq_ok.1 hrun with ⟨results, hresults, hrun⟩
  rcases Outcome.bind_eq_ok.1 hrun with ⟨-, -, hrun⟩
  cases hcollect : results.collectResults with
  | error err => simp [hcollect] at hrun
  | ok parts =>
      have hout : (parts.map Prod.snd).flatten.take originalLen = out := by
        simpa [hcollect] using hrun
      -- every segment was decoded, and has its length
      have hparts := Outcome.forall₂_of_mapM_eq_ok hresults
      rw [List.eq_map_of_collectResults hcollect, List.forall₂_map_right_iff] at hparts
      have hrange : ∀ i ∈ List.range totalSegments.toNat, i < 2 ^ 32 :=
        fun i hi => lt_trans (List.mem_range.1 hi) totalSegments.toNat_lt
      have hall := ((List.forall₂_and_left _ _).2 ⟨hrange, hparts⟩).imp
        fun i part h => length_decodeSegment hdata h.1 h.2
      rcases (List.forall₂_and_left _ _).1 hall with ⟨hstarts, hlengths⟩
      have hstarts' : ∀ i < totalSegments.toNat, i * config.segmentSize ≤ originalLen :=
        fun i hi => hstarts i (List.mem_range.2 hi)
      have hmap : ((List.range totalSegments.toNat).map fun i =>
          min ((i + 1) * config.segmentSize) originalLen - i * config.segmentSize) =
            parts.map fun part => part.2.length := by
        rw [← List.forall₂_eq_eq_eq, List.forall₂_map_left_iff, List.forall₂_map_right_iff]
        exact hlengths.imp fun i part h => h.symm
      have hsum : (parts.map fun part => part.2.length).sum =
          min (totalSegments.toNat * config.segmentSize) originalLen := by
        rw [← hmap, sum_segmentLengths config originalLen _ hstarts']
      refine ⟨?_, hstarts'⟩
      calc out.length
          = min originalLen (parts.map fun part => part.2.length).sum := by
            rw [← hout, List.length_take, List.length_flatten, List.map_map]
            rfl
        _ = min originalLen (min (totalSegments.toNat * config.segmentSize) originalLen) := by
            rw [hsum]
        -- the last truncation has nothing left to cut off
        _ = min (totalSegments.toNat * config.segmentSize) originalLen :=
            Nat.min_eq_right (Nat.min_le_right _ _)

/-- A number of chunks is the rounded-up quotient when they cover the length, and without the last
one they do not. -/
theorem eq_ceilDiv_iff {n len size : ℕ} (hsize : 0 < size) :
    n = len ⌈/⌉ size ↔ len ≤ n * size ∧ n * size < len + size := by
  have hcover : ∀ m, len ⌈/⌉ size ≤ m ↔ len ≤ m * size := by
    intro m
    rw [Nat.mul_comm]
    exact ceilDiv_le_iff_le_mul hsize
  constructor
  · rintro rfl
    refine ⟨(hcover _).1 le_rfl, ?_⟩
    by_contra hle
    -- one chunk less would do
    cases hcount : len ⌈/⌉ size with
    | zero => simp [hcount, hsize] at hle
    | succ m =>
        rw [hcount, Nat.succ_mul] at hle
        have hm := (hcover m).2 (by omega)
        omega
  · rintro ⟨hle, hlt⟩
    refine le_antisymm ?_ ((hcover n).2 hle)
    by_contra hgt
    have hm : len ⌈/⌉ size ≤ n - 1 := by omega
    have hprev := (hcover _).1 hm
    have hpos : 0 < n := by omega
    have hmul : n * size = (n - 1) * size + size := by
      rw [← Nat.succ_mul, Nat.succ_eq_add_one, Nat.sub_add_cancel hpos]
    omega

/-- What is returned is as long as the content exactly when the segments reach the end of the
content.  The number of segments then fits the length too, unless there is an empty segment behind
the last. -/
theorem reassembled_exact_iff (hsize : 0 < config.segmentSize)
    (hdata : ∀ i pieces, segments i = some pieces →
      ∀ p ∈ pieces, p.data.length = config.pieceSize) {out : List GF256}
    (hrun : decodeAndReassemble segments totalSegments config originalLen = .ok (.ok out)) :
    (out.length = originalLen ↔ originalLen ≤ totalSegments.toNat * config.segmentSize) ∧
      (out.length = originalLen ∧ totalSegments.toNat = originalLen ⌈/⌉ config.segmentSize ↔
        originalLen ≤ totalSegments.toNat * config.segmentSize ∧
          totalSegments.toNat * config.segmentSize ≠ originalLen + config.segmentSize) := by
  rcases length_reassembled hdata hrun with ⟨hlen, hstarts⟩
  have hreach : out.length = originalLen ↔
      originalLen ≤ totalSegments.toNat * config.segmentSize := by
    rw [hlen]
    exact min_eq_right_iff
  -- the last segment starts within the content
  have hlast : totalSegments.toNat * config.segmentSize ≤ originalLen + config.segmentSize := by
    cases htotal : totalSegments.toNat with
    | zero => simp
    | succ m =>
        have hstart := hstarts m (by omega)
        rw [Nat.succ_mul]
        omega
  refine ⟨hreach, ?_⟩
  rw [hreach, eq_ceilDiv_iff hsize]
  omega

end Reassembled

/-- Three bytes in two segments come back whole. -/
theorem reassembled_exact_three_bytes :
    ([⟨1⟩, ⟨2⟩, ⟨3⟩] : List GF256).length = 3 ∧ (2 : UInt32).toNat = 3 ⌈/⌉ 2 := by
  let config : ErasureConfig := { pieceSize := 1, segmentSize := 2, initialParity := 0 }
  let first : List CodedPiece :=
    [{ data := [⟨1⟩], coefficients := [1, 0] }, { data := [⟨2⟩], coefficients := [0, 1] }]
  let second : List CodedPiece := [{ data := [⟨3⟩], coefficients := [1] }]
  let segments : UInt32 → Option (List CodedPiece) :=
    fun i => if i = 0 then some first else some second
  have hdata : ∀ i pieces, segments i = some pieces →
      ∀ p ∈ pieces, p.data.length = config.pieceSize := by
    intro i pieces hget
    by_cases hi : i = 0
    · have heq : first = pieces := by simpa [segments, hi] using hget
      rw [← heq]
      decide
    · have heq : second = pieces := by simpa [segments, hi] using hget
      rw [← heq]
      decide
  have hrun : decodeAndReassemble segments 2 config 3 = .ok (.ok [⟨1⟩, ⟨2⟩, ⟨3⟩]) := by
    decide +kernel
  exact (reassembled_exact_iff (by decide) hdata hrun).2.2 (by decide)

/-- Five bytes of content without any segments, and two bytes in a segment and an empty one: both
are accepted, the first with nothing in it. -/
theorem mismatch_accepted :
    let config : ErasureConfig := { pieceSize := 1, segmentSize := 2, initialParity := 0 }
    decodeAndReassemble (fun _ => none) 0 config 5 = .ok (.ok []) ∧
      decodeAndReassemble
        (fun i => if i = 0 then some [{ data := [⟨1⟩], coefficients := [1, 0] },
            { data := [⟨2⟩], coefficients := [0, 1] }]
          else some [{ data := [⟨9⟩], coefficients := [1] }]) 2 config 2 =
          .ok (.ok [⟨1⟩, ⟨2⟩]) := by
  decide +kernel

end Erasure
end CraftecCore
