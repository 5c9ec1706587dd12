import CraftecCore.Erasure.Acceptance

/-!
# Kernel — exactly which pieces are accepted

Verification compares dot products with one endless stream of projection bytes for each projection.
It accepts a piece exactly when the error of its data, as a sequence that is zero from some point
on, is orthogonal to all sixteen streams.
-/

namespace CraftecCore
namespace Erasure

open RowVector

section Kernel

variable (blake3 : List UInt8 → Bytes 32)

/-! ## The projection stream -/

def projectionByte (seed : Bytes 32) (projectionIndex : UInt8) (n : ℕ) : GF256 :=
  (projectionBlock blake3 seed projectionIndex (n / 32)).getD (n % 32) 0

theorem projectionBlock_eq_map (seed : Bytes 32) (projectionIndex : UInt8) (chunk : ℕ) :
    projectionBlock blake3 seed projectionIndex chunk =
      (List.range 32).map fun t => projectionByte blake3 seed projectionIndex (32 * chunk + t) := by
  apply List.ext_getElem
  · simp
  · intro t ht ht'
    have hlt : t < 32 := by simpa using ht
    -- position `t` of this chunk is position `32 * chunk + t` of the stream
    have hchunk : (32 * chunk + t) / 32 = chunk := by omega
    have hpos : (32 * chunk + t) % 32 = t := by omega
    simp only [List.getElem_map, List.getElem_range, projectionByte, hchunk, hpos]
    rw [List.getD_eq_getElem?_getD, List.getElem?_eq_getElem ht, Option.getD_some]

theorem projectionStream_eq_map (seed : Bytes 32) (projectionIndex : UInt8) :
    ∀ numChunks : ℕ, projectionStream blake3 seed projectionIndex numChunks =
      (List.range (32 * numChunks)).map (projectionByte blake3 seed projectionIndex)
  | 0 => rfl
  | numChunks + 1 => by
      calc projectionStream blake3 seed projectionIndex (numChunks + 1)
          = projectionStream blake3 seed projectionIndex numChunks ++
              projectionBlock blake3 seed projectionIndex numChunks := by
            simp [projectionStream, List.range_succ]
        _ = (List.range (32 * (numChunks + 1))).map
              (projectionByte blake3 seed projectionIndex) := by
            rw [projectionStream_eq_map seed projectionIndex numChunks, projectionBlock_eq_map,
              Nat.mul_succ, List.range_add, List.map_append, List.map_map]
            rfl

/-- A projection vector is the start of the stream, whatever its length. -/
theorem generateProjection_eq_map (seed : Bytes 32) (projectionIndex : UInt8) (pieceSize : ℕ) :
    generateProjection blake3 seed projectionIndex pieceSize =
      .ok ((List.range pieceSize).map (projectionByte blake3 seed projectionIndex)) := by
  have hle : pieceSize ≤ 32 * pieceSize := Nat.le_mul_of_pos_left pieceSize (by decide)
  rw [generateProjection_eq blake3 seed projectionIndex hle, projectionStream_eq_map,
    ← List.map_take, List.take_range, Nat.min_eq_left hle]

/-! ## Dot products with the stream -/

/-- The dot product of zero-extended data with the first `m` bytes of a stream. -/
def streamDot (seed : Bytes 32) (projectionIndex : UInt8) (m : ℕ) (data : ℕ → GF256) : GF256 :=
  ∑ n ∈ Finset.range m, projectionByte blake3 seed projectionIndex n * data n

/-- The vectors that hashing and verifying compute for one length. -/
theorem projections_map (seed : Bytes 32) (pieceSize : ℕ) :
    Projections blake3 seed pieceSize fun i : Fin hashProjections =>
      (List.range pieceSize).map (projectionByte blake3 seed (UInt8.ofNat i)) :=
  { run := fun _ => generateProjection_eq_map blake3 seed _ pieceSize
    length := by simp }

/-- Any common length that covers the data gives the same dot product. -/
theorem dotProduct_eq_streamDot (seed : Bytes 32) (projectionIndex : UInt8) {data : List GF256}
    {n m : ℕ} (hlen : data.length = n) (hle : n ≤ m) :
    dotProduct (toVec n data) (toVec n
        ((List.range n).map (projectionByte blake3 seed projectionIndex))) =
      streamDot blake3 seed projectionIndex m fun t => data.getD t 0 := by
  have hentry : ∀ t : Fin n, toVec n data t * toVec n
      ((List.range n).map (projectionByte blake3 seed projectionIndex)) t =
        projectionByte blake3 seed projectionIndex t.val * data.getD t.val 0 := by
    intro t
    simp [toVec_apply, mul_comm]
  calc dotProduct (toVec n data) (toVec n
        ((List.range n).map (projectionByte blake3 seed projectionIndex)))
      = ∑ t ∈ Finset.range n, projectionByte blake3 seed projectionIndex t * data.getD t 0 := by
        rw [dotProduct, Finset.sum_congr rfl fun t _ => hentry t]
        exact Fin.sum_univ_eq_sum_range
          (fun t => projectionByte blake3 seed projectionIndex t * data.getD t 0) n
    _ = streamDot blake3 seed projectionIndex m fun t => data.getD t 0 := by
        refine Finset.sum_subset (Finset.range_subset_range.2 hle) ?_
        -- past the end of the data there are only zeros
        intro t _ ht
        have hout : data.length ≤ t := by simpa [hlen] using ht
        simp [hout]

theorem streamDot_sub (seed : Bytes 32) (projectionIndex : UInt8) (m : ℕ) (a b : ℕ → GF256) :
    streamDot blake3 seed projectionIndex m (fun n => a n - b n) =
      streamDot blake3 seed projectionIndex m a - streamDot blake3 seed projectionIndex m b := by
  simp [streamDot, mul_sub, Finset.sum_sub_distrib]

/-- The dot product of a combination is the combination of the dot products. -/
theorem streamDot_combination (seed : Bytes 32) (projectionIndex : UInt8) (m : ℕ) {k : ℕ}
    (c : Fin k → GF256) (a : Fin k → ℕ → GF256) :
    streamDot blake3 seed projectionIndex m (fun n => ∑ t, c t * a t n) =
      ∑ t, c t * streamDot blake3 seed projectionIndex m (a t) := by
  simp only [streamDot, Finset.mul_sum]
  rw [Finset.sum_comm]
  refine Finset.sum_congr rfl fun t _ => Finset.sum_congr rfl fun n _ => ?_
  exact mul_left_comm _ _ _

/-! ## Verification -/

/-- The loop returns whether all the projections match. -/
theorem verifyLoop_eq_ok (piece : CodedPiece) (hashes : SegmentHashes)
    {proj : Fin hashProjections → List GF256}
    (hproj : Projections blake3 hashes.seed piece.data.length proj) :
    ∀ indices : List (Fin hashProjections), ∃ b, verifyLoop blake3 piece hashes indices = .ok b ∧
      (b = true ↔ ∀ i ∈ indices, dotProduct (toVec piece.data.length piece.data)
          (toVec piece.data.length (proj i)) =
        expectedHash piece.coefficients hashes.pieceHashes i)
  | [] => ⟨true, rfl, by simp⟩
  | i :: rest => by
      have hdot := gf256Dot_eq_ok (a := piece.data) rfl (hproj.length i)
      by_cases hmatch : dotProduct (toVec piece.data.length piece.data)
          (toVec piece.data.length (proj i)) =
        expectedHash piece.coefficients hashes.pieceHashes i
      · rcases verifyLoop_eq_ok piece hashes hproj rest with ⟨b, hrun, hb⟩
        refine ⟨b, ?_, by simpa [hmatch] using hb⟩
        simp [verifyLoop, hproj.run i, hdot, hmatch, hrun]
      · refine ⟨false, ?_, by simp [hmatch]⟩
        simp [verifyLoop, hproj.run i, hdot, hmatch]

/-- Byte `n` of the error of a piece: its data minus the combination of the source pieces that its
coefficients name, all extended by zeros. -/
def errorByte (pieces : List CodedPiece) (piece : CodedPiece) (n : ℕ) : GF256 :=
  piece.data.getD n 0 -
    ∑ t : Fin pieces.length, piece.coefficients.getD t 0 * (pieces.get t).data.getD n 0

/-- One projection matches exactly when the error is orthogonal to its stream. -/
theorem projection_matches_iff {seed : Bytes 32} {pieceSize m : ℕ} {pieces : List CodedPiece}
    (hsize : ∀ p ∈ pieces, p.data.length = pieceSize) {piece : CodedPiece}
    (hcoeffs : piece.coefficients.length = pieces.length) (hsource : pieceSize ≤ m)
    (hdata : piece.data.length ≤ m) (i : Fin hashProjections) :
    dotProduct (toVec piece.data.length piece.data) (toVec piece.data.length
        ((List.range piece.data.length).map (projectionByte blake3 seed (UInt8.ofNat i)))) =
      expectedHash piece.coefficients (pieces.map fun p i =>
        dotProduct (toVec pieceSize p.data) (toVec pieceSize
          ((List.range pieceSize).map (projectionByte blake3 seed (UInt8.ofNat i))))) i ↔
    streamDot blake3 seed (UInt8.ofNat i) m (errorByte pieces piece) = 0 := by
  have hhash : ∀ p ∈ pieces, dotProduct (toVec pieceSize p.data) (toVec pieceSize
      ((List.range pieceSize).map (projectionByte blake3 seed (UInt8.ofNat i)))) =
        streamDot blake3 seed (UInt8.ofNat i) m fun n => p.data.getD n 0 :=
    fun p hp => dotProduct_eq_streamDot blake3 seed _ (hsize p hp) hsource
  have hexpected : expectedHash piece.coefficients (pieces.map fun p i =>
      dotProduct (toVec pieceSize p.data) (toVec pieceSize
        ((List.range pieceSize).map (projectionByte blake3 seed (UInt8.ofNat i))))) i =
      ∑ t : Fin pieces.length, piece.coefficients.getD t 0 *
        streamDot blake3 seed (UInt8.ofNat i) m fun n => (pieces.get t).data.getD n 0 := by
    rw [expectedHash_eq _ (by simpa using hcoeffs)]
    refine Fintype.sum_equiv (finCongr (by simp)) _ _ ?_
    intro t
    have ht := hhash _ (List.get_mem pieces (t.cast (by simp)))
    simpa [toVec_apply] using Or.inl ht
  rw [dotProduct_eq_streamDot blake3 seed _ rfl hdata, hexpected]
  unfold errorByte
  rw [streamDot_sub, streamDot_combination, sub_eq_zero]

/-- For every seed and source pieces of one length, hashing succeeds; then for every piece
verification returns, and it accepts exactly the pieces with a coefficient for each source whose
error, at any length that covers the data and the sources, has dot product zero with each of the
projection streams. -/
theorem verifyPiece_kernel (seed : Bytes 32) {pieceSize : ℕ} {pieces : List CodedPiece}
    (hne : pieces ≠ []) (hsize : ∀ p ∈ pieces, p.data.length = pieceSize) :
    ∃ hashes, generateSegmentHashes blake3 seed pieces = .ok hashes ∧
      ∀ piece : CodedPiece, ∃ b, verifyPiece blake3 piece hashes = .ok b ∧
        ∀ m, pieceSize ≤ m → piece.data.length ≤ m →
          (b = true ↔ piece.coefficients.length = pieces.length ∧
            ∀ i : Fin hashProjections,
              ∑ n ∈ Finset.range m, projectionByte blake3 seed (UInt8.ofNat i) n *
                errorByte pieces piece n = 0) := by
  refine ⟨_, generateSegmentHashes_eq_ok (projections_map blake3 seed pieceSize) hne hsize, ?_⟩
  intro piece
  have hk : pieces.length ≠ 0 := by simpa using hne
  by_cases hcoeffs : piece.coefficients.length = pieces.length
  · rcases verifyLoop_eq_ok blake3 piece
      { seed := seed
        pieceHashes := pieces.map fun p i =>
          dotProduct (toVec pieceSize p.data) (toVec pieceSize
            ((List.range pieceSize).map (projectionByte blake3 seed (UInt8.ofNat i)))) }
      (projections_map blake3 seed piece.data.length) (List.finRange hashProjections) with
      ⟨b, hrun, hb⟩
    refine ⟨b, by simpa [verifyPiece, hcoeffs, hk] using hrun, ?_⟩
    intro m hsource hdata
    rw [hb]
    simp only [hcoeffs, true_and, List.mem_finRange, true_implies]
    exact forall_congr' fun i => projection_matches_iff blake3 hsize hcoeffs hsource hdata i
  · refine ⟨false, by simp [verifyPiece, hcoeffs], ?_⟩
    simp [hcoeffs]

end Kernel

/-- Pieces of unequal lengths, both compared at length two. -/
theorem verifyPiece_kernel_two_pieces :
    ∃ hashes, generateSegmentHashes sampleDigest (Bytes.zero 32) twoPieces = .ok hashes ∧
      ∀ piece ∈ paddedPieces, ∃ b, verifyPiece sampleDigest piece hashes = .ok b ∧
        (b = true ↔ piece.coefficients.length = 2 ∧ ∀ i : Fin hashProjections,
          ∑ n ∈ Finset.range 2, projectionByte sampleDigest (Bytes.zero 32) (UInt8.ofNat i) n *
            errorByte twoPieces piece n = 0) := by
  have hsize : ∀ p ∈ twoPieces, p.data.length = 1 := by decide
  rcases verifyPiece_kernel sampleDigest (Bytes.zero 32) (show twoPieces ≠ [] by decide) hsize with
    ⟨hashes, hrun, hkernel⟩
  refine ⟨hashes, hrun, ?_⟩
  intro piece hpiece
  rcases hkernel piece with ⟨b, hb, hiff⟩
  have hdata : ∀ p ∈ paddedPieces, p.data.length ≤ 2 := by decide
  exact ⟨b, hb, hiff 2 (by decide) (hdata piece hpiece)⟩

end Erasure
end CraftecCore
