import CraftecCore.Erasure.Decoder
import CraftecCore.Erasure.Homomorphic

/-!
# Acceptance — what an accepted piece says about its length

The hashes of a segment do not record the length of its pieces, and the projection vectors are made
as long as the piece that is verified.  Projections of different lengths are prefixes of one stream,
so zero bytes at the end of a piece are invisible, and pieces of every length are accepted.
-/

namespace CraftecCore
namespace Erasure

open RowVector

section Padding

variable (blake3 : List UInt8 → Bytes 32)

def CodedPiece.appendZeros (piece : CodedPiece) (zeros : ℕ) : CodedPiece :=
  { piece with data := piece.data ++ List.replicate zeros 0 }

/-! ## Trailing zeros are invisible -/

theorem foldl_dot_zeros (result : GF256) : ∀ (zeros : ℕ) (p : List GF256),
    ((List.replicate zeros 0).zip p).foldl
      (fun result ab => GF256.add result (GF256.mul ab.1 ab.2)) result = result
  | 0, p => by simp
  | zeros + 1, [] => by simp
  | zeros + 1, x :: p => by
      have hstep : GF256.add result (GF256.mul 0 x) = result := by
        simp [GF256.add_eq, GF256.mul_eq]
      simp only [List.replicate_succ, List.zip_cons_cons, List.foldl_cons, hstep,
        foldl_dot_zeros result zeros p]

/-- The dot product of padded data reads only the start of the longer vector. -/
theorem gf256Dot_append_zeros {data p : List GF256} {zeros : ℕ}
    (hp : p.length = data.length + zeros) :
    gf256Dot (data ++ List.replicate zeros 0) p = gf256Dot data (p.take data.length) := by
  have htake : (p.take data.length).length = data.length := by simp [hp]
  have hzip : (data ++ List.replicate zeros 0).zip p =
      data.zip (p.take data.length) ++ (List.replicate zeros 0).zip (p.drop data.length) := by
    conv_lhs => rw [← List.take_append_drop data.length p]
    exact List.zip_append htake.symm
  simp [gf256Dot, hp, hzip, List.foldl_append, foldl_dot_zeros]

/-- Hashing a longer piece reads a longer start of the same stream. -/
theorem dot_appendZeros (seed : Bytes 32) (projectionIndex : UInt8) (piece : CodedPiece)
    (zeros : ℕ) :
    (do
      let projection ←
        generateProjection blake3 seed projectionIndex (piece.appendZeros zeros).data.length
      gf256Dot (piece.appendZeros zeros).data projection) =
    (do
      let projection ← generateProjection blake3 seed projectionIndex piece.data.length
      gf256Dot piece.data projection) := by
  let numChunks := piece.data.length + zeros
  have hlong : (piece.appendZeros zeros).data.length = piece.data.length + zeros := by
    simp [CodedPiece.appendZeros]
  have hcover : piece.data.length + zeros ≤ 32 * numChunks :=
    Nat.le_mul_of_pos_left _ (by decide)
  have hshort : piece.data.length ≤ 32 * numChunks := by omega
  rw [hlong, generateProjection_eq blake3 seed projectionIndex hcover,
    generateProjection_eq blake3 seed projectionIndex hshort, Outcome.ok_bind, Outcome.ok_bind,
    CodedPiece.appendZeros, gf256Dot_append_zeros (by simp [hcover]), List.take_take,
    Nat.min_eq_left (Nat.le_add_right _ _)]

theorem verifyLoop_appendZeros (piece : CodedPiece) (zeros : ℕ) (hashes : SegmentHashes) :
    ∀ indices : List (Fin hashProjections),
      verifyLoop blake3 (piece.appendZeros zeros) hashes indices =
        verifyLoop blake3 piece hashes indices
  | [] => rfl
  | i :: rest => by
      have hdot := dot_appendZeros blake3 hashes.seed (UInt8.ofNat i.val) piece zeros
      have htail := verifyLoop_appendZeros piece zeros hashes rest
      simp only [verifyLoop, ← bind_assoc, hdot, htail]
      rfl

/-- Zero bytes at the end of a piece do not change the verdict. -/
theorem verifyPiece_appendZeros {hashes : SegmentHashes} (hne : hashes.pieceHashes ≠ [])
    (piece : CodedPiece) (zeros : ℕ) :
    verifyPiece blake3 (piece.appendZeros zeros) hashes = verifyPiece blake3 piece hashes := by
  have hk : hashes.pieceHashes.length ≠ 0 := by simpa using hne
  have hcoeffs : (piece.appendZeros zeros).coefficients = piece.coefficients := rfl
  simp only [verifyPiece, hcoeffs, hk, if_false, verifyLoop_appendZeros]

/-! ## Accepted lengths -/

/-- Every piece that is accepted has data of the given length. -/
def AcceptsOnly (hashes : SegmentHashes) (pieceSize : ℕ) : Prop :=
  ∀ piece, verifyPiece blake3 piece hashes = .ok true → piece.data.length = pieceSize

/-- The empty piece with zero coefficients is accepted. -/
theorem verifyPiece_empty {seed : Bytes 32} {pieceSize : ℕ}
    {proj : Fin hashProjections → List GF256} (hproj : Projections blake3 seed pieceSize proj)
    {sources : List (List GF256)} (hne : sources ≠ []) :
    verifyPiece blake3 (CodedPiece.zero 0 sources.length)
      { seed := seed
        pieceHashes := sources.map fun s i =>
          dotProduct (toVec pieceSize s) (toVec pieceSize (proj i)) } = .ok true := by
  -- padded to the length of the sources it is the zero combination of them
  have hzero : (CodedPiece.zero pieceSize sources.length).OfSegment sources pieceSize :=
    { coefficients_length := by simp [CodedPiece.zero]
      data_length := by simp [CodedPiece.zero]
      data_eq := by simp [CodedPiece.zero] }
  have hpad : CodedPiece.zero pieceSize sources.length =
      (CodedPiece.zero 0 sources.length).appendZeros pieceSize := by
    simp [CodedPiece.zero, CodedPiece.appendZeros]
  have haccept := verifyPiece_eq_true hne hproj hzero
  rw [hpad, verifyPiece_appendZeros blake3 (by simpa using hne)] at haccept
  exact haccept

/-- When a piece without data is accepted, so are pieces of every length. -/
theorem exists_accepted_length {hashes : SegmentHashes} {piece : CodedPiece}
    (haccept : verifyPiece blake3 piece hashes = .ok true) (hdata : piece.data = [])
    (hne : hashes.pieceHashes ≠ []) (length : ℕ) :
    ∃ piece, verifyPiece blake3 piece hashes = .ok true ∧ piece.data.length = length := by
  refine ⟨piece.appendZeros length, ?_, ?_⟩
  · rw [verifyPiece_appendZeros blake3 hne, haccept]
  · simp [CodedPiece.appendZeros, hdata]

/-- For no hash function, seed and source pieces does acceptance fix the length of a piece: pieces
of every length are accepted, and any piece is accepted as it is with zero bytes appended. -/
theorem not_acceptsOnly (seed : Bytes 32) {pieceSize : ℕ} {pieces : List CodedPiece}
    (hne : pieces ≠ []) (hsize : ∀ p ∈ pieces, p.data.length = pieceSize) :
    ∃ hashes, generateSegmentHashes blake3 seed pieces = .ok hashes ∧
      ¬ AcceptsOnly blake3 hashes pieceSize ∧
      (∀ length, ∃ piece, verifyPiece blake3 piece hashes = .ok true ∧
        piece.data.length = length) ∧
      ∀ piece zeros, verifyPiece blake3 (piece.appendZeros zeros) hashes =
        verifyPiece blake3 piece hashes := by
  rcases exists_projections blake3 seed pieceSize with ⟨proj, hproj⟩
  have hsources : pieces.map CodedPiece.data ≠ [] := by simpa using hne
  have hempty := verifyPiece_empty blake3 hproj hsources
  rw [List.map_map] at hempty
  have hhash : (pieces.map fun p i =>
      dotProduct (toVec pieceSize p.data) (toVec pieceSize (proj i))) ≠ [] := by
    simpa using hne
  have hall := exists_accepted_length blake3 hempty (by simp [CodedPiece.zero]) hhash
  refine ⟨_, generateSegmentHashes_eq_ok hproj hne hsize, ?_, hall, ?_⟩
  · -- a piece that is one byte longer is accepted too
    intro honly
    rcases hall (pieceSize + 1) with ⟨piece, haccept, hlength⟩
    have := honly piece haccept
    omega
  · exact verifyPiece_appendZeros blake3 hhash

end Padding

/-- A hash function whose digests repeat one byte that depends on the projection. -/
def sampleDigest (message : List UInt8) : Bytes 32 :=
  { bytes := List.replicate 32 (message.getD 32 0 + 1)
    length_eq := List.length_replicate }

def twoPieces : List CodedPiece :=
  [{ data := [⟨1⟩], coefficients := [⟨1⟩, ⟨0⟩] }, { data := [⟨2⟩], coefficients := [⟨0⟩, ⟨1⟩] }]

def paddedPieces : List CodedPiece :=
  [{ data := [⟨1⟩, ⟨0⟩], coefficients := [⟨1⟩, ⟨0⟩] },
    { data := [⟨2⟩], coefficients := [⟨0⟩, ⟨1⟩] }]

theorem not_acceptsOnly_two_pieces :
    twoPieces ≠ [] ∧ (∀ p ∈ twoPieces, p.data.length = 1) ∧
      ∃ hashes, generateSegmentHashes sampleDigest (Bytes.zero 32) twoPieces = .ok hashes ∧
        ¬ AcceptsOnly sampleDigest hashes 1 := by
  rcases not_acceptsOnly sampleDigest (Bytes.zero 32) (show twoPieces ≠ [] by decide)
    (show ∀ p ∈ twoPieces, p.data.length = 1 by decide) with ⟨hashes, hrun, honly, -⟩
  exact ⟨by decide, by decide, hashes, hrun, honly⟩

/-- Both pieces are accepted although one of them is too long, and the segment decoded from them is
shifted. -/
theorem padded_piece_shifts_segment :
    (∃ hashes, generateSegmentHashes sampleDigest (Bytes.zero 32) twoPieces = .ok hashes ∧
      paddedPieces.mapM (fun p => verifyPiece sampleDigest p hashes) = .ok [true, true] ∧
      ¬ AcceptsOnly sampleDigest hashes 1) ∧
      (RlncDecoder.new 2 1 2).decode twoPieces = .ok (.ok [⟨1⟩, ⟨2⟩]) ∧
      (RlncDecoder.new 2 1 2).decode paddedPieces = .ok (.ok [⟨1⟩, ⟨0⟩]) := by
  refine ⟨?_, by decide +kernel, by decide +kernel⟩
  have hrun : (generateSegmentHashes sampleDigest (Bytes.zero 32) twoPieces >>= fun hashes =>
      paddedPieces.mapM fun p => verifyPiece sampleDigest p hashes) = .ok [true, true] := by
    decide +kernel
  rcases Outcome.bind_eq_ok.1 hrun with ⟨hashes, hhash, hverify⟩
  refine ⟨hashes, hhash, hverify, ?_⟩
  intro honly
  -- the first piece of the list is accepted and has two bytes
  have hall := Outcome.forall₂_of_mapM_eq_ok hverify
  cases hall with
  | cons hfirst _ => exact absurd (honly _ hfirst) (by decide)

end Erasure
end CraftecCore
