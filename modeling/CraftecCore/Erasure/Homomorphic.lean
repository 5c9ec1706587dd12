import CraftecCore.Erasure.Independence
import CraftecCore.Library.Bytes
import Mathlib.Data.Matrix.Mul

/-!
# Homomorphic — projection hashes of pieces

A segment's hash is, for each source piece, its dot products with sixteen pseudo-random projection
vectors.  A coded piece is verified by comparing the dot products of its data with the combination
of the hashes.  BLAKE3 is an arbitrary function from messages to 32 bytes.
-/

namespace CraftecCore
namespace Erasure

open RowVector RowReduction

def hashProjections : ℕ := 16

/-- Homomorphic hash parameters for a segment: the seed, and one 16-byte hash a source piece. -/
structure SegmentHashes where
  seed : Bytes 32
  pieceHashes : List (Fin hashProjections → GF256)

section Projection

variable (blake3 : List UInt8 → Bytes 32)

/-! ## The source functions -/

def projectionLoop (seed : Bytes 32) (projectionIndex : UInt8) (pieceSize : ℕ) :
    List ℕ → List GF256 → Outcome (List GF256)
  | [], projection => pure projection
  | chunkIndex :: rest, projection => do
      let input := seed.bytes ++ [projectionIndex] ++ (UInt32.ofNat chunkIndex).leBytes
      let hashBytes := (blake3 input).bytes.map GF256.mk
      let remaining ← usizeSub pieceSize projection.length
      let bytes ← hashBytes.slice 0 (min remaining 32)
      let projection := projection ++ bytes
      if pieceSize ≤ projection.length then
        pure projection
      else
        projectionLoop seed projectionIndex pieceSize rest projection

def generateProjection (seed : Bytes 32) (projectionIndex : UInt8) (pieceSize : ℕ) :
    Outcome (List GF256) := do
  let numChunks ← usizeDivCeil pieceSize 32
  let projection ← projectionLoop blake3 seed projectionIndex pieceSize (List.range numChunks) []
  pure (projection.take pieceSize)

/-- Dot product of two byte slices, which must have equal lengths. -/
def gf256Dot (a b : List GF256) : Outcome GF256 :=
  if a.length = b.length then
    .ok ((a.zip b).foldl (fun result ab => GF256.add result (GF256.mul ab.1 ab.2)) 0)
  else
    .panic .assertion

def hashPiece (seed : Bytes 32) (pieceSize : ℕ) (piece : CodedPiece) :
    Outcome (List GF256) :=
  (List.finRange hashProjections).mapM fun projectionIndex : Fin hashProjections => do
    let projection ← generateProjection blake3 seed (UInt8.ofNat projectionIndex.val) pieceSize
    gf256Dot piece.data projection

def generateSegmentHashes (seed : Bytes 32) (originalPieces : List CodedPiece) :
    Outcome SegmentHashes :=
  match originalPieces with
  | [] => pure { seed := seed, pieceHashes := [] }
  | first :: _ => do
      let pieceSize := first.data.length
      let pieceHashes ← originalPieces.mapM (hashPiece blake3 seed pieceSize)
      pure
        { seed := seed
          pieceHashes := pieceHashes.map fun hash i => hash.getD i 0 }

/-- The expected dot product: the combination of the piece hashes. -/
def expectedHash (coefficients : List GF256) (pieceHashes : List (Fin hashProjections → GF256))
    (projectionIndex : Fin hashProjections) : GF256 :=
  coefficients.zipIdx.foldl
    (fun expected ci =>
      if h : ci.1 ≠ 0 ∧ ci.2 < pieceHashes.length then
        GF256.add expected (GF256.mul ci.1 (pieceHashes[ci.2] projectionIndex))
      else
        expected)
    0

/-- The loop over the projections, which stops at the first mismatch. -/
def verifyLoop (piece : CodedPiece) (hashes : SegmentHashes) :
    List (Fin hashProjections) → Outcome Bool
  | [] => pure true
  | projectionIndex :: rest => do
      let projection ←
        generateProjection blake3 hashes.seed (UInt8.ofNat projectionIndex.val) piece.data.length
      let actual ← gf256Dot piece.data projection
      if actual ≠ expectedHash piece.coefficients hashes.pieceHashes projectionIndex then
        pure false
      else
        verifyLoop piece hashes rest

def verifyPiece (piece : CodedPiece) (hashes : SegmentHashes) : Outcome Bool :=
  let k := hashes.pieceHashes.length
  if piece.coefficients.length ≠ k then
    pure false
  else if k = 0 then
    pure (piece.data.isEmpty && piece.coefficients.isEmpty)
  else
    verifyLoop blake3 piece hashes (List.finRange hashProjections)

/-! ## Projection vectors are prefixes of one stream -/

def projectionBlock (seed : Bytes 32) (projectionIndex : UInt8) (chunkIndex : ℕ) : List GF256 :=
  (blake3 (seed.bytes ++ [projectionIndex] ++ (UInt32.ofNat chunkIndex).leBytes)).bytes.map
    GF256.mk

@[simp] theorem length_projectionBlock (seed : Bytes 32) (projectionIndex : UInt8)
    (chunkIndex : ℕ) : (projectionBlock blake3 seed projectionIndex chunkIndex).length = 32 := by
  simp [projectionBlock]

/-- The bytes that the first chunks of a seed yield. -/
def projectionStream (seed : Bytes 32) (projectionIndex : UInt8) (numChunks : ℕ) : List GF256 :=
  (List.range numChunks).flatMap (projectionBlock blake3 seed projectionIndex)

@[simp] theorem length_projectionStream (seed : Bytes 32) (projectionIndex : UInt8)
    (numChunks : ℕ) :
    (projectionStream blake3 seed projectionIndex numChunks).length = 32 * numChunks := by
  simp [projectionStream, List.length_flatMap, Nat.mul_comm]

/-- More chunks only add to the end of the stream. -/
theorem projectionStream_take (seed : Bytes 32) (projectionIndex : UInt8) {n numChunks more : ℕ}
    (h : n ≤ 32 * numChunks) :
    (projectionStream blake3 seed projectionIndex (numChunks + more)).take n =
      (projectionStream blake3 seed projectionIndex numChunks).take n := by
  have hle : n ≤ (projectionStream blake3 seed projectionIndex numChunks).length := by simpa using h
  rw [projectionStream, List.range_add, List.flatMap_append]
  exact List.take_append_of_le_length hle

/-- Given enough chunks, the loop stops with the first `pieceSize` bytes of all of them. -/
theorem projectionLoop_eq (seed : Bytes 32) (projectionIndex : UInt8) {pieceSize : ℕ} :
    ∀ (chunks : List ℕ) (projection : List GF256), projection.length < pieceSize →
      pieceSize ≤ projection.length + 32 * chunks.length →
      projectionLoop blake3 seed projectionIndex pieceSize chunks projection =
        .ok ((projection ++
          chunks.flatMap (projectionBlock blake3 seed projectionIndex)).take pieceSize)
  | [], projection, hlt, hle => by
      simp only [List.length_nil, Nat.mul_zero, Nat.add_zero] at hle
      omega
  | chunkIndex :: rest, projection, hlt, hle => by
      let block := projectionBlock blake3 seed projectionIndex chunkIndex
      let taken := block.take (min (pieceSize - projection.length) 32)
      have hblock : block.length = 32 := length_projectionBlock blake3 seed projectionIndex _
      have hslice : block.slice 0 (min (pieceSize - projection.length) 32) = .ok taken := by
        have := List.slice_eq_ok block (Nat.zero_le (min (pieceSize - projection.length) 32))
          (by omega)
        simpa using this
      have htaken : taken.length = min (pieceSize - projection.length) 32 := by
        simp [taken, hblock]
      have hrun : projectionLoop blake3 seed projectionIndex pieceSize (chunkIndex :: rest)
          projection =
          if pieceSize ≤ (projection ++ taken).length then
            .ok (projection ++ taken)
          else
            projectionLoop blake3 seed projectionIndex pieceSize rest (projection ++ taken) := by
        simp only [projectionLoop, usizeSub_eq_ok (Nat.le_of_lt hlt), Outcome.ok_bind]
        rw [show List.slice (List.map GF256.mk _) 0 _ = _ from hslice]
        rfl
      rw [hrun]
      simp only [List.length_cons] at hle
      simp only [List.length_append, htaken]
      -- the loop stops within this chunk, or has taken all of it and goes on
      split
      · rename_i hdone
        have hall : taken =
            (block ++ rest.flatMap (projectionBlock blake3 seed projectionIndex)).take
              (pieceSize - projection.length) := by
          rw [List.take_append_of_le_length (by omega)]
          exact congrArg block.take (by omega)
        rw [List.flatMap_cons, List.take_append, List.take_of_length_le (Nat.le_of_lt hlt), hall]
      · rename_i hmore
        have hfull : taken = block := List.take_of_length_le (by omega)
        rw [projectionLoop_eq seed projectionIndex rest _ (by simp; omega) (by simp; omega), hfull,
          List.flatMap_cons, List.append_assoc]

/-- A projection vector is the start of the stream. -/
theorem generateProjection_eq (seed : Bytes 32) (projectionIndex : UInt8) {pieceSize numChunks : ℕ}
    (h : pieceSize ≤ 32 * numChunks) :
    generateProjection blake3 seed projectionIndex pieceSize =
      .ok ((projectionStream blake3 seed projectionIndex numChunks).take pieceSize) := by
  have hdiv := usizeDivCeil_eq_ok pieceSize (b := 32) (by decide)
  have hcover : pieceSize ≤ 32 * (pieceSize ⌈/⌉ 32) :=
    (ceilDiv_le_iff_le_mul (by decide)).1 le_rfl
  have hchunks : pieceSize ⌈/⌉ 32 ≤ numChunks := (ceilDiv_le_iff_le_mul (by decide)).2 h
  rcases Nat.exists_eq_add_of_le hchunks with ⟨more, rfl⟩
  rw [projectionStream_take blake3 seed projectionIndex hcover]
  rcases Nat.eq_zero_or_pos pieceSize with rfl | hsize
  · simp [generateProjection, hdiv, projectionLoop]
  · have hrun := projectionLoop_eq blake3 seed projectionIndex (List.range (pieceSize ⌈/⌉ 32)) []
      (by simpa using hsize) (by simpa using hcover)
    simp [generateProjection, hdiv, hrun, projectionStream]

theorem generateProjection_eq_ok (seed : Bytes 32) (projectionIndex : UInt8) (pieceSize : ℕ) :
    ∃ out, generateProjection blake3 seed projectionIndex pieceSize = .ok out ∧
      out.length = pieceSize := by
  have hle : pieceSize ≤ 32 * pieceSize := Nat.le_mul_of_pos_left pieceSize (by decide)
  exact ⟨_, generateProjection_eq blake3 seed projectionIndex hle, by simpa using hle⟩

/-! ## Hashing and verifying as dot products -/

/-- The projection vectors of a seed, all computed and all of the requested length. -/
structure Projections (seed : Bytes 32) (pieceSize : ℕ) (proj : Fin hashProjections → List GF256) :
    Prop where
  run : ∀ i : Fin hashProjections,
    generateProjection blake3 seed (UInt8.ofNat i) pieceSize = .ok (proj i)
  length : ∀ i, (proj i).length = pieceSize

theorem exists_projections (seed : Bytes 32) (pieceSize : ℕ) :
    ∃ proj, Projections blake3 seed pieceSize proj := by
  choose proj hrun hlen using fun i : Fin hashProjections =>
    generateProjection_eq_ok blake3 seed (UInt8.ofNat i) pieceSize
  exact ⟨proj, hrun, hlen⟩

theorem gf256Dot_eq_ok {n : ℕ} {a b : List GF256} (ha : a.length = n) (hb : b.length = n) :
    gf256Dot a b = .ok (dotProduct (toVec n a) (toVec n b)) := by
  have hdot := foldl_dot
    (f := fun result (ab : GF256 × GF256) => GF256.add result (GF256.mul ab.1 ab.2))
    (fun _ _ _ => rfl) ha hb
  simp [gf256Dot, ha, hb, hdot, dotProduct]

variable {blake3} {seed : Bytes 32} {pieceSize : ℕ} {proj : Fin hashProjections → List GF256}

/-- The hashes of pieces of one size are their dot products with the projections. -/
theorem generateSegmentHashes_eq_ok (hproj : Projections blake3 seed pieceSize proj)
    {pieces : List CodedPiece} (hne : pieces ≠ [])
    (hsize : ∀ p ∈ pieces, p.data.length = pieceSize) :
    generateSegmentHashes blake3 seed pieces = .ok
      { seed := seed
        pieceHashes := pieces.map fun p i =>
          dotProduct (toVec pieceSize p.data) (toVec pieceSize (proj i)) } := by
  rcases List.exists_cons_of_ne_nil hne with ⟨first, rest, rfl⟩
  have hfirst : first.data.length = pieceSize := hsize first List.mem_cons_self
  let hash := fun p : CodedPiece => (List.finRange hashProjections).map fun i =>
    dotProduct (toVec pieceSize p.data) (toVec pieceSize (proj i))
  have hpiece : ∀ p ∈ first :: rest, hashPiece blake3 seed pieceSize p = .ok (hash p) := by
    intro p hp
    have hdot := fun i => gf256Dot_eq_ok (hsize p hp) (hproj.length i)
    unfold hashPiece
    exact Outcome.mapM_eq_ok fun i _ => by simp [hproj.run i, hdot i]
  have hrun : (first :: rest).mapM (hashPiece blake3 seed pieceSize) =
      .ok ((first :: rest).map hash) := Outcome.mapM_eq_ok hpiece
  have hget : ∀ (p : CodedPiece) (i : Fin hashProjections), (hash p).getD i 0 =
      dotProduct (toVec pieceSize p.data) (toVec pieceSize (proj i)) := by
    intro p i
    simp [hash]
  simp only [generateSegmentHashes, hfirst, hrun, Outcome.ok_bind, Outcome.pure_eq, List.map_map,
    Function.comp_def, hget]

/-- The expected dot product is the combination of the piece hashes. -/
theorem expectedHash_eq (pieceHashes : List (Fin hashProjections → GF256))
    {coefficients : List GF256} (hlen : coefficients.length = pieceHashes.length)
    (i : Fin hashProjections) :
    expectedHash coefficients pieceHashes i =
      ∑ t : Fin pieceHashes.length,
        toVec pieceHashes.length coefficients t * pieceHashes.get t i := by
  let value := fun ci : GF256 × ℕ => ci.1 * (pieceHashes.getD ci.2 0) i
  -- a skipped coefficient is zero, and no index is out of range
  have hrun := (foldl_accumulate (fun _ => True) id value
    (fun (expected : GF256) (ci : GF256 × ℕ) => if h : ci.1 ≠ 0 ∧ ci.2 < pieceHashes.length then
      GF256.add expected (GF256.mul ci.1 (pieceHashes[ci.2] i)) else expected)
    coefficients.zipIdx 0 trivial (by
      rintro expected ⟨c, t⟩ hmem -
      have ht : t < pieceHashes.length := by
        rw [← hlen]
        exact List.snd_lt_of_mem_zipIdx hmem
      by_cases hc : c = 0
      · simp [hc, value]
      · simp [hc, ht, value, GF256.add_eq, GF256.mul_eq])).2
  have hzip : coefficients.zipIdx = coefficients.zip (List.range pieceHashes.length) := by
    rw [← hlen, List.zipIdx_eq_zip_range', List.range_eq_range']
  calc expectedHash coefficients pieceHashes i
      = (coefficients.zipIdx.map value).sum := by
        simpa [expectedHash] using hrun
    _ = ∑ t : Fin pieceHashes.length,
          toVec pieceHashes.length coefficients t * pieceHashes.get t i := by
        rw [hzip, sum_map_zip hlen (List.length_range)]
        refine Finset.sum_congr rfl fun t _ => ?_
        simp [value, toVec_eq_get hlen]

theorem verifyLoop_eq_true {piece : CodedPiece} {hashes : SegmentHashes}
    (hproj : Projections blake3 hashes.seed piece.data.length proj)
    (hmatch : ∀ i, dotProduct (toVec piece.data.length piece.data)
        (toVec piece.data.length (proj i)) =
      expectedHash piece.coefficients hashes.pieceHashes i) :
    ∀ indices : List (Fin hashProjections), verifyLoop blake3 piece hashes indices = .ok true
  | [] => rfl
  | i :: rest => by
      have hdot := gf256Dot_eq_ok (a := piece.data) rfl (hproj.length i)
      simp [verifyLoop, hproj.run i, hdot, hmatch i, verifyLoop_eq_true hproj hmatch rest]

/-- The hashes are homomorphic: a piece of the segment is accepted. -/
theorem verifyPiece_eq_true {sources : List (List GF256)} (hne : sources ≠ [])
    (hproj : Projections blake3 seed pieceSize proj) {piece : CodedPiece}
    (hpiece : piece.OfSegment sources pieceSize) :
    verifyPiece blake3 piece
      { seed := seed
        pieceHashes := sources.map fun s i =>
          dotProduct (toVec pieceSize s) (toVec pieceSize (proj i)) } = .ok true := by
  rcases hpiece with ⟨hcoeffs, rfl, hdata⟩
  have hk : sources.length ≠ 0 := by simpa using hne
  have hexp := fun i => expectedHash_eq
    (sources.map fun s i =>
      dotProduct (toVec piece.data.length s) (toVec piece.data.length (proj i)))
    (show piece.coefficients.length = _ by simpa using hcoeffs) i
  simp only [verifyPiece, List.length_map, hcoeffs, ne_eq, not_true, if_false, hk]
  refine verifyLoop_eq_true hproj ?_ _
  intro i
  -- the dot product with a projection is linear in the data
  rw [hexp i, hdata, sum_dotProduct]
  simp only [smul_dotProduct, smul_eq_mul]
  refine Fintype.sum_equiv (finCongr (by simp)) _ _ ?_
  intro t
  simp [toVec_apply]

/-- Every piece that can be obtained from the encoder's output by recombination and repair, to any
depth, has the segment's shape, carries the combination of the source pieces that its coefficients
name, and is accepted against the hashes of the source pieces. -/
theorem derived_pieces_verify (blake3 : List UInt8 → Bytes 32) {segment : List GF256}
    {pieceSize : ℕ} {e : RlncEncoder} (hnew : RlncEncoder.new segment pieceSize = .ok (.ok e))
    (seed : Bytes 32) :
    ∃ hashes, generateSegmentHashes blake3 seed e.sourcePieces = .ok hashes ∧
      ∀ p, Derived e.k (fun q => ∃ n draw, q ∈ e.encode n draw) p →
        p.OfSegment e.pieces pieceSize ∧ verifyPiece blake3 p hashes = .ok true := by
  have henc := RlncEncoder.encodes_of_new hnew
  have hk := henc.k_pos
  rcases exists_projections blake3 seed pieceSize with ⟨proj, hproj⟩
  have hsources : e.sourcePieces.map CodedPiece.data = e.pieces := by
    simp [RlncEncoder.sourcePieces, RlncEncoder.k, Function.comp_def]
  have hlen : e.sourcePieces.length = e.k := by
    simp [RlncEncoder.sourcePieces, RlncEncoder.k]
  have hne : e.sourcePieces ≠ [] := List.length_pos_iff.1 (hlen ▸ hk)
  have hhash := generateSegmentHashes_eq_ok hproj hne fun p hp =>
    (RlncEncoder.ofSegment_sourcePieces henc p hp).data_length
  refine ⟨_, hhash, ?_⟩
  intro p hp
  have hof : p.OfSegment e.pieces pieceSize := by
    refine ofSegment_derived ?_ hp
    rintro q ⟨n, draw, hq⟩
    exact RlncEncoder.ofSegment_encode henc n draw q hq
  refine ⟨hof, ?_⟩
  have hverify := verifyPiece_eq_true (List.length_pos_iff.1 hk) hproj hof
  rw [← hsources, List.map_map] at hverify
  exact hverify

end Projection

/-- A segment of three bytes in two pieces, the second of them padded. -/
theorem derived_pieces_verify_three_bytes :
    ∃ e : RlncEncoder, RlncEncoder.new [⟨1⟩, ⟨2⟩, ⟨3⟩] 2 = .ok (.ok e) ∧
      ∃ hashes, generateSegmentHashes (fun _ => Bytes.zero 32) (Bytes.zero 32) e.sourcePieces =
          .ok hashes ∧
        ∀ p, Derived e.k (fun q => ∃ n draw, q ∈ e.encode n draw) p →
          p.OfSegment e.pieces 2 ∧ verifyPiece (fun _ => Bytes.zero 32) p hashes = .ok true := by
  have hnew : RlncEncoder.new [⟨1⟩, ⟨2⟩, ⟨3⟩] 2 = .ok (.ok ⟨[[⟨1⟩, ⟨2⟩], [⟨3⟩, ⟨0⟩]], 2⟩) := by
    decide +kernel
  exact ⟨_, hnew, derived_pieces_verify _ hnew _⟩

end Erasure
end CraftecCore
