import CraftecCore.Erasure.GF256
import CraftecCore.Library.Outcome
import CraftecCore.Library.RowVector
import Mathlib.LinearAlgebra.Finsupp.LinearCombination
import Mathlib.LinearAlgebra.Prod

/-!
# Coding — source pieces, coded pieces and recombination

Random linear network coding over GF(2^8).  A segment is cut into `k` source pieces of
`piece_size` bytes, the last one zero-padded.  A coded piece carries a coefficient vector and the
combination of the source pieces with these coefficients.

Random draws are arguments: `draw` gives the coefficients of the encoder, `alpha` the non-zero
scalars of a recombination (the source draws again while it draws zero).  A `Vec<u8>` is a list of
`GF256`; the `usize` arithmetic on caller-supplied sizes is checked, and so is the size of each
byte buffer whose length is a caller-supplied number.
-/

namespace CraftecCore
namespace Erasure

open GF256 RowVector

/-! ## Configuration and errors -/

def defaultPieceSize : ℕ := 262144

def defaultSegmentSize : ℕ := 10485760

/-- Default initial parity: 20% extra coded pieces. -/
def defaultInitialParity : ℕ := 20

/-- Erasure coding parameters; each is a `usize`. -/
structure ErasureConfig where
  pieceSize : ℕ
  segmentSize : ℕ
  initialParity : ℕ
  pieceSize_lt : pieceSize < 2 ^ 64 := by decide
  segmentSize_lt : segmentSize < 2 ^ 64 := by decide
  initialParity_lt : initialParity < 2 ^ 64 := by decide

def ErasureConfig.default : ErasureConfig :=
  { pieceSize := defaultPieceSize
    segmentSize := defaultSegmentSize
    initialParity := defaultInitialParity }

def ErasureConfig.kForSegment (config : ErasureConfig) (segmentBytes : ℕ) : Outcome ℕ := do
  let q ← usizeDivCeil segmentBytes config.pieceSize
  pure (max q 1)

def ErasureConfig.parityCount (config : ErasureConfig) (k : ℕ) : Outcome ℕ := do
  let n ← usizeMul k config.initialParity
  pure (n / 100)

inductive ErasureError
  | emptyData
  | encodingFailed (msg : String)
  | decodingFailed (msg : String)
  | insufficientPieces (available need : ℕ)
  | linearlyDependent
  | invalidConfig (msg : String)
  deriving DecidableEq, Repr

/-! ## Coded pieces -/

structure CodedPiece where
  data : List GF256
  coefficients : List GF256
  deriving DecidableEq, Repr

/-- One round of a recombination loop: add `alpha` times `piece` to both halves of `acc`. -/
def CodedPiece.mulAdd (acc piece : CodedPiece) (alpha : GF256) : CodedPiece :=
  { data := zipMut (fun nd pd => add nd (mul alpha pd)) acc.data piece.data
    coefficients :=
      zipMut (fun nc pc => add nc (mul alpha pc)) acc.coefficients piece.coefficients }

def CodedPiece.zero (pieceSize k : ℕ) : CodedPiece :=
  { data := List.replicate pieceSize 0
    coefficients := List.replicate k 0 }

/-! ## Encoder -/

structure RlncEncoder where
  pieces : List (List GF256)
  pieceSize : ℕ
  deriving DecidableEq, Repr

/-- The `i`-th source piece: a zeroed buffer with its part of the segment copied to the front. -/
def sourcePiece (segmentData : List GF256) (pieceSize i : ℕ) : Outcome (List GF256) := do
  let start ← usizeMul i pieceSize
  let sum ← usizeAdd start pieceSize
  let stop := min sum segmentData.length
  let piece ← byteBuffer 0 pieceSize
  -- `piece[..end - start].copy_from_slice(&segment_data[start..end])`
  if start < segmentData.length then
    let n ← usizeSub stop start
    let _ ← piece.slice 0 n
    let src ← segmentData.slice start stop
    pure (src ++ piece.drop n)
  else
    pure piece

def RlncEncoder.new (segmentData : List GF256) (pieceSize : ℕ) :
    Outcome (Except ErasureError RlncEncoder) :=
  if segmentData = [] then
    pure (.error .emptyData)
  else if pieceSize = 0 then
    pure (.error (.invalidConfig "piece_size must be > 0"))
  else do
    let q ← usizeDivCeil segmentData.length pieceSize
    let k := max q 1
    let pieces ← (List.range k).mapM (sourcePiece segmentData pieceSize)
    pure (.ok { pieces := pieces, pieceSize := pieceSize })

def RlncEncoder.k (e : RlncEncoder) : ℕ :=
  e.pieces.length

/-- The source pieces as coded pieces, with identity coefficient vectors. -/
def RlncEncoder.sourcePieces (e : RlncEncoder) : List CodedPiece :=
  (List.finRange e.pieces.length).map fun i =>
    { data := e.pieces.get i
      coefficients := (List.replicate e.k 0).set i 1 }

/-- A linear combination of pieces with given coefficients, by table lookups. -/
def linearCombine (pieces : List (List GF256)) (coeffs : List GF256) (pieceSize : ℕ) :
    List GF256 :=
  (pieces.zip coeffs).foldl
    (fun result pc =>
      if pc.2 = 0 then
        result
      else
        let table := mulTable pc.2
        zipMut (fun r p => r ^^^ lookup table p) result pc.1)
    (List.replicate pieceSize 0)

def RlncEncoder.generateOnePiece (e : RlncEncoder) (draw : ℕ → GF256) : CodedPiece :=
  let coeffs := (List.range e.k).map draw
  { data := linearCombine e.pieces coeffs e.pieceSize
    coefficients := coeffs }

def RlncEncoder.generateCodedPieces (e : RlncEncoder) (n : ℕ) (draw : ℕ → ℕ → GF256) :
    List CodedPiece :=
  (List.range n).map fun i => e.generateOnePiece (draw i)

/-- Encode a segment: source pieces, then parity pieces. -/
def RlncEncoder.encode (e : RlncEncoder) (initialParityCount : ℕ) (draw : ℕ → ℕ → GF256) :
    List CodedPiece :=
  e.sourcePieces ++ e.generateCodedPieces initialParityCount draw

/-! ## Recombination -/

/-- Combine existing coded pieces with random non-zero scalars. -/
def createPieceFromExisting (pieces : List CodedPiece) (alpha : ℕ → {a : GF256 // a ≠ 0}) :
    Except ErasureError CodedPiece :=
  match pieces with
  | first :: _ :: _ =>
      -- the shape of the result is that of the first piece
      let k := first.coefficients.length
      let pieceSize := first.data.length
      let alphas := (List.range pieces.length).map fun i => (alpha i).val
      .ok ((pieces.zip alphas).foldl (fun acc pa => acc.mulAdd pa.1 pa.2)
        (CodedPiece.zero pieceSize k))
  | _ => .error (.encodingFailed "need at least 2 pieces to combine")

/-! ## What the encoder holds -/

def paddedChunk (segment : List GF256) (pieceSize i : ℕ) : List GF256 :=
  ((segment ++ List.replicate pieceSize 0).drop (i * pieceSize)).take pieceSize

theorem length_paddedChunk {segment : List GF256} {pieceSize i : ℕ}
    (hi : i * pieceSize < segment.length) :
    (paddedChunk segment pieceSize i).length = pieceSize := by
  simp only [paddedChunk, List.length_take, List.length_drop, List.length_append,
    List.length_replicate]
  omega

/-- The bytes that are copied and the zeros that are left make up the padded chunk. -/
theorem copied_append_zeros {segment : List GF256} {pieceSize i stop : ℕ}
    (hi : i * pieceSize < segment.length)
    (hstop : stop = min (i * pieceSize + pieceSize) segment.length) :
    (segment.drop (i * pieceSize)).take (stop - i * pieceSize) ++
        (List.replicate pieceSize (0 : GF256)).drop (stop - i * pieceSize) =
      paddedChunk segment pieceSize i := by
  have hsrc : (segment.drop (i * pieceSize)).take (stop - i * pieceSize) =
      (segment.drop (i * pieceSize)).take pieceSize := by
    apply List.take_eq_take_iff.2
    rw [List.length_drop]
    omega
  have hpad : pieceSize - (stop - i * pieceSize) =
      pieceSize - (segment.length - i * pieceSize) := by omega
  rw [hsrc, paddedChunk, List.drop_append_of_le_length (Nat.le_of_lt hi), List.take_append]
  simp [hpad]

/-- Where every size fits, the piece is the padded chunk. -/
theorem sourcePiece_of_fits {segment : List GF256} {pieceSize i : ℕ}
    (hi : i * pieceSize < segment.length) (hsum : i * pieceSize + pieceSize < 2 ^ 64)
    (hcap : pieceSize ≤ isizeMax) :
    sourcePiece segment pieceSize i = .ok (paddedChunk segment pieceSize i) := by
  let stop := min (i * pieceSize + pieceSize) segment.length
  have hstop : i * pieceSize ≤ stop := by omega
  have hn : stop - i * pieceSize ≤ pieceSize := by omega
  -- no check fails
  have hmul := usizeMul_eq_ok (show i * pieceSize < 2 ^ 64 by omega)
  have hadd := usizeAdd_eq_ok hsum
  have hbuf := (byteBuffer_eq_ok (a := (0 : GF256)) (n := pieceSize)).2 ⟨hcap, rfl⟩
  have hsub := usizeSub_eq_ok hstop
  have hslice := List.slice_eq_ok (List.replicate pieceSize (0 : GF256))
    (Nat.zero_le (stop - i * pieceSize)) (by simpa using hn)
  have hslice' := List.slice_eq_ok segment hstop (Nat.min_le_right _ segment.length)
  have hchunk := copied_append_zeros hi (show stop = _ from rfl)
  simp only [sourcePiece, hmul, hadd, hbuf, Outcome.ok_bind, if_pos hi]
  simp only [stop] at hsub hslice hslice' hchunk
  simp only [hsub, hslice, hslice', Outcome.ok_bind, Outcome.pure_eq, hchunk]

/-- A piece that starts inside the segment is its padded chunk, unless a size does not fit. -/
theorem sourcePiece_eq_ok {segment : List GF256} {pieceSize i : ℕ} {piece : List GF256}
    (hi : i * pieceSize < segment.length) :
    sourcePiece segment pieceSize i = .ok piece ↔
      i * pieceSize + pieceSize < 2 ^ 64 ∧ pieceSize ≤ isizeMax ∧
        piece = paddedChunk segment pieceSize i := by
  by_cases hsum : i * pieceSize + pieceSize < 2 ^ 64
  · by_cases hcap : pieceSize ≤ isizeMax
    · simp [-Nat.reducePow, sourcePiece_of_fits hi hsum hcap, hsum, hcap, eq_comm]
    · have hmul := usizeMul_eq_ok (show i * pieceSize < 2 ^ 64 by omega)
      simp [sourcePiece, hmul, usizeAdd_eq_ok hsum, byteBuffer, withCapacity, hcap]
  · by_cases hmul : i * pieceSize < 2 ^ 64
    · simp [-Nat.reducePow, sourcePiece, usizeMul_eq_ok hmul, usizeAdd_eq_panic hsum, hsum]
    · simp [-Nat.reducePow, sourcePiece, usizeMul_eq_panic hmul, hsum]

/-- What a successful `RlncEncoder::new` returns. -/
structure RlncEncoder.Encodes (e : RlncEncoder) (segment : List GF256) (pieceSize : ℕ) : Prop where
  segment_ne : segment ≠ []
  pieceSize_pos : 0 < pieceSize
  pieceSize_le : pieceSize ≤ isizeMax
  pieceSize_eq : e.pieceSize = pieceSize
  pieces_eq : e.pieces =
    (List.range (segment.length ⌈/⌉ pieceSize)).map (paddedChunk segment pieceSize)

/-- Every piece below `⌈len / piece_size⌉` starts inside the segment. -/
theorem mul_lt_of_lt_ceilDiv {i len size : ℕ} (hsize : 0 < size) (hi : i < len ⌈/⌉ size) :
    i * size < len := by
  by_contra hle
  have : len ⌈/⌉ size ≤ i := (ceilDiv_le_iff_le_mul hsize).2 (by rw [Nat.mul_comm]; omega)
  omega

theorem one_le_ceilDiv {len size : ℕ} (hsize : 0 < size) (hlen : 0 < len) :
    1 ≤ len ⌈/⌉ size := by
  by_contra hlt
  have := (ceilDiv_le_iff_le_mul (b := len) (c := 0) hsize).1 (by omega)
  omega

namespace RlncEncoder

variable {segment : List GF256} {pieceSize : ℕ} {e : RlncEncoder}

theorem encodes_of_new (h : RlncEncoder.new segment pieceSize = .ok (.ok e)) :
    e.Encodes segment pieceSize := by
  by_cases hseg : segment = []
  · simp [RlncEncoder.new, hseg] at h
  by_cases hsize : pieceSize = 0
  · simp [RlncEncoder.new, hseg, hsize] at h
  have hpos : 0 < pieceSize := Nat.pos_of_ne_zero hsize
  have hlen : 0 < segment.length := List.length_pos_iff.2 hseg
  have hk := one_le_ceilDiv hpos hlen
  simp only [RlncEncoder.new, hseg, hsize, if_false, usizeDivCeil_eq_ok _ hpos, Outcome.ok_bind,
    max_eq_left hk, Outcome.bind_eq_ok] at h
  rcases h with ⟨pieces, hrun, he⟩
  have he : { pieces := pieces, pieceSize := pieceSize } = e := by simpa using he
  subst he
  have hstart : ∀ i ∈ List.range (segment.length ⌈/⌉ pieceSize), i * pieceSize < segment.length :=
    fun i hi => mul_lt_of_lt_ceilDiv hpos (List.mem_range.1 hi)
  -- every piece that was returned is its padded chunk
  have hpieces := Outcome.eq_map_of_mapM_eq_ok (g := paddedChunk segment pieceSize) hrun
    fun i hi piece hpiece => ((sourcePiece_eq_ok (hstart i hi)).1 hpiece).2.2
  have hcap : pieceSize ≤ isizeMax := by
    -- the first piece was allocated
    have hall := Outcome.forall₂_of_mapM_eq_ok hrun
    have hne : List.range (segment.length ⌈/⌉ pieceSize) ≠ [] := by
      simpa using Nat.pos_iff_ne_zero.1 hk
    rcases List.exists_cons_of_ne_nil hne with ⟨i, is, heq⟩
    rw [heq] at hall hstart
    rcases hall with _ | ⟨hpiece, _⟩
    exact ((sourcePiece_eq_ok (hstart i List.mem_cons_self)).1 hpiece).2.1
  exact ⟨hseg, hpos, hcap, rfl, hpieces⟩

/-- Construction succeeds on every non-empty segment whose pieces fit a buffer. -/
theorem new_eq_ok (hseg : segment ≠ []) (hlen : segment.length ≤ isizeMax) (hpos : 0 < pieceSize)
    (hcap : pieceSize ≤ isizeMax) :
    ∃ e, RlncEncoder.new segment pieceSize = .ok (.ok e) ∧ e.Encodes segment pieceSize := by
  have hk := one_le_ceilDiv hpos (List.length_pos_iff.2 hseg)
  -- the last piece may end past the segment, but not past a word
  have hrun : (List.range (segment.length ⌈/⌉ pieceSize)).mapM (sourcePiece segment pieceSize) =
      .ok ((List.range (segment.length ⌈/⌉ pieceSize)).map (paddedChunk segment pieceSize)) := by
    apply Outcome.mapM_eq_ok
    intro i hi
    have hstart := mul_lt_of_lt_ceilDiv hpos (List.mem_range.1 hi)
    have hfit : i * pieceSize + pieceSize < 2 ^ 64 := by
      have hmax : isizeMax = 2 ^ 63 - 1 := rfl
      omega
    exact sourcePiece_of_fits hstart hfit hcap
  have hnew : RlncEncoder.new segment pieceSize = .ok (.ok
      { pieces := (List.range (segment.length ⌈/⌉ pieceSize)).map (paddedChunk segment pieceSize)
        pieceSize := pieceSize }) := by
    simp [RlncEncoder.new, hseg, Nat.pos_iff_ne_zero.1 hpos, usizeDivCeil_eq_ok _ hpos,
      max_eq_left hk, hrun]
  exact ⟨_, hnew, encodes_of_new hnew⟩

theorem Encodes.k_eq (h : e.Encodes segment pieceSize) : e.k = segment.length ⌈/⌉ pieceSize := by
  simp [RlncEncoder.k, h.pieces_eq]

theorem Encodes.k_pos (h : e.Encodes segment pieceSize) : 0 < e.k := by
  rw [h.k_eq]
  exact one_le_ceilDiv h.pieceSize_pos (List.length_pos_iff.2 h.segment_ne)

theorem Encodes.length_of_mem (h : e.Encodes segment pieceSize) {piece : List GF256}
    (hp : piece ∈ e.pieces) : piece.length = pieceSize := by
  rw [h.pieces_eq] at hp
  rcases List.mem_map.1 hp with ⟨i, hi, rfl⟩
  exact length_paddedChunk (mul_lt_of_lt_ceilDiv h.pieceSize_pos (List.mem_range.1 hi))

/-- The source pieces in order, cut to the segment's length, are the segment. -/
theorem Encodes.flatten_take (h : e.Encodes segment pieceSize) :
    e.pieces.flatten.take segment.length = segment := by
  have hcover : segment.length ≤ segment.length ⌈/⌉ pieceSize * pieceSize := by
    rw [Nat.mul_comm]
    exact (ceilDiv_le_iff_le_mul h.pieceSize_pos).1 le_rfl
  have hflat := flatten_chunks pieceSize (segment ++ List.replicate pieceSize 0)
    (segment.length ⌈/⌉ pieceSize)
  calc e.pieces.flatten.take segment.length
      = ((segment ++ List.replicate pieceSize 0).take
          (segment.length ⌈/⌉ pieceSize * pieceSize)).take segment.length := by
        rw [h.pieces_eq, ← hflat]
        rfl
    _ = segment := by
        rw [List.take_take, min_eq_left hcover, List.take_append_of_le_length le_rfl,
          List.take_length]

end RlncEncoder

/-! ## Pieces of a segment

A coded piece read as a vector is its coefficients together with its data.  The pieces of a segment
are the graph of the linear map from coefficients to data, hence closed under every recombination.
-/

/-- A coded piece of the segment with the given source pieces: as many coefficients as there are
source pieces, `pieceSize` data bytes, and as data the combination of the source pieces. -/
structure CodedPiece.OfSegment (sources : List (List GF256)) (pieceSize : ℕ) (p : CodedPiece) :
    Prop where
  coefficients_length : p.coefficients.length = sources.length
  data_length : p.data.length = pieceSize
  data_eq : toVec pieceSize p.data =
    ∑ i : Fin sources.length,
      toVec sources.length p.coefficients i • toVec pieceSize (sources.get i)

/-- A coded piece of `k` coefficients and `pieceSize` bytes as a vector. -/
def CodedPiece.toPair (k pieceSize : ℕ) (p : CodedPiece) :
    (Fin k → GF256) × (Fin pieceSize → GF256) :=
  (toVec k p.coefficients, toVec pieceSize p.data)

def sourceMap (sources : List (List GF256)) (pieceSize : ℕ) :
    (Fin sources.length → GF256) →ₗ[GF256] (Fin pieceSize → GF256) :=
  Fintype.linearCombination GF256 fun i => toVec pieceSize (sources.get i)

section OfSegment

variable {sources : List (List GF256)} {pieceSize : ℕ}

theorem CodedPiece.ofSegment_iff {p : CodedPiece} :
    p.OfSegment sources pieceSize ↔
      p.coefficients.length = sources.length ∧ p.data.length = pieceSize ∧
        p.toPair sources.length pieceSize ∈ (sourceMap sources pieceSize).graph := by
  have hgraph : p.toPair sources.length pieceSize ∈ (sourceMap sources pieceSize).graph ↔
      toVec pieceSize p.data = ∑ i : Fin sources.length,
        toVec sources.length p.coefficients i • toVec pieceSize (sources.get i) := by
    rw [LinearMap.mem_graph_iff, sourceMap, Fintype.linearCombination_apply]
    rfl
  rw [hgraph]
  exact ⟨fun h => ⟨h.coefficients_length, h.data_length, h.data_eq⟩,
    fun h => ⟨h.1, h.2.1, h.2.2⟩⟩

/-- One recombination round adds a multiple, in both halves. -/
theorem CodedPiece.toPair_mulAdd {k : ℕ} {acc piece : CodedPiece} (alpha : GF256)
    (hacc : acc.coefficients.length = k ∧ acc.data.length = pieceSize)
    (hpiece : piece.coefficients.length = k ∧ piece.data.length = pieceSize) :
    (acc.mulAdd piece alpha).toPair k pieceSize =
      acc.toPair k pieceSize + alpha • piece.toPair k pieceSize := by
  have hmul : ∀ x y : GF256, add x (mul alpha y) = x + alpha * y := fun _ _ => rfl
  simp [CodedPiece.toPair, CodedPiece.mulAdd, toVec_zipMut hmul hacc.1 hpiece.1,
    toVec_zipMut hmul hacc.2 hpiece.2]

/-- A recombination loop, with or without skipping zero scalars, sums up the multiples. -/
theorem CodedPiece.toPair_foldl {k : ℕ} {step : CodedPiece → CodedPiece × GF256 → CodedPiece}
    (hstep : ∀ acc piece alpha, step acc (piece, alpha) = acc.mulAdd piece alpha ∨
      alpha = 0 ∧ step acc (piece, alpha) = acc)
    {items : List (CodedPiece × GF256)}
    (hitems : ∀ pa ∈ items, pa.1.coefficients.length = k ∧ pa.1.data.length = pieceSize) :
    ((items.foldl step (CodedPiece.zero pieceSize k)).coefficients.length = k ∧
      (items.foldl step (CodedPiece.zero pieceSize k)).data.length = pieceSize) ∧
      (items.foldl step (CodedPiece.zero pieceSize k)).toPair k pieceSize =
        (items.map fun pa => pa.2 • pa.1.toPair k pieceSize).sum := by
  -- one round adds a multiple, or nothing when a zero scalar is skipped
  have hrun := foldl_accumulate
    (fun acc : CodedPiece => acc.coefficients.length = k ∧ acc.data.length = pieceSize)
    (CodedPiece.toPair k pieceSize) (fun pa => pa.2 • pa.1.toPair k pieceSize) step items
    (CodedPiece.zero pieceSize k) (by simp [CodedPiece.zero])
    (by
      rintro acc ⟨piece, alpha⟩ hmem hacc
      have hpiece := hitems _ hmem
      rcases hstep acc piece alpha with heq | ⟨rfl, heq⟩
      · rw [heq]
        exact ⟨by simpa [CodedPiece.mulAdd] using hacc, toPair_mulAdd alpha hacc hpiece⟩
      · rw [heq]
        exact ⟨hacc, by simp⟩)
  have hzero : (CodedPiece.zero pieceSize k).toPair k pieceSize = 0 := by
    simp [CodedPiece.toPair, CodedPiece.zero]
  refine ⟨hrun.1, ?_⟩
  rw [hrun.2, hzero, zero_add]

/-- Recombining pieces of a segment, with or without skipping zero scalars, gives a piece of the
segment. -/
theorem CodedPiece.ofSegment_foldl {step : CodedPiece → CodedPiece × GF256 → CodedPiece}
    (hstep : ∀ acc piece alpha, step acc (piece, alpha) = acc.mulAdd piece alpha ∨
      alpha = 0 ∧ step acc (piece, alpha) = acc)
    {items : List (CodedPiece × GF256)}
    (hitems : ∀ pa ∈ items, pa.1.OfSegment sources pieceSize) :
    (items.foldl step (CodedPiece.zero pieceSize sources.length)).OfSegment sources pieceSize := by
  rcases CodedPiece.toPair_foldl hstep fun pa hpa =>
    ⟨(hitems pa hpa).coefficients_length, (hitems pa hpa).data_length⟩ with ⟨hshape, hview⟩
  refine CodedPiece.ofSegment_iff.2 ⟨hshape.1, hshape.2, ?_⟩
  rw [hview]
  -- the graph is a subspace
  apply list_sum_mem
  intro v hv
  rcases List.mem_map.1 hv with ⟨pa, hpa, rfl⟩
  exact Submodule.smul_mem _ _ (CodedPiece.ofSegment_iff.1 (hitems pa hpa)).2.2

/-- Recombination stays within the pieces of a segment. -/
theorem ofSegment_createPieceFromExisting {pieces : List CodedPiece}
    {alpha : ℕ → {a : GF256 // a ≠ 0}} {p : CodedPiece}
    (hpieces : ∀ q ∈ pieces, q.OfSegment sources pieceSize)
    (h : createPieceFromExisting pieces alpha = .ok p) : p.OfSegment sources pieceSize := by
  match pieces, hpieces, h with
  | first :: second :: rest, hpieces, h =>
      have hfirst := hpieces first List.mem_cons_self
      have hp := Except.ok.inj h
      simp only [hfirst.coefficients_length, hfirst.data_length] at hp
      rw [← hp]
      refine CodedPiece.ofSegment_foldl (fun _ _ _ => Or.inl rfl) ?_
      intro pa hpa
      exact hpieces pa.1 (List.of_mem_zip hpa).1

end OfSegment

namespace RlncEncoder

variable {segment : List GF256} {pieceSize : ℕ} {e : RlncEncoder}

theorem ofSegment_sourcePieces (h : e.Encodes segment pieceSize) :
    ∀ p ∈ e.sourcePieces, p.OfSegment e.pieces pieceSize := by
  intro p hp
  rcases List.mem_map.1 hp with ⟨i, _, rfl⟩
  refine ⟨by simp [RlncEncoder.k], h.length_of_mem (List.get_mem e.pieces i), ?_⟩
  -- an identity coefficient vector picks its own source piece out of the sum
  have hunit : toVec e.pieces.length ((List.replicate e.k (0 : GF256)).set i 1) =
      Pi.single i 1 := toVec_unit i.isLt
  simp only [hunit, Pi.single_apply, ite_smul, one_smul, zero_smul, Finset.sum_ite_eq',
    Finset.mem_univ, if_true]

theorem ofSegment_generateOnePiece (h : e.Encodes segment pieceSize) (draw : ℕ → GF256) :
    (e.generateOnePiece draw).OfSegment e.pieces pieceSize := by
  let coeffs := (List.range e.k).map draw
  have hcoeffs : coeffs.length = e.pieces.length := by simp [coeffs, RlncEncoder.k]
  -- one round of the table loop adds a multiple of the piece
  have hrun := foldl_accumulate (fun result : List GF256 => result.length = pieceSize)
    (toVec pieceSize) (fun pc : List GF256 × GF256 => pc.2 • toVec pieceSize pc.1)
    (fun result pc => if pc.2 = 0 then result
      else zipMut (fun r p => r ^^^ lookup (mulTable pc.2) p) result pc.1)
    (e.pieces.zip coeffs) (List.replicate pieceSize 0) List.length_replicate
    (by
      rintro result ⟨piece, coeff⟩ hmem hresult
      have hpiece := h.length_of_mem (List.of_mem_zip hmem).1
      by_cases hc : coeff = 0
      · simp [hc, hresult]
      · have htable : ∀ r p : GF256, r ^^^ lookup (mulTable coeff) p = r + coeff * p :=
          fun r p => by rw [lookup_mulTable, xor_eq]
        simp [hc, hresult, toVec_zipMut htable hresult hpiece])
  have hdata : (e.generateOnePiece draw).data = linearCombine e.pieces coeffs pieceSize := by
    simp [RlncEncoder.generateOnePiece, h.pieceSize_eq, coeffs]
  refine ⟨hcoeffs, ?_, ?_⟩
  · rw [hdata]
    exact hrun.1
  · calc toVec pieceSize (e.generateOnePiece draw).data
        = ((e.pieces.zip coeffs).map fun pc => pc.2 • toVec pieceSize pc.1).sum := by
          rw [hdata]
          simpa [linearCombine] using hrun.2
      _ = ∑ i : Fin e.pieces.length, toVec e.pieces.length coeffs i •
            toVec pieceSize (e.pieces.get i) := by
          rw [sum_map_zip rfl hcoeffs]
          exact Finset.sum_congr rfl fun i _ => by rw [toVec_eq_get hcoeffs]; rfl

/-- Everything the encoder outputs is a piece of its segment. -/
theorem ofSegment_encode (h : e.Encodes segment pieceSize) (n : ℕ) (draw : ℕ → ℕ → GF256) :
    ∀ p ∈ e.encode n draw, p.OfSegment e.pieces pieceSize := by
  intro p hp
  rcases List.mem_append.1 hp with hp | hp
  · exact ofSegment_sourcePieces h p hp
  · rcases List.mem_map.1 hp with ⟨i, _, rfl⟩
    exact ofSegment_generateOnePiece h (draw i)

end RlncEncoder

end Erasure
end CraftecCore
