import CraftecCore.Erasure.Decoder

/-!
# Segmenter — content round trip

Content is cut into segments, each segment is encoded on its own, and a receiver that holds enough
pieces of every segment decodes and concatenates them.  The source runs the segments in parallel;
they do not interact, so they are run in order here.  A map from segment indices to pieces is a
lookup function.
-/

namespace CraftecCore
namespace Erasure

open GF256 RowReduction RowVector

/-! ## The source functions -/

def encodeSegment (data : List GF256) (config : ErasureConfig) (draw : ℕ → ℕ → ℕ → GF256) (i : ℕ) :
    Outcome (Except ErasureError (UInt32 × List CodedPiece)) := do
  let start ← usizeMul i config.segmentSize
  let sum ← usizeAdd start config.segmentSize
  let segmentData ← data.slice start (min sum data.length)
  match ← RlncEncoder.new segmentData config.pieceSize with
  | .error err => pure (.error err)
  | .ok encoder => do
      let parityCount ← config.parityCount encoder.k
      pure (.ok (UInt32.ofNat i, encoder.encode parityCount (draw i)))

/-- Split content into segments and encode each; the first error wins. -/
def segmentAndEncode (data : List GF256) (config : ErasureConfig) (draw : ℕ → ℕ → ℕ → GF256) :
    Outcome (Except ErasureError (List (UInt32 × List CodedPiece))) :=
  if data = [] then
    pure (.error .emptyData)
  else do
    let numSegments ← usizeDivCeil data.length config.segmentSize
    let results ← (List.range numSegments).mapM (encodeSegment data config draw)
    pure results.collectResults

def decodeSegment (segments : UInt32 → Option (List CodedPiece)) (config : ErasureConfig)
    (originalLen i : ℕ) : Outcome (Except ErasureError (UInt32 × List GF256)) :=
  match segments (UInt32.ofNat i) with
  | none => pure (.error (.decodingFailed s!"missing segment {i}"))
  | some pieces => do
      let segmentStart ← usizeMul i config.segmentSize
      let next ← usizeAdd i 1
      let stop ← usizeMul next config.segmentSize
      let segmentLen ← usizeSub (min stop originalLen) segmentStart
      let k ← config.kForSegment segmentLen
      match ← (RlncDecoder.new k config.pieceSize segmentLen).decode pieces with
      | .error err => pure (.error err)
      | .ok decoded => pure (.ok (UInt32.ofNat i, decoded))

/-- Decode all segments and put the content together; the first error wins. -/
def decodeAndReassemble (segments : UInt32 → Option (List CodedPiece)) (totalSegments : UInt32)
    (config : ErasureConfig) (originalLen : ℕ) : Outcome (Except ErasureError (List GF256)) := do
  let decodedSegments ←
    (List.range totalSegments.toNat).mapM (decodeSegment segments config originalLen)
  withCapacity originalLen
  match decodedSegments.collectResults with
  | .error err => pure (.error err)
  | .ok parts => pure (.ok ((parts.map Prod.snd).flatten.take originalLen))

/-! ## Segments of the content -/

def segmentBytes (content : List GF256) (config : ErasureConfig) (i : ℕ) : List GF256 :=
  (content.drop (i * config.segmentSize)).take config.segmentSize

def segmentCount (content : List GF256) (config : ErasureConfig) : ℕ :=
  content.length ⌈/⌉ config.segmentSize

def segmentK (content : List GF256) (config : ErasureConfig) (i : ℕ) : ℕ :=
  (segmentBytes content config i).length ⌈/⌉ config.pieceSize

/-- Content and configuration for which no size overflows: the content fits a slice, its segments
are counted by a `u32`, and for every segment the piece buffer and the parity product fit. -/
structure Encodable (content : List GF256) (config : ErasureConfig) : Prop where
  content_ne : content ≠ []
  content_le : content.length ≤ isizeMax
  pieceSize_pos : 0 < config.pieceSize
  segmentSize_pos : 0 < config.segmentSize
  count_lt : segmentCount content config < 2 ^ 32
  buffer_le : ∀ i < segmentCount content config,
    segmentK content config i * config.pieceSize ≤ isizeMax
  parity_lt : ∀ i < segmentCount content config,
    segmentK content config i * config.initialParity < 2 ^ 64

/-- What the encoding of every segment takes: as `Encodable`, but a piece alone must fit a buffer,
and the index of a segment may be cut off. -/
structure Fits (content : List GF256) (config : ErasureConfig) : Prop where
  content_ne : content ≠ []
  content_le : content.length ≤ isizeMax
  pieceSize_pos : 0 < config.pieceSize
  pieceSize_le : config.pieceSize ≤ isizeMax
  segmentSize_pos : 0 < config.segmentSize
  parity_lt : ∀ i < segmentCount content config,
    segmentK content config i * config.initialParity < 2 ^ 64

section Segments

variable {content : List GF256} {config : ErasureConfig}

theorem Fits.start_lt (h : Fits content config) {i : ℕ}
    (hi : i < segmentCount content config) : i * config.segmentSize < content.length :=
  mul_lt_of_lt_ceilDiv h.segmentSize_pos hi

/-- The end of a segment fits a word even when it lies past the end of the content. -/
theorem Fits.end_lt (h : Fits content config) {i : ℕ}
    (hi : i < segmentCount content config) :
    i * config.segmentSize + config.segmentSize < 2 ^ 64 := by
  have hmax : isizeMax = 2 ^ 63 - 1 := rfl
  have hlen := h.content_le
  have hstart := h.start_lt hi
  -- a first segment may be larger than the content; a later one fits behind its start
  cases i with
  | zero =>
      have := config.segmentSize_lt
      omega
  | succ i =>
      have : config.segmentSize ≤ (i + 1) * config.segmentSize :=
        Nat.le_mul_of_pos_left _ (by omega)
      omega

theorem length_segmentBytes (content : List GF256) (config : ErasureConfig) (i : ℕ) :
    (segmentBytes content config i).length =
      min (i * config.segmentSize + config.segmentSize) content.length -
        i * config.segmentSize := by
  simp only [segmentBytes, List.length_take, List.length_drop]
  omega

theorem Fits.segmentBytes_ne (h : Fits content config) {i : ℕ}
    (hi : i < segmentCount content config) : segmentBytes content config i ≠ [] := by
  have hstart := h.start_lt hi
  have hpos := h.segmentSize_pos
  apply List.length_pos_iff.1
  rw [length_segmentBytes]
  omega

theorem Encodable.fits (h : Encodable content config) : Fits content config where
  content_ne := h.content_ne
  content_le := h.content_le
  pieceSize_pos := h.pieceSize_pos
  segmentSize_pos := h.segmentSize_pos
  parity_lt := h.parity_lt
  pieceSize_le := by
    -- the first segment has a piece
    have hlen := List.length_pos_iff.2 h.content_ne
    have hcount : 0 < segmentCount content config := one_le_ceilDiv h.segmentSize_pos hlen
    have hsegment : 0 < (segmentBytes content config 0).length := by
      have hpos := h.segmentSize_pos
      rw [length_segmentBytes]
      omega
    have hk : 1 ≤ segmentK content config 0 := one_le_ceilDiv h.pieceSize_pos hsegment
    exact le_trans (Nat.le_mul_of_pos_left _ hk) (h.buffer_le 0 hcount)

/-- The segments in order are the content. -/
theorem flatten_segmentBytes (h : Fits content config) :
    ((List.range (segmentCount content config)).map (segmentBytes content config)).flatten =
      content := by
  apply flatten_chunks_of_le
  rw [Nat.mul_comm]
  exact (ceilDiv_le_iff_le_mul h.segmentSize_pos).1 le_rfl

/-- Both sides cut segment `i` out of the content at the same place. -/
theorem slice_segment (h : Fits content config) {i : ℕ}
    (hi : i < segmentCount content config) :
    content.slice (i * config.segmentSize)
        (min (i * config.segmentSize + config.segmentSize) content.length) =
      .ok (segmentBytes content config i) := by
  have hstart := h.start_lt hi
  have hle : i * config.segmentSize ≤
      min (i * config.segmentSize + config.segmentSize) content.length := by omega
  rw [List.slice_eq_ok content hle (Nat.min_le_right _ _)]
  congr 1
  apply List.take_eq_take_iff.2
  rw [List.length_drop]
  omega

/-! ## Encoding -/

/-- The encoder of a segment, and the pieces it outputs. -/
theorem encodeSegment_eq_ok (h : Fits content config) (draw : ℕ → ℕ → ℕ → GF256) {i : ℕ}
    (hi : i < segmentCount content config) :
    ∃ (e : RlncEncoder) (n : ℕ), e.Encodes (segmentBytes content config i) config.pieceSize ∧
      encodeSegment content config draw i = .ok (.ok (UInt32.ofNat i, e.encode n (draw i))) := by
  have hend := h.end_lt hi
  have hlen : (segmentBytes content config i).length ≤ isizeMax := by
    have := h.content_le
    rw [length_segmentBytes]
    omega
  rcases RlncEncoder.new_eq_ok (h.segmentBytes_ne hi) hlen h.pieceSize_pos
    h.pieceSize_le with ⟨e, hnew, henc⟩
  have hparity : e.k * config.initialParity < 2 ^ 64 := by
    rw [henc.k_eq]
    exact h.parity_lt i hi
  refine ⟨e, e.k * config.initialParity / 100, henc, ?_⟩
  have hmul := usizeMul_eq_ok (show i * config.segmentSize < 2 ^ 64 by omega)
  simp [encodeSegment, hmul, usizeAdd_eq_ok hend, slice_segment h hi, hnew,
    ErasureConfig.parityCount, usizeMul_eq_ok hparity]

/-- Encoding succeeds; entry `i` of its result is the encoding of segment `i`. -/
theorem segmentAndEncode_eq_ok (h : Fits content config) (draw : ℕ → ℕ → ℕ → GF256) :
    ∃ (e : ℕ → RlncEncoder) (n : ℕ → ℕ),
      (∀ i < segmentCount content config,
        (e i).Encodes (segmentBytes content config i) config.pieceSize) ∧
      segmentAndEncode content config draw =
        .ok (.ok ((List.range (segmentCount content config)).map fun i =>
          (UInt32.ofNat i, (e i).encode (n i) (draw i)))) := by
  classical
  -- choose an encoder for every segment
  have hex : ∀ i, ∃ (e : RlncEncoder) (n : ℕ), i < segmentCount content config →
      e.Encodes (segmentBytes content config i) config.pieceSize ∧
        encodeSegment content config draw i =
          .ok (.ok (UInt32.ofNat i, e.encode n (draw i))) := by
    intro i
    by_cases hi : i < segmentCount content config
    · rcases encodeSegment_eq_ok h draw hi with ⟨e, n, henc, hrun⟩
      exact ⟨e, n, fun _ => ⟨henc, hrun⟩⟩
    · exact ⟨⟨[], 0⟩, 0, fun hlt => absurd hlt hi⟩
  choose e n hen using hex
  refine ⟨e, n, fun i hi => (hen i hi).1, ?_⟩
  have hrun : (List.range (segmentCount content config)).mapM (encodeSegment content config draw) =
      .ok ((List.range (segmentCount content config)).map fun i =>
        .ok (UInt32.ofNat i, (e i).encode (n i) (draw i))) :=
    Outcome.mapM_eq_ok fun i hi => (hen i (List.mem_range.1 hi)).2
  have hcount := usizeDivCeil_eq_ok content.length h.segmentSize_pos
  have hcollect := List.collectResults_map_ok (ε := ErasureError)
    (fun i => (UInt32.ofNat i, (e i).encode (n i) (draw i)))
    (List.range (segmentCount content config))
  have hcount' : content.length ⌈/⌉ config.segmentSize = segmentCount content config := rfl
  simp [segmentAndEncode, h.content_ne, hcount, hcount', hrun, hcollect]

/-! ## Decoding -/

/-- Decoding a segment from enough of its pieces returns its bytes. -/
theorem decodeSegment_eq_ok (h : Encodable content config) {i : ℕ}
    (hi : i < segmentCount content config) {e : RlncEncoder}
    (henc : e.Encodes (segmentBytes content config i) config.pieceSize)
    {segments : UInt32 → Option (List CodedPiece)} {pieces : List CodedPiece}
    (hget : segments (UInt32.ofNat i) = some pieces)
    (hpieces : ∀ p ∈ pieces, p.OfSegment e.pieces config.pieceSize)
    (hrank : rowRank e.k ((pieces.map CodedPiece.coefficients).take e.k) = e.k) :
    decodeSegment segments config content.length i =
      .ok (.ok (UInt32.ofNat i, segmentBytes content config i)) := by
  have hend := h.fits.end_lt hi
  have hstart := h.fits.start_lt hi
  have hcount := h.count_lt
  have hmul := usizeMul_eq_ok (show i * config.segmentSize < 2 ^ 64 by omega)
  have hadd := usizeAdd_eq_ok (show i + 1 < 2 ^ 64 by omega)
  have hstop : usizeMul (i + 1) config.segmentSize =
      .ok (i * config.segmentSize + config.segmentSize) := by
    rw [← Nat.succ_mul] at hend ⊢
    exact usizeMul_eq_ok hend
  have hlen := length_segmentBytes content config i
  have hsub : usizeSub (min (i * config.segmentSize + config.segmentSize) content.length)
      (i * config.segmentSize) = .ok (segmentBytes content config i).length := by
    rw [hlen]
    exact usizeSub_eq_ok (by omega)
  -- the receiver computes `k` from the length alone, and gets that of the encoder
  have hk : config.kForSegment (segmentBytes content config i).length = .ok e.k := by
    have hone : 1 ≤ e.k := henc.k_pos
    rw [henc.k_eq] at hone ⊢
    simp only [ErasureConfig.kForSegment, usizeDivCeil_eq_ok _ h.pieceSize_pos, Outcome.ok_bind,
      Outcome.pure_eq, max_eq_left hone]
  -- a full rank needs at least `k` pieces
  have hcountPieces : e.k ≤ pieces.length := by
    have hle := rowRank_le_length (n := e.k) ((pieces.map CodedPiece.coefficients).take e.k)
    rw [hrank, List.length_take, List.length_map] at hle
    omega
  have hbuf : e.k * config.pieceSize ≤ isizeMax := by
    rw [henc.k_eq]
    exact h.buffer_le i hi
  have hdecode := decode_ofSegment pieces henc hcountPieces
    fun p hp => hpieces p (List.mem_of_mem_take hp)
  rw [usizeMul_withCapacity, if_pos hrank, if_pos hbuf] at hdecode
  simp [decodeSegment, hget, hmul, hadd, hstop, hsub, hk, hdecode]

/-- A map that gives for every encoded segment at least `k` pieces, derived from the encoder's
output for that segment, whose first `k` coefficient vectors are independent. -/
def Recoverable (content : List GF256) (config : ErasureConfig)
    (encoded : List (UInt32 × List CodedPiece)) (segments : UInt32 → Option (List CodedPiece)) :
    Prop :=
  ∀ entry ∈ encoded, ∃ pieces, segments entry.1 = some pieces ∧
    (∀ p ∈ pieces, Derived (segmentK content config entry.1.toNat) (· ∈ entry.2) p) ∧
    rowRank (segmentK content config entry.1.toNat)
      ((pieces.map CodedPiece.coefficients).take (segmentK content config entry.1.toNat)) =
        segmentK content config entry.1.toNat

theorem toNat_index (h : Encodable content config) {i : ℕ}
    (hi : i < segmentCount content config) : (UInt32.ofNat i).toNat = i := by
  have := h.count_lt
  rw [UInt32.toNat_ofNat']
  omega

/-- Looking up a segment index in a list of all segments in order. -/
theorem lookup_map_range (h : Encodable content config) {α : Type} {i : ℕ}
    (hi : i < segmentCount content config) (f : ℕ → α) :
    ((List.range (segmentCount content config)).map fun j => (UInt32.ofNat j, f j)).lookup
      (UInt32.ofNat i) = some (f i) := by
  have hinj : ∀ j < segmentCount content config, UInt32.ofNat j = UInt32.ofNat i → j = i := by
    intro j hj heq
    rw [← toNat_index h hj, heq, toNat_index h hi]
  have hgen : ∀ l : List ℕ, (∀ j ∈ l, j < segmentCount content config) → i ∈ l →
      (l.map fun j => (UInt32.ofNat j, f j)).lookup (UInt32.ofNat i) = some (f i) := by
    intro l hl hmem
    induction l with
    | nil => simp at hmem
    | cons j l ih =>
        by_cases hji : j = i
        · simp [hji]
        · have hne : ¬ UInt32.ofNat i = UInt32.ofNat j :=
            fun heq => hji (hinj j (hl j List.mem_cons_self) heq.symm)
          have hmem' : i ∈ l := by
            rcases List.mem_cons.1 hmem with heq | hmem
            · exact absurd heq.symm hji
            · exact hmem
          have hih := ih (fun j hj => hl j (List.mem_cons_of_mem _ hj)) hmem'
          have hbeq : (UInt32.ofNat i == UInt32.ofNat j) = false := by simpa using hne
          simp [List.lookup_cons, hbeq, hih]
  exact hgen _ (fun j hj => List.mem_range.1 hj) (List.mem_range.2 hi)

/-- The first `k` pieces that an encoder outputs are its source pieces. -/
theorem rowRank_encode (e : RlncEncoder) (n : ℕ) (draw : ℕ → ℕ → GF256) :
    rowRank e.k (((e.encode n draw).map CodedPiece.coefficients).take e.k) = e.k := by
  have hsource : e.sourcePieces.map CodedPiece.coefficients =
      (List.range e.k).map (unitRow e.k) := by
    apply List.ext_getElem
    · simp [RlncEncoder.sourcePieces, RlncEncoder.k]
    · intro i h h'
      simp [RlncEncoder.sourcePieces, unitRow]
  have hlen : (e.sourcePieces.map CodedPiece.coefficients).length = e.k := by
    rw [hsource, List.length_map, List.length_range]
  rw [RlncEncoder.encode, List.map_append, List.take_append_of_le_length hlen.ge,
    List.take_of_length_le hlen.le, hsource,
    rowRank_unitRows List.nodup_range fun c hc => List.mem_range.1 hc, List.length_range]

/-- Content round trip: encoding succeeds, and every map of enough pieces, recombined and repaired
to any depth, decodes to the content; so does the unmodified output of the encoder. -/
theorem decodeAndReassemble_segmentAndEncode (h : Encodable content config)
    (draw : ℕ → ℕ → ℕ → GF256) :
    ∃ encoded, segmentAndEncode content config draw = .ok (.ok encoded) ∧
      (∀ segments, Recoverable content config encoded segments →
        decodeAndReassemble segments (UInt32.ofNat (segmentCount content config)) config
          content.length = .ok (.ok content)) ∧
      decodeAndReassemble (fun i => encoded.lookup i)
        (UInt32.ofNat (segmentCount content config)) config content.length =
          .ok (.ok content) := by
  rcases segmentAndEncode_eq_ok h.fits draw with ⟨e, n, henc, hrun⟩
  have htotal : (UInt32.ofNat (segmentCount content config)).toNat =
      segmentCount content config := by
    have := h.count_lt
    rw [UInt32.toNat_ofNat']
    omega
  -- decoding needs of every segment that the first `k` pieces are independent pieces of it
  have hdecode : ∀ segments, (∀ i < segmentCount content config, ∃ pieces,
      segments (UInt32.ofNat i) = some pieces ∧
      (∀ p ∈ pieces, p.OfSegment (e i).pieces config.pieceSize) ∧
      rowRank (e i).k ((pieces.map CodedPiece.coefficients).take (e i).k) = (e i).k) →
      decodeAndReassemble segments (UInt32.ofNat (segmentCount content config)) config
        content.length = .ok (.ok content) := by
    intro segments hall
    have hsegments : (List.range (segmentCount content config)).mapM
        (decodeSegment segments config content.length) =
        .ok ((List.range (segmentCount content config)).map fun i =>
          .ok (UInt32.ofNat i, segmentBytes content config i)) := by
      refine Outcome.mapM_eq_ok fun i hi => ?_
      have hlt := List.mem_range.1 hi
      rcases hall i hlt with ⟨pieces, hget, hpieces, hrank⟩
      exact decodeSegment_eq_ok h hlt (henc i hlt) hget hpieces hrank
    have hcollect := List.collectResults_map_ok (ε := ErasureError)
      (fun i => (UInt32.ofNat i, segmentBytes content config i))
      (List.range (segmentCount content config))
    have hflat := flatten_segmentBytes h.fits
    simp [decodeAndReassemble, htotal, hsegments, withCapacity_eq_ok h.content_le, hcollect,
      Function.comp_def, hflat]
  have houtput : ∀ i < segmentCount content config, ∀ p ∈ (e i).encode (n i) (draw i),
      p.OfSegment (e i).pieces config.pieceSize :=
    fun i hi => RlncEncoder.ofSegment_encode (henc i hi) (n i) (draw i)
  refine ⟨_, hrun, ?_, ?_⟩
  · intro segments hrec
    apply hdecode
    intro i hi
    rcases hrec (UInt32.ofNat i, (e i).encode (n i) (draw i))
      (List.mem_map.2 ⟨i, List.mem_range.2 hi, rfl⟩) with ⟨pieces, hget, hder, hrank⟩
    have hk : segmentK content config i = (e i).k := (henc i hi).k_eq.symm
    simp only [toNat_index h hi, hk] at hder hrank
    exact ⟨pieces, hget, fun p hp => ofSegment_derived (houtput i hi) (hder p hp), hrank⟩
  · apply hdecode
    intro i hi
    refine ⟨(e i).encode (n i) (draw i), ?_, houtput i hi, rowRank_encode (e i) (n i) (draw i)⟩
    exact lookup_map_range h hi _

end Segments

/-- Three bytes in two segments, the second of them partial. -/
theorem round_trip_three_bytes :
    ∃ encoded, segmentAndEncode [⟨1⟩, ⟨2⟩, ⟨3⟩]
        { pieceSize := 1, segmentSize := 2, initialParity := 50 } (fun _ _ _ => ⟨5⟩) =
          .ok (.ok encoded) ∧
      decodeAndReassemble (fun i => encoded.lookup i) 2
        { pieceSize := 1, segmentSize := 2, initialParity := 50 } 3 =
          .ok (.ok [⟨1⟩, ⟨2⟩, ⟨3⟩]) := by
  have h : Encodable [⟨1⟩, ⟨2⟩, ⟨3⟩] { pieceSize := 1, segmentSize := 2, initialParity := 50 } :=
    { content_ne := by decide
      content_le := by decide
      pieceSize_pos := by decide
      segmentSize_pos := by decide
      count_lt := by decide
      buffer_le := by decide
      parity_lt := by decide }
  rcases decodeAndReassemble_segmentAndEncode h (fun _ _ _ => ⟨5⟩) with ⟨encoded, hrun, _, hout⟩
  exact ⟨encoded, hrun, hout⟩

/-- A piece size past the largest buffer: the encoder panics on a single byte of content. -/
theorem segmentAndEncode_capacity_overflow :
    let config : ErasureConfig := { pieceSize := 2 ^ 63, segmentSize := 1, initialParity := 0 }
    0 < config.pieceSize ∧ 0 < config.segmentSize ∧ segmentCount [⟨7⟩] config < 2 ^ 32 ∧
      (∀ i < segmentCount [⟨7⟩] config, segmentK [⟨7⟩] config i * config.initialParity < 2 ^ 64) ∧
      segmentAndEncode [⟨7⟩] config (fun _ _ _ => 0) = .panic .capacityOverflow := by
  decide +kernel

end Erasure
end CraftecCore
