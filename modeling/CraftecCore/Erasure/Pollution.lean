import CraftecCore.Erasure.Exchange
import CraftecCore.Erasure.Kernel
import CraftecCore.Erasure.Travel

/-!
# Pollution — what verified pieces decode to

To be accepted against the hashes of a segment is a linear condition, so it holds of every piece as
long as what is received is verified, and decoding returns the front of source pieces that have the
hashes of the segment.  The hashes are linear, too: with more bytes than projections there are
always other pieces that have them.
-/

namespace CraftecCore
namespace Erasure

open GF256 RowReduction RowVector Transition

/-! ## Accepted pieces are a subspace -/

section Accepted

variable {n pieceSize : ℕ} {sources : List (List GF256)}

def projected (proj : Fin hashProjections → List GF256) (pieceSize : ℕ) :
    (Fin pieceSize → GF256) →ₗ[GF256] (Fin hashProjections → GF256) where
  toFun v i := dotProduct v (toVec pieceSize (proj i))
  map_add' v w := by
    funext i
    exact add_dotProduct v w _
  map_smul' a v := by
    funext i
    exact smul_dotProduct a v _

/-- The pieces whose data the projections do not tell from the combination of the source pieces
that their coefficients name. -/
def acceptedSpace (proj : Fin hashProjections → List GF256) (sources : List (List GF256))
    (pieceSize : ℕ) :
    Submodule GF256 ((Fin sources.length → GF256) × (Fin pieceSize → GF256)) where
  carrier := {v | projected proj pieceSize v.2 =
    projected proj pieceSize (sourceMap sources pieceSize v.1)}
  add_mem' := by
    rintro v w (hv : projected proj pieceSize v.2 = _) (hw : projected proj pieceSize w.2 = _)
    change projected proj pieceSize (v.2 + w.2) =
      projected proj pieceSize (sourceMap sources pieceSize (v.1 + w.1))
    rw [map_add, map_add, map_add, hv, hw]
  zero_mem' := by
    change projected proj pieceSize 0 = projected proj pieceSize (sourceMap sources pieceSize 0)
    rw [map_zero, map_zero, map_zero]
  smul_mem' := by
    rintro a v (hv : projected proj pieceSize v.2 = _)
    change projected proj pieceSize (a • v.2) =
      projected proj pieceSize (sourceMap sources pieceSize (a • v.1))
    rw [map_smul, map_smul, map_smul, hv]

theorem mem_acceptedSpace {proj : Fin hashProjections → List GF256}
    {v : (Fin sources.length → GF256) × (Fin pieceSize → GF256)} :
    v ∈ acceptedSpace proj sources pieceSize ↔
      projected proj pieceSize v.2 = projected proj pieceSize (sourceMap sources pieceSize v.1) :=
  Iff.rfl

def projectedHashes (seed : Bytes 32) (proj : Fin hashProjections → List GF256) (pieceSize : ℕ)
    (sources : List (List GF256)) : SegmentHashes :=
  { seed := seed
    pieceHashes := sources.map fun s => projected proj pieceSize (toVec pieceSize s) }

variable {blake3 : List UInt8 → Bytes 32} {seed : Bytes 32}
  {proj : Fin hashProjections → List GF256}

theorem generateSegmentHashes_sourcePieces (hproj : Projections blake3 seed pieceSize proj)
    {e : RlncEncoder} (hk : 0 < e.k) (hlen : ∀ s ∈ e.pieces, s.length = pieceSize) :
    generateSegmentHashes blake3 seed e.sourcePieces =
      .ok (projectedHashes seed proj pieceSize e.pieces) := by
  have hsources : e.sourcePieces.map CodedPiece.data = e.pieces := by
    simp [RlncEncoder.sourcePieces, RlncEncoder.k, Function.comp_def]
  have hcount : e.sourcePieces.length = e.k := by simp [RlncEncoder.sourcePieces, RlncEncoder.k]
  have hne : e.sourcePieces ≠ [] := List.length_pos_iff.1 (hcount ▸ hk)
  have hsize : ∀ p ∈ e.sourcePieces, p.data.length = pieceSize := by
    intro p hp
    refine hlen _ ?_
    rw [← hsources]
    exact List.mem_map_of_mem hp
  rw [generateSegmentHashes_eq_ok hproj hne hsize, projectedHashes, ← hsources, List.map_map]
  rfl

/-- A piece of the right length is accepted exactly when it lies in the subspace. -/
theorem verifyPiece_iff_mem (hproj : Projections blake3 seed pieceSize proj)
    (hne : sources ≠ []) {piece : CodedPiece} (hdata : piece.data.length = pieceSize) :
    verifyPiece blake3 piece (projectedHashes seed proj pieceSize sources) = .ok true ↔
      piece.coefficients.length = sources.length ∧
        piece.toPair sources.length pieceSize ∈ acceptedSpace proj sources pieceSize := by
  subst hdata
  have hk : sources.length ≠ 0 := by simpa using hne
  by_cases hcoeffs : piece.coefficients.length = sources.length
  · rcases verifyLoop_eq_ok blake3 piece (projectedHashes seed proj piece.data.length sources)
      hproj (List.finRange hashProjections) with ⟨b, hrun, hb⟩
    have hverify : verifyPiece blake3 piece
        (projectedHashes seed proj piece.data.length sources) = .ok b := by
      rw [← hrun]
      simp [verifyPiece, projectedHashes, hcoeffs, hk]
    -- the expected hash is the projection of the combination
    have hexpected : ∀ i, expectedHash piece.coefficients
        (projectedHashes seed proj piece.data.length sources).pieceHashes i =
        projected proj piece.data.length (sourceMap sources piece.data.length
          (toVec sources.length piece.coefficients)) i := by
      intro i
      rw [expectedHash_eq _ (by simpa [projectedHashes] using hcoeffs), sourceMap,
        Fintype.linearCombination_apply, map_sum, Finset.sum_apply]
      refine Fintype.sum_equiv (finCongr (by simp [projectedHashes])) _ _ ?_
      intro t
      have hhash : (projectedHashes seed proj piece.data.length sources).pieceHashes.get t =
          projected proj piece.data.length
            (toVec piece.data.length (sources.get (t.cast (by simp [projectedHashes])))) :=
        List.getElem_map _
      rw [hhash]
      simp [toVec_apply]
    have hmem : piece.toPair sources.length piece.data.length ∈
        acceptedSpace proj sources piece.data.length ↔ ∀ i,
          projected proj piece.data.length (toVec piece.data.length piece.data) i =
            projected proj piece.data.length (sourceMap sources piece.data.length
              (toVec sources.length piece.coefficients)) i := by
      rw [mem_acceptedSpace]
      exact funext_iff
    rw [hverify, hmem]
    simp only [hcoeffs, true_and, Outcome.ok.injEq, hb, List.mem_finRange, true_implies]
    exact forall_congr' fun i => by rw [hexpected i]; rfl
  · simp [verifyPiece, projectedHashes, hcoeffs]

end Accepted

/-! ## What accepted pieces decode to -/

/-- Source pieces of the number and size of an encoder's, with the same hashes. -/
structure SameHashes (blake3 : List UInt8 → Bytes 32) (seed : Bytes 32) (pieceSize : ℕ)
    (e : RlncEncoder) (sources : List (List GF256)) : Prop where
  count : sources.length = e.k
  size : ∀ s ∈ sources, s.length = pieceSize
  hashes : generateSegmentHashes blake3 seed
      (RlncEncoder.sourcePieces { pieces := sources, pieceSize := pieceSize }) =
    generateSegmentHashes blake3 seed e.sourcePieces

section Sources

variable {pieceSize : ℕ} {e : RlncEncoder}

theorem RlncEncoder.ofSegment_of_mem_sourcePieces (hlen : ∀ s ∈ e.pieces, s.length = pieceSize) :
    ∀ p ∈ e.sourcePieces, p.OfSegment e.pieces pieceSize := by
  intro p hp
  rcases List.mem_map.1 hp with ⟨i, _, rfl⟩
  refine ⟨by simp [RlncEncoder.k], hlen _ (List.get_mem e.pieces i), ?_⟩
  have hunit : toVec e.pieces.length ((List.replicate e.k (0 : GF256)).set i 1) =
      Pi.single i 1 := toVec_unit i.isLt
  simp only [hunit, Pi.single_apply, ite_smul, one_smul, zero_smul, Finset.sum_ite_eq',
    Finset.mem_univ, if_true]

/-- The source pieces of any encoder decode to the bytes they hold. -/
theorem decode_sourcePieces (hlen : ∀ s ∈ e.pieces, s.length = pieceSize)
    (hcap : e.k * pieceSize ≤ isizeMax) (originalSize : ℕ) :
    (RlncDecoder.new e.k pieceSize originalSize).decode e.sourcePieces =
      .ok (.ok (e.pieces.flatten.take originalSize)) := by
  have hcount : e.sourcePieces.length = e.pieces.length := by simp [RlncEncoder.sourcePieces]
  have hrank := coefficientsIndependent_iff.1 (coefficientsIndependent_sourcePieces e)
  rw [hcount] at hrank
  rcases eliminateLoop_ofSegment hlen (RlncEncoder.ofSegment_of_mem_sourcePieces hlen) hcount with
    ⟨-, rows, hrun, hdata⟩ | ⟨hdep, -⟩
  · have hrun' : eliminateLoop (List.range e.k) (e.sourcePieces.take e.k) = .ok (.ok rows) := by
      have hall : e.sourcePieces.take e.k = e.sourcePieces := List.take_of_length_le hcount.le
      rw [hall]
      exact hrun
    have henough : ¬ e.sourcePieces.length < e.k := by rw [hcount]; exact Nat.lt_irrefl _
    simp only [RlncDecoder.decode, RlncDecoder.new, henough, if_false, hrun', Outcome.ok_bind,
      hdata]
    rw [usizeMul_withCapacity, if_pos hcap]
    rfl
  · exact absurd hrank hdep

end Sources

section Bound

variable {blake3 : List UInt8 → Bytes 32} {seed : Bytes 32} {segment : List GF256}
  {pieceSize : ℕ} {e : RlncEncoder} {proj : Fin hashProjections → List GF256}
  {held : List CodedPiece}

/-- A piece of the segment is accepted. -/
theorem CodedPiece.OfSegment.within_acceptedSpace {sources : List (List GF256)} {p : CodedPiece}
    (h : p.OfSegment sources pieceSize) : p.Within (acceptedSpace proj sources pieceSize) := by
  rcases CodedPiece.ofSegment_iff.1 h with ⟨hcoeffs, hdata, hgraph⟩
  refine ⟨⟨hcoeffs, hdata⟩, ?_⟩
  rw [mem_acceptedSpace]
  exact congrArg (projected proj pieceSize) ((LinearMap.mem_graph_iff _ _).1 hgraph)

/-- In every run all pieces lie in the subspace of the accepted ones. -/
theorem within_of_run (henc : e.Encodes segment pieceSize)
    (hproj : Projections blake3 seed pieceSize proj)
    (hrun : Run (Published e)
      (PieceNext blake3 e.k (projectedHashes seed proj pieceSize e.pieces)) (WellSized pieceSize)
      held) :
    ∀ p ∈ held, p.Within (acceptedSpace proj e.pieces pieceSize) := by
  refine Run.invariant
    (I := fun held => ∀ p ∈ held, p.Within (acceptedSpace proj e.pieces pieceSize)) ?_ ?_ hrun
  · rintro _ ⟨n, draw, rfl⟩ p hp
    exact (RlncEncoder.ofSegment_encode henc n draw p hp).within_acceptedSpace
  · intro held event held' hheld hsized hnext
    refine hnext.within blake3 ?_ hheld
    rintro p rfl hverify
    have hne : e.pieces ≠ [] := List.length_pos_iff.1 henc.k_pos
    rcases (verifyPiece_iff_mem hproj hne hsized).1 hverify with ⟨hcoeffs, hmem⟩
    exact ⟨⟨hcoeffs, hsized⟩, hmem⟩

/-- Source pieces that lie in the subspace, each as the one its unit vector names, have the hashes
of the segment. -/
theorem sameHashes_of_mem (henc : e.Encodes segment pieceSize)
    (hproj : Projections blake3 seed pieceSize proj) {sources : List (List GF256)}
    (hcount : sources.length = e.pieces.length) (hsize : ∀ s ∈ sources, s.length = pieceSize)
    (hmem : ∀ (i : ℕ) (hi : i < e.pieces.length) (hi' : i < sources.length),
      ((Pi.single ⟨i, hi⟩ 1, toVec pieceSize sources[i]) :
        (Fin e.pieces.length → GF256) × (Fin pieceSize → GF256)) ∈
          acceptedSpace proj e.pieces pieceSize) :
    SameHashes blake3 seed pieceSize e sources := by
  refine ⟨hcount, hsize, ?_⟩
  have hpos : 0 < sources.length := by
    rw [hcount]
    exact henc.k_pos
  rw [generateSegmentHashes_sourcePieces hproj henc.k_pos fun _ hs => henc.length_of_mem hs,
    generateSegmentHashes_sourcePieces (e := { pieces := sources, pieceSize := pieceSize }) hproj
      hpos hsize]
  have hhashes : (sources.map fun s => projected proj pieceSize (toVec pieceSize s)) =
      e.pieces.map fun s => projected proj pieceSize (toVec pieceSize s) := by
    apply List.ext_getElem
    · simpa using hcount
    · intro i h h'
      have hi : i < e.pieces.length := by simpa using h'
      have heq := hmem i hi (by simpa using h)
      rw [mem_acceptedSpace] at heq
      have hsource : sourceMap e.pieces pieceSize (Pi.single ⟨i, hi⟩ 1) =
          toVec pieceSize e.pieces[i] := by
        rw [sourceMap, Fintype.linearCombination_apply]
        simp [Pi.single_apply]
      rw [List.getElem_map, List.getElem_map, ← hsource]
      exact heq
  simp only [projectedHashes, hhashes]

/-- Source pieces with the hashes of the segment are accepted. -/
theorem SameHashes.verifyPiece (henc : e.Encodes segment pieceSize)
    (hproj : Projections blake3 seed pieceSize proj) {sources : List (List GF256)}
    (h : SameHashes blake3 seed pieceSize e sources) {p : CodedPiece}
    (hp : p ∈ RlncEncoder.sourcePieces { pieces := sources, pieceSize := pieceSize }) :
    verifyPiece blake3 p (projectedHashes seed proj pieceSize e.pieces) = .ok true := by
  have hpos : 0 < sources.length := by
    rw [h.count]
    exact henc.k_pos
  have hhashes := h.hashes
  rw [generateSegmentHashes_sourcePieces hproj henc.k_pos fun _ hs => henc.length_of_mem hs,
    generateSegmentHashes_sourcePieces (e := { pieces := sources, pieceSize := pieceSize }) hproj
      hpos h.size] at hhashes
  have hof := RlncEncoder.ofSegment_of_mem_sourcePieces
    (e := { pieces := sources, pieceSize := pieceSize }) h.size p hp
  rw [← Outcome.ok.inj hhashes, verifyPiece_iff_mem hproj (List.length_pos_iff.1 hpos)
    hof.data_length]
  exact ⟨hof.coefficients_length, hof.within_acceptedSpace.mem⟩

/-- A node that holds everything it published receives a list of accepted pieces. -/
theorem exists_run_receiveAll {hashes : SegmentHashes} :
    ∀ {pieces : List CodedPiece},
      (∀ p ∈ pieces, verifyPiece blake3 p hashes = .ok true ∧ p.data.length = pieceSize) →
      ∃ held, Run (Published e) (PieceNext blake3 e.k hashes) (WellSized pieceSize) held ∧
        pieces ⊆ held
  | [], _ => ⟨_, Run.start ⟨0, fun _ _ => 0, rfl⟩, List.nil_subset _⟩
  | p :: pieces, hpieces => by
      rcases exists_run_receiveAll fun q hq => hpieces q (List.mem_cons_of_mem p hq) with
        ⟨held, hrun, hsub⟩
      have hp := hpieces p List.mem_cons_self
      exact ⟨p :: held, hrun.step (e := PieceEvent.receive p) hp.2 (PieceNext.receive hp.1),
        List.cons_subset_cons p hsub⟩

/-- Forged source pieces with the right hashes are accepted, and decoded. -/
theorem SameHashes.exists_run_decode (henc : e.Encodes segment pieceSize)
    (hproj : Projections blake3 seed pieceSize proj) (hcap : e.k * pieceSize ≤ isizeMax)
    {sources : List (List GF256)} (h : SameHashes blake3 seed pieceSize e sources) :
    ∃ held, Run (Published e)
        (PieceNext blake3 e.k (projectedHashes seed proj pieceSize e.pieces))
        (WellSized pieceSize) held ∧
      ∃ pieces ⊆ held, (RlncDecoder.new e.k pieceSize segment.length).decode pieces =
        .ok (.ok (sources.flatten.take segment.length)) := by
  have hsourceSize : ∀ p ∈ RlncEncoder.sourcePieces { pieces := sources, pieceSize := pieceSize },
      p.data.length = pieceSize := fun p hp =>
    (RlncEncoder.ofSegment_of_mem_sourcePieces
      (e := { pieces := sources, pieceSize := pieceSize }) h.size p hp).data_length
  rcases exists_run_receiveAll (e := e) (fun p hp =>
    ⟨h.verifyPiece henc hproj hp, hsourceSize p hp⟩) with ⟨held, hrun, hsub⟩
  have hk : RlncEncoder.k { pieces := sources, pieceSize := pieceSize } = e.k := h.count
  have hdecode := decode_sourcePieces (e := { pieces := sources, pieceSize := pieceSize })
    h.size (hk ▸ hcap) segment.length
  rw [hk] at hdecode
  exact ⟨held, hrun, _, hsub, hdecode⟩

end Bound

/-- Pieces that are verified before they are kept, in every run: all pieces are accepted, whatever
was recombined or repaired from received ones; what is decoded from any of them is the front of
source pieces with the hashes of the segment; and it is the segment in every run if and only if all
source pieces with these hashes begin with the segment. -/
theorem pollution_detected_iff (blake3 : List UInt8 → Bytes 32) {segment : List GF256}
    {pieceSize : ℕ} {e : RlncEncoder} (hnew : RlncEncoder.new segment pieceSize = .ok (.ok e))
    (hcap : e.k * pieceSize ≤ isizeMax) (seed : Bytes 32) :
    ∃ hashes, generateSegmentHashes blake3 seed e.sourcePieces = .ok hashes ∧
      (∀ held, Run (Published e) (PieceNext blake3 e.k hashes) (WellSized pieceSize) held →
        (∀ p ∈ held, verifyPiece blake3 p hashes = .ok true) ∧
        ∀ pieces ⊆ held, ∀ bytes,
          (RlncDecoder.new e.k pieceSize segment.length).decode pieces = .ok (.ok bytes) →
            ∃ sources, SameHashes blake3 seed pieceSize e sources ∧
              bytes = sources.flatten.take segment.length) ∧
      ((∀ held, Run (Published e) (PieceNext blake3 e.k hashes) (WellSized pieceSize) held →
        ∀ pieces ⊆ held, ∀ bytes,
          (RlncDecoder.new e.k pieceSize segment.length).decode pieces = .ok (.ok bytes) →
            bytes = segment) ↔
        ∀ sources, SameHashes blake3 seed pieceSize e sources →
          sources.flatten.take segment.length = segment) := by
  have henc := RlncEncoder.encodes_of_new hnew
  have hne : e.pieces ≠ [] := List.length_pos_iff.1 henc.k_pos
  rcases exists_projections blake3 seed pieceSize with ⟨proj, hproj⟩
  refine ⟨_, generateSegmentHashes_sourcePieces hproj henc.k_pos
    fun _ hs => henc.length_of_mem hs, ?_⟩
  have hdecoded : ∀ held, Run (Published e)
      (PieceNext blake3 e.k (projectedHashes seed proj pieceSize e.pieces)) (WellSized pieceSize)
      held → ∀ pieces ⊆ held, ∀ bytes,
        (RlncDecoder.new e.k pieceSize segment.length).decode pieces = .ok (.ok bytes) →
          ∃ sources, SameHashes blake3 seed pieceSize e sources ∧
            bytes = sources.flatten.take segment.length := by
    intro held hrun pieces hsub bytes hdecode
    have hwithin := within_of_run henc hproj hrun
    rcases decode_within (fun p hp => hwithin p (hsub hp)) hdecode with
      ⟨sources, hcount, hsize, hbytes, hmem⟩
    exact ⟨sources, sameHashes_of_mem henc hproj hcount hsize hmem, hbytes⟩
  refine ⟨?_, ?_, ?_⟩
  · intro held hrun
    refine ⟨?_, hdecoded held hrun⟩
    intro p hp
    have hwithin := within_of_run henc hproj hrun p hp
    exact (verifyPiece_iff_mem hproj hne hwithin.shaped.2).2 ⟨hwithin.shaped.1, hwithin.mem⟩
  · intro hsegment sources hsame
    rcases hsame.exists_run_decode henc hproj hcap with ⟨held, hrun, pieces, hsub, hdecode⟩
    exact hsegment held hrun pieces hsub _ hdecode
  · intro hall held hrun pieces hsub bytes hdecode
    rcases hdecoded held hrun pieces hsub bytes hdecode with ⟨sources, hsame, rfl⟩
    exact hall sources hsame

/-- A segment of three bytes in two pieces. -/
theorem pollution_detected_iff_three_bytes :
    ∃ e hashes, RlncEncoder.new [⟨1⟩, ⟨2⟩, ⟨3⟩] 2 = .ok (.ok e) ∧
      generateSegmentHashes sampleDigest (Bytes.zero 32) e.sourcePieces = .ok hashes ∧
      ∀ held, Run (Published e) (PieceNext sampleDigest e.k hashes) (WellSized 2) held →
        ∀ p ∈ held, verifyPiece sampleDigest p hashes = .ok true := by
  have hnew : RlncEncoder.new [⟨1⟩, ⟨2⟩, ⟨3⟩] 2 = .ok (.ok ⟨[[⟨1⟩, ⟨2⟩], [⟨3⟩, ⟨0⟩]], 2⟩) := by
    decide +kernel
  rcases pollution_detected_iff sampleDigest hnew (by decide) (Bytes.zero 32) with
    ⟨hashes, hhashes, hrun, -⟩
  exact ⟨_, hashes, hnew, hhashes, fun held hheld => (hrun held hheld).1⟩

/-! ## Forgeries exist -/

section Forged

variable {pieceSize : ℕ}

/-- A vector at the front of a piece, with zeros behind it. -/
def frontOf (n pieceSize : ℕ) : (Fin n → GF256) →ₗ[GF256] (Fin pieceSize → GF256) where
  toFun v j := if h : j.val < n then v ⟨j, h⟩ else 0
  map_add' v w := by
    funext j
    by_cases h : j.val < n <;> simp [h]
  map_smul' a v := by
    funext j
    by_cases h : j.val < n <;> simp [h]

/-- Sixteen projections cannot tell apart all changes of seventeen bytes. -/
theorem exists_unseen (proj : Fin hashProjections → List GF256) (pieceSize : ℕ) :
    ∃ v : Fin (hashProjections + 1) → GF256, v ≠ 0 ∧
      projected proj pieceSize (frontOf (hashProjections + 1) pieceSize v) = 0 := by
  have hker : LinearMap.ker ((projected proj pieceSize).comp
      (frontOf (hashProjections + 1) pieceSize)) ≠ ⊥ := by
    apply LinearMap.ker_ne_bot_of_finrank_lt
    simp
  rcases Submodule.exists_mem_ne_zero_of_ne_bot hker with ⟨v, hv, hne⟩
  exact ⟨v, hne, hv⟩

/-- The source pieces with a change at the front of the first one. -/
theorem exists_sameHashes {blake3 : List UInt8 → Bytes 32} {seed : Bytes 32}
    {segment : List GF256} {e : RlncEncoder} {proj : Fin hashProjections → List GF256}
    (henc : e.Encodes segment pieceSize) (hproj : Projections blake3 seed pieceSize proj)
    (hsize : hashProjections < pieceSize) (hlen : hashProjections < segment.length) :
    ∃ sources, SameHashes blake3 seed pieceSize e sources ∧
      sources.flatten.take segment.length ≠ segment := by
  rcases exists_unseen proj pieceSize with ⟨v, hv, hunseen⟩
  rcases List.exists_cons_of_ne_nil (List.length_pos_iff.1 henc.k_pos) with ⟨first, rest, hpieces⟩
  have hsizes : ∀ s ∈ first :: rest, s.length = pieceSize :=
    fun s hs => henc.length_of_mem (hpieces ▸ hs)
  have hfirst := hsizes first List.mem_cons_self
  let change := frontOf (hashProjections + 1) pieceSize v
  let forged := List.ofFn fun j : Fin pieceSize => toVec pieceSize first j + change j
  have hforged : toVec pieceSize forged = toVec pieceSize first + change := by
    funext j
    simp [forged, toVec_apply]
  refine ⟨forged :: rest, ?_, ?_⟩
  · refine { count := ?_, size := ?_, hashes := ?_ }
    · rw [RlncEncoder.k, hpieces]
      rfl
    · intro s hs
      rcases List.mem_cons.1 hs with rfl | hs
      · simp [forged]
      · exact hsizes s (List.mem_cons_of_mem _ hs)
    · rw [generateSegmentHashes_sourcePieces hproj henc.k_pos
          fun _ hs => henc.length_of_mem hs,
        generateSegmentHashes_sourcePieces
          (e := { pieces := forged :: rest, pieceSize := pieceSize }) hproj (Nat.succ_pos _) ?_]
      · simp [projectedHashes, hpieces, hforged, hunseen, change]
      · intro s hs
        rcases List.mem_cons.1 hs with rfl | hs
        · simp [forged]
        · exact hsizes s (List.mem_cons_of_mem _ hs)
  · intro heq
    rcases Function.ne_iff.1 hv with ⟨j, hj⟩
    have hjsize : j.val < pieceSize := by omega
    have hjlen : j.val < segment.length := by omega
    -- the two pieces differ in byte `j`
    have hsegment := henc.flatten_take
    rw [hpieces] at hsegment
    have hbyte := congrArg (fun bytes => bytes[j.val]?) (heq.trans hsegment.symm)
    simp only [List.flatten_cons, List.getElem?_take, hjlen, if_true] at hbyte
    rw [List.getElem?_append_left (by simpa [forged] using hjsize),
      List.getElem?_append_left (hfirst.symm ▸ hjsize)] at hbyte
    have hchanged : forged[j.val]? = some (first.getD j.val 0 + v j) := by
      have hfront : change ⟨j.val, hjsize⟩ = v j := dif_pos j.isLt
      simp [forged, hjsize, hfront, toVec_apply]
    have hsame : first[j.val]? = some (first.getD j.val 0) := by
      rw [List.getD_eq_getElem?_getD, List.getElem?_eq_getElem (hfirst.symm ▸ hjsize)]
      rfl
    rw [hchanged, hsame] at hbyte
    exact hj (add_eq_left.1 (Option.some.inj hbyte))

end Forged

/-- For every seed, a segment and pieces of more than sixteen bytes can be forged: there is a run in
which every piece that is received is verified and of the right length, and pieces that are held
decode to other bytes than the segment. -/
theorem verified_pieces_decode_to_forgery (blake3 : List UInt8 → Bytes 32) {segment : List GF256}
    {pieceSize : ℕ} {e : RlncEncoder} (hnew : RlncEncoder.new segment pieceSize = .ok (.ok e))
    (hcap : e.k * pieceSize ≤ isizeMax) (hsize : hashProjections < pieceSize)
    (hlen : hashProjections < segment.length) (seed : Bytes 32) :
    ∃ hashes, generateSegmentHashes blake3 seed e.sourcePieces = .ok hashes ∧
      ∃ held, Run (Published e) (PieceNext blake3 e.k hashes) (WellSized pieceSize) held ∧
        ∃ pieces ⊆ held, ∃ bytes,
          (RlncDecoder.new e.k pieceSize segment.length).decode pieces = .ok (.ok bytes) ∧
            bytes ≠ segment := by
  have henc := RlncEncoder.encodes_of_new hnew
  rcases exists_projections blake3 seed pieceSize with ⟨proj, hproj⟩
  rcases exists_sameHashes henc hproj hsize hlen with ⟨sources, hsame, hne⟩
  rcases hsame.exists_run_decode henc hproj hcap with ⟨held, hrun, pieces, hsub, hdecode⟩
  exact ⟨_, generateSegmentHashes_sourcePieces hproj henc.k_pos
    fun _ hs => henc.length_of_mem hs, held, hrun, pieces, hsub, _, hdecode, hne⟩

/-- Seventeen bytes in one piece. -/
theorem verified_pieces_decode_to_forgery_seventeen :
    ∃ e hashes, RlncEncoder.new (List.replicate 17 ⟨1⟩) 17 = .ok (.ok e) ∧
      generateSegmentHashes sampleDigest (Bytes.zero 32) e.sourcePieces = .ok hashes ∧
      ∃ held, Run (Published e) (PieceNext sampleDigest e.k hashes) (WellSized 17) held ∧
        ∃ pieces ⊆ held, ∃ bytes,
          (RlncDecoder.new e.k 17 17).decode pieces = .ok (.ok bytes) ∧
            bytes ≠ List.replicate 17 ⟨1⟩ := by
  have hnew : RlncEncoder.new (List.replicate 17 ⟨1⟩) 17 =
      .ok (.ok ⟨[List.replicate 17 ⟨1⟩], 17⟩) := by
    decide +kernel
  rcases verified_pieces_decode_to_forgery sampleDigest hnew (by decide) (by decide) (by decide)
    (Bytes.zero 32) with ⟨hashes, hhashes, hforged⟩
  exact ⟨_, hashes, hnew, hhashes, hforged⟩

end Erasure
end CraftecCore
