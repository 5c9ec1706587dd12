import CraftecCore.Erasure.Independence

/-!
# Decoder — Gaussian elimination on coded pieces

The decoder keeps the first `k` pieces, reduces their coefficients to the identity and applies the
same row operations to their data, by table lookups.  Since a coded piece of a segment lies on the
graph of the segment's source map, the reduced pieces are the source pieces.
-/

namespace CraftecCore
namespace Erasure

open GF256 RowReduction RowVector

/-! ## The source functions -/

structure RlncDecoder where
  k : ℕ
  pieceSize : ℕ
  originalSize : ℕ

def RlncDecoder.new (k pieceSize originalSegmentSize : ℕ) : RlncDecoder :=
  { k := k
    pieceSize := pieceSize
    originalSize := originalSegmentSize }

/-- The row operations of the decoder, applied to both halves of a piece. -/
def decodeOps : RowOps GF256 CodedPiece where
  entry piece col := piece.coefficients.index col
  inv := GF256.inv
  scale v piece :=
    let invTable := mulTable v
    { data := piece.data.map (lookup invTable)
      coefficients := piece.coefficients.map (lookup invTable) }
  addMul factor piece pivot :=
    let factorTable := mulTable factor
    { data := zipMut (fun dv pv => dv ^^^ lookup factorTable pv) piece.data pivot.data
      coefficients :=
        zipMut (fun cv pv => cv ^^^ lookup factorTable pv) piece.coefficients pivot.coefficients }

/-- Elimination on square matrices: column `col` takes its pivot from row `col` on, and a column
without a pivot ends the loop. -/
def eliminateLoop : List ℕ → List CodedPiece →
    Outcome (Except ErasureError (List CodedPiece))
  | [], rows => pure (.ok rows)
  | col :: cols, rows => do
      match ← eliminateColumn decodeOps rows col col with
      | .noPivot => pure (.error .linearlyDependent)
      | .zeroPivot _ => pure (.error (.decodingFailed "zero pivot"))
      | .done rows => eliminateLoop cols rows

/-- Decode `k` linearly independent coded pieces back to the original segment data. -/
def RlncDecoder.decode (d : RlncDecoder) (pieces : List CodedPiece) :
    Outcome (Except ErasureError (List GF256)) :=
  if pieces.length < d.k then
    pure (.error (.insufficientPieces pieces.length d.k))
  else do
    -- only the first `k` pieces enter the matrix
    match ← eliminateLoop (List.range d.k) (pieces.take d.k) with
    | .error err => pure (.error err)
    | .ok rows => do
        let capacity ← usizeMul d.k d.pieceSize
        withCapacity capacity
        let result := (rows.map CodedPiece.data).flatten
        pure (.ok (result.take d.originalSize))

/-! ## The decoder's row operations -/

section Rows

variable {k pieceSize : ℕ}

def coefficientCoord (k pieceSize j : ℕ) :
    ((Fin k → GF256) × (Fin pieceSize → GF256)) →ₗ[GF256] GF256 :=
  (coordinate k j).comp (LinearMap.fst GF256 _ _)

def CodedPiece.Shaped (k pieceSize : ℕ) (p : CodedPiece) : Prop :=
  p.coefficients.length = k ∧ p.data.length = pieceSize

theorem decodeOps_faithful :
    Faithful decodeOps (CodedPiece.Shaped k pieceSize) (CodedPiece.toPair k pieceSize)
      (coefficientCoord k pieceSize) k where
  entry p hp c hc := by
    have hval : coefficientCoord k pieceSize c (p.toPair k pieceSize) = p.coefficients.getD c 0 :=
      coordinate_toVec hc p.coefficients
    rw [hval]
    exact List.index_eq_getD 0 (by simpa [hp.1] using hc)
  inv _ hx := inv_eq_some hx
  good_scale _ p hp := by simpa [CodedPiece.Shaped, decodeOps] using hp
  view_scale a p _ := by
    have htable : ∀ x : GF256, lookup (mulTable a) x = a * x := lookup_mulTable a
    simp [CodedPiece.toPair, decodeOps, toVec_map htable]
  good_addMul _ p _ hp _ := by simpa [CodedPiece.Shaped, decodeOps] using hp
  view_addMul a p q hp hq := by
    have htable : ∀ x y : GF256, x ^^^ lookup (mulTable a) y = x + a * y :=
      fun x y => by rw [lookup_mulTable, xor_eq]
    have hsub : p.toPair k pieceSize - a • q.toPair k pieceSize =
        p.toPair k pieceSize + a • q.toPair k pieceSize := by
      apply Prod.ext <;> funext j <;> exact sub_eq_add _ _
    rw [hsub]
    simp [CodedPiece.toPair, decodeOps, toVec_zipMut htable hp.1 hq.1,
      toVec_zipMut htable hp.2 hq.2]

/-! ## One run of the elimination -/

/-- The coefficient vectors of pieces span the first half of what the pieces span. -/
theorem rowSpan_coefficients {n : ℕ} {rows : List CodedPiece}
    {A : Fin n → (Fin k → GF256) × (Fin pieceSize → GF256)}
    (hrep : Represents (CodedPiece.Shaped k pieceSize) (CodedPiece.toPair k pieceSize) rows A) :
    rowSpan k (rows.map CodedPiece.coefficients) =
      (Submodule.span GF256 (Set.range A)).map (LinearMap.fst GF256 _ _) := by
  rw [Submodule.map_span, ← Set.range_comp]
  apply rowSpan_eq_range (by simpa using hrep.length)
  intro i h h'
  have hi : i < rows.length := by simpa using h
  have hview := congrArg Prod.fst (hrep.view i hi h')
  simpa [CodedPiece.toPair] using hview

/-- A column without a pivot: its unit vector is not reached. -/
theorem map_fst_span_ne_top {A : Fin k → (Fin k → GF256) × (Fin pieceSize → GF256)} {col : ℕ}
    (hred : Reduced (coefficientCoord k pieceSize) A col (List.range col)) (hcol : col < k)
    (hz : ∀ i : Fin k, col ≤ i.val → coefficientCoord k pieceSize col (A i) = 0) :
    (Submodule.span GF256 (Set.range A)).map (LinearMap.fst GF256 _ _) ≠ ⊤ := by
  intro htop
  have hmem : (Pi.single ⟨col, hcol⟩ 1 : Fin k → GF256) ∈
      (Submodule.span GF256 (Set.range A)).map (LinearMap.fst GF256 _ _) := by
    rw [htop]
    trivial
  rcases hmem with ⟨v, hv, hfst⟩
  have hcoord : ∀ j (hj : j < k), coefficientCoord k pieceSize j v =
      (Pi.single ⟨col, hcol⟩ 1 : Fin k → GF256) ⟨j, hj⟩ := by
    intro j hj
    rw [← hfst]
    exact coordinate_apply hj v.1
  -- a vector of the span that vanishes at the pivots vanishes in this column too
  have hskip := hred.skip (by simpa using hz)
  have hpivots : ∀ c ∈ List.range col, coefficientCoord k pieceSize c v = 0 := by
    intro c hc
    have hlt : c < col := List.mem_range.1 hc
    have hne : (⟨c, by omega⟩ : Fin k) ≠ ⟨col, hcol⟩ := by
      simp only [ne_eq, Fin.mk.injEq]
      omega
    rw [hcoord c (by omega), Pi.single_eq_of_ne hne]
  have hzero := hskip.coord_eq_zero hv hpivots col (Nat.lt_succ_self col)
  rw [hcoord col hcol, Pi.single_eq_same] at hzero
  exact one_ne_zero hzero

/-- Rows reduced in every column have unit vectors as coefficients. -/
theorem fst_eq_single {A : Fin k → (Fin k → GF256) × (Fin pieceSize → GF256)}
    (hred : Reduced (coefficientCoord k pieceSize) A k (List.range k)) (i : Fin k) :
    (A i).1 = Pi.single i 1 := by
  funext j
  have hij := hred.unit j.val (by simp) i
  rw [List.getElem_range] at hij
  have hval : coefficientCoord k pieceSize j (A i) = (A i).1 j := coordinate_apply j.isLt (A i).1
  rw [← hval, hij, Pi.single_apply]
  simp [Fin.ext_iff, eq_comm]

/-- The elimination either reduces the coefficients to the identity, or meets a column which the
span of the rows does not reach. -/
theorem eliminateLoop_spec :
    ∀ (todo col : ℕ) (rows : List CodedPiece)
      (A : Fin k → (Fin k → GF256) × (Fin pieceSize → GF256)), col + todo = k →
      Represents (CodedPiece.Shaped k pieceSize) (CodedPiece.toPair k pieceSize) rows A →
      Reduced (coefficientCoord k pieceSize) A col (List.range col) →
      (∃ (rows' : List CodedPiece) (A' : Fin k → (Fin k → GF256) × (Fin pieceSize → GF256)),
        eliminateLoop (List.range' col todo) rows = .ok (.ok rows') ∧
        Represents (CodedPiece.Shaped k pieceSize) (CodedPiece.toPair k pieceSize) rows' A' ∧
        Submodule.span GF256 (Set.range A') = Submodule.span GF256 (Set.range A) ∧
        Reduced (coefficientCoord k pieceSize) A' k (List.range k)) ∨
      (eliminateLoop (List.range' col todo) rows = .ok (.error .linearlyDependent) ∧
        (Submodule.span GF256 (Set.range A)).map (LinearMap.fst GF256 _ _) ≠ ⊤)
  | 0, col, rows, A, hk, hrep, hred => by
      have : col = k := by simpa using hk
      subst this
      exact Or.inl ⟨rows, A, by simp [eliminateLoop], hrep, rfl, hred⟩
  | todo + 1, col, rows, A, hk, hrep, hred => by
      -- the pivots found so far are exactly the columns below `col`
      have hcol : col < k := by omega
      rcases eliminateColumn_spec decodeOps_faithful hrep col hcol with
        ⟨hrun, hz⟩ | ⟨r, p, rows₁, hr, hrp, hne, hrun, hrep₁⟩
      · exact Or.inr ⟨by simp [List.range'_succ, eliminateLoop, hrun],
          map_fst_span_ne_top hred hcol hz⟩
      · have hred₁ := hred.pivot (by simpa using hr) hrp hne
        have hspan := span_pivotStep (r := r) hne
        rw [← List.range_succ] at hred₁
        have hnext : eliminateLoop (List.range' col (todo + 1)) rows =
            eliminateLoop (List.range' (col + 1) todo) rows₁ := by
          simp [List.range'_succ, eliminateLoop, hrun]
        rw [hnext, ← hspan]
        exact eliminateLoop_spec todo (col + 1) rows₁ _ (by omega) hrep₁ hred₁

/-- A row reduced to a unit vector is a source piece. -/
theorem data_eq_of_unit {sources : List (List GF256)} {p : CodedPiece} {i : ℕ}
    (hi : i < sources.length) (hlen : ∀ s ∈ sources, s.length = pieceSize)
    (hp : p.data.length = pieceSize)
    (hgraph : p.toPair sources.length pieceSize ∈ (sourceMap sources pieceSize).graph)
    (hunit : toVec sources.length p.coefficients = Pi.single ⟨i, hi⟩ 1) : p.data = sources[i] := by
  refine eq_of_toVec_eq hp (hlen _ (List.getElem_mem hi)) ?_
  have hdata : toVec pieceSize p.data =
      sourceMap sources pieceSize (toVec sources.length p.coefficients) :=
    (LinearMap.mem_graph_iff _ _).1 hgraph
  rw [hdata, hunit, sourceMap, Fintype.linearCombination_apply]
  simp [Pi.single_apply]

/-- Reducing `k` pieces of a segment gives its source pieces, or fails because the pieces are
dependent. -/
theorem eliminateLoop_ofSegment {sources : List (List GF256)}
    (hlen : ∀ s ∈ sources, s.length = pieceSize) {pieces : List CodedPiece}
    (hpieces : ∀ p ∈ pieces, p.OfSegment sources pieceSize)
    (hcount : pieces.length = sources.length) :
    (rowRank sources.length (pieces.map CodedPiece.coefficients) = sources.length ∧
      ∃ rows, eliminateLoop (List.range sources.length) pieces = .ok (.ok rows) ∧
        rows.map CodedPiece.data = sources) ∨
    (rowRank sources.length (pieces.map CodedPiece.coefficients) ≠ sources.length ∧
      eliminateLoop (List.range sources.length) pieces = .ok (.error .linearlyDependent)) := by
  have hshaped : ∀ p ∈ pieces, p.Shaped sources.length pieceSize :=
    fun p hp => ⟨(hpieces p hp).coefficients_length, (hpieces p hp).data_length⟩
  have hrep : Represents (CodedPiece.Shaped sources.length pieceSize)
      (CodedPiece.toPair sources.length pieceSize) pieces _ := represents_get hcount hshaped
  have hspan := rowSpan_coefficients hrep
  rw [ne_eq, rowRank_eq_iff, hspan, List.range_eq_range']
  rcases eliminateLoop_spec sources.length 0 pieces _ (Nat.zero_add _) hrep (Reduced.init _ _) with
    ⟨rows, A', hrun, hrep', hspan', hred⟩ | ⟨hrun, hne⟩
  · -- every row of the result is a unit vector, and still a piece of the segment
    have hunit := fst_eq_single hred
    have hgraph : Submodule.span GF256 (Set.range A') ≤ (sourceMap sources pieceSize).graph := by
      rw [hspan', Submodule.span_le]
      rintro _ ⟨i, rfl⟩
      exact (CodedPiece.ofSegment_iff.1 (hpieces _ (List.get_mem _ _))).2.2
    refine Or.inl ⟨?_, rows, hrun, ?_⟩
    · rw [← hspan', eq_top_iff, ← (Pi.basisFun GF256 (Fin sources.length)).span_eq,
        Submodule.span_le]
      rintro _ ⟨i, rfl⟩
      refine ⟨A' i, Submodule.subset_span (Set.mem_range_self i), ?_⟩
      simp [hunit i]
    · apply List.ext_getElem
      · simpa using hrep'.length
      · intro i h h'
        have hi : i < rows.length := by simpa using h
        have hview := hrep'.view i hi h'
        have hmem : rows[i].toPair sources.length pieceSize ∈
            (sourceMap sources pieceSize).graph := by
          rw [hview]
          exact hgraph (Submodule.subset_span (Set.mem_range_self _))
        have hcoeff : toVec sources.length rows[i].coefficients = Pi.single ⟨i, h'⟩ 1 := by
          rw [← hunit ⟨i, h'⟩, ← hview]
          rfl
        simpa using data_eq_of_unit h' hlen (hrep'.good _ (List.getElem_mem hi)).2 hmem hcoeff
  · exact Or.inr ⟨hne, hrun⟩

end Rows

/-! ## Decoding a segment -/

section Decode

variable {segment : List GF256} {pieceSize : ℕ} {e : RlncEncoder} {pieces : List CodedPiece}

/-- What decoding does on pieces of a segment: only the first `k` of them matter. -/
theorem decode_ofSegment (pieces : List CodedPiece) (henc : e.Encodes segment pieceSize)
    (hcount : e.k ≤ pieces.length)
    (hpieces : ∀ p ∈ pieces.take e.k, p.OfSegment e.pieces pieceSize) :
    (RlncDecoder.new e.k pieceSize segment.length).decode pieces =
      if rowRank e.k ((pieces.map CodedPiece.coefficients).take e.k) = e.k then do
        let capacity ← usizeMul e.k pieceSize
        withCapacity capacity
        pure (.ok segment)
      else
        pure (.error .linearlyDependent) := by
  have hk : ¬ pieces.length < e.k := by omega
  have htake : (pieces.take e.k).length = e.pieces.length := by
    rw [List.length_take, Nat.min_eq_left hcount]
    rfl
  rcases eliminateLoop_ofSegment (fun _ hs => henc.length_of_mem hs) hpieces htake with
    ⟨hrank, rows, hrun, hdata⟩ | ⟨hrank, hrun⟩
  · have hrun' : eliminateLoop (List.range e.k) (pieces.take e.k) = .ok (.ok rows) := hrun
    have hrank' : rowRank e.k ((pieces.map CodedPiece.coefficients).take e.k) = e.k := by
      rw [← List.map_take]
      exact hrank
    simp [RlncDecoder.decode, RlncDecoder.new, hk, hrun', hrank', hdata, henc.flatten_take]
  · have hrun' : eliminateLoop (List.range e.k) (pieces.take e.k) =
        .ok (.error .linearlyDependent) := hrun
    have hrank' : ¬ rowRank e.k ((pieces.map CodedPiece.coefficients).take e.k) = e.k := by
      rw [← List.map_take]
      exact hrank
    simp [RlncDecoder.decode, RlncDecoder.new, hk, hrun', hrank']

theorem decode_of_too_few (hcount : pieces.length < e.k) :
    (RlncDecoder.new e.k pieceSize segment.length).decode pieces =
      .ok (.error (.insufficientPieces pieces.length e.k)) := by
  simp [RlncDecoder.decode, RlncDecoder.new, hcount]

/-- The buffer of a segment's pieces fits whenever its capacity does. -/
theorem usizeMul_withCapacity {n size : ℕ} {α : Type} (f : Outcome α) :
    (do
      let capacity ← usizeMul n size
      withCapacity capacity
      f) =
      if n * size ≤ isizeMax then f else
        if n * size < 2 ^ 64 then .panic .capacityOverflow else .panic .overflow := by
  have hmax : isizeMax = 2 ^ 63 - 1 := rfl
  by_cases hcap : n * size ≤ isizeMax
  · have hlt : n * size < 2 ^ 64 := by omega
    simp [usizeMul_eq_ok hlt, withCapacity, hcap]
  · by_cases hlt : n * size < 2 ^ 64
    · simp only [usizeMul_eq_ok hlt, withCapacity, hcap, hlt, Outcome.ok_bind, if_false,
        Outcome.panic_bind, if_true]
    · simp only [usizeMul_eq_panic hlt, hcap, hlt, if_false, Outcome.panic_bind]

/-- Decoding returns the segment exactly when the first `k` pieces are independent and the output
buffer fits; pieces after the first `k` play no part. -/
theorem decode_eq_segment_iff (hnew : RlncEncoder.new segment pieceSize = .ok (.ok e))
    (hpieces : ∀ p ∈ pieces, p.OfSegment e.pieces pieceSize) :
    ((RlncDecoder.new e.k pieceSize segment.length).decode pieces = .ok (.ok segment) ↔
        checkIndependence ((pieces.map CodedPiece.coefficients).take e.k) = .ok e.k ∧
          e.k * pieceSize ≤ isizeMax) ∧
      ∀ extra, (RlncDecoder.new e.k pieceSize segment.length).decode pieces = .ok (.ok segment) →
        (RlncDecoder.new e.k pieceSize segment.length).decode (pieces ++ extra) =
          .ok (.ok segment) := by
  have henc := RlncEncoder.encodes_of_new hnew
  have hfirst : ∀ p ∈ pieces.take e.k, p.OfSegment e.pieces pieceSize :=
    fun p hp => hpieces p (List.mem_of_mem_take hp)
  have hindep : checkIndependence ((pieces.map CodedPiece.coefficients).take e.k) =
      .ok (rowRank e.k ((pieces.map CodedPiece.coefficients).take e.k)) := by
    apply checkIndependence_eq
    intro v hv
    rw [← List.map_take] at hv
    rcases List.mem_map.1 hv with ⟨p, hp, rfl⟩
    exact (hfirst p hp).coefficients_length
  by_cases hcount : pieces.length < e.k
  · -- fewer than `k` pieces have no rank `k`
    have hrank := rowRank_le_length (n := e.k)
      ((pieces.map CodedPiece.coefficients).take e.k)
    rw [List.length_take, List.length_map] at hrank
    have hne : ¬ rowRank e.k ((pieces.map CodedPiece.coefficients).take e.k) = e.k := by omega
    simp [decode_of_too_few hcount, hindep, hne]
  · have hle : e.k ≤ pieces.length := by omega
    have hrun := decode_ofSegment pieces henc hle hfirst
    have hsame : ∀ extra, (pieces ++ extra).take e.k = pieces.take e.k :=
      fun extra => List.take_append_of_le_length hle
    refine ⟨?_, ?_⟩
    · rw [hrun, usizeMul_withCapacity, hindep, Outcome.ok.injEq]
      split
      · rename_i hrank
        split
        · rename_i hcap
          simp [hrank, hcap]
        · rename_i hcap
          split <;> simp [hcap]
      · rename_i hrank
        simp [hrank]
    · intro extra hok
      have hrun' := decode_ofSegment (pieces ++ extra) henc
        (by rw [List.length_append]; omega) (by rw [hsame]; exact hfirst)
      rw [hrun', ← List.map_take, hsame, List.map_take, ← hrun, hok]

/-- The source pieces of a two-byte segment decode. -/
theorem decode_two_source_pieces :
    ∃ e : RlncEncoder, RlncEncoder.new [⟨7⟩, ⟨9⟩] 1 = .ok (.ok e) ∧
      (RlncDecoder.new e.k 1 2).decode e.sourcePieces = .ok (.ok [⟨7⟩, ⟨9⟩]) := by
  have hnew : RlncEncoder.new [⟨7⟩, ⟨9⟩] 1 = .ok (.ok ⟨[[⟨7⟩], [⟨9⟩]], 1⟩) := by decide +kernel
  have hsource := RlncEncoder.ofSegment_sourcePieces (RlncEncoder.encodes_of_new hnew)
  have hindep : checkIndependence
      (((⟨[[⟨7⟩], [⟨9⟩]], 1⟩ : RlncEncoder).sourcePieces.map CodedPiece.coefficients).take 2) =
        .ok 2 := by
    decide +kernel
  exact ⟨_, hnew, (decode_eq_segment_iff hnew hsource).1.2 ⟨hindep, by decide⟩⟩

/-- A repeated piece in front makes decoding fail although all pieces together span everything. -/
theorem decode_fails_on_repeated_piece :
    ∃ e : RlncEncoder, RlncEncoder.new [⟨7⟩, ⟨9⟩] 1 = .ok (.ok e) ∧
      ∃ pieces : List CodedPiece, (∀ p ∈ pieces, p.OfSegment e.pieces 1) ∧
        checkIndependence (pieces.map CodedPiece.coefficients) = .ok e.k ∧
        (RlncDecoder.new e.k 1 2).decode pieces = .ok (.error .linearlyDependent) := by
  have hnew : RlncEncoder.new [⟨7⟩, ⟨9⟩] 1 = .ok (.ok ⟨[[⟨7⟩], [⟨9⟩]], 1⟩) := by decide +kernel
  have hsource := RlncEncoder.ofSegment_sourcePieces (RlncEncoder.encodes_of_new hnew)
  let s0 : CodedPiece := { data := [⟨7⟩], coefficients := [1, 0] }
  let s1 : CodedPiece := { data := [⟨9⟩], coefficients := [0, 1] }
  refine ⟨_, hnew, [s0, s0, s1], ?_, by decide +kernel, by decide +kernel⟩
  intro p hp
  apply hsource p
  have hlist : (⟨[[⟨7⟩], [⟨9⟩]], 1⟩ : RlncEncoder).sourcePieces = [s0, s1] := by decide +kernel
  rw [hlist]
  simpa using hp

end Decode

end Erasure
end CraftecCore
