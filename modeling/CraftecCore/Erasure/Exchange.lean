import CraftecCore.Erasure.Segmenter
import CraftecCore.Library.RowExchange

/-!
# Exchange — which pieces decode, and which may replace them

`check_independence` is the dimension of what the vectors span, and `k` pieces of a segment decode
exactly when their coefficient vectors are independent.  A recombination of some of them, whose
scalars are never zero, may stand in for any one of those.
-/

namespace CraftecCore
namespace Erasure

open GF256 RowReduction RowVector

/-! ## The rank -/

/-- The number that `check_independence` returns is the dimension of the span, so it depends on the
vectors and not on their order, and one more vector raises it by one or not at all. -/
theorem checkIndependence_rank {k : ℕ} (vectors : List (List GF256))
    (hlen : ∀ v ∈ vectors, v.length = k) :
    checkIndependence vectors =
      .ok (Module.finrank GF256 (Submodule.span GF256 {v | ∃ row ∈ vectors, toVec k row = v})) ∧
    (∀ vectors', vectors.Perm vectors' →
      checkIndependence vectors' = checkIndependence vectors) ∧
    ∀ v : List GF256, v.length = k → ∃ rank, checkIndependence vectors = .ok rank ∧
      (checkIndependence (vectors ++ [v]) = .ok rank ∨
        checkIndependence (vectors ++ [v]) = .ok (rank + 1)) := by
  have hrank := checkIndependence_eq hlen
  refine ⟨hrank, ?_, ?_⟩
  · intro vectors' hperm
    have hlen' : ∀ v ∈ vectors', v.length = k := fun v hv => hlen v (hperm.mem_iff.2 hv)
    rw [checkIndependence_eq hlen', hrank, rowRank_congr_perm hperm]
  · intro v hv
    have hlen' : ∀ v' ∈ vectors ++ [v], v'.length = k := by
      intro v' hv'
      rcases List.mem_append.1 hv' with hmem | hmem
      · exact hlen v' hmem
      · rw [List.mem_singleton.1 hmem, hv]
    refine ⟨_, hrank, ?_⟩
    rw [checkIndependence_eq hlen']
    rcases rowRank_append_singleton (n := k) vectors v with h | h
    · exact Or.inl (congrArg _ h)
    · exact Or.inr (congrArg _ h)

/-- A zero vector, a repeated one and two more. -/
theorem checkIndependence_rank_four :
    ∃ rank, checkIndependence [[0, 0], [1, ⟨2⟩], [1, ⟨2⟩]] = .ok rank ∧
      (checkIndependence ([[0, 0], [1, ⟨2⟩], [1, ⟨2⟩]] ++ [[0, 1]]) = .ok rank ∨
        checkIndependence ([[0, 0], [1, ⟨2⟩], [1, ⟨2⟩]] ++ [[0, 1]]) = .ok (rank + 1)) :=
  (checkIndependence_rank (k := 2) [[0, 0], [1, ⟨2⟩], [1, ⟨2⟩]] (by simp)).2.2 [0, 1] rfl

/-! ## Decoding -/

def CoefficientsIndependent (k : ℕ) (pieces : List CodedPiece) : Prop :=
  RowsIndependent k (pieces.map CodedPiece.coefficients)

theorem coefficientsIndependent_iff {k : ℕ} {pieces : List CodedPiece} :
    CoefficientsIndependent k pieces ↔
      rowRank k (pieces.map CodedPiece.coefficients) = pieces.length := by
  rw [CoefficientsIndependent, rowsIndependent_iff, List.length_map]

section Decode

variable {segment : List GF256} {pieceSize : ℕ} {e : RlncEncoder} {pieces : List CodedPiece}

open Classical in
/-- What decoding does on `k` pieces of a segment. -/
theorem decode_eq_ite (henc : e.Encodes segment pieceSize) (hcount : pieces.length = e.k)
    (hpieces : ∀ p ∈ pieces, p.OfSegment e.pieces pieceSize) :
    (RlncDecoder.new e.k pieceSize segment.length).decode pieces =
      if CoefficientsIndependent e.k pieces then
        if e.k * pieceSize ≤ isizeMax then .ok (.ok segment) else
          if e.k * pieceSize < 2 ^ 64 then .panic .capacityOverflow else .panic .overflow
      else
        .ok (.error .linearlyDependent) := by
  have hall : (pieces.map CodedPiece.coefficients).take e.k =
      pieces.map CodedPiece.coefficients :=
    List.take_of_length_le (by rw [List.length_map, hcount])
  have hrun := decode_ofSegment pieces henc hcount.ge fun p hp =>
    hpieces p (List.mem_of_mem_take hp)
  rw [hrun, usizeMul_withCapacity, hall]
  by_cases hrank : rowRank e.k (pieces.map CodedPiece.coefficients) = e.k
  · have hindep := coefficientsIndependent_iff.2 (hrank.trans hcount.symm)
    rw [if_pos hrank, if_pos hindep]
    rfl
  · have hdep : ¬ CoefficientsIndependent e.k pieces := fun hindep =>
      hrank ((coefficientsIndependent_iff.1 hindep).trans hcount)
    rw [if_neg hrank, if_neg hdep]
    rfl

/-- Decoding `k` pieces returns the segment when they are independent, given that its buffer can be
allocated, and an error when they are not; the error is never that of a zero pivot. -/
theorem decode_exact (hnew : RlncEncoder.new segment pieceSize = .ok (.ok e))
    (hcount : pieces.length = e.k) (hpieces : ∀ p ∈ pieces, p.OfSegment e.pieces pieceSize) :
    (CoefficientsIndependent e.k pieces → e.k * pieceSize ≤ isizeMax →
      (RlncDecoder.new e.k pieceSize segment.length).decode pieces = .ok (.ok segment)) ∧
    (¬ CoefficientsIndependent e.k pieces →
      (RlncDecoder.new e.k pieceSize segment.length).decode pieces =
        .ok (.error .linearlyDependent)) ∧
    ∀ msg, (RlncDecoder.new e.k pieceSize segment.length).decode pieces ≠
      .ok (.error (.decodingFailed msg)) := by
  rw [decode_eq_ite (RlncEncoder.encodes_of_new hnew) hcount hpieces]
  refine ⟨?_, ?_, ?_⟩
  · intro hindep hcap
    rw [if_pos hindep, if_pos hcap]
  · intro hdep
    rw [if_neg hdep]
  · intro msg
    split
    · split
      · simp
      · split <;> simp
    · simp

/-- Independent pieces are decoded where their buffer fits, and nowhere else. -/
theorem decode_eq_ok_iff (henc : e.Encodes segment pieceSize) (hcount : pieces.length = e.k)
    (hpieces : ∀ p ∈ pieces, p.OfSegment e.pieces pieceSize) :
    (RlncDecoder.new e.k pieceSize segment.length).decode pieces = .ok (.ok segment) ↔
      CoefficientsIndependent e.k pieces ∧ e.k * pieceSize ≤ isizeMax := by
  rw [decode_eq_ite henc hcount hpieces]
  by_cases hindep : CoefficientsIndependent e.k pieces
  · by_cases hcap : e.k * pieceSize ≤ isizeMax
    · simp [hindep, hcap]
    · rw [if_pos hindep, if_neg hcap]
      split <;> simp [hcap]
  · simp [hindep]

/-- The source pieces of a segment are independent. -/
theorem coefficientsIndependent_sourcePieces (e : RlncEncoder) :
    CoefficientsIndependent e.k e.sourcePieces := by
  have hlen : e.sourcePieces.length = e.k := by simp [RlncEncoder.sourcePieces, RlncEncoder.k]
  have hrank := rowRank_encode e 0 fun _ _ => 0
  rw [coefficientsIndependent_iff, hlen]
  simpa [RlncEncoder.encode, RlncEncoder.generateCodedPieces, List.take_of_length_le, hlen]
    using hrank

/-- Two source pieces decode, and one of them twice does not. -/
theorem decode_exact_two_bytes :
    ∃ e : RlncEncoder, RlncEncoder.new [⟨7⟩, ⟨9⟩] 1 = .ok (.ok e) ∧
      (RlncDecoder.new e.k 1 2).decode e.sourcePieces = .ok (.ok [⟨7⟩, ⟨9⟩]) ∧
      ∀ p ∈ e.sourcePieces, (RlncDecoder.new e.k 1 2).decode [p, p] =
        .ok (.error .linearlyDependent) := by
  have hnew : RlncEncoder.new [⟨7⟩, ⟨9⟩] 1 = .ok (.ok ⟨[[⟨7⟩], [⟨9⟩]], 1⟩) := by decide +kernel
  have hsource := RlncEncoder.ofSegment_sourcePieces (RlncEncoder.encodes_of_new hnew)
  refine ⟨_, hnew, ?_, ?_⟩
  · exact (decode_exact hnew rfl hsource).1 (coefficientsIndependent_sourcePieces _) (by decide)
  · intro p hp
    have htwice : ∀ q ∈ [p, p], q.OfSegment [[⟨7⟩], [⟨9⟩]] 1 := by
      intro q hq
      have hqp : q = p := by simpa using hq
      exact hqp ▸ hsource p hp
    refine (decode_exact hnew rfl htwice).2.1 fun hindep => ?_
    -- equal rows are not independent
    have heq : (0 : Fin 2) = 1 := hindep.injective rfl
    exact absurd heq (by decide)

/-- Two pieces of `2 ^ 62` bytes: each fits a buffer, and both together do not. -/
theorem decode_capacity_overflow :
    ∃ e : RlncEncoder,
      RlncEncoder.new (List.replicate (2 ^ 62 + 1) 0) (2 ^ 62) = .ok (.ok e) ∧
      e.sourcePieces.length = e.k ∧ (∀ p ∈ e.sourcePieces, p.OfSegment e.pieces (2 ^ 62)) ∧
      CoefficientsIndependent e.k e.sourcePieces ∧
      (RlncDecoder.new e.k (2 ^ 62) (2 ^ 62 + 1)).decode e.sourcePieces =
        .panic .capacityOverflow := by
  have hmax : isizeMax = 2 ^ 63 - 1 := rfl
  have hlen : (List.replicate (2 ^ 62 + 1) (0 : GF256)).length = 2 ^ 62 + 1 :=
    List.length_replicate
  have hne : List.replicate (2 ^ 62 + 1) (0 : GF256) ≠ [] := by
    rw [ne_eq, ← List.length_eq_zero_iff, hlen]
    omega
  rcases RlncEncoder.new_eq_ok hne (by omega) (Nat.two_pow_pos 62) (by omega) with
    ⟨e, hnew, henc⟩
  have hk : e.k = 2 := by
    rw [henc.k_eq, hlen, Nat.ceilDiv_eq_add_pred_div]
    decide
  have hcount : e.sourcePieces.length = e.k := by simp [RlncEncoder.sourcePieces, RlncEncoder.k]
  have hindep := coefficientsIndependent_sourcePieces e
  have hsource := RlncEncoder.ofSegment_sourcePieces henc
  refine ⟨e, hnew, hcount, hsource, hindep, ?_⟩
  have hrun := decode_eq_ite henc hcount hsource
  rw [if_pos hindep, if_neg (by omega), if_pos (by omega), hlen] at hrun
  exact hrun

end Decode

/-! ## Exchanging a piece -/

section Exchange

variable {k pieceSize : ℕ} {pieces : List CodedPiece}

/-- Recombination succeeds on two pieces or more; its coefficients combine all of theirs. -/
theorem exists_createPieceFromExisting (htwo : 2 ≤ pieces.length)
    (hshaped : ∀ p ∈ pieces, p.Shaped k pieceSize) (alpha : ℕ → {a : GF256 // a ≠ 0}) :
    ∃ p, createPieceFromExisting pieces alpha = .ok p ∧ p.Shaped k pieceSize ∧
      toVec k p.coefficients =
        ∑ t : Fin pieces.length, (alpha t).val • toVec k (pieces.get t).coefficients := by
  match pieces, htwo, hshaped with
  | first :: second :: rest, _, hshaped =>
      have hfirst := hshaped first List.mem_cons_self
      have hlen : ((List.range (first :: second :: rest).length).map fun i =>
          (alpha i).val).length = (first :: second :: rest).length := by simp
      have hzip : ∀ pa ∈ (first :: second :: rest).zip
          ((List.range (first :: second :: rest).length).map fun i => (alpha i).val),
          pa.1.coefficients.length = k ∧ pa.1.data.length = pieceSize :=
        fun pa hpa => hshaped pa.1 (List.of_mem_zip hpa).1
      -- the loop skips nothing
      let step : CodedPiece → CodedPiece × GF256 → CodedPiece := fun acc pa => acc.mulAdd pa.1 pa.2
      have hstep : ∀ acc piece a,
          step acc (piece, a) = acc.mulAdd piece a ∨ a = 0 ∧ step acc (piece, a) = acc :=
        fun _ _ _ => Or.inl rfl
      rcases CodedPiece.toPair_foldl hstep hzip with ⟨hshape, hview⟩
      refine ⟨_, ?_, hshape, ?_⟩
      · rw [createPieceFromExisting, hfirst.1, hfirst.2]
      · rw [sum_map_zip rfl hlen] at hview
        have hcoeff := congrArg Prod.fst hview
        simpa [CodedPiece.toPair, Prod.fst_sum] using hcoeff

/-- A piece that is used in a recombination can be exchanged for its outcome. -/
theorem CoefficientsIndependent.set (h : CoefficientsIndependent k pieces) {m : ℕ}
    {used : Fin m → Fin pieces.length} (hused : Function.Injective used)
    {alpha : ℕ → {a : GF256 // a ≠ 0}} {p : CodedPiece}
    (hp : toVec k p.coefficients =
      ∑ t : Fin m, (alpha t).val • toVec k (pieces.get (used t)).coefficients) (t : Fin m) :
    CoefficientsIndependent k (pieces.set (used t) p) := by
  have hlen : (pieces.map CodedPiece.coefficients).length = pieces.length := List.length_map _
  let position : Fin m → Fin (pieces.map CodedPiece.coefficients).length :=
    fun t => (used t).cast hlen.symm
  have hposition : Function.Injective position := by
    intro s t hst
    exact hused (by simpa [position, Fin.ext_iff] using hst)
  have hrow : toVec k p.coefficients = ∑ t : Fin m,
      (alpha t).val • toVec k ((pieces.map CodedPiece.coefficients).get (position t)) := by
    simpa [position] using hp
  have hset := RowsIndependent.set h hposition (fun t => (alpha t).property) hrow t
  rw [CoefficientsIndependent, List.map_set]
  exact hset

/-- Recombination exchanges pieces: the recombined piece may replace any one of independent pieces,
and in a set of `k` pieces that decodes it may replace any piece that was used for it. -/
theorem recombined_exchanges (alpha : ℕ → {a : GF256 // a ≠ 0}) :
    (∀ (k pieceSize : ℕ) (pieces : List CodedPiece), 2 ≤ pieces.length →
      (∀ p ∈ pieces, p.Shaped k pieceSize) → CoefficientsIndependent k pieces →
        ∃ p, createPieceFromExisting pieces alpha = .ok p ∧
          ∀ j < pieces.length, CoefficientsIndependent k (pieces.set j p)) ∧
    (∀ (segment : List GF256) (pieceSize : ℕ) (e : RlncEncoder) (pieces : List CodedPiece),
      RlncEncoder.new segment pieceSize = .ok (.ok e) → pieces.length = e.k →
      (∀ p ∈ pieces, p.OfSegment e.pieces pieceSize) →
      (RlncDecoder.new e.k pieceSize segment.length).decode pieces = .ok (.ok segment) →
        ∀ used : List (Fin pieces.length), used.Nodup → 2 ≤ used.length →
          ∃ p, createPieceFromExisting (used.map pieces.get) alpha = .ok p ∧
            ∀ j ∈ used, (RlncDecoder.new e.k pieceSize segment.length).decode (pieces.set j p) =
              .ok (.ok segment)) := by
  constructor
  · intro k pieceSize pieces htwo hshaped hindep
    rcases exists_createPieceFromExisting htwo hshaped alpha with ⟨p, hrun, -, hp⟩
    refine ⟨p, hrun, ?_⟩
    intro j hj
    exact hindep.set Function.injective_id hp ⟨j, hj⟩
  · intro segment pieceSize e pieces hnew hcount hpieces hdecode used hnodup htwo
    have henc := RlncEncoder.encodes_of_new hnew
    rcases (decode_eq_ok_iff henc hcount hpieces).1 hdecode with ⟨hindep, hcap⟩
    have hused : ∀ q ∈ used.map pieces.get, q.OfSegment e.pieces pieceSize := by
      intro q hq
      rcases List.mem_map.1 hq with ⟨i, -, rfl⟩
      exact hpieces _ (List.get_mem _ _)
    rcases exists_createPieceFromExisting (by simpa using htwo)
      (fun q hq => ⟨(hused q hq).coefficients_length, (hused q hq).data_length⟩) alpha with
      ⟨p, hrun, -, hp⟩
    refine ⟨p, hrun, ?_⟩
    intro j hj
    rcases List.get_of_mem hj with ⟨t, rfl⟩
    have hset : ∀ q ∈ pieces.set (used.get t) p, q.OfSegment e.pieces pieceSize := by
      intro q hq
      rcases List.mem_or_eq_of_mem_set hq with hmem | rfl
      · exact hpieces q hmem
      · exact ofSegment_createPieceFromExisting hused hrun
    refine (decode_eq_ok_iff henc (by simpa using hcount) hset).2 ⟨?_, hcap⟩
    -- the positions of the list, read off the list of pieces that was recombined
    let position : Fin (used.map pieces.get).length → Fin pieces.length :=
      fun s => used.get (s.cast (List.length_map _))
    have hposition : Function.Injective position := by
      intro s s' hs
      simpa [Fin.ext_iff] using hnodup.injective_get hs
    have hget : ∀ s, (used.map pieces.get).get s = pieces.get (position s) := by
      intro s
      simp [position]
    simp only [hget] at hp
    exact hindep.set hposition hp (t.cast (List.length_map _).symm)

end Exchange

/-- Two pieces of a segment are lost one after the other and replaced by their recombination. -/
theorem recombined_exchanges_two :
    ∃ e p, RlncEncoder.new [⟨7⟩, ⟨9⟩] 1 = .ok (.ok e) ∧
      createPieceFromExisting e.sourcePieces (fun _ => ⟨1, by decide⟩) = .ok p ∧
      CoefficientsIndependent 2 (e.sourcePieces.set 1 p) ∧
      (RlncDecoder.new e.k 1 2).decode (e.sourcePieces.set 0 p) = .ok (.ok [⟨7⟩, ⟨9⟩]) := by
  have hnew : RlncEncoder.new [⟨7⟩, ⟨9⟩] 1 = .ok (.ok ⟨[[⟨7⟩], [⟨9⟩]], 1⟩) := by decide +kernel
  have henc := RlncEncoder.encodes_of_new hnew
  have hsource := RlncEncoder.ofSegment_sourcePieces henc
  have hindep := coefficientsIndependent_sourcePieces ⟨[[⟨7⟩], [⟨9⟩]], 1⟩
  have hexchange := recombined_exchanges fun _ => ⟨1, by decide⟩
  rcases hexchange.1 2 1 _ (by decide)
    (fun p hp => ⟨(hsource p hp).coefficients_length, (hsource p hp).data_length⟩) hindep with
    ⟨p, hrun, hset⟩
  rcases hexchange.2 [⟨7⟩, ⟨9⟩] 1 _ _ hnew rfl hsource
    ((decode_eq_ok_iff henc rfl hsource).2 ⟨hindep, by decide⟩)
    [⟨0, by decide⟩, ⟨1, by decide⟩] (by decide) (by decide) with ⟨p', hrun', hdecode⟩
  have hsame : p' = p := Except.ok.inj (hrun'.symm.trans hrun)
  exact ⟨_, p, hnew, hrun, hset 1 (by decide), hsame ▸ hdecode ⟨0, by decide⟩ (by simp)⟩

end Erasure
end CraftecCore
