import CraftecCore.Erasure.Decoder
import CraftecCore.Erasure.Repair
import CraftecCore.Library.RowBounds

/-!
# Ragged — coefficient vectors of unequal lengths

`verify_piece` checks that a piece has `k` coefficients; the eliminations do not, and read entry
after entry of whatever they are given.  A vector that is too short is noticed only when one of its
missing entries is read, and that depends on the order of the vectors and on where the pivots are.
-/

namespace CraftecCore
namespace Erasure

open GF256 RowReduction RowVector

/-! ## What is read -/

/-- A call reads nothing out of bounds, and returns when its buffers fit. -/
def ReturnsInBounds {α : Type} (fits : Prop) (run : Outcome α) : Prop :=
  run ≠ .panic .indexOutOfBounds ∧ (fits → ∃ value, run = .ok value)

/-- The elimination of coefficient vectors in `k` columns finds every entry it reads. -/
def VectorsInBounds (k : ℕ) (vectors : List (List GF256)) : Prop :=
  RunInBounds vectorOps List.length true k (List.range k) vectors 0

/-- The elimination of coefficient vectors in `k` columns comes to a column without a pivot. -/
def HasFreeColumn (k : ℕ) (vectors : List (List GF256)) : Prop :=
  LeavesColumn vectorOps true k (List.range k) vectors 0

/-- The elimination of the first `k` pieces finds every entry it reads. -/
def PiecesInBounds (k : ℕ) (pieces : List CodedPiece) : Prop :=
  RunInBounds decodeOps (fun piece => piece.coefficients.length) false 0 (List.range k)
    (pieces.take k) 0

/-- The elimination of the first `k` pieces comes to a column without a pivot. -/
def PiecesLeaveColumn (k : ℕ) (pieces : List CodedPiece) : Prop :=
  LeavesColumn decodeOps false 0 (List.range k) (pieces.take k) 0

section Returns

variable {α : Type} {fits : Prop}

theorem returnsInBounds_ok (value : α) : ReturnsInBounds fits (.ok value) :=
  ⟨by simp, fun _ => ⟨value, rfl⟩⟩

theorem not_returnsInBounds :
    ¬ ReturnsInBounds fits (.panic .indexOutOfBounds : Outcome α) :=
  fun h => h.1 rfl

/-- A call that allocates returns in bounds, for the sizes that fit. -/
theorem returnsInBounds_ite [Decidable fits] {value : α} {run : Outcome α}
    (h : run ≠ .panic .indexOutOfBounds) :
    ReturnsInBounds fits (if fits then .ok value else run) := by
  by_cases hfits : fits
  · rw [if_pos hfits]
    exact returnsInBounds_ok value
  · rw [if_neg hfits]
    exact ⟨h, fun hf => absurd hf hfits⟩

end Returns

/-! ## Row operations on ragged rows -/

theorem vectorOps_ragged : Ragged vectorOps List.length where
  entry _ _ hc := ⟨_, List.index_eq_ok hc⟩
  entry_panic _ _ hc := List.index_eq_panic hc
  inv _ hx := ⟨_, inv_eq_some hx⟩
  width_scale a row := by simp [vectorOps]
  width_addMul a row p := by simp [vectorOps]

theorem decodeOps_ragged : Ragged decodeOps (fun piece => piece.coefficients.length) where
  entry _ _ hc := ⟨_, List.index_eq_ok hc⟩
  entry_panic _ _ hc := List.index_eq_panic hc
  inv _ hx := ⟨_, inv_eq_some hx⟩
  width_scale a piece := by simp [decodeOps]
  width_addMul a piece p := by simp [decodeOps]

/-- Vectors of at least `k` entries are never read out of bounds. -/
theorem vectorsInBounds_of_wide {k : ℕ} {vectors : List (List GF256)}
    (hwide : ∀ v ∈ vectors, k ≤ v.length) : VectorsInBounds k vectors := by
  apply runInBounds_of_wide vectorOps_ragged
  intro v hv c hc
  exact lt_of_lt_of_le (List.mem_range.1 hc) (hwide v hv)

/-- Pieces of at least `k` coefficients are never read out of bounds. -/
theorem piecesInBounds_of_wide {k : ℕ} {pieces : List CodedPiece}
    (hwide : ∀ p ∈ pieces, k ≤ p.coefficients.length) : PiecesInBounds k pieces := by
  apply runInBounds_of_wide decodeOps_ragged
  intro p hp c hc
  exact lt_of_lt_of_le (List.mem_range.1 hc) (hwide p (List.mem_of_mem_take hp))

/-! ## Decoding -/

/-- The decoder's loop returns when its run is in bounds, and panics otherwise; it finds dependent
rows when it comes to a column without a pivot. -/
theorem eliminateLoop_cases :
    ∀ (todo col : ℕ) (rows : List CodedPiece),
      (RunInBounds decodeOps (fun piece => piece.coefficients.length) false 0
          (List.range' col todo) rows col ∧
        ((LeavesColumn decodeOps false 0 (List.range' col todo) rows col ∧
            eliminateLoop (List.range' col todo) rows = .ok (.error .linearlyDependent)) ∨
          (¬ LeavesColumn decodeOps false 0 (List.range' col todo) rows col ∧
            ∃ rows', eliminateLoop (List.range' col todo) rows = .ok (.ok rows')))) ∨
      (¬ RunInBounds decodeOps (fun piece => piece.coefficients.length) false 0
          (List.range' col todo) rows col ∧
        eliminateLoop (List.range' col todo) rows = .panic .indexOutOfBounds)
  | 0, col, rows => Or.inl ⟨runInBounds_nil rows col, Or.inr ⟨not_leavesColumn_nil, rows, rfl⟩⟩
  | todo + 1, col, rows => by
      rw [List.range'_succ]
      rcases eliminateColumn_cases decodeOps_ragged rows col col with
        ⟨hcol, ⟨hfree, hnone⟩ | ⟨hpivot, next, hdone⟩⟩ | ⟨hout, hpanic⟩
      · -- a column without a pivot ends the loop
        refine Or.inl ⟨(runInBounds_skip hcol hnone).2 (by simp), Or.inl ⟨?_, ?_⟩⟩
        · exact ⟨rows, col, col, .here _, hfree⟩
        · simp [eliminateLoop, hnone]
      · have hnext : eliminateLoop (col :: List.range' (col + 1) todo) rows =
            eliminateLoop (List.range' (col + 1) todo) next := by
          simp [eliminateLoop, hdone]
        have hleaves :
            LeavesColumn decodeOps false 0 (col :: List.range' (col + 1) todo) rows col ↔
              LeavesColumn decodeOps false 0 (List.range' (col + 1) todo) next (col + 1) :=
          leavesColumn_pivot hpivot hdone (by simp)
        rw [hnext, runInBounds_pivot hcol hdone, hleaves]
        simpa using eliminateLoop_cases todo (col + 1) next
      · refine Or.inr ⟨not_runInBounds hout, ?_⟩
        simp [eliminateLoop, hpanic]

/-- What decoding does on pieces of any shape, when there are enough of them. -/
theorem decode_cases {k : ℕ} {pieces : List CodedPiece} (hcount : k ≤ pieces.length)
    (pieceSize originalSize : ℕ) :
    (PiecesInBounds k pieces ∧
      ((PiecesLeaveColumn k pieces ∧
          (RlncDecoder.new k pieceSize originalSize).decode pieces =
            .ok (.error .linearlyDependent)) ∨
        (¬ PiecesLeaveColumn k pieces ∧
          ∃ rows, eliminateLoop (List.range k) (pieces.take k) = .ok (.ok rows) ∧
            (RlncDecoder.new k pieceSize originalSize).decode pieces =
              if k * pieceSize ≤ isizeMax then
                .ok (.ok (((rows.map CodedPiece.data).flatten).take originalSize))
              else if k * pieceSize < 2 ^ 64 then
                .panic .capacityOverflow
              else
                .panic .overflow))) ∨
    (¬ PiecesInBounds k pieces ∧
      (RlncDecoder.new k pieceSize originalSize).decode pieces = .panic .indexOutOfBounds) := by
  have hk : ¬ pieces.length < k := Nat.not_lt_of_le hcount
  unfold PiecesInBounds PiecesLeaveColumn
  rw [List.range_eq_range']
  rcases eliminateLoop_cases k 0 (pieces.take k) with
    ⟨hin, ⟨hleaves, hdep⟩ | ⟨hfull, rows, hrows⟩⟩ | ⟨hout, hpanic⟩
  · refine Or.inl ⟨hin, Or.inl ⟨hleaves, ?_⟩⟩
    simp [RlncDecoder.decode, RlncDecoder.new, hk, List.range_eq_range', hdep]
  · refine Or.inl ⟨hin, Or.inr ⟨hfull, rows, hrows, ?_⟩⟩
    rw [← usizeMul_withCapacity]
    simp [RlncDecoder.decode, RlncDecoder.new, hk, List.range_eq_range', hrows]
  · refine Or.inr ⟨hout, ?_⟩
    simp [RlncDecoder.decode, RlncDecoder.new, hk, List.range_eq_range', hpanic]

/-- When decoding answers: too few pieces and dependent pieces are errors, and the bytes of
independent pieces must fit a buffer. -/
theorem decode_returns_iff (k pieceSize originalSize : ℕ) (pieces : List CodedPiece) :
    (∃ result, (RlncDecoder.new k pieceSize originalSize).decode pieces = .ok result) ↔
      pieces.length < k ∨ PiecesInBounds k pieces ∧
        (PiecesLeaveColumn k pieces ∨ k * pieceSize ≤ isizeMax) := by
  by_cases hcount : pieces.length < k
  · simp [RlncDecoder.decode, RlncDecoder.new, hcount]
  · rcases decode_cases (Nat.le_of_not_lt hcount) pieceSize originalSize with
      ⟨hin, ⟨hleaves, hrun⟩ | ⟨hfull, rows, -, hrun⟩⟩ | ⟨hout, hrun⟩
    · simp [hrun, hin, hleaves]
    · by_cases hfits : k * pieceSize ≤ isizeMax
      · simp [hrun, hin, hfits]
      · simp only [hrun, hcount, hin, hfull, hfits, if_false, or_false, and_false, iff_false]
        split <;> simp
    · simp [hrun, hout, hcount]

theorem decode_returnsInBounds (k pieceSize originalSize : ℕ) (pieces : List CodedPiece) :
    ReturnsInBounds (k * pieceSize ≤ isizeMax)
        ((RlncDecoder.new k pieceSize originalSize).decode pieces) ↔
      pieces.length < k ∨ PiecesInBounds k pieces := by
  by_cases hcount : pieces.length < k
  · simp [RlncDecoder.decode, RlncDecoder.new, hcount, returnsInBounds_ok]
  · rcases decode_cases (Nat.le_of_not_lt hcount) pieceSize originalSize with
      ⟨hin, ⟨-, hrun⟩ | ⟨-, rows, -, hrun⟩⟩ | ⟨hout, hrun⟩
    · simp [hrun, hin, returnsInBounds_ok]
    · rw [hrun]
      refine iff_of_true (returnsInBounds_ite ?_) (Or.inr hin)
      split <;> simp
    · simp [hrun, hout, hcount, not_returnsInBounds]

/-! ## Rank and targets -/

theorem checkIndependence_returnsInBounds (vectors : List (List GF256)) :
    ReturnsInBounds True (checkIndependence vectors) ↔
      VectorsInBounds (vectors.headD []).length vectors := by
  cases vectors with
  | nil =>
      exact iff_of_true (returnsInBounds_ok 0) (vectorsInBounds_of_wide (by simp))
  | cons first rest =>
      unfold VectorsInBounds
      rcases reduceColumns_cases vectorOps_ragged true first.length
        (List.range first.length) (first :: rest) [] with
        ⟨hin, ⟨rows, pivots⟩, hrun⟩ | ⟨hout, hpanic⟩
      · refine iff_of_true ?_ hin
        simpa [checkIndependence, hrun] using returnsInBounds_ok pivots.length
      · refine iff_of_false ?_ hout
        simpa [checkIndependence, hpanic] using not_returnsInBounds

/-- Fewer pivots than columns leave a free column, which any offset selects. -/
theorem exists_freeColumn {k : ℕ} {pivots : List ℕ} (h : pivots.length < k) (offset : ℕ) :
    freeColumns k pivots ≠ [] ∧
      ∃ c, (freeColumns k pivots).index (offset % (freeColumns k pivots).length) = .ok c := by
  have hne : freeColumns k pivots ≠ [] := by
    intro hnil
    have hsub : List.range k ⊆ pivots := by
      intro c hc
      by_contra hfree
      have hmem : c ∈ freeColumns k pivots := mem_freeColumns.2 ⟨List.mem_range.1 hc, hfree⟩
      rw [hnil] at hmem
      cases hmem
    have hle := (List.subperm_of_subset List.nodup_range hsub).length_le
    rw [List.length_range] at hle
    omega
  exact ⟨hne, _, List.index_eq_ok (Nat.mod_lt offset (List.length_pos_iff.2 hne))⟩

/-- What the search for a target does on vectors of any lengths. -/
theorem generateOrthogonalVector_cases {k : ℕ} (hk : 0 < k) (existing : List (List GF256))
    (offset : ℕ) :
    (VectorsInBounds k existing ∧
      ((¬ HasFreeColumn k existing ∧ generateOrthogonalVector existing k offset = .ok none) ∨
        (HasFreeColumn k existing ∧ ∃ target : List GF256, target.length = k ∧
          generateOrthogonalVector existing k offset =
            if k ≤ isizeMax then .ok (some target) else .panic .capacityOverflow))) ∨
    (¬ VectorsInBounds k existing ∧
      generateOrthogonalVector existing k offset = .panic .indexOutOfBounds) := by
  have hk' : k ≠ 0 := Nat.pos_iff_ne_zero.1 hk
  have hunit : ∀ c, (do
      let v : List GF256 ← byteBuffer 0 k
      pure (some (v.set c 1))) =
        if k ≤ isizeMax then .ok (some ((List.replicate k 0).set c 1))
        else .panic .capacityOverflow := by
    intro c
    by_cases hcap : k ≤ isizeMax <;> simp [byteBuffer, withCapacity, hcap]
  by_cases hne : existing = []
  · -- without vectors no column has a pivot
    subst hne
    have hcols : List.range k = 0 :: List.range' 1 (k - 1) := by
      rw [List.range_eq_range', ← Nat.sub_add_cancel hk, List.range'_succ, Nat.add_sub_cancel]
    have hfree : HasFreeColumn k [] := by
      refine ⟨[], 0, 0, ?_, by simp [HasPivot]⟩
      rw [hcols]
      exact .here _
    refine Or.inl ⟨vectorsInBounds_of_wide (by simp), Or.inr ⟨hfree, ?_⟩⟩
    refine ⟨(List.replicate k 0).set 0 1, by simp, ?_⟩
    simpa [generateOrthogonalVector, hk'] using hunit 0
  · unfold VectorsInBounds HasFreeColumn
    rcases reduceColumns_cases vectorOps_ragged true k (List.range k) existing [] with
      ⟨hin, ⟨rows, pivots⟩, hrun⟩ | ⟨hout, hpanic⟩
    · have hlen := length_pivots_lt_iff vectorOps_ragged (by simp) hrun
      simp only [List.length_nil, List.length_range, Nat.zero_add] at hlen
      refine Or.inl ⟨hin, ?_⟩
      by_cases hlt : pivots.length < k
      · rcases exists_freeColumn hlt offset with ⟨hfree, c, hidx⟩
        have hdef : ((List.range k).filter fun c => c ∉ pivots) = freeColumns k pivots := rfl
        refine Or.inr ⟨hlen.1.1 hlt, (List.replicate k 0).set c 1, by simp, ?_⟩
        rw [← hunit]
        simp only [generateOrthogonalVector, hk', hne, if_false, hrun, Outcome.ok_bind,
          Nat.not_le_of_lt hlt, hdef, hfree, hidx]
      · refine Or.inl ⟨fun h => hlt (hlen.1.2 h), ?_⟩
        simp [generateOrthogonalVector, hk', hne, hrun, Nat.le_of_not_lt hlt]
    · refine Or.inr ⟨hout, ?_⟩
      simp [generateOrthogonalVector, hk', hne, hpanic]

theorem generateOrthogonalVector_returnsInBounds (existing : List (List GF256)) (k offset : ℕ) :
    ReturnsInBounds (k ≤ isizeMax) (generateOrthogonalVector existing k offset) ↔
      VectorsInBounds k existing := by
  by_cases hk : k = 0
  · subst hk
    refine iff_of_true ?_ (vectorsInBounds_of_wide (by simp))
    simpa [generateOrthogonalVector] using returnsInBounds_ok none
  · rcases generateOrthogonalVector_cases (Nat.pos_iff_ne_zero.2 hk) existing offset with
      ⟨hin, ⟨-, hrun⟩ | ⟨-, target, -, hrun⟩⟩ | ⟨hout, hrun⟩
    · rw [hrun]
      exact iff_of_true (returnsInBounds_ok none) hin
    · rw [hrun]
      exact iff_of_true (returnsInBounds_ite (by simp)) hin
    · rw [hrun]
      exact iff_of_false not_returnsInBounds hout

/-! ## Repair -/

/-- A local piece with fewer than `k` coefficients is read out of bounds. -/
theorem augmentedRows_eq_panic {localPieces : List CodedPiece} {target : List GF256} {k : ℕ}
    (htarget : target.length = k) {p : CodedPiece} (hp : p ∈ localPieces)
    (hshort : p.coefficients.length < k) :
    (List.range k).mapM (augmentedRow localPieces target) = .panic .indexOutOfBounds := by
  have hread : ∀ (j : ℕ) (q : CodedPiece), (∃ x, q.coefficients.index j = .ok x) ∨
      q.coefficients.index j = .panic .indexOutOfBounds := by
    intro j q
    by_cases hj : j < q.coefficients.length
    · exact Or.inl ⟨_, List.index_eq_ok hj⟩
    · exact Or.inr (List.index_eq_panic (Nat.le_of_not_lt hj))
  apply Outcome.mapM_eq_panic
  · -- a row is there, or one of its entries is not
    intro j hj
    have ht := List.index_eq_ok (show j < target.length by
      rw [htarget]
      exact List.mem_range.1 hj)
    by_cases hall : ∀ q ∈ localPieces, ∃ x, q.coefficients.index j = .ok x
    · have hrow : localPieces.mapM (fun piece => piece.coefficients.index j) =
          .ok (localPieces.map fun piece => piece.coefficients.getD j 0) := by
        apply Outcome.mapM_eq_ok
        intro q hq
        rcases hall q hq with ⟨x, hx⟩
        exact List.index_eq_getD 0 (List.lt_length_of_index hx)
      exact Or.inl ⟨_, by simp [augmentedRow, hrow, ht]; rfl⟩
    · push Not at hall
      rcases hall with ⟨q, hq, hnone⟩
      have hpanic : q.coefficients.index j = .panic .indexOutOfBounds := by
        rcases hread j q with ⟨x, hx⟩ | hpanic
        · exact absurd hx (hnone x)
        · exact hpanic
      have hrow := Outcome.mapM_eq_panic (fun q _ => hread j q) ⟨q, hq, hpanic⟩
      exact Or.inr (by simp [augmentedRow, hrow])
  · refine ⟨p.coefficients.length, List.mem_range.2 hshort, ?_⟩
    have hrow := Outcome.mapM_eq_panic (fun q _ => hread p.coefficients.length q)
      ⟨p, hp, List.index_eq_panic le_rfl⟩
    simp [augmentedRow, hrow]

section Target

variable {localPieces : List CodedPiece} {existing : List (List GF256)} {k offset : ℕ}

/-- Where the search for a target panics, so does the repair. -/
theorem createOrthogonalPiece_of_panic {why : Panic} (hne : localPieces ≠ []) (hk : k ≠ 0)
    (hgen : generateOrthogonalVector existing k offset = .panic why) :
    createOrthogonalPiece localPieces existing k offset = .panic why := by
  rcases List.exists_cons_of_ne_nil hne with ⟨first, rest, rfl⟩
  simp [createOrthogonalPiece, hk, hgen]

/-- Without a target the local pieces are not read. -/
theorem createOrthogonalPiece_of_none (hne : localPieces ≠ []) (hk : k ≠ 0)
    (hgen : generateOrthogonalVector existing k offset = .ok none) :
    createOrthogonalPiece localPieces existing k offset = .ok none := by
  rcases List.exists_cons_of_ne_nil hne with ⟨first, rest, rfl⟩
  simp [createOrthogonalPiece, hk, hgen]

/-- With a target the local pieces are read up to entry `k`. -/
theorem createOrthogonalPiece_of_short {target : List GF256} (hk : k ≠ 0)
    (hgen : generateOrthogonalVector existing k offset = .ok (some target))
    (htarget : target.length = k) {p : CodedPiece} (hp : p ∈ localPieces)
    (hshort : p.coefficients.length < k) :
    createOrthogonalPiece localPieces existing k offset = .panic .indexOutOfBounds := by
  have haug := augmentedRows_eq_panic htarget hp hshort
  rcases List.exists_cons_of_ne_nil (List.ne_nil_of_mem hp) with ⟨first, rest, rfl⟩
  simp [createOrthogonalPiece, hk, hgen, haug]

end Target

theorem createOrthogonalPiece_returnsInBounds (localPieces : List CodedPiece)
    (existing : List (List GF256)) (k offset : ℕ) :
    ReturnsInBounds (k ≤ isizeMax) (createOrthogonalPiece localPieces existing k offset) ↔
      localPieces = [] ∨
        VectorsInBounds k existing ∧
          (k ≤ isizeMax → HasFreeColumn k existing →
            ∀ p ∈ localPieces, k ≤ p.coefficients.length) := by
  by_cases hne : localPieces = []
  · subst hne
    refine iff_of_true ?_ (Or.inl rfl)
    simpa [createOrthogonalPiece] using returnsInBounds_ok none
  by_cases hk : k = 0
  · rcases List.exists_cons_of_ne_nil hne with ⟨first, rest, rfl⟩
    subst hk
    refine iff_of_true ?_ (Or.inr ⟨vectorsInBounds_of_wide (by simp), by simp⟩)
    simpa [createOrthogonalPiece] using returnsInBounds_ok none
  have hpos := Nat.pos_iff_ne_zero.2 hk
  simp only [hne, false_or]
  rcases generateOrthogonalVector_cases hpos existing offset with
    ⟨hin, ⟨hfull, hgen⟩ | ⟨hfree, target, htarget, hgen⟩⟩ | ⟨hout, hgen⟩
  · rw [createOrthogonalPiece_of_none hne hk hgen]
    exact iff_of_true (returnsInBounds_ok none) ⟨hin, fun _ h => absurd h hfull⟩
  · by_cases hcap : k ≤ isizeMax
    · rw [if_pos hcap] at hgen
      by_cases hwide : ∀ p ∈ localPieces, k ≤ p.coefficients.length
      · refine iff_of_true ?_ ⟨hin, fun _ _ => hwide⟩
        rcases createOrthogonalPiece_cases hne hpos hwide hgen htarget with
          ⟨alphas, size, -, -, hrun⟩ | ⟨-, hrun⟩
        · rw [hrun]
          exact returnsInBounds_ok _
        · rw [hrun]
          exact returnsInBounds_ok none
      · refine iff_of_false ?_ (fun h => hwide (h.2 hcap hfree))
        push Not at hwide
        rcases hwide with ⟨p, hp, hshort⟩
        rw [createOrthogonalPiece_of_short hk hgen htarget hp hshort]
        exact not_returnsInBounds
    · -- the target itself cannot be allocated
      rw [if_neg hcap] at hgen
      rw [createOrthogonalPiece_of_panic hne hk hgen]
      exact iff_of_true ⟨by simp, fun h => absurd h hcap⟩ ⟨hin, fun h => absurd h hcap⟩
  · rw [createOrthogonalPiece_of_panic hne hk hgen]
    exact iff_of_false not_returnsInBounds (fun h => hout h.1)

/-! ## When the coding layer stays in bounds -/

/-- The four eliminations read nothing out of bounds exactly when every column they come to finds
the entries it reads, and the local pieces have `k` coefficients once there is a target for them.
Nothing else about the lengths matters; vectors of `k` entries are enough. -/
theorem reads_inBounds_iff (k : ℕ) :
    (∀ pieceSize originalSize pieces,
      ReturnsInBounds (k * pieceSize ≤ isizeMax)
          ((RlncDecoder.new k pieceSize originalSize).decode pieces) ↔
        pieces.length < k ∨ PiecesInBounds k pieces) ∧
    (∀ vectors, ReturnsInBounds True (checkIndependence vectors) ↔
      VectorsInBounds (vectors.headD []).length vectors) ∧
    (∀ existing offset,
      ReturnsInBounds (k ≤ isizeMax) (generateOrthogonalVector existing k offset) ↔
        VectorsInBounds k existing) ∧
    (∀ localPieces existing offset,
      ReturnsInBounds (k ≤ isizeMax) (createOrthogonalPiece localPieces existing k offset) ↔
        localPieces = [] ∨
          VectorsInBounds k existing ∧
            (k ≤ isizeMax → HasFreeColumn k existing →
              ∀ p ∈ localPieces, k ≤ p.coefficients.length)) ∧
    (∀ vectors : List (List GF256), (∀ v ∈ vectors, k ≤ v.length) → VectorsInBounds k vectors) ∧
    ∀ pieces : List CodedPiece, (∀ p ∈ pieces, k ≤ p.coefficients.length) →
      PiecesInBounds k pieces :=
  ⟨decode_returnsInBounds k, checkIndependence_returnsInBounds,
    fun existing offset => generateOrthogonalVector_returnsInBounds existing k offset,
    fun localPieces existing offset =>
      createOrthogonalPiece_returnsInBounds localPieces existing k offset,
    fun _ => vectorsInBounds_of_wide, fun _ => piecesInBounds_of_wide⟩

/-- Two vectors of different lengths, both long enough for two columns. -/
theorem reads_inBounds_unequal :
    ReturnsInBounds (2 ≤ isizeMax) (generateOrthogonalVector [[0, 1, 7], [1, 0]] 2 0) :=
  ((reads_inBounds_iff 2).2.2.1 [[0, 1, 7], [1, 0]] 0).2
    ((reads_inBounds_iff 2).2.2.2.2.1 [[0, 1, 7], [1, 0]] (by decide))

/-- A coefficient vector that is empty crashes each of the four. -/
theorem empty_vector_crashes :
    (RlncDecoder.new 1 1 1).decode [{ data := [7], coefficients := [] }] =
        .panic .indexOutOfBounds ∧
      checkIndependence [[1], []] = .panic .indexOutOfBounds ∧
      generateOrthogonalVector [[]] 1 0 = .panic .indexOutOfBounds ∧
      createOrthogonalPiece [{ data := [7], coefficients := [] }] [] 1 0 =
        .panic .indexOutOfBounds :=
  ⟨by decide +kernel, by decide +kernel, by decide +kernel, by decide +kernel⟩

/-- The order of the vectors decides whether a missing entry is read. -/
example : checkIndependence [[1], [0, 1]] = .ok 1 ∧
    checkIndependence [[0, 1], [1]] = .panic .indexOutOfBounds :=
  ⟨by decide +kernel, by decide +kernel⟩

end Erasure
end CraftecCore
