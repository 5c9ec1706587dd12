import CraftecCore.Erasure.Coding
import CraftecCore.Library.RowRank

/-!
# Independence — rank, orthogonal vectors and orthogonal pieces

The three eliminations on plain coefficient vectors: `check_independence` counts pivots,
`generate_orthogonal_vector` returns a unit vector at a column without one, and
`create_orthogonal_piece` solves for the scalars that produce such a vector from local pieces.
They share one loop and differ in what they do at a pivot without an inverse, which never occurs.
-/

namespace CraftecCore
namespace Erasure

open GF256 RowReduction RowVector

/-! ## The source functions -/

/-- The row operations of the loops that multiply with `GF256::mul`. -/
def vectorOps : RowOps GF256 (List GF256) where
  entry row col := row.index col
  inv := GF256.inv
  scale v row := row.map fun x => mul x v
  addMul factor row pivotRow := zipMut (fun mv pv => add mv (mul factor pv)) row pivotRow

/-- The rank of a list of coefficient vectors. -/
def checkIndependence (vectors : List (List GF256)) : Outcome ℕ :=
  match vectors with
  | [] => pure 0
  | first :: _ => do
      let k := first.length
      -- with `skipZero` on, the loop always ends with its pivots
      match ← reduceColumns vectorOps true k (List.range k) vectors [] with
      | some (_, pivotCols) => pure pivotCols.length
      | none => pure 0

/-- A coefficient vector outside the span of the existing ones: a unit vector at a column without a
pivot, which `offset` selects. -/
def generateOrthogonalVector (existing : List (List GF256)) (k offset : ℕ) :
    Outcome (Option (List GF256)) :=
  if k = 0 then
    pure none
  else if existing = [] then do
    -- `e_0`, whatever the offset
    let v ← byteBuffer 0 k
    pure (some (v.set 0 1))
  else do
    match ← reduceColumns vectorOps true k (List.range k) existing [] with
    | none => pure none
    | some (_, pivotCols) =>
        if k ≤ pivotCols.length then
          pure none
        else
          let freeCols := (List.range k).filter fun c => c ∉ pivotCols
          if freeCols = [] then
            pure none
          else do
            let freeCol ← freeCols.index (offset % freeCols.length)
            let result ← byteBuffer 0 k
            pure (some (result.set freeCol 1))

/-- Row `j` of the augmented matrix: coefficient `j` of every local piece, then the target's. -/
def augmentedRow (localPieces : List CodedPiece) (target : List GF256) (j : ℕ) :
    Outcome (List GF256) := do
  let row ← localPieces.mapM fun piece => piece.coefficients.index j
  let t ← target.index j
  pure (row ++ [t])

/-- The scalars read off the reduced matrix; columns without a pivot get zero. -/
def extractAlphas (aug : List (List GF256)) (pivotCols : List ℕ) (n : ℕ) :
    Outcome (List GF256) :=
  pivotCols.zipIdx.foldlM
    (fun alphas (col, idx) => do
      -- `alphas[col] = aug[idx][n]`
      let row ← aug.index idx
      let x ← row.index n
      pure (alphas.set col x))
    (List.replicate n 0)

/-- The loop that combines the local pieces, which skips zero scalars. -/
def combineLocal (localPieces : List CodedPiece) (alphas : List GF256) (pieceSize k : ℕ) :
    CodedPiece :=
  (localPieces.zip alphas).foldl
    (fun acc pa => if pa.2 = 0 then acc else acc.mulAdd pa.1 pa.2)
    (CodedPiece.zero pieceSize k)

/-- A coded piece outside the span of the existing vectors, from the pieces this node holds. -/
def createOrthogonalPiece (localPieces : List CodedPiece)
    (allExistingCoefficients : List (List GF256)) (k offset : ℕ) :
    Outcome (Option CodedPiece) :=
  match localPieces with
  | [] => pure none
  | first :: _ =>
      if k = 0 then
        pure none
      else do
        match ← generateOrthogonalVector allExistingCoefficients k offset with
        | none => pure none
        | some target => do
            let n := localPieces.length
            let aug ← (List.range k).mapM (augmentedRow localPieces target)
            match ← reduceColumns vectorOps false k (List.range n) aug [] with
            | none => pure none
            | some (aug, pivotCols) => do
                let rank := pivotCols.length
                -- a row with all-zero left side but non-zero right side: no solution
                match ← findPivot (fun row => row.index n) 0 ((aug.take k).drop rank) with
                | some _ => pure none
                | none => do
                    let alphas ← extractAlphas aug pivotCols n
                    pure (some (combineLocal localPieces alphas first.data.length k))

/-! ## The loops on vectors reduce rows -/

theorem vectorOps_faithful (n : ℕ) :
    Faithful vectorOps (fun row => row.length = n) (toVec n) (coordinate n) n where
  entry row hrow c hc := by
    rw [coordinate_toVec hc]
    exact List.index_eq_getD 0 (by simpa [hrow] using hc)
  inv _ hx := inv_eq_some hx
  good_scale _ row hrow := by simpa [vectorOps] using hrow
  view_scale a row _ := by
    have hmul : ∀ x : GF256, mul x a = a * x := fun x => mul_comm x a
    exact toVec_map hmul row
  good_addMul _ row _ hrow _ := by simpa [vectorOps] using hrow
  view_addMul a row p hrow hp := by
    have hadd : ∀ x y : GF256, add x (mul a y) = x + a * y := fun _ _ => rfl
    have hsub : toVec n row - a • toVec n p = toVec n row + a • toVec n p := by
      funext j
      exact sub_eq_add _ _
    rw [hsub]
    exact toVec_zipMut hadd hrow hp

/-- `check_independence` computes the rank. -/
theorem checkIndependence_eq {k : ℕ} {vectors : List (List GF256)}
    (hlen : ∀ v ∈ vectors, v.length = k) :
    checkIndependence vectors = .ok (rowRank k vectors) := by
  cases vectors with
  | nil => simp [checkIndependence]
  | cons first rest =>
      have hfirst : first.length = k := hlen first List.mem_cons_self
      rcases reduceColumns_pivotColumns (vectorOps_faithful k) hlen true with
        ⟨rows', pivots, hrun, hpiv, -⟩
      simp [checkIndependence, hfirst, hrun, hpiv.length_eq]

/-- The rank can be read off a run. -/
theorem rowRank_eq_of_checkIndependence {k r : ℕ} {vectors : List (List GF256)}
    (hlen : ∀ v ∈ vectors, v.length = k) (hrun : checkIndependence vectors = .ok r) :
    rowRank k vectors = r :=
  Outcome.ok.inj ((checkIndependence_eq hlen).symm.trans hrun)

/-! ## Orthogonal vectors -/

/-- Without existing vectors, the answer is the first unit vector whatever the offset. -/
theorem generateOrthogonalVector_nil {k : ℕ} (hk : 0 < k) (offset : ℕ) :
    generateOrthogonalVector [] k offset =
      if k ≤ isizeMax then .ok (some (unitRow k 0)) else .panic .capacityOverflow := by
  have hk' : k ≠ 0 := Nat.pos_iff_ne_zero.1 hk
  by_cases hcap : k ≤ isizeMax
  · simp [generateOrthogonalVector, hk', byteBuffer, withCapacity, hcap, unitRow]
  · simp [generateOrthogonalVector, hk', byteBuffer, withCapacity, hcap]

/-- With existing vectors that do not span everything, the answer is the unit vector at the free
column which the offset selects. -/
theorem generateOrthogonalVector_cons {k : ℕ} {existing : List (List GF256)} (hne : existing ≠ [])
    (hlen : ∀ v ∈ existing, v.length = k) (hrank : rowRank k existing < k) :
    ∃ pivots, PivotColumns k existing pivots ∧
      (∀ c < k, c ∈ pivots ↔ LeadingColumn k existing c) ∧
      ∀ offset, generateOrthogonalVector existing k offset =
        if k ≤ isizeMax then
          .ok (some (unitRow k
            ((freeColumns k pivots).getD (offset % (k - rowRank k existing)) 0)))
        else
          .panic .capacityOverflow := by
  rcases reduceColumns_pivotColumns (vectorOps_faithful k) hlen true with
    ⟨rows', pivots, hrun, hpiv, hleading⟩
  refine ⟨pivots, hpiv, hleading, ?_⟩
  intro offset
  have hk : k ≠ 0 := by omega
  -- the rank is below `k`, so neither early return is taken
  have hlt : ¬ k ≤ pivots.length := by
    rw [hpiv.length_eq]
    omega
  have hfree := hpiv.length_freeColumns
  have hfree' : freeColumns k pivots ≠ [] := by
    intro h
    rw [h, List.length_nil] at hfree
    omega
  have hidx : offset % (k - rowRank k existing) < (freeColumns k pivots).length := by
    rw [hfree]
    exact Nat.mod_lt _ (by omega)
  have hdef : ((List.range k).filter fun c => c ∉ pivots) = freeColumns k pivots := rfl
  by_cases hcap : k ≤ isizeMax
  · simp only [generateOrthogonalVector, hk, hne, hrun, hlt, hdef, hfree', hfree, if_false,
      Outcome.ok_bind, List.index_eq_getD 0 hidx, byteBuffer, withCapacity, hcap, if_true,
      Outcome.pure_eq, unitRow]
  · simp only [generateOrthogonalVector, hk, hne, hrun, hlt, hdef, hfree', hfree, if_false,
      Outcome.ok_bind, List.index_eq_getD 0 hidx, byteBuffer, withCapacity, hcap,
      Outcome.panic_bind]

/-- Offsets that differ modulo the number of free columns select different columns. -/
theorem nodup_selected {m : ℕ} {free : List ℕ} (hfree : free.Nodup) (hlen : free.length = m)
    (hm : 0 < m) {offsets : List ℕ} (hoff : (offsets.map (· % m)).Nodup) :
    (offsets.map fun o => free.getD (o % m) 0).Nodup := by
  have hmap : (offsets.map fun o => free.getD (o % m) 0) =
      (offsets.map (· % m)).map fun i => free.getD i 0 := by
    simp
  rw [hmap]
  refine hoff.map_on ?_
  intro i hi j hj hij
  have hlt : ∀ x ∈ offsets.map (· % m), x < free.length := by
    intro x hx
    rcases List.mem_map.1 hx with ⟨o, _, rfl⟩
    rw [hlen]
    exact Nat.mod_lt o hm
  have hi' := hlt i hi
  have hj' := hlt j hj
  have hget : free[i] = free[j] := by
    simpa [List.getD_eq_getElem?_getD, hi', hj'] using hij
  exact hfree.getElem_inj_iff.1 hget

/-- Simultaneous repairers that work from the same snapshot with these offsets all get a vector,
and each of the vectors adds one to the rank. -/
def RepairsIndependent (existing : List (List GF256)) (k : ℕ) (offsets : List ℕ) : Prop :=
  ∃ returned, offsets.mapM (generateOrthogonalVector existing k) = .ok (returned.map some) ∧
    rowRank k (existing ++ returned) = rowRank k existing + offsets.length

/-- Without existing vectors every repairer gets the same vector. -/
theorem repairsIndependent_nil {k : ℕ} (hk : 0 < k) {offsets : List ℕ} (hne : offsets ≠ []) :
    RepairsIndependent [] k offsets ↔ k ≤ isizeMax ∧ offsets.length = 1 := by
  have hvec := generateOrthogonalVector_nil hk
  by_cases hcap : k ≤ isizeMax
  · -- every offset is answered with the first unit vector
    have hrun : offsets.mapM (generateOrthogonalVector [] k) =
        .ok (offsets.map fun _ => some (unitRow k 0)) :=
      Outcome.mapM_eq_ok fun o _ => by simp [hvec o, hcap]
    -- the list of answers repeats one row, so it has the rank of that row
    have hsame : rowSpan k (offsets.map fun _ => unitRow k 0 : List (List GF256)) =
        rowSpan k ([0].map (unitRow k)) := by
      apply rowSpan_congr
      intro row
      simp [hne]
    have hrank : rowRank k (offsets.map fun _ => unitRow k 0 : List (List GF256)) = 1 := by
      have hunit := rowRank_unitRows (K := GF256) (n := k) (List.nodup_singleton 0)
        (by simpa using hk)
      rw [rowRank, hsame]
      exact hunit
    constructor
    · rintro ⟨returned, hret, hadd⟩
      have hmap : returned.map some = offsets.map fun _ => some (unitRow k 0) :=
        Outcome.ok.inj (hret.symm.trans hrun)
      have hret' : returned = offsets.map fun _ => unitRow k 0 := by
        apply List.map_injective_iff.2 (Option.some_injective _)
        simpa using hmap
      rw [hret', List.nil_append, rowRank_nil, hrank] at hadd
      exact ⟨hcap, by omega⟩
    · rintro ⟨_, hone⟩
      refine ⟨offsets.map fun _ => unitRow k 0, by simpa using hrun, ?_⟩
      rw [List.nil_append, hrank, rowRank_nil, hone]
  · have hpanic : ∀ o, generateOrthogonalVector [] k o = .panic .capacityOverflow :=
      fun o => by simp [hvec o, hcap]
    rcases List.exists_cons_of_ne_nil hne with ⟨o, os, rfl⟩
    simp [RepairsIndependent, hpanic, hcap]

/-- With existing vectors every repairer gets a column of its own. -/
theorem repairsIndependent_cons {k : ℕ} {existing : List (List GF256)} (hne : existing ≠ [])
    (hlen : ∀ v ∈ existing, v.length = k) (hrank : rowRank k existing < k) {offsets : List ℕ}
    (hoff : (offsets.map (· % (k - rowRank k existing))).Nodup) (hne' : offsets ≠ []) :
    RepairsIndependent existing k offsets ↔ k ≤ isizeMax := by
  rcases generateOrthogonalVector_cons hne hlen hrank with ⟨pivots, hpiv, -, hvec⟩
  by_cases hcap : k ≤ isizeMax
  · let column := fun o => (freeColumns k pivots).getD (o % (k - rowRank k existing)) 0
    have hrun : offsets.mapM (generateOrthogonalVector existing k) =
        .ok (offsets.map fun o => some (unitRow k (column o))) :=
      Outcome.mapM_eq_ok fun o _ => by simp [hvec o, hcap, column]
    have hpos : 0 < k - rowRank k existing := by omega
    -- the columns chosen are different, and none carries a pivot
    have hnodup := nodup_selected (nodup_freeColumns pivots) hpiv.length_freeColumns hpos hoff
    have hcols : ∀ c ∈ offsets.map column, c < k ∧ c ∉ pivots := by
      intro c hc
      rcases List.mem_map.1 hc with ⟨o, _, rfl⟩
      have hidx : o % (k - rowRank k existing) < (freeColumns k pivots).length := by
        rw [hpiv.length_freeColumns]
        exact Nat.mod_lt o hpos
      have hmem : column o ∈ freeColumns k pivots := by
        simp [column, List.getD_eq_getElem?_getD, hidx]
      exact mem_freeColumns.1 hmem
    have hadd := rowRank_append_unitRows hpiv hnodup hcols
    refine iff_of_true ⟨(offsets.map column).map (unitRow k), ?_, ?_⟩ hcap
    · simpa [Function.comp_def] using hrun
    · rw [hadd, List.length_map]
  · have hpanic : ∀ o, generateOrthogonalVector existing k o = .panic .capacityOverflow :=
      fun o => by simp [hvec o, hcap]
    rcases List.exists_cons_of_ne_nil hne' with ⟨o, os, rfl⟩
    simp [RepairsIndependent, hpanic, hcap]

/-- Simultaneous repairs never collide, except that without existing vectors only one repairer is
served: the special case of the empty list does not look at the offset. -/
theorem repairsIndependent_iff {k : ℕ} (hk : 0 < k) {existing : List (List GF256)}
    (hlen : ∀ v ∈ existing, v.length = k) (hrank : rowRank k existing < k) {offsets : List ℕ}
    (hoff : (offsets.map (· % (k - rowRank k existing))).Nodup) :
    RepairsIndependent existing k offsets ↔
      offsets = [] ∨ (k ≤ isizeMax ∧ (existing ≠ [] ∨ offsets.length = 1)) := by
  by_cases hnil : offsets = []
  · subst hnil
    exact iff_of_true ⟨[], rfl, by simp⟩ (Or.inl rfl)
  · by_cases hne : existing = []
    · subst hne
      simp [repairsIndependent_nil hk hnil, hnil]
    · simp [repairsIndependent_cons hne hlen hrank hoff hnil, hnil, hne]

/-- The rank of the known vector of the samples. -/
theorem rowRank_first_unit : rowRank 3 ([[1, 0, 0]] : List (List GF256)) = 1 :=
  rowRank_eq_of_checkIndependence (by simp) (by decide +kernel)

/-- The condition at work: one vector of length three is known and two nodes repair. -/
theorem repairsIndependent_two_offsets : RepairsIndependent [[1, 0, 0]] 3 [0, 1] := by
  have hlen : ∀ v ∈ ([[1, 0, 0]] : List (List GF256)), v.length = 3 := by simp
  have hone := rowRank_first_unit
  exact (repairsIndependent_iff (by decide) hlen (by rw [hone]; decide) (by rw [hone]; decide)).2
    (Or.inr ⟨by decide, Or.inl (by simp)⟩)

/-- Two nodes that start a segment's repair from an empty snapshot, with offsets 0 and 1, get the
same vector. -/
theorem repairs_collide_from_empty :
    0 < 2 ∧ rowRank 2 ([] : List (List GF256)) < 2 ∧
      (([0, 1] : List ℕ).map (· % (2 - rowRank 2 ([] : List (List GF256))))).Nodup ∧
      [0, 1].mapM (generateOrthogonalVector [] 2) = .ok [some [1, 0], some [1, 0]] ∧
      ¬ RepairsIndependent [] 2 [0, 1] := by
  refine ⟨by decide, by simp, by simp, by decide +kernel, ?_⟩
  rw [repairsIndependent_nil (by decide) (by decide)]
  decide

/-! ## Orthogonal pieces -/

/-- A returned orthogonal piece is a combination of the local pieces. -/
theorem createOrthogonalPiece_eq_some {localPieces : List CodedPiece}
    {existing : List (List GF256)} {k offset : ℕ} {p : CodedPiece}
    (h : createOrthogonalPiece localPieces existing k offset = .ok (some p)) :
    ∃ first ∈ localPieces, ∃ alphas, p = combineLocal localPieces alphas first.data.length k := by
  cases localPieces with
  | nil => simp [createOrthogonalPiece] at h
  | cons first rest =>
      -- follow the one branch that returns a piece; all others return `none`
      simp only [createOrthogonalPiece] at h
      split at h
      · simp at h
      rcases Outcome.bind_eq_ok.1 h with ⟨target, _, h⟩
      cases target with
      | none => simp at h
      | some target =>
          simp only at h
          rcases Outcome.bind_eq_ok.1 h with ⟨aug, _, h⟩
          rcases Outcome.bind_eq_ok.1 h with ⟨reduced, _, h⟩
          cases reduced with
          | none => simp at h
          | some reduced =>
              simp only at h
              rcases Outcome.bind_eq_ok.1 h with ⟨found, _, h⟩
              cases found with
              | some i => simp at h
              | none =>
                  simp only at h
                  rcases Outcome.bind_eq_ok.1 h with ⟨alphas, _, h⟩
                  have hp := Option.some.inj (Outcome.ok.inj h)
                  exact ⟨first, List.mem_cons_self, alphas, hp.symm⟩

/-- Repair stays within the pieces of a segment. -/
theorem ofSegment_createOrthogonalPiece {sources : List (List GF256)} {pieceSize : ℕ}
    {localPieces : List CodedPiece} {existing : List (List GF256)} {offset : ℕ} {p : CodedPiece}
    (hlocal : ∀ q ∈ localPieces, q.OfSegment sources pieceSize)
    (h : createOrthogonalPiece localPieces existing sources.length offset = .ok (some p)) :
    p.OfSegment sources pieceSize := by
  rcases createOrthogonalPiece_eq_some h with ⟨first, hfirst, alphas, rfl⟩
  rw [combineLocal, (hlocal first hfirst).data_length]
  refine CodedPiece.ofSegment_foldl ?_ ?_
  · intro acc piece alpha
    by_cases ha : alpha = 0
    · exact Or.inr ⟨ha, by simp [ha]⟩
    · exact Or.inl (by simp [ha])
  · intro pa hpa
    exact hlocal pa.1 (List.of_mem_zip hpa).1

/-! ## Derived pieces -/

/-- The pieces that nodes can obtain from some given ones by recombination and repair, to any
depth. -/
inductive Derived (k : ℕ) (given : CodedPiece → Prop) : CodedPiece → Prop
  | given (p : CodedPiece) : given p → Derived k given p
  | recombine (pieces : List CodedPiece) (alpha : ℕ → {a : GF256 // a ≠ 0}) (p : CodedPiece) :
      (∀ q ∈ pieces, Derived k given q) → createPieceFromExisting pieces alpha = .ok p →
        Derived k given p
  | repair (localPieces : List CodedPiece) (existing : List (List GF256)) (offset : ℕ)
      (p : CodedPiece) :
      (∀ q ∈ localPieces, Derived k given q) →
        createOrthogonalPiece localPieces existing k offset = .ok (some p) → Derived k given p

/-- Whatever is derived from pieces of a segment is a piece of that segment. -/
theorem ofSegment_derived {sources : List (List GF256)} {pieceSize : ℕ}
    {given : CodedPiece → Prop} (hgiven : ∀ p, given p → p.OfSegment sources pieceSize)
    {p : CodedPiece} (h : Derived sources.length given p) : p.OfSegment sources pieceSize := by
  induction h with
  | given p hp => exact hgiven p hp
  | recombine pieces alpha p _ hrun ih => exact ofSegment_createPieceFromExisting ih hrun
  | repair localPieces existing offset p _ hrun ih => exact ofSegment_createOrthogonalPiece ih hrun

end Erasure
end CraftecCore
