import CraftecCore.Erasure.Independence
import CraftecCore.Library.RowSolve

/-!
# Repair — when a node can help

`create_orthogonal_piece` picks a unit vector at a column in which no combination of the known
coefficient vectors starts, and solves for scalars that combine the local pieces to that vector.
It answers with a piece exactly when the vector is a combination of the local coefficients.  A node
whose pieces are independent of the known ones, but span no such unit vector, does not help.
-/

namespace CraftecCore
namespace Erasure

open GF256 RowReduction RowVector

/-! ## The linear system -/

def systemRow (localPieces : List CodedPiece) (target : List GF256) (j : ℕ) : List GF256 :=
  localPieces.map (fun piece => piece.coefficients.getD j 0) ++ [target.getD j 0]

section System

variable {localPieces : List CodedPiece} {target : List GF256} {k : ℕ}

theorem augmentedRows_eq_ok (hlocal : ∀ p ∈ localPieces, k ≤ p.coefficients.length)
    (htarget : target.length = k) :
    (List.range k).mapM (augmentedRow localPieces target) =
      .ok ((List.range k).map (systemRow localPieces target)) := by
  apply Outcome.mapM_eq_ok
  intro j hj
  have hjk : j < k := List.mem_range.1 hj
  have hrow : localPieces.mapM (fun piece => piece.coefficients.index j) =
      .ok (localPieces.map fun piece => piece.coefficients.getD j 0) :=
    Outcome.mapM_eq_ok fun p hp => List.index_eq_getD 0 (lt_of_lt_of_le hjk (hlocal p hp))
  have ht := List.index_eq_getD (0 : GF256) (show j < target.length by simpa [htarget] using hjk)
  simp [augmentedRow, hrow, ht, systemRow]

def system (localPieces : List CodedPiece) (target : List GF256) (k : ℕ) :
    Fin k → Fin (localPieces.length + 1) → GF256 :=
  fun j => toVec (localPieces.length + 1) (systemRow localPieces target j.val)

/-- The loop reduces the unknowns and keeps the solutions. -/
theorem reduceSystem (localPieces : List CodedPiece) (target : List GF256) (k : ℕ) :
    ∃ (rows : List (List GF256)) (A : Fin k → Fin (localPieces.length + 1) → GF256)
      (pivots : List ℕ),
      reduceColumns vectorOps false k (List.range localPieces.length)
        ((List.range k).map (systemRow localPieces target)) [] = .ok (some (rows, pivots)) ∧
      Represents (fun row => row.length = localPieces.length + 1)
        (toVec (localPieces.length + 1)) rows A ∧
      Reduced (coordinate (localPieces.length + 1)) A localPieces.length pivots ∧
      ∀ x, Solves A x ↔ Solves (system localPieces target k) x := by
  have hrep : Represents (fun row => row.length = localPieces.length + 1)
      (toVec (localPieces.length + 1)) ((List.range k).map (systemRow localPieces target))
      (system localPieces target k) :=
    { length := by simp
      good := by simp [systemRow]
      view := by simp [system] }
  have hF := (vectorOps_faithful (localPieces.length + 1)).mono (Nat.le_succ localPieces.length)
  rcases reduceColumns_spec hF (Or.inr rfl) localPieces.length 0 _ _ [] (Nat.zero_add _) hrep
    (Echelon.init _ _) with ⟨rows, A, pivots, hrun, hrep', hspan, hred⟩
  exact ⟨rows, A, pivots, by simpa [List.range_eq_range'] using hrun, hrep', hred.toReduced,
    solves_congr hspan⟩

/-- The solutions are the scalars that combine the local coefficients to the target. -/
theorem solves_system (x : Fin localPieces.length → GF256) :
    Solves (system localPieces target k) x ↔
      ∑ i, x i • toVec k (localPieces.get i).coefficients = toVec k target := by
  apply solves_iff
  intro j
  have hmap : localPieces.map (fun piece => piece.coefficients.getD j 0) =
      List.ofFn fun i => (localPieces.get i).coefficients.getD j 0 := by
    apply List.ext_getElem
    · simp
    · simp
  rw [system, systemRow, hmap]

/-- There is a solution exactly when the target is a combination of the local coefficients. -/
theorem exists_solves_system :
    (∃ x, Solves (system localPieces target k) x) ↔
      toVec k target ∈ rowSpan k (localPieces.map CodedPiece.coefficients) := by
  have hspan : rowSpan k (localPieces.map CodedPiece.coefficients) =
      Submodule.span GF256 (Set.range fun i => toVec k (localPieces.get i).coefficients) :=
    rowSpan_eq_range (by simp) (by simp)
  rw [hspan, Submodule.mem_span_range_iff_exists_fun]
  simp only [solves_system]

end System

/-! ## The scalars -/

/-- The loop that reads off the scalars writes the right-hand sides at the pivots. -/
theorem extractAlphas_loop {aug : List (List GF256)} {n : ℕ} {e : ℕ → GF256} :
    ∀ (pivots : List ℕ) (start : ℕ) (alphas : List GF256), pivots.Nodup →
      (∀ c ∈ pivots, c < alphas.length) →
      (∀ t < pivots.length, ∃ row, aug.index (start + t) = .ok row ∧
        row.index n = .ok (e (start + t))) →
      ∃ alphas', (pivots.zipIdx start).foldlM
          (fun alphas (col, idx) => do
            let row ← aug.index idx
            let x ← row.index n
            pure (alphas.set col x)) alphas = .ok alphas' ∧
        alphas'.length = alphas.length ∧
        (∀ c, c ∉ pivots → alphas'.getD c 0 = alphas.getD c 0) ∧
        ∀ (t : ℕ) (ht : t < pivots.length), alphas'.getD pivots[t] 0 = e (start + t)
  | [], _, alphas, _, _, _ => ⟨alphas, by simp, rfl, by simp, by simp⟩
  | col :: pivots, start, alphas, hnodup, hlt, hread => by
      rcases hread 0 (by simp) with ⟨row, hrow, hx⟩
      rcases List.nodup_cons.1 hnodup with ⟨hcol, hnodup'⟩
      have hread' : ∀ t < pivots.length, ∃ row, aug.index (start + 1 + t) = .ok row ∧
          row.index n = .ok (e (start + 1 + t)) := by
        intro t ht
        have hidx : start + 1 + t = start + (t + 1) := by omega
        simpa [hidx] using hread (t + 1) (by simpa using ht)
      rcases extractAlphas_loop pivots (start + 1) (alphas.set col (e start)) hnodup'
        (by simpa using fun c hc => hlt c (List.mem_cons_of_mem _ hc)) hread' with
        ⟨alphas', hrun, hlen, hfree, hpivot⟩
      refine ⟨alphas', ?_, by simpa using hlen, ?_, ?_⟩
      · have hrow' : aug.index start = .ok row := hrow
        have hx' : row.index n = .ok (e start) := hx
        simpa [List.zipIdx_cons, hrow', hx'] using hrun
      · intro c hc
        have hne : col ≠ c := fun h => hc (h ▸ List.mem_cons_self)
        have hc' : c ∉ pivots := fun h => hc (List.mem_cons_of_mem _ h)
        simpa [hne] using hfree c hc'
      · intro t ht
        cases t with
        | zero =>
            -- the entry just written, which later rounds leave alone
            simpa [hlt col List.mem_cons_self] using hfree col hcol
        | succ t =>
            have hidx : start + 1 + t = start + (t + 1) := by omega
            simpa [hidx] using hpivot t (by simpa using ht)

theorem extractAlphas_readsOff {n k : ℕ} {rows : List (List GF256)}
    {A : Fin k → Fin (n + 1) → GF256} {pivots : List ℕ}
    (hrep : Represents (fun row => row.length = n + 1) (toVec (n + 1)) rows A)
    (hred : Reduced (coordinate (n + 1)) A n pivots) :
    ∃ alphas, extractAlphas rows pivots n = .ok alphas ∧ alphas.length = n ∧
      ReadsOff A pivots (toVec n alphas) := by
  let rhs : ℕ → GF256 := fun t => (rows.getD t []).getD n 0
  have hread : ∀ t < pivots.length, ∃ row, rows.index (0 + t) = .ok row ∧
      row.index n = .ok (rhs (0 + t)) := by
    intro t ht
    have hlt : t < rows.length := by
      rw [hrep.length]
      exact lt_of_lt_of_le ht hred.length_le
    have hlen : (rows.getD t []).length = n + 1 := by
      simpa [hlt] using hrep.good _ (List.getElem_mem hlt)
    rw [Nat.zero_add]
    exact ⟨_, List.index_eq_getD [] hlt, List.index_eq_getD 0 (by rw [hlen]; exact n.lt_succ_self)⟩
  rcases extractAlphas_loop (e := rhs) pivots 0 (List.replicate n 0) hred.nodup
    (by simpa using hred.pivot_lt) hread with ⟨alphas, hrun, hlen, hfree, hpivot⟩
  refine ⟨alphas, hrun, by simpa using hlen, ?_, ?_⟩
  · intro i hi
    simpa [toVec_apply] using hfree i.val hi
  · intro t ht i j hi hj
    have hlt : t < rows.length := by
      rw [hrep.length, ← hj]
      exact j.isLt
    have hview : toVec (n + 1) rows[t] = A j := by
      subst hj
      exact hrep.view j.val hlt j.isLt
    rw [toVec_apply, hi, hpivot t ht, ← hview, coordinate_toVec (Nat.lt_succ_self n)]
    simp [rhs, hlt]

/-- The combination of the local pieces has the combined coefficients. -/
theorem combineLocal_coefficients {localPieces : List CodedPiece} {alphas : List GF256} {k : ℕ}
    (hlocal : ∀ p ∈ localPieces, p.coefficients.length = k)
    (hlen : alphas.length = localPieces.length) (pieceSize : ℕ) :
    (combineLocal localPieces alphas pieceSize k).coefficients.length = k ∧
      toVec k (combineLocal localPieces alphas pieceSize k).coefficients =
        ∑ i, toVec localPieces.length alphas i • toVec k (localPieces.get i).coefficients := by
  have hmul : ∀ a x y : GF256, add x (mul a y) = x + a * y := fun _ _ _ => rfl
  have hfold := foldl_accumulate (fun acc : CodedPiece => acc.coefficients.length = k)
    (fun acc => toVec k acc.coefficients)
    (fun pa : CodedPiece × GF256 => pa.2 • toVec k pa.1.coefficients)
    (fun acc pa => if pa.2 = 0 then acc else acc.mulAdd pa.1 pa.2) (localPieces.zip alphas)
    (CodedPiece.zero pieceSize k) (by simp [CodedPiece.zero])
    (by
      -- a round that is skipped adds zero times its piece
      intro acc pa hpa hacc
      have hpiece := hlocal pa.1 (List.of_mem_zip hpa).1
      by_cases hz : pa.2 = 0
      · simp [hz, hacc]
      · simp [hz, CodedPiece.mulAdd, hacc, toVec_zipMut (hmul pa.2) hacc hpiece])
  refine ⟨hfold.1, ?_⟩
  rw [combineLocal, hfold.2, sum_map_zip rfl hlen]
  simp only [CodedPiece.zero, toVec_replicate, zero_add]
  refine Finset.sum_congr rfl ?_
  intro i _
  rw [toVec_eq_get hlen i]
  rfl

/-! ## When a piece is returned -/

/-- The offset only matters through the target. -/
theorem createOrthogonalPiece_congr {existing : List (List GF256)} {k o o' : ℕ}
    (h : generateOrthogonalVector existing k o = generateOrthogonalVector existing k o')
    (localPieces : List CodedPiece) :
    createOrthogonalPiece localPieces existing k o =
      createOrthogonalPiece localPieces existing k o' := by
  simp only [createOrthogonalPiece, h]

/-- The search for an inconsistent row finds one, or the right-hand sides of the rows without a
pivot are zero. -/
theorem findPivot_residual {n k : ℕ} {rows : List (List GF256)}
    {A : Fin k → Fin (n + 1) → GF256}
    (hrep : Represents (fun row => row.length = n + 1) (toVec (n + 1)) rows A) (rank : ℕ) :
    (findPivot (fun row : List GF256 => row.index n) 0 (rows.drop rank) = .ok none ∧
      ∀ j : Fin k, rank ≤ j.val → coordinate (n + 1) n (A j) = 0) ∨
    (∃ t, findPivot (fun row : List GF256 => row.index n) 0 (rows.drop rank) = .ok (some t) ∧
      ∃ j : Fin k, rank ≤ j.val ∧ coordinate (n + 1) n (A j) ≠ 0) := by
  have hrhs : ∀ (j : ℕ) (hj : j < rows.length) (hj' : j < k),
      rows[j].getD n 0 = coordinate (n + 1) n (A ⟨j, hj'⟩) := by
    intro j hj hj'
    rw [← hrep.view j hj hj', coordinate_toVec (Nat.lt_succ_self n)]
  have hentry : ∀ row ∈ rows.drop rank, row.index n = .ok (row.getD n 0) := by
    intro row hrow
    have hlen := hrep.good row (List.mem_of_mem_drop hrow)
    exact List.index_eq_getD 0 (by rw [hlen]; exact n.lt_succ_self)
  rcases findPivot_spec (fun row => row.index n) (fun row : List GF256 => row.getD n 0) 0 _ hentry
    with ⟨hnone, hall⟩ | ⟨t, ht, hsome, hnz⟩
  · refine Or.inl ⟨hnone, ?_⟩
    intro j hj
    have hlt : j.val < rows.length := by simp [hrep.length]
    rw [← hrhs j.val hlt j.isLt]
    exact hall _ (List.mem_drop_iff_getElem.2
      ⟨j.val - rank, by omega, by simp [Nat.add_sub_cancel' hj]⟩)
  · have hlt : rank + t < rows.length := by
      rw [List.length_drop] at ht
      omega
    have hlt' : rank + t < k := by
      rw [← hrep.length]
      exact hlt
    refine Or.inr ⟨0 + t, hsome, ⟨rank + t, hlt'⟩, Nat.le_add_right _ _, ?_⟩
    rw [← hrhs _ hlt hlt']
    simpa using hnz

/-- Once a target is chosen, the local pieces are combined with a solution of the system, or there
is none. -/
theorem createOrthogonalPiece_cases {localPieces : List CodedPiece}
    {existing : List (List GF256)} {k offset : ℕ} {target : List GF256} (hne : localPieces ≠ [])
    (hk : 0 < k) (hlocal : ∀ p ∈ localPieces, k ≤ p.coefficients.length)
    (hgen : generateOrthogonalVector existing k offset = .ok (some target))
    (htarget : target.length = k) :
    (∃ alphas size, alphas.length = localPieces.length ∧
      Solves (system localPieces target k) (toVec localPieces.length alphas) ∧
      createOrthogonalPiece localPieces existing k offset =
        .ok (some (combineLocal localPieces alphas size k))) ∨
    ((¬ ∃ x, Solves (system localPieces target k) x) ∧
      createOrthogonalPiece localPieces existing k offset = .ok none) := by
  rcases List.exists_cons_of_ne_nil hne with ⟨first, rest, hcons⟩
  have haug := augmentedRows_eq_ok hlocal htarget
  rcases reduceSystem localPieces target k with ⟨rows, A, pivots, hrun, hrep, hred, hsolves⟩
  rcases extractAlphas_readsOff hrep hred with ⟨alphas, halphas, hlen, hreads⟩
  have htake : rows.take k = rows := List.take_of_length_le (le_of_eq hrep.length)
  have hk' : k ≠ 0 := Nat.pos_iff_ne_zero.1 hk
  rcases findPivot_residual hrep pivots.length with
    ⟨hnone, hzero⟩ | ⟨t, hsome, j, hj, hnz⟩
  · -- consistent: the scalars solve the system
    have hsol := (hsolves _).1 (hred.solves hzero hreads)
    refine Or.inl ⟨alphas, first.data.length, hlen, hsol, ?_⟩
    subst hcons
    simp only [createOrthogonalPiece, hk', if_false, hgen, haug, Outcome.ok_bind, hrun, htake,
      hnone, halphas, Outcome.pure_eq]
  · -- an inconsistent row: there is no solution
    refine Or.inr ⟨?_, ?_⟩
    · rintro ⟨x, hx⟩
      exact hnz (hred.rhs_eq_zero ((hsolves x).2 hx) hj)
    · subst hcons
      simp only [createOrthogonalPiece, hk', if_false, hgen, haug, Outcome.ok_bind, hrun, htake,
        hsome, Outcome.pure_eq]

/-- Once a target is chosen, a piece is returned exactly when the local coefficients combine to it,
and then it has the target as its coefficients. -/
theorem createOrthogonalPiece_of_target {localPieces : List CodedPiece}
    {existing : List (List GF256)} {k offset : ℕ} {target : List GF256} (hne : localPieces ≠ [])
    (hk : 0 < k) (hlocal : ∀ p ∈ localPieces, p.coefficients.length = k)
    (hgen : generateOrthogonalVector existing k offset = .ok (some target))
    (htarget : target.length = k) :
    (toVec k target ∈ rowSpan k (localPieces.map CodedPiece.coefficients) ∧
      ∃ p, createOrthogonalPiece localPieces existing k offset = .ok (some p) ∧
        p.coefficients = target) ∨
    (toVec k target ∉ rowSpan k (localPieces.map CodedPiece.coefficients) ∧
      createOrthogonalPiece localPieces existing k offset = .ok none) := by
  have hwide : ∀ p ∈ localPieces, k ≤ p.coefficients.length :=
    fun p hp => (hlocal p hp).symm.le
  rcases createOrthogonalPiece_cases hne hk hwide hgen htarget with
    ⟨alphas, size, hlen, hsol, hp⟩ | ⟨hnone, hp⟩
  · rcases combineLocal_coefficients hlocal hlen size with ⟨hplen, hpvec⟩
    exact Or.inl ⟨exists_solves_system.1 ⟨_, hsol⟩, _, hp,
      eq_of_toVec_eq hplen htarget (hpvec.trans (solves_system _ |>.1 hsol))⟩
  · exact Or.inr ⟨fun hmem => hnone (exists_solves_system.2 hmem), hp⟩

/-- The targets are the unit vectors at columns in which no combination of the known vectors
starts. -/
theorem generateOrthogonalVector_target {k : ℕ} (hk : 0 < k) (hcap : k ≤ isizeMax)
    {existing : List (List GF256)} (hlen : ∀ v ∈ existing, v.length = k)
    (hrank : rowRank k existing < k) (offset : ℕ) :
    ∃ c < k, ¬ LeadingColumn k existing c ∧
      generateOrthogonalVector existing k offset = .ok (some (unitRow k c)) ∧
      rowRank k (existing ++ [unitRow k c]) = rowRank k existing + 1 := by
  by_cases hne : existing = []
  · subst hne
    refine ⟨0, hk, ?_, by rw [generateOrthogonalVector_nil hk, if_pos hcap], ?_⟩
    · rintro ⟨v, hv, hnz, -⟩
      have hv0 : v = 0 := by simpa [rowSpan] using hv
      exact hnz (by simp [hv0])
    · have hunit := rowRank_unitRows (K := GF256) (n := k) (List.nodup_singleton 0)
        (by simpa using hk)
      simpa using hunit
  · rcases generateOrthogonalVector_cons hne hlen hrank with ⟨pivots, hpiv, hleading, hvec⟩
    have hidx : offset % (k - rowRank k existing) < (freeColumns k pivots).length := by
      rw [hpiv.length_freeColumns]
      exact Nat.mod_lt _ (by omega)
    have hmem : (freeColumns k pivots).getD (offset % (k - rowRank k existing)) 0 ∈
        freeColumns k pivots := by
      simp [List.getD_eq_getElem?_getD, hidx]
    rcases mem_freeColumns.1 hmem with ⟨hc, hfree⟩
    refine ⟨_, hc, fun h => hfree ((hleading _ hc).2 h), by rw [hvec, if_pos hcap], ?_⟩
    simpa using rowRank_append_unitRows hpiv (List.nodup_singleton _) (by simpa using ⟨hc, hfree⟩)

/-- With some vectors known, every such column is the target of some offset. -/
theorem exists_offset_of_free {k : ℕ} (hcap : k ≤ isizeMax) {existing : List (List GF256)}
    (hne : existing ≠ []) (hlen : ∀ v ∈ existing, v.length = k) (hrank : rowRank k existing < k)
    {c : ℕ} (hc : c < k) (hfree : ¬ LeadingColumn k existing c) :
    ∃ offset, generateOrthogonalVector existing k offset = .ok (some (unitRow k c)) := by
  rcases generateOrthogonalVector_cons hne hlen hrank with ⟨pivots, hpiv, hleading, hvec⟩
  have hmem : c ∈ freeColumns k pivots :=
    mem_freeColumns.2 ⟨hc, fun h => hfree ((hleading c hc).1 h)⟩
  rcases List.getElem_of_mem hmem with ⟨offset, hoff, rfl⟩
  refine ⟨offset, ?_⟩
  have hmod : offset % (k - rowRank k existing) = offset := by
    rw [← hpiv.length_freeColumns]
    exact Nat.mod_eq_of_lt hoff
  rw [hvec, if_pos hcap, hmod]
  simp [hoff]

/-- A piece that is returned always adds to the rank.  An offset gives up only when the local pieces
cannot be combined to its target; with some vectors known, some offset is served exactly when the
local pieces span the unit vector of a free column. -/
theorem createOrthogonalPiece_serves {k : ℕ} (hk : 0 < k) (hcap : k ≤ isizeMax)
    {existing : List (List GF256)} (hlen : ∀ v ∈ existing, v.length = k)
    (hrank : rowRank k existing < k) {localPieces : List CodedPiece} (hne : localPieces ≠ [])
    (hlocal : ∀ p ∈ localPieces, p.coefficients.length = k) :
    (∀ offset p, createOrthogonalPiece localPieces existing k offset = .ok (some p) →
      toVec k p.coefficients ∈ rowSpan k (localPieces.map CodedPiece.coefficients) ∧
      rowRank k (existing ++ [p.coefficients]) = rowRank k existing + 1) ∧
    (∀ offset, ∃ target, generateOrthogonalVector existing k offset = .ok (some target) ∧
      ((∃ p, createOrthogonalPiece localPieces existing k offset = .ok (some p) ∧
          p.coefficients = target) ∨
        (createOrthogonalPiece localPieces existing k offset = .ok none ∧
          toVec k target ∉ rowSpan k (localPieces.map CodedPiece.coefficients)))) ∧
    (existing ≠ [] →
      ((∃ offset p, createOrthogonalPiece localPieces existing k offset = .ok (some p)) ↔
        ∃ c < k, ¬ LeadingColumn k existing c ∧
          toVec k (unitRow k c) ∈ rowSpan k (localPieces.map CodedPiece.coefficients))) := by
  have htarget := generateOrthogonalVector_target hk hcap hlen hrank
  refine ⟨?_, ?_, ?_⟩
  · intro offset p hp
    rcases htarget offset with ⟨c, -, -, hgen, hadd⟩
    rcases createOrthogonalPiece_of_target hne hk hlocal hgen (length_unitRow k c) with
      ⟨hmem, p', hp', hcoeff⟩ | ⟨-, hnone⟩
    · have heq : p = p' := by simpa using hp.symm.trans hp'
      rw [heq, hcoeff]
      exact ⟨hmem, hadd⟩
    · simp [hp] at hnone
  · intro offset
    rcases htarget offset with ⟨c, -, -, hgen, -⟩
    refine ⟨_, hgen, ?_⟩
    rcases createOrthogonalPiece_of_target hne hk hlocal hgen (length_unitRow k c) with
      ⟨-, hp⟩ | ⟨hnot, hnone⟩
    · exact Or.inl hp
    · exact Or.inr ⟨hnone, hnot⟩
  · intro hex
    constructor
    · rintro ⟨offset, p, hp⟩
      rcases htarget offset with ⟨c, hc, hfree, hgen, -⟩
      rcases createOrthogonalPiece_of_target hne hk hlocal hgen (length_unitRow k c) with
        ⟨hmem, -⟩ | ⟨-, hnone⟩
      · exact ⟨c, hc, hfree, hmem⟩
      · simp [hp] at hnone
    · rintro ⟨c, hc, hfree, hmem⟩
      rcases exists_offset_of_free hcap hex hlen hrank hc hfree with ⟨offset, hgen⟩
      rcases createOrthogonalPiece_of_target hne hk hlocal hgen (length_unitRow k c) with
        ⟨-, p, hp, -⟩ | ⟨hnot, -⟩
      · exact ⟨offset, p, hp⟩
      · exact absurd hmem hnot

/-- The condition at work: the local piece is the unit vector of the first free column. -/
theorem createOrthogonalPiece_serves_unit :
    rowRank 3 ([[1, 0, 0]] ++ [[0, 1, 0]] : List (List GF256)) =
      rowRank 3 ([[1, 0, 0]] : List (List GF256)) + 1 :=
  ((createOrthogonalPiece_serves (by decide) (by decide) (by simp)
    (by rw [rowRank_first_unit]; decide)
    (show [({ data := [7], coefficients := [0, 1, 0] } : CodedPiece)] ≠ [] by simp) (by simp)).1 0
      { data := [7], coefficients := [0, 1, 0] } (by decide +kernel)).2

/-- One known vector and one local piece that is independent of it: every offset gives up, since
the piece is a multiple of no unit vector. -/
theorem createOrthogonalPiece_gives_up :
    rowRank 3 ([[1, 0, 0]] : List (List GF256)) < 3 ∧
      rowRank 3 ([[1, 0, 0]] : List (List GF256)) <
        rowRank 3 ([[1, 0, 0]] ++ [[0, 1, 1]] : List (List GF256)) ∧
      ∀ offset, createOrthogonalPiece [{ data := [7], coefficients := [0, 1, 1] }] [[1, 0, 0]] 3
        offset = .ok none := by
  have hlen : ∀ v ∈ ([[1, 0, 0]] : List (List GF256)), v.length = 3 := by simp
  have htwo : rowRank 3 ([[1, 0, 0]] ++ [[0, 1, 1]] : List (List GF256)) = 2 :=
    rowRank_eq_of_checkIndependence (by simp) (by decide +kernel)
  have hlt : rowRank 3 ([[1, 0, 0]] : List (List GF256)) < 3 := by
    rw [rowRank_first_unit]
    decide
  refine ⟨hlt, by rw [rowRank_first_unit, htwo]; decide, ?_⟩
  intro offset
  -- only the offset modulo the two free columns matters
  rcases generateOrthogonalVector_cons (by simp) hlen hlt with ⟨pivots, -, -, hvec⟩
  have hmod : generateOrthogonalVector [[1, 0, 0]] 3 offset =
      generateOrthogonalVector [[1, 0, 0]] 3 (offset % 2) := by
    rw [hvec, hvec, rowRank_first_unit, Nat.mod_mod]
  rw [createOrthogonalPiece_congr hmod]
  rcases Nat.mod_two_eq_zero_or_one offset with h | h
  · rw [h]
    decide +kernel
  · rw [h]
    decide +kernel

end Erasure
end CraftecCore
