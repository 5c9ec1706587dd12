import CraftecCore.Library.RowRank
import Mathlib.GroupTheory.GroupAction.Ring

/-!
# RowSolve — linear systems by elimination on the augmented rows

A system `∑ i, x i • columns i = b` is kept as its augmented rows: entry `j` of every column, then
entry `j` of `b`.  A solution is a vector `x` whose *residual* vanishes on every row, and the
residual is linear, so elimination keeps the solutions.  Once the unknowns are reduced, the rows
without a pivot decide whether there is a solution, and the last entries of the others are one.
-/

namespace RowReduction

open Submodule RowVector

variable {K : Type} [Field K] {n m : ℕ}

/-! ## Residuals -/

/-- What is left of an augmented row when `x` is substituted for the unknowns. -/
def residual (x : Fin n → K) : (Fin (n + 1) → K) →ₗ[K] K :=
  ∑ i, x i • coordinate (n + 1) i.val - coordinate (n + 1) n

theorem residual_apply (x : Fin n → K) (v : Fin (n + 1) → K) :
    residual x v = ∑ i, x i * coordinate (n + 1) i.val v - coordinate (n + 1) n v := by
  simp [residual]

def Solves (A : Fin m → Fin (n + 1) → K) (x : Fin n → K) : Prop :=
  ∀ j, residual x (A j) = 0

/-- The solutions only depend on the span of the equations. -/
theorem solves_congr {A A' : Fin m → Fin (n + 1) → K}
    (hspan : span K (Set.range A') = span K (Set.range A)) (x : Fin n → K) :
    Solves A' x ↔ Solves A x := by
  have hker : ∀ B : Fin m → Fin (n + 1) → K,
      Solves B x ↔ span K (Set.range B) ≤ LinearMap.ker (residual x) := by
    intro B
    rw [span_le, Set.range_subset_iff]
    rfl
  rw [hker, hker, hspan]

/-! ## Reading off a solution -/

section Reduced

variable {A : Fin m → Fin (n + 1) → K} {pivots : List ℕ}

/-- Where there is a solution, a row without a pivot has nothing on the right-hand side. -/
theorem Reduced.rhs_eq_zero (h : Reduced (coordinate (n + 1)) A n pivots) {x : Fin n → K}
    (hx : Solves A x) {j : Fin m} (hj : pivots.length ≤ j.val) :
    coordinate (n + 1) n (A j) = 0 := by
  have hsum : ∑ i, x i * coordinate (n + 1) i.val (A j) = 0 := by
    refine Finset.sum_eq_zero ?_
    intro i _
    rw [h.below j hj i.val i.isLt, mul_zero]
  have hres := hx j
  rw [residual_apply, hsum, zero_sub] at hres
  exact neg_eq_zero.1 hres

/-- The vector that has the right-hand sides at the pivots and zeros elsewhere. -/
structure ReadsOff (A : Fin m → Fin (n + 1) → K) (pivots : List ℕ) (x : Fin n → K) : Prop where
  free : ∀ i, i.val ∉ pivots → x i = 0
  pivot : ∀ (t : ℕ) (_ : t < pivots.length) (i : Fin n) (j : Fin m),
    i.val = pivots[t] → j.val = t → x i = coordinate (n + 1) n (A j)

/-- It is a solution when the rows without a pivot allow one. -/
theorem Reduced.solves (h : Reduced (coordinate (n + 1)) A n pivots)
    (hrhs : ∀ j : Fin m, pivots.length ≤ j.val → coordinate (n + 1) n (A j) = 0) {x : Fin n → K}
    (hx : ReadsOff A pivots x) : Solves A x := by
  intro j
  rw [residual_apply, sub_eq_zero]
  by_cases hj : j.val < pivots.length
  · -- only the unknown of the row's own pivot contributes
    let c : Fin n := ⟨pivots[j.val], h.pivot_lt _ (List.getElem_mem hj)⟩
    have hother : ∀ i ∈ Finset.univ, i ≠ c → x i * coordinate (n + 1) i.val (A j) = 0 := by
      intro i _ hi
      by_cases hmem : i.val ∈ pivots
      · rcases List.getElem_of_mem hmem with ⟨t, ht, heq⟩
        have hjt : j.val ≠ t := by
          intro hjt
          subst hjt
          exact hi (Fin.ext heq.symm)
        rw [← heq, h.unit t ht j, if_neg hjt, mul_zero]
      · rw [hx.free i hmem, zero_mul]
    rw [Finset.sum_eq_single c hother (by simp), hx.pivot j.val hj c j rfl rfl,
      h.unit j.val hj j, if_pos rfl, mul_one]
  · rw [hrhs j (Nat.le_of_not_lt hj)]
    refine Finset.sum_eq_zero ?_
    intro i _
    rw [h.below j (Nat.le_of_not_lt hj) i.val i.isLt, mul_zero]

end Reduced

/-! ## Systems given by their columns -/

/-- The augmented row of one equation. -/
theorem residual_toVec {l : List K} (hl : l.length = n) (b : K) (x : Fin n → K) :
    residual x (toVec (n + 1) (l ++ [b])) = ∑ i, x i * toVec n l i - b := by
  have hlast : coordinate (n + 1) n (toVec (n + 1) (l ++ [b])) = b := by
    rw [coordinate_toVec (Nat.lt_succ_self n)]
    simp [← hl]
  rw [residual_apply, hlast]
  congr 1
  refine Finset.sum_congr rfl ?_
  intro i _
  have hi : i.val < l.length := by simp [hl]
  rw [coordinate_toVec (Nat.lt_succ_of_lt i.isLt), toVec_apply]
  simp [List.getElem?_append_left hi]

/-- Solving the rows is combining the columns. -/
theorem solves_iff {columns : Fin n → List K} {b : List K} {A : Fin m → Fin (n + 1) → K}
    (hA : ∀ j : Fin m, A j =
      toVec (n + 1) (List.ofFn (fun i => (columns i).getD j 0) ++ [b.getD j 0]))
    (x : Fin n → K) :
    Solves A x ↔ ∑ i, x i • toVec m (columns i) = toVec m b := by
  have hrow : ∀ j, residual x (A j) = (∑ i, x i • toVec m (columns i)) j - toVec m b j := by
    intro j
    rw [hA j, residual_toVec (by simp)]
    simp [toVec_apply]
  constructor
  · intro h
    funext j
    exact sub_eq_zero.1 ((hrow j).symm.trans (h j))
  · intro h j
    rw [hrow j, h, sub_self]

end RowReduction
