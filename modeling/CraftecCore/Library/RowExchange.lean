import CraftecCore.Library.RowRank
import Mathlib.Data.List.FinRange
import Mathlib.LinearAlgebra.Dimension.OrzechProperty

/-!
# RowExchange — independent rows, and one of them exchanged

Rows are independent when their number is their rank.  A row may be exchanged for a combination of
several rows as long as it enters the combination with a non-zero scalar.
-/

namespace RowReduction

open Submodule RowVector

variable {K : Type} [Field K] {n : ℕ}

/-! ## Independent rows -/

/-- The rows of a list, as a family of vectors, are independent. -/
def RowsIndependent (n : ℕ) (rows : List (List K)) : Prop :=
  LinearIndependent K fun i : Fin rows.length => toVec n (rows.get i)

/-- The rows of a list are independent when any family that lists them is. -/
theorem rowsIndependent_iff_family {m : ℕ} {rows : List (List K)} {A : Fin m → Fin n → K}
    (hlen : rows.length = m)
    (hA : ∀ (i : ℕ) (h : i < rows.length) (h' : i < m), toVec n rows[i] = A ⟨i, h'⟩) :
    RowsIndependent n rows ↔ LinearIndependent K A := by
  subst hlen
  have hfamily : (fun i : Fin rows.length => toVec n (rows.get i)) = A :=
    funext fun i => hA i.val i.isLt i.isLt
  rw [RowsIndependent, hfamily]

theorem rowsIndependent_iff {rows : List (List K)} :
    RowsIndependent n rows ↔ rowRank n rows = rows.length := by
  have hspan : rowSpan n rows = span K (Set.range fun i => toVec n (rows.get i)) :=
    rowSpan_eq_range rfl fun _ _ _ => rfl
  rw [RowsIndependent, linearIndependent_iff_card_eq_finrank_span, Fintype.card_fin, rowRank,
    hspan, eq_comm]
  rfl

/-! ## One more row -/

theorem rowRank_congr_perm {rows rows' : List (List K)} (h : rows.Perm rows') :
    rowRank n rows = rowRank n rows' := by
  rw [rowRank, rowRank, rowSpan_congr fun _ => h.mem_iff]

/-- One more row raises the rank by one or not at all. -/
theorem rowRank_append_singleton (rows : List (List K)) (row : List K) :
    rowRank n (rows ++ [row]) = rowRank n rows ∨
      rowRank n (rows ++ [row]) = rowRank n rows + 1 := by
  have hone : rowRank n [row] ≤ 1 := rowRank_le_length [row]
  have hmono : rowRank n rows ≤ rowRank n (rows ++ [row]) := by
    rw [rowRank, rowRank, rowSpan_append]
    exact Submodule.finrank_mono le_sup_left
  have hadd : rowRank n (rows ++ [row]) ≤ rowRank n rows + rowRank n [row] := by
    rw [rowRank, rowSpan_append]
    exact Submodule.finrank_add_le_finrank_add_finrank _ _
  omega

/-! ## Exchange -/

section Exchange

variable {V ι : Type} [AddCommGroup V] [Module K V] [DecidableEq ι]

/-- A member of an independent family that enters a combination with a non-zero scalar can be
exchanged for it. -/
theorem linearIndependent_exchange {f : ι → V} (hf : LinearIndependent K f) {m : ℕ}
    {used : Fin m → ι} (hused : Function.Injective used) {a : Fin m → K} (ha : ∀ t, a t ≠ 0)
    (t : Fin m) :
    LinearIndependent K (Function.update f (used t) (∑ s, a s • f (used s))) := by
  refine hf.update (used t) _ ⟨1, one_mem _, ∑ s, Finsupp.single (used s) (a s), ?_, ?_⟩
  · -- the positions are different, so only one of them is that of the exchanged member
    have hcoeff : (∑ s, Finsupp.single (used s) (a s)) (used t) = a t := by
      rw [Finsupp.finsetSum_apply, Finset.sum_eq_single t]
      · simp
      · intro s _ hs
        exact Finsupp.single_eq_of_ne (hused.ne hs.symm)
      · simp
    rw [hcoeff]
    exact mem_nonZeroDivisors_of_ne_zero (ha t)
  · simp [Finsupp.linearCombination_single]

/-- Independent rows stay so when one of them is exchanged for a combination it has a share in. -/
theorem RowsIndependent.set {rows : List (List K)} (h : RowsIndependent n rows) {m : ℕ}
    {used : Fin m → Fin rows.length} (hused : Function.Injective used) {a : Fin m → K}
    (ha : ∀ t, a t ≠ 0) {row : List K}
    (hrow : toVec n row = ∑ s, a s • toVec n (rows.get (used s))) (t : Fin m) :
    RowsIndependent n (rows.set (used t) row) := by
  refine (rowsIndependent_iff_family (List.length_set ..) ?_).2
    (linearIndependent_exchange h hused ha t)
  intro i hi hi'
  rw [← hrow, List.getElem_set]
  by_cases heq : (used t).val = i
  · have heq' : used t = ⟨i, hi'⟩ := Fin.ext heq
    simp [heq']
  · have hne : (⟨i, hi'⟩ : Fin rows.length) ≠ used t := fun hc => heq (congrArg Fin.val hc).symm
    simp [heq, Function.update_of_ne hne]

end Exchange

end RowReduction
