import Mathlib.LinearAlgebra.Dimension.Constructions
import Mathlib.LinearAlgebra.FiniteDimensional.Lemmas
import CraftecCore.Library.Outcome

/-!
# RowReduction — Gauss–Jordan elimination, abstractly and on lists of rows

The first half is about families `A : Fin n → V` of vectors with coordinate functionals
`coord j : V →ₗ[K] K`: one pivot step keeps the span, and a family that is *reduced* up to a column
has as many independent rows as it has pivots.

The second half is the executable loop on lists of rows, with every indexed read checked.  Rows are
of any type: a program supplies its own entry read, scaling and row addition (`RowOps`), and shows
that they compute the vector operations (`Faithful`).
-/

namespace RowReduction

open Submodule

/-! ## One pivot step -/

section Abstract

variable {K V : Type} [Field K] [AddCommGroup V] [Module K V] {n : ℕ}

/-- Swap row `p` into position `r`, scale it to `1` at `φ`, and clear `φ` in every other row. -/
def pivotStep (φ : V →ₗ[K] K) (A : Fin n → V) (r p : Fin n) : Fin n → V :=
  fun i =>
    if i = r then
      (φ (A p))⁻¹ • A p
    else
      A (Equiv.swap r p i) - φ (A (Equiv.swap r p i)) • ((φ (A p))⁻¹ • A p)

variable {φ : V →ₗ[K] K} {A : Fin n → V} {r p : Fin n}

theorem pivotStep_self : pivotStep φ A r p r = (φ (A p))⁻¹ • A p := by
  simp [pivotStep]

theorem pivotStep_of_ne {i : Fin n} (hi : i ≠ r) :
    pivotStep φ A r p i =
      A (Equiv.swap r p i) - φ (A (Equiv.swap r p i)) • pivotStep φ A r p r := by
  simp [pivotStep, hi]

/-- The new rows are combinations of the old ones. -/
theorem pivotStep_mem_span (i : Fin n) : pivotStep φ A r p i ∈ span K (Set.range A) := by
  have hold : ∀ j, A j ∈ span K (Set.range A) := fun j => subset_span (Set.mem_range_self j)
  have hpivot : (φ (A p))⁻¹ • A p ∈ span K (Set.range A) := smul_mem _ _ (hold p)
  by_cases hi : i = r
  · simpa [pivotStep, hi] using hpivot
  · simpa [pivotStep, hi] using sub_mem (hold _) (smul_mem _ (φ (A (Equiv.swap r p i))) hpivot)

/-- The old rows are combinations of the new ones: first the pivot row, then the others. -/
theorem mem_span_pivotStep (hp : φ (A p) ≠ 0) (i : Fin n) :
    A i ∈ span K (Set.range (pivotStep φ A r p)) := by
  have hnew : ∀ j, pivotStep φ A r p j ∈ span K (Set.range (pivotStep φ A r p)) :=
    fun j => subset_span (Set.mem_range_self j)
  by_cases hi : i = p
  · have : A i = φ (A p) • pivotStep φ A r p r := by
      simp [pivotStep_self, smul_smul, mul_inv_cancel₀ hp, hi]
    simpa [this] using smul_mem _ (φ (A p)) (hnew r)
  · have hne : Equiv.swap r p i ≠ r := by
      simpa [Equiv.swap_apply_eq_iff] using hi
    have : A i = pivotStep φ A r p (Equiv.swap r p i) + φ (A i) • pivotStep φ A r p r := by
      simp [pivotStep_of_ne hne]
    rw [this]
    exact add_mem (hnew _) (smul_mem _ _ (hnew r))

/-- A pivot step at a non-zero entry keeps the span of the rows. -/
theorem span_pivotStep (hp : φ (A p) ≠ 0) :
    span K (Set.range (pivotStep φ A r p)) = span K (Set.range A) := by
  apply le_antisymm
  · exact span_le.2 (Set.range_subset_iff.2 pivotStep_mem_span)
  · exact span_le.2 (Set.range_subset_iff.2 (mem_span_pivotStep hp))

/-- After the step the pivot column is a unit column. -/
theorem pivotStep_coord (hp : φ (A p) ≠ 0) (i : Fin n) :
    φ (pivotStep φ A r p i) = if i = r then 1 else 0 := by
  -- the pivot row is scaled to one; every other row loses its own entry times that one
  have hone : φ (pivotStep φ A r p r) = 1 := by
    rw [pivotStep_self, map_smul, smul_eq_mul, inv_mul_cancel₀ hp]
  split
  · rename_i h
    rw [h, hone]
  · rename_i h
    rw [pivotStep_of_ne h, map_sub, map_smul, hone, smul_eq_mul, mul_one, sub_self]

/-- A functional that vanishes on both swapped rows is unchanged on every row. -/
theorem pivotStep_coord_of_zero {ψ : V →ₗ[K] K} (hr : ψ (A r) = 0) (hp : ψ (A p) = 0)
    (i : Fin n) : ψ (pivotStep φ A r p i) = ψ (A i) := by
  -- the pivot row itself vanishes under `ψ`, so subtracting it changes nothing
  have hself : ψ (pivotStep φ A r p r) = 0 := by
    rw [pivotStep_self, map_smul, hp, smul_zero]
  by_cases hi : i = r
  · rw [hi, hself, hr]
  · rw [pivotStep_of_ne hi, map_sub, map_smul, hself, smul_zero, sub_zero]
    by_cases hip : i = p
    · rw [hip, Equiv.swap_apply_right, hr, hp]
    · rw [Equiv.swap_apply_of_ne_of_ne hi hip]

/-! ## Reduced families -/

/-- The rows are reduced in the columns below `col`: row `t` carries the `t`-th pivot, its column is
a unit column, and the rows without a pivot vanish in every column seen so far. -/
structure Reduced (coord : ℕ → V →ₗ[K] K) (A : Fin n → V) (col : ℕ) (pivots : List ℕ) : Prop where
  length_le : pivots.length ≤ n
  pivot_lt : ∀ c ∈ pivots, c < col
  nodup : pivots.Nodup
  unit : ∀ (t : ℕ) (ht : t < pivots.length) (i : Fin n),
    coord pivots[t] (A i) = if i.val = t then 1 else 0
  below : ∀ i : Fin n, pivots.length ≤ i.val → ∀ j < col, coord j (A i) = 0

variable {coord : ℕ → V →ₗ[K] K} {col : ℕ} {pivots : List ℕ}

theorem Reduced.init (coord : ℕ → V →ₗ[K] K) (A : Fin n → V) : Reduced coord A 0 [] :=
  { length_le := Nat.zero_le n
    pivot_lt := by simp
    nodup := List.nodup_nil
    unit := by simp
    below := by simp }

/-- A column without a pivot. -/
theorem Reduced.skip (h : Reduced coord A col pivots)
    (hz : ∀ i : Fin n, pivots.length ≤ i.val → coord col (A i) = 0) :
    Reduced coord A (col + 1) pivots where
  length_le := h.length_le
  pivot_lt := fun c hc => Nat.lt_succ_of_lt (h.pivot_lt c hc)
  nodup := h.nodup
  unit := h.unit
  below := by
    intro i hi j hj
    rcases Nat.lt_succ_iff_lt_or_eq.1 hj with hlt | rfl
    · exact h.below i hi j hlt
    · exact hz i hi

/-- A column with a pivot. -/
theorem Reduced.pivot (h : Reduced coord A col pivots) (hr : r.val = pivots.length) (hrp : r ≤ p)
    (hp : coord col (A p) ≠ 0) :
    Reduced coord (pivotStep (coord col) A r p) (col + 1) (pivots ++ [col]) where
  length_le := by
    have := r.isLt
    simp only [List.length_append, List.length_singleton]
    omega
  pivot_lt := by
    intro c hc
    rcases List.mem_append.1 hc with hc | hc
    · exact Nat.lt_succ_of_lt (h.pivot_lt c hc)
    · rw [List.mem_singleton.1 hc]
      exact Nat.lt_succ_self col
  nodup := by
    refine List.nodup_append.2 ⟨h.nodup, List.nodup_singleton col, ?_⟩
    intro a ha b hb
    rw [List.mem_singleton.1 hb]
    exact Nat.ne_of_lt (h.pivot_lt a ha)
  unit := by
    intro t ht i
    have hrp' : r.val ≤ p.val := hrp
    -- an earlier pivot, or the one just found
    by_cases htlt : t < pivots.length
    · -- both swapped rows vanish at an earlier pivot, so its column is untouched
      have hz : ∀ q : Fin n, r.val ≤ q.val → coord pivots[t] (A q) = 0 := by
        intro q hq
        rw [h.unit t htlt q, if_neg (by omega)]
      rw [List.getElem_append_left htlt,
        pivotStep_coord_of_zero (hz r le_rfl) (hz p hrp'), h.unit t htlt i]
    · have hteq : t = pivots.length := by
        simp only [List.length_append, List.length_singleton] at ht
        omega
      subst hteq
      rw [List.getElem_append_right le_rfl]
      simp only [Nat.sub_self, List.getElem_singleton, pivotStep_coord hp, Fin.ext_iff, hr]
  below := by
    have hrp' : r.val ≤ p.val := hrp
    intro i hi j hj
    simp only [List.length_append, List.length_singleton] at hi
    rcases Nat.lt_succ_iff_lt_or_eq.1 hj with hlt | rfl
    · -- an earlier column: both swapped rows vanish in it
      have hz : ∀ q : Fin n, r.val ≤ q.val → coord j (A q) = 0 :=
        fun q hq => h.below q (by omega) j hlt
      rw [pivotStep_coord_of_zero (hz r le_rfl) (hz p hrp')]
      exact hz i (by omega)
    · rw [pivotStep_coord hp, if_neg]
      intro heq
      rw [heq] at hi
      omega

/-- Once every row carries a pivot, no later column can matter. -/
theorem Reduced.of_full (h : Reduced coord A col pivots) (hfull : pivots.length = n) {col' : ℕ}
    (hle : col ≤ col') : Reduced coord A col' pivots where
  length_le := h.length_le
  pivot_lt := fun c hc => lt_of_lt_of_le (h.pivot_lt c hc) hle
  nodup := h.nodup
  unit := h.unit
  below := by
    intro i hi
    have := i.isLt
    omega

/-- Distinct pivots fit below the column reached. -/
theorem Reduced.length_le_col (h : Reduced coord A col pivots) : pivots.length ≤ col := by
  have hsub : pivots ⊆ List.range col := fun c hc => List.mem_range.2 (h.pivot_lt c hc)
  simpa using (List.subperm_of_subset h.nodup hsub).length_le

/-- A reduced family whose pivots are the leading entries of their rows. -/
structure Echelon (coord : ℕ → V →ₗ[K] K) (A : Fin n → V) (col : ℕ) (pivots : List ℕ) : Prop
    extends Reduced coord A col pivots where
  leading : ∀ (t : ℕ) (ht : t < pivots.length) (i : Fin n), i.val = t →
    ∀ j < pivots[t], coord j (A i) = 0

theorem Echelon.init (coord : ℕ → V →ₗ[K] K) (A : Fin n → V) : Echelon coord A 0 [] :=
  { Reduced.init coord A with leading := by simp }

theorem Echelon.skip (h : Echelon coord A col pivots)
    (hz : ∀ i : Fin n, pivots.length ≤ i.val → coord col (A i) = 0) :
    Echelon coord A (col + 1) pivots :=
  { h.toReduced.skip hz with leading := h.leading }

theorem Echelon.pivot (h : Echelon coord A col pivots) (hr : r.val = pivots.length) (hrp : r ≤ p)
    (hp : coord col (A p) ≠ 0) :
    Echelon coord (pivotStep (coord col) A r p) (col + 1) (pivots ++ [col]) where
  toReduced := h.toReduced.pivot hr hrp hp
  leading := by
    have hrp' : r.val ≤ p.val := hrp
    intro t ht i hi j hj
    -- the swapped rows vanish in every column before the new pivot
    have hz : ∀ q : Fin n, r.val ≤ q.val → ∀ j < col, coord j (A q) = 0 :=
      fun q hq => h.below q (by omega)
    by_cases htlt : t < pivots.length
    · rw [List.getElem_append_left htlt] at hj
      have hcol : pivots[t] < col := h.pivot_lt _ (List.getElem_mem htlt)
      rw [pivotStep_coord_of_zero (hz r le_rfl j (by omega)) (hz p hrp' j (by omega))]
      exact h.leading t htlt i hi j hj
    · have hteq : t = pivots.length := by
        simp only [List.length_append, List.length_singleton] at ht
        omega
      subst hteq
      rw [List.getElem_append_right le_rfl] at hj
      have hjcol : j < col := by simpa using hj
      rw [pivotStep_coord_of_zero (hz r le_rfl j hjcol) (hz p hrp' j hjcol)]
      exact hz i (by omega) j hjcol

theorem Echelon.of_full (h : Echelon coord A col pivots) (hfull : pivots.length = n) {col' : ℕ}
    (hle : col ≤ col') : Echelon coord A col' pivots :=
  { h.toReduced.of_full hfull hle with leading := h.leading }

/-! ## What a reduced family says about its span -/

/-- A combination of reduced rows that vanishes at every pivot vanishes in every column seen. -/
theorem Reduced.coord_eq_zero (h : Reduced coord A col pivots) {v : V}
    (hv : v ∈ span K (Set.range A)) (hp : ∀ c ∈ pivots, coord c v = 0) :
    ∀ j < col, coord j v = 0 := by
  obtain ⟨c, rfl⟩ := (mem_span_range_iff_exists_fun K).1 hv
  -- the coefficient of a pivot row is the value at its pivot
  have hc : ∀ i : Fin n, i.val < pivots.length → c i = 0 := by
    intro i hi
    have hzero := hp pivots[i.val] (List.getElem_mem hi)
    simp only [map_sum, map_smul, smul_eq_mul, h.unit i.val hi, ← Fin.ext_iff] at hzero
    simpa using hzero
  intro j hj
  simp only [map_sum, map_smul, smul_eq_mul]
  refine Finset.sum_eq_zero ?_
  intro i _
  by_cases hi : i.val < pivots.length
  · rw [hc i hi, zero_mul]
  · rw [h.below i (by omega) j hj, mul_zero]

/-- The rows that carry pivots are independent. -/
theorem Reduced.linearIndependent (h : Reduced coord A col pivots) :
    LinearIndependent K fun t : Fin pivots.length => A (Fin.castLE h.length_le t) := by
  rw [Fintype.linearIndependent_iff]
  intro g hg s
  have hzero := congrArg (coord pivots[s.val]) hg
  simp only [map_sum, map_smul, smul_eq_mul, map_zero, h.unit s.val s.isLt, Fin.val_castLE,
    ← Fin.ext_iff] at hzero
  simpa using hzero

/-- When the columns seen determine a vector, the number of pivots is the rank of the rows. -/
theorem Reduced.finrank_span (h : Reduced coord A col pivots)
    (hext : ∀ v : V, (∀ j < col, coord j v = 0) → v = 0) :
    Module.finrank K (span K (Set.range A)) = pivots.length := by
  -- rows without a pivot vanish, so the pivot rows alone span
  have hspan : span K (Set.range A) =
      span K (Set.range fun t : Fin pivots.length => A (Fin.castLE h.length_le t)) := by
    apply le_antisymm
    · rw [span_le]
      rintro _ ⟨i, rfl⟩
      by_cases hi : i.val < pivots.length
      · exact subset_span ⟨⟨i.val, hi⟩, rfl⟩
      · rw [SetLike.mem_coe, hext (A i) (h.below i (by omega))]
        exact zero_mem _
    · rw [span_le]
      rintro _ ⟨t, rfl⟩
      exact subset_span ⟨_, rfl⟩
  rw [hspan, finrank_span_eq_card h.linearIndependent, Fintype.card_fin]

/-- The pivots are the columns where some combination of the rows has its first non-zero entry. -/
theorem Echelon.mem_pivots_iff (h : Echelon coord A col pivots) {c : ℕ} (hc : c < col) :
    c ∈ pivots ↔ ∃ v ∈ span K (Set.range A), coord c v ≠ 0 ∧ ∀ j < c, coord j v = 0 := by
  constructor
  · intro hmem
    rcases List.getElem_of_mem hmem with ⟨t, ht, rfl⟩
    let i : Fin n := ⟨t, lt_of_lt_of_le ht h.length_le⟩
    refine ⟨A i, subset_span (Set.mem_range_self i), ?_, h.leading t ht i rfl⟩
    simp [h.unit t ht i, i]
  · rintro ⟨v, hv, hne, hbefore⟩
    by_contra hnot
    apply hne
    obtain ⟨a, rfl⟩ := (mem_span_range_iff_exists_fun K).1 hv
    simp only [map_sum, map_smul, smul_eq_mul] at hbefore ⊢
    refine Finset.sum_eq_zero ?_
    intro i _
    by_cases hi : i.val < pivots.length
    · -- the pivot of this row is before `c`, or the row starts after `c`
      rcases Nat.lt_trichotomy pivots[i.val] c with hlt | heq | hgt
      · have hzero := hbefore pivots[i.val] hlt
        simp only [h.unit i.val hi, ← Fin.ext_iff] at hzero
        have hai : a i = 0 := by simpa using hzero
        rw [hai, zero_mul]
      · exact absurd (heq ▸ List.getElem_mem hi) hnot
      · rw [h.leading i.val hi i rfl c hgt, mul_zero]
    · rw [h.below i (by omega) c hc, mul_zero]

end Abstract

/-! ## The executable loop -/

/-- What a program does with a row: read an entry, invert a pivot, scale a row by it, and add a
multiple of the pivot row to another row. -/
structure RowOps (K ρ : Type) where
  entry : ρ → ℕ → Outcome K
  inv : K → Option K
  scale : K → ρ → ρ
  /-- `addMul factor row pivotRow` is `row` with `factor` times `pivotRow` added in place. -/
  addMul : K → ρ → ρ → ρ

inductive ColumnResult (ρ : Type)
  | noPivot
  | zeroPivot (rows : List ρ)
  | done (rows : List ρ)

section Loop

variable {K ρ : Type} [Zero K] [DecidableEq K]

/-- The first index, counted from `i`, whose row has a non-zero entry. -/
def findPivot (entry : ρ → Outcome K) : ℕ → List ρ → Outcome (Option ℕ)
  | _, [] => pure none
  | i, row :: rows => do
      let x ← entry row
      if x ≠ 0 then pure (some i) else findPivot entry (i + 1) rows

def swapRows (rows : List ρ) (i j : ℕ) : Outcome (List ρ) := do
  let a ← rows.index i
  let b ← rows.index j
  pure ((rows.set i b).set j a)

/-- The inner loop over all rows but the pivot row; `i` is the index of the first row. -/
def eliminateOthers (ops : RowOps K ρ) (rank col : ℕ) (pivotRow : ρ) :
    ℕ → List ρ → Outcome (List ρ)
  | _, [] => pure []
  | i, row :: rows => do
      let row' ←
        if i = rank then
          pure row
        else do
          let factor ← ops.entry row col
          if factor = 0 then pure row else pure (ops.addMul factor row pivotRow)
      let rows' ← eliminateOthers ops rank col pivotRow (i + 1) rows
      pure (row' :: rows')

/-- One column: find a pivot among the rows from `rank` on, swap it up, scale it to one and clear
the column in every other row. -/
def eliminateColumn (ops : RowOps K ρ) (rows : List ρ) (rank col : ℕ) :
    Outcome (ColumnResult ρ) := do
  match ← findPivot (fun row => ops.entry row col) rank (rows.drop rank) with
  | none => pure .noPivot
  | some p => do
      let rows ← swapRows rows rank p
      let pivotRow ← rows.index rank
      let x ← ops.entry pivotRow col
      match ops.inv x with
      | none => pure (.zeroPivot rows)
      | some v => do
          let pivotRow := ops.scale v pivotRow
          let rows ← eliminateOthers ops rank col pivotRow 0 (rows.set rank pivotRow)
          pure (.done rows)

/-- The loop over the columns, which stops early once `stop` pivots are found.  A pivot that cannot
be inverted skips its column, or gives up with `none` when `skipZero` is off. -/
def reduceColumns (ops : RowOps K ρ) (skipZero : Bool) (stop : ℕ) :
    List ℕ → List ρ → List ℕ → Outcome (Option (List ρ × List ℕ))
  | [], rows, pivots => pure (some (rows, pivots))
  | col :: cols, rows, pivots => do
      match ← eliminateColumn ops rows pivots.length col with
      | .noPivot => reduceColumns ops skipZero stop cols rows pivots
      | .zeroPivot rows =>
          if skipZero then reduceColumns ops skipZero stop cols rows pivots else pure none
      | .done rows =>
          if (pivots ++ [col]).length = stop then
            pure (some (rows, pivots ++ [col]))
          else
            reduceColumns ops skipZero stop cols rows (pivots ++ [col])

end Loop

/-! ## The loop computes pivot steps -/

section Correct

variable {K V ρ : Type} [Field K] [DecidableEq K] [AddCommGroup V] [Module K V]

/-- The row operations compute the vector operations on rows satisfying `good`. -/
structure Faithful (ops : RowOps K ρ) (good : ρ → Prop) (view : ρ → V)
    (coord : ℕ → V →ₗ[K] K) (width : ℕ) : Prop where
  entry : ∀ row, good row → ∀ c < width, ops.entry row c = .ok (coord c (view row))
  inv : ∀ x, x ≠ 0 → ops.inv x = some x⁻¹
  good_scale : ∀ a row, good row → good (ops.scale a row)
  view_scale : ∀ a row, good row → view (ops.scale a row) = a • view row
  good_addMul : ∀ a row p, good row → good p → good (ops.addMul a row p)
  view_addMul : ∀ a row p, good row → good p → view (ops.addMul a row p) = view row - a • view p

omit [DecidableEq K] in
/-- A loop may stop before the last column. -/
theorem Faithful.mono {ops : RowOps K ρ} {good : ρ → Prop} {view : ρ → V}
    {coord : ℕ → V →ₗ[K] K} {width width' : ℕ} (h : Faithful ops good view coord width')
    (hle : width ≤ width') : Faithful ops good view coord width :=
  { h with entry := fun row hrow c hc => h.entry row hrow c (lt_of_lt_of_le hc hle) }

/-- A list of good rows whose views are the family `A`. -/
structure Represents {n : ℕ} (good : ρ → Prop) (view : ρ → V) (rows : List ρ) (A : Fin n → V) :
    Prop where
  length : rows.length = n
  good : ∀ row ∈ rows, good row
  view : ∀ (i : ℕ) (h : i < rows.length) (h' : i < n), view rows[i] = A ⟨i, h'⟩

variable {ops : RowOps K ρ} {good : ρ → Prop} {view : ρ → V} {coord : ℕ → V →ₗ[K] K} {width : ℕ}

omit [AddCommGroup V] in
theorem represents_get {n : ℕ} {rows : List ρ} (hlen : rows.length = n)
    (hgood : ∀ row ∈ rows, good row) :
    Represents good view rows fun i : Fin n => view (rows.get (i.cast hlen.symm)) :=
  { length := hlen
    good := hgood
    view := fun _ _ _ => rfl }

omit [Field K] [AddCommGroup V] [Module K V] in
theorem findPivot_spec [Zero K] (entry : ρ → Outcome K) (e : ρ → K) :
    ∀ (i : ℕ) (rows : List ρ), (∀ row ∈ rows, entry row = .ok (e row)) →
      (findPivot entry i rows = .ok none ∧ ∀ row ∈ rows, e row = 0) ∨
      ∃ (t : ℕ) (h : t < rows.length),
        findPivot entry i rows = .ok (some (i + t)) ∧ e rows[t] ≠ 0
  | i, [], _ => by simp [findPivot]
  | i, row :: rows, hentry => by
      have hrow : entry row = .ok (e row) := hentry row List.mem_cons_self
      -- the head has a zero entry and the search goes on, or it is the pivot
      by_cases hz : e row = 0
      · have htail := findPivot_spec entry e (i + 1) rows fun r hr =>
          hentry r (List.mem_cons_of_mem _ hr)
        rcases htail with ⟨hnone, hall⟩ | ⟨t, ht, hsome, hne⟩
        · refine Or.inl ⟨by simp [findPivot, hrow, hz, hnone], ?_⟩
          simpa [hz] using hall
        · refine Or.inr ⟨t + 1, by simpa using ht, ?_, by simpa using hne⟩
          have : i + 1 + t = i + (t + 1) := by omega
          simp [findPivot, hrow, hz, hsome, this]
      · exact Or.inr ⟨0, by simp, by simp [findPivot, hrow, hz], by simpa using hz⟩

/-- The inner loop clears the column in every row but the pivot row. -/
theorem eliminateOthers_spec (hF : Faithful ops good view coord width) (rank : ℕ) {col : ℕ}
    (hcol : col < width) {pivotRow : ρ} (hpivot : good pivotRow) :
    ∀ (i : ℕ) (rows : List ρ), (∀ row ∈ rows, good row) →
      ∃ rows', eliminateOthers ops rank col pivotRow i rows = .ok rows' ∧
        rows'.length = rows.length ∧
        ∀ (t : ℕ) (h : t < rows.length) (h' : t < rows'.length),
          good rows'[t] ∧
          view rows'[t] =
            if i + t = rank then view rows[t]
            else view rows[t] - coord col (view rows[t]) • view pivotRow
  | i, [], _ => ⟨[], by simp [eliminateOthers], rfl, by simp⟩
  | i, row :: rows, hgood => by
      have hrow : good row := hgood row List.mem_cons_self
      rcases eliminateOthers_spec hF rank hcol hpivot (i + 1) rows
        fun r hr => hgood r (List.mem_cons_of_mem _ hr) with ⟨rows', hrun, hlen, hrows⟩
      -- the head of the new list, in each of the three branches of the loop body
      have hhead : ∃ row', good row' ∧
          (view row' = if i = rank then view row
            else view row - coord col (view row) • view pivotRow) ∧
          eliminateOthers ops rank col pivotRow i (row :: rows) = .ok (row' :: rows') := by
        by_cases hi : i = rank
        · refine ⟨row, hrow, by simp [hi], ?_⟩
          subst hi
          simp [eliminateOthers, hrun]
        · have hentry := hF.entry row hrow col hcol
          by_cases hz : coord col (view row) = 0
          · exact ⟨row, hrow, by simp [hi, hz], by simp [eliminateOthers, hi, hentry, hz, hrun]⟩
          · refine ⟨_, hF.good_addMul (coord col (view row)) row pivotRow hrow hpivot, ?_, ?_⟩
            · simp [hi, hF.view_addMul _ _ _ hrow hpivot]
            · simp [eliminateOthers, hi, hentry, hz, hrun]
      rcases hhead with ⟨row', hgood', hview', hrun'⟩
      refine ⟨row' :: rows', hrun', by simp [hlen], ?_⟩
      intro t h h'
      cases t with
      | zero => exact ⟨hgood', by simpa using hview'⟩
      | succ t =>
          have := hrows t (by simpa using h) (by simpa using h')
          have hidx : i + 1 + t = i + (t + 1) := by omega
          simpa [hidx] using this

omit [Field K] [DecidableEq K] [AddCommGroup V] [Module K V] in
/-- Swapping two rows of the list permutes the family. -/
theorem swapRows_spec {n : ℕ} {rows : List ρ} {A : Fin n → V}
    (hrep : Represents good view rows A) (r p : Fin n) :
    ∃ rows', swapRows rows r p = .ok rows' ∧
      Represents good view rows' fun i => A (Equiv.swap r p i) := by
  have hr : r.val < rows.length := by simp [hrep.length]
  have hp : p.val < rows.length := by simp [hrep.length]
  refine ⟨(rows.set r rows[p.val]).set p rows[r.val], ?_, ?_, ?_, ?_⟩
  · simp [swapRows, List.index_eq_ok hr, List.index_eq_ok hp]
  · simp [hrep.length]
  · intro row hrow
    rcases List.mem_or_eq_of_mem_set hrow with hrow | rfl
    · rcases List.mem_or_eq_of_mem_set hrow with hrow | rfl
      · exact hrep.good row hrow
      · exact hrep.good _ (List.getElem_mem hp)
    · exact hrep.good _ (List.getElem_mem hr)
  · intro i h h'
    simp only [List.length_set] at h
    have hview : ∀ q : Fin n, ∀ hq : q.val < rows.length, view rows[q.val] = A q :=
      fun q hq => hrep.view q hq q.isLt
    -- entry `i` after the two writes; the later one is read first
    simp only [List.getElem_set]
    by_cases hip : p.val = i
    · have : (⟨i, h'⟩ : Fin n) = p := Fin.ext hip.symm
      simp [hip, this, hview r hr]
    · by_cases hir : r.val = i
      · have : (⟨i, h'⟩ : Fin n) = r := Fin.ext hir.symm
        simp [hip, hir, this, hview p hp]
      · have hne : Equiv.swap r p ⟨i, h'⟩ = ⟨i, h'⟩ :=
          Equiv.swap_apply_of_ne_of_ne (fun heq => hir (congrArg Fin.val heq).symm)
            (fun heq => hip (congrArg Fin.val heq).symm)
        simp [hip, hir, hne, hrep.view i h h']

/-- Scaling row `r` and clearing the column in every other row. -/
theorem eliminateOthers_set_spec {n : ℕ} (hF : Faithful ops good view coord width) {rows : List ρ}
    {A : Fin n → V} (hrep : Represents good view rows A) (r : Fin n) (hr : r.val < rows.length)
    {col : ℕ} (hcol : col < width) (v : K) :
    ∃ rows', eliminateOthers ops r.val col (ops.scale v rows[r.val]) 0
        (rows.set r (ops.scale v rows[r.val])) = .ok rows' ∧
      Represents good view rows' fun i =>
        if i = r then v • A r else A i - coord col (A i) • v • A r := by
  have hgood : good rows[r.val] := hrep.good _ (List.getElem_mem hr)
  have hpivot : good (ops.scale v rows[r.val]) := hF.good_scale _ _ hgood
  have hview : view (ops.scale v rows[r.val]) = v • A r := by
    rw [hF.view_scale v _ hgood, hrep.view r.val hr r.isLt]
  have hset : ∀ row ∈ rows.set r (ops.scale v rows[r.val]), good row := by
    intro row hrow
    rcases List.mem_or_eq_of_mem_set hrow with hrow | rfl
    · exact hrep.good row hrow
    · exact hpivot
  rcases eliminateOthers_spec hF r.val hcol hpivot 0 _ hset with ⟨rows', hrun, hlen, hrows⟩
  refine ⟨rows', hrun, ?_, ?_, ?_⟩
  · rw [hlen, List.length_set, hrep.length]
  · intro row hrow
    rcases List.getElem_of_mem hrow with ⟨i, hi, rfl⟩
    exact (hrows i (by simpa [hlen] using hi) hi).1
  · intro i h h'
    have hrow := (hrows i (by simpa [hlen] using h) h).2
    have hold := hrep.view i (by simpa [hrep.length] using h') h'
    by_cases hi : i = r.val
    · subst hi
      simpa [hview] using hrow
    · have hne : (⟨i, h'⟩ : Fin n) ≠ r := fun heq => hi (congrArg Fin.val heq)
      have hri : r.val ≠ i := fun heq => hi heq.symm
      simpa [hi, hri, hview, hold, hne] using hrow

/-- One column of the loop finds no pivot, or takes a pivot step. -/
theorem eliminateColumn_spec {n : ℕ} (hF : Faithful ops good view coord width) {rows : List ρ}
    {A : Fin n → V} (hrep : Represents good view rows A) (rank : ℕ) {col : ℕ} (hcol : col < width) :
    (eliminateColumn ops rows rank col = .ok .noPivot ∧
      ∀ i : Fin n, rank ≤ i.val → coord col (A i) = 0) ∨
    ∃ (r p : Fin n) (rows' : List ρ), r.val = rank ∧ r ≤ p ∧ coord col (A p) ≠ 0 ∧
      eliminateColumn ops rows rank col = .ok (.done rows') ∧
      Represents good view rows' (pivotStep (coord col) A r p) := by
  have hentry : ∀ row ∈ rows.drop rank, ops.entry row col = .ok (coord col (view row)) :=
    fun row hrow => hF.entry row (hrep.good row (List.mem_of_mem_drop hrow)) col hcol
  rcases findPivot_spec (fun row => ops.entry row col) (fun row => coord col (view row)) rank
    (rows.drop rank) hentry with ⟨hnone, hall⟩ | ⟨t, ht, hsome, hne⟩
  · -- no pivot: the rows from `rank` on vanish in this column
    refine Or.inl ⟨by simp [eliminateColumn, hnone], ?_⟩
    intro i hi
    have hlt : i.val < rows.length := by simp [hrep.length]
    have hmem : rows[i.val] ∈ rows.drop rank :=
      List.mem_drop_iff_getElem.2 ⟨i.val - rank, by omega, by simp [Nat.add_sub_cancel' hi]⟩
    simpa [hrep.view i.val hlt i.isLt] using hall _ hmem
  · have hlt : rank + t < n := by
      simp only [List.length_drop, hrep.length] at ht
      omega
    let r : Fin n := ⟨rank, by omega⟩
    let p : Fin n := ⟨rank + t, hlt⟩
    have hlt' : rank + t < rows.length := by
      rw [hrep.length]
      exact hlt
    have hApne : coord col (A p) ≠ 0 := by
      have : view rows[rank + t] = A p := hrep.view _ hlt' hlt
      simpa [← this] using hne
    -- swap, scale the pivot row, and clear the column in every other row
    rcases swapRows_spec hrep r p with ⟨swapped, hswap, hrep'⟩
    have hr : rank < swapped.length := by
      rw [hrep'.length]
      exact r.isLt
    rcases eliminateOthers_set_spec hF hrep' r hr hcol (coord col (A p))⁻¹ with
      ⟨rows', hrun, hrep''⟩
    have hstep : (fun i => if i = r then (coord col (A p))⁻¹ • A (Equiv.swap r p r)
        else A (Equiv.swap r p i) - coord col (A (Equiv.swap r p i)) •
          (coord col (A p))⁻¹ • A (Equiv.swap r p r)) = pivotStep (coord col) A r p := by
      funext i
      simp [pivotStep]
    refine Or.inr ⟨r, p, rows', rfl, Nat.le_add_right rank t, hApne, ?_, hstep ▸ hrep''⟩
    have hpivotView : view swapped[rank] = A p := by
      simpa [r] using hrep'.view rank hr r.isLt
    have hx : ops.entry swapped[rank] col = .ok (coord col (A p)) := by
      simpa [hpivotView] using hF.entry _ (hrep'.good _ (List.getElem_mem hr)) col hcol
    have hswap' : swapRows rows rank (rank + t) = .ok swapped := hswap
    have hrun' : eliminateOthers ops rank col (ops.scale (coord col (A p))⁻¹ swapped[rank]) 0
        (swapped.set rank (ops.scale (coord col (A p))⁻¹ swapped[rank])) = .ok rows' := hrun
    simp [eliminateColumn, hsome, hswap', List.index_eq_ok hr, hx, hF.inv _ hApne, hrun']

/-- The whole loop keeps the span and ends with a family in reduced echelon form. -/
theorem reduceColumns_spec {n : ℕ} (hF : Faithful ops good view coord width) {skipZero : Bool}
    {stop : ℕ} (hstop : stop = width ∨ stop = n) :
    ∀ (todo col : ℕ) (rows : List ρ) (A : Fin n → V) (pivots : List ℕ), col + todo = width →
      Represents good view rows A → Echelon coord A col pivots →
      ∃ (rows' : List ρ) (A' : Fin n → V) (pivots' : List ℕ),
        reduceColumns ops skipZero stop (List.range' col todo) rows pivots =
          .ok (some (rows', pivots')) ∧
        Represents good view rows' A' ∧
        Submodule.span K (Set.range A') = Submodule.span K (Set.range A) ∧
        Echelon coord A' width pivots'
  | 0, col, rows, A, pivots, hw, hrep, hred => by
      have : col = width := by simpa using hw
      exact ⟨rows, A, pivots, by simp [reduceColumns], hrep, rfl, this ▸ hred⟩
  | todo + 1, col, rows, A, pivots, hw, hrep, hred => by
      -- the induction is on the columns still to do; `Echelon` is the invariant
      have hcol : col < width := by omega
      have hw' : col + 1 + todo = width := by omega
      rcases eliminateColumn_spec hF hrep pivots.length hcol with
        ⟨hrun, hz⟩ | ⟨r, p, rows₁, hr, hrp, hne, hrun, hrep₁⟩
      · rcases reduceColumns_spec hF hstop todo (col + 1) rows A pivots hw' hrep (hred.skip hz) with
          ⟨rows', A', pivots', h, hrest⟩
        exact ⟨rows', A', pivots', by simpa [List.range'_succ, reduceColumns, hrun] using h, hrest⟩
      · -- a pivot step, which keeps the span
        have hred₁ := hred.pivot hr hrp hne
        have hspan := span_pivotStep (r := r) hne
        by_cases hfull : (pivots ++ [col]).length = stop
        · -- the early exit: no column is left, or no row without a pivot is left
          have hdone : Echelon coord (pivotStep (coord col) A r p) width (pivots ++ [col]) := by
            rcases hstop with hstop | hstop
            · have hle := hred₁.length_le_col
              have : col + 1 = width := by omega
              exact this ▸ hred₁
            · exact hred₁.of_full (hfull.trans hstop) hcol
          exact ⟨rows₁, _, pivots ++ [col],
            by simp only [List.range'_succ, reduceColumns, hrun, Outcome.ok_bind, hfull, if_true,
              Outcome.pure_eq], hrep₁, hspan, hdone⟩
        · rcases reduceColumns_spec hF hstop todo (col + 1) rows₁ _ (pivots ++ [col]) hw' hrep₁
            hred₁ with ⟨rows', A', pivots', h, hrep', hspan', hred'⟩
          refine ⟨rows', A', pivots', ?_, hrep', hspan'.trans hspan, hred'⟩
          simpa only [List.range'_succ, reduceColumns, hrun, Outcome.ok_bind, hfull, if_false]
            using h

end Correct

end RowReduction
