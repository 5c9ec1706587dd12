import CraftecCore.Library.RowReduction
import CraftecCore.Library.RowVector

/-!
# RowRank — the rank of a list of rows

Rows of length `n` kept as lists span a subspace of `Fin n → K`.  Reducing all their columns finds
as many pivots as that subspace has dimensions, and the columns without a pivot can be filled in:
adding their unit rows adds exactly that many dimensions.
-/

namespace RowReduction

open Submodule RowVector

variable {K : Type} [Field K] {n : ℕ}

/-! ## Coordinates -/

/-- The coordinate of column `j`; zero past the last column. -/
def coordinate (n j : ℕ) : (Fin n → K) →ₗ[K] K :=
  if h : j < n then LinearMap.proj ⟨j, h⟩ else 0

theorem coordinate_apply {j : ℕ} (hj : j < n) (v : Fin n → K) :
    coordinate n j v = v ⟨j, hj⟩ := by
  simp [coordinate, hj]

theorem coordinate_toVec {j : ℕ} (hj : j < n) (l : List K) :
    coordinate n j (toVec n l) = l.getD j 0 := by
  simp [coordinate_apply hj, toVec_apply]

theorem eq_zero_of_coordinate {v : Fin n → K} (h : ∀ j < n, coordinate n j v = 0) : v = 0 := by
  funext j
  simpa [coordinate_apply j.isLt] using h j j.isLt

/-! ## Span and rank -/

def rowSpan (n : ℕ) (rows : List (List K)) : Submodule K (Fin n → K) :=
  span K {v | ∃ row ∈ rows, toVec n row = v}

noncomputable def rowRank (n : ℕ) (rows : List (List K)) : ℕ :=
  Module.finrank K (rowSpan n rows)

/-- Order and repetition of the rows do not matter. -/
theorem rowSpan_congr {rows rows' : List (List K)} (h : ∀ row, row ∈ rows ↔ row ∈ rows') :
    rowSpan n rows = rowSpan n rows' := by
  simp [rowSpan, h]

theorem rowSpan_append (rows rows' : List (List K)) :
    rowSpan n (rows ++ rows') = rowSpan n rows ⊔ rowSpan n rows' := by
  have hset : {v | ∃ row ∈ rows ++ rows', toVec n row = v} =
      {v | ∃ row ∈ rows, toVec n row = v} ∪ {v | ∃ row ∈ rows', toVec n row = v} := by
    ext v
    simp [or_and_right, exists_or]
  rw [rowSpan, hset, span_union]
  rfl

/-- The span of a list is the span of the family of its rows. -/
theorem rowSpan_eq_range {m : ℕ} {rows : List (List K)} {A : Fin m → Fin n → K}
    (hlen : rows.length = m)
    (hA : ∀ (i : ℕ) (h : i < rows.length) (h' : i < m), toVec n rows[i] = A ⟨i, h'⟩) :
    rowSpan n rows = span K (Set.range A) := by
  have hset : {v | ∃ row ∈ rows, toVec n row = v} = Set.range A := by
    ext v
    constructor
    · rintro ⟨row, hrow, rfl⟩
      rcases List.getElem_of_mem hrow with ⟨i, hi, rfl⟩
      exact ⟨⟨i, hlen ▸ hi⟩, (hA i hi (hlen ▸ hi)).symm⟩
    · rintro ⟨i, rfl⟩
      have hi : i.val < rows.length := by simp [hlen]
      exact ⟨rows[i.val], List.getElem_mem hi, hA i.val hi i.isLt⟩
  simp [rowSpan, hset]

@[simp] theorem rowRank_nil : rowRank n ([] : List (List K)) = 0 := by
  have hset : {v | ∃ row ∈ ([] : List (List K)), toVec n row = v} = ∅ := by
    simp
  rw [rowRank, rowSpan, hset, span_empty, finrank_bot]

theorem rowRank_le_length (rows : List (List K)) : rowRank n rows ≤ rows.length := by
  have hspan : rowSpan n rows = span K (Set.range fun i => toVec n (rows.get i)) :=
    rowSpan_eq_range rfl fun _ _ _ => rfl
  have hcard := finrank_range_le_card (R := K) fun i => toVec n (rows.get i)
  rw [rowRank, hspan]
  simpa [Set.finrank] using hcard

theorem rowRank_le (rows : List (List K)) : rowRank n rows ≤ n := by
  have hle := Submodule.finrank_le (rowSpan n rows)
  rwa [Module.finrank_fin_fun] at hle

/-- A row inside the span adds nothing to the rank. -/
theorem rowRank_append_of_mem {rows : List (List K)} {row : List K}
    (h : toVec n row ∈ rowSpan n rows) : rowRank n (rows ++ [row]) = rowRank n rows := by
  have hrow : rowSpan n [row] ≤ rowSpan n rows := by
    refine span_le.2 ?_
    rintro v ⟨row', hmem, rfl⟩
    rw [List.mem_singleton.1 hmem]
    exact h
  rw [rowRank, rowSpan_append, sup_eq_left.2 hrow]
  rfl

/-- The rows have full rank exactly when they span everything. -/
theorem rowRank_eq_iff {rows : List (List K)} : rowRank n rows = n ↔ rowSpan n rows = ⊤ := by
  constructor
  · intro h
    exact Submodule.eq_top_of_finrank_eq (by simpa [rowRank] using h)
  · intro h
    rw [rowRank, h, finrank_top, Module.finrank_fin_fun]

/-! ## Pivot columns -/

/-- What the reduction of all columns says about the original rows: there are as many pivots as the
rank, and a combination of the rows is determined by its entries at the pivots. -/
structure PivotColumns (n : ℕ) (rows : List (List K)) (pivots : List ℕ) : Prop where
  lt : ∀ c ∈ pivots, c < n
  nodup : pivots.Nodup
  length_eq : pivots.length = rowRank n rows
  eq_zero : ∀ v ∈ rowSpan n rows, (∀ c ∈ pivots, coordinate n c v = 0) → v = 0

/-- Some combination of the rows has its first non-zero entry in column `c`. -/
def LeadingColumn (n : ℕ) (rows : List (List K)) (c : ℕ) : Prop :=
  ∃ v ∈ rowSpan n rows, coordinate n c v ≠ 0 ∧ ∀ j < c, coordinate n j v = 0

/-- Reducing all columns of a list of rows finds its pivot columns, which are the leading ones. -/
theorem reduceColumns_pivotColumns [DecidableEq K] {ops : RowOps K (List K)}
    (hF : Faithful ops (fun row => row.length = n) (toVec n) (coordinate n) n)
    {rows : List (List K)} (hrows : ∀ row ∈ rows, row.length = n) (skipZero : Bool) :
    ∃ rows' pivots, reduceColumns ops skipZero n (List.range n) rows [] =
        .ok (some (rows', pivots)) ∧ PivotColumns n rows pivots ∧
      ∀ c < n, c ∈ pivots ↔ LeadingColumn n rows c := by
  have hrep : Represents (fun row : List K => row.length = n) (toVec n) rows _ :=
    represents_get rfl hrows
  -- reduce from column zero on, where every family is reduced
  rcases reduceColumns_spec hF (Or.inl rfl) n 0 rows _ [] (Nat.zero_add n) hrep
    (Echelon.init _ _) with ⟨rows', A', pivots, hrun, _, hspan, hred⟩
  have hspan' : rowSpan n rows = span K (Set.range A') := by
    rw [hspan]
    exact rowSpan_eq_range rfl hrep.view
  refine ⟨rows', pivots, by simpa [List.range_eq_range'] using hrun,
    ⟨hred.pivot_lt, hred.nodup, ?_, ?_⟩, ?_⟩
  · rw [rowRank, hspan']
    exact (hred.finrank_span fun v hv => eq_zero_of_coordinate hv).symm
  · intro v hv hzero
    exact eq_zero_of_coordinate (hred.coord_eq_zero (hspan' ▸ hv) hzero)
  · intro c hc
    rw [hred.mem_pivots_iff hc, ← hspan']
    rfl

/-! ## Filling in the columns without a pivot -/

def unitRow (n c : ℕ) : List K :=
  (List.replicate n 0).set c 1

@[simp] theorem length_unitRow (n c : ℕ) : (unitRow n c : List K).length = n := by
  simp [unitRow]

/-- Distinct unit rows are independent. -/
theorem rowRank_unitRows {cols : List ℕ} (hnodup : cols.Nodup) (hlt : ∀ c ∈ cols, c < n) :
    rowRank n (cols.map (unitRow n) : List (List K)) = cols.length := by
  let pos : Fin cols.length → Fin n := fun t => ⟨cols.get t, hlt _ (List.get_mem cols t)⟩
  have hpos : Function.Injective pos := by
    intro s t hst
    exact List.nodup_iff_injective_get.1 hnodup (congrArg Fin.val hst)
  have hli : LinearIndependent K fun t => (Pi.single (pos t) 1 : Fin n → K) := by
    simpa [Function.comp_def] using (Pi.basisFun K (Fin n)).linearIndependent.comp pos hpos
  have hspan : rowSpan n (cols.map (unitRow n) : List (List K)) =
      span K (Set.range fun t => (Pi.single (pos t) 1 : Fin n → K)) := by
    apply rowSpan_eq_range (by simp)
    intro i h h'
    have hi : cols[i] < n := hlt _ (List.getElem_mem h')
    simpa [unitRow, pos] using toVec_unit (K := K) hi
  rw [rowRank, hspan, finrank_span_eq_card hli, Fintype.card_fin]

/-- Unit rows in columns without a pivot add one dimension each. -/
theorem rowRank_append_unitRows {rows : List (List K)} {pivots cols : List ℕ}
    (hpiv : PivotColumns n rows pivots) (hnodup : cols.Nodup)
    (hcols : ∀ c ∈ cols, c < n ∧ c ∉ pivots) :
    rowRank n (rows ++ cols.map (unitRow n)) = rowRank n rows + cols.length := by
  have hlt : ∀ c ∈ cols, c < n := fun c hc => (hcols c hc).1
  let T : Submodule K (Fin n → K) := rowSpan n (cols.map (unitRow n))
  -- combinations of the unit rows vanish at every pivot
  have hT : ∀ v ∈ T, ∀ c ∈ pivots, coordinate n c v = 0 := by
    intro v hv c hc
    have hle : T ≤ LinearMap.ker (coordinate (K := K) n c) := by
      refine span_le.2 ?_
      rintro _ ⟨row, hrow, rfl⟩
      rcases List.mem_map.1 hrow with ⟨f, hf, rfl⟩
      have hne : f ≠ c := fun h => (hcols f hf).2 (h ▸ hc)
      have hcn := hpiv.lt c hc
      simp [coordinate_toVec hcn, unitRow, hne, hcn]
    exact hle hv
  -- a common vector vanishes at every pivot, hence everywhere
  have hinf : rowSpan n rows ⊓ T = ⊥ := by
    refine (Submodule.eq_bot_iff _).2 ?_
    rintro v ⟨hvS, hvT⟩
    exact hpiv.eq_zero v hvS (hT v hvT)
  have hdim := Submodule.finrank_sup_add_finrank_inf_eq (rowSpan n rows) T
  have hTdim : Module.finrank K T = cols.length := rowRank_unitRows hnodup hlt
  rw [hinf, finrank_bot, Nat.add_zero, hTdim] at hdim
  rw [rowRank, rowSpan_append]
  exact hdim

def freeColumns (n : ℕ) (pivots : List ℕ) : List ℕ :=
  (List.range n).filter fun c => c ∉ pivots

theorem nodup_freeColumns (pivots : List ℕ) : (freeColumns n pivots).Nodup :=
  List.nodup_range.filter _

theorem mem_freeColumns {pivots : List ℕ} {c : ℕ} :
    c ∈ freeColumns n pivots ↔ c < n ∧ c ∉ pivots := by
  simp [freeColumns]

/-- There are as many free columns as the rank falls short. -/
theorem PivotColumns.length_freeColumns {rows : List (List K)} {pivots : List ℕ}
    (hpiv : PivotColumns n rows pivots) :
    (freeColumns n pivots).length = n - rowRank n rows := by
  have hperm : ((List.range n).filter fun c => c ∈ pivots).Perm pivots := by
    refine (List.perm_ext_iff_of_nodup (List.nodup_range.filter _) hpiv.nodup).2 ?_
    intro c
    simpa using hpiv.lt c
  -- every column is a pivot or free
  have hsum := List.length_eq_length_filter_add (l := List.range n) fun c => decide (c ∈ pivots)
  have hfree : freeColumns n pivots = (List.range n).filter fun c => !decide (c ∈ pivots) := by
    simp [freeColumns]
  rw [List.length_range, hperm.length_eq, hpiv.length_eq, ← hfree] at hsum
  omega

end RowReduction
