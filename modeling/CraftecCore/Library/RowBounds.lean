import CraftecCore.Library.RowReduction
import Mathlib.Data.List.Perm.Basic

/-!
# RowBounds — row reduction on rows of different widths

Nothing in the loop looks at the widths of the rows; an entry past the end of a row is read out of
bounds.  Which rows a column reads depends on the rows as they stand when the loop comes to it: the
rows from the rank on are searched for a pivot, and all rows are read once there is one.  A run
stays in bounds exactly when every column it comes to finds the entries it reads.
-/

namespace RowReduction

variable {K ρ : Type} [Zero K] [DecidableEq K]

/-! ## One row of the inner loop -/

/-- What clearing a column does to row `i`. -/
def clearRow (ops : RowOps K ρ) (rank col : ℕ) (pivotRow : ρ) (i : ℕ) (row : ρ) : Outcome ρ :=
  if i = rank then
    pure row
  else do
    let factor ← ops.entry row col
    if factor = 0 then pure row else pure (ops.addMul factor row pivotRow)

theorem eliminateOthers_cons (ops : RowOps K ρ) (rank col : ℕ) (pivotRow : ρ) (i : ℕ) (row : ρ)
    (rows : List ρ) :
    eliminateOthers ops rank col pivotRow i (row :: rows) = (do
      let row' ← clearRow ops rank col pivotRow i row
      let rows' ← eliminateOthers ops rank col pivotRow (i + 1) rows
      pure (row' :: rows')) := by
  unfold clearRow
  by_cases hi : i = rank
  · simp [eliminateOthers, hi]
  · cases hentry : ops.entry row col with
    | panic why => simp [eliminateOthers, hi, hentry]
    | ok x => by_cases hx : x = 0 <;> simp [eliminateOthers, hi, hentry, hx]

/-! ## What a column keeps -/

section Keeps

variable {α : Type} {μ : ρ → α} {ops : RowOps K ρ}

/-- Clearing a column keeps whatever adding to a row keeps. -/
theorem eliminateOthers_map (haddMul : ∀ a row p, μ (ops.addMul a row p) = μ row) {rank col : ℕ}
    {pivotRow : ρ} :
    ∀ {i : ℕ} {rows rows' : List ρ}, eliminateOthers ops rank col pivotRow i rows = .ok rows' →
      rows'.map μ = rows.map μ
  | i, [], rows', h => by
      have heq : [] = rows' := by simpa [eliminateOthers] using h
      rw [← heq]
  | i, row :: rows, rows', h => by
      rw [eliminateOthers_cons, Outcome.bind_eq_ok] at h
      rcases h with ⟨row', hrow, h⟩
      rcases Outcome.bind_eq_ok.1 h with ⟨rest, hrest, h⟩
      have heq : row' :: rest = rows' := by simpa using h
      -- the row is left alone, or the pivot row is added to it
      have hkeep : μ row' = μ row := by
        unfold clearRow at hrow
        split at hrow
        · exact congrArg μ (Outcome.ok.inj hrow).symm
        · rcases Outcome.bind_eq_ok.1 hrow with ⟨factor, -, hadd⟩
          split at hadd
          · exact congrArg μ (Outcome.ok.inj hadd).symm
          · rw [← Outcome.ok.inj hadd, haddMul]
      rw [← heq, List.map_cons, List.map_cons, hkeep, eliminateOthers_map haddMul hrest]

omit [Zero K] [DecidableEq K] in
theorem swapRows_eq_ok {rows : List ρ} {i j : ℕ} (hi : i < rows.length) (hj : j < rows.length) :
    swapRows rows i j = .ok ((rows.set i rows[j]).set j rows[i]) := by
  simp [swapRows, List.index_eq_ok hi, List.index_eq_ok hj]

omit [Zero K] [DecidableEq K] in
theorem swapRows_perm {rows rows' : List ρ} {i j : ℕ} (h : swapRows rows i j = .ok rows') :
    rows'.Perm rows := by
  rcases Outcome.bind_eq_ok.1 h with ⟨a, ha, h'⟩
  rcases Outcome.bind_eq_ok.1 h' with ⟨b, hb, -⟩
  have hi := List.lt_length_of_index ha
  have hj := List.lt_length_of_index hb
  rw [swapRows_eq_ok hi hj] at h
  rw [← Outcome.ok.inj h]
  exact List.set_set_perm hi hj

omit [Zero K] [DecidableEq K] in
/-- Scaling a row in place keeps whatever scaling keeps. -/
theorem map_set_scale (hscale : ∀ a row, μ (ops.scale a row) = μ row) {rows : List ρ} {i : ℕ}
    {row : ρ} (hrow : rows.index i = .ok row) (a : K) :
    (rows.set i (ops.scale a row)).map μ = rows.map μ := by
  have hi := List.lt_length_of_index hrow
  rw [List.index_eq_ok hi] at hrow
  have hi' : i < (rows.map μ).length := by simpa using hi
  have hget : μ rows[i] = (rows.map μ)[i] := (List.getElem_map μ).symm
  rw [List.map_set, hscale, ← Outcome.ok.inj hrow, hget, List.set_getElem_self]

/-- A column puts the rows in another order and keeps whatever scaling and adding keep. -/
theorem eliminateColumn_perm (hscale : ∀ a row, μ (ops.scale a row) = μ row)
    (haddMul : ∀ a row p, μ (ops.addMul a row p) = μ row) {rows rows' : List ρ} {rank col : ℕ}
    (h : eliminateColumn ops rows rank col = .ok (.done rows')) :
    (rows'.map μ).Perm (rows.map μ) := by
  rcases Outcome.bind_eq_ok.1 h with ⟨found, -, h⟩
  cases found with
  | none => cases h
  | some p =>
      rcases Outcome.bind_eq_ok.1 h with ⟨swapped, hswap, h⟩
      rcases Outcome.bind_eq_ok.1 h with ⟨pivotRow, hpivot, h⟩
      rcases Outcome.bind_eq_ok.1 h with ⟨x, -, h⟩
      cases hinv : ops.inv x with
      | none =>
          rw [hinv] at h
          cases h
      | some v =>
          rw [hinv] at h
          rcases Outcome.bind_eq_ok.1 h with ⟨cleared, hclear, h⟩
          have heq : cleared = rows' := by simpa using h
          rw [← heq, eliminateOthers_map haddMul hclear, map_set_scale hscale hpivot]
          exact (swapRows_perm hswap).map μ

end Keeps

/-! ## Widths -/

/-- Row operations on rows of different widths: entries below the width exist, others are out of
bounds; the width of a row never changes; and every non-zero entry has an inverse. -/
structure Ragged (ops : RowOps K ρ) (width : ρ → ℕ) : Prop where
  entry : ∀ row c, c < width row → ∃ x, ops.entry row c = .ok x
  entry_panic : ∀ row c, width row ≤ c → ops.entry row c = .panic .indexOutOfBounds
  inv : ∀ x, x ≠ 0 → ∃ y, ops.inv x = some y
  width_scale : ∀ a row, width (ops.scale a row) = width row
  width_addMul : ∀ a row p, width (ops.addMul a row p) = width row

/-- A row from the rank on has a non-zero entry in the column. -/
def HasPivot (ops : RowOps K ρ) (rows : List ρ) (rank col : ℕ) : Prop :=
  ∃ row ∈ rows.drop rank, ∃ x, ops.entry row col = .ok x ∧ x ≠ 0

/-- The entries that a column reads are there: of the rows from the rank on, and of all rows if one
of those entries is a pivot. -/
structure ColumnInBounds (ops : RowOps K ρ) (width : ρ → ℕ) (rows : List ρ) (rank col : ℕ) :
    Prop where
  searched : ∀ row ∈ rows.drop rank, col < width row
  cleared : HasPivot ops rows rank col → ∀ row ∈ rows, col < width row

section Column

variable {ops : RowOps K ρ} {width : ρ → ℕ}

/-- How the search for a pivot ends: with zeros only, at a non-zero entry, or at a row that it
cannot read. -/
theorem findPivot_cases (entry : ρ → Outcome K) :
    ∀ (i : ℕ) (rows : List ρ),
      (findPivot entry i rows = .ok none ∧ ∀ row ∈ rows, entry row = .ok 0) ∨
      (∃ (t : ℕ) (h : t < rows.length) (x : K),
        findPivot entry i rows = .ok (some (i + t)) ∧ entry rows[t] = .ok x ∧ x ≠ 0) ∨
      ∃ row ∈ rows, ∃ why, entry row = .panic why ∧ findPivot entry i rows = .panic why
  | i, [] => by simp [findPivot]
  | i, row :: rows => by
      cases hrow : entry row with
      | panic why =>
          exact Or.inr (Or.inr ⟨row, List.mem_cons_self, why, hrow, by simp [findPivot, hrow]⟩)
      | ok x =>
          by_cases hx : x = 0
          · -- the search goes on behind a zero
            subst hx
            have hnext : findPivot entry i (row :: rows) = findPivot entry (i + 1) rows := by
              simp [findPivot, hrow]
            rw [hnext]
            rcases findPivot_cases entry (i + 1) rows with
              ⟨hnone, hall⟩ | ⟨t, ht, y, hsome, hentry, hy⟩ | ⟨row', hmem, why, hentry, hpanic⟩
            · refine Or.inl ⟨hnone, ?_⟩
              simpa [hrow] using hall
            · refine Or.inr (Or.inl ⟨t + 1, by simpa using ht, y, ?_, by simpa using hentry, hy⟩)
              rw [hsome, Nat.add_assoc, Nat.add_comm 1 t]
            · exact Or.inr (Or.inr ⟨row', List.mem_cons_of_mem _ hmem, why, hentry, hpanic⟩)
          · refine Or.inr (Or.inl ⟨0, by simp, x, ?_, by simpa using hrow, hx⟩)
            simp [findPivot, hrow, hx]

/-- Clearing a column goes through when the column is there in every row but the pivot row. -/
theorem eliminateOthers_cases (hR : Ragged ops width) (rank col : ℕ) (pivotRow : ρ) :
    ∀ (i : ℕ) (rows : List ρ),
      ((∃ rows', eliminateOthers ops rank col pivotRow i rows = .ok rows') ∧
        ∀ (t : ℕ) (h : t < rows.length), i + t ≠ rank → col < width rows[t]) ∨
      (eliminateOthers ops rank col pivotRow i rows = .panic .indexOutOfBounds ∧
        ∃ row ∈ rows, width row ≤ col)
  | i, [] => Or.inl ⟨⟨[], rfl⟩, by simp⟩
  | i, row :: rows => by
      by_cases hshort : i ≠ rank ∧ width row ≤ col
      · -- the entry of this row is read, and it is not there
        refine Or.inr ⟨?_, row, List.mem_cons_self, hshort.2⟩
        simp [eliminateOthers_cons, clearRow, hshort.1, hR.entry_panic row col hshort.2]
      · have hhead : ∃ row', clearRow ops rank col pivotRow i row = .ok row' := by
          unfold clearRow
          by_cases hi : i = rank
          · exact ⟨row, if_pos hi⟩
          · rcases hR.entry row col (by omega) with ⟨x, hx⟩
            by_cases hzero : x = 0
            · exact ⟨row, by simp [hi, hx, hzero]⟩
            · exact ⟨ops.addMul x row pivotRow, by simp [hi, hx, hzero]⟩
        rcases hhead with ⟨row', hrow⟩
        rcases eliminateOthers_cases hR rank col pivotRow (i + 1) rows with
          ⟨⟨rest, hrest⟩, hall⟩ | ⟨hpanic, row'', hmem, hwidth⟩
        · refine Or.inl ⟨⟨row' :: rest, by simp [eliminateOthers_cons, hrow, hrest]⟩, ?_⟩
          intro t ht hne
          cases t with
          | zero =>
              have hlt : ¬ width row ≤ col := fun hle => hshort ⟨by simpa using hne, hle⟩
              simpa using Nat.lt_of_not_le hlt
          | succ t => simpa using hall t (by simpa using ht) (by omega)
        · refine Or.inr ⟨?_, row'', List.mem_cons_of_mem _ hmem, hwidth⟩
          simp [eliminateOthers_cons, hrow, hpanic]

omit [DecidableEq K] in
theorem Ragged.lt_width (hR : Ragged ops width) {row : ρ} {col : ℕ} {x : K}
    (hx : ops.entry row col = .ok x) : col < width row := by
  by_contra hle
  rw [hR.entry_panic row col (Nat.le_of_not_lt hle)] at hx
  cases hx

/-- With a pivot, a column goes through when every row has an entry in it. -/
theorem eliminateColumn_of_pivot (hR : Ragged ops width) {rows : List ρ} {rank col t : ℕ} {x : K}
    (hp : rank + t < rows.length)
    (hsome : findPivot (fun row => ops.entry row col) rank (rows.drop rank) =
      .ok (some (rank + t)))
    (hentry : ops.entry rows[rank + t] col = .ok x) (hx : x ≠ 0) :
    ((∀ row ∈ rows, col < width row) ∧
      ∃ rows', eliminateColumn ops rows rank col = .ok (.done rows')) ∨
    ((∃ row ∈ rows, width row ≤ col) ∧
      eliminateColumn ops rows rank col = .panic .indexOutOfBounds) := by
  have hrank : rank < rows.length := by omega
  rcases hR.inv x hx with ⟨v, hv⟩
  let swapped := (rows.set rank rows[rank + t]).set (rank + t) rows[rank]
  have hswap : swapRows rows rank (rank + t) = .ok swapped := swapRows_eq_ok hrank hp
  have hindex : swapped.index rank = .ok rows[rank + t] := by
    rw [List.index_eq_ok (by simpa [swapped] using hrank)]
    by_cases hzero : t = 0
    · subst hzero
      simp [swapped]
    · simp [swapped, hzero]
  -- the rows that are cleared have the widths of the rows at the start
  let start := swapped.set rank (ops.scale v rows[rank + t])
  have hwidths : (start.map width).Perm (rows.map width) := by
    rw [show start.map width = swapped.map width from map_set_scale hR.width_scale hindex v]
    exact (swapRows_perm hswap).map width
  have hrun : eliminateColumn ops rows rank col = (do
      let rows' ← eliminateOthers ops rank col (ops.scale v rows[rank + t]) 0 start
      pure (.done rows')) := by
    simp [eliminateColumn, hsome, hswap, hindex, hentry, hv, start]
  rcases eliminateOthers_cases hR rank col (ops.scale v rows[rank + t]) 0 start with
    ⟨⟨rows', hothers⟩, hwide⟩ | ⟨hpanic, row, hmem, hshort⟩
  · have hstart : ∀ row ∈ start, col < width row := by
      intro row hrow
      rcases List.getElem_of_mem hrow with ⟨i, hi, rfl⟩
      by_cases hir : i = rank
      · -- the pivot row was read
        subst hir
        simpa [start, hR.width_scale] using hR.lt_width hentry
      · exact hwide i hi (by simpa using hir)
    refine Or.inl ⟨?_, rows', by simp [hrun, hothers]⟩
    intro row hrow
    rcases List.mem_map.1 (hwidths.mem_iff.2 (List.mem_map_of_mem hrow)) with ⟨row', hrow', heq⟩
    exact heq ▸ hstart row' hrow'
  · refine Or.inr ⟨?_, by simp [hrun, hpanic]⟩
    rcases List.mem_map.1 (hwidths.mem_iff.1 (List.mem_map_of_mem hmem)) with ⟨row', hrow', heq⟩
    exact ⟨row', hrow', heq ▸ hshort⟩

/-- One column goes through when it is in bounds, with or without a pivot; otherwise it panics. -/
theorem eliminateColumn_cases (hR : Ragged ops width) (rows : List ρ) (rank col : ℕ) :
    (ColumnInBounds ops width rows rank col ∧
      ((¬ HasPivot ops rows rank col ∧ eliminateColumn ops rows rank col = .ok .noPivot) ∨
        (HasPivot ops rows rank col ∧
          ∃ rows', eliminateColumn ops rows rank col = .ok (.done rows')))) ∨
    (¬ ColumnInBounds ops width rows rank col ∧
      eliminateColumn ops rows rank col = .panic .indexOutOfBounds) := by
  rcases findPivot_cases (fun row => ops.entry row col) rank (rows.drop rank) with
    ⟨hnone, hall⟩ | ⟨t, ht, x, hsome, hentry, hx⟩ | ⟨row, hmem, why, hentry, hpanic⟩
  · have hpivot : ¬ HasPivot ops rows rank col := by
      rintro ⟨row, hrow, x, hx, hne⟩
      have hzero : x = 0 := by simpa [hall row hrow, eq_comm] using hx
      exact absurd hzero hne
    refine Or.inl ⟨⟨fun row hrow => hR.lt_width (hall row hrow), ?_⟩, Or.inl ⟨hpivot, ?_⟩⟩
    · exact fun h => absurd h hpivot
    · simp [eliminateColumn, hnone]
  · have hp : rank + t < rows.length := by
      rw [List.length_drop] at ht
      omega
    rw [List.getElem_drop] at hentry
    have hpivot : HasPivot ops rows rank col := by
      refine ⟨rows[rank + t], ?_, x, hentry, hx⟩
      rw [← List.getElem_drop (h := ht)]
      exact List.getElem_mem ht
    rcases eliminateColumn_of_pivot hR hp hsome hentry hx with
      ⟨hwide, hdone⟩ | ⟨⟨row, hrow, hshort⟩, hpanic⟩
    · exact Or.inl ⟨⟨fun row hrow => hwide row (List.mem_of_mem_drop hrow), fun _ => hwide⟩,
        Or.inr ⟨hpivot, hdone⟩⟩
    · exact Or.inr ⟨fun h => absurd (h.cleared hpivot row hrow) (Nat.not_lt_of_le hshort), hpanic⟩
  · -- the search panics at a row that is too short
    have hshort : width row ≤ col := by
      by_contra hlt
      rcases hR.entry row col (by omega) with ⟨x, hx⟩
      simp [hx] at hentry
    refine Or.inr ⟨fun h => absurd (h.searched row hmem) (by omega), ?_⟩
    have hwhy : why = .indexOutOfBounds := by
      have heq := hR.entry_panic row col hshort
      simpa [hentry] using heq
    simp [eliminateColumn, hpanic, hwhy]

end Column

/-! ## Runs -/

section Run

variable (ops : RowOps K ρ) (width : ρ → ℕ)

/-- The loop over the columns comes to column `col'`, with these rows and this rank.  It goes on
behind a column without a pivot when `skips` is on, and behind a pivot unless that was the last of
`stop`. -/
inductive ComesTo (skips : Bool) (stop : ℕ) (rows' : List ρ) (rank' col' : ℕ) :
    List ℕ → List ρ → ℕ → Prop
  | here (cols : List ℕ) : ComesTo skips stop rows' rank' col' (col' :: cols) rows' rank'
  | skip {col : ℕ} {cols : List ℕ} {rows : List ρ} {rank : ℕ} :
      skips = true → eliminateColumn ops rows rank col = .ok .noPivot →
        ComesTo skips stop rows' rank' col' cols rows rank →
          ComesTo skips stop rows' rank' col' (col :: cols) rows rank
  | pivot {col : ℕ} {cols : List ℕ} {rows next : List ρ} {rank : ℕ} :
      eliminateColumn ops rows rank col = .ok (.done next) → rank + 1 ≠ stop →
        ComesTo skips stop rows' rank' col' cols next (rank + 1) →
          ComesTo skips stop rows' rank' col' (col :: cols) rows rank

/-- Every column that the loop comes to finds the entries it reads. -/
def RunInBounds (skips : Bool) (stop : ℕ) (cols : List ℕ) (rows : List ρ) (rank : ℕ) : Prop :=
  ∀ rows' rank' col', ComesTo ops skips stop rows' rank' col' cols rows rank →
    ColumnInBounds ops width rows' rank' col'

variable {ops width} {skips : Bool} {stop : ℕ}

theorem runInBounds_nil (rows : List ρ) (rank : ℕ) :
    RunInBounds ops width skips stop [] rows rank := by
  intro rows' rank' col' h
  cases h

/-- Behind a column without a pivot the same rows are left. -/
theorem runInBounds_skip {col : ℕ} {cols : List ℕ} {rows : List ρ} {rank : ℕ}
    (hcol : ColumnInBounds ops width rows rank col)
    (h : eliminateColumn ops rows rank col = .ok .noPivot) :
    RunInBounds ops width skips stop (col :: cols) rows rank ↔
      (skips = true → RunInBounds ops width skips stop cols rows rank) := by
  constructor
  · intro hall hskips rows' rank' col' hcomes
    exact hall rows' rank' col' (.skip hskips h hcomes)
  · intro hrest rows' rank' col' hcomes
    cases hcomes with
    | here => exact hcol
    | skip hskips _ hcomes => exact hrest hskips rows' rank' col' hcomes
    | pivot hdone _ _ => simp [h] at hdone

/-- Behind a pivot the cleared rows are left. -/
theorem runInBounds_pivot {col : ℕ} {cols : List ℕ} {rows next : List ρ} {rank : ℕ}
    (hcol : ColumnInBounds ops width rows rank col)
    (h : eliminateColumn ops rows rank col = .ok (.done next)) :
    RunInBounds ops width skips stop (col :: cols) rows rank ↔
      (rank + 1 ≠ stop → RunInBounds ops width skips stop cols next (rank + 1)) := by
  constructor
  · intro hall hstop rows' rank' col' hcomes
    exact hall rows' rank' col' (.pivot h hstop hcomes)
  · intro hrest rows' rank' col' hcomes
    cases hcomes with
    | here => exact hcol
    | skip _ hnone _ => simp [h] at hnone
    | pivot hdone hstop hcomes =>
        have heq := hdone.symm.trans h
        cases heq
        exact hrest hstop rows' rank' col' hcomes

/-- A run whose first column is out of bounds. -/
theorem not_runInBounds {col : ℕ} {cols : List ℕ} {rows : List ρ} {rank : ℕ}
    (h : ¬ ColumnInBounds ops width rows rank col) :
    ¬ RunInBounds ops width skips stop (col :: cols) rows rank :=
  fun hall => h (hall rows rank col (.here cols))

/-- Rows that are wide enough for all columns keep the loop in bounds. -/
theorem runInBounds_of_wide (hR : Ragged ops width) :
    ∀ {cols : List ℕ} {rows : List ρ} {rank : ℕ},
      (∀ row ∈ rows, ∀ c ∈ cols, c < width row) →
        RunInBounds ops width skips stop cols rows rank
  | [], rows, rank, _ => runInBounds_nil rows rank
  | col :: cols, rows, rank, hwide => by
      have hhead : ∀ row ∈ rows, col < width row :=
        fun row hrow => hwide row hrow col List.mem_cons_self
      have hcol : ColumnInBounds ops width rows rank col :=
        ⟨fun row hrow => hhead row (List.mem_of_mem_drop hrow), fun _ => hhead⟩
      rcases eliminateColumn_cases hR rows rank col with
        ⟨-, ⟨-, hnone⟩ | ⟨-, next, hdone⟩⟩ | ⟨hout, -⟩
      · refine (runInBounds_skip hcol hnone).2 fun _ => runInBounds_of_wide hR ?_
        exact fun row hrow c hc => hwide row hrow c (List.mem_cons_of_mem _ hc)
      · refine (runInBounds_pivot hcol hdone).2 fun _ => runInBounds_of_wide hR ?_
        intro row hrow c hc
        -- the cleared rows have the widths of the old ones
        have hperm := eliminateColumn_perm hR.width_scale hR.width_addMul hdone
        rcases List.mem_map.1 (hperm.mem_iff.1 (List.mem_map_of_mem hrow)) with
          ⟨row', hrow', heq⟩
        exact heq ▸ hwide row' hrow' c (List.mem_cons_of_mem _ hc)
      · exact absurd hcol hout

/-- The loop over the columns returns when its run is in bounds, and panics otherwise. -/
theorem reduceColumns_cases (hR : Ragged ops width) (skipZero : Bool) (stop : ℕ) :
    ∀ (cols : List ℕ) (rows : List ρ) (pivots : List ℕ),
      (RunInBounds ops width true stop cols rows pivots.length ∧
        ∃ result, reduceColumns ops skipZero stop cols rows pivots = .ok (some result)) ∨
      (¬ RunInBounds ops width true stop cols rows pivots.length ∧
        reduceColumns ops skipZero stop cols rows pivots = .panic .indexOutOfBounds)
  | [], rows, pivots => Or.inl ⟨runInBounds_nil rows _, ⟨(rows, pivots), rfl⟩⟩
  | col :: cols, rows, pivots => by
      rcases eliminateColumn_cases hR rows pivots.length col with
        ⟨hcol, ⟨-, hnone⟩ | ⟨-, next, hdone⟩⟩ | ⟨hout, hpanic⟩
      · -- no pivot: the next column
        have hnext : reduceColumns ops skipZero stop (col :: cols) rows pivots =
            reduceColumns ops skipZero stop cols rows pivots := by
          simp [reduceColumns, hnone]
        rw [hnext, runInBounds_skip hcol hnone]
        simpa using reduceColumns_cases hR skipZero stop cols rows pivots
      · have hlen : (pivots ++ [col]).length = pivots.length + 1 := by simp
        rw [runInBounds_pivot hcol hdone]
        by_cases hstop : pivots.length + 1 = stop
        · -- that was the last pivot
          refine Or.inl ⟨fun hne => absurd hstop hne, ⟨(next, pivots ++ [col]), ?_⟩⟩
          simp [reduceColumns, hdone, hlen, hstop]
        · have hnext : reduceColumns ops skipZero stop (col :: cols) rows pivots =
              reduceColumns ops skipZero stop cols next (pivots ++ [col]) := by
            simp [reduceColumns, hdone, hlen, hstop]
          rw [hnext]
          simpa [hstop] using reduceColumns_cases hR skipZero stop cols next (pivots ++ [col])
      · refine Or.inr ⟨not_runInBounds hout, ?_⟩
        simp [reduceColumns, hpanic]

/-- The loop comes to a column without a pivot. -/
def LeavesColumn (ops : RowOps K ρ) (skips : Bool) (stop : ℕ) (cols : List ℕ) (rows : List ρ)
    (rank : ℕ) : Prop :=
  ∃ rows' rank' col', ComesTo ops skips stop rows' rank' col' cols rows rank ∧
    ¬ HasPivot ops rows' rank' col'

theorem not_leavesColumn_nil {rows : List ρ} {rank : ℕ} :
    ¬ LeavesColumn ops skips stop [] rows rank := by
  rintro ⟨rows', rank', col, hcomes, -⟩
  cases hcomes

/-- Behind a pivot that is not the last, the same columns are left. -/
theorem leavesColumn_pivot {col : ℕ} {cols : List ℕ} {rows next : List ρ} {rank : ℕ}
    (hpivot : HasPivot ops rows rank col)
    (hdone : eliminateColumn ops rows rank col = .ok (.done next))
    (hlast : rank + 1 = stop → cols = []) :
    LeavesColumn ops skips stop (col :: cols) rows rank ↔
      LeavesColumn ops skips stop cols next (rank + 1) := by
  constructor
  · rintro ⟨rows', rank', col', hcomes, hfree⟩
    cases hcomes with
    | here => exact absurd hpivot hfree
    | skip _ hnone _ => simp [hdone] at hnone
    | pivot hdone' _ hcomes =>
        have heq := hdone'.symm.trans hdone
        cases heq
        exact ⟨rows', rank', col', hcomes, hfree⟩
  · rintro ⟨rows', rank', col', hcomes, hfree⟩
    refine ⟨rows', rank', col', .pivot hdone ?_ hcomes, hfree⟩
    -- with no columns behind the last pivot, the loop comes to none
    intro hstop
    rw [hlast hstop] at hcomes
    cases hcomes

/-- Unless a column is left, every column gives a pivot. -/
theorem length_pivots_lt_iff (hR : Ragged ops width) {skipZero : Bool} :
    ∀ {cols : List ℕ} {rows rows' : List ρ} {pivots pivots' : List ℕ},
      pivots.length + cols.length ≤ stop →
      reduceColumns ops skipZero stop cols rows pivots = .ok (some (rows', pivots')) →
        (pivots'.length < pivots.length + cols.length ↔
          LeavesColumn ops true stop cols rows pivots.length) ∧
        pivots'.length ≤ pivots.length + cols.length
  | [], rows, rows', pivots, pivots', _, hrun => by
      have heq : rows = rows' ∧ pivots = pivots' := by simpa [reduceColumns] using hrun
      simp [← heq.2, not_leavesColumn_nil]
  | col :: cols, rows, rows', pivots, pivots', hstop, hrun => by
      rw [List.length_cons] at hstop
      rcases eliminateColumn_cases hR rows pivots.length col with
        ⟨-, ⟨hpivot, hnone⟩ | ⟨hpivot, next, hdone⟩⟩ | ⟨-, hpanic⟩
      · -- this column is left
        have hnext : reduceColumns ops skipZero stop cols rows pivots =
            .ok (some (rows', pivots')) := by
          simpa [reduceColumns, hnone] using hrun
        have hle := (length_pivots_lt_iff hR (by omega) hnext).2
        have hleaves : LeavesColumn ops true stop (col :: cols) rows pivots.length :=
          ⟨rows, pivots.length, col, .here cols, hpivot⟩
        rw [List.length_cons]
        exact ⟨⟨fun _ => hleaves, fun _ => by omega⟩, by omega⟩
      · have hlast : pivots.length + 1 = stop → cols = [] :=
          fun h => List.eq_nil_of_length_eq_zero (by omega)
        have hnext : reduceColumns ops skipZero stop cols next (pivots ++ [col]) =
            .ok (some (rows', pivots')) := by
          by_cases hend : pivots.length + 1 = stop
          · have hnil := hlast hend
            subst hnil
            simpa [reduceColumns, hdone, hend] using hrun
          · simpa [reduceColumns, hdone, hend] using hrun
        have hlen : (pivots ++ [col]).length = pivots.length + 1 := by simp
        have hrest := length_pivots_lt_iff hR (by omega) hnext
        have hsum : pivots.length + (cols.length + 1) = pivots.length + 1 + cols.length := by omega
        rw [hlen] at hrest
        rw [leavesColumn_pivot hpivot hdone hlast, List.length_cons, hsum]
        exact hrest
      · simp [reduceColumns, hpanic] at hrun

end Run

end RowReduction
