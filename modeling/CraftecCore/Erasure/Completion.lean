import CraftecCore.Erasure.Repair

/-!
# Completion — orthogonal vectors up to full rank

`generate_orthogonal_vector` gives up exactly on lists of full rank, and every vector that it
returns adds one to the rank.  So a list of rank `r` is completed to full rank in `k - r` calls,
whatever the offsets are.  `create_orthogonal_piece` returns a piece exactly when the vector that it
was given as a target can be combined from the local pieces.

A vector of `k` bytes has `k ≤ isize::MAX`.
-/

namespace CraftecCore
namespace Erasure

open RowReduction RowVector

variable {k : ℕ} {existing : List (List GF256)}

/-! ## Vectors -/

/-- A list of full rank has no free column. -/
theorem generateOrthogonalVector_full (hk : 0 < k) (hlen : ∀ v ∈ existing, v.length = k)
    (hrank : rowRank k existing = k) (offset : ℕ) :
    generateOrthogonalVector existing k offset = .ok none := by
  have hk' : k ≠ 0 := Nat.pos_iff_ne_zero.1 hk
  have hne : existing ≠ [] := by
    rintro rfl
    rw [rowRank_nil] at hrank
    exact hk' hrank.symm
  rcases reduceColumns_pivotColumns (vectorOps_faithful k) hlen true with
    ⟨rows', pivots, hrun, hpiv, -⟩
  have hfull : k ≤ pivots.length := by rw [hpiv.length_eq, hrank]
  simp [generateOrthogonalVector, hk', hne, hrun, hfull]

/-- Append the vector of each offset; nothing once a call gives up. -/
def appendOrthogonal (k : ℕ) : List ℕ → List (List GF256) →
    Outcome (Option (List (List GF256)))
  | [], existing => pure (some existing)
  | offset :: offsets, existing => do
      match ← generateOrthogonalVector existing k offset with
      | none => pure none
      | some v => appendOrthogonal k offsets (existing ++ [v])

/-- As many appends succeed as the rank falls short, each with a vector that adds to the rank. -/
theorem appendOrthogonal_eq_ok (hk : 0 < k) (hcap : k ≤ isizeMax) :
    ∀ (offsets : List ℕ) {existing : List (List GF256)}, (∀ v ∈ existing, v.length = k) →
      rowRank k existing + offsets.length ≤ k →
        ∃ appended, appendOrthogonal k offsets existing = .ok (some (existing ++ appended)) ∧
          appended.length = offsets.length ∧ (∀ v ∈ appended, v.length = k) ∧
          rowRank k (existing ++ appended) = rowRank k existing + offsets.length
  | [], existing, _, _ => ⟨[], by simp [appendOrthogonal], rfl, by simp, by simp⟩
  | offset :: offsets, existing, hlen, hle => by
      rw [List.length_cons] at hle
      have hlt : rowRank k existing < k := by omega
      rcases generateOrthogonalVector_target hk hcap hlen hlt offset with ⟨c, -, -, hgen, hadd⟩
      have hlen' : ∀ v ∈ existing ++ [unitRow k c], v.length = k :=
        List.forall_mem_append.2 ⟨hlen, List.forall_mem_singleton.2 (length_unitRow k c)⟩
      rcases appendOrthogonal_eq_ok hk hcap offsets hlen' (by rw [hadd]; omega) with
        ⟨appended, hrun, hcount, hall, hrank⟩
      refine ⟨unitRow k c :: appended, ?_, by rw [List.length_cons, List.length_cons, hcount],
        ?_, ?_⟩
      · simpa [appendOrthogonal, hgen] using hrun
      · intro v hv
        rcases List.mem_cons.1 hv with rfl | hv
        · exact length_unitRow k c
        · exact hall v hv
      · rw [List.append_assoc, List.singleton_append] at hrank
        rw [hrank, hadd, List.length_cons]
        omega

/-- Nothing is returned exactly for full rank, and otherwise a vector that adds one to the rank; so
exactly as many appends succeed as the rank falls short. -/
theorem generateOrthogonalVector_exact (hk : 0 < k) (hcap : k ≤ isizeMax)
    (hlen : ∀ v ∈ existing, v.length = k) :
    (∀ offset, (generateOrthogonalVector existing k offset = .ok none ↔ rowRank k existing = k) ∧
      (rowRank k existing ≠ k → ∃ v, generateOrthogonalVector existing k offset = .ok (some v) ∧
        v.length = k ∧ rowRank k (existing ++ [v]) = rowRank k existing + 1)) ∧
    ∀ offsets : List ℕ, offsets.length = k - rowRank k existing →
      ∃ appended, appendOrthogonal k offsets existing = .ok (some (existing ++ appended)) ∧
        appended.length = k - rowRank k existing ∧
        ∀ offset, generateOrthogonalVector (existing ++ appended) k offset = .ok none := by
  have hle : rowRank k existing ≤ k := rowRank_le existing
  constructor
  · intro offset
    have hsome : rowRank k existing ≠ k → ∃ v,
        generateOrthogonalVector existing k offset = .ok (some v) ∧ v.length = k ∧
          rowRank k (existing ++ [v]) = rowRank k existing + 1 := by
      intro hne
      rcases generateOrthogonalVector_target hk hcap hlen (Nat.lt_of_le_of_ne hle hne) offset with
        ⟨c, -, -, hgen, hadd⟩
      exact ⟨_, hgen, length_unitRow k c, hadd⟩
    refine ⟨⟨?_, fun hfull => generateOrthogonalVector_full hk hlen hfull offset⟩, hsome⟩
    intro hnone
    by_contra hne
    rcases hsome hne with ⟨v, hv, -, -⟩
    simp [hv] at hnone
  · intro offsets hcount
    rcases appendOrthogonal_eq_ok hk hcap offsets hlen (by omega) with
      ⟨appended, hrun, hlength, hall, hrank⟩
    refine ⟨appended, hrun, hlength.trans hcount, ?_⟩
    have hlen' : ∀ v ∈ existing ++ appended, v.length = k :=
      List.forall_mem_append.2 ⟨hlen, hall⟩
    exact generateOrthogonalVector_full hk hlen' (by omega)

/-- Two dependent vectors of length three: two appends succeed. -/
theorem generateOrthogonalVector_exact_three :
    ∃ appended, appendOrthogonal 3 [7, 0] [[1, 0, 0], [0, 0, 0]] =
        .ok (some ([[1, 0, 0], [0, 0, 0]] ++ appended)) ∧
      ∀ offset, generateOrthogonalVector ([[1, 0, 0], [0, 0, 0]] ++ appended) 3 offset =
        .ok none := by
  have hrank : rowRank 3 ([[1, 0, 0], [0, 0, 0]] : List (List GF256)) = 1 :=
    rowRank_eq_of_checkIndependence (by simp) (by decide +kernel)
  have hlen : ∀ v ∈ ([[1, 0, 0], [0, 0, 0]] : List (List GF256)), v.length = 3 := by simp
  rcases (generateOrthogonalVector_exact (by decide) (by decide) hlen).2 [7, 0]
    (by rw [hrank]; rfl) with ⟨appended, hrun, -, hnone⟩
  exact ⟨appended, hrun, hnone⟩

/-- A vector longer than a buffer can be is never returned. -/
theorem generateOrthogonalVector_too_long :
    rowRank (2 ^ 63) ([] : List (List GF256)) ≠ 2 ^ 63 ∧
      generateOrthogonalVector [] (2 ^ 63) 0 = .panic .capacityOverflow := by
  constructor
  · rw [rowRank_nil]
    decide
  · rw [generateOrthogonalVector_nil (by decide), if_neg (by decide)]

/-! ## Pieces -/

theorem createOrthogonalPiece_nil (existing : List (List GF256)) (k offset : ℕ) :
    createOrthogonalPiece [] existing k offset = .ok none := by
  simp [createOrthogonalPiece]

theorem createOrthogonalPiece_full {localPieces : List CodedPiece} {offset : ℕ}
    (hgen : generateOrthogonalVector existing k offset = .ok none) :
    createOrthogonalPiece localPieces existing k offset = .ok none := by
  cases localPieces with
  | nil => exact createOrthogonalPiece_nil existing k offset
  | cons first rest => simp [createOrthogonalPiece, hgen]

/-- A row that raises the rank lies outside every span that the rows contain. -/
theorem not_mem_rowSpan_of_rank {rows rows' : List (List GF256)} {row : List GF256}
    (hadd : rowRank k (rows ++ [row]) = rowRank k rows + 1)
    (hsub : ∀ v ∈ rows', toVec k v ∈ rowSpan k rows) : toVec k row ∉ rowSpan k rows' := by
  intro hmem
  have hle : rowSpan k rows' ≤ rowSpan k rows := by
    refine Submodule.span_le.2 ?_
    rintro v ⟨row', hrow', rfl⟩
    exact hsub row' hrow'
  have hsame := rowRank_append_of_mem (hle hmem)
  omega

/-- A piece is returned exactly when there are local pieces, the rank falls short and the target is
in the span of the local coefficients; the target is then what it carries. -/
theorem createOrthogonalPiece_exact (hk : 0 < k) (hcap : k ≤ isizeMax)
    (hlen : ∀ v ∈ existing, v.length = k) {localPieces : List CodedPiece}
    (hlocal : ∀ p ∈ localPieces, p.coefficients.length = k) (offset : ℕ) :
    ((∃ p, createOrthogonalPiece localPieces existing k offset = .ok (some p)) ↔
      localPieces ≠ [] ∧ rowRank k existing < k ∧
        ∃ target, generateOrthogonalVector existing k offset = .ok (some target) ∧
          toVec k target ∈ rowSpan k (localPieces.map CodedPiece.coefficients)) ∧
    (∀ p, createOrthogonalPiece localPieces existing k offset = .ok (some p) →
      generateOrthogonalVector existing k offset = .ok (some p.coefficients) ∧
      rowRank k (existing ++ [p.coefficients]) = rowRank k existing + 1) ∧
    ((¬ ∃ p, createOrthogonalPiece localPieces existing k offset = .ok (some p)) →
      createOrthogonalPiece localPieces existing k offset = .ok none) ∧
    ((∀ p ∈ localPieces, toVec k p.coefficients ∈ rowSpan k existing) →
      createOrthogonalPiece localPieces existing k offset = .ok none) := by
  by_cases hne : localPieces = []
  · subst hne
    simp [createOrthogonalPiece_nil]
  by_cases hrank : rowRank k existing = k
  · have hnone : createOrthogonalPiece localPieces existing k offset = .ok none :=
      createOrthogonalPiece_full (generateOrthogonalVector_full hk hlen hrank offset)
    simp [hnone, hrank]
  have hlt : rowRank k existing < k := Nat.lt_of_le_of_ne (rowRank_le existing) hrank
  rcases generateOrthogonalVector_target hk hcap hlen hlt offset with ⟨c, -, -, hgen, hadd⟩
  rcases createOrthogonalPiece_of_target hne hk hlocal hgen (length_unitRow k c) with
    ⟨hmem, p, hp, hcoeff⟩ | ⟨hnot, hnone⟩
  · -- the target is combined
    refine ⟨⟨fun _ => ⟨hne, hlt, _, hgen, hmem⟩, fun _ => ⟨p, hp⟩⟩, ?_, ?_, ?_⟩
    · intro p' hp'
      have heq : p' = p := by simpa using hp'.symm.trans hp
      rw [heq, hcoeff]
      exact ⟨hgen, hadd⟩
    · intro hno
      exact absurd ⟨p, hp⟩ hno
    · intro hsub
      refine absurd hmem (not_mem_rowSpan_of_rank hadd ?_)
      intro v hv
      rcases List.mem_map.1 hv with ⟨q, hq, rfl⟩
      exact hsub q hq
  · refine ⟨⟨?_, ?_⟩, ?_, fun _ => hnone, fun _ => hnone⟩
    · rintro ⟨p, hp⟩
      simp [hnone] at hp
    · rintro ⟨-, -, target, hgen', hmem⟩
      have heq : target = unitRow k c := by simpa using hgen'.symm.trans hgen
      exact absurd (heq ▸ hmem) hnot
    · intro p hp
      simp [hnone] at hp

/-- Two local pieces that combine to the unit vector of the second column. -/
theorem createOrthogonalPiece_exact_combined :
    generateOrthogonalVector [[1, 0, 0]] 3 0 = .ok (some [0, 1, 0]) ∧
      rowRank 3 ([[1, 0, 0]] ++ [[0, 1, 0]] : List (List GF256)) =
        rowRank 3 ([[1, 0, 0]] : List (List GF256)) + 1 := by
  have hlen : ∀ v ∈ ([[1, 0, 0]] : List (List GF256)), v.length = 3 := by simp
  have hlocal : ∀ p ∈ [({ data := [7], coefficients := [1, 1, 0] } : CodedPiece),
      { data := [5], coefficients := [1, 0, 0] }], p.coefficients.length = 3 := by simp
  exact (createOrthogonalPiece_exact (by decide) (by decide) hlen hlocal 0).2.1
    { data := [2], coefficients := [0, 1, 0] } (by decide +kernel)

end Erasure
end CraftecCore
