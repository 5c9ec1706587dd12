import CraftecCore.Erasure.Exchange
import CraftecCore.Erasure.Travel

/-!
# Recovery — when the pieces that are left decode

Without receptions from outside every piece is one of the segment.  The coefficient vectors that are
held span less and less: recombination and repair stay within the span, and losses shrink it.
-/

namespace CraftecCore
namespace Erasure

open GF256 RowReduction RowVector Transition

section Honest

/-- Rows that are chosen one by one when they add to the span are as many as the rank. -/
theorem exists_spanning_sublist {α : Type} {n : ℕ} (f : α → List GF256) (items : List α) :
    ∃ chosen : List α, chosen.Sublist items ∧
      rowSpan n (chosen.map f) = rowSpan n (items.map f) ∧
      chosen.length = rowRank n (items.map f) := by
  induction items using List.reverseRecOn with
  | nil => exact ⟨[], List.Sublist.refl [], rfl, by simp⟩
  | append_singleton items a ih =>
      rcases ih with ⟨chosen, hsub, hspan, hcount⟩
      rw [List.map_append, List.map_singleton]
      rcases rowRank_append_singleton (n := n) (items.map f) (f a) with hrank | hrank
      · -- the row lies in the span already
        have hle : rowSpan n (items.map f) ≤ rowSpan n (items.map f ++ [f a]) := by
          rw [rowSpan_append]
          exact le_sup_left
        have hsame := Submodule.eq_of_le_of_finrank_eq hle hrank.symm
        exact ⟨chosen, hsub.trans (List.sublist_append_left items [a]), hspan.trans hsame,
          hcount.trans hrank.symm⟩
      · refine ⟨chosen ++ [a], hsub.append (List.Sublist.refl [a]), ?_, ?_⟩
        · rw [List.map_append, rowSpan_append, rowSpan_append, hspan, List.map_singleton]
        · rw [hrank, List.length_append, hcount]
          rfl

variable {blake3 : List UInt8 → Bytes 32} {segment : List GF256} {pieceSize : ℕ}
  {e : RlncEncoder} {hashes : SegmentHashes} {held held' : List CodedPiece}

/-- Some of the pieces held decode to the segment. -/
def DecodesTo (e : RlncEncoder) (segment : List GF256) (pieceSize : ℕ)
    (held : List CodedPiece) : Prop :=
  ∃ pieces ⊆ held,
    (RlncDecoder.new e.k pieceSize segment.length).decode pieces = .ok (.ok segment)

/-- Without receptions every piece is one of the segment. -/
theorem ofSegment_of_honest_run (henc : e.Encodes segment pieceSize)
    (hrun : Run (Published e) (PieceNext blake3 e.k hashes) Honest held) :
    ∀ p ∈ held, p.OfSegment e.pieces pieceSize := by
  have hwithin : ∀ p ∈ held, p.Within (sourceMap e.pieces pieceSize).graph := by
    refine Run.invariant
      (I := fun held => ∀ p ∈ held, p.Within (sourceMap e.pieces pieceSize).graph) ?_ ?_ hrun
    · rintro _ ⟨n, draw, rfl⟩ p hp
      rcases CodedPiece.ofSegment_iff.1 (RlncEncoder.ofSegment_encode henc n draw p hp) with
        ⟨hcoeffs, hdata, hgraph⟩
      exact ⟨⟨hcoeffs, hdata⟩, hgraph⟩
    · intro held event held' hheld hhonest hnext
      refine hnext.within blake3 ?_ hheld
      rintro p rfl
      exact absurd hhonest id
  intro p hp
  have hpiece := hwithin p hp
  exact CodedPiece.ofSegment_iff.2 ⟨hpiece.shaped.1, hpiece.shaped.2, hpiece.mem⟩

/-- Without receptions the coefficient vectors never leave the span of those held before. -/
theorem rowSpan_le_of_honest_run (hheld : ∀ p ∈ held, p.OfSegment e.pieces pieceSize)
    (hrun : Run (fun h => h = held) (PieceNext blake3 e.k hashes) Honest held') :
    rowSpan e.k (held'.map CodedPiece.coefficients) ≤
      rowSpan e.k (held.map CodedPiece.coefficients) := by
  let W : Submodule GF256 ((Fin e.k → GF256) × (Fin pieceSize → GF256)) :=
    (rowSpan e.k (held.map CodedPiece.coefficients)).comap (LinearMap.fst GF256 _ _)
  have hwithin : ∀ p ∈ held', p.Within W := by
    refine Run.invariant (I := fun held' => ∀ p ∈ held', p.Within W) ?_ ?_ hrun
    · rintro _ rfl p hp
      refine ⟨⟨(hheld p hp).coefficients_length, (hheld p hp).data_length⟩, ?_⟩
      exact Submodule.subset_span ⟨p.coefficients, List.mem_map_of_mem hp, rfl⟩
    · intro held event held' hheld hhonest hnext
      refine hnext.within blake3 ?_ hheld
      rintro p rfl
      exact absurd hhonest id
  refine Submodule.span_le.2 ?_
  rintro v ⟨row, hrow, rfl⟩
  rcases List.mem_map.1 hrow with ⟨p, hp, rfl⟩
  exact (hwithin p hp).mem

theorem rowRank_le_of_rowSpan_le {n : ℕ} {rows rows' : List (List GF256)}
    (h : rowSpan n rows ≤ rowSpan n rows') : rowRank n rows ≤ rowRank n rows' :=
  Submodule.finrank_mono h

/-- Pieces of a segment decode to nothing but the segment. -/
theorem eq_segment_of_decode (henc : e.Encodes segment pieceSize) {pieces : List CodedPiece}
    (hpieces : ∀ p ∈ pieces, p.OfSegment e.pieces pieceSize) {bytes : List GF256}
    (h : (RlncDecoder.new e.k pieceSize segment.length).decode pieces = .ok (.ok bytes)) :
    bytes = segment ∧ rowRank e.k (pieces.map CodedPiece.coefficients) = e.k := by
  by_cases hcount : pieces.length < e.k
  · rw [decode_of_too_few hcount] at h
    cases Outcome.ok.inj h
  have htake : ∀ p ∈ pieces.take e.k, p.OfSegment e.pieces pieceSize :=
    fun p hp => hpieces p (List.mem_of_mem_take hp)
  rw [decode_ofSegment pieces henc (Nat.le_of_not_lt hcount) htake] at h
  by_cases hrank : rowRank e.k ((pieces.map CodedPiece.coefficients).take e.k) = e.k
  · rw [if_pos hrank, usizeMul_withCapacity] at h
    refine ⟨?_, ?_⟩
    · split at h
      · exact (Except.ok.inj (Outcome.ok.inj h)).symm
      · split at h <;> cases h
    · refine Nat.le_antisymm (rowRank_le _) ?_
      calc e.k
          = rowRank e.k ((pieces.map CodedPiece.coefficients).take e.k) := hrank.symm
        _ ≤ rowRank e.k (pieces.map CodedPiece.coefficients) := by
            refine rowRank_le_of_rowSpan_le (Submodule.span_mono ?_)
            rintro v ⟨row, hrow, rfl⟩
            exact ⟨row, List.mem_of_mem_take hrow, rfl⟩
  · rw [if_neg hrank] at h
    cases Outcome.ok.inj h

/-- Pieces of a segment can recover it exactly when their coefficient vectors have full rank. -/
theorem decodesTo_iff (henc : e.Encodes segment pieceSize) (hcap : e.k * pieceSize ≤ isizeMax)
    (hheld : ∀ p ∈ held, p.OfSegment e.pieces pieceSize) :
    DecodesTo e segment pieceSize held ↔
      rowRank e.k (held.map CodedPiece.coefficients) = e.k := by
  constructor
  · rintro ⟨pieces, hsub, hdecode⟩
    have hrank := (eq_segment_of_decode henc (fun p hp => hheld p (hsub hp)) hdecode).2
    refine Nat.le_antisymm (rowRank_le _) ?_
    calc e.k
        = rowRank e.k (pieces.map CodedPiece.coefficients) := hrank.symm
      _ ≤ rowRank e.k (held.map CodedPiece.coefficients) := by
          refine rowRank_le_of_rowSpan_le (Submodule.span_mono ?_)
          rintro v ⟨row, hrow, rfl⟩
          rcases List.mem_map.1 hrow with ⟨p, hp, rfl⟩
          exact ⟨p.coefficients, List.mem_map_of_mem (hsub hp), rfl⟩
  · intro hrank
    rcases exists_spanning_sublist (n := e.k) CodedPiece.coefficients held with
      ⟨pieces, hsub, hspan, hcount⟩
    have hpieces : ∀ p ∈ pieces, p.OfSegment e.pieces pieceSize :=
      fun p hp => hheld p (hsub.subset hp)
    have hindep : CoefficientsIndependent e.k pieces := by
      rw [coefficientsIndependent_iff, hcount]
      rw [rowRank, rowRank, hspan]
    exact ⟨pieces, hsub.subset,
      (decode_eq_ok_iff henc (hcount.trans hrank) hpieces).2 ⟨hindep, hcap⟩⟩

/-- In every run without receptions: pieces that are held decode to nothing but the segment; some of
them decode to it if and only if `check_independence` counts `k` of their coefficient vectors as
independent; and no later recombination, repair or loss raises this count, so that a segment that
cannot be recovered is lost for good. -/
theorem recovery_iff_independent (hnew : RlncEncoder.new segment pieceSize = .ok (.ok e))
    (hcap : e.k * pieceSize ≤ isizeMax)
    (hrun : Run (Published e) (PieceNext blake3 e.k hashes) Honest held) :
    (∀ pieces ⊆ held, ∀ bytes,
      (RlncDecoder.new e.k pieceSize segment.length).decode pieces = .ok (.ok bytes) →
        bytes = segment) ∧
    (DecodesTo e segment pieceSize held ↔
      checkIndependence (held.map CodedPiece.coefficients) = .ok e.k) ∧
    ∀ held', Run (fun h => h = held) (PieceNext blake3 e.k hashes) Honest held' →
      (∃ rank rank', checkIndependence (held.map CodedPiece.coefficients) = .ok rank ∧
        checkIndependence (held'.map CodedPiece.coefficients) = .ok rank' ∧ rank' ≤ rank) ∧
      (DecodesTo e segment pieceSize held' → DecodesTo e segment pieceSize held) := by
  have henc := RlncEncoder.encodes_of_new hnew
  have hheld := ofSegment_of_honest_run henc hrun
  have hcheck : ∀ {pieces : List CodedPiece}, (∀ p ∈ pieces, p.OfSegment e.pieces pieceSize) →
      checkIndependence (pieces.map CodedPiece.coefficients) =
        .ok (rowRank e.k (pieces.map CodedPiece.coefficients)) := by
    intro pieces hpieces
    refine checkIndependence_eq ?_
    intro row hrow
    rcases List.mem_map.1 hrow with ⟨p, hp, rfl⟩
    exact (hpieces p hp).coefficients_length
  refine ⟨?_, ?_, ?_⟩
  · intro pieces hsub bytes hdecode
    exact (eq_segment_of_decode henc (fun p hp => hheld p (hsub hp)) hdecode).1
  · rw [decodesTo_iff henc hcap hheld, hcheck hheld, Outcome.ok.injEq]
  · intro held' hlater
    have hheld' := ofSegment_of_honest_run henc (hrun.trans hlater)
    have hrank := rowRank_le_of_rowSpan_le (rowSpan_le_of_honest_run hheld hlater)
    refine ⟨⟨_, _, hcheck hheld, hcheck hheld', hrank⟩, ?_⟩
    rw [decodesTo_iff henc hcap hheld', decodesTo_iff henc hcap hheld]
    intro hfull
    rw [hfull] at hrank
    exact Nat.le_antisymm (rowRank_le _) hrank

end Honest

/-- Two pieces of one byte, of which only the sum is kept. -/
theorem recovery_iff_independent_two_bytes :
    ∃ e held, RlncEncoder.new [⟨1⟩, ⟨2⟩] 1 = .ok (.ok e) ∧
      held.map CodedPiece.coefficients = [[1, 1]] ∧
      (DecodesTo e [⟨1⟩, ⟨2⟩] 1 held ↔
        checkIndependence (held.map CodedPiece.coefficients) = .ok e.k) := by
  have hnew : RlncEncoder.new [⟨1⟩, ⟨2⟩] 1 = .ok (.ok ⟨[[⟨1⟩], [⟨2⟩]], 1⟩) := by
    decide +kernel
  let hashes : SegmentHashes := { seed := Bytes.zero 32, pieceHashes := [] }
  let total : CodedPiece := { data := [⟨3⟩], coefficients := [1, 1] }
  have hstart : Run (Published ⟨[[⟨1⟩], [⟨2⟩]], 1⟩)
      (PieceNext (fun _ => Bytes.zero 32) 2 hashes) Honest
      (RlncEncoder.encode ⟨[[⟨1⟩], [⟨2⟩]], 1⟩ 0 fun _ _ => 0) := Run.start ⟨0, _, rfl⟩
  have hsum : createPieceFromExisting (RlncEncoder.encode ⟨[[⟨1⟩], [⟨2⟩]], 1⟩ 0 fun _ _ => 0)
      (fun _ => ⟨1, one_ne_zero⟩) = .ok total := by
    decide +kernel
  have hadded := hstart.step (e := PieceEvent.recombine) trivial
    (PieceNext.recombine (List.Subset.refl _) hsum)
  have hkept : [total] ⊆ total :: RlncEncoder.encode ⟨[[⟨1⟩], [⟨2⟩]], 1⟩ 0 fun _ _ => 0 := by
    simp
  have hlost := hadded.step (e := PieceEvent.lose) trivial (PieceNext.lose hkept)
  exact ⟨_, _, hnew, rfl, (recovery_iff_independent hnew (by decide) hlost).2.1⟩

end Erasure
end CraftecCore
