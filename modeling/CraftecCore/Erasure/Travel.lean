import CraftecCore.Erasure.Independence
import CraftecCore.Erasure.Decoder
import CraftecCore.Erasure.Homomorphic
import CraftecCore.Library.Run

/-!
# Travel — the pieces of a segment between publication and decoding

Nodes recombine, repair and lose the pieces they hold, and receive pieces from others, which they
verify.  A linear condition on pieces survives recombination and repair, and decoding returns data
that meets it, too.
-/

namespace CraftecCore
namespace Erasure

open GF256 RowReduction RowVector Transition

/-! ## Linear conditions on pieces -/

section Within

variable {k pieceSize : ℕ} {W : Submodule GF256 ((Fin k → GF256) × (Fin pieceSize → GF256))}

/-- A piece of `k` coefficients and `pieceSize` bytes that meets a linear condition. -/
structure CodedPiece.Within (W : Submodule GF256 ((Fin k → GF256) × (Fin pieceSize → GF256)))
    (p : CodedPiece) : Prop where
  shaped : p.Shaped k pieceSize
  mem : p.toPair k pieceSize ∈ W

/-- The recombination loop keeps the condition, with or without skipping zero scalars. -/
theorem CodedPiece.within_foldl {step : CodedPiece → CodedPiece × GF256 → CodedPiece}
    (hstep : ∀ acc piece alpha, step acc (piece, alpha) = acc.mulAdd piece alpha ∨
      alpha = 0 ∧ step acc (piece, alpha) = acc)
    {items : List (CodedPiece × GF256)} (hitems : ∀ pa ∈ items, pa.1.Within W) :
    (items.foldl step (CodedPiece.zero pieceSize k)).Within W := by
  rcases CodedPiece.toPair_foldl hstep fun pa hpa => (hitems pa hpa).shaped with ⟨hshape, hview⟩
  refine ⟨hshape, ?_⟩
  rw [hview]
  apply list_sum_mem
  intro v hv
  rcases List.mem_map.1 hv with ⟨pa, hpa, rfl⟩
  exact W.smul_mem _ (hitems pa hpa).mem

theorem within_createPieceFromExisting {pieces : List CodedPiece}
    {alpha : ℕ → {a : GF256 // a ≠ 0}} {p : CodedPiece} (hpieces : ∀ q ∈ pieces, q.Within W)
    (h : createPieceFromExisting pieces alpha = .ok p) : p.Within W := by
  match pieces, hpieces, h with
  | first :: second :: rest, hpieces, h =>
      have hfirst := (hpieces first List.mem_cons_self).shaped
      have hp := Except.ok.inj h
      simp only [hfirst.1, hfirst.2] at hp
      rw [← hp]
      refine CodedPiece.within_foldl (fun _ _ _ => Or.inl rfl) ?_
      intro pa hpa
      exact hpieces pa.1 (List.of_mem_zip hpa).1

theorem within_createOrthogonalPiece {localPieces : List CodedPiece}
    {existing : List (List GF256)} {offset : ℕ} {p : CodedPiece}
    (hlocal : ∀ q ∈ localPieces, q.Within W)
    (h : createOrthogonalPiece localPieces existing k offset = .ok (some p)) : p.Within W := by
  rcases createOrthogonalPiece_eq_some h with ⟨first, hfirst, alphas, rfl⟩
  rw [combineLocal, (hlocal first hfirst).shaped.2]
  refine CodedPiece.within_foldl ?_ ?_
  · intro acc piece alpha
    by_cases ha : alpha = 0
    · exact Or.inr ⟨ha, by simp [ha]⟩
    · exact Or.inl (by simp [ha])
  · intro pa hpa
    exact hlocal pa.1 (List.of_mem_zip hpa).1

/-- Whatever is decoded is the front of `k` pieces of data; each of them, named by a unit vector,
meets every linear condition that the pieces met. -/
theorem decode_within {originalSize : ℕ} {pieces : List CodedPiece}
    (hpieces : ∀ p ∈ pieces, p.Within W) {bytes : List GF256}
    (h : (RlncDecoder.new k pieceSize originalSize).decode pieces = .ok (.ok bytes)) :
    ∃ sources : List (List GF256), sources.length = k ∧
      (∀ s ∈ sources, s.length = pieceSize) ∧ bytes = sources.flatten.take originalSize ∧
      ∀ (i : ℕ) (hi : i < k) (hi' : i < sources.length),
        ((Pi.single ⟨i, hi⟩ 1, toVec pieceSize sources[i]) :
          (Fin k → GF256) × (Fin pieceSize → GF256)) ∈ W := by
  rw [RlncDecoder.decode, RlncDecoder.new] at h
  by_cases hcount : pieces.length < k
  · simp [hcount] at h
  have htake : (pieces.take k).length = k := by
    rw [List.length_take, Nat.min_eq_left (Nat.le_of_not_lt hcount)]
  have hshaped : ∀ p ∈ pieces.take k, p.Shaped k pieceSize :=
    fun p hp => (hpieces p (List.mem_of_mem_take hp)).shaped
  have hrep : Represents (CodedPiece.Shaped k pieceSize) (CodedPiece.toPair k pieceSize)
      (pieces.take k) _ := represents_get htake hshaped
  rcases eliminateLoop_spec k 0 _ _ (Nat.zero_add _) hrep (Reduced.init _ _) with
    ⟨rows, A', hrun, hrep', hspan, hred⟩ | ⟨hrun, -⟩
  · rw [← List.range_eq_range'] at hrun
    have hbytes : bytes = (rows.map CodedPiece.data).flatten.take originalSize := by
      simp only [hcount, if_false, hrun, Outcome.ok_bind, Outcome.bind_eq_ok] at h
      rcases h with ⟨capacity, -, -, -, hresult⟩
      exact (Except.ok.inj (Outcome.ok.inj hresult)).symm
    -- row operations stay inside the span of the pieces
    have hsub : Submodule.span GF256 (Set.range A') ≤ W := by
      rw [hspan, Submodule.span_le]
      rintro _ ⟨i, rfl⟩
      exact (hpieces _ (List.mem_of_mem_take (List.get_mem _ _))).mem
    refine ⟨rows.map CodedPiece.data, by simp [hrep'.length], ?_, hbytes, ?_⟩
    · intro s hs
      rcases List.mem_map.1 hs with ⟨row, hrow, rfl⟩
      exact (hrep'.good row hrow).2
    · intro i hi hi'
      have hrow : i < rows.length := by rw [hrep'.length]; exact hi
      have hview := hrep'.view i hrow hi
      have hmem : rows[i].toPair k pieceSize ∈ W := by
        rw [hview]
        exact hsub (Submodule.subset_span (Set.mem_range_self _))
      have hunit : toVec k rows[i].coefficients = Pi.single ⟨i, hi⟩ 1 := by
        rw [← fst_eq_single hred ⟨i, hi⟩, ← hview]
        rfl
      rw [List.getElem_map, ← hunit]
      exact hmem
  · rw [← List.range_eq_range'] at hrun
    simp [hcount, hrun] at h

end Within

/-! ## Pieces that travel -/

/-- What happens to the pieces of a segment, wherever they are held. -/
inductive PieceEvent
  | recombine
  | repair
  | receive (p : CodedPiece)
  | lose

/-- The encoder's output, with any number of parity pieces. -/
def Published (e : RlncEncoder) (held : List CodedPiece) : Prop :=
  ∃ n draw, held = e.encode n draw

section Travel

variable (blake3 : List UInt8 → Bytes 32)

/-- One step.  A node that recombines or repairs takes any of the pieces held, and any coefficient
vectors for the existing ones; what is received is verified. -/
inductive PieceNext (k : ℕ) (hashes : SegmentHashes) :
    List CodedPiece → PieceEvent → List CodedPiece → Prop
  | recombine {held pieces : List CodedPiece} {alpha : ℕ → {a : GF256 // a ≠ 0}}
      {p : CodedPiece} :
      pieces ⊆ held → createPieceFromExisting pieces alpha = .ok p →
        PieceNext k hashes held .recombine (p :: held)
  | repair {held localPieces : List CodedPiece} {existing : List (List GF256)} {offset : ℕ}
      {p : CodedPiece} :
      localPieces ⊆ held → createOrthogonalPiece localPieces existing k offset = .ok (some p) →
        PieceNext k hashes held .repair (p :: held)
  | receive {held : List CodedPiece} {p : CodedPiece} :
      verifyPiece blake3 p hashes = .ok true → PieceNext k hashes held (.receive p) (p :: held)
  | lose {held kept : List CodedPiece} :
      kept ⊆ held → PieceNext k hashes held .lose kept

/-- A linear condition that received pieces meet holds of all pieces. -/
theorem PieceNext.within {k pieceSize : ℕ} {hashes : SegmentHashes}
    {W : Submodule GF256 ((Fin k → GF256) × (Fin pieceSize → GF256))}
    {held held' : List CodedPiece} {e : PieceEvent} (h : PieceNext blake3 k hashes held e held')
    (hreceived : ∀ p, e = .receive p → verifyPiece blake3 p hashes = .ok true → p.Within W)
    (hheld : ∀ p ∈ held, p.Within W) : ∀ p ∈ held', p.Within W := by
  have hcons : ∀ p : CodedPiece, p.Within W → ∀ q ∈ p :: held, q.Within W := by
    intro p hp q hq
    rcases List.mem_cons.1 hq with rfl | hq
    · exact hp
    · exact hheld q hq
  cases h with
  | recombine hsub hrun =>
      exact hcons _ (within_createPieceFromExisting (fun q hq => hheld q (hsub hq)) hrun)
  | repair hsub hrun =>
      exact hcons _ (within_createOrthogonalPiece (fun q hq => hheld q (hsub hq)) hrun)
  | receive hverify => exact hcons _ (hreceived _ rfl hverify)
  | lose hsub => exact fun p hp => hheld p (hsub hp)

/-- What is received has the data length of the segment's pieces, which verification does not
check. -/
def WellSized (pieceSize : ℕ) (_ : List CodedPiece) : PieceEvent → Prop
  | .receive p => p.data.length = pieceSize
  | _ => True

def Honest (_ : List CodedPiece) : PieceEvent → Prop
  | .receive _ => False
  | _ => True

end Travel

end Erasure
end CraftecCore
