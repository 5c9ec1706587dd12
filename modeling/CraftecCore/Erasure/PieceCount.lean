import CraftecCore.Erasure.Layout

/-!
# PieceCount — the number of source pieces, counted in four places

The encoder rounds the length of a segment up to whole pieces, and so does `k_for_segment`.  The
number for a full segment is a division that rounds down, in the configuration and in the
verification record.  The defaults divide evenly, so a record with the default configuration counts
as the encoder does; a configuration that does not divide counts one piece too few.
-/

namespace CraftecCore
namespace Erasure

open GF256

def ErasureConfig.k (config : ErasureConfig) : Outcome ℕ :=
  if config.pieceSize = 0 then
    .panic .divisionByZero
  else
    pure (config.segmentSize / config.pieceSize)

/-! ## The encoder of a segment -/

section Encoder

variable {content : List GF256} {config : ErasureConfig} {draw : ℕ → ℕ → ℕ → GF256}

/-- An encoded segment was cut out of the content, and an encoder was built over its bytes. -/
theorem new_of_encodeSegment {i : ℕ} {entry : UInt32 × List CodedPiece}
    (hrun : encodeSegment content config draw i = .ok (.ok entry)) :
    ∃ (e : RlncEncoder) (n : ℕ),
      RlncEncoder.new (segmentBytes content config i) config.pieceSize = .ok (.ok e) ∧
        entry = (UInt32.ofNat i, e.encode n (draw i)) := by
  rcases Outcome.bind_eq_ok.1 hrun with ⟨start, hstart, hrun⟩
  rcases Outcome.bind_eq_ok.1 hrun with ⟨sum, hsum, hrun⟩
  rcases Outcome.bind_eq_ok.1 hrun with ⟨segmentData, hslice, hrun⟩
  rcases Outcome.bind_eq_ok.1 hrun with ⟨result, hnew, hrun⟩
  have hstart' : start = i * config.segmentSize := by
    unfold usizeMul at hstart
    split at hstart <;> simp_all
  have hsum' : sum = start + config.segmentSize := by
    unfold usizeAdd at hsum
    split at hsum <;> simp_all
  have hdata : segmentData = segmentBytes content config i := by
    unfold List.slice at hslice
    split at hslice
    · have heq : (content.drop start).take (min sum content.length - start) = segmentData := by
        simpa using hslice
      rw [← heq, segmentBytes, hsum', hstart']
      apply List.take_eq_take_iff.2
      rw [List.length_drop]
      omega
    · cases hslice
  cases result with
  | error err => simp at hrun
  | ok e =>
      rcases Outcome.bind_eq_ok.1 hrun with ⟨n, -, hrun⟩
      have heq : (UInt32.ofNat i, e.encode n (draw i)) = entry := by simpa using hrun
      exact ⟨e, n, hdata ▸ hnew, heq.symm⟩

/-- Encoded content has as many entries as segments, and behind every entry is the encoder of its
segment. -/
theorem new_of_segmentAndEncode {encoded : List (UInt32 × List CodedPiece)}
    (hrun : segmentAndEncode content config draw = .ok (.ok encoded)) :
    encoded.length = segmentCount content config ∧
      ∀ i < encoded.length, ∃ (e : RlncEncoder) (n : ℕ),
        RlncEncoder.new (segmentBytes content config i) config.pieceSize = .ok (.ok e) ∧
          encoded[i]? = some (UInt32.ofNat i, e.encode n (draw i)) := by
  by_cases hne : content = []
  · simp [segmentAndEncode, hne] at hrun
  rw [segmentAndEncode, if_neg hne] at hrun
  rcases Outcome.bind_eq_ok.1 hrun with ⟨count, hcount, hrun⟩
  rcases Outcome.bind_eq_ok.1 hrun with ⟨results, hresults, hrun⟩
  have hcollect : results.collectResults = .ok encoded := by simpa using hrun
  have hcount' : count = segmentCount content config := by
    by_cases hzero : config.segmentSize = 0
    · simp [usizeDivCeil, hzero] at hcount
    · rw [usizeDivCeil_eq_ok _ (Nat.pos_iff_ne_zero.2 hzero)] at hcount
      exact (Outcome.ok.inj hcount).symm
  have hall := Outcome.forall₂_of_mapM_eq_ok hresults
  rw [List.eq_map_of_collectResults hcollect, List.forall₂_map_right_iff] at hall
  have hlen : count = encoded.length := by simpa using hall.length_eq
  refine ⟨hlen.symm.trans hcount', ?_⟩
  intro i hi
  have hsegment := hall.get (by simpa [hlen] using hi) hi
  rw [List.get_eq_getElem, List.getElem_range] at hsegment
  rcases new_of_encodeSegment hsegment with ⟨e, n, hnew, hentry⟩
  refine ⟨e, n, hnew, ?_⟩
  rw [List.getElem?_eq_getElem hi]
  exact congrArg some hentry

/-- The configuration counts the pieces of a segment as its encoder does. -/
theorem kForSegment_length {segment : List GF256} {e : RlncEncoder}
    (hnew : RlncEncoder.new segment config.pieceSize = .ok (.ok e)) :
    config.kForSegment segment.length = .ok e.k := by
  have henc := RlncEncoder.encodes_of_new hnew
  have hone : 1 ≤ e.k := henc.k_pos
  rw [henc.k_eq] at hone ⊢
  simp [ErasureConfig.kForSegment, usizeDivCeil_eq_ok _ henc.pieceSize_pos, max_eq_left hone]

end Encoder

/-! ## The verification record -/

section Record

/-- A full segment is one that ends within the content; the last one is cut off at its end. -/
theorem length_segmentBytes_cases {content : List GF256} {config : ErasureConfig} {i count : ℕ}
    (hcover : content.length ≤ count * config.segmentSize)
    (hlast : count * config.segmentSize < content.length + config.segmentSize) (hi : i < count) :
    (i + 1 < count ∧ (segmentBytes content config i).length = config.segmentSize) ∨
    (i + 1 = count ∧ i * config.segmentSize < content.length ∧
      (segmentBytes content config i).length = content.length - i * config.segmentSize) := by
  have hlen := length_segmentBytes content config i
  have hsucc : (i + 1) * config.segmentSize = i * config.segmentSize + config.segmentSize :=
    Nat.succ_mul i config.segmentSize
  rcases Nat.lt_or_eq_of_le (Nat.succ_le_of_lt hi) with hnext | heq
  · -- the next segment begins within the content
    have hle : (i + 2) * config.segmentSize ≤ count * config.segmentSize :=
      Nat.mul_le_mul_right _ hnext
    have hsucc' : (i + 2) * config.segmentSize =
        (i + 1) * config.segmentSize + config.segmentSize := Nat.succ_mul (i + 1) _
    exact Or.inl ⟨hnext, by omega⟩
  · rw [← heq, Nat.succ_eq_add_one, hsucc] at hcover hlast
    exact Or.inr ⟨heq, by omega, by omega⟩

/-- The record derives the number of segments from the length of the content alone. -/
theorem record_segmentCount_eq_ok {content : List GF256} (hne : content ≠ [])
    {record : ContentVerificationRecord} (hsize : record.fileSize.toNat = content.length) :
    record.segmentCount = .ok (segmentCount content .default) := by
  have hzero : record.fileSize ≠ 0 := by
    intro h
    rw [h] at hsize
    exact absurd hsize.symm (Nat.pos_iff_ne_zero.1 (List.length_pos_iff.2 hne))
  have hseg : 0 < defaultSegmentSize := by decide
  rw [ContentVerificationRecord.segmentCount, if_neg hzero, usizeDivCeil_eq_ok _ hseg, hsize]
  rfl

/-- And so it does the number of pieces of each. -/
theorem record_kForSegment_eq_ok {content : List GF256} (hne : content ≠ [])
    {record : ContentVerificationRecord} (hsize : record.fileSize.toNat = content.length) :
    ∀ i < segmentCount content .default,
      record.kForSegment i =
        .ok ((segmentBytes content .default i).length ⌈/⌉ defaultPieceSize) := by
  have hlen := List.length_pos_iff.2 hne
  have hseg : 0 < defaultSegmentSize := by decide
  have hpiece : 0 < defaultPieceSize := by decide
  have hconfig : ErasureConfig.default.segmentSize = defaultSegmentSize := rfl
  have hcount := record_segmentCount_eq_ok hne hsize
  have hcounted : segmentCount content .default = content.length ⌈/⌉ defaultSegmentSize := rfl
  rcases (eq_ceilDiv_iff hseg).1 hcounted with ⟨hcover, hlast⟩
  intro i hi
  generalize segmentCount content .default = count at *
  have hfit := record.fileSize.toNat_lt
  have hstart : i * defaultSegmentSize ≤ (count - 1) * defaultSegmentSize :=
    Nat.mul_le_mul_right _ (by omega)
  have hnum : defaultSegmentSize = 10485760 := rfl
  rw [hnum] at hcover hlast
  have hnext := usizeAdd_eq_ok (show i + 1 < 2 ^ 64 by omega)
  have hone : count ≠ 0 := by omega
  rw [ContentVerificationRecord.kForSegment, hcount, Outcome.ok_bind, if_neg hone, hnext,
    Outcome.ok_bind]
  have hcases := @length_segmentBytes_cases content .default
  rcases hcases hcover hlast hi with ⟨hfull, hbytes⟩ | ⟨heq, hin, hbytes⟩
  · -- the defaults divide evenly, so rounding down and up is the same
    rw [if_pos hfull, hbytes]
    have heven : defaultSegmentSize / defaultPieceSize =
        defaultSegmentSize ⌈/⌉ defaultPieceSize := by
      rw [eq_ceilDiv_iff hpiece]
      decide
    exact congrArg Outcome.ok heven
  · rw [if_neg (by omega), hbytes]
    rw [hconfig] at hin
    have hmul := usizeMul_eq_ok (show i * defaultSegmentSize < 2 ^ 64 by omega)
    have hsub := usizeSub_eq_ok (show i * defaultSegmentSize ≤ record.fileSize.toNat by omega)
    have hpos : 0 < content.length - i * defaultSegmentSize := by omega
    have hk := one_le_ceilDiv hpiece hpos
    rw [hmul, Outcome.ok_bind, hsub, Outcome.ok_bind, usizeDivCeil_eq_ok _ hpiece,
      Outcome.ok_bind, hsize, max_eq_left hk]
    rfl

/-- With the default configuration no size of an encoding overflows. -/
theorem fits_default {content : List GF256} (hne : content ≠ [])
    (hlen : content.length ≤ isizeMax) : Fits content .default where
  content_ne := hne
  content_le := hlen
  pieceSize_pos := by decide
  pieceSize_le := by decide
  segmentSize_pos := by decide
  parity_lt := by
    intro i _
    -- a segment has at most as many pieces as bytes
    have hk : segmentK content .default i ≤ defaultSegmentSize := by
      refine (ceilDiv_le_iff_le_mul (show 0 < defaultPieceSize by decide)).2 ?_
      have hbytes : (segmentBytes content .default i).length ≤ defaultSegmentSize := by
        simp [segmentBytes, ErasureConfig.default]
      exact le_trans hbytes (Nat.le_mul_of_pos_left _ (by decide))
    calc segmentK content .default i * defaultInitialParity
        ≤ defaultSegmentSize * defaultInitialParity := Nat.mul_le_mul_right _ hk
      _ < 2 ^ 64 := by decide

/-- The record, the configuration and the encoder count the same segments, and in each of them the
same pieces. -/
theorem record_layout_eq_encoder {content : List GF256} (hne : content ≠ [])
    (hlen : content.length ≤ isizeMax) (draw : ℕ → ℕ → ℕ → GF256)
    {record : ContentVerificationRecord} (hsize : record.fileSize.toNat = content.length) :
    ∃ encoded, segmentAndEncode content .default draw = .ok (.ok encoded) ∧
      record.segmentCount = .ok encoded.length ∧
      ∀ i < encoded.length, ∃ (e : RlncEncoder) (n : ℕ),
        RlncEncoder.new (segmentBytes content .default i) defaultPieceSize = .ok (.ok e) ∧
          encoded[i]? = some (UInt32.ofNat i, e.encode n (draw i)) ∧
          record.kForSegment i = .ok e.k ∧
          ErasureConfig.default.kForSegment (segmentBytes content .default i).length = .ok e.k := by
  rcases segmentAndEncode_eq_ok (fits_default hne hlen) draw with ⟨_, _, -, hrun⟩
  refine ⟨_, hrun, ?_⟩
  rcases new_of_segmentAndEncode hrun with ⟨hcount, hentries⟩
  rw [hcount] at hentries ⊢
  refine ⟨record_segmentCount_eq_ok hne hsize, ?_⟩
  intro i hi
  rcases hentries i hi with ⟨e, n, hnew, hentry⟩
  have hk := (RlncEncoder.encodes_of_new hnew).k_eq
  refine ⟨e, n, hnew, hentry, ?_, kForSegment_length hnew⟩
  rw [record_kForSegment_eq_ok hne hsize i hi, hk]
  rfl

end Record

/-- One byte of content: one segment, and of it one piece. -/
theorem record_layout_one_byte :
    ∃ encoded, segmentAndEncode [⟨7⟩] .default (fun _ _ _ => ⟨0⟩) = .ok (.ok encoded) ∧
      ({ fileSize := 1, segmentHashes := [] } : ContentVerificationRecord).segmentCount =
        .ok encoded.length := by
  have hne : [(⟨7⟩ : GF256)] ≠ [] := by decide
  have hsize : ({ fileSize := 1, segmentHashes := [] } : ContentVerificationRecord).fileSize.toNat =
      [(⟨7⟩ : GF256)].length := by decide
  rcases record_layout_eq_encoder hne (by decide) (fun _ _ _ => ⟨0⟩) hsize with
    ⟨encoded, hrun, hcount, -⟩
  exact ⟨encoded, hrun, hcount⟩

/-! ## The number for a full segment -/

section FullSegment

def SameK (config : ErasureConfig) (e : RlncEncoder) : Prop :=
  ∃ k, config.k = .ok k ∧ config.kForSegment config.segmentSize = .ok k ∧ e.k = k

/-- Rounding down is rounding up exactly when nothing is left over. -/
theorem div_eq_ceilDiv_iff {len size : ℕ} (hsize : 0 < size) :
    len / size = len ⌈/⌉ size ↔ size ∣ len := by
  have hdiv : len / size * size + len % size = len := Nat.div_add_mod' len size
  have hmod := Nat.mod_lt len hsize
  rw [eq_ceilDiv_iff hsize, Nat.dvd_iff_mod_eq_zero]
  omega

variable {config : ErasureConfig}

theorem k_eq_kForSegment_iff (hpiece : 0 < config.pieceSize) (hsegment : 0 < config.segmentSize) :
    config.k = config.kForSegment config.segmentSize ↔ config.pieceSize ∣ config.segmentSize := by
  have hone := one_le_ceilDiv hpiece hsegment
  rw [← div_eq_ceilDiv_iff hpiece]
  simp [ErasureConfig.k, ErasureConfig.kForSegment, Nat.pos_iff_ne_zero.1 hpiece,
    usizeDivCeil_eq_ok _ hpiece, max_eq_left hone]

/-- The division of the configuration counts the pieces of a full segment exactly when the size of
a piece divides the size of a segment; the encoder of a full segment always has as many pieces as
the other function counts. -/
theorem sameK_iff_dvd (hpiece : 0 < config.pieceSize) (hsegment : 0 < config.segmentSize) :
    (config.k = config.kForSegment config.segmentSize ↔
        config.pieceSize ∣ config.segmentSize) ∧
      ∀ (content : List GF256) (draw : ℕ → ℕ → ℕ → GF256)
        (encoded : List (UInt32 × List CodedPiece)),
        segmentAndEncode content config draw = .ok (.ok encoded) →
          ∀ i < encoded.length, (segmentBytes content config i).length = config.segmentSize →
            ∃ (e : RlncEncoder) (n : ℕ),
              RlncEncoder.new (segmentBytes content config i) config.pieceSize = .ok (.ok e) ∧
                encoded[i]? = some (UInt32.ofNat i, e.encode n (draw i)) ∧
                config.kForSegment config.segmentSize = .ok e.k ∧
                (SameK config e ↔ config.pieceSize ∣ config.segmentSize) := by
  refine ⟨k_eq_kForSegment_iff hpiece hsegment, ?_⟩
  intro content draw encoded hrun i hi hfull
  rcases (new_of_segmentAndEncode hrun).2 i hi with ⟨e, n, hnew, hentry⟩
  have hk : config.kForSegment config.segmentSize = .ok e.k := hfull ▸ kForSegment_length hnew
  refine ⟨e, n, hnew, hentry, hk, ?_⟩
  rw [← k_eq_kForSegment_iff hpiece hsegment, SameK]
  constructor
  · rintro ⟨k, hdiv, hceil, -⟩
    rw [hdiv, hceil]
  · intro heq
    exact ⟨e.k, heq.trans hk, hk, rfl⟩

/-- Pieces of two bytes divide segments of four. -/
theorem sameK_two_of_four :
    let config : ErasureConfig := { pieceSize := 2, segmentSize := 4, initialParity := 0 }
    config.k = config.kForSegment config.segmentSize := by
  intro config
  have hpiece : 0 < config.pieceSize := by decide
  exact (sameK_iff_dvd hpiece (by decide)).1.2 (by decide)

/-- Segments of three bytes in pieces of two, and in pieces of four: the configuration counts one
piece and none, the encoder two and one. -/
theorem k_misses_last_piece :
    let uneven : ErasureConfig := { pieceSize := 2, segmentSize := 3, initialParity := 0 }
    let large : ErasureConfig := { pieceSize := 4, segmentSize := 3, initialParity := 0 }
    (uneven.k = .ok 1 ∧ uneven.kForSegment 3 = .ok 2 ∧
      ∃ e, RlncEncoder.new (segmentBytes [⟨1⟩, ⟨2⟩, ⟨3⟩] uneven 0) 2 = .ok (.ok e) ∧ e.k = 2 ∧
        segmentAndEncode [⟨1⟩, ⟨2⟩, ⟨3⟩] uneven (fun _ _ _ => ⟨0⟩) =
          .ok (.ok [(0, e.encode 0 fun _ _ => ⟨0⟩)]) ∧ ¬ SameK uneven e) ∧
    large.k = .ok 0 ∧ large.kForSegment 3 = .ok 1 := by
  refine ⟨⟨by decide, by decide, { pieces := [[⟨1⟩, ⟨2⟩], [⟨3⟩, ⟨0⟩]], pieceSize := 2 },
    by decide +kernel, by decide, by decide +kernel, ?_⟩, by decide, by decide⟩
  rintro ⟨k, hdiv, hceil, -⟩
  have hone : k = 1 := by
    have : Outcome.ok (1 : ℕ) = .ok k := hdiv
    exact (Outcome.ok.inj this).symm
  rw [hone] at hceil
  exact absurd hceil (by decide)

end FullSegment

end Erasure
end CraftecCore
