import CraftecCore.Prover.Aggregation
import CraftecCore.Prover.Guest

/-!
# Overflow — the sums of a batch in every build

Weights are added up twice, for each operator and over the operators, by plain additions: host and
guest are built separately, with or without overflow checks.  As long as all weights of a batch add
up to a word, every build commits the exact sums; beyond that the numbers are wrong or the run
panics, in every build.
-/

namespace CraftecCore
namespace Prover

open Settlement MerkleTree Outcome

/-- What the guest commits on the entries that the host aggregates. -/
def commitBatchIn (sha256 : List UInt8 → Bytes 32) (host guest : OverflowChecks) {R : Type}
    [ContributionReceipt R] (receipts : List R) (poolId : Bytes 32) :
    Outcome (Except ProverError (List (List UInt8))) := do
  match ← aggregateReceiptsIn host receipts with
  | .error err => pure (.error err)
  | .ok entries => do
      let slices ← Guest.mainIn guest sha256 { entries := entries, poolId := poolId }
      pure (.ok slices)

/-! ## Where the checked run returns, every build does -/

section Aggregate

variable {R : Type} [ContributionReceipt R] (checks : OverflowChecks)

instance (r : R) : Decidable (Provable r) :=
  inferInstanceAs (Decidable (_ ∧ _ ∧ _))

theorem returnsAs_addWeightIn (weights : SortedMap (Bytes 32) UInt64) (r : R) :
    ReturnsAs (addWeight weights r) (addWeightIn checks weights r) :=
  ReturnsAs.bind (UInt64.returnsAs_addIn checks _ _) fun _ => ReturnsAs.refl _

/-- Every build validates alike; only the additions can differ. -/
theorem returnsAs_aggregateLoopIn : ∀ (receipts : List R) (weights : SortedMap (Bytes 32) UInt64),
    ReturnsAs (aggregateLoop receipts weights) (aggregateLoopIn checks receipts weights)
  | [], _ => ReturnsAs.refl _
  | r :: rs, weights => by
      unfold aggregateLoop aggregateLoopIn
      -- the three checks of the receipt, then its weight and the rest
      split
      · exact ReturnsAs.refl _
      split
      · exact ReturnsAs.refl _
      split
      · exact ReturnsAs.refl _
      · exact ReturnsAs.bind (returnsAs_addWeightIn checks weights r)
          (returnsAs_aggregateLoopIn rs)

theorem returnsAs_aggregateReceiptsIn (receipts : List R) :
    ReturnsAs (aggregateReceipts receipts) (aggregateReceiptsIn checks receipts) := by
  unfold aggregateReceipts aggregateReceiptsIn
  split
  · exact ReturnsAs.refl _
  · exact ReturnsAs.bind (returnsAs_aggregateLoopIn checks receipts SortedMap.empty)
      fun _ => ReturnsAs.refl _

/-- Receipts that pass all checks are not refused, in any build. -/
theorem aggregateLoopIn_ne_error : ∀ {receipts : List R} {weights : SortedMap (Bytes 32) UInt64},
    (∀ r ∈ receipts, Provable r) → ∀ err, aggregateLoopIn checks receipts weights ≠ .ok (.error err)
  | [], _, _, _ => by simp [aggregateLoopIn]
  | r :: rs, weights, hall, err => by
      rcases hall r List.mem_cons_self with ⟨hweight, htime, hoperator⟩
      rw [aggregateLoopIn, if_neg hweight, if_neg htime, if_neg hoperator]
      intro h
      rcases bind_eq_ok.1 h with ⟨between, -, hrest⟩
      exact aggregateLoopIn_ne_error (fun r' hr' => hall r' (List.mem_cons_of_mem r hr')) err hrest

theorem aggregateReceiptsIn_ne_error {receipts : List R} (hne : receipts ≠ [])
    (hall : ∀ r ∈ receipts, Provable r) (err : ProverError) :
    aggregateReceiptsIn checks receipts ≠ .ok (.error err) := by
  have hsome : ¬ receipts.isEmpty = true := by simpa using hne
  rw [aggregateReceiptsIn, if_neg hsome]
  intro h
  rcases bind_eq_ok.1 h with ⟨result, hloop, hresult⟩
  cases result with
  | error err' => exact aggregateLoopIn_ne_error checks hall err' hloop
  | ok weights => simp at hresult

end Aggregate

section Prove

variable (checks : OverflowChecks) (sha256 : List UInt8 → Bytes 32)

theorem returnsAs_executeGuestLogicIn (input : DistributionInput) :
    ReturnsAs (executeGuestLogic sha256 input) (executeGuestLogicIn checks sha256 input) :=
  ReturnsAs.bind (returnsAs_sumU64In checks _) fun _ => ReturnsAs.refl _

theorem Guest.returnsAs_mainIn (input : DistributionInput) :
    ReturnsAs (Guest.main sha256 input) (Guest.mainIn checks sha256 input) := by
  unfold Guest.main Guest.mainIn
  split
  · exact ReturnsAs.refl _
  · exact ReturnsAs.bind (returnsAs_sumU64In checks _) fun _ => ReturnsAs.refl _

end Prove

/-! ## Exact sums -/

/-- The 76 bytes commit to the weights that the receipts carry: one entry for each operator with the
sum of its weights, and the grand total, which no operator's weight exceeds. -/
def CommitsWeights (sha256 : List UInt8 → Bytes 32) {R : Type} [ContributionReceipt R]
    (receipts : List R) (poolId : Bytes 32) (bytes : List UInt8) : Prop :=
  ∃ (weights : SortedMap (Bytes 32) UInt64) (out : DistributionOutput),
    (∀ op, op ∈ weights.keys ↔ ∃ r ∈ receipts, ContributionReceipt.operator r = op) ∧
    (∀ op, weightIn weights op = earned receipts op) ∧
    computeMerkleRoot sha256 (weights.entries.map (leafHash sha256)) = .ok out.root ∧
    out.totalWeight.toNat = totalEarned receipts ∧
    (∀ op, earned receipts op ≤ out.totalWeight.toNat) ∧
    out.poolId = poolId ∧
    bytes = out.toBytes.bytes

/-- A run returns: an error, or something committed. -/
def ReturnsErrorOr {α : Type} (committed : α → Prop) (run : Outcome (Except ProverError α)) :
    Prop :=
  ∃ result, run = .ok result ∧ ∀ value, result = .ok value → committed value

theorem returnsErrorOr_ok {α : Type} {committed : α → Prop} {value : α} (h : committed value)
    {run : Outcome (Except ProverError α)} (hrun : run = .ok (.ok value)) :
    ReturnsErrorOr committed run := by
  refine ⟨_, hrun, ?_⟩
  rintro value' ⟨⟩
  exact h

section Exact

variable {R : Type} [ContributionReceipt R] (sha256 : List UInt8 → Bytes 32)
  {receipts : List R} {poolId : Bytes 32}

/-- Bytes that commit to the weights hold their total, so the total fits. -/
theorem CommitsWeights.fits {bytes : List UInt8}
    (h : CommitsWeights sha256 receipts poolId bytes) : totalEarned receipts < 2 ^ 64 := by
  rcases h with ⟨_, out, _, _, _, htotal, _⟩
  exact htotal ▸ out.totalWeight.toNat_lt

/-- When the total fits, the checked program commits to the weights. -/
theorem exists_commitsWeights (poolId : Bytes 32) (hne : receipts ≠ [])
    (hall : ∀ r ∈ receipts, Provable r) (hfit : totalEarned receipts < 2 ^ 64) :
    ∃ entries out, aggregateReceipts receipts = .ok (.ok entries) ∧ entries ≠ [] ∧
      executeGuestLogic sha256 { entries := entries, poolId := poolId } = .ok out ∧
      CommitsWeights sha256 receipts poolId out.toBytes.bytes := by
  have hempty : totalIn SortedMap.empty = 0 := rfl
  rcases exists_foldlM_addWeight_eq_ok receipts SortedMap.empty (by omega) with ⟨weights, hrun⟩
  have hadds := foldlM_addWeight_adds hrun
  have htotal : totalIn weights = totalEarned receipts := by
    rw [hadds.total, hempty, Nat.zero_add]
  have hearned : ∀ op, weightIn weights op = earned receipts op := by
    intro op
    simpa [weightIn] using hadds.weight op
  have hkeys : ∀ op, op ∈ weights.keys ↔ ∃ r ∈ receipts, ContributionReceipt.operator r = op := by
    intro op
    simpa [SortedMap.mem_keys] using hadds.keys op
  -- the first receipt's operator has an entry
  have hentries : weights.entries ≠ [] := by
    rcases List.exists_mem_of_ne_nil receipts hne with ⟨r, hr⟩
    intro hnil
    have hmem : ContributionReceipt.operator r ∈ weights.keys := (hkeys _).2 ⟨r, hr, rfl⟩
    simp [SortedMap.keys, hnil] at hmem
  rcases UInt64.exists_toNat_eq hfit with ⟨totalWeight, hword⟩
  rcases executeGuestLogic_weights sha256 poolId hentries (htotal.trans hword.symm) with
    ⟨root, hroot, hguest⟩
  refine ⟨weights.entries, _, aggregateReceipts_eq_ok.2 ⟨hne, hall, weights, hrun, rfl⟩, hentries,
    hguest, weights, _, hkeys, hearned, hroot, hword, ?_, rfl, rfl⟩
  intro op
  calc earned receipts op
      = weightIn weights op := (hearned op).symm
    _ ≤ totalIn weights := weightIn_le_totalIn weights op
    _ = totalWeight.toNat := htotal.trans hword.symm

/-- The host commits the exact sums, as long as they fit. -/
theorem proveBatchIn_exact_iff (poolId : Bytes 32) (hne : receipts ≠ [])
    (hall : ∀ r ∈ receipts, Provable r) (checks : OverflowChecks) :
    ReturnsErrorOr
      (fun proof : BatchProof => CommitsWeights sha256 receipts poolId proof.publicInputs)
      (proveBatchIn checks sha256 receipts poolId) ↔
    totalEarned receipts < 2 ^ 64 := by
  constructor
  · rintro ⟨result, hrun, hcommits⟩
    rcases bind_eq_ok.1 hrun with ⟨aggregated, haggregate, hrest⟩
    cases aggregated with
    | error err => exact absurd haggregate (aggregateReceiptsIn_ne_error checks hne hall err)
    | ok entries =>
        rcases bind_eq_ok.1 hrest with ⟨out, -, hproof⟩
        exact (hcommits _ (by simpa [eq_comm] using hproof)).fits
  · intro hfit
    rcases exists_commitsWeights sha256 poolId hne hall hfit with
      ⟨entries, out, haggregate, -, hguest, hcommits⟩
    have haggregateIn := returnsAs_aggregateReceiptsIn checks receipts _ haggregate
    have hguestIn := returnsAs_executeGuestLogicIn checks sha256 _ _ hguest
    have hrun : proveBatchIn checks sha256 receipts poolId =
        .ok (.ok
          { proofBytes := mockProofMagic ++ out.toBytes.bytes
            publicInputs := out.toBytes.bytes }) := by
      simp only [proveBatchIn, haggregateIn, hguestIn, ok_bind, pure_eq]
    refine returnsErrorOr_ok ?_ hrun
    exact hcommits

/-- So does the guest, on the entries that the host hands to it. -/
theorem commitBatchIn_exact_iff (poolId : Bytes 32) (hne : receipts ≠ [])
    (hall : ∀ r ∈ receipts, Provable r) (host guest : OverflowChecks) :
    ReturnsErrorOr
      (fun slices : List (List UInt8) => CommitsWeights sha256 receipts poolId slices.flatten)
      (commitBatchIn sha256 host guest receipts poolId) ↔
    totalEarned receipts < 2 ^ 64 := by
  constructor
  · rintro ⟨result, hrun, hcommits⟩
    rcases bind_eq_ok.1 hrun with ⟨aggregated, haggregate, hrest⟩
    cases aggregated with
    | error err => exact absurd haggregate (aggregateReceiptsIn_ne_error host hne hall err)
    | ok entries =>
        rcases bind_eq_ok.1 hrest with ⟨slices, -, hslices⟩
        exact (hcommits slices (by simpa [eq_comm] using hslices)).fits
  · intro hfit
    rcases exists_commitsWeights sha256 poolId hne hall hfit with
      ⟨entries, out, haggregate, hentries, hguest, hcommits⟩
    have haggregateIn := returnsAs_aggregateReceiptsIn host receipts _ haggregate
    -- the guest commits the fields of the host's output
    have hmain : Guest.main sha256 { entries := entries, poolId := poolId } =
        .ok [out.root.bytes, out.totalWeight.leBytes, out.entryCount.leBytes,
          out.poolId.bytes] := by
      rw [Guest.main_eq sha256 hentries, hguest]
      rfl
    have hmainIn := Guest.returnsAs_mainIn guest sha256 _ _ hmain
    have hrun : commitBatchIn sha256 host guest receipts poolId =
        .ok (.ok [out.root.bytes, out.totalWeight.leBytes, out.entryCount.leBytes,
          out.poolId.bytes]) := by
      simp only [commitBatchIn, haggregateIn, hmainIn, ok_bind, pure_eq]
    refine returnsErrorOr_ok ?_ hrun
    simpa [DistributionOutput.toBytes] using hcommits

end Exact

/-- The host and the guest, whatever they are built with, commit the exact sums of a valid batch as
long as its weights add up to a word, and never beyond that. -/
theorem weights_exact_iff (sha256 : List UInt8 → Bytes 32) {R : Type} [ContributionReceipt R]
    (receipts : List R) (poolId : Bytes 32) (hne : receipts ≠ [])
    (hall : ∀ r ∈ receipts, Provable r) :
    (∀ checks : OverflowChecks,
      ReturnsErrorOr
        (fun proof : BatchProof => CommitsWeights sha256 receipts poolId proof.publicInputs)
        (proveBatchIn checks sha256 receipts poolId) ↔
      totalEarned receipts < 2 ^ 64) ∧
    (∀ host guest : OverflowChecks,
      ReturnsErrorOr
        (fun slices : List (List UInt8) =>
          CommitsWeights sha256 receipts poolId slices.flatten)
        (commitBatchIn sha256 host guest receipts poolId) ↔
      totalEarned receipts < 2 ^ 64) :=
  ⟨proveBatchIn_exact_iff sha256 poolId hne hall, commitBatchIn_exact_iff sha256 poolId hne hall⟩

structure MockReceipt where
  operator : Bytes 32
  weight : UInt64
  timestamp : UInt64
  deriving DecidableEq, Repr

instance : ContributionReceipt MockReceipt where
  weight r := r.weight
  operator r := r.operator
  timestamp r := r.timestamp

def mockReceipt (operator : ℕ) (weight : UInt64) : MockReceipt :=
  { operator := Bytes.ofNat 32 operator
    weight := weight
    timestamp := 1000000 }

/-- Three receipts of two operators: a host without overflow checks, and a guest with them. -/
theorem weights_exact_three :
    ReturnsErrorOr
      (fun proof : BatchProof =>
        CommitsWeights (fun _ => Bytes.zero 32)
          [mockReceipt 1 100, mockReceipt 2 101, mockReceipt 1 102] (Bytes.zero 32)
          proof.publicInputs)
      (proveBatchIn .off (fun _ => Bytes.zero 32)
        [mockReceipt 1 100, mockReceipt 2 101, mockReceipt 1 102] (Bytes.zero 32)) ∧
    ReturnsErrorOr
      (fun slices : List (List UInt8) =>
        CommitsWeights (fun _ => Bytes.zero 32)
          [mockReceipt 1 100, mockReceipt 2 101, mockReceipt 1 102] (Bytes.zero 32)
          slices.flatten)
      (commitBatchIn (fun _ => Bytes.zero 32) .off .on
        [mockReceipt 1 100, mockReceipt 2 101, mockReceipt 1 102] (Bytes.zero 32)) := by
  have hexact := weights_exact_iff (fun _ => Bytes.zero 32)
    [mockReceipt 1 100, mockReceipt 2 101, mockReceipt 1 102] (Bytes.zero 32) (by simp)
    (by decide +kernel)
  exact ⟨(hexact.1 .off).2 (by decide), (hexact.2 .off .on).2 (by decide)⟩

def halfFullReceipts : List MockReceipt :=
  [mockReceipt 1 9223372036854775808, mockReceipt 2 9223372036854775808]

/-- On them a checked build panics, and an unchecked one commits the total zero. -/
theorem not_weights_exact :
    (∀ r ∈ halfFullReceipts, Provable r) ∧
    proveBatchIn .on (fun _ => Bytes.zero 32) halfFullReceipts (Bytes.zero 32) =
      .panic .overflow ∧
    (∃ proof out,
      proveBatchIn .off (fun _ => Bytes.zero 32) halfFullReceipts (Bytes.zero 32) =
        .ok (.ok proof) ∧
      verifyBatch proof = .ok out ∧ out.totalWeight = 0) ∧
    ¬ ∀ (checks : OverflowChecks) (receipts : List MockReceipt), receipts ≠ [] →
      (∀ r ∈ receipts, Provable r) →
        ReturnsErrorOr
          (fun proof : BatchProof =>
            CommitsWeights (fun _ => Bytes.zero 32) receipts (Bytes.zero 32) proof.publicInputs)
          (proveBatchIn checks (fun _ => Bytes.zero 32) receipts (Bytes.zero 32)) := by
  have hvalid : ∀ r ∈ halfFullReceipts, Provable r := by decide +kernel
  have hpanic : proveBatchIn .on (fun _ => Bytes.zero 32) halfFullReceipts (Bytes.zero 32) =
      .panic .overflow := by decide +kernel
  refine ⟨hvalid, hpanic, ⟨_, _, rfl, verifyBatch_mock _, by decide +kernel⟩, ?_⟩
  intro h
  rcases h .on halfFullReceipts (by simp [halfFullReceipts]) hvalid with ⟨result, hrun, -⟩
  rw [hpanic] at hrun
  cases hrun

end Prover
end CraftecCore
