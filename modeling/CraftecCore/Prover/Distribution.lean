import CraftecCore.Library.OverflowChecks
import CraftecCore.Library.SortedMap
import CraftecCore.Prover.Merkle
import CraftecCore.Settlement.Receipt
import Mathlib.Data.List.Sort

/-!
# Distribution — aggregation, guest logic and the mock prover

Receipts are aggregated into one weight an operator, the guest logic hashes the entries into a
Merkle root, and the mock prover wraps the 76-byte output.  The 76-byte layout reads back, so a
proof verifies to the output it was made of.
-/

namespace CraftecCore
namespace Prover

open Settlement MerkleTree

/-! ## The source functions -/

inductive ProverError
  | emptyBatch
  | zeroWeight
  | zeroTimestamp
  | zeroOperator
  | invalidProof
  | outputMismatch
  | sp1 (msg : String)
  deriving DecidableEq, Repr

structure BatchProof where
  proofBytes : List UInt8
  publicInputs : List UInt8
  deriving DecidableEq, Repr

structure DistributionInput where
  entries : List (Bytes 32 × UInt64)
  poolId : Bytes 32

@[ext]
structure DistributionOutput where
  root : Bytes 32
  totalWeight : UInt64
  entryCount : UInt32
  poolId : Bytes 32
  deriving DecidableEq, Repr

def DistributionOutput.toBytes (out : DistributionOutput) : Bytes 76 :=
  { bytes := out.root.bytes ++ out.totalWeight.leBytes ++ out.entryCount.leBytes ++ out.poolId.bytes
    length_eq := by simp }

def DistributionOutput.fromBytes (bytes : Bytes 76) : DistributionOutput :=
  { root := bytes.extract 0 32 (by decide)
    totalWeight := UInt64.ofLeBytes (bytes.extract 32 8 (by decide)).bytes
    entryCount := UInt32.ofLeBytes (bytes.extract 40 4 (by decide)).bytes
    poolId := bytes.extract 44 32 (by decide) }

section Aggregate

variable {R : Type} [ContributionReceipt R] (checks : OverflowChecks)

/-- `*weights.entry(operator).or_insert(0) += weight`. -/
def addWeightIn (weights : SortedMap (Bytes 32) UInt64) (r : R) :
    Outcome (SortedMap (Bytes 32) UInt64) := do
  let weight ← ((weights.get? (ContributionReceipt.operator r)).getD 0).addIn checks
    (ContributionReceipt.weight r)
  pure (weights.insert (ContributionReceipt.operator r) weight)

def aggregateLoopIn : List R → SortedMap (Bytes 32) UInt64 →
    Outcome (Except ProverError (SortedMap (Bytes 32) UInt64))
  | [], weights => pure (.ok weights)
  | r :: rs, weights =>
      if ContributionReceipt.weight r = 0 then
        pure (.error .zeroWeight)
      else if ContributionReceipt.timestamp r = 0 then
        pure (.error .zeroTimestamp)
      else if ContributionReceipt.operator r = Bytes.zero 32 then
        pure (.error .zeroOperator)
      else do
        let weights ← addWeightIn checks weights r
        aggregateLoopIn rs weights

def aggregateReceiptsIn (receipts : List R) :
    Outcome (Except ProverError (List (Bytes 32 × UInt64))) :=
  if receipts.isEmpty then
    pure (.error .emptyBatch)
  else do
    match ← aggregateLoopIn checks receipts SortedMap.empty with
    | .error err => pure (.error err)
    | .ok weights => pure (.ok weights.entries)

-- without a setting, a function is the one of a build that checks

def addWeight (weights : SortedMap (Bytes 32) UInt64) (r : R) :
    Outcome (SortedMap (Bytes 32) UInt64) :=
  addWeightIn .on weights r

def aggregateLoop (receipts : List R) (weights : SortedMap (Bytes 32) UInt64) :
    Outcome (Except ProverError (SortedMap (Bytes 32) UInt64)) :=
  aggregateLoopIn .on receipts weights

def aggregateReceipts (receipts : List R) :
    Outcome (Except ProverError (List (Bytes 32 × UInt64))) :=
  aggregateReceiptsIn .on receipts

/-- Distribution entries from receipts, without validation. -/
def computeDistributionEntries (receipts : List R) : Outcome (List (Bytes 32 × UInt64)) := do
  let weights ← receipts.foldlM addWeight SortedMap.empty
  pure weights.entries

end Aggregate

section Guest

variable (checks : OverflowChecks) (sha256 : List UInt8 → Bytes 32)

def leafMessage (entry : Bytes 32 × UInt64) : List UInt8 :=
  entry.1.bytes ++ entry.2.leBytes

def leafHash (entry : Bytes 32 × UInt64) : Bytes 32 :=
  sha256 (leafMessage entry)

def executeGuestLogicIn (input : DistributionInput) : Outcome DistributionOutput := do
  -- a stable sort by operator key
  let entries := input.entries.insertionSort fun a b => a.1 ≤ b.1
  let totalWeight ← sumU64In checks (entries.map Prod.snd)
  let root ← computeMerkleRoot sha256 (entries.map (leafHash sha256))
  pure
    { root := root
      totalWeight := totalWeight
      entryCount := UInt32.ofNat entries.length
      poolId := input.poolId }

def executeGuestLogic (input : DistributionInput) : Outcome DistributionOutput :=
  executeGuestLogicIn .on sha256 input

/-- `b"CRAFTEC_MOCK_PROOF_V1"`. -/
def mockProofMagic : List UInt8 :=
  [67, 82, 65, 70, 84, 69, 67, 95, 77, 79, 67, 75, 95, 80, 82, 79, 79, 70, 95, 86, 49]

def proveBatchIn {R : Type} [ContributionReceipt R] (receipts : List R) (poolId : Bytes 32) :
    Outcome (Except ProverError BatchProof) := do
  match ← aggregateReceiptsIn checks receipts with
  | .error err => pure (.error err)
  | .ok entries => do
      let output ← executeGuestLogicIn checks sha256 { entries := entries, poolId := poolId }
      let outputBytes := output.toBytes
      pure (.ok
        { proofBytes := mockProofMagic ++ outputBytes.bytes
          publicInputs := outputBytes.bytes })

def proveBatch {R : Type} [ContributionReceipt R] (receipts : List R) (poolId : Bytes 32) :
    Outcome (Except ProverError BatchProof) :=
  proveBatchIn .on sha256 receipts poolId

def verifyBatch (proof : BatchProof) : Except ProverError DistributionOutput :=
  if proof.proofBytes.length < mockProofMagic.length + 76 then
    .error .invalidProof
  else if proof.proofBytes.take mockProofMagic.length ≠ mockProofMagic then
    .error .invalidProof
  else if proof.proofBytes.drop mockProofMagic.length ≠ proof.publicInputs then
    .error .outputMismatch
  else
    -- the length check comes last, on bytes that equal those of the proof
    match Bytes.ofList? 76 proof.publicInputs with
    | none => .error .invalidProof
    | some outputBytes => .ok (DistributionOutput.fromBytes outputBytes)

end Guest

/-! ## A build with overflow checks -/

section Checked

variable {R : Type} [ContributionReceipt R]

theorem addWeightIn_on (weights : SortedMap (Bytes 32) UInt64) (r : R) :
    addWeightIn .on weights r = addWeight weights r := rfl

theorem aggregateLoopIn_on (receipts : List R) (weights : SortedMap (Bytes 32) UInt64) :
    aggregateLoopIn .on receipts weights = aggregateLoop receipts weights := rfl

theorem aggregateReceiptsIn_on (receipts : List R) :
    aggregateReceiptsIn .on receipts = aggregateReceipts receipts := rfl

theorem executeGuestLogicIn_on (sha256 : List UInt8 → Bytes 32) (input : DistributionInput) :
    executeGuestLogicIn .on sha256 input = executeGuestLogic sha256 input := rfl

end Checked

/-! ## The 76-byte layout -/

/-- Reading back the layout gives the output. -/
theorem DistributionOutput.fromBytes_toBytes (out : DistributionOutput) :
    DistributionOutput.fromBytes out.toBytes = out := by
  have hroot : out.root.bytes.length = 32 := out.root.length_eq
  have hpool : out.poolId.bytes.length = 32 := out.poolId.length_eq
  have hweight : out.totalWeight.leBytes.length = 8 := UInt64.length_leBytes _
  have hcount : out.entryCount.leBytes.length = 4 := UInt32.length_leBytes _
  -- every field starts where the fields before it end
  have h40 : out.root.bytes.drop 40 = [] := List.drop_of_length_le (by simp)
  have h44 : out.root.bytes.drop 44 = [] := List.drop_of_length_le (by simp)
  have h12 : out.totalWeight.leBytes.drop 12 = [] := List.drop_of_length_le (by simp)
  apply DistributionOutput.ext
  · apply Bytes.ext
    simp [fromBytes, toBytes, Bytes.extract, hroot]
  · simp [fromBytes, toBytes, Bytes.extract, List.take_append, List.drop_append, hroot, hweight]
  · simp [fromBytes, toBytes, Bytes.extract, List.take_append, List.drop_append, hroot, hweight,
      hcount, h40]
  · have htake : out.poolId.bytes.take 32 = out.poolId.bytes := List.take_of_length_le hpool.le
    apply Bytes.ext
    simp [fromBytes, toBytes, Bytes.extract, List.take_append, List.drop_append, hroot, hweight,
      hcount, h44, h12, htake]

/-- A proof that the mock prover makes is verified to the output it wraps. -/
theorem verifyBatch_mock (out : DistributionOutput) :
    verifyBatch
      { proofBytes := mockProofMagic ++ out.toBytes.bytes
        publicInputs := out.toBytes.bytes } = .ok out := by
  have hlen : out.toBytes.bytes.length = 76 := out.toBytes.length_eq
  simp [verifyBatch, hlen, DistributionOutput.fromBytes_toBytes]

end Prover
end CraftecCore
