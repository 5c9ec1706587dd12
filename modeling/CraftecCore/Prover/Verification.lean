import CraftecCore.Prover.Distribution

/-!
# Verification — whether a proof is bound to its public inputs

The two builds of the prover verify in different ways.  The mock client compares the public inputs
with the output inside the proof; the SP1 client reads the output off the public inputs and never
looks at the proof.  So an accepted proof stays accepted under any other 76 bytes in the SP1 build,
and under nothing else in the mock build.
-/

namespace CraftecCore
namespace Prover

open Settlement

/-! ## The source functions -/

def Sp1.verifyBatch (proof : BatchProof) : Except ProverError DistributionOutput :=
  if proof.publicInputs.length ≠ 76 then
    .error .invalidProof
  else
    match Bytes.ofList? 76 proof.publicInputs with
    | none => .error .invalidProof
    | some outputBytes => .ok (DistributionOutput.fromBytes outputBytes)

inductive ProverBuild
  | mock
  | sp1
  deriving DecidableEq, Repr

/-- `ProverClient::verify_batch` of a build. -/
def ProverBuild.verifyBatch : ProverBuild → BatchProof → Except ProverError DistributionOutput
  | .mock, proof => Prover.verifyBatch proof
  | .sp1, proof => Sp1.verifyBatch proof

/-! ## What is accepted -/

/-- The mock client accepts the magic and 76 bytes, with these bytes as public inputs. -/
theorem verifyBatch_eq_ok {proof : BatchProof} {out : DistributionOutput} :
    verifyBatch proof = .ok out ↔
      proof.proofBytes = mockProofMagic ++ proof.publicInputs ∧
        ∃ bytes : Bytes 76, bytes.bytes = proof.publicInputs ∧
          DistributionOutput.fromBytes bytes = out := by
  unfold verifyBatch
  constructor
  · intro h
    -- the run got past the three checks and the conversion
    split at h
    · cases h
    split at h
    · cases h
    split at h
    · cases h
    rename_i hmagic hinputs
    split at h
    · cases h
    rename_i bytes hbytes
    refine ⟨?_, bytes, (Bytes.ofList?_eq_some.1 hbytes), by simpa using h⟩
    calc proof.proofBytes
        = proof.proofBytes.take mockProofMagic.length ++
            proof.proofBytes.drop mockProofMagic.length := (List.take_append_drop _ _).symm
      _ = mockProofMagic ++ proof.publicInputs := by
          rw [not_not.1 hmagic, not_not.1 hinputs]
  · rintro ⟨hproof, bytes, hbytes, rfl⟩
    have hlen : proof.publicInputs.length = 76 := hbytes ▸ bytes.length_eq
    have hsome : Bytes.ofList? 76 proof.publicInputs = some bytes :=
      Bytes.ofList?_eq_some.2 hbytes
    simp [hproof, hlen, hsome]

/-- The SP1 client accepts any 76 bytes of public inputs, whatever the proof is. -/
theorem Sp1.verifyBatch_eq_ok {proof : BatchProof} {out : DistributionOutput} :
    Sp1.verifyBatch proof = .ok out ↔
      ∃ bytes : Bytes 76, bytes.bytes = proof.publicInputs ∧
        DistributionOutput.fromBytes bytes = out := by
  unfold Sp1.verifyBatch
  constructor
  · intro h
    split at h
    · cases h
    split at h
    · cases h
    rename_i bytes hbytes
    exact ⟨bytes, Bytes.ofList?_eq_some.1 hbytes, by simpa using h⟩
  · rintro ⟨bytes, hbytes, rfl⟩
    have hlen : proof.publicInputs.length = 76 := hbytes ▸ bytes.length_eq
    have hsome : Bytes.ofList? 76 proof.publicInputs = some bytes :=
      Bytes.ofList?_eq_some.2 hbytes
    simp [hlen, hsome]

/-! ## Binding -/

/-- The mock client accepts a proof under no public inputs but its own. -/
theorem publicInputs_of_verifyBatch {proof : BatchProof} {out out' : DistributionOutput}
    {inputs : List UInt8} (h : verifyBatch proof = .ok out)
    (h' : verifyBatch { proof with publicInputs := inputs } = .ok out') :
    inputs = proof.publicInputs := by
  have hown := (verifyBatch_eq_ok.1 h).1
  have hother : proof.proofBytes = mockProofMagic ++ inputs := (verifyBatch_eq_ok.1 h').1
  exact List.append_cancel_left (hother.symm.trans hown)

/-- The proof of a batch is accepted, and the output it committed is read back. -/
theorem verifyBatch_proveBatch (sha256 : List UInt8 → Bytes 32) {R : Type} [ContributionReceipt R]
    {receipts : List R} {poolId : Bytes 32} {proof : BatchProof}
    (h : proveBatch sha256 receipts poolId = .ok (.ok proof)) :
    ∃ entries out, aggregateReceipts receipts = .ok (.ok entries) ∧
      executeGuestLogic sha256 { entries := entries, poolId := poolId } = .ok out ∧
      verifyBatch proof = .ok out := by
  rcases Outcome.bind_eq_ok.1 h with ⟨aggregated, haggregate, hrest⟩
  cases aggregated with
  | error err => simp at hrest
  | ok entries =>
      rcases Outcome.bind_eq_ok.1 hrest with ⟨out, hguest, hproof⟩
      simp only [Outcome.pure_eq, Outcome.ok.injEq, Except.ok.injEq] at hproof
      refine ⟨entries, out, haggregate, hguest, ?_⟩
      rw [← hproof]
      exact verifyBatch_mock out

/-- An accepted proof is refused under other public inputs by the mock client, and by the SP1 client
only where their length is wrong.  What the mock client proves, it accepts. -/
theorem verify_binds_iff (build : ProverBuild) (proof : BatchProof) :
    (∀ (out : DistributionOutput) (inputs : List UInt8),
      build.verifyBatch proof = .ok out → inputs ≠ proof.publicInputs →
        ((∃ err, build.verifyBatch { proof with publicInputs := inputs } = .error err) ↔
          build = .mock ∨ inputs.length ≠ 76)) ∧
    (∀ (sha256 : List UInt8 → Bytes 32) {R : Type} [ContributionReceipt R] (receipts : List R)
      (poolId : Bytes 32), proveBatch sha256 receipts poolId = .ok (.ok proof) →
        ∃ entries out, aggregateReceipts receipts = .ok (.ok entries) ∧
          executeGuestLogic sha256 { entries := entries, poolId := poolId } = .ok out ∧
          ProverBuild.mock.verifyBatch proof = .ok out) := by
  refine ⟨?_, fun sha256 R _ receipts poolId => verifyBatch_proveBatch sha256⟩
  intro out inputs haccepted hne
  cases build with
  | mock =>
      -- two accepted public inputs would both follow the magic
      refine iff_of_true ?_ (Or.inl rfl)
      cases h : ProverBuild.mock.verifyBatch { proof with publicInputs := inputs } with
      | error err => exact ⟨err, rfl⟩
      | ok out' => exact absurd (publicInputs_of_verifyBatch haccepted h) hne
  | sp1 =>
      constructor
      · rintro ⟨err, herr⟩
        refine Or.inr fun hlen => ?_
        have hok : ProverBuild.sp1.verifyBatch { proof with publicInputs := inputs } =
            .ok (DistributionOutput.fromBytes { bytes := inputs, length_eq := hlen }) :=
          Sp1.verifyBatch_eq_ok.2 ⟨{ bytes := inputs, length_eq := hlen }, rfl, rfl⟩
        rw [hok] at herr
        cases herr
      · rintro (hbuild | hlen)
        · cases hbuild
        · exact ⟨.invalidProof, if_pos hlen⟩

def sampleOutput : DistributionOutput :=
  { root := Bytes.zero 32
    totalWeight := 3
    entryCount := 1
    poolId := Bytes.zero 32 }

def sampleProof : BatchProof :=
  { proofBytes := mockProofMagic ++ sampleOutput.toBytes.bytes
    publicInputs := sampleOutput.toBytes.bytes }

def sampleStorageReceipt : StorageReceipt :=
  { contentId := Bytes.zero 32
    storageNode := Bytes.ofNat 32 1
    challenger := Bytes.zero 32
    shardIndex := 0
    timestamp := 1
    nonce := Bytes.zero 32
    proofHash := Bytes.zero 32
    signature := [] }

/-- The mock client refuses the sample proof under 76 other bytes, and accepts its own proof of a
receipt. -/
theorem verify_binds_sample :
    (∃ err, ProverBuild.mock.verifyBatch
      { sampleProof with publicInputs := List.replicate 76 0 } = .error err) ∧
    ∃ proof out,
      proveBatch (fun _ => Bytes.zero 32) [sampleStorageReceipt] (Bytes.zero 32) =
        .ok (.ok proof) ∧
      ProverBuild.mock.verifyBatch proof = .ok out := by
  constructor
  · exact ((verify_binds_iff .mock sampleProof).1 sampleOutput (List.replicate 76 0)
      (verifyBatch_mock sampleOutput) (by decide +kernel)).2 (Or.inl rfl)
  · rcases (verify_binds_iff .mock _).2 (fun _ => Bytes.zero 32) [sampleStorageReceipt]
      (Bytes.zero 32) rfl with ⟨_, out, -, -, hverify⟩
    exact ⟨_, out, rfl, hverify⟩

/-- The SP1 client accepts the sample proof under 76 zero bytes too, as an output of no weight. -/
theorem not_verify_binds :
    ¬ ∀ (build : ProverBuild) (proof : BatchProof) (out : DistributionOutput)
      (inputs : List UInt8),
      build.verifyBatch proof = .ok out → inputs ≠ proof.publicInputs →
        ∃ err, build.verifyBatch { proof with publicInputs := inputs } = .error err := by
  intro h
  have haccepted : ProverBuild.sp1.verifyBatch sampleProof = .ok sampleOutput :=
    Sp1.verifyBatch_eq_ok.2 ⟨sampleOutput.toBytes, rfl,
      DistributionOutput.fromBytes_toBytes sampleOutput⟩
  rcases h .sp1 sampleProof sampleOutput (List.replicate 76 0) haccepted (by decide +kernel) with
    ⟨err, herr⟩
  have hok : ProverBuild.sp1.verifyBatch
      { sampleProof with publicInputs := List.replicate 76 0 } =
        .ok (DistributionOutput.fromBytes (Bytes.zero 76)) :=
    Sp1.verifyBatch_eq_ok.2 ⟨Bytes.zero 76, rfl, rfl⟩
  rw [hok] at herr
  cases herr

end Prover
end CraftecCore
