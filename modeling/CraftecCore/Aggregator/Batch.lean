import CraftecCore.Prover.Aggregation
import CraftecCore.Settlement.Bincode
import Mathlib.Data.Finset.Card

/-!
# Batch — batches, proofs and the posted instruction

A batch holds the per-operator weights of one pool, aggregated by the builder, next to a proof whose
public inputs were aggregated by the prover; the poster cuts the root out of those public inputs
again.  The module proves that the three agree.  Log lines are left out.
-/

namespace CraftecCore
namespace Aggregator

open Settlement Prover

/-! ## The source functions -/

inductive AggregatorError
  | invalidSignature
  | timestampOutOfRange (timestamp epochStart deadline : UInt64)
  | duplicateReceipt (hash : String)
  | unknownPool
  | prover (err : ProverError)
  | emptyBatch
  | serialization (msg : String)
  deriving DecidableEq, Repr

structure Packages where
  sha256 : List UInt8 → Bytes 32
  /-- Whether `VerifyingKey::from_bytes` accepts the bytes. -/
  verifyingKey : Bytes 32 → Bool
  /-- `verify_strict`: key, message and signature. -/
  verifyStrict : Bytes 32 → List UInt8 → Bytes 64 → Bool
  /-- `bincode::serialize` of a receipt. -/
  serializeReceipt : StorageReceipt → Except String (List UInt8)
  /-- `bincode::deserialize` of one receipt. -/
  deserializeReceipt : List UInt8 → Except String StorageReceipt
  /-- `bincode::deserialize` of a vector of receipts. -/
  deserializeReceipts : List UInt8 → Except String (List StorageReceipt)
  /-- `bincode::serialize` of an instruction payload. -/
  serializeDistribution : PostDistribution → List UInt8
  hexEncode : List UInt8 → String

structure PoolBatch where
  poolPubkey : Bytes 32
  /-- Per-operator weights, sorted by operator. -/
  weights : SortedMap (Bytes 32) UInt64
  receiptCount : ℕ
  totalWeight : UInt64
  proof : BatchProof
  deriving DecidableEq

def build (x : Packages) (poolPubkey : Bytes 32) (receipts : List StorageReceipt) :
    Outcome (Except AggregatorError PoolBatch) :=
  if receipts.isEmpty then
    pure (.error .emptyBatch)
  else do
    let weights ← receipts.foldlM addWeight SortedMap.empty
    let totalWeight ← sumU64 weights.values
    -- the prover aggregates the same receipts once more
    match ← proveBatch x.sha256 receipts poolPubkey with
    | .error err => pure (.error (.prover err))
    | .ok proof =>
        pure (.ok
          { poolPubkey := poolPubkey
            weights := weights
            receiptCount := receipts.length
            totalWeight := totalWeight
            proof := proof })

structure BuiltTransaction where
  instructionData : List UInt8
  /-- Human-readable description for logging. -/
  description : String
  poolPubkey : Bytes 32
  /-- Per-operator weights, needed for claim building. -/
  weights : SortedMap (Bytes 32) UInt64

/-- The root at the front of the public inputs, zeros if they are too short. -/
def distributionRoot (publicInputs : List UInt8) : Bytes 32 :=
  if h : 32 ≤ publicInputs.length then
    { bytes := publicInputs.take 32
      length_eq := by simp [h] }
  else
    Bytes.zero 32

def buildPostDistribution (x : Packages) (batch : PoolBatch) : BuiltTransaction :=
  { instructionData := postDistribution x.serializeDistribution
      { poolPubkey := batch.poolPubkey
        distributionRoot := distributionRoot batch.proof.publicInputs
        totalWeight := batch.totalWeight
        groth16Proof := batch.proof.proofBytes
        publicInputs := batch.proof.publicInputs }
    description :=
      "post_distribution(pool=" ++ x.hexEncode batch.poolPubkey.bytes ++
        ", weight=" ++ toString batch.totalWeight.toNat ++
        ", operators=" ++ toString batch.weights.entries.length ++ ")"
    poolPubkey := batch.poolPubkey
    weights := batch.weights }

/-! ## Storage receipts count one each -/

theorem totalEarned_storage (receipts : List StorageReceipt) :
    totalEarned receipts = receipts.length := by
  induction receipts with
  | nil => rfl
  | cons r rs ih =>
      rw [totalEarned_cons, ih, List.length_cons, Nat.add_comm]
      rfl

theorem earned_storage (receipts : List StorageReceipt) (op : Bytes 32) :
    earned receipts op = receipts.countP fun r => r.storageNode = op := by
  induction receipts with
  | nil => rfl
  | cons r rs ih =>
      have hone : earned [r] op = if r.storageNode = op then 1 else 0 := by
        by_cases h : r.storageNode = op
        · simp only [earned, ContributionReceipt.operator, h, decide_true, List.filter_cons_of_pos,
            List.filter_nil, if_true]
          rfl
        · simp [earned, ContributionReceipt.operator, h]
      rw [earned_cons, ih, hone, List.countP_cons, Nat.add_comm]
      simp

/-- Weights of fewer than `2 ^ 64` storage receipts always add up. -/
theorem exists_weights (receipts : List StorageReceipt) (h : receipts.length < 2 ^ 64) :
    ∃ weights, receipts.foldlM addWeight SortedMap.empty = .ok weights ∧
      Adds SortedMap.empty receipts weights := by
  have hfit : totalIn SortedMap.empty + totalEarned receipts < 2 ^ 64 := by
    simpa [totalIn, SortedMap.values, totalEarned_storage] using h
  rcases exists_foldlM_addWeight_eq_ok receipts SortedMap.empty hfit with ⟨weights, hrun⟩
  exact ⟨weights, hrun, foldlM_addWeight_adds hrun⟩

theorem Adds.totalIn_eq {receipts : List StorageReceipt} {weights : SortedMap (Bytes 32) UInt64}
    (h : Adds SortedMap.empty receipts weights) : totalIn weights = receipts.length := by
  simpa [totalIn, SortedMap.values, totalEarned_storage] using h.total

theorem Adds.weightIn_eq {receipts : List StorageReceipt} {weights : SortedMap (Bytes 32) UInt64}
    (h : Adds SortedMap.empty receipts weights) (op : Bytes 32) :
    weightIn weights op = receipts.countP fun r => r.storageNode = op := by
  rw [h.weight, earned_storage]
  simp [weightIn]

def operators (receipts : List StorageReceipt) : Finset (Bytes 32) :=
  (receipts.map StorageReceipt.storageNode).toFinset

/-- There is one entry for each operator. -/
theorem Adds.length_entries {receipts : List StorageReceipt}
    {weights : SortedMap (Bytes 32) UInt64} (h : Adds SortedMap.empty receipts weights) :
    weights.entries.length = (operators receipts).card := by
  -- keys of a map are different, so entries count operators
  have hkeys : weights.keys.toFinset = operators receipts := by
    ext op
    rw [List.mem_toFinset, h.keys]
    simp [operators, SortedMap.keys, ContributionReceipt.operator]
  calc weights.entries.length
      = weights.keys.length := by simp [SortedMap.keys]
    _ = weights.keys.toFinset.card := (List.toFinset_card_of_nodup weights.nodup_keys).symm
    _ = (operators receipts).card := by rw [hkeys]

theorem Adds.entries_ne_nil {receipts : List StorageReceipt}
    {weights : SortedMap (Bytes 32) UInt64} (h : Adds SortedMap.empty receipts weights)
    (hne : receipts ≠ []) : weights.entries ≠ [] := by
  rcases List.exists_mem_of_ne_nil receipts hne with ⟨r, hr⟩
  have hmem : r.storageNode ∈ weights.keys := (h.keys r.storageNode).2 (Or.inr ⟨r, hr, rfl⟩)
  intro hnil
  simp [SortedMap.keys, hnil] at hmem

/-! ## What a build returns -/

/-- The output that a weight map commits to. -/
def Commits (x : Packages) (poolPubkey : Bytes 32) (weights : SortedMap (Bytes 32) UInt64)
    (out : DistributionOutput) : Prop :=
  computeMerkleRoot x.sha256 (weights.entries.map (leafHash x.sha256)) = .ok out.root ∧
    totalIn weights = out.totalWeight.toNat ∧
    out.entryCount = UInt32.ofNat weights.entries.length ∧ out.poolId = poolPubkey

def mockProof (out : DistributionOutput) : BatchProof :=
  { proofBytes := mockProofMagic ++ out.toBytes.bytes
    publicInputs := out.toBytes.bytes }

/-- Proving provable receipts whose weights fit commits to the weights that the builder computes. -/
theorem proveBatch_eq_ok (x : Packages) {receipts : List StorageReceipt} (poolPubkey : Bytes 32)
    {weights : SortedMap (Bytes 32) UInt64} {totalWeight : UInt64} (hne : receipts ≠ [])
    (hall : ∀ r ∈ receipts, Provable r)
    (hrun : receipts.foldlM addWeight SortedMap.empty = .ok weights)
    (htotal : totalIn weights = totalWeight.toNat) :
    ∃ out, proveBatch x.sha256 receipts poolPubkey = .ok (.ok (mockProof out)) ∧
      Commits x poolPubkey weights out ∧ out.totalWeight = totalWeight := by
  have hentries : aggregateReceipts receipts = .ok (.ok weights.entries) :=
    aggregateReceipts_eq_ok.2 ⟨hne, hall, weights, hrun, rfl⟩
  have hsome := Adds.entries_ne_nil (foldlM_addWeight_adds hrun) hne
  rcases executeGuestLogic_weights x.sha256 poolPubkey hsome htotal with ⟨root, hroot, hguest⟩
  -- the output of the guest logic, read back from the weights
  let out : DistributionOutput :=
    { root := root
      totalWeight := totalWeight
      entryCount := UInt32.ofNat weights.entries.length
      poolId := poolPubkey }
  have hproof : proveBatch x.sha256 receipts poolPubkey = .ok (.ok (mockProof out)) := by
    simp [proveBatch, proveBatchIn, aggregateReceiptsIn_on, executeGuestLogicIn_on, hentries,
      hguest, mockProof, out]
  exact ⟨out, hproof, ⟨hroot, htotal, rfl, rfl⟩, rfl⟩

/-- Receipts that a proof was made of were all provable. -/
theorem provable_of_proveBatch {x : Packages} {receipts : List StorageReceipt}
    {poolPubkey : Bytes 32} {proof : BatchProof}
    (h : proveBatch x.sha256 receipts poolPubkey = .ok (.ok proof)) :
    ∀ r ∈ receipts, Provable r := by
  rw [proveBatch, proveBatchIn, Outcome.bind_eq_ok] at h
  rcases h with ⟨result, hagg, hproof⟩
  cases result with
  | error err => simp at hproof
  | ok entries => exact (aggregateReceipts_eq_ok.1 hagg).2.1

/-- A build of provable receipts returns a batch of their weights. -/
theorem build_eq_ok (x : Packages) {receipts : List StorageReceipt} (poolPubkey : Bytes 32)
    {weights : SortedMap (Bytes 32) UInt64} {totalWeight : UInt64} (hne : receipts ≠ [])
    (hall : ∀ r ∈ receipts, Provable r)
    (hrun : receipts.foldlM addWeight SortedMap.empty = .ok weights)
    (htotal : totalIn weights = totalWeight.toNat) :
    ∃ out, Commits x poolPubkey weights out ∧ out.totalWeight = totalWeight ∧
      build x poolPubkey receipts = .ok (.ok
        { poolPubkey := poolPubkey
          weights := weights
          receiptCount := receipts.length
          totalWeight := totalWeight
          proof := mockProof out }) := by
  rcases proveBatch_eq_ok x poolPubkey hne hall hrun htotal with ⟨out, hproof, hout, htot⟩
  have hsum : sumU64 weights.values = .ok totalWeight := sumU64_eq_ok.2 htotal
  refine ⟨out, hout, htot, ?_⟩
  simp [build, hne, hrun, hsum, hproof]

/-- Inversion: what a returned batch holds. -/
theorem build_cases {x : Packages} {receipts : List StorageReceipt} {poolPubkey : Bytes 32}
    {batch : PoolBatch} (h : build x poolPubkey receipts = .ok (.ok batch)) :
    receipts.foldlM addWeight SortedMap.empty = .ok batch.weights ∧
      batch.poolPubkey = poolPubkey ∧ totalIn batch.weights = batch.totalWeight.toNat ∧
      ∃ out, Commits x poolPubkey batch.weights out ∧ out.totalWeight = batch.totalWeight ∧
        batch.proof = mockProof out := by
  by_cases hne : receipts = []
  · simp [build, hne] at h
  have hstart := h
  simp only [build, List.isEmpty_iff, hne, if_false, Outcome.bind_eq_ok] at h
  rcases h with ⟨weights, hrun, totalWeight, hsum, result, hproof, hresult⟩
  cases result with
  | error err => simp at hresult
  | ok proof =>
      have htotal : totalIn weights = totalWeight.toNat := sumU64_eq_ok.1 hsum
      have hall := provable_of_proveBatch hproof
      -- a second run of the build, now with the output it commits to
      rcases build_eq_ok x poolPubkey hne hall hrun htotal with ⟨out, hout, htot, hbuild⟩
      rw [hbuild] at hstart
      simp only [Outcome.ok.injEq, Except.ok.injEq] at hstart
      subst hstart
      exact ⟨hrun, rfl, htotal, out, hout, htot, rfl⟩

/-- The poster cuts the root out of the public inputs. -/
theorem distributionRoot_mockProof (out : DistributionOutput) :
    distributionRoot (mockProof out).publicInputs = out.root := by
  have hlen : (mockProof out).publicInputs.length = 76 := out.toBytes.length_eq
  have hle : 32 ≤ (mockProof out).publicInputs.length := by rw [hlen]; decide
  apply Bytes.ext
  rw [distributionRoot, dif_pos hle]
  simp [mockProof, DistributionOutput.toBytes]

/-! ## Five receipts with their real digests and signatures -/

def lowerHex (bytes : List UInt8) : String :=
  let digit (n : ℕ) : Char := Char.ofNat (if n < 10 then 48 + n else 87 + n)
  String.ofList (bytes.flatMap fun b => [digit (b.toNat / 16), digit (b.toNat % 16)])

def nodeOne : Bytes 32 :=
  Bytes.ofNat 32 0x0101010101010101010101010101010101010101010101010101010101010101

def nodeTwo : Bytes 32 :=
  Bytes.ofNat 32 0x0202020202020202020202020202020202020202020202020202020202020202

def someContent : Bytes 32 :=
  Bytes.ofNat 32 0x0303030303030303030303030303030303030303030303030303030303030303

def somePool : Bytes 32 :=
  Bytes.ofNat 32 0x0909090909090909090909090909090909090909090909090909090909090909

/-- A receipt for `someContent`, signed by one fixed challenger. -/
def signedReceipt (storageNode : Bytes 32) (timestamp : UInt64) (nonce : ℕ) (sigR sigS : ℕ) :
    StorageReceipt :=
  { contentId := someContent
    storageNode := storageNode
    challenger :=
      Bytes.ofNat 32 0x197f6b23e16c8532c6abc838facd5ea789be0c76b2920334039bfa8b3d368d61
    shardIndex := 0
    timestamp := timestamp
    nonce := Bytes.ofNat 32 nonce
    proofHash :=
      Bytes.ofNat 32 0x0606060606060606060606060606060606060606060606060606060606060606
    signature := (Bytes.ofNat 32 sigR).bytes ++ (Bytes.ofNat 32 sigS).bytes }

def firstReceipt : StorageReceipt :=
  signedReceipt nodeOne 5000 0x0505050505050505050505050505050505050505050505050505050505050505
    0x62f72c9e86bb281dcb8c20ceca2c0eba4c2963712e8700ab58a3809c86287fee
    0x91860403db7c557c3ab11dcf24c6d1052e7627520f255bf551e6ab51f2f0ca0c

/-- The dedup key of `firstReceipt` with another nonce. -/
def conflictingReceipt : StorageReceipt :=
  signedReceipt nodeOne 5000 0x0707070707070707070707070707070707070707070707070707070707070707
    0x9cabb5f93bce6a0373a7a6f47b5e9ab91e0f8e77c7c0a3a4bc01205e621cfb18
    0x783dc357ba2b38713c73c3c9761aea472147b0a8aa011fd93796399483c6b607

def secondReceipt : StorageReceipt :=
  signedReceipt nodeOne 5001 0x0505050505050505050505050505050505050505050505050505050505050505
    0x155cef3f0f27d76058ffa04a885e5a564b4923c04eefcdabcda6f81794d15851
    0x578d9c4cfa6b9d85a8605c693edbcf9ad594ade499960efbb7f116eab843e902

def thirdReceipt : StorageReceipt :=
  signedReceipt nodeTwo 5002 0x0505050505050505050505050505050505050505050505050505050505050505
    0x0574c5f172770433aae03bcdf39d20f3b78291b67a20230f10e3f3363661cfd5
    0x4ccbeb054385372292db82753c0361afb55cb0da130b7f30b1a6ab9bed3eb602

/-- A receipt of the grace period, for epochs of an hour. -/
def lateReceipt : StorageReceipt :=
  signedReceipt nodeOne 7205 0x0505050505050505050505050505050505050505050505050505050505050505
    0xd642b6380454b6626819921445a813f34d7d8233d8f66c83d0e9d266d06b544a
    0xefdafa7adc0fe74761b0cf263fab250f71bd23fb6d48173aacd9ad3ddca22c03

def signedReceipts : List StorageReceipt :=
  [firstReceipt, conflictingReceipt, secondReceipt, thirdReceipt, lateReceipt]

/-- SHA-256 on the dedup messages of the receipts and on the messages of their distributions. -/
def receiptDigest : List UInt8 → Bytes 32 :=
  let oneOne := Bytes.ofNat 32 0x73559e81919cf8fdd44655ad8344ee6d93e02cebeb888f9811ade18e2e0fbd6a
  let oneTwo := Bytes.ofNat 32 0x0a80a3c95fa16666aed2f49aad505adbb2da6d689434bbff6b615421db5454c9
  let twoOne := Bytes.ofNat 32 0xb106752eb6b6f60bfe4f7eb7909552abebf8ffed12239d6cf8c086dfd24ca72b
  Bytes.ofTable
    [(firstReceipt.dedupPreimage,
        Bytes.ofNat 32 0x084372fe5856cb1189707bba71926407c33f3c7574414438ec2a049b7d7758d6),
      (secondReceipt.dedupPreimage,
        Bytes.ofNat 32 0x2e8875d3808b11f9f99bd80ab26aad7052f01b4cda034e4a1dedaa64c9aab9c4),
      (thirdReceipt.dedupPreimage,
        Bytes.ofNat 32 0x813dfd3c21585aebdfd40c3b9763ad78e01e6fe1507db567b3c829cf803ac8fa),
      (lateReceipt.dedupPreimage,
        Bytes.ofNat 32 0xa1ea47f1fd7f3d36e7ac1bfee707e528902b6a302aab7b2a2c9a7d64936b9228),
      (leafMessage (nodeOne, 1), oneOne),
      (leafMessage (nodeOne, 2), oneTwo),
      (leafMessage (nodeTwo, 1), twoOne),
      (oneOne.bytes ++ twoOne.bytes,
        Bytes.ofNat 32 0x2d3b933fd9bd5c2370eaea738a329ed105415a78e6dc6056ee3b096d09330d37),
      (oneTwo.bytes ++ twoOne.bytes,
        Bytes.ofNat 32 0x568ee3c257f4ff470b0daca550877230fcfa587aa356698db32949388b6db4db)]

/-- The packages on the five receipts: the real functions on every input met there, with SHA-256 and
the signature check given by tables. -/
def receiptPackages : Packages :=
  { sha256 := receiptDigest
    verifyingKey := fun key => signedReceipts.any fun r => r.challenger = key
    verifyStrict := fun key message signature => signedReceipts.any fun r =>
      r.challenger = key ∧ r.signableBytes = message ∧ r.signature = signature.bytes
    serializeReceipt := fun r => .ok r.bincode
    deserializeReceipt := StorageReceipt.ofBincode
    deserializeReceipts := receiptsOfBincode
    serializeDistribution := PostDistribution.bincode
    hexEncode := lowerHex }

/-! ## Batch, proof and posted instruction -/

/-- What the poster serializes for a batch. -/
def posted (batch : PoolBatch) : PostDistribution :=
  { poolPubkey := batch.poolPubkey
    distributionRoot := distributionRoot batch.proof.publicInputs
    totalWeight := batch.totalWeight
    groth16Proof := batch.proof.proofBytes
    publicInputs := batch.proof.publicInputs }

theorem instructionData_buildPostDistribution (x : Packages) (batch : PoolBatch) :
    (buildPostDistribution x batch).instructionData = 8 :: x.serializeDistribution (posted batch) :=
  rfl

/-- The batch, the output its proof verifies to and the posted payload agree, for every list of
receipts that a batch is built of. -/
theorem build_agrees (x : Packages) {receipts : List StorageReceipt} {poolPubkey : Bytes 32}
    {batch : PoolBatch} (h : build x poolPubkey receipts = .ok (.ok batch)) :
    ∃ out, verifyBatch batch.proof = .ok out ∧
      out.poolId = poolPubkey ∧ out.totalWeight = batch.totalWeight ∧
      batch.totalWeight.toNat = (batch.weights.values.map UInt64.toNat).sum ∧
      batch.totalWeight.toNat = receipts.length ∧
      ((operators receipts).card < 2 ^ 32 → out.entryCount.toNat = (operators receipts).card) ∧
      computeMerkleRoot x.sha256 (batch.weights.entries.map (leafHash x.sha256)) = .ok out.root ∧
      computeDistributionEntries receipts = .ok batch.weights.entries ∧
      ∃ payload : PostDistribution,
        payload.poolPubkey = poolPubkey ∧ payload.distributionRoot = out.root ∧
        payload.totalWeight = out.totalWeight ∧
        payload.groth16Proof = batch.proof.proofBytes ∧
        payload.publicInputs = batch.proof.publicInputs ∧
        (buildPostDistribution x batch).instructionData = 8 :: x.serializeDistribution payload ∧
        ∀ deserialize : List UInt8 → Option PostDistribution,
          (∀ p, deserialize (x.serializeDistribution p) = some p) →
          deserialize ((buildPostDistribution x batch).instructionData.drop 1) = some payload := by
  rcases build_cases h with ⟨hrun, hpool, htotal, out, ⟨hroot, -, hcount, hid⟩, htot, hproof⟩
  have hadds := foldlM_addWeight_adds hrun
  refine ⟨out, ?_, hid, htot, htotal.symm, ?_, ?_, hroot, ?_, ?_⟩
  · rw [hproof]
    exact verifyBatch_mock out
  · rw [← htotal, Adds.totalIn_eq hadds]
  · intro hfew
    rw [hcount, Adds.length_entries hadds]
    exact UInt32.toNat_ofNat_of_lt' hfew
  · exact computeDistributionEntries_eq_ok.2 ⟨batch.weights, hrun, rfl⟩
  · have hdata := instructionData_buildPostDistribution x batch
    refine ⟨posted batch, hpool, ?_, htot.symm, rfl, rfl, hdata, ?_⟩
    · -- the root that the poster cut out of the public inputs is the committed one
      rw [posted, hproof, distributionRoot_mockProof]
    · intro deserialize hread
      rw [hdata, List.drop_one, List.tail_cons]
      exact hread (posted batch)

def threeReceipts : List StorageReceipt :=
  [firstReceipt, thirdReceipt, secondReceipt]

def threeReceiptsOutput : DistributionOutput :=
  { root := Bytes.ofNat 32 0x568ee3c257f4ff470b0daca550877230fcfa587aa356698db32949388b6db4db
    totalWeight := 3
    entryCount := 2
    poolId := somePool }

def threeReceiptsBatch : PoolBatch :=
  { poolPubkey := somePool
    weights :=
      { entries := [(nodeOne, 2), (nodeTwo, 1)]
        sorted := by decide +kernel }
    receiptCount := 3
    totalWeight := 3
    proof := mockProof threeReceiptsOutput }

theorem build_agrees_three_receipts :
    ∃ out, verifyBatch threeReceiptsBatch.proof = .ok out ∧
      out.poolId = somePool ∧ out.totalWeight = threeReceiptsBatch.totalWeight ∧
      threeReceiptsBatch.totalWeight.toNat =
        (threeReceiptsBatch.weights.values.map UInt64.toNat).sum ∧
      threeReceiptsBatch.totalWeight.toNat = threeReceipts.length ∧
      ((operators threeReceipts).card < 2 ^ 32 →
        out.entryCount.toNat = (operators threeReceipts).card) ∧
      computeMerkleRoot receiptDigest
        (threeReceiptsBatch.weights.entries.map (leafHash receiptDigest)) = .ok out.root ∧
      computeDistributionEntries threeReceipts = .ok threeReceiptsBatch.weights.entries ∧
      ∃ payload : PostDistribution,
        payload.poolPubkey = somePool ∧ payload.distributionRoot = out.root ∧
        payload.totalWeight = out.totalWeight ∧
        payload.groth16Proof = threeReceiptsBatch.proof.proofBytes ∧
        payload.publicInputs = threeReceiptsBatch.proof.publicInputs ∧
        (buildPostDistribution receiptPackages threeReceiptsBatch).instructionData =
          8 :: PostDistribution.bincode payload ∧
        ∀ deserialize : List UInt8 → Option PostDistribution,
          (∀ p, deserialize (PostDistribution.bincode p) = some p) →
          deserialize
            ((buildPostDistribution receiptPackages threeReceiptsBatch).instructionData.drop 1) =
              some payload :=
  build_agrees receiptPackages (by decide +kernel)

end Aggregator
end CraftecCore
