import CraftecCore.Aggregator.Loop

/-!
# Claims — which leaf a claim names

A distribution posts the root of a Merkle tree whose leaves are the operators in the order of their
keys; a claim names its leaf by position.  `build_claims` counts the operators as it goes, and the
loop over the channel sends the same position for each.  What the loop asks of its submitter is a
list of calls, and an answer may depend on every call before it.
-/

namespace CraftecCore
namespace Aggregator

open Settlement Prover

/-! ## The source functions -/

/-- The transaction by which both submitters of the source submit a claim. -/
def claimTransaction (x : Packages) (serialize : ClaimPayout → List UInt8) (claim : ClaimPayout) :
    BuiltTransaction :=
  { instructionData := claimPayout serialize claim
    description :=
      "claim(pool=" ++ x.hexEncode claim.poolPubkey.bytes ++
        ", operator=" ++ x.hexEncode claim.operatorPubkey.bytes ++
        ", weight=" ++ toString claim.operatorWeight.toNat ++ ")"
    poolPubkey := claim.poolPubkey
    weights := SortedMap.empty }

/-- Build claim transactions for all operators in a batch; the Merkle proof is a placeholder. -/
def buildClaims (x : Packages) (serialize : ClaimPayout → List UInt8) (batch : PoolBatch) :
    List BuiltTransaction :=
  batch.weights.entries.zipIdx.map fun ((operator, weight), i) =>
    { instructionData := claimPayout serialize
        { poolPubkey := batch.poolPubkey
          operatorPubkey := operator
          operatorWeight := weight
          merkleProof := []
          leafIndex := UInt32.ofNat i }
      description :=
        "claim(pool=" ++ x.hexEncode batch.poolPubkey.bytes ++
          ", operator=" ++ x.hexEncode operator.bytes ++
          ", weight=" ++ toString weight.toNat ++ ")"
      poolPubkey := batch.poolPubkey
      weights := SortedMap.empty }

inductive SubmitterCall
  | submit (tx : BuiltTransaction)
  /-- The arguments of `submit_claim`. -/
  | submitClaim (claim : ClaimPayout)

/-- A submitter answers by the calls so far and the new one. -/
abbrev Submitter := List SubmitterCall → SubmitterCall → Except AggregatorError SubmitResult

/-- The loop over the operators of a posted distribution.  Its answers are only logged. -/
def submitClaimLoop (poolPubkey : Bytes 32) :
    List (Bytes 32 × UInt64) → List SubmitterCall → List SubmitterCall
  | [], calls => calls
  | (operator, weight) :: weights, calls =>
      let claim : ClaimPayout :=
        { poolPubkey := poolPubkey
          operatorPubkey := operator
          operatorWeight := weight
          merkleProof := []
          leafIndex := 0 }
      submitClaimLoop poolPubkey weights (calls ++ [.submitClaim claim])

def submitDistribution (submitClaims : Bool) (submitter : Submitter) (tx : BuiltTransaction)
    (calls : List SubmitterCall) : List SubmitterCall :=
  match submitter calls (.submit tx) with
  | .ok _ =>
      if submitClaims then
        submitClaimLoop tx.poolPubkey tx.weights.entries (calls ++ [.submit tx])
      else
        calls ++ [.submit tx]
  | .error _ => calls ++ [.submit tx]

/-- The loop over the results of an epoch's end, in `run_with_channel`. -/
def submitResults (submitClaims : Bool) (submitter : Submitter) :
    List (Except AggregatorError BuiltTransaction) → List SubmitterCall → List SubmitterCall
  | [], calls => calls
  | .ok tx :: results, calls =>
      submitResults submitClaims submitter results
        (submitDistribution submitClaims submitter tx calls)
  | .error _ :: results, calls => submitResults submitClaims submitter results calls

/-! ## The claims of a distribution -/

def loopClaim (poolPubkey : Bytes 32) : Bytes 32 × UInt64 → ClaimPayout
  | (operator, weight) =>
      { poolPubkey := poolPubkey
        operatorPubkey := operator
        operatorWeight := weight
        merkleProof := []
        leafIndex := 0 }

def submittedClaims (tx : BuiltTransaction) : List ClaimPayout :=
  tx.weights.entries.map (loopClaim tx.poolPubkey)

theorem submitClaimLoop_eq (poolPubkey : Bytes 32) (weights : List (Bytes 32 × UInt64)) :
    ∀ calls : List SubmitterCall,
      submitClaimLoop poolPubkey weights calls =
        calls ++ (weights.map (loopClaim poolPubkey)).map .submitClaim := by
  induction weights with
  | nil =>
      intro calls
      simp [submitClaimLoop]
  | cons entry weights ih =>
      intro calls
      rcases entry with ⟨operator, weight⟩
      rw [submitClaimLoop, ih, List.append_assoc]
      rfl

/-- A distribution that is posted is followed by its claims. -/
theorem submitDistribution_posted {submitter : Submitter} {tx : BuiltTransaction}
    {calls : List SubmitterCall} {answer : SubmitResult}
    (h : submitter calls (.submit tx) = .ok answer) :
    submitDistribution true submitter tx calls =
      calls ++ .submit tx :: (submittedClaims tx).map .submitClaim := by
  simp [submitDistribution, h, submitClaimLoop_eq, submittedClaims]

theorem submitResults_append (submitClaims : Bool) (submitter : Submitter)
    (results results' : List (Except AggregatorError BuiltTransaction)) :
    ∀ calls : List SubmitterCall,
      submitResults submitClaims submitter (results ++ results') calls =
        submitResults submitClaims submitter results'
          (submitResults submitClaims submitter results calls) := by
  induction results with
  | nil =>
      intro calls
      rfl
  | cons result results ih =>
      intro calls
      cases result with
      | ok tx => simp [submitResults, ih]
      | error err => simp [submitResults, ih]

/-- Wherever a distribution stands among the results, its claims follow it. -/
theorem submitResults_posted {submitter : Submitter} {tx : BuiltTransaction}
    (hposted : ∀ calls, ∃ answer, submitter calls (.submit tx) = .ok answer)
    (before after : List (Except AggregatorError BuiltTransaction)) (calls : List SubmitterCall) :
    submitResults true submitter (before ++ .ok tx :: after) calls =
      submitResults true submitter after (submitResults true submitter before calls ++
        .submit tx :: (submittedClaims tx).map .submitClaim) := by
  rcases hposted (submitResults true submitter before calls) with ⟨answer, hanswer⟩
  rw [submitResults_append, submitResults, submitDistribution_posted hanswer]

/-! ## The leaves they name -/

def leafClaims (batch : PoolBatch) : List ClaimPayout :=
  batch.weights.entries.zipIdx.map fun ((operator, weight), i) =>
    { poolPubkey := batch.poolPubkey
      operatorPubkey := operator
      operatorWeight := weight
      merkleProof := []
      leafIndex := UInt32.ofNat i }

theorem buildClaims_eq (x : Packages) (serialize : ClaimPayout → List UInt8) (batch : PoolBatch) :
    buildClaims x serialize batch = (leafClaims batch).map (claimTransaction x serialize) := by
  simp [buildClaims, leafClaims, claimTransaction, Function.comp_def]

/-- The leaf of the claim is the one at the position it names. -/
def NamesLeaf (batch : PoolBatch) (claim : ClaimPayout) : Prop :=
  batch.weights.entries[claim.leafIndex.toNat]? =
    some (claim.operatorPubkey, claim.operatorWeight)

/-- The claims of all operators, as `build_claims` makes them, each with its own leaf. -/
structure NameLeaves (x : Packages) (serialize : ClaimPayout → List UInt8) (batch : PoolBatch)
    (claims : List ClaimPayout) : Prop where
  built : claims.map (claimTransaction x serialize) = buildClaims x serialize batch
  operators : (claims.map fun claim => (claim.operatorPubkey, claim.operatorWeight)) =
    batch.weights.entries
  leaf : ∀ claim ∈ claims, NamesLeaf batch claim

/-- `build_claims` names every leaf that a `u32` can number. -/
theorem namesLeaf_leafClaims {batch : PoolBatch} (hfew : batch.weights.entries.length ≤ 2 ^ 32) :
    ∀ claim ∈ leafClaims batch, NamesLeaf batch claim := by
  intro claim hclaim
  rcases List.mem_map.1 hclaim with ⟨⟨⟨operator, weight⟩, i⟩, hmem, rfl⟩
  have hget : batch.weights.entries[i]? = some (operator, weight) :=
    List.mem_zipIdx_iff_getElem?.1 hmem
  have hlt : i < batch.weights.entries.length := (List.getElem?_eq_some_iff.1 hget).1
  have hindex : (UInt32.ofNat i).toNat = i :=
    UInt32.toNat_ofNat_of_lt' (Nat.lt_of_lt_of_le hlt hfew)
  simp only [NamesLeaf, hindex, hget]

/-- Of the claims that the loop submits only the first names its leaf. -/
theorem namesLeaf_submittedClaims_iff (x : Packages) {batch : PoolBatch} {i : ℕ}
    {claim : ClaimPayout}
    (h : (submittedClaims (buildPostDistribution x batch))[i]? = some claim) :
    NamesLeaf batch claim ↔ i = 0 := by
  rw [submittedClaims, List.getElem?_map, Option.map_eq_some_iff] at h
  rcases h with ⟨⟨operator, weight⟩, hget, rfl⟩
  have hentry : batch.weights.entries[i]? = some (operator, weight) := hget
  -- operators differ, so no two positions hold the same leaf
  have hnodup : batch.weights.entries.Nodup := by
    refine List.Nodup.of_map Prod.fst ?_
    exact batch.weights.nodup_keys
  have hlt : i < batch.weights.entries.length := (List.getElem?_eq_some_iff.1 hentry).1
  constructor
  · intro hleaf
    have hzero : batch.weights.entries[0]? = some (operator, weight) := hleaf
    exact (List.getElem?_inj hlt hnodup).1 (hentry.trans hzero.symm)
  · rintro rfl
    exact hentry

/-- The two claim paths agree on a single operator. -/
theorem submittedClaims_eq_leafClaims (x : Packages) {batch : PoolBatch}
    (hone : batch.weights.entries.length ≤ 1) :
    submittedClaims (buildPostDistribution x batch) = leafClaims batch := by
  have hweights : (buildPostDistribution x batch).weights = batch.weights := rfl
  have hpool : (buildPostDistribution x batch).poolPubkey = batch.poolPubkey := rfl
  rw [submittedClaims, leafClaims, hweights, hpool]
  match hentries : batch.weights.entries with
  | [] => rfl
  | [entry] => rfl
  | first :: second :: rest => simp [hentries] at hone

/-- The loop names the leaves of a batch if and only if there is one operator at most. -/
theorem nameLeaves_iff (x : Packages) (serialize : ClaimPayout → List UInt8) (batch : PoolBatch) :
    NameLeaves x serialize batch (submittedClaims (buildPostDistribution x batch)) ↔
      batch.weights.entries.length ≤ 1 := by
  constructor
  · intro h
    by_contra hmany
    -- the second claim would have to name the first leaf
    have hlen : 1 < (submittedClaims (buildPostDistribution x batch)).length := by
      rw [submittedClaims, List.length_map]
      exact Nat.lt_of_not_le hmany
    have hget := List.getElem?_eq_getElem hlen
    have hone := (namesLeaf_submittedClaims_iff x hget).1 (h.leaf _ (List.getElem_mem hlen))
    exact absurd hone (by decide)
  · intro hone
    refine { built := ?_, operators := ?_, leaf := ?_ }
    · rw [submittedClaims_eq_leafClaims x hone, buildClaims_eq]
    · rw [submittedClaims, List.map_map]
      exact List.map_id _
    · rw [submittedClaims_eq_leafClaims x hone]
      exact namesLeaf_leafClaims (Nat.le_trans hone (by decide))

/-! ## The claims of a batch -/

/-- Every distribution that the pool loop returns is the one of a batch. -/
theorem built_of_processPools {x : Packages} {tx : BuiltTransaction} :
    ∀ {pools : List (Bytes 32)} {c c' : ReceiptCollector}
      {results : List (Except AggregatorError BuiltTransaction)},
      processPools x pools c = .ok (results, c') → .ok tx ∈ results →
        ∃ pool ∈ pools, ∃ receipts batch, build x pool receipts = .ok (.ok batch) ∧
          tx = buildPostDistribution x batch
  | [], c, c', results, h, htx => by
      simp only [processPools, Outcome.pure_eq, Outcome.ok.injEq, Prod.mk.injEq] at h
      rw [← h.1] at htx
      exact absurd htx List.not_mem_nil
  | pool :: pools, c, c', results, h, htx => by
      by_cases hempty : (c.takeReceipts pool).1.isEmpty = true
      · have hrun : processPools x pools (c.takeReceipts pool).2 = .ok (results, c') := by
          simpa [processPools, hempty] using h
        rcases built_of_processPools hrun htx with ⟨other, hmem, hbuilt⟩
        exact ⟨other, List.mem_cons_of_mem pool hmem, hbuilt⟩
      · simp only [processPools, if_neg hempty, Outcome.bind_eq_ok] at h
        rcases h with ⟨result, hfirst, ⟨results', c₁⟩, hrun, heq⟩
        simp only [Outcome.pure_eq, Outcome.ok.injEq, Prod.mk.injEq] at heq
        rcases heq with ⟨rfl, -⟩
        rcases List.mem_cons.1 htx with rfl | htx
        · -- this pool was built
          rw [buildDistribution, Outcome.bind_eq_ok] at hfirst
          rcases hfirst with ⟨built, hbuild, hresult⟩
          cases built with
          | error err => simp at hresult
          | ok batch =>
              simp only [Outcome.pure_eq, Outcome.ok.injEq, Except.ok.injEq] at hresult
              exact ⟨pool, List.mem_cons_self, _, batch, hbuild, hresult.symm⟩
        · rcases built_of_processPools hrun htx with ⟨other, hmem, hbuilt⟩
          exact ⟨other, List.mem_cons_of_mem pool hmem, hbuilt⟩

/-- The claims of every distribution that an epoch's end returns. -/
theorem epoch_claims_iff {x : Packages} (serialize : ClaimPayout → List UInt8)
    {pools : List (Bytes 32)} {s s' : AggregatorService}
    {results : List (Except AggregatorError BuiltTransaction)} {tx : BuiltTransaction}
    (h : processEpochEnd x pools s = .ok (results, s')) (htx : .ok tx ∈ results) :
    ∃ pool ∈ pools, ∃ receipts batch, build x pool receipts = .ok (.ok batch) ∧
      tx = buildPostDistribution x batch ∧
      (NameLeaves x serialize batch (submittedClaims tx) ↔ (operators receipts).card ≤ 1) := by
  rcases processEpochEnd_run h with ⟨⟨c, hrun⟩, -⟩
  rcases built_of_processPools hrun htx with ⟨pool, hpool, receipts, batch, hbuild, rfl⟩
  refine ⟨pool, hpool, receipts, batch, hbuild, rfl, ?_⟩
  rw [nameLeaves_iff, Adds.length_entries (foldlM_addWeight_adds (build_cases hbuild).1)]

/-- A posted batch is followed by claims that name the leaves under the posted root, the way
`build_claims` does, if and only if its receipts name one operator at most. -/
theorem claims_name_leaves_iff (x : Packages) (serialize : ClaimPayout → List UInt8)
    {submitter : Submitter} {receipts : List StorageReceipt} {poolPubkey : Bytes 32}
    {batch : PoolBatch} (hbuild : build x poolPubkey receipts = .ok (.ok batch))
    (hposted : ∀ calls, ∃ answer,
      submitter calls (.submit (buildPostDistribution x batch)) = .ok answer) :
    ∃ claims root,
      (∀ before after calls,
        submitResults true submitter (before ++ .ok (buildPostDistribution x batch) :: after)
            calls =
          submitResults true submitter after (submitResults true submitter before calls ++
            .submit (buildPostDistribution x batch) :: claims.map .submitClaim)) ∧
      computeMerkleRoot x.sha256 (batch.weights.entries.map (leafHash x.sha256)) = .ok root ∧
      (buildPostDistribution x batch).instructionData =
        postDistribution x.serializeDistribution
          { poolPubkey := poolPubkey
            distributionRoot := root
            totalWeight := batch.totalWeight
            groth16Proof := batch.proof.proofBytes
            publicInputs := batch.proof.publicInputs } ∧
      (NameLeaves x serialize batch claims ↔ (operators receipts).card ≤ 1) := by
  rcases build_cases hbuild with ⟨hrun, hpool, -, out, ⟨hroot, -⟩, -, hproof⟩
  refine ⟨submittedClaims (buildPostDistribution x batch), out.root,
    submitResults_posted hposted, hroot, ?_, ?_⟩
  · simp only [buildPostDistribution, hpool, hproof, distributionRoot_mockProof]
  · rw [nameLeaves_iff, Adds.length_entries (foldlM_addWeight_adds hrun)]

def dryRunSubmitter : Submitter :=
  fun calls _ => .ok
    { signature := "dryrun_" ++ toString (calls.length + 1)
      confirmed := true }

def twoReceipts : List StorageReceipt :=
  [firstReceipt, secondReceipt]

def twoReceiptsBatch : PoolBatch :=
  { poolPubkey := somePool
    weights :=
      { entries := [(nodeOne, 2)]
        sorted := by decide +kernel }
    receiptCount := 2
    totalWeight := 2
    proof := mockProof
      { root := Bytes.ofNat 32 0x0a80a3c95fa16666aed2f49aad505adbb2da6d689434bbff6b615421db5454c9
        totalWeight := 2
        entryCount := 1
        poolId := somePool } }

theorem claims_name_leaves_two_receipts :
    ∃ claims root,
      (∀ before after calls,
        submitResults true dryRunSubmitter
            (before ++ .ok (buildPostDistribution receiptPackages twoReceiptsBatch) :: after)
            calls =
          submitResults true dryRunSubmitter after
            (submitResults true dryRunSubmitter before calls ++
              .submit (buildPostDistribution receiptPackages twoReceiptsBatch) ::
                claims.map .submitClaim)) ∧
      computeMerkleRoot receiptDigest
        (twoReceiptsBatch.weights.entries.map (leafHash receiptDigest)) = .ok root ∧
      NameLeaves receiptPackages ClaimPayout.bincode twoReceiptsBatch claims := by
  rcases claims_name_leaves_iff receiptPackages ClaimPayout.bincode
    (show build receiptPackages somePool twoReceipts = .ok (.ok twoReceiptsBatch) by
      decide +kernel)
    (fun calls => ⟨_, show dryRunSubmitter calls _ = .ok _ from rfl⟩) with
    ⟨claims, root, hcalls, hroot, -, hiff⟩
  exact ⟨claims, root, hcalls, hroot, hiff.2 (by decide +kernel)⟩

/-- With two operators both claims name the first leaf. -/
theorem second_claim_names_first_leaf :
    build receiptPackages somePool threeReceipts = .ok (.ok threeReceiptsBatch) ∧
    submitResults true dryRunSubmitter
        [.ok (buildPostDistribution receiptPackages threeReceiptsBatch)] [] =
      [.submit (buildPostDistribution receiptPackages threeReceiptsBatch),
        .submitClaim
          { poolPubkey := somePool
            operatorPubkey := nodeOne
            operatorWeight := 2
            merkleProof := []
            leafIndex := 0 },
        .submitClaim
          { poolPubkey := somePool
            operatorPubkey := nodeTwo
            operatorWeight := 1
            merkleProof := []
            leafIndex := 0 }] ∧
    (leafClaims threeReceiptsBatch).map ClaimPayout.leafIndex = [0, 1] ∧
    ¬ NameLeaves receiptPackages ClaimPayout.bincode threeReceiptsBatch
      (submittedClaims (buildPostDistribution receiptPackages threeReceiptsBatch)) := by
  refine ⟨by decide +kernel, rfl, by decide, ?_⟩
  rw [nameLeaves_iff]
  decide

end Aggregator
end CraftecCore
