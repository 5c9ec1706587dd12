import CraftecCore.Prover.Distribution

/-!
# Guest — the program that runs inside the zkVM

The guest sorts, hashes and merges with code of its own and commits its output field by field.
What it commits is the 76-byte layout of what the host computes: the index loop of its merge is the
host's pass over neighbours, and four commits in a row are the fixed offsets of `to_bytes`.
-/

namespace CraftecCore
namespace Prover

open MerkleTree

namespace Guest

variable (checks : OverflowChecks) (sha256 : List UInt8 → Bytes 32)

/-! ## The source functions -/

/-- `SHA256(operator_pubkey || weight)`. -/
def merkleLeaf (pubkey : Bytes 32) (weight : UInt64) : Bytes 32 :=
  sha256 (pubkey.bytes ++ weight.leBytes)

/-- `usize::next_power_of_two`. -/
def nextPowerOfTwo (n : ℕ) : ℕ :=
  if n ≤ 1 then 1 else 2 ^ (Nat.log2 (n - 1) + 1)

/-- Push zero digests while there are fewer than `n` nodes, for at most the given number of
rounds. -/
def padLoop (n : ℕ) : ℕ → List (Bytes 32) → List (Bytes 32)
  | 0, nodes => nodes
  | rounds + 1, nodes =>
      if nodes.length < n then padLoop n rounds (nodes ++ [Bytes.zero 32]) else nodes

/-- One pass over the even positions. -/
def mergePass (nodes : List (Bytes 32)) : Outcome (List (Bytes 32)) :=
  (List.range' 0 ((nodes.length + 1) / 2) 2).mapM fun i => do
    let left ← nodes.index i
    let right ← nodes.index (i + 1)
    pure (sha256 (left.bytes ++ right.bytes))

/-- Passes while more than one node is left, for at most the given number of rounds. -/
def mergeWhile : ℕ → List (Bytes 32) → Outcome (List (Bytes 32))
  | 0, nodes => pure nodes
  | rounds + 1, nodes =>
      if 1 < nodes.length then do
        let next ← mergePass sha256 nodes
        mergeWhile rounds next
      else
        pure nodes

def merkleRoot (leaves : List (Bytes 32)) : Outcome (Bytes 32) :=
  if leaves.isEmpty then
    pure (Bytes.zero 32)
  else if leaves.length = 1 then
    leaves.index 0
  else do
    let n := nextPowerOfTwo leaves.length
    let nodes := padLoop n n leaves
    let nodes ← mergeWhile sha256 nodes.length nodes
    nodes.index 0

/-- The slices that the guest commits, in order. -/
def mainIn (input : DistributionInput) : Outcome (List (List UInt8)) :=
  if input.entries.isEmpty then
    .panic .assertion
  else do
    -- a stable sort by operator key
    let entries := input.entries.insertionSort fun a b => a.1 ≤ b.1
    let totalWeight ← sumU64In checks (entries.map Prod.snd)
    let leaves := entries.map fun entry => merkleLeaf sha256 entry.1 entry.2
    let root ← merkleRoot sha256 leaves
    pure
      [root.bytes,
        totalWeight.leBytes,
        (UInt32.ofNat entries.length).leBytes,
        input.poolId.bytes]

def main (input : DistributionInput) : Outcome (List (List UInt8)) :=
  mainIn .on sha256 input

/-! ## The guest's tree is the host's -/

theorem nextPowerOfTwo_eq (n : ℕ) : nextPowerOfTwo n = 2 ^ treeHeight n := by
  unfold nextPowerOfTwo treeHeight
  split <;> rfl

/-- Given enough rounds, padding stops at `n` nodes. -/
theorem padLoop_eq {n : ℕ} : ∀ {rounds : ℕ} {nodes : List (Bytes 32)},
    n ≤ nodes.length + rounds →
      padLoop n rounds nodes = nodes ++ List.replicate (n - nodes.length) (Bytes.zero 32)
  | 0, nodes, h => by
      have hzero : n - nodes.length = 0 := by omega
      simp [padLoop, hzero]
  | rounds + 1, nodes, h => by
      by_cases hlt : nodes.length < n
      · have hnext : n ≤ (nodes ++ [Bytes.zero 32]).length + rounds := by
          simp only [List.length_append, List.length_singleton]
          omega
        have hone : n - nodes.length = (n - (nodes ++ [Bytes.zero 32]).length) + 1 := by
          simp only [List.length_append, List.length_singleton]
          omega
        rw [padLoop, if_pos hlt, padLoop_eq hnext, hone, List.replicate_succ, List.append_assoc]
        rfl
      · have hzero : n - nodes.length = 0 := by omega
        simp [padLoop, hlt, hzero]

theorem padLoop_eq_padLeaves (leaves : List (Bytes 32)) :
    padLoop (nextPowerOfTwo leaves.length) (nextPowerOfTwo leaves.length) leaves =
      padLeaves leaves := by
  rw [padLoop_eq (Nat.le_add_left _ _), nextPowerOfTwo_eq, padLeaves]

/-- Two positions further on in a longer list. -/
theorem index_cons_cons (a b : Bytes 32) (rest : List (Bytes 32)) (i : ℕ) :
    (a :: b :: rest).index (2 + i) = rest.index i := by
  have hidx : 2 + i = i + 1 + 1 := by omega
  simp [List.index, hidx]

/-- The pass over even positions is the host's pass over neighbours, also where it panics. -/
theorem mergePass_eq : ∀ nodes : List (Bytes 32), mergePass sha256 nodes = mergeLevel sha256 nodes
  | [] => rfl
  | [_] => by simp [mergePass, mergeLevel, List.index]
  | a :: b :: rest => by
      have hcount : ((a :: b :: rest).length + 1) / 2 = (rest.length + 1) / 2 + 1 := by
        simp only [List.length_cons]
        omega
      have hshift : List.range' 2 ((rest.length + 1) / 2) 2 =
          (List.range' 0 ((rest.length + 1) / 2) 2).map (2 + ·) := by
        simp [List.map_add_range']
      -- the positions from two on are those of the rest
      have hrest : ((List.range' 2 ((rest.length + 1) / 2) 2).mapM fun i => do
          let left ← (a :: b :: rest).index i
          let right ← (a :: b :: rest).index (i + 1)
          pure (sha256 (left.bytes ++ right.bytes))) = mergePass sha256 rest := by
        rw [hshift, List.mapM_map]
        simp only [Function.comp_def, Nat.add_assoc, index_cons_cons]
        rfl
      rw [mergePass, hcount, List.range'_succ, List.mapM_cons, Nat.zero_add, hrest,
        mergePass_eq rest]
      rfl

theorem mergeWhile_eq : ∀ (rounds : ℕ) (nodes : List (Bytes 32)),
    mergeWhile sha256 rounds nodes = mergeLoop sha256 rounds nodes
  | 0, _ => rfl
  | rounds + 1, nodes => by
      simp only [mergeWhile, mergeLoop, mergePass_eq, mergeWhile_eq rounds]

/-- Guest and host compute one Merkle root. -/
theorem merkleRoot_eq : ∀ leaves : List (Bytes 32),
    merkleRoot sha256 leaves = computeMerkleRoot sha256 leaves
  | [] => rfl
  | [_] => rfl
  | a :: b :: rest => by
      have hpad := padLoop_eq_padLeaves (a :: b :: rest)
      have hmany : ¬ (a :: b :: rest).length = 1 := by simp
      rw [merkleRoot, if_neg (by simp), if_neg hmany]
      simp only [hpad, mergeWhile_eq]
      rfl

end Guest

/-! ## The layout, written field by field -/

/-- Bytes read as an output and written again are the same bytes. -/
theorem DistributionOutput.toBytes_fromBytes (b : Bytes 76) :
    (DistributionOutput.fromBytes b).toBytes = b := by
  have hlen : b.bytes.length = 76 := b.length_eq
  have hweight : (UInt64.ofLeBytes (b.extract 32 8 (by decide)).bytes).leBytes =
      (b.bytes.drop 32).take 8 := UInt64.leBytes_ofLeBytes (Bytes.length_eq _)
  have hcount : (UInt32.ofLeBytes (b.extract 40 4 (by decide)).bytes).leBytes =
      (b.bytes.drop 40).take 4 := UInt32.leBytes_ofLeBytes (Bytes.length_eq _)
  have hpool : (b.bytes.drop 44).take 32 = b.bytes.drop 44 := by
    apply List.take_of_length_le
    simp [hlen]
  apply Bytes.ext
  -- cut the bytes at the offsets of the fields, from the last one to the first
  calc (DistributionOutput.fromBytes b).toBytes.bytes
      = b.bytes.take 32 ++ (b.bytes.drop 32).take 8 ++ (b.bytes.drop 40).take 4 ++
          b.bytes.drop 44 := by
        simp only [toBytes, fromBytes, hweight, hcount]
        simp [Bytes.extract, hpool]
    _ = b.bytes.take 32 ++ ((b.bytes.drop 32).take 8 ++
          ((b.bytes.drop 40).take 4 ++ (b.bytes.drop 40).drop 4)) := by
        simp [List.drop_drop]
    _ = b.bytes.take 32 ++ ((b.bytes.drop 32).take 8 ++ (b.bytes.drop 32).drop 8) := by
        rw [List.take_append_drop, List.drop_drop]
    _ = b.bytes := by
        rw [List.take_append_drop, List.take_append_drop]

/-- A guest run that gets to the end returns the fields of the host's output, whatever the
entries. -/
theorem Guest.main_eq (sha256 : List UInt8 → Bytes 32) {input : DistributionInput}
    (hne : input.entries ≠ []) :
    Guest.main sha256 input = (do
      let out ← executeGuestLogic sha256 input
      pure
        [out.root.bytes, out.totalWeight.leBytes, out.entryCount.leBytes, out.poolId.bytes]) := by
  have hsome : ¬ input.entries.isEmpty = true := by simpa using hne
  simp only [Guest.main, Guest.mainIn, if_neg hsome, executeGuestLogic, executeGuestLogicIn,
    Guest.merkleRoot_eq, bind_assoc, Outcome.pure_eq, Outcome.ok_bind]
  rfl

/-- The host's guest logic returns when the weights fit in a word. -/
theorem exists_executeGuestLogic (sha256 : List UInt8 → Bytes 32) {input : DistributionInput}
    (hne : input.entries ≠ []) (hsum : (input.entries.map fun e => e.2.toNat).sum < 2 ^ 64) :
    ∃ out, executeGuestLogic sha256 input = .ok out ∧
      out.entryCount = UInt32.ofNat input.entries.length := by
  let entries := input.entries.insertionSort fun a b => a.1 ≤ b.1
  have hperm : entries.Perm input.entries := List.perm_insertionSort _ _
  -- sorting keeps the sum of the weights and the number of entries
  have htotal : ((entries.map Prod.snd).map UInt64.toNat).sum =
      (input.entries.map fun e => e.2.toNat).sum := by
    rw [List.map_map]
    exact (hperm.map _).sum_eq
  rcases UInt64.exists_toNat_eq hsum with ⟨totalWeight, hword⟩
  have hweight : sumU64 (entries.map Prod.snd) = .ok totalWeight := by
    rw [sumU64_eq_ok, htotal, hword]
  have hleaves : entries.map (leafHash sha256) ≠ [] := by
    intro h
    rw [List.map_eq_nil_iff] at h
    exact hne (h ▸ hperm).nil_eq.symm
  rcases computeMerkleRoot_eq_ok sha256 hleaves with ⟨root, hroot, -⟩
  refine ⟨{ root := root
            totalWeight := totalWeight
            entryCount := UInt32.ofNat entries.length
            poolId := input.poolId }, ?_, congrArg UInt32.ofNat hperm.length_eq⟩
  change (sumU64 (entries.map Prod.snd) >>= fun totalWeight =>
    computeMerkleRoot sha256 (entries.map (leafHash sha256)) >>= fun root => _) = _
  rw [hweight, Outcome.ok_bind, hroot]
  rfl

/-- Guest and host compute the same 76 bytes: the four committed slices make up the layout of the
host's output, which reads back as that output; and every 76 bytes are the layout of what they read
as. -/
theorem guest_commits_host_output (sha256 : List UInt8 → Bytes 32) (input : DistributionInput)
    (hne : input.entries ≠ []) (hsum : (input.entries.map fun e => e.2.toNat).sum < 2 ^ 64)
    (hcount : input.entries.length < 2 ^ 32) :
    (∃ out slices,
      executeGuestLogic sha256 input = .ok out ∧
      Guest.main sha256 input = .ok slices ∧ slices.length = 4 ∧
      out.entryCount.toNat = input.entries.length ∧
      slices.flatten = out.toBytes.bytes ∧
      ∀ committed : Bytes 76, committed.bytes = slices.flatten →
        DistributionOutput.fromBytes committed = out) ∧
      ∀ b : Bytes 76, (DistributionOutput.fromBytes b).toBytes = b := by
  refine ⟨?_, DistributionOutput.toBytes_fromBytes⟩
  rcases exists_executeGuestLogic sha256 hne hsum with ⟨out, hhost, hentries⟩
  have hflat : [out.root.bytes, out.totalWeight.leBytes, out.entryCount.leBytes,
      out.poolId.bytes].flatten = out.toBytes.bytes := by
    simp [DistributionOutput.toBytes]
  refine ⟨out, _, hhost, ?_, rfl, ?_, hflat, ?_⟩
  · rw [Guest.main_eq sha256 hne, hhost]
    rfl
  · rw [hentries]
    exact UInt32.toNat_ofNat_of_lt' hcount
  · intro committed hcommitted
    have heq : committed = out.toBytes := Bytes.ext (hcommitted.trans hflat)
    rw [heq, DistributionOutput.fromBytes_toBytes]

/-- Three entries out of order, two of them of one operator. -/
theorem guest_commits_three_entries :
    ∃ out slices,
      executeGuestLogic (fun _ => Bytes.zero 32)
        { entries := [(Bytes.ofNat 32 2, 5), (Bytes.ofNat 32 1, 7), (Bytes.ofNat 32 2, 3)]
          poolId := Bytes.zero 32 } = .ok out ∧
      Guest.main (fun _ => Bytes.zero 32)
        { entries := [(Bytes.ofNat 32 2, 5), (Bytes.ofNat 32 1, 7), (Bytes.ofNat 32 2, 3)]
          poolId := Bytes.zero 32 } = .ok slices ∧
      slices.flatten = out.toBytes.bytes := by
  rcases (guest_commits_host_output (fun _ => Bytes.zero 32)
    { entries := [(Bytes.ofNat 32 2, 5), (Bytes.ofNat 32 1, 7), (Bytes.ofNat 32 2, 3)]
      poolId := Bytes.zero 32 } (by simp) (by decide) (by decide)).1 with
    ⟨out, slices, hhost, hguest, -, -, hflat, -⟩
  exact ⟨out, slices, hhost, hguest, hflat⟩

end Prover
end CraftecCore
