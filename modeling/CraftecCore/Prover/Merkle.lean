import CraftecCore.Library.Bytes
import CraftecCore.Library.MerkleTree
import CraftecCore.Library.Outcome
import Mathlib.Data.Nat.Log

/-!
# Merkle — the distribution tree

Leaves are padded with zero digests to the next power of two and merged bottom-up, neighbour by
neighbour.  SHA-256 is an arbitrary function from messages to 32 bytes.  The merge loop is run with
as many rounds as there are nodes, which `mergeLoop_eq_ok` shows to be more than it takes.  The root
is also the one of the tree that is defined from the top down, `recursiveRoot`.
-/

namespace CraftecCore
namespace Prover

open MerkleTree

section Merkle

variable (sha256 : List UInt8 → Bytes 32)

/-! ## The source functions -/

/-- `SHA256(left || right)`. -/
def hashNode (left right : Bytes 32) : Bytes 32 :=
  sha256 (left.bytes ++ right.bytes)

/-- One pass of the merge.  The source reads `nodes[i + 1]`, which must exist. -/
def mergeLevel : List (Bytes 32) → Outcome (List (Bytes 32))
  | [] => pure []
  | [_] => .panic .indexOutOfBounds
  | left :: right :: rest => do
      let next ← mergeLevel rest
      pure (hashNode sha256 left right :: next)

/-- Merge while more than one node is left, for at most the given number of rounds. -/
def mergeLoop : ℕ → List (Bytes 32) → Outcome (List (Bytes 32))
  | 0, nodes => pure nodes
  | rounds + 1, nodes =>
      if 1 < nodes.length then do
        let next ← mergeLevel sha256 nodes
        mergeLoop rounds next
      else
        pure nodes

/-- The exponent of `usize::next_power_of_two`. -/
def treeHeight (n : ℕ) : ℕ :=
  if n ≤ 1 then 0 else Nat.log2 (n - 1) + 1

def padLeaves (leaves : List (Bytes 32)) : List (Bytes 32) :=
  leaves ++ List.replicate (2 ^ treeHeight leaves.length - leaves.length) (Bytes.zero 32)

def computeMerkleRoot (leaves : List (Bytes 32)) : Outcome (Bytes 32) :=
  match leaves with
  | [] => pure (Bytes.zero 32)
  | [leaf] => pure leaf
  | _ => do
      -- enough rounds: each one that runs halves the number of nodes
      let nodes := padLeaves leaves
      let nodes ← mergeLoop sha256 nodes.length nodes
      nodes.index 0

/-! ## The loop climbs the tree -/

theorem le_two_pow_treeHeight (n : ℕ) : n ≤ 2 ^ treeHeight n := by
  unfold treeHeight
  split
  · simpa using ‹n ≤ 1›
  · have hlt : n - 1 < 2 ^ (Nat.log2 (n - 1) + 1) := by
      rw [Nat.log2_eq_log_two]
      exact Nat.lt_pow_succ_log_self (by decide) (n - 1)
    omega

theorem length_padLeaves (leaves : List (Bytes 32)) :
    (padLeaves leaves).length = 2 ^ treeHeight leaves.length := by
  have := le_two_pow_treeHeight leaves.length
  simp only [padLeaves, List.length_append, List.length_replicate]
  omega

theorem mergeLevel_eq_ok : ∀ {nodes : List (Bytes 32)}, Even nodes.length →
    mergeLevel sha256 nodes = .ok (pairUp (hashNode sha256) nodes)
  | [], _ => rfl
  | [_], h => by simp at h
  | left :: right :: rest, h => by
      have hrest : Even rest.length := by simpa [Nat.even_add_one] using h
      simp [mergeLevel, mergeLevel_eq_ok hrest, pairUp, pairs]

/-- A full level above the root has an even number of nodes, at least two, and half as many
pairs. -/
theorem length_full_level {d : ℕ} {nodes : List (Bytes 32)} (hlen : nodes.length = 2 ^ (d + 1)) :
    1 < nodes.length ∧ Even nodes.length ∧
      (pairUp (hashNode sha256) nodes).length = 2 ^ d := by
  refine ⟨?_, ?_, ?_⟩
  · rw [hlen]
    exact Nat.one_lt_two_pow (by omega)
  · rw [hlen]
    exact Nat.even_pow.2 ⟨even_two, by omega⟩
  · rw [length_pairUp, hlen, Nat.pow_succ, Nat.mul_div_cancel _ (by decide)]

/-- On a full level the loop reaches the root, given at least as many rounds as levels. -/
theorem mergeLoop_eq_ok :
    ∀ {d rounds : ℕ} {nodes : List (Bytes 32)}, nodes.length = 2 ^ d → d ≤ rounds →
      mergeLoop sha256 rounds nodes = .ok (climb (hashNode sha256) d nodes)
  | 0, rounds, nodes, hlen, _ => by
      have hone : nodes.length = 1 := by simpa using hlen
      cases rounds <;> simp [mergeLoop, hone, climb]
  | d + 1, 0, _, _, hle => by omega
  | d + 1, rounds + 1, nodes, hlen, hle => by
      rcases length_full_level sha256 hlen with ⟨hmany, heven, hnext⟩
      have ih := mergeLoop_eq_ok hnext (show d ≤ rounds by omega)
      simp [mergeLoop, hmany, mergeLevel_eq_ok sha256 heven, ih, climb_succ']

/-- The root is what climbing the padded leaves to the top reaches. -/
theorem computeMerkleRoot_eq_ok {leaves : List (Bytes 32)} (hne : leaves ≠ []) :
    ∃ root, computeMerkleRoot sha256 leaves = .ok root ∧
      climb (hashNode sha256) (treeHeight leaves.length) (padLeaves leaves) = [root] := by
  have hlen := length_padLeaves leaves
  have htop := length_climb (hashNode sha256) hlen le_rfl
  rw [Nat.sub_self, Nat.pow_zero] at htop
  rcases List.length_eq_one_iff.1 htop with ⟨root, hroot⟩
  refine ⟨root, ?_, hroot⟩
  -- the source returns a single leaf as it is; its tree has no level to climb
  match leaves, hne with
  | [leaf], _ =>
      have hleaf : [leaf] = [root] := by simpa [treeHeight, padLeaves, climb] using hroot
      rw [computeMerkleRoot, List.head_eq_of_cons_eq hleaf]
      rfl
  | a :: b :: rest, _ =>
      have hrounds : treeHeight (a :: b :: rest).length ≤ (padLeaves (a :: b :: rest)).length := by
        rw [hlen]
        exact Nat.le_of_lt Nat.lt_two_pow_self
      have hrun := mergeLoop_eq_ok sha256 hlen hrounds
      rw [hroot] at hrun
      simp [computeMerkleRoot, hrun, List.index]

/-! ## The tree from the top down -/

/-- What the root is for: the root of the perfect tree over the padded leaves. -/
def recursiveRoot (leaves : List (Bytes 32)) : Bytes 32 :=
  match leaves with
  | [] => Bytes.zero 32
  | [leaf] => leaf
  | _ =>
      (Perfect.build (treeHeight leaves.length) (padLeaves leaves) (length_padLeaves leaves)).root
        (hashNode sha256)

/-- The rounds of the merge loop, until it stops by itself at a level of at most one node. -/
inductive MergeRun : List (Bytes 32) → List (Bytes 32) → Prop where
  | stop {nodes : List (Bytes 32)} :
      ¬ 1 < nodes.length → MergeRun nodes nodes
  | round {nodes next last : List (Bytes 32)} :
      1 < nodes.length → mergeLevel sha256 nodes = .ok next → MergeRun next last →
        MergeRun nodes last

/-- The exponent is the least one that will do. -/
theorem treeHeight_isLeast (n : ℕ) : IsLeast {h : ℕ | n ≤ 2 ^ h} (treeHeight n) := by
  refine ⟨le_two_pow_treeHeight n, ?_⟩
  intro h hh
  change n ≤ 2 ^ h at hh
  unfold treeHeight
  split
  · exact Nat.zero_le h
  · -- already `n - 1` needs all bits below the exponent
    have hlog : Nat.log2 (n - 1) < h := by
      rw [Nat.log2_lt (by omega)]
      omega
    omega

/-- Over the leaves of a tree the loop runs until only the root is left, and reads both nodes of
every pair. -/
theorem mergeRun_leaves :
    ∀ (d : ℕ) {nodes : List (Bytes 32)}, nodes.length = 2 ^ d →
      MergeRun sha256 nodes (climb (hashNode sha256) d nodes)
  | 0, nodes, hlen => MergeRun.stop (by rw [hlen, Nat.pow_zero]; exact lt_irrefl 1)
  | d + 1, nodes, hlen => by
      rcases length_full_level sha256 hlen with ⟨hmany, heven, hnext⟩
      rw [climb_succ']
      exact MergeRun.round hmany (mergeLevel_eq_ok sha256 heven) (mergeRun_leaves d hnext)

/-- Both definitions of the root agree, the loop that computes it stops by itself, and it never
reads past the end of a level. -/
theorem computeMerkleRoot_eq_recursiveRoot (leaves : List (Bytes 32)) :
    computeMerkleRoot sha256 leaves = .ok (recursiveRoot sha256 leaves) ∧
      IsLeast {h : ℕ | leaves.length ≤ 2 ^ h} (treeHeight leaves.length) ∧
      MergeRun sha256 (padLeaves leaves) [recursiveRoot sha256 leaves] := by
  have hlen := length_padLeaves leaves
  have htop := climb_leaves (hashNode sha256)
    (Perfect.build (treeHeight leaves.length) (padLeaves leaves) hlen)
  rw [Perfect.leaves_build] at htop
  have hloop := mergeRun_leaves sha256 (treeHeight leaves.length) hlen
  rw [htop] at hloop
  refine ⟨?_, treeHeight_isLeast leaves.length, ?_⟩
  · match leaves, hlen, htop with
    | [], _, _ => rfl
    | [_], _, _ => rfl
    | a :: b :: rest, hlen, htop =>
        rcases computeMerkleRoot_eq_ok sha256 (List.cons_ne_nil a (b :: rest)) with
          ⟨root, hrun, hroot⟩
        have heq := List.head_eq_of_cons_eq (hroot.symm.trans htop)
        rw [hrun, heq]
        rfl
  · -- a tree without a level to merge is left as it is
    match leaves, hlen, hloop with
    | [], _, hloop => exact hloop
    | [_], _, hloop => exact hloop
    | _ :: _ :: _, _, hloop => exact hloop

end Merkle

end Prover
end CraftecCore
