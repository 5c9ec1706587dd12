import CraftecCore.Prover.Distribution
import Mathlib.Algebra.Order.BigOperators.Group.List

/-!
# Aggregation — what a list of receipts earns

The weight map after a run of `addWeight` holds, for every operator, exactly the weight its receipts
carry; nothing is added for anybody else.  The validating loop is the plain one behind a check of
every receipt, and the guest logic leaves the sorted entries it is given as they are.
-/

namespace CraftecCore
namespace Prover

open Settlement

section Aggregate

variable {R : Type} [ContributionReceipt R]

/-! ## Weights as numbers -/

/-- Weight of an operator in a map, zero without an entry. -/
def weightIn (weights : SortedMap (Bytes 32) UInt64) (op : Bytes 32) : ℕ :=
  ((weights.get? op).map UInt64.toNat).getD 0

def totalIn (weights : SortedMap (Bytes 32) UInt64) : ℕ :=
  (weights.values.map UInt64.toNat).sum

def earned (receipts : List R) (op : Bytes 32) : ℕ :=
  ((receipts.filter fun r => ContributionReceipt.operator r = op).map fun r =>
    (ContributionReceipt.weight r).toNat).sum

def totalEarned (receipts : List R) : ℕ :=
  (receipts.map fun r => (ContributionReceipt.weight r).toNat).sum

theorem weightIn_insert (weights : SortedMap (Bytes 32) UInt64) (op op' : Bytes 32) (w : UInt64) :
    weightIn (weights.insert op w) op' = if op' = op then w.toNat else weightIn weights op' := by
  by_cases h : op' = op
  · simp [weightIn, h]
  · simp [weightIn, h, SortedMap.get?_insert_of_ne]

theorem totalIn_insert (weights : SortedMap (Bytes 32) UInt64) (op : Bytes 32) (w : UInt64) :
    totalIn (weights.insert op w) + weightIn weights op = totalIn weights + w.toNat :=
  SortedMap.sum_values_insert UInt64.toNat weights op w

theorem weightIn_le_totalIn (weights : SortedMap (Bytes 32) UInt64) (op : Bytes 32) :
    weightIn weights op ≤ totalIn weights := by
  cases h : weights.get? op with
  | none => simp [weightIn, h]
  | some w =>
      have hmem : w.toNat ∈ weights.values.map UInt64.toNat :=
        List.mem_map_of_mem (SortedMap.mem_values.2 ⟨op, h⟩)
      simpa [weightIn, h, totalIn] using List.single_le_sum (fun _ _ => Nat.zero_le _) _ hmem

theorem earned_cons (r : R) (rs : List R) (op : Bytes 32) :
    earned (r :: rs) op = earned [r] op + earned rs op := by
  by_cases h : ContributionReceipt.operator r = op <;> simp [earned, h]

theorem totalEarned_cons (r : R) (rs : List R) :
    totalEarned (r :: rs) = (ContributionReceipt.weight r).toNat + totalEarned rs := by
  simp [totalEarned]

/-! ## Adding weights -/

/-- `after` holds what `before` held and what the receipts carry. -/
structure Adds (before : SortedMap (Bytes 32) UInt64) (receipts : List R)
    (after : SortedMap (Bytes 32) UInt64) : Prop where
  weight : ∀ op, weightIn after op = weightIn before op + earned receipts op
  total : totalIn after = totalIn before + totalEarned receipts
  keys : ∀ op, op ∈ after.keys ↔
    op ∈ before.keys ∨ ∃ r ∈ receipts, ContributionReceipt.operator r = op

theorem Adds.nil (weights : SortedMap (Bytes 32) UInt64) : Adds weights ([] : List R) weights :=
  { weight := fun op => by simp [earned]
    total := by simp [totalEarned]
    keys := fun op => by simp }

theorem Adds.cons {before between after : SortedMap (Bytes 32) UInt64} {r : R} {rs : List R}
    (h : Adds before [r] between) (hs : Adds between rs after) : Adds before (r :: rs) after :=
  { weight := fun op => by
      rw [hs.weight, h.weight, earned_cons r rs, Nat.add_assoc]
    total := by
      rw [hs.total, h.total, totalEarned_cons r rs, totalEarned_cons r []]
      simp [totalEarned, Nat.add_assoc]
    keys := fun op => by
      rw [hs.keys, h.keys]
      simp [or_assoc] }

/-- One step: the operator's entry grows by the receipt's weight. -/
theorem addWeight_adds {weights after : SortedMap (Bytes 32) UInt64} {r : R}
    (h : addWeight weights r = .ok after) : Adds weights [r] after := by
  simp only [addWeight, addWeightIn, UInt64.addIn_on, Outcome.bind_eq_ok, UInt64.checkedAdd_eq_ok,
    Outcome.pure_eq, Outcome.ok.injEq] at h
  rcases h with ⟨w, hw, rfl⟩
  -- the old value of the entry, as a number
  have hold : weightIn weights (ContributionReceipt.operator r) +
      (ContributionReceipt.weight r).toNat = w.toNat := by
    rw [← hw]
    cases hget : weights.get? (ContributionReceipt.operator r) <;> simp [weightIn, hget]
  have htotal := totalIn_insert weights (ContributionReceipt.operator r) w
  refine { weight := ?_, total := ?_, keys := ?_ }
  · intro op
    by_cases hop : ContributionReceipt.operator r = op
    · simp [weightIn_insert, earned, ← hop, hold]
    · have hne : op ≠ ContributionReceipt.operator r := Ne.symm hop
      simp [weightIn_insert, earned, hop, hne]
  · simp only [totalEarned, List.map_cons, List.map_nil, List.sum_cons, List.sum_nil]
    omega
  · intro op
    by_cases hop : ContributionReceipt.operator r = op
    · simp [SortedMap.mem_keys, ← hop]
    · simp [SortedMap.mem_keys, hop, SortedMap.get?_insert_of_ne _ _ (Ne.symm hop)]

/-- A step returns when the new total fits. -/
theorem exists_addWeight_eq_ok (weights : SortedMap (Bytes 32) UInt64) (r : R)
    (h : totalIn weights + (ContributionReceipt.weight r).toNat < 2 ^ 64) :
    ∃ after, addWeight weights r = .ok after := by
  have hle := weightIn_le_totalIn weights (ContributionReceipt.operator r)
  have hfit : weightIn weights (ContributionReceipt.operator r) +
      (ContributionReceipt.weight r).toNat < 2 ^ 64 := by omega
  rcases UInt64.exists_toNat_eq hfit with ⟨w, hw⟩
  have hadd : ((weights.get? (ContributionReceipt.operator r)).getD 0).checkedAdd
      (ContributionReceipt.weight r) = .ok w := by
    rw [UInt64.checkedAdd_eq_ok, hw]
    cases hget : weights.get? (ContributionReceipt.operator r) <;> simp [weightIn, hget]
  exact ⟨weights.insert (ContributionReceipt.operator r) w, by simp [addWeight, addWeightIn, hadd]⟩

/-- A run of steps adds what all its receipts carry. -/
theorem foldlM_addWeight_adds :
    ∀ {receipts : List R} {weights after : SortedMap (Bytes 32) UInt64},
      receipts.foldlM addWeight weights = .ok after → Adds weights receipts after
  | [], weights, after, h => by
      have heq : weights = after := by simpa using h
      exact heq ▸ Adds.nil weights
  | r :: rs, weights, after, h => by
      rw [List.foldlM_cons, Outcome.bind_eq_ok] at h
      rcases h with ⟨between, hstep, hrun⟩
      exact Adds.cons (addWeight_adds hstep) (foldlM_addWeight_adds hrun)

/-- A run returns when the total it reaches fits. -/
theorem exists_foldlM_addWeight_eq_ok :
    ∀ (receipts : List R) (weights : SortedMap (Bytes 32) UInt64),
      totalIn weights + totalEarned receipts < 2 ^ 64 →
        ∃ after, receipts.foldlM addWeight weights = .ok after
  | [], weights, _ => ⟨weights, by simp⟩
  | r :: rs, weights, h => by
      have hcons := totalEarned_cons r rs
      rcases exists_addWeight_eq_ok weights r (by omega) with ⟨between, hstep⟩
      -- after one step the rest of the receipts still fits
      have htotal : totalIn between = totalIn weights + (ContributionReceipt.weight r).toNat := by
        simpa [totalEarned] using (addWeight_adds hstep).total
      rcases exists_foldlM_addWeight_eq_ok rs between (by omega) with
        ⟨after, hrun⟩
      exact ⟨after, by simp [hstep, hrun]⟩

/-- Maps that hold the same weights, none of them zero, are equal. -/
theorem eq_of_adds_empty {receipts receipts' : List R} {w w' : SortedMap (Bytes 32) UInt64}
    (h : Adds SortedMap.empty receipts w) (h' : Adds SortedMap.empty receipts' w')
    (hkeys : ∀ op, (∃ r ∈ receipts, ContributionReceipt.operator r = op) ↔
      ∃ r ∈ receipts', ContributionReceipt.operator r = op)
    (hearned : ∀ op, earned receipts op = earned receipts' op) : w = w' := by
  apply SortedMap.ext_get?
  intro op
  have hmem : op ∈ w.keys ↔ op ∈ w'.keys := by
    rw [h.keys, h'.keys, hkeys]
  have hweight : weightIn w op = weightIn w' op := by
    rw [h.weight, h'.weight, hearned]
  rw [SortedMap.mem_keys, SortedMap.mem_keys] at hmem
  -- an operator without receipts has an entry in neither map
  cases hget : w.get? op with
  | none =>
      cases hget' : w'.get? op with
      | none => rfl
      | some v => simp [hget, hget'] at hmem
  | some u =>
      cases hget' : w'.get? op with
      | none => simp [hget, hget'] at hmem
      | some v =>
          have hnat : u.toNat = v.toNat := by simpa [weightIn, hget, hget'] using hweight
          rw [UInt64.toNat_inj.1 hnat]

/-! ## The validating loop -/

def Provable (r : R) : Prop :=
  ContributionReceipt.weight r ≠ 0 ∧ ContributionReceipt.timestamp r ≠ 0 ∧
    ContributionReceipt.operator r ≠ Bytes.zero 32

/-- The validating loop is the plain loop over receipts that all pass. -/
theorem aggregateLoop_eq_ok :
    ∀ {receipts : List R} {weights after : SortedMap (Bytes 32) UInt64},
      aggregateLoop receipts weights = .ok (.ok after) ↔
        (∀ r ∈ receipts, Provable r) ∧ receipts.foldlM addWeight weights = .ok after
  | [], weights, after => by simp [aggregateLoop, aggregateLoopIn]
  | r :: rs, weights, after => by
      unfold aggregateLoop aggregateLoopIn
      -- each failed check returns an error, which the right side excludes
      split
      · rename_i hweight
        simp [Provable, hweight]
      split
      · rename_i htime
        simp [Provable, htime]
      split
      · rename_i hoperator
        simp [Provable, hoperator]
      rename_i hweight htime hoperator
      have hr : Provable r := ⟨hweight, htime, hoperator⟩
      -- the receipt passed, so both loops add it and go on
      simp only [addWeightIn_on, aggregateLoopIn_on, Outcome.bind_eq_ok, aggregateLoop_eq_ok,
        List.foldlM_cons, List.mem_cons, forall_eq_or_imp, hr, true_and]
      constructor
      · rintro ⟨between, hstep, hrs, hrun⟩
        exact ⟨hrs, between, hstep, hrun⟩
      · rintro ⟨hrs, between, hstep, hrun⟩
        exact ⟨between, hstep, hrs, hrun⟩

/-- The other result on receipts with weight and operator whose total fits: a zero timestamp. -/
theorem aggregateLoop_zeroTimestamp :
    ∀ {receipts : List R} {weights : SortedMap (Bytes 32) UInt64},
      (∀ r ∈ receipts, ContributionReceipt.weight r ≠ 0 ∧
        ContributionReceipt.operator r ≠ Bytes.zero 32) →
      (∃ r ∈ receipts, ContributionReceipt.timestamp r = 0) →
      totalIn weights + totalEarned receipts < 2 ^ 64 →
        aggregateLoop receipts weights = .ok (.error .zeroTimestamp)
  | [], _, _, hzero, _ => by simp at hzero
  | r :: rs, weights, hall, hzero, hfit => by
      rcases hall r List.mem_cons_self with ⟨hweight, hoperator⟩
      by_cases htime : ContributionReceipt.timestamp r = 0
      · simp [aggregateLoop, aggregateLoopIn, hweight, htime]
      · -- this receipt is added; the one without a timestamp comes later
        have hcons := totalEarned_cons r rs
        rcases exists_addWeight_eq_ok weights r (by omega) with ⟨between, hstep⟩
        have htotal : totalIn between = totalIn weights + (ContributionReceipt.weight r).toNat := by
          simpa [totalEarned] using (addWeight_adds hstep).total
        have hzero' : ∃ r ∈ rs, ContributionReceipt.timestamp r = 0 := by
          simpa [htime] using hzero
        have ih := aggregateLoop_zeroTimestamp (fun r' hr' => hall r' (List.mem_cons_of_mem r hr'))
          hzero' (show totalIn between + totalEarned rs < 2 ^ 64 by omega)
        unfold aggregateLoop aggregateLoopIn
        simp [hweight, htime, hoperator, addWeightIn_on, aggregateLoopIn_on, hstep, ih]

theorem aggregateReceipts_eq_ok {receipts : List R} {entries : List (Bytes 32 × UInt64)} :
    aggregateReceipts receipts = .ok (.ok entries) ↔
      receipts ≠ [] ∧ (∀ r ∈ receipts, Provable r) ∧
        ∃ weights, receipts.foldlM addWeight SortedMap.empty = .ok weights ∧
          weights.entries = entries := by
  unfold aggregateReceipts aggregateReceiptsIn
  by_cases hne : receipts = []
  · simp [hne]
  · simp only [List.isEmpty_iff, hne, if_false, Outcome.bind_eq_ok, ne_eq, not_false_eq_true,
      true_and]
    constructor
    · rintro ⟨result, hloop, hresult⟩
      cases result with
      | error err => simp at hresult
      | ok weights =>
          rcases aggregateLoop_eq_ok.1 hloop with ⟨hall, hrun⟩
          exact ⟨hall, weights, hrun, by simpa using hresult⟩
    · rintro ⟨hall, weights, hrun, rfl⟩
      exact ⟨.ok weights, aggregateLoop_eq_ok.2 ⟨hall, hrun⟩, rfl⟩

theorem computeDistributionEntries_eq_ok {receipts : List R} {entries : List (Bytes 32 × UInt64)} :
    computeDistributionEntries receipts = .ok entries ↔
      ∃ weights, receipts.foldlM addWeight SortedMap.empty = .ok weights ∧
        weights.entries = entries := by
  simp [computeDistributionEntries, Outcome.bind_eq_ok]

end Aggregate

/-! ## The guest logic on a weight map -/

section Guest

variable (sha256 : List UInt8 → Bytes 32)

/-- Entries in key order are left as they are by the guest's sort. -/
theorem executeGuestLogic_of_sorted {entries : List (Bytes 32 × UInt64)} (poolId : Bytes 32)
    (hsorted : entries.Pairwise fun a b => a.1 ≤ b.1) :
    executeGuestLogic sha256 { entries := entries, poolId := poolId } = (do
      let totalWeight ← sumU64 (entries.map Prod.snd)
      let root ← computeMerkleRoot sha256 (entries.map (leafHash sha256))
      pure
        { root := root
          totalWeight := totalWeight
          entryCount := UInt32.ofNat entries.length
          poolId := poolId }) := by
  have hsort : (entries.insertionSort fun a b => a.1 ≤ b.1) = entries := hsorted.insertionSort_eq
  simp only [executeGuestLogic, executeGuestLogicIn, sumU64In_on, hsort]

/-- On a weight map whose total fits, the guest logic commits to its entries. -/
theorem executeGuestLogic_weights {weights : SortedMap (Bytes 32) UInt64} {totalWeight : UInt64}
    (poolId : Bytes 32) (hne : weights.entries ≠ [])
    (htotal : totalIn weights = totalWeight.toNat) :
    ∃ root, computeMerkleRoot sha256 (weights.entries.map (leafHash sha256)) = .ok root ∧
      executeGuestLogic sha256 { entries := weights.entries, poolId := poolId } =
        .ok
          { root := root
            totalWeight := totalWeight
            entryCount := UInt32.ofNat weights.entries.length
            poolId := poolId } := by
  have hleaves : weights.entries.map (leafHash sha256) ≠ [] := by simpa using hne
  rcases computeMerkleRoot_eq_ok sha256 hleaves with ⟨root, hroot, _⟩
  have hsum : sumU64 (weights.entries.map Prod.snd) = .ok totalWeight := sumU64_eq_ok.2 htotal
  refine ⟨root, hroot, ?_⟩
  rw [executeGuestLogic_of_sorted sha256 poolId (weights.sorted.imp fun h => h.le), hsum, hroot]
  rfl

end Guest

end Prover
end CraftecCore
