import CraftecCore.Aggregator.History

/-!
# Conservation — what the end of an epoch pays

In every state a run reaches, the end of the epoch builds one transaction for each pool that has
receipts and none fails, since the checks of `ingest` imply those of the prover.  The weights are
the counts of the receipts accepted in the epoch; nothing is lost and nothing paid twice.
-/

namespace CraftecCore
namespace Aggregator

open Settlement FileSystem Prover Transition

/-! ## One pool -/

instance : Inhabited BuiltTransaction :=
  ⟨{ instructionData := []
     description := ""
     poolPubkey := default
     weights := SortedMap.empty }⟩

/-- Provable receipts of one pool are built into a transaction that holds their weights. -/
theorem buildDistribution_eq_ok (x : Packages) (pool : Bytes 32) {receipts : List StorageReceipt}
    (hne : receipts ≠ []) (hlen : receipts.length ≤ isizeMax) (hall : ∀ r ∈ receipts, Provable r) :
    ∃ tx, buildDistribution x pool receipts = .ok (.ok tx) ∧ tx.poolPubkey = pool ∧
      Adds SortedMap.empty receipts tx.weights := by
  have hfit : receipts.length < 2 ^ 64 := Nat.lt_of_le_of_lt hlen (by decide)
  rcases exists_weights receipts hfit with ⟨weights, hrun, hadds⟩
  rcases UInt64.exists_toNat_eq hfit with ⟨totalWeight, htotal⟩
  have htotal' : totalIn weights = totalWeight.toNat := by
    rw [Adds.totalIn_eq hadds, htotal]
  rcases build_eq_ok x pool hne hall hrun htotal' with ⟨out, -, -, hbuild⟩
  exact ⟨_, by simp only [buildDistribution, hbuild, Outcome.ok_bind]; rfl, rfl, hadds⟩

/-- A receipt that the collector holds passes the checks of the prover, after the first epoch. -/
theorem Holds.provable {x : Packages} {c : ReceiptCollector}
    {accepted : List (Bytes 32 × StorageReceipt)} (h : Holds x c accepted)
    (hstart : 0 < c.epochStart.toNat) {pool : Bytes 32} :
    ∀ r ∈ c.stored pool, Provable r := by
  intro r hr
  have hnode := h.storageNode_stored pool r hr
  have htime := h.notEarly _ (h.mem_stored.1 hr)
  refine ⟨by simp [ContributionReceipt.weight], ?_, hnode⟩
  intro hzero
  -- the timestamp is not before the window, which starts after zero
  have hnat : r.timestamp.toNat = 0 := congrArg UInt64.toNat hzero
  simp only at htime
  omega

/-! ## All pools -/

/-- Receipts of all pools, in any order of the pools. -/
theorem sum_length_stored {c : ReceiptCollector} {pools : List (Bytes 32)}
    (hperm : pools.Perm c.pools) :
    (pools.map fun pool => (c.stored pool).length).sum = c.receiptCount := by
  have hlength : ∀ e ∈ c.poolReceipts.entries, (c.stored e.1).length = e.2.length := by
    rintro ⟨pool, receipts⟩ he
    simp [ReceiptCollector.stored, SortedMap.mem_entries.1 he]
  calc (pools.map fun pool => (c.stored pool).length).sum
      = (c.pools.map fun pool => (c.stored pool).length).sum :=
        (hperm.map fun pool => (c.stored pool).length).sum_eq
    _ = (c.poolReceipts.entries.map fun e => (c.stored e.1).length).sum := by
        simp [ReceiptCollector.pools, SortedMap.keys, Function.comp_def]
    _ = (c.poolReceipts.entries.map fun e => e.2.length).sum := by
        rw [List.map_congr_left hlength]
    _ = c.receiptCount := by
        simp [ReceiptCollector.receiptCount, SortedMap.values, Function.comp_def]

/-- Receipts of one storage node among those of a pool. -/
theorem countP_ofPool (accepted : List (Bytes 32 × StorageReceipt)) (pool op : Bytes 32) :
    (ofPool accepted pool).countP (fun r => r.storageNode = op) =
      accepted.countP fun a => a.1 = pool ∧ a.2.storageNode = op := by
  simp only [ofPool, List.countP_map, List.countP_filter]
  congr 1
  funext a
  simp [Bool.and_comm]

section Runs

variable {D : Type} [FileSystem D]

/-- Conservation at the end of an epoch, in every state that a run reaches: exactly one transaction
for each pool with receipts, paying what was accepted since the last end of an epoch. -/
theorem processEpochEnd_conserves (x : Packages) {s : State D}
    (hrun : Run Started (Next x) (fun _ _ => True) s)
    (hstart : 0 < s.service.collector.epochStart.toNat)
    (hfit : (s.service.currentEpoch.toNat + 2) * s.service.config.epochDurationSecs.toNat < 2 ^ 64)
    {pools : List (Bytes 32)} (hpools : pools.Perm s.service.collector.pools) :
    ∃ (txs : List BuiltTransaction) (service' : AggregatorService),
      processEpochEnd x pools s.service = .ok (txs.map Except.ok, service') ∧
      txs.map BuiltTransaction.poolPubkey = pools ∧ pools.Nodup ∧
      (∀ pool, pool ∈ pools ↔ ∃ a ∈ s.history.accepted, a.1 = pool) ∧
      (∀ tx ∈ txs, ∀ op, weightIn tx.weights op =
        s.history.accepted.countP fun a => a.1 = tx.poolPubkey ∧ a.2.storageNode = op) ∧
      (txs.map fun tx => totalIn tx.weights).sum = s.service.collector.receiptCount ∧
      service'.collector.poolReceipts = SortedMap.empty ∧ service'.collector.seen = ∅ ∧
      service'.currentEpoch.toNat = s.service.currentEpoch.toNat + 1 ∧
      service'.collector.epochStart.toNat =
        s.service.collector.epochStart.toNat + s.service.config.epochDurationSecs.toNat ∧
      service'.collector.epochEnd.toNat =
        s.service.collector.epochEnd.toNat + s.service.config.epochDurationSecs.toNat := by
  have hcons := Consistent.of_run hrun
  have hnodup : pools.Nodup := hpools.nodup_iff.2 (ReceiptCollector.nodup_pools _)
  have hmem : ∀ pool, pool ∈ pools ↔ ∃ a ∈ s.history.accepted, a.1 = pool := by
    intro pool
    rw [hpools.mem_iff, hcons.holds.pools]
  -- every pool is built into a transaction
  have hne : ∀ pool ∈ pools, s.service.collector.stored pool ≠ [] :=
    fun pool hpool => hcons.holds.stored_ne_nil (hpools.mem_iff.1 hpool)
  have hbuild : ∀ pool ∈ pools, ∃ tx,
      buildDistribution x pool (s.service.collector.stored pool) = .ok (.ok tx) ∧
        tx.poolPubkey = pool ∧ Adds SortedMap.empty (s.service.collector.stored pool) tx.weights :=
    fun pool hpool => buildDistribution_eq_ok x pool (hne pool hpool)
      (hcons.holds.capacity pool) (hcons.holds.provable hstart)
  choose! tx htx hpubkey hadds using hbuild
  -- the epoch advances, and the results are those transactions
  rcases exists_advanceEpoch_eq_ok hcons.aligned.pos hfit with ⟨service', hadv⟩
  rcases advanceEpoch_cases hadv with ⟨-, hepoch, hnextStart, hnextEnd, hempty, hseen⟩
  have hend : processEpochEnd x pools s.service =
      .ok ((pools.map tx).map Except.ok, service') := by
    rw [processEpochEnd_eq hnodup hne htx, hadv, List.map_map]
    rfl
  refine ⟨pools.map tx, service', hend, ?_, hnodup, hmem, ?_, ?_, hempty, hseen, hepoch, ?_, ?_⟩
  · calc (pools.map tx).map BuiltTransaction.poolPubkey
        = pools.map fun pool => (tx pool).poolPubkey := List.map_map
      _ = pools.map id := List.map_congr_left hpubkey
      _ = pools := List.map_id pools
  · intro t ht op
    rcases List.mem_map.1 ht with ⟨pool, hpool, rfl⟩
    rw [Adds.weightIn_eq (hadds pool hpool), hpubkey pool hpool, hcons.holds.stored, countP_ofPool]
  · calc ((pools.map tx).map fun t => totalIn t.weights).sum
        = (pools.map fun pool => totalIn (tx pool).weights).sum := by rw [List.map_map]; rfl
      _ = (pools.map fun pool => (s.service.collector.stored pool).length).sum := by
          rw [List.map_congr_left fun pool hpool => Adds.totalIn_eq (hadds pool hpool)]
      _ = s.service.collector.receiptCount := sum_length_stored hpools
  · rw [hnextStart, hcons.aligned.epochStart, Nat.succ_mul]
  · rw [hnextEnd, hcons.aligned.epochEnd, Nat.succ_mul]

end Runs

/-! ## A run of two receipts -/

def hourService : AggregatorService :=
  { config :=
      { epochDurationSecs := 3600
        gracePeriodSecs := 300
        dataDir := none }
    collector := ReceiptCollector.new 3600 7200 300
    currentEpoch := 1 }

def hourThird : ReceiptCollector :=
  hourFirst.accept (thirdReceipt.dedupHash receiptDigest) somePool thirdReceipt

def hourStart : State FileTree :=
  { service := hourService
    disk := FileTree.empty
    history := History.empty }

def hourRegistered : State FileTree :=
  { hourStart with service := { hourService with collector := hourCollector } }

/-- `hourStart` after a registration and two receipts for different nodes. -/
def hourTwo : State FileTree :=
  (hourRegistered.deliver receiptPackages [firstReceipt] hourFirst FileTree.empty).deliver
    receiptPackages [thirdReceipt] hourThird FileTree.empty

theorem new_hourService :
    AggregatorService.new hourService.config 5000 = .ok hourService := by
  decide +kernel

theorem run_hourRegistered (allowed : State FileTree → Event → Prop)
    (h : allowed hourStart (.registerPool someContent somePool)) :
    Run Started (Next receiptPackages) allowed hourRegistered := by
  have hstart : Run Started (Next receiptPackages) allowed hourStart :=
    Run.start ⟨⟨hourService.config, 5000, new_hourService⟩, rfl⟩
  exact hstart.step h (Next.registerPool hourStart someContent somePool)

theorem run_hourTwo : Run Started (Next receiptPackages) (fun _ _ => True) hourTwo := by
  have hthird : ingest receiptPackages thirdReceipt hourFirst FileTree.empty =
      .ok (.ok (), hourThird, FileTree.empty) := by
    decide +kernel
  have hfirst := (run_hourRegistered (fun _ _ => True) trivial).step trivial
    (Next.ingest ingest_firstReceipt)
  exact hfirst.step trivial (Next.ingest hthird)

theorem hourTwo_conserves :
    ∃ (txs : List BuiltTransaction) (service' : AggregatorService),
      processEpochEnd receiptPackages [somePool] hourTwo.service =
        .ok (txs.map Except.ok, service') ∧
      txs.map BuiltTransaction.poolPubkey = [somePool] ∧ [somePool].Nodup ∧
      (∀ pool, pool ∈ [somePool] ↔ ∃ a ∈ hourTwo.history.accepted, a.1 = pool) ∧
      (∀ tx ∈ txs, ∀ op, weightIn tx.weights op =
        hourTwo.history.accepted.countP fun a => a.1 = tx.poolPubkey ∧ a.2.storageNode = op) ∧
      (txs.map fun tx => totalIn tx.weights).sum = hourTwo.service.collector.receiptCount ∧
      service'.collector.poolReceipts = SortedMap.empty ∧ service'.collector.seen = ∅ ∧
      service'.currentEpoch.toNat = hourTwo.service.currentEpoch.toNat + 1 ∧
      service'.collector.epochStart.toNat =
        hourTwo.service.collector.epochStart.toNat +
          hourTwo.service.config.epochDurationSecs.toNat ∧
      service'.collector.epochEnd.toNat =
        hourTwo.service.collector.epochEnd.toNat +
          hourTwo.service.config.epochDurationSecs.toNat :=
  processEpochEnd_conserves receiptPackages run_hourTwo (by decide +kernel) (by decide +kernel)
    (by decide +kernel)

/-! ## The last epoch -/

/-- Epochs of `2 ^ 62` seconds, in the epoch whose successor ends at `2 ^ 64`. -/
def lastService : AggregatorService :=
  { config :=
      { epochDurationSecs := 0x4000000000000000
        gracePeriodSecs := 300
        dataDir := none }
    collector := ReceiptCollector.new 0x8000000000000000 0xc000000000000000 300
    currentEpoch := 2 }

def penultimateService : AggregatorService :=
  { config := lastService.config
    collector := ReceiptCollector.new 0x4000000000000000 0x8000000000000000 300
    currentEpoch := 1 }

def penultimateStart : State FileTree :=
  { service := penultimateService
    disk := FileTree.empty
    history := History.empty }

/-- With a clock at `2 ^ 62` and no receipts, the second end of an epoch panics: the window it moves
to does not fit. -/
theorem processEpochEnd_overflows :
    ∃ s : State FileTree, Run Started (Next receiptPackages) (fun _ _ => True) s ∧
      0 < s.service.collector.epochStart.toNat ∧
      0 < s.service.config.epochDurationSecs.toNat ∧
      processEpochEnd receiptPackages s.service.collector.pools s.service = .panic .overflow := by
  have hnew : AggregatorService.new lastService.config 0x4000000000000000 =
      .ok penultimateService := by
    decide +kernel
  have hadv : penultimateService.advanceEpoch = .ok lastService := by
    decide +kernel
  have hend : processEpochEnd receiptPackages [] penultimateService = .ok ([], lastService) := by
    simp [processEpochEnd, hadv]
  have hlast : lastService.advanceEpoch = .panic .overflow := by
    decide +kernel
  have hstart : Run Started (Next receiptPackages) (fun _ _ => True) penultimateStart :=
    Run.start ⟨⟨lastService.config, 0x4000000000000000, hnew⟩, rfl⟩
  have hnext : Next receiptPackages penultimateStart (.epochEnd [])
      (penultimateStart.close [] lastService) :=
    Next.epochEnd (List.Perm.refl []) hend
  refine ⟨penultimateStart.close [] lastService, hstart.step trivial hnext, by decide +kernel,
    by decide +kernel, ?_⟩
  have hnone : (penultimateStart.close [] lastService).service.collector.pools = [] := rfl
  rw [hnone]
  simp [processEpochEnd, State.close, hlast]

end Aggregator
end CraftecCore
