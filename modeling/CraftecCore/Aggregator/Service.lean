import CraftecCore.Aggregator.Intake

/-!
# Service — epochs

At the end of an epoch every pool's receipts are drained, built into a batch and posted, and the
window moves on by one epoch.  The pools are taken in the order that a hash map gives them; each is
built from what it held when the epoch ended, whatever was built before it.
-/

namespace CraftecCore
namespace Aggregator

open Settlement FileSystem Prover

/-! ## The source functions -/

structure AggregatorConfig where
  epochDurationSecs : UInt64
  gracePeriodSecs : UInt64
  /-- Data directory for receipt persistence. -/
  dataDir : Option Path
  deriving DecidableEq

structure AggregatorService where
  config : AggregatorConfig
  collector : ReceiptCollector
  currentEpoch : UInt64
  deriving DecidableEq

def alignToEpoch (timestamp epochDuration : UInt64) : Outcome UInt64 := do
  let epoch ← timestamp.checkedDiv epochDuration
  epoch.checkedMul epochDuration

def epochDirName (epoch : UInt64) : String :=
  "epoch_" ++ toString epoch.toNat

def setEpochDir (config : AggregatorConfig) (epoch : UInt64) (c : ReceiptCollector) :
    ReceiptCollector :=
  match config.dataDir with
  | none => c
  | some dir => c.setPersistDir (dir ++ [epochDirName epoch])

namespace AggregatorService

/-- `now` is the current unix timestamp. -/
def new (config : AggregatorConfig) (now : UInt64) : Outcome AggregatorService := do
  let epochStart ← alignToEpoch now config.epochDurationSecs
  let epochEnd ← epochStart.checkedAdd config.epochDurationSecs
  let collector := ReceiptCollector.new epochStart epochEnd config.gracePeriodSecs
  let epoch ← epochStart.checkedDiv config.epochDurationSecs
  pure
    { config := config
      collector := setEpochDir config epoch collector
      currentEpoch := epoch }

def advanceEpoch (s : AggregatorService) : Outcome AggregatorService := do
  let currentEpoch ← s.currentEpoch.checkedAdd 1
  let epochStart ← currentEpoch.checkedMul s.config.epochDurationSecs
  let epochEnd ← epochStart.checkedAdd s.config.epochDurationSecs
  pure
    { config := s.config
      collector := setEpochDir s.config currentEpoch (s.collector.reset epochStart epochEnd)
      currentEpoch := currentEpoch }

end AggregatorService

def buildDistribution (x : Packages) (pool : Bytes 32) (receipts : List StorageReceipt) :
    Outcome (Except AggregatorError BuiltTransaction) := do
  match ← build x pool receipts with
  | .ok batch => pure (.ok (buildPostDistribution x batch))
  | .error err => pure (.error err)

def processPools (x : Packages) : List (Bytes 32) → ReceiptCollector →
    Outcome (List (Except AggregatorError BuiltTransaction) × ReceiptCollector)
  | [], c => pure ([], c)
  | pool :: pools, c =>
      let (receipts, c) := c.takeReceipts pool
      -- `take_receipts` drained the pool, whatever the build returns
      if receipts.isEmpty then
        processPools x pools c
      else do
        let result ← buildDistribution x pool receipts
        let (results, c) ← processPools x pools c
        pure (result :: results, c)

/-- Process the end of an epoch.  `pools` are the keys of the pool map in the order of its
iteration. -/
def processEpochEnd (x : Packages) (pools : List (Bytes 32)) (s : AggregatorService) :
    Outcome (List (Except AggregatorError BuiltTransaction) × AggregatorService) :=
  if pools.isEmpty then do
    let s ← s.advanceEpoch
    pure ([], s)
  else do
    let (results, collector) ← processPools x pools s.collector
    let s ← AggregatorService.advanceEpoch { s with collector := collector }
    pure (results, s)

/-! ## Epochs -/

structure Aligned (s : AggregatorService) : Prop where
  pos : 0 < s.config.epochDurationSecs.toNat
  epochStart : s.collector.epochStart.toNat =
    s.currentEpoch.toNat * s.config.epochDurationSecs.toNat
  epochEnd : s.collector.epochEnd.toNat =
    s.currentEpoch.toNat * s.config.epochDurationSecs.toNat + s.config.epochDurationSecs.toNat

@[simp] theorem setEpochDir_poolReceipts (config : AggregatorConfig) (epoch : UInt64)
    (c : ReceiptCollector) : (setEpochDir config epoch c).poolReceipts = c.poolReceipts := by
  unfold setEpochDir
  cases config.dataDir <;> rfl

@[simp] theorem setEpochDir_seen (config : AggregatorConfig) (epoch : UInt64)
    (c : ReceiptCollector) : (setEpochDir config epoch c).seen = c.seen := by
  unfold setEpochDir
  cases config.dataDir <;> rfl

@[simp] theorem setEpochDir_epochStart (config : AggregatorConfig) (epoch : UInt64)
    (c : ReceiptCollector) : (setEpochDir config epoch c).epochStart = c.epochStart := by
  unfold setEpochDir
  cases config.dataDir <;> rfl

@[simp] theorem setEpochDir_epochEnd (config : AggregatorConfig) (epoch : UInt64)
    (c : ReceiptCollector) : (setEpochDir config epoch c).epochEnd = c.epochEnd := by
  unfold setEpochDir
  cases config.dataDir <;> rfl

@[simp] theorem setEpochDir_cidToPool (config : AggregatorConfig) (epoch : UInt64)
    (c : ReceiptCollector) : (setEpochDir config epoch c).cidToPool = c.cidToPool := by
  unfold setEpochDir
  cases config.dataDir <;> rfl

/-- A new service is aligned and has seen nothing. -/
theorem new_cases {config : AggregatorConfig} {now : UInt64} {s : AggregatorService}
    (h : AggregatorService.new config now = .ok s) :
    Aligned s ∧ s.config = config ∧ s.collector.poolReceipts = SortedMap.empty := by
  simp only [AggregatorService.new, alignToEpoch, Outcome.bind_eq_ok, UInt64.checkedDiv_eq_ok,
    UInt64.checkedMul_eq_ok, UInt64.checkedAdd_eq_ok, Outcome.pure_eq, Outcome.ok.injEq] at h
  rcases h with ⟨epochStart, ⟨quotient, ⟨hpos, -⟩, hmul⟩, epochEnd, hend, epoch, ⟨-, hepoch⟩, rfl⟩
  -- the epoch number is the quotient again
  have hstart : epochStart.toNat = epoch.toNat * config.epochDurationSecs.toNat := by
    rw [← hepoch, ← hmul, Nat.mul_div_cancel _ hpos]
  refine ⟨{ pos := hpos, epochStart := ?_, epochEnd := ?_ }, rfl, ?_⟩
  · simpa [ReceiptCollector.new] using hstart
  · simpa [ReceiptCollector.new, ← hstart] using hend.symm
  · simp [ReceiptCollector.new]

/-- What advancing does. -/
theorem advanceEpoch_cases {s s' : AggregatorService} (h : s.advanceEpoch = .ok s') :
    s'.config = s.config ∧ s'.currentEpoch.toNat = s.currentEpoch.toNat + 1 ∧
      s'.collector.epochStart.toNat =
        (s.currentEpoch.toNat + 1) * s.config.epochDurationSecs.toNat ∧
      s'.collector.epochEnd.toNat =
        (s.currentEpoch.toNat + 1) * s.config.epochDurationSecs.toNat +
          s.config.epochDurationSecs.toNat ∧
      s'.collector.poolReceipts = SortedMap.empty ∧ s'.collector.seen = ∅ := by
  simp only [AggregatorService.advanceEpoch, Outcome.bind_eq_ok, UInt64.checkedMul_eq_ok,
    UInt64.checkedAdd_eq_ok, Outcome.pure_eq, Outcome.ok.injEq] at h
  rcases h with ⟨epoch, hepoch, epochStart, hstart, epochEnd, hend, rfl⟩
  have hone : epoch.toNat = s.currentEpoch.toNat + 1 := hepoch.symm
  rw [hone] at hstart
  exact ⟨rfl, hone, by simpa [ReceiptCollector.reset] using hstart.symm,
    by simpa [ReceiptCollector.reset, hstart] using hend.symm,
    by simp [ReceiptCollector.reset], by simp [ReceiptCollector.reset]⟩

/-- Advancing keeps the registrations. -/
theorem advanceEpoch_cidToPool {s s' : AggregatorService} (h : s.advanceEpoch = .ok s') :
    s'.collector.cidToPool = s.collector.cidToPool := by
  simp only [AggregatorService.advanceEpoch, Outcome.bind_eq_ok, Outcome.pure_eq,
    Outcome.ok.injEq] at h
  rcases h with ⟨epoch, -, epochStart, -, epochEnd, -, rfl⟩
  simp [ReceiptCollector.reset]

/-- Advancing returns when the next window fits. -/
theorem exists_advanceEpoch_eq_ok {s : AggregatorService}
    (hpos : 0 < s.config.epochDurationSecs.toNat)
    (hfit : (s.currentEpoch.toNat + 2) * s.config.epochDurationSecs.toNat < 2 ^ 64) :
    ∃ s', s.advanceEpoch = .ok s' := by
  have hend : (s.currentEpoch.toNat + 1) * s.config.epochDurationSecs.toNat +
      s.config.epochDurationSecs.toNat < 2 ^ 64 := by
    calc (s.currentEpoch.toNat + 1) * s.config.epochDurationSecs.toNat +
          s.config.epochDurationSecs.toNat
        = (s.currentEpoch.toNat + 2) * s.config.epochDurationSecs.toNat := by
          rw [← Nat.succ_mul]
      _ < 2 ^ 64 := hfit
  have hepoch : s.currentEpoch.toNat + 1 < 2 ^ 64 := by
    have hle := Nat.le_mul_of_pos_right (s.currentEpoch.toNat + 1) hpos
    omega
  -- the three checked operations of `advance_epoch`, as numbers
  rcases UInt64.exists_toNat_eq hepoch with ⟨epoch, h₁⟩
  rcases UInt64.exists_toNat_eq (Nat.lt_of_le_of_lt (Nat.le_add_right _ _) hend) with
    ⟨epochStart, h₂⟩
  rcases UInt64.exists_toNat_eq hend with ⟨epochEnd, h₃⟩
  have hadd : s.currentEpoch.checkedAdd 1 = .ok epoch := UInt64.checkedAdd_eq_ok.2 h₁.symm
  have hmul : epoch.checkedMul s.config.epochDurationSecs = .ok epochStart := by
    rw [UInt64.checkedMul_eq_ok, h₁, h₂]
  have hadd' : epochStart.checkedAdd s.config.epochDurationSecs = .ok epochEnd := by
    rw [UInt64.checkedAdd_eq_ok, h₂, h₃]
  exact ⟨_, by simp only [AggregatorService.advanceEpoch, hadd, hmul, hadd', Outcome.ok_bind]; rfl⟩

theorem Aligned.advanceEpoch {s s' : AggregatorService} (h : Aligned s)
    (hadv : s.advanceEpoch = .ok s') : Aligned s' := by
  rcases advanceEpoch_cases hadv with ⟨hconfig, hepoch, hstart, hend, -, -⟩
  refine { pos := ?_, epochStart := ?_, epochEnd := ?_ }
  · rw [hconfig]
    exact h.pos
  · rw [hstart, hepoch, hconfig]
  · rw [hend, hepoch, hconfig]

/-! ## The end of an epoch -/

/-- The pool loop touches nothing but the pool map. -/
theorem processPools_cases {x : Packages} :
    ∀ {pools : List (Bytes 32)} {c c' : ReceiptCollector}
      {results : List (Except AggregatorError BuiltTransaction)},
      processPools x pools c = .ok (results, c') →
        ∃ poolReceipts, c' = { c with poolReceipts := poolReceipts }
  | [], c, c', results, h => by
      simp only [processPools, Outcome.pure_eq, Outcome.ok.injEq, Prod.mk.injEq] at h
      exact ⟨c.poolReceipts, h.2.symm⟩
  | pool :: pools, c, c', results, h => by
      by_cases hempty : (c.takeReceipts pool).1.isEmpty = true
      · have hrun : processPools x pools (c.takeReceipts pool).2 = .ok (results, c') := by
          simpa [processPools, hempty] using h
        rcases processPools_cases hrun with ⟨m, rfl⟩
        exact ⟨m, rfl⟩
      · simp only [processPools, if_neg hempty, Outcome.bind_eq_ok] at h
        rcases h with ⟨result, -, ⟨results', c₁⟩, hrun, heq⟩
        simp only [Outcome.pure_eq, Outcome.ok.injEq, Prod.mk.injEq] at heq
        rcases heq with ⟨-, rfl⟩
        rcases processPools_cases hrun with ⟨m, rfl⟩
        exact ⟨m, rfl⟩

/-- Inversion: a returning epoch end ran the pool loop and advanced the epoch; the drained pool map
does not matter for the second. -/
theorem processEpochEnd_run {x : Packages} {pools : List (Bytes 32)} {s s' : AggregatorService}
    {results : List (Except AggregatorError BuiltTransaction)}
    (h : processEpochEnd x pools s = .ok (results, s')) :
    (∃ c, processPools x pools s.collector = .ok (results, c)) ∧ s.advanceEpoch = .ok s' := by
  unfold processEpochEnd at h
  cases pools with
  | nil =>
      simp only [List.isEmpty_nil, if_true, Outcome.bind_eq_ok, Outcome.pure_eq, Outcome.ok.injEq,
        Prod.mk.injEq] at h
      rcases h with ⟨s₁, hadv, rfl, rfl⟩
      exact ⟨⟨s.collector, rfl⟩, hadv⟩
  | cons pool pools =>
      simp only [List.isEmpty_cons, Bool.false_eq_true, if_false, Outcome.bind_eq_ok] at h
      rcases h with ⟨⟨results', c⟩, hpools, s₁, hadv, heq⟩
      simp only [Outcome.pure_eq, Outcome.ok.injEq, Prod.mk.injEq] at heq
      rcases heq with ⟨rfl, rfl⟩
      refine ⟨⟨c, hpools⟩, ?_⟩
      -- the loop changed the pool map only, and advancing resets it
      rcases processPools_cases hpools with ⟨m, rfl⟩
      exact hadv

/-- A returning epoch end advances the epoch. -/
theorem processEpochEnd_cases {x : Packages} {pools : List (Bytes 32)} {s s' : AggregatorService}
    {results : List (Except AggregatorError BuiltTransaction)}
    (h : processEpochEnd x pools s = .ok (results, s')) : s.advanceEpoch = .ok s' :=
  (processEpochEnd_run h).2

theorem stored_takeReceipts_of_ne (c : ReceiptCollector) {pool pool' : Bytes 32}
    (h : pool' ≠ pool) : (c.takeReceipts pool).2.stored pool' = c.stored pool' := by
  simp [ReceiptCollector.takeReceipts, ReceiptCollector.stored, SortedMap.get?_erase, h]

/-- Draining a pool leaves every pool of a list that does not name it. -/
theorem stored_takeReceipts_of_notMem (c : ReceiptCollector) {pool : Bytes 32}
    {pools : List (Bytes 32)} (hnot : pool ∉ pools) :
    ∀ other ∈ pools, (c.takeReceipts pool).2.stored other = c.stored other := by
  intro other hmem
  have hother : other ≠ pool := fun heq => hnot (heq ▸ hmem)
  exact stored_takeReceipts_of_ne c hother

/-- The pools that follow still have their receipts. -/
theorem stored_takeReceipts_ne_nil {c : ReceiptCollector} {pool : Bytes 32}
    {pools : List (Bytes 32)} (hnot : pool ∉ pools)
    (hne : ∀ other ∈ pool :: pools, c.stored other ≠ []) :
    ∀ other ∈ pools, (c.takeReceipts pool).2.stored other ≠ [] := by
  intro other hmem
  rw [stored_takeReceipts_of_notMem c hnot other hmem]
  exact hne other (List.mem_cons_of_mem pool hmem)

/-- On pools that all have receipts and all build, the loop returns their results in order. -/
theorem processPools_eq_ok {x : Packages}
    {result : Bytes 32 → Except AggregatorError BuiltTransaction} :
    ∀ {pools : List (Bytes 32)} {c : ReceiptCollector}, pools.Nodup →
      (∀ pool ∈ pools, c.stored pool ≠ []) →
      (∀ pool ∈ pools, buildDistribution x pool (c.stored pool) = .ok (result pool)) →
        ∃ c', processPools x pools c = .ok (pools.map result, c')
  | [], c, _, _, _ => ⟨c, rfl⟩
  | pool :: pools, c, hnodup, hne, hbuild => by
      rcases List.nodup_cons.1 hnodup with ⟨hnot, hnodup⟩
      have hkeep := stored_takeReceipts_of_notMem c hnot
      have hne' := stored_takeReceipts_ne_nil hnot hne
      have hbuild' : ∀ other ∈ pools,
          buildDistribution x other ((c.takeReceipts pool).2.stored other) =
            .ok (result other) := by
        intro other hmem
        rw [hkeep other hmem]
        exact hbuild other (List.mem_cons_of_mem pool hmem)
      rcases processPools_eq_ok hnodup hne' hbuild' with ⟨c', hrest⟩
      have hfirst : buildDistribution x pool (c.takeReceipts pool).1 = .ok (result pool) :=
        hbuild pool List.mem_cons_self
      have hsome : (c.takeReceipts pool).1.isEmpty = false :=
        List.isEmpty_eq_false_iff.2 (hne pool List.mem_cons_self)
      exact ⟨c', by simp [processPools, hsome, hfirst, hrest]⟩

/-- The results of a returning loop are those of building each pool from what it held before. -/
theorem forall₂_of_processPools {x : Packages} :
    ∀ {pools : List (Bytes 32)} {c c' : ReceiptCollector}
      {results : List (Except AggregatorError BuiltTransaction)}, pools.Nodup →
      (∀ pool ∈ pools, c.stored pool ≠ []) → processPools x pools c = .ok (results, c') →
        List.Forall₂ (fun pool result => buildDistribution x pool (c.stored pool) = .ok result)
          pools results
  | [], c, c', results, _, _, h => by
      simp only [processPools, Outcome.pure_eq, Outcome.ok.injEq, Prod.mk.injEq] at h
      rw [← h.1]
      exact List.Forall₂.nil
  | pool :: pools, c, c', results, hnodup, hne, h => by
      rcases List.nodup_cons.1 hnodup with ⟨hnot, hnodup⟩
      have hkeep := stored_takeReceipts_of_notMem c hnot
      have hne' := stored_takeReceipts_ne_nil hnot hne
      have hsome : ¬ (c.takeReceipts pool).1.isEmpty = true := by
        rw [List.isEmpty_iff]
        exact hne pool List.mem_cons_self
      simp only [processPools, if_neg hsome, Outcome.bind_eq_ok] at h
      rcases h with ⟨result, hfirst, ⟨results', c₁⟩, hrun, heq⟩
      simp only [Outcome.pure_eq, Outcome.ok.injEq, Prod.mk.injEq] at heq
      rcases heq with ⟨rfl, -⟩
      have hrest := forall₂_of_processPools hnodup hne' hrun
      have hboth : List.Forall₂ (fun other result => other ∈ pools ∧
          buildDistribution x other ((c.takeReceipts pool).2.stored other) = .ok result)
          pools results' :=
        (List.forall₂_and_left _ _).2 ⟨fun _ hmem => hmem, hrest⟩
      -- the pools that follow were built from what they held at the start
      refine List.Forall₂.cons hfirst (List.Forall₂.imp ?_ hboth)
      rintro other result ⟨hmem, hbuild⟩
      rw [← hkeep other hmem]
      exact hbuild

/-- The results of a returning epoch end are those of building each pool that has receipts. -/
theorem forall₂_of_processEpochEnd {x : Packages} {pools : List (Bytes 32)}
    {s s' : AggregatorService} {results : List (Except AggregatorError BuiltTransaction)}
    (hnodup : pools.Nodup) (hne : ∀ pool ∈ pools, s.collector.stored pool ≠ [])
    (h : processEpochEnd x pools s = .ok (results, s')) :
    List.Forall₂
      (fun pool result => buildDistribution x pool (s.collector.stored pool) = .ok result)
      pools results := by
  rcases processEpochEnd_run h with ⟨⟨c, hrun⟩, -⟩
  exact forall₂_of_processPools hnodup hne hrun

/-- On such pools an epoch end returns their results, and advances. -/
theorem processEpochEnd_eq {x : Packages}
    {result : Bytes 32 → Except AggregatorError BuiltTransaction} {pools : List (Bytes 32)}
    {s : AggregatorService} (hnodup : pools.Nodup)
    (hne : ∀ pool ∈ pools, s.collector.stored pool ≠ [])
    (hbuild : ∀ pool ∈ pools,
      buildDistribution x pool (s.collector.stored pool) = .ok (result pool)) :
    processEpochEnd x pools s = (do
      let s' ← s.advanceEpoch
      pure (pools.map result, s')) := by
  unfold processEpochEnd
  cases pools with
  | nil => simp
  | cons pool pools =>
      rcases processPools_eq_ok hnodup hne hbuild with ⟨c', hrun⟩
      rcases processPools_cases hrun with ⟨m, rfl⟩
      -- resetting the collector forgets the pool map
      have hreset : AggregatorService.advanceEpoch
          { s with collector := { s.collector with poolReceipts := m } } = s.advanceEpoch := rfl
      simp [hrun, hreset]

/-- With receipts for a single pool, an epoch end posts its batch. -/
theorem processEpochEnd_single {x : Packages} {pool : Bytes 32} {s s' : AggregatorService}
    {batch : PoolBatch} (hne : s.collector.stored pool ≠ [])
    (hbatch : build x pool (s.collector.stored pool) = .ok (.ok batch))
    (hadv : s.advanceEpoch = .ok s') :
    processEpochEnd x [pool] s = .ok ([.ok (buildPostDistribution x batch)], s') := by
  have hbuild : ∀ other ∈ [pool], buildDistribution x other (s.collector.stored other) =
      .ok ((fun _ => .ok (buildPostDistribution x batch)) other) := by
    intro other hother
    rw [List.mem_singleton.1 hother]
    simp [buildDistribution, hbatch]
  have hsome : ∀ other ∈ [pool], s.collector.stored other ≠ [] := by
    intro other hother
    rw [List.mem_singleton.1 hother]
    exact hne
  rw [processEpochEnd_eq (List.nodup_singleton pool) hsome hbuild, hadv]
  rfl

end Aggregator
end CraftecCore
