import CraftecCore.Aggregator.Accounting

/-!
# Loop — the epoch loop over a receipt channel

`run_with_channel` waits for the end of the epoch and drains the channel every ten seconds, sleeps
through the grace period, drains once more, ends the epoch and submits what that returned.  A sleep,
the reception of one message and a submission are steps of their own: between any two of them time
may pass and messages may arrive.  The log of a run records what the loop did with each receipt.
-/

namespace CraftecCore
namespace Aggregator

open Settlement FileSystem Prover Transition

/-! ## The loop of the source -/

/-- Why the channel is drained: a poll, with so many seconds left to wait, or the end of the grace
period. -/
inductive Drain
  | poll (remaining : ℕ)
  | final

inductive Phase
  | turn
  | sleeping (wakeAt : ℕ) (drain : Drain)
  | draining (drain : Drain)
  | submitting (results : List (Except AggregatorError BuiltTransaction))

/-- Seconds to wait for the end of the epoch; none once it is over. -/
def waitSecs (s : AggregatorService) (now : ℕ) : Outcome ℕ := do
  let epoch ← s.currentEpoch.checkedAdd 1
  let epochEnd ← epoch.checkedMul s.config.epochDurationSecs
  if now < epochEnd.toNat then
    pure (epochEnd.toNat - now)
  else
    pure 0

def pollInterval : ℕ := 10

/-- The next sleep: up to a poll while there is time to wait, then the grace period. -/
def nextSleep (gracePeriodSecs : UInt64) (remaining : ℕ) : ℕ × Drain :=
  if 0 < remaining then
    let sleepDur := min remaining pollInterval
    (sleepDur, .poll (remaining - sleepDur))
  else
    (gracePeriodSecs.toNat, .final)

structure SubmitResult where
  signature : String
  confirmed : Bool

/-! ## Runs of the loop -/

/-- What became of the receipts that were taken from a pool. -/
inductive Fate
  /-- The submitter answered `Ok`. -/
  | posted (tx : BuiltTransaction)
  /-- The submitter answered `Err`, which is logged. -/
  | refused (tx : BuiltTransaction)
  /-- No distribution was built, which is logged. -/
  | unbuilt (err : AggregatorError)

def Fate.result : Fate → Except AggregatorError BuiltTransaction
  | .posted tx => .ok tx
  | .refused tx => .ok tx
  | .unbuilt err => .error err

structure LoopLog where
  /-- Messages that entered the channel, with the epoch of the next final drain. -/
  enqueued : List (ℕ × List UInt8)
  /-- Positions of the messages whose dedup hash had been seen when they were received. -/
  duplicates : List ℕ
  /-- Receipts held at the start or accepted since, with their pools. -/
  accepted : List (Bytes 32 × StorageReceipt)
  /-- Pools with the receipts taken from them at the ends of epochs. -/
  taken : List (Bytes 32 × List StorageReceipt)
  /-- Those of `taken` whose result the loop has not come to. -/
  waiting : List (Bytes 32 × List StorageReceipt)
  settled : List ((Bytes 32 × List StorageReceipt) × Fate)

/-- A state of the loop; the clock counts nanoseconds since the Unix epoch. -/
structure LoopState (D : Type) where
  base : State D
  clock : ℕ
  queue : List (List UInt8)
  phase : Phase
  log : LoopLog

namespace LoopState

variable {D : Type}

/-- `current_timestamp`. -/
def seconds (s : LoopState D) : ℕ :=
  s.clock / 10 ^ 9

def currentEpoch (s : LoopState D) : ℕ :=
  s.base.service.currentEpoch.toNat

/-- The epoch whose final drain is the next to begin. -/
def dueEpoch (s : LoopState D) : ℕ :=
  match s.phase with
  | .draining .final => s.currentEpoch + 1
  | _ => s.currentEpoch

def enqueue (s : LoopState D) (data : List UInt8) : LoopState D :=
  { s with
    queue := s.queue ++ [data]
    log := { s.log with enqueued := s.log.enqueued ++ [(s.dueEpoch, data)] } }

def sleep (s : LoopState D) (remaining : ℕ) : LoopState D :=
  let (secs, drain) := nextSleep s.base.service.config.gracePeriodSecs remaining
  { s with phase := .sleeping (s.clock + secs * 10 ^ 9) drain }

def Seen (x : Packages) (s : LoopState D) (data : List UInt8) : Prop :=
  ∃ r ∈ decoded x [data], r.dedupHash x.sha256 ∈ s.base.service.collector.seen

instance (x : Packages) (s : LoopState D) (data : List UInt8) : Decidable (s.Seen x data) :=
  inferInstanceAs (Decidable (∃ r ∈ decoded x [data], _ ∈ _))

def received (s : LoopState D) : ℕ :=
  s.log.enqueued.length - s.queue.length

def receive [FileSystem D] (x : Packages) (s : LoopState D) (data : List UInt8)
    (queue : List (List UInt8)) (c' : ReceiptCollector) (disk' : D) : LoopState D :=
  { s with
    base := s.base.deliver x (decoded x [data]) c' disk'
    queue := queue
    log :=
      { s.log with
        duplicates :=
          if s.Seen x data then s.log.duplicates ++ [s.received] else s.log.duplicates
        accepted := s.log.accepted ++
          acceptedBy x (decoded x [data]) s.base.service.collector s.base.disk } }

def close (s : LoopState D) (pools : List (Bytes 32))
    (results : List (Except AggregatorError BuiltTransaction)) (service' : AggregatorService) :
    LoopState D :=
  let batches := pools.map fun pool => (pool, s.base.service.collector.stored pool)
  { s with
    base := s.base.close pools service'
    phase := .submitting results
    log :=
      { s.log with
        taken := s.log.taken ++ batches
        waiting := batches } }

/-- The state after the loop dealt with the first of the remaining results. -/
def settle (s : LoopState D) (results : List (Except AggregatorError BuiltTransaction))
    (fate : Fate) : LoopState D :=
  { s with
    phase := .submitting results
    log :=
      { s.log with
        waiting := s.log.waiting.tail
        settled := s.log.settled ++ (s.log.waiting.take 1).map fun batch => (batch, fate) } }

end LoopState

inductive LoopEvent
  | enqueue (data : List UInt8)
  | tick (nanos : ℕ)
  | turn
  | wake
  | receive
  | sleepAgain
  | epochEnd (pools : List (Bytes 32))
  | submit (answer : Except AggregatorError SubmitResult)
  | batchFailed
  | again

section Runs

variable {D : Type} [FileSystem D]

/-- The loop is entered with a service in any state that calls have brought it to. -/
def LoopStarted (x : Packages) (s : LoopState D) : Prop :=
  Run Started (Next x) (fun _ _ => True) s.base ∧ s.queue = [] ∧ s.phase = .turn ∧
    s.log =
      { enqueued := []
        duplicates := []
        accepted := s.base.history.accepted
        taken := []
        waiting := []
        settled := [] }

/-- One step.  Claims, which `submit_claims` switches on, are only logged and left out. -/
inductive LoopNext (x : Packages) : LoopState D → LoopEvent → LoopState D → Prop
  | enqueue (s : LoopState D) (data : List UInt8) : LoopNext x s (.enqueue data) (s.enqueue data)
  | tick (s : LoopState D) (nanos : ℕ) :
      LoopNext x s (.tick nanos) { s with clock := s.clock + nanos }
  | turn {s : LoopState D} {remaining : ℕ} :
      s.phase = .turn → waitSecs s.base.service s.seconds = .ok remaining →
        LoopNext x s .turn (s.sleep remaining)
  | wake {s : LoopState D} {wakeAt : ℕ} {drain : Drain} :
      s.phase = .sleeping wakeAt drain → wakeAt ≤ s.clock →
        LoopNext x s .wake { s with phase := .draining drain }
  | receive {s : LoopState D} {drain : Drain} {data : List UInt8} {queue : List (List UInt8)}
      {result : Except AggregatorError Unit} {c' : ReceiptCollector} {disk' : D} :
      s.phase = .draining drain → s.queue = data :: queue →
        processReceiptMessage x data s.base.service.collector s.base.disk =
          .ok (result, c', disk') →
        LoopNext x s .receive (s.receive x data queue c' disk')
  | sleepAgain {s : LoopState D} {remaining : ℕ} :
      s.phase = .draining (.poll remaining) → s.queue = [] →
        LoopNext x s .sleepAgain (s.sleep remaining)
  | epochEnd {s : LoopState D} {pools : List (Bytes 32)}
      {results : List (Except AggregatorError BuiltTransaction)} {service' : AggregatorService} :
      s.phase = .draining .final → s.queue = [] →
        pools.Perm s.base.service.collector.pools →
        processEpochEnd x pools s.base.service = .ok (results, service') →
        LoopNext x s (.epochEnd pools) (s.close pools results service')
  | submitted {s : LoopState D} {tx : BuiltTransaction}
      {results : List (Except AggregatorError BuiltTransaction)} (answer : SubmitResult) :
      s.phase = .submitting (.ok tx :: results) →
        LoopNext x s (.submit (.ok answer)) (s.settle results (.posted tx))
  | refused {s : LoopState D} {tx : BuiltTransaction}
      {results : List (Except AggregatorError BuiltTransaction)} (err : AggregatorError) :
      s.phase = .submitting (.ok tx :: results) →
        LoopNext x s (.submit (.error err)) (s.settle results (.refused tx))
  | batchFailed {s : LoopState D} {err : AggregatorError}
      {results : List (Except AggregatorError BuiltTransaction)} :
      s.phase = .submitting (.error err :: results) →
        LoopNext x s .batchFailed (s.settle results (.unbuilt err))
  | again {s : LoopState D} :
      s.phase = .submitting [] → LoopNext x s .again { s with phase := .turn }

def Phase.results : Phase → List (Except AggregatorError BuiltTransaction)
  | .submitting results => results
  | _ => []

/-- A step lets a message into the channel, touches neither channel nor service nor results,
receives a message, ends an epoch, or deals with one result. -/
theorem loopNext_cases {x : Packages} {s s' : LoopState D} {e : LoopEvent}
    (h : LoopNext x s e s') :
    (∃ data, s' = s.enqueue data) ∨
    (s'.base = s.base ∧ s'.queue = s.queue ∧ s'.log = s.log ∧
      s'.phase.results = s.phase.results) ∨
    (∃ data queue accepted c' disk', e = .receive ∧ s.phase.results = [] ∧
      s.queue = data :: queue ∧
      ingestAll x (decoded x [data]) s.base.service.collector s.base.disk =
        .ok (accepted, c', disk') ∧ s' = s.receive x data queue c' disk') ∨
    (∃ pools results service', e = .epochEnd pools ∧ s.phase.results = [] ∧ s.queue = [] ∧
      pools.Perm s.base.service.collector.pools ∧
      processEpochEnd x pools s.base.service = .ok (results, service') ∧
      s' = s.close pools results service') ∨
    ∃ results fate, s.phase = .submitting (fate.result :: results) ∧
      s' = s.settle results fate := by
  have hsleep : ∀ remaining, (s.sleep remaining).base = s.base ∧
      (s.sleep remaining).queue = s.queue ∧ (s.sleep remaining).log = s.log ∧
      (s.sleep remaining).phase.results = [] := fun _ => ⟨rfl, rfl, rfl, rfl⟩
  cases h with
  | enqueue data => exact Or.inl ⟨data, rfl⟩
  | tick nanos => exact Or.inr (Or.inl ⟨rfl, rfl, rfl, rfl⟩)
  | turn hphase hwait =>
      rcases hsleep _ with ⟨hbase, hqueue, hlog, hresults⟩
      exact Or.inr (Or.inl ⟨hbase, hqueue, hlog, by rw [hresults, hphase]; rfl⟩)
  | wake hphase htime => exact Or.inr (Or.inl ⟨rfl, rfl, rfl, by rw [hphase]; rfl⟩)
  | receive hphase hqueue hrun =>
      have hresults : s.phase.results = [] := by rw [hphase]; rfl
      rcases ingestAll_message hrun with ⟨accepted, hall⟩
      exact Or.inr (Or.inr (Or.inl
        ⟨_, _, accepted, _, _, rfl, hresults, hqueue, hall, rfl⟩))
  | sleepAgain hphase hqueue =>
      rcases hsleep _ with ⟨hbase, hqueue', hlog, hresults⟩
      exact Or.inr (Or.inl ⟨hbase, hqueue', hlog, by rw [hresults, hphase]; rfl⟩)
  | epochEnd hphase hqueue hperm hrun =>
      have hresults : s.phase.results = [] := by rw [hphase]; rfl
      exact Or.inr (Or.inr (Or.inr (Or.inl
        ⟨_, _, _, rfl, hresults, hqueue, hperm, hrun, rfl⟩)))
  | submitted answer hphase =>
      exact Or.inr (Or.inr (Or.inr (Or.inr ⟨_, .posted _, hphase, rfl⟩)))
  | refused err hphase =>
      exact Or.inr (Or.inr (Or.inr (Or.inr ⟨_, .refused _, hphase, rfl⟩)))
  | batchFailed hphase =>
      exact Or.inr (Or.inr (Or.inr (Or.inr ⟨_, .unbuilt _, hphase, rfl⟩)))
  | again hphase => exact Or.inr (Or.inl ⟨rfl, rfl, rfl, by rw [hphase]; rfl⟩)

/-! ## Every receipt is accounted for -/

/-- The log agrees with the service and with the results still to come. -/
structure Tallied (x : Packages) (s : LoopState D) : Prop where
  consistent : Consistent x s.base
  pending : List.Forall₂
    (fun batch result => buildDistribution x batch.1 batch.2 = .ok result)
    s.log.waiting s.phase.results
  taken : s.log.taken = s.log.settled.map Prod.fst ++ s.log.waiting
  settled : ∀ entry ∈ s.log.settled,
    buildDistribution x entry.1.1 entry.1.2 = .ok entry.2.result
  batches : ∀ batch ∈ s.log.taken, batch.2 ≠ [] ∧ batch.2.length ≤ isizeMax ∧
    ∀ r ∈ batch.2, r.storageNode ≠ Bytes.zero 32
  accepted : ∀ a ∈ s.log.accepted, a ∈ s.base.history.accepted ∨
    ∃ receipts, (a.1, receipts) ∈ s.log.taken ∧ a.2 ∈ receipts

theorem Tallied.start {x : Packages} {s : LoopState D} (h : LoopStarted x s) :
    Tallied x s := by
  rcases h with ⟨hrun, -, hphase, hlog⟩
  exact
    { consistent := Consistent.of_run hrun
      pending := by
        rw [hlog, hphase]
        exact List.Forall₂.nil
      taken := by simp [hlog]
      settled := by simp [hlog]
      batches := by simp [hlog]
      accepted := by
        rw [hlog]
        exact fun a ha => Or.inl ha }

/-- Receiving a message adds what it accepted. -/
theorem Tallied.receive {x : Packages} {s : LoopState D} (h : Tallied x s)
    {data : List UInt8} {queue : List (List UInt8)} {accepted : List (Bytes 32 × StorageReceipt)}
    {c' : ReceiptCollector} {disk' : D}
    (hrun : ingestAll x (decoded x [data]) s.base.service.collector s.base.disk =
      .ok (accepted, c', disk')) :
    Tallied x (s.receive x data queue c' disk') where
  consistent := h.consistent.deliver hrun
  pending := h.pending
  taken := h.taken
  settled := h.settled
  batches := h.batches
  accepted := by
    intro a ha
    rcases List.mem_append.1 ha with ha | ha
    · rcases h.accepted a ha with hold | htaken
      · exact Or.inl (List.mem_append_left _ hold)
      · exact Or.inr htaken
    · exact Or.inl (List.mem_append_right _ ha)

omit [FileSystem D] in
/-- The end of an epoch takes every receipt that the collector holds. -/
theorem Tallied.close {x : Packages} {s : LoopState D} (h : Tallied x s)
    {pools : List (Bytes 32)} {results : List (Except AggregatorError BuiltTransaction)}
    {service' : AggregatorService} (hresults : s.phase.results = [])
    (hperm : pools.Perm s.base.service.collector.pools)
    (hrun : processEpochEnd x pools s.base.service = .ok (results, service')) :
    Tallied x (s.close pools results service') where
  consistent := h.consistent.close (processEpochEnd_cases hrun)
  pending := h.consistent.close_results hperm hrun
  taken := by
    -- nothing was waiting: the loop was draining
    have hpending := h.pending
    rw [hresults, List.forall₂_nil_right_iff] at hpending
    have htaken := h.taken
    rw [hpending, List.append_nil] at htaken
    simp only [LoopState.close, htaken]
  settled := h.settled
  batches := by
    intro batch hbatch
    rcases List.mem_append.1 hbatch with hbatch | hbatch
    · exact h.batches batch hbatch
    · rcases List.mem_map.1 hbatch with ⟨pool, hpool, rfl⟩
      exact ⟨h.consistent.holds.stored_ne_nil (hperm.mem_iff.1 hpool),
        h.consistent.holds.capacity pool, h.consistent.holds.storageNode_stored pool⟩
  accepted := by
    intro a ha
    refine Or.inr ?_
    rcases h.accepted a ha with hheld | ⟨receipts, htaken, hmem⟩
    · exact ⟨_, List.mem_append_right _ (h.consistent.holds.mem_batches hperm hheld),
        h.consistent.holds.mem_stored.2 hheld⟩
    · exact ⟨receipts, List.mem_append_left _ htaken, hmem⟩

omit [FileSystem D] in
/-- Dealing with a result settles the first batch that was waiting. -/
theorem Tallied.settle {x : Packages} {s : LoopState D} (h : Tallied x s)
    {results : List (Except AggregatorError BuiltTransaction)} {fate : Fate}
    (hphase : s.phase = .submitting (fate.result :: results)) :
    Tallied x (s.settle results fate) := by
  have hpending := h.pending
  rw [hphase] at hpending
  rcases List.forall₂_cons_right_iff.1 hpending with ⟨batch, waiting, hbuild, hrest, hwaiting⟩
  exact
    { consistent := h.consistent
      pending := by
        simp only [LoopState.settle, hwaiting, List.tail_cons]
        exact hrest
      taken := by
        simp only [LoopState.settle, hwaiting]
        simp [h.taken, hwaiting]
      settled := by
        intro entry hentry
        simp only [LoopState.settle, hwaiting, List.take_succ_cons, List.take_zero, List.map_cons,
          List.map_nil, List.mem_append, List.mem_singleton] at hentry
        rcases hentry with hold | rfl
        · exact h.settled entry hold
        · exact hbuild
      batches := h.batches
      accepted := h.accepted }

theorem Tallied.next {x : Packages} {s s' : LoopState D} {e : LoopEvent} (h : Tallied x s)
    (hnext : LoopNext x s e s') : Tallied x s' := by
  rcases loopNext_cases hnext with
    ⟨data, rfl⟩ | ⟨hbase, -, hlog, hresults⟩ |
      ⟨data, queue, accepted, c', disk', -, -, -, hrun, rfl⟩ |
      ⟨pools, results, service', -, hresults, -, hperm, hrun, rfl⟩ | ⟨results, fate, hphase, rfl⟩
  · exact
      { consistent := h.consistent
        pending := h.pending
        taken := h.taken
        settled := h.settled
        batches := h.batches
        accepted := h.accepted }
  · exact
      { consistent := hbase ▸ h.consistent
        pending := by
          rw [hlog, hresults]
          exact h.pending
        taken := hlog ▸ h.taken
        settled := hlog ▸ h.settled
        batches := hlog ▸ h.batches
        accepted := by
          rw [hlog, hbase]
          exact h.accepted }
  · exact h.receive hrun
  · exact h.close hresults hperm hrun
  · exact h.settle hphase

theorem Tallied.of_run {x : Packages} {allowed : LoopState D → LoopEvent → Prop}
    {s : LoopState D} (h : Run (LoopStarted x) (LoopNext x) allowed s) : Tallied x s :=
  h.invariant (fun _ hs => Tallied.start hs) fun _ _ _ hs _ hnext => hs.next hnext

/-- The transaction pays each operator of a pool one unit for each receipt. -/
def Pays (tx : BuiltTransaction) (pool : Bytes 32) (receipts : List StorageReceipt) : Prop :=
  tx.poolPubkey = pool ∧
    ∀ op, weightIn tx.weights op = receipts.countP fun r => r.storageNode = op

theorem pays_of_buildDistribution {x : Packages} {pool : Bytes 32}
    {receipts : List StorageReceipt} {tx : BuiltTransaction}
    (h : buildDistribution x pool receipts = .ok (.ok tx)) : Pays tx pool receipts := by
  simp only [buildDistribution, Outcome.bind_eq_ok] at h
  rcases h with ⟨result, hbuild, htx⟩
  cases result with
  | error err => simp at htx
  | ok batch =>
      rcases build_cases hbuild with ⟨hrun, hpool, -, -⟩
      have htx' : buildPostDistribution x batch = tx := by simpa using htx
      rw [← htx']
      exact ⟨hpool, Adds.weightIn_eq (foldlM_addWeight_adds hrun)⟩

/-- A batch only fails on a receipt from the very second of the Unix epoch. -/
theorem exists_zero_timestamp {x : Packages} {pool : Bytes 32} {receipts : List StorageReceipt}
    {err : AggregatorError} (hne : receipts ≠ []) (hlen : receipts.length ≤ isizeMax)
    (hnode : ∀ r ∈ receipts, r.storageNode ≠ Bytes.zero 32)
    (h : buildDistribution x pool receipts = .ok (.error err)) :
    ∃ r ∈ receipts, r.timestamp = 0 := by
  by_contra hnone
  have hall : ∀ r ∈ receipts, Provable r := by
    intro r hr
    exact ⟨by simp [ContributionReceipt.weight], fun hzero => hnone ⟨r, hr, hzero⟩, hnode r hr⟩
  rcases buildDistribution_eq_ok x pool hne hlen hall with ⟨tx, htx, -, -⟩
  rw [htx] at h
  simp at h

/-- Every receipt that the collector accepted is held by the collector, waits for the loop to come
to its distribution, or its batch is settled: posted, refused by the submitter, or not built because
a receipt of the batch has timestamp zero.  No batch is settled twice. -/
theorem accepted_accounted (x : Packages) {s : LoopState D}
    (hrun : Run (LoopStarted x) (LoopNext x) (fun _ _ => True) s) :
    s.log.taken = s.log.settled.map Prod.fst ++ s.log.waiting ∧
      ∀ a ∈ s.log.accepted,
        a.2 ∈ s.base.service.collector.stored a.1 ∨
        (∃ receipts, (a.1, receipts) ∈ s.log.waiting ∧ a.2 ∈ receipts) ∨
        ∃ receipts fate, ((a.1, receipts), fate) ∈ s.log.settled ∧ a.2 ∈ receipts ∧
          match fate with
          | .posted tx => Pays tx a.1 receipts
          | .refused tx => Pays tx a.1 receipts
          | .unbuilt _ => ∃ r ∈ receipts, r.timestamp = 0 := by
  have h := Tallied.of_run hrun
  refine ⟨h.taken, ?_⟩
  intro a ha
  rcases h.accepted a ha with hheld | ⟨receipts, htaken, hmem⟩
  · exact Or.inl (h.consistent.holds.mem_stored.2 hheld)
  · rw [h.taken] at htaken
    rcases List.mem_append.1 htaken with hsettled | hwaiting
    · rcases List.mem_map.1 hsettled with ⟨⟨batch, fate⟩, hentry, rfl⟩
      refine Or.inr (Or.inr ⟨receipts, fate, hentry, hmem, ?_⟩)
      have hbuild := h.settled _ hentry
      have hbatch := h.batches (a.1, receipts)
        (by rw [h.taken]; exact List.mem_append_left _ hsettled)
      cases fate with
      | posted tx => exact pays_of_buildDistribution hbuild
      | refused tx => exact pays_of_buildDistribution hbuild
      | unbuilt err => exact exists_zero_timestamp hbatch.1 hbatch.2.1 hbatch.2.2 hbuild
    · exact Or.inr (Or.inl ⟨receipts, hwaiting, hmem⟩)

end Runs

/-! ## A loop of ten-second epochs -/

/-- A service in the given epoch of ten seconds, with a grace period of five and one content id
registered. -/
def shortService (epoch : UInt64) : AggregatorService :=
  { config :=
      { epochDurationSecs := 10
        gracePeriodSecs := 5
        dataDir := none }
    collector :=
      (ReceiptCollector.new (epoch * 10) (epoch * 10 + 10) 5).registerPool someContent somePool
    currentEpoch := epoch }

def shortStart (epoch : UInt64) (now : ℕ) : LoopState FileTree :=
  { base :=
      { service := shortService epoch
        disk := FileTree.empty
        history := History.empty }
    clock := now * 10 ^ 9
    queue := []
    phase := .turn
    log :=
      { enqueued := []
        duplicates := []
        accepted := []
        taken := []
        waiting := []
        settled := [] } }

theorem run_shortStart (allowed : LoopState FileTree → LoopEvent → Prop) (epoch now : UInt64)
    (hnew : AggregatorService.new (shortService epoch).config now =
      .ok { shortService epoch with
        collector := ReceiptCollector.new (epoch * 10) (epoch * 10 + 10) 5 }) :
    Run (LoopStarted receiptPackages) (LoopNext receiptPackages) allowed
      (shortStart epoch now.toNat) := by
  have hstart : Run Started (Next receiptPackages) (fun _ _ => True)
      { service :=
          { shortService epoch with
            collector := ReceiptCollector.new (epoch * 10) (epoch * 10 + 10) 5 }
        disk := FileTree.empty
        history := History.empty } :=
    Run.start ⟨⟨_, now, hnew⟩, rfl⟩
  exact Run.start ⟨hstart.step trivial (Next.registerPool _ someContent somePool), rfl, rfl, rfl⟩

def shortLate (epoch : UInt64) : ReceiptCollector :=
  (shortService epoch).collector.accept (lateReceipt.dedupHash receiptDigest) somePool lateReceipt

/-- Entered at 7203, the loop polls at 7210 and finds the receipt, which arrived at 7205. -/
def shortPolled : LoopState FileTree :=
  { (((shortStart 720 7203).sleep 7).enqueue lateReceipt.bincode) with
    clock := 7210 * 10 ^ 9
    phase := .draining (.poll 0) }

/-- At 7215 the grace period is over and the channel empty. -/
def shortDrained : LoopState FileTree :=
  { (shortPolled.receive receiptPackages lateReceipt.bincode [] (shortLate 720)
      FileTree.empty) with
    clock := 7215 * 10 ^ 9
    phase := .draining .final }

/-- The epoch was ended, and its one distribution is to be submitted. -/
def shortSubmitting : LoopState FileTree :=
  shortDrained.close [somePool] [.ok lateTransaction] (shortService 721)

theorem run_shortSubmitting {allowed : LoopState FileTree → LoopEvent → Prop}
    (hidle : ∀ s, allowed s .turn ∧ allowed s .wake ∧ allowed s .sleepAgain)
    (htick : ∀ s nanos, allowed s (.tick nanos))
    (harrive : ∀ s : LoopState FileTree, s.seconds = 7205 →
      allowed s (.enqueue lateReceipt.bincode))
    (hreceive : allowed shortPolled .receive)
    (hclose : allowed shortDrained (.epochEnd [somePool])) :
    Run (LoopStarted receiptPackages) (LoopNext receiptPackages) allowed shortSubmitting := by
  have hstart := run_shortStart allowed 720 7203 (by decide +kernel)
  have hwait : waitSecs (shortService 720) 7203 = .ok 7 := by decide +kernel
  have hlate : processReceiptMessage receiptPackages lateReceipt.bincode
      (shortService 720).collector FileTree.empty =
        .ok (.ok (), shortLate 720, FileTree.empty) := by
    decide +kernel
  have hend : processEpochEnd receiptPackages [somePool]
      { shortService 720 with collector := shortLate 720 } =
        .ok ([.ok lateTransaction], shortService 721) :=
    processEpochEnd_late (by decide +kernel) (by decide +kernel)
  -- sleep, receive, sleep through the grace period, and end the epoch
  have hasleep := hstart.step (hidle _).1 (LoopNext.turn rfl hwait)
  have hlater := hasleep.step (htick _ _) (LoopNext.tick _ (2 * 10 ^ 9))
  have harrived := hlater.step (harrive _ (by decide))
    (LoopNext.enqueue _ lateReceipt.bincode)
  have hdue := harrived.step (htick _ _) (LoopNext.tick _ (5 * 10 ^ 9))
  have hawake : Run (LoopStarted receiptPackages) (LoopNext receiptPackages) allowed shortPolled :=
    hdue.step (hidle _).2.1 (LoopNext.wake rfl (by decide))
  have hreceived := hawake.step hreceive (LoopNext.receive rfl rfl hlate)
  have hgrace := hreceived.step (hidle _).2.2 (LoopNext.sleepAgain rfl rfl)
  have hover := hgrace.step (htick _ _) (LoopNext.tick _ (5 * 10 ^ 9))
  have hfinal : Run (LoopStarted receiptPackages) (LoopNext receiptPackages) allowed
      shortDrained := hover.step (hidle _).2.1 (LoopNext.wake rfl (by decide))
  exact hfinal.step hclose (LoopNext.epochEnd rfl rfl (by decide +kernel) hend)

theorem run_shortSubmitting_any :
    Run (LoopStarted receiptPackages) (LoopNext receiptPackages) (fun _ _ => True)
      shortSubmitting :=
  run_shortSubmitting (fun _ => ⟨trivial, trivial, trivial⟩) (fun _ _ => trivial)
    (fun _ _ => trivial) trivial trivial

/-- A distribution whose submission fails is gone: it was taken and not posted, nothing waits, the
collector is empty and the channel is, too. -/
theorem refused_distribution_lost :
    ∃ s : LoopState FileTree,
      Run (LoopStarted receiptPackages) (LoopNext receiptPackages) (fun _ _ => True) s ∧
      (somePool, [lateReceipt]) ∈ s.log.taken ∧
      (∀ batch tx, (batch, Fate.posted tx) ∉ s.log.settled) ∧
      s.log.waiting = [] ∧ s.phase.results = [] ∧ s.queue = [] ∧
      s.base.service.collector.poolReceipts = SortedMap.empty := by
  refine ⟨shortSubmitting.settle [] (.refused lateTransaction),
    run_shortSubmitting_any.step trivial (LoopNext.refused .emptyBatch rfl), by decide +kernel, ?_,
    rfl, rfl, rfl, rfl⟩
  intro batch tx hmem
  have hentry : (batch, Fate.posted tx) = ((somePool, [lateReceipt]), .refused lateTransaction) :=
    List.mem_singleton.1 hmem
  exact absurd (Prod.mk.inj hentry).2 (by simp)

/-- The same distribution, submitted. -/
theorem posted_distribution_accounted :
    lateReceipt ∈ (shortService 721).collector.stored somePool ∨
      (∃ receipts, (somePool, receipts) ∈ ([] : List (Bytes 32 × List StorageReceipt)) ∧
        lateReceipt ∈ receipts) ∨
      ∃ receipts fate, ((somePool, receipts), fate) ∈
          (shortSubmitting.settle [] (.posted lateTransaction)).log.settled ∧
        lateReceipt ∈ receipts ∧
        match fate with
        | .posted tx => Pays tx somePool receipts
        | .refused tx => Pays tx somePool receipts
        | .unbuilt _ => ∃ r ∈ receipts, r.timestamp = 0 :=
  (accepted_accounted receiptPackages (run_shortSubmitting_any.step trivial
    (LoopNext.submitted { signature := "5b", confirmed := true } rfl))).2
    (somePool, lateReceipt) (by decide +kernel)

end Aggregator
end CraftecCore
