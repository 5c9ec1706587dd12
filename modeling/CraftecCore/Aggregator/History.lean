import CraftecCore.Aggregator.Service
import CraftecCore.Library.Run

/-!
# History — runs of the service and what they accounted for

The state of a run carries, next to service and disk, a history: the receipts accepted in the epoch
that is open, what the ends of epochs handed to the batch builder, and which receipts passed the
checks in a grace period.  The history is computed from what the code returned.  `next_cases` says
once what a step can do, and `Consistent` is the invariant that ties the service to its history.
-/

namespace CraftecCore
namespace Aggregator

open Settlement FileSystem Prover Transition

/-! ## Histories -/

/-- The receipt passes every check of `ingest` but the one for duplicates. -/
def Passes (x : Packages) (c : ReceiptCollector) (receipt : StorageReceipt) : Prop :=
  ∃ pool, Acceptable x c receipt pool

/-- The checks can be computed. -/
theorem passes_iff {x : Packages} {c : ReceiptCollector} {receipt : StorageReceipt} :
    Passes x c receipt ↔
      c.epochStart.toNat ≤ receipt.timestamp.toNat ∧
        receipt.timestamp.toNat < c.epochEnd.toNat + c.graceSecs.toNat ∧
        receipt.storageNode ≠ Bytes.zero 32 ∧ receipt.contentId ≠ Bytes.zero 32 ∧
        verifyReceiptSignature x receipt = .ok () ∧
        (c.cidToPool.get? receipt.contentId).isSome = true := by
  rw [Option.isSome_iff_exists]
  constructor
  · rintro ⟨pool, hearly, hlate, hnode, hcontent, hsignature, hpool⟩
    exact ⟨hearly, hlate, hnode, hcontent, hsignature, pool, hpool⟩
  · rintro ⟨hearly, hlate, hnode, hcontent, hsignature, pool, hpool⟩
    exact ⟨pool, hearly, hlate, hnode, hcontent, hsignature, hpool⟩

instance (x : Packages) (c : ReceiptCollector) (receipt : StorageReceipt) :
    Decidable (Passes x c receipt) :=
  decidable_of_iff _ passes_iff.symm

structure History where
  /-- Receipts accepted since the last end of an epoch, with their pools. -/
  accepted : List (Bytes 32 × StorageReceipt)
  /-- Pools and receipts that the ends of epochs handed to the batch builder. -/
  batches : List (Bytes 32 × List StorageReceipt)
  /-- Epoch and dedup key of the receipts that passed the checks in a grace period. -/
  late : List (UInt64 × StorageReceipt.DedupKey)
  deriving DecidableEq

def History.empty : History :=
  { accepted := []
    batches := []
    late := [] }

structure State (D : Type) where
  service : AggregatorService
  disk : D
  history : History

def Started {D : Type} (s : State D) : Prop :=
  (∃ config now, AggregatorService.new config now = .ok s.service) ∧ s.history = History.empty

/-- The window is that of the current epoch, and the collector holds what the history says. -/
structure Consistent {D : Type} (x : Packages) (s : State D) : Prop where
  aligned : Aligned s.service
  holds : Holds x s.service.collector s.history.accepted

theorem Consistent.start {D : Type} (x : Packages) {s : State D} (h : Started s) :
    Consistent x s := by
  rcases h with ⟨⟨config, now, hnew⟩, hhistory⟩
  rcases new_cases hnew with ⟨haligned, -, hpools⟩
  refine { aligned := haligned, holds := ?_ }
  rw [hhistory]
  exact Holds.of_empty x hpools

section Runs

variable {D : Type} [FileSystem D]

/-- Receipts of a list that the collector accepts, with their pools. -/
def acceptedBy (x : Packages) (receipts : List StorageReceipt) (c : ReceiptCollector) (disk : D) :
    List (Bytes 32 × StorageReceipt) :=
  match ingestAll x receipts c disk with
  | .ok (accepted, _, _) => accepted
  | .panic _ => []

/-- Receipts of a list that pass the checks with a timestamp in the grace period. -/
def lateOffers (x : Packages) (receipts : List StorageReceipt) (s : AggregatorService) :
    List (UInt64 × StorageReceipt.DedupKey) :=
  (receipts.filter fun r =>
      Passes x s.collector r ∧ s.collector.epochEnd.toNat ≤ r.timestamp.toNat).map fun r =>
    (s.currentEpoch, r.key)

def State.deliver (x : Packages) (s : State D) (receipts : List StorageReceipt)
    (c' : ReceiptCollector) (disk' : D) : State D :=
  { service := { s.service with collector := c' }
    disk := disk'
    history :=
      { accepted := s.history.accepted ++ acceptedBy x receipts s.service.collector s.disk
        batches := s.history.batches
        late := s.history.late ++ lateOffers x receipts s.service } }

def State.close (s : State D) (pools : List (Bytes 32)) (service' : AggregatorService) : State D :=
  { service := service'
    disk := s.disk
    history :=
      { accepted := []
        batches := s.history.batches ++ pools.map fun pool =>
          (pool, s.service.collector.stored pool)
        late := s.history.late } }

inductive Event
  | registerPool (contentId poolPubkey : Bytes 32)
  | ingest (receipt : StorageReceipt)
  | message (data : List UInt8)
  | drain (queue : List (List UInt8))
  | epochEnd (pools : List (Bytes 32))

def Event.offered (x : Packages) : Event → List StorageReceipt
  | .registerPool _ _ => []
  | .ingest receipt => [receipt]
  | .message data => decoded x [data]
  | .drain queue => decoded x queue
  | .epochEnd _ => []

inductive Next (x : Packages) : State D → Event → State D → Prop
  | registerPool (s : State D) (contentId poolPubkey : Bytes 32) :
      Next x s (.registerPool contentId poolPubkey)
        { s with
          service :=
            { s.service with collector := s.service.collector.registerPool contentId poolPubkey } }
  | ingest {s : State D} {receipt : StorageReceipt} {result : Except AggregatorError Unit}
      {c' : ReceiptCollector} {disk' : D} :
      Aggregator.ingest x receipt s.service.collector s.disk = .ok (result, c', disk') →
        Next x s (.ingest receipt) (s.deliver x [receipt] c' disk')
  | message {s : State D} {data : List UInt8} {result : Except AggregatorError Unit}
      {c' : ReceiptCollector} {disk' : D} :
      processReceiptMessage x data s.service.collector s.disk = .ok (result, c', disk') →
        Next x s (.message data) (s.deliver x (decoded x [data]) c' disk')
  | drain {s : State D} {queue : List (List UInt8)} {count : ℕ} {c' : ReceiptCollector}
      {disk' : D} :
      drainChannel x queue s.service.collector s.disk = .ok (count, c', disk') →
        Next x s (.drain queue) (s.deliver x (decoded x queue) c' disk')
  | epochEnd {s : State D} {pools : List (Bytes 32)}
      {results : List (Except AggregatorError BuiltTransaction)} {service' : AggregatorService} :
      pools.Perm s.service.collector.pools →
        processEpochEnd x pools s.service = .ok (results, service') →
          Next x s (.epochEnd pools) (s.close pools service')

/-! ## What a step does -/

theorem ingestAll_singleton {x : Packages} {receipt : StorageReceipt} {c c' : ReceiptCollector}
    {disk disk' : D} {result : Except AggregatorError Unit}
    (h : ingest x receipt c disk = .ok (result, c', disk')) :
    ∃ accepted, ingestAll x [receipt] c disk = .ok (accepted, c', disk') := by
  cases result with
  | error err => exact ⟨[], by simp [ingestAll, h]⟩
  | ok _ =>
      exact ⟨[((c.cidToPool.get? receipt.contentId).getD (Bytes.zero 32), receipt)],
        by simp [ingestAll, h]⟩

/-- What a raw message offers is ingested. -/
theorem ingestAll_message {x : Packages} {data : List UInt8} {c c' : ReceiptCollector}
    {disk disk' : D} {result : Except AggregatorError Unit}
    (h : processReceiptMessage x data c disk = .ok (result, c', disk')) :
    ∃ accepted, ingestAll x (decoded x [data]) c disk = .ok (accepted, c', disk') := by
  -- a malformed message offers nothing
  rcases processReceiptMessage_cases h with ⟨hnone, rfl, rfl⟩ | ⟨receipt, hone, hrun⟩
  · exact ⟨[], by simp [hnone, ingestAll]⟩
  · rw [hone]
    exact ingestAll_singleton hrun

/-- A step registers a pool, offers receipts, or ends an epoch. -/
theorem next_cases {x : Packages} {s s' : State D} {e : Event} (h : Next x s e s') :
    (∃ contentId poolPubkey, s' =
        { s with
          service :=
            { s.service with
              collector := s.service.collector.registerPool contentId poolPubkey } }) ∨
      (∃ accepted c' disk',
        ingestAll x (e.offered x) s.service.collector s.disk = .ok (accepted, c', disk') ∧
          s' = s.deliver x (e.offered x) c' disk') ∨
      ∃ pools service', pools.Perm s.service.collector.pools ∧
        s.service.advanceEpoch = .ok service' ∧ s' = s.close pools service' := by
  cases h with
  | registerPool contentId poolPubkey => exact Or.inl ⟨contentId, poolPubkey, rfl⟩
  | ingest hrun =>
      rcases ingestAll_singleton hrun with ⟨accepted, hall⟩
      exact Or.inr (Or.inl ⟨accepted, _, _, hall, rfl⟩)
  | message hrun =>
      rcases ingestAll_message hrun with ⟨accepted, hall⟩
      exact Or.inr (Or.inl ⟨accepted, _, _, hall, rfl⟩)
  | drain hrun =>
      rw [drainChannel_eq, Outcome.bind_eq_ok] at hrun
      rcases hrun with ⟨⟨accepted, c₁, disk₁⟩, hall, heq⟩
      simp only [Outcome.pure_eq, Outcome.ok.injEq, Prod.mk.injEq] at heq
      rcases heq with ⟨-, rfl, rfl⟩
      exact Or.inr (Or.inl ⟨accepted, _, _, hall, rfl⟩)
  | epochEnd hperm hrun =>
      exact Or.inr (Or.inr ⟨_, _, hperm, processEpochEnd_cases hrun, rfl⟩)

theorem acceptedBy_eq {x : Packages} {receipts : List StorageReceipt} {c c' : ReceiptCollector}
    {disk disk' : D} {accepted : List (Bytes 32 × StorageReceipt)}
    (h : ingestAll x receipts c disk = .ok (accepted, c', disk')) :
    acceptedBy x receipts c disk = accepted := by
  simp [acceptedBy, h]

/-! ## The invariant along runs -/

/-- Offering receipts leaves the window as it is. -/
theorem Consistent.deliver {x : Packages} {s : State D} (h : Consistent x s)
    {receipts : List StorageReceipt} {accepted : List (Bytes 32 × StorageReceipt)}
    {c' : ReceiptCollector} {disk' : D}
    (hrun : ingestAll x receipts s.service.collector s.disk = .ok (accepted, c', disk')) :
    Consistent x (s.deliver x receipts c' disk') := by
  have htook := ingestAll_took hrun
  have hstart := congrArg UInt64.toNat htook.settings.epochStart
  have hend := congrArg UInt64.toNat htook.settings.epochEnd
  refine
    { aligned :=
        { pos := h.aligned.pos
          epochStart := hstart.trans h.aligned.epochStart
          epochEnd := hend.trans h.aligned.epochEnd }
      holds := ?_ }
  simp only [State.deliver, acceptedBy_eq hrun]
  exact h.holds.took htook

omit [FileSystem D] in
/-- The end of an epoch opens an empty window. -/
theorem Consistent.close {x : Packages} {s : State D} (h : Consistent x s)
    {pools : List (Bytes 32)} {service' : AggregatorService}
    (hadv : s.service.advanceEpoch = .ok service') : Consistent x (s.close pools service') := by
  rcases advanceEpoch_cases hadv with ⟨-, -, -, -, hpools, -⟩
  exact
    { aligned := h.aligned.advanceEpoch hadv
      holds := Holds.of_empty x hpools }

theorem Consistent.next {x : Packages} {s s' : State D} {e : Event} (h : Consistent x s)
    (hnext : Next x s e s') : Consistent x s' := by
  rcases next_cases hnext with
    ⟨contentId, pool, rfl⟩ | ⟨accepted, c', disk', hrun, rfl⟩ | ⟨pools, service', -, hadv, rfl⟩
  · exact
      { aligned :=
          { pos := h.aligned.pos
            epochStart := h.aligned.epochStart
            epochEnd := h.aligned.epochEnd }
        holds := h.holds.registerPool contentId pool }
  · exact h.deliver hrun
  · exact h.close hadv

omit [FileSystem D] in
/-- The results that the end of an epoch returns are those of the batches of all pools. -/
theorem Consistent.close_results {x : Packages} {s : State D} (h : Consistent x s)
    {pools : List (Bytes 32)} (hperm : pools.Perm s.service.collector.pools)
    {results : List (Except AggregatorError BuiltTransaction)} {service' : AggregatorService}
    (hrun : processEpochEnd x pools s.service = .ok (results, service')) :
    List.Forall₂ (fun batch result => buildDistribution x batch.1 batch.2 = .ok result)
      (pools.map fun pool => (pool, s.service.collector.stored pool)) results := by
  have hnodup : pools.Nodup := hperm.nodup_iff.2 (ReceiptCollector.nodup_pools _)
  have hne : ∀ pool ∈ pools, s.service.collector.stored pool ≠ [] :=
    fun pool hpool => h.holds.stored_ne_nil (hperm.mem_iff.1 hpool)
  rw [List.forall₂_map_left_iff]
  exact forall₂_of_processEpochEnd hnodup hne hrun

/-- Every state of a run is consistent. -/
theorem Consistent.of_run {x : Packages} {allowed : State D → Event → Prop} {s : State D}
    (h : Run Started (Next x) allowed s) : Consistent x s :=
  h.invariant (fun _ hs => Consistent.start x hs) fun _ _ _ hs _ hnext => hs.next hnext

end Runs

end Aggregator
end CraftecCore
