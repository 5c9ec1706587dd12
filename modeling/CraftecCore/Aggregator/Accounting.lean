import CraftecCore.Aggregator.Conservation

/-!
# Accounting — at most once across epochs

The dedup set is cleared when an epoch ends, while the window of the ended epoch reached into the
next one by the grace period.  A receipt accepted in that overlap can be offered, accepted and paid
again.  In a run without such a replay no dedup key is paid twice: the timestamp of a receipt paid
earlier lies before the open window, or the receipt was offered in a grace period.
-/

namespace CraftecCore
namespace Aggregator

open Settlement Prover Transition
open scoped List

/-- Receipts that the ends of epochs handed to the batch builder. -/
def History.settled (h : History) : List StorageReceipt :=
  h.batches.flatMap Prod.snd

variable {D : Type}

/-- No receipt that passed the checks in the grace period of an earlier epoch, by its dedup key,
passes them again. -/
def NoGraceReplay (x : Packages) (s : State D) (e : Event) : Prop :=
  ∀ receipt ∈ e.offered x, Passes x s.service.collector receipt →
    ∀ offer ∈ s.history.late, offer.2 = receipt.key → offer.1 = s.service.currentEpoch

/-- The invariant of the accounting. -/
structure Accounted (x : Packages) (s : State D) : Prop where
  consistent : Consistent x s
  distinct : (s.history.settled.map StorageReceipt.key ++
    s.history.accepted.map fun a => a.2.key).Nodup
  /-- A settled receipt is older than the window, or was late in an earlier epoch. -/
  settled : ∀ r ∈ s.history.settled,
    r.timestamp.toNat < s.service.collector.epochStart.toNat ∨
      ∃ offer ∈ s.history.late, offer.2 = r.key ∧ offer.1.toNat < s.service.currentEpoch.toNat
  /-- An accepted receipt is older than the end of the epoch, or is late in this one. -/
  accepted : ∀ a ∈ s.history.accepted,
    a.2.timestamp.toNat < s.service.collector.epochEnd.toNat ∨
      (s.service.currentEpoch, a.2.key) ∈ s.history.late

theorem Accounted.start (x : Packages) {s : State D} (h : Started s) : Accounted x s := by
  have hcons := Consistent.start x h
  rcases h with ⟨-, hhistory⟩
  have hsettled : s.history.settled = [] := by rw [hhistory]; rfl
  have haccepted : s.history.accepted = [] := by rw [hhistory]; rfl
  refine { consistent := hcons, distinct := ?_, settled := ?_, accepted := ?_ }
  · simp [hsettled, haccepted]
  · simp [hsettled]
  · simp [haccepted]

/-! ## Offering receipts -/

/-- Without a replay, an accepted receipt was not settled before. -/
theorem Accounted.new_key {x : Packages} {s : State D} (h : Accounted x s) {r r' : StorageReceipt}
    {pool : Bytes 32} (hsettled : r ∈ s.history.settled)
    (hacc : Acceptable x s.service.collector r' pool)
    (hallowed : ∀ offer ∈ s.history.late, offer.2 = r'.key → offer.1 = s.service.currentEpoch) :
    r.key ≠ r'.key := by
  intro hkey
  rcases h.settled r hsettled with hold | ⟨offer, hmem, hoffer, hepoch⟩
  · -- equal keys have equal timestamps, but this one is inside the window
    have htime : r.timestamp = r'.timestamp := congrArg StorageReceipt.DedupKey.timestamp hkey
    have hearly := hacc.notEarly
    rw [← htime] at hearly
    omega
  · have hsame := hallowed offer hmem (hoffer.trans hkey)
    rw [hsame] at hepoch
    exact absurd hepoch (lt_irrefl _)

theorem Accounted.deliver [FileSystem D] {x : Packages} {s : State D} (h : Accounted x s)
    {receipts : List StorageReceipt} {accepted : List (Bytes 32 × StorageReceipt)}
    {c' : ReceiptCollector} {disk' : D}
    (hallowed : ∀ r ∈ receipts, Passes x s.service.collector r →
      ∀ offer ∈ s.history.late, offer.2 = r.key → offer.1 = s.service.currentEpoch)
    (hrun : ingestAll x receipts s.service.collector s.disk = .ok (accepted, c', disk'))
    (hcons : Consistent x (s.deliver x receipts c' disk')) :
    Accounted x (s.deliver x receipts c' disk') := by
  have htook := ingestAll_took hrun
  have hnow : (s.deliver x receipts c' disk').history.accepted =
      s.history.accepted ++ accepted := by
    simp [State.deliver, acceptedBy_eq hrun]
  have hlate : s.history.late ⊆ (s.deliver x receipts c' disk').history.late :=
    List.subset_append_left _ _
  -- the three parts: no key twice, old receipts stay old, new ones are in time or late
  refine { consistent := hcons, distinct := ?_, settled := ?_, accepted := ?_ }
  · rw [hnow, List.map_append, ← List.append_assoc]
    refine List.nodup_append'.2 ⟨h.distinct, nodup_keys_of_hashes htook.distinct, ?_⟩
    intro key hold hnew
    rcases List.mem_map.1 hnew with ⟨a, ha, rfl⟩
    rcases List.mem_append.1 hold with hsettled | hpending
    · rcases List.mem_map.1 hsettled with ⟨r, hr, hkey⟩
      have hacc := (htook.sound a ha).2
      exact h.new_key hr hacc (hallowed a.2 (htook.sound a ha).1 ⟨a.1, hacc⟩) hkey
    · -- a receipt accepted in this epoch left its hash in the seen set
      rcases List.mem_map.1 hpending with ⟨a', ha', hkey⟩
      have hseen := h.consistent.holds.seen a' ha'
      rw [StorageReceipt.dedupHash_eq_of_key_eq x.sha256 hkey] at hseen
      exact htook.unseen a ha hseen
  · intro r hr
    rcases h.settled r hr with hold | ⟨offer, hmem, hoffer⟩
    · left
      have hsame := congrArg UInt64.toNat htook.settings.epochStart
      simpa [State.deliver, hsame] using hold
    · exact Or.inr ⟨offer, hlate hmem, hoffer⟩
  · intro a ha
    have hend := congrArg UInt64.toNat htook.settings.epochEnd
    rw [hnow] at ha
    rcases List.mem_append.1 ha with hold | hnew
    · rcases h.accepted a hold with hbefore | hmem
      · left
        simpa [State.deliver, hend] using hbefore
      · exact Or.inr (hlate hmem)
    · -- a new receipt: before the end of the epoch, or recorded as late
      rcases htook.sound a hnew with ⟨hoffered, hacc⟩
      rcases Nat.lt_or_ge a.2.timestamp.toNat s.service.collector.epochEnd.toNat with hlt | hge
      · left
        simpa [State.deliver, hend] using hlt
      · right
        refine List.mem_append_right _ (List.mem_map.2 ⟨a.2, ?_, rfl⟩)
        exact List.mem_filter.2 ⟨hoffered, decide_eq_true ⟨⟨a.1, hacc⟩, hge⟩⟩

/-! ## Ending an epoch -/

/-- Receipts taken pool by pool are all receipts. -/
theorem perm_flatMap_ofPool :
    ∀ {pools : List (Bytes 32)} {accepted : List (Bytes 32 × StorageReceipt)}, pools.Nodup →
      (∀ a ∈ accepted, a.1 ∈ pools) →
        (pools.flatMap (ofPool accepted)).Perm (accepted.map Prod.snd)
  | [], accepted, _, hall => by
      have hnil : accepted = [] :=
        List.eq_nil_iff_forall_not_mem.2 fun a ha => List.not_mem_nil (hall a ha)
      simp [hnil]
  | pool :: pools, accepted, hnodup, hall => by
      rcases List.nodup_cons.1 hnodup with ⟨hnot, hnodup⟩
      let others := accepted.filter fun a => !decide (a.1 = pool)
      have hothers : ∀ a ∈ others, a.1 ∈ pools := by
        intro a ha
        rcases List.mem_filter.1 ha with ⟨hmem, hne⟩
        exact (List.mem_cons.1 (hall a hmem)).resolve_left (by simpa using hne)
      -- the other pools take their receipts from the others
      have hsame : ∀ other ∈ pools, ofPool accepted other = ofPool others other := by
        intro other hmem
        have hne : other ≠ pool := fun heq => hnot (heq ▸ hmem)
        have hkeep : ∀ a : Bytes 32 × StorageReceipt,
            (decide (a.1 = other) && !decide (a.1 = pool)) = decide (a.1 = other) := by
          intro a
          by_cases hpool : a.1 = other
          · simp [hpool, hne]
          · simp [hpool]
        simp only [ofPool, others, List.filter_filter, hkeep]
      have ih := perm_flatMap_ofPool hnodup hothers
      have hsplit : (accepted.filter (fun a => decide (a.1 = pool)) ++ others).Perm accepted :=
        List.filter_append_perm (fun a => decide (a.1 = pool)) accepted
      calc (pool :: pools).flatMap (ofPool accepted)
          = ofPool accepted pool ++ pools.flatMap (ofPool others) := by
            rw [List.flatMap_cons, List.flatMap_congr hsame]
        _ ~ ofPool accepted pool ++ others.map Prod.snd := ih.append_left _
        _ = (accepted.filter (fun a => decide (a.1 = pool)) ++ others).map Prod.snd := by
            rw [List.map_append]
            rfl
        _ ~ accepted.map Prod.snd := hsplit.map Prod.snd

theorem Accounted.close {x : Packages} {s : State D} (h : Accounted x s)
    {pools : List (Bytes 32)} {service' : AggregatorService}
    (hperm : pools.Perm s.service.collector.pools)
    (hadv : s.service.advanceEpoch = .ok service')
    (hcons : Consistent x (s.close pools service')) : Accounted x (s.close pools service') := by
  rcases advanceEpoch_cases hadv with ⟨-, hepoch, hstart, -, -, -⟩
  have haligned := h.consistent.aligned
  -- what is settled now: what was settled before, and all that was accepted
  have hsettled : (s.close pools service').history.settled =
      s.history.settled ++ pools.flatMap (ofPool s.history.accepted) := by
    simp only [State.close, History.settled, List.flatMap_append, List.flatMap_map]
    rw [funext h.consistent.holds.stored]
  have hall : ∀ a ∈ s.history.accepted, a.1 ∈ pools := by
    intro a ha
    rw [hperm.mem_iff, h.consistent.holds.pools]
    exact ⟨a, ha, rfl⟩
  have htaken := perm_flatMap_ofPool (hperm.nodup_iff.2 (ReceiptCollector.nodup_pools _)) hall
  refine { consistent := hcons, distinct := ?_, settled := ?_, accepted := ?_ }
  · have hkeys : (s.history.accepted.map Prod.snd).map StorageReceipt.key =
        s.history.accepted.map fun a => a.2.key := List.map_map
    rw [hsettled, State.close, List.map_nil, List.append_nil, List.map_append]
    refine ((htaken.map StorageReceipt.key).append_left _).nodup_iff.2 ?_
    rw [hkeys]
    exact h.distinct
  · intro r hr
    rw [hsettled] at hr
    rcases List.mem_append.1 hr with hold | hnew
    · rcases h.settled r hold with hbefore | ⟨offer, hmem, hkey, hlt⟩
      · left
        calc r.timestamp.toNat
            < s.service.collector.epochStart.toNat := hbefore
          _ ≤ service'.collector.epochStart.toNat := by
              rw [hstart, haligned.epochStart, Nat.succ_mul]
              exact Nat.le_add_right _ _
      · exact Or.inr ⟨offer, hmem, hkey, by
          show offer.1.toNat < service'.currentEpoch.toNat
          omega⟩
    · -- the window that opens starts where the epoch that closes ended
      have hmem := htaken.mem_iff.1 hnew
      rcases List.mem_map.1 hmem with ⟨a, ha, rfl⟩
      rcases h.accepted a ha with hbefore | hlate
      · left
        calc a.2.timestamp.toNat
            < s.service.collector.epochEnd.toNat := hbefore
          _ = service'.collector.epochStart.toNat := by
              rw [hstart, haligned.epochEnd, Nat.succ_mul]
      · exact Or.inr ⟨_, hlate, rfl, by
          show s.service.currentEpoch.toNat < service'.currentEpoch.toNat
          omega⟩
  · intro a ha
    exact absurd ha List.not_mem_nil

/-! ## Runs -/

theorem Accounted.next [FileSystem D] {x : Packages} {s s' : State D} {e : Event}
    (h : Accounted x s) (hallowed : NoGraceReplay x s e) (hnext : Next x s e s') :
    Accounted x s' := by
  have hcons := h.consistent.next hnext
  rcases next_cases hnext with
    ⟨contentId, pool, rfl⟩ | ⟨accepted, c', disk', hrun, rfl⟩ | ⟨pools, service', hperm, hadv, rfl⟩
  · exact
      { consistent := hcons
        distinct := h.distinct
        settled := h.settled
        accepted := h.accepted }
  · exact h.deliver hallowed hrun hcons
  · exact h.close hperm hadv hcons

/-- In a run without replays of late receipts, no dedup key is settled twice: neither in two
distributions nor in one. -/
theorem settled_at_most_once [FileSystem D] (x : Packages) {s : State D}
    (hrun : Run Started (Next x) (NoGraceReplay x) s) :
    (s.history.settled.map StorageReceipt.key).Nodup := by
  -- the invariant holds at the start and survives every step that replays no late receipt
  have hacc : Accounted x s :=
    hrun.invariant (fun _ hs => Accounted.start x hs)
      fun _ _ _ hs hallowed hnext => hs.next hallowed hnext
  exact (List.nodup_append'.1 hacc.distinct).1

/-! ## A late receipt -/

def hourLate : ReceiptCollector :=
  hourCollector.accept (lateReceipt.dedupHash receiptDigest) somePool lateReceipt

/-- The collector after the end of the first epoch: the seen set is empty again. -/
def nextCollector : ReceiptCollector :=
  hourCollector.reset 7200 10800

def nextLate : ReceiptCollector :=
  nextCollector.accept (lateReceipt.dedupHash receiptDigest) somePool lateReceipt

def nextService : AggregatorService :=
  { hourService with
    collector := nextCollector
    currentEpoch := 2 }

def thirdService : AggregatorService :=
  { hourService with
    collector := hourCollector.reset 10800 14400
    currentEpoch := 3 }

def hourLateState : State FileTree :=
  hourRegistered.deliver receiptPackages [lateReceipt] hourLate FileTree.empty

def nextLateState : State FileTree :=
  (hourLateState.close [somePool] nextService).deliver receiptPackages [lateReceipt] nextLate
    FileTree.empty

def lateBatch : PoolBatch :=
  { poolPubkey := somePool
    weights :=
      { entries := [(nodeOne, 1)]
        sorted := List.pairwise_singleton _ _ }
    receiptCount := 1
    totalWeight := 1
    proof := mockProof
      { root :=
          Bytes.ofNat 32 0x73559e81919cf8fdd44655ad8344ee6d93e02cebeb888f9811ade18e2e0fbd6a
        totalWeight := 1
        entryCount := 1
        poolId := somePool } }

def lateTransaction : BuiltTransaction :=
  buildPostDistribution receiptPackages lateBatch

theorem processEpochEnd_late {s s' : AggregatorService}
    (hstored : s.collector.stored somePool = [lateReceipt]) (hadv : s.advanceEpoch = .ok s') :
    processEpochEnd receiptPackages [somePool] s = .ok ([.ok lateTransaction], s') := by
  have hbatch : build receiptPackages somePool [lateReceipt] = .ok (.ok lateBatch) := by
    decide +kernel
  refine processEpochEnd_single ?_ ?_ hadv
  · rw [hstored]
    exact List.cons_ne_nil _ _
  · rw [hstored]
    exact hbatch

theorem processEpochEnd_hourLate :
    processEpochEnd receiptPackages [somePool] hourLateState.service =
      .ok ([.ok lateTransaction], nextService) :=
  processEpochEnd_late (by decide +kernel) (by decide +kernel)

theorem ingest_hourLate :
    ingest receiptPackages lateReceipt hourCollector FileTree.empty =
      .ok (.ok (), hourLate, FileTree.empty) := by
  decide +kernel

/-- One receipt of the grace period, offered again in the next epoch, is paid by two
distributions. -/
theorem late_receipt_paid_twice :
    ∃ s : State FileTree, Run Started (Next receiptPackages) (fun _ _ => True) s ∧
      s.history.batches = [(somePool, [lateReceipt]), (somePool, [lateReceipt])] ∧
      ¬ (s.history.settled.map StorageReceipt.key).Nodup ∧
      processEpochEnd receiptPackages [somePool] hourLateState.service =
        .ok ([.ok lateTransaction], nextService) ∧
      processEpochEnd receiptPackages [somePool] nextLateState.service =
        .ok ([.ok lateTransaction], thirdService) ∧
      weightIn lateTransaction.weights nodeOne = 1 := by
  have hagain : ingest receiptPackages lateReceipt nextCollector FileTree.empty =
      .ok (.ok (), nextLate, FileTree.empty) := by
    decide +kernel
  have hsecond : processEpochEnd receiptPackages [somePool] nextLateState.service =
      .ok ([.ok lateTransaction], thirdService) :=
    processEpochEnd_late (by decide +kernel) (by decide +kernel)
  -- the run: register, ingest, end the epoch, and the same once more
  have hlate := (run_hourRegistered (fun _ _ => True) trivial).step trivial
    (Next.ingest ingest_hourLate)
  have hclosed := hlate.step trivial
    (Next.epochEnd (by decide +kernel) processEpochEnd_hourLate)
  have hreplayed := hclosed.step trivial (Next.ingest hagain)
  have hend := hreplayed.step trivial (Next.epochEnd (by decide +kernel) hsecond)
  exact ⟨_, hend, by decide +kernel, by decide +kernel, processEpochEnd_hourLate, hsecond,
    by decide +kernel⟩

/-- A run whose late receipt is offered once. -/
theorem hourLate_settled_once :
    (((hourLateState.close [somePool] nextService).history.settled).map
      StorageReceipt.key).Nodup := by
  have hnone : hourRegistered.history.late = [] := rfl
  have hregistered : Run Started (Next receiptPackages) (NoGraceReplay receiptPackages)
      hourRegistered :=
    run_hourRegistered _ fun _ h => absurd h List.not_mem_nil
  have hoffer : NoGraceReplay receiptPackages hourRegistered (.ingest lateReceipt) := by
    intro receipt _ _ offer hmem
    rw [hnone] at hmem
    exact absurd hmem List.not_mem_nil
  have hingest : Next receiptPackages hourRegistered (.ingest lateReceipt) hourLateState :=
    Next.ingest ingest_hourLate
  have hend : Next receiptPackages hourLateState (.epochEnd [somePool])
      (hourLateState.close [somePool] nextService) :=
    Next.epochEnd (by decide +kernel) processEpochEnd_hourLate
  have hlate := hregistered.step hoffer hingest
  have hclosed := hlate.step (fun _ h => absurd h List.not_mem_nil) hend
  exact settled_at_most_once receiptPackages hclosed

end Aggregator
end CraftecCore
