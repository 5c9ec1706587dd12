import CraftecCore.Aggregator.Intake

/-!
# Rejection — a rejected receipt leaves no trace

`Clean` is what one call owes to the collector: nothing is changed by an error, and one receipt is
added by `Ok`.  From it come the retry after `register_pool`, the messages of a channel that may be
dropped, and the count that the draining loop returns.
-/

namespace CraftecCore
namespace Aggregator

open Settlement FileSystem

variable {D : Type} [FileSystem D] {x : Packages} {c c' : ReceiptCollector} {disk disk' : D}
  {receipt : StorageReceipt} {data : List UInt8} {result : Except AggregatorError Unit}

/-! ## One call -/

structure AddedOne (c : ReceiptCollector) (receipt : StorageReceipt) (pool : Bytes 32)
    (c' : ReceiptCollector) : Prop where
  registered : c.cidToPool.get? receipt.contentId = some pool
  stored : ∀ pool', c'.stored pool' = c.stored pool' ++ if pool = pool' then [receipt] else []
  count : c'.receiptCount = c.receiptCount + 1

/-- A call that offers at most one receipt changes nothing, or adds it. -/
structure Clean (c : ReceiptCollector) (disk : D) (offered : List StorageReceipt)
    (result : Except AggregatorError Unit) (c' : ReceiptCollector) (disk' : D) : Prop where
  rejected : ∀ err, result = .error err → c' = c ∧ disk' = disk
  accepted : result = .ok () → ∃ receipt pool, offered = [receipt] ∧ AddedOne c receipt pool c'

theorem ReceiptCollector.addedOne_accept {pool : Bytes 32} (hash : Bytes 32)
    (h : c.cidToPool.get? receipt.contentId = some pool) :
    AddedOne c receipt pool (c.accept hash pool receipt) :=
  { registered := h
    stored := fun pool' => c.stored_accept hash pool pool' receipt
    count := c.receiptCount_accept hash pool receipt }

theorem ingest_clean (h : ingest x receipt c disk = .ok (result, c', disk')) :
    Clean c disk [receipt] result c' disk' := by
  rcases ingest_cases h with ⟨-, ⟨pool, hacc, -, -, rfl, rfl, -⟩ | ⟨-, ⟨err, rfl⟩, rfl, rfl⟩⟩
  · exact
      { rejected := fun err herr => by simp at herr
        accepted := fun _ => ⟨receipt, pool, rfl, c.addedOne_accept _ hacc.pool⟩ }
  · exact
      { rejected := fun _ _ => ⟨rfl, rfl⟩
        accepted := fun hok => by simp at hok }

/-- A malformed message is an error, and any other is the call on its receipt. -/
theorem processReceiptMessage_clean
    (h : processReceiptMessage x data c disk = .ok (result, c', disk')) :
    Clean c disk (decoded x [data]) result c' disk' := by
  cases hdata : x.deserializeReceipt data with
  | error msg =>
      simp only [processReceiptMessage, hdata, Outcome.pure_eq, Outcome.ok.injEq,
        Prod.mk.injEq] at h
      rcases h with ⟨rfl, rfl, rfl⟩
      exact
        { rejected := fun _ _ => ⟨rfl, rfl⟩
          accepted := fun hok => by simp at hok }
  | ok receipt =>
      have hdec : decoded x [data] = [receipt] := by simp [decoded, hdata, Except.toOption]
      rw [hdec]
      simp only [processReceiptMessage, hdata] at h
      exact ingest_clean h

/-! ## The same receipt later -/

/-- A receipt of an unknown pool passed every other check, so it only waits for its pool. -/
theorem acceptable_of_unknownPool
    (h : ingest x receipt c disk = .ok (.error .unknownPool, c', disk')) (pool : Bytes 32) :
    c.DeadlineFits ∧ receipt.dedupHash x.sha256 ∉ c.seen ∧
      Acceptable x (c.registerPool receipt.contentId pool) receipt pool := by
  have hfit : c.DeadlineFits := (ingest_cases h).1
  rcases ingest_checks x receipt disk hfit with ⟨err, hne, herr⟩ | ⟨hnew, hpassed, -⟩
  · -- the checks before the pool have errors of their own
    rw [herr] at h
    simp only [Outcome.ok.injEq, Prod.mk.injEq, Except.error.injEq] at h
    exact absurd h.1 hne
  · exact ⟨hfit, hnew, hpassed _ pool (SortedMap.get?_insert_self _ _ _)⟩

/-- Once its pool is registered, a receipt that was refused for it is accepted. -/
theorem ingest_registered (h : ingest x receipt c disk = .ok (.error .unknownPool, c', disk'))
    (pool : Bytes 32) (hroom : (c.stored pool).length < isizeMax) :
    ∃ c'' disk'', ingest x receipt (c'.registerPool receipt.contentId pool) disk' =
        .ok (.ok (), c'', disk'') ∧
      AddedOne (c'.registerPool receipt.contentId pool) receipt pool c'' := by
  rcases acceptable_of_unknownPool h pool with ⟨hfit, hnew, hacc⟩
  rcases (ingest_clean h).rejected _ rfl with ⟨rfl, rfl⟩
  have haccept :=
    ingest_accept (c := c'.registerPool receipt.contentId pool) disk' hfit hacc hnew
  -- registering a pool leaves the receipts as they are
  rw [if_pos (show ((c'.registerPool receipt.contentId pool).stored pool).length < isizeMax from
    hroom)] at haccept
  exact ⟨_, _, haccept, ReceiptCollector.addedOne_accept _ hacc.pool⟩

/-! ## The draining loop -/

/-- A rejected message at the head of the queue may as well be dropped. -/
theorem drainChannel_rejected {err : AggregatorError}
    (h : processReceiptMessage x data c disk = .ok (.error err, c', disk'))
    (queue : List (List UInt8)) :
    drainChannel x (data :: queue) c disk = drainChannel x queue c disk := by
  rcases (processReceiptMessage_clean h).rejected err rfl with ⟨rfl, rfl⟩
  simp [drainChannel, drainLoop, h]

/-- What `drain_channel` returns is the growth of the receipt count. -/
theorem drainChannel_count {queue : List (List UInt8)} {count : ℕ}
    (h : drainChannel x queue c disk = .ok (count, c', disk')) :
    c'.receiptCount = c.receiptCount + count := by
  rw [drainChannel_eq, Outcome.bind_eq_ok] at h
  rcases h with ⟨⟨accepted, c₁, disk₁⟩, hrun, heq⟩
  simp only [Outcome.pure_eq, Outcome.ok.injEq, Prod.mk.injEq] at heq
  rcases heq with ⟨rfl, rfl, rfl⟩
  exact (ingestAll_took hrun).count

/-- With room in every pool a call returns, and takes room for one receipt at most. -/
theorem processReceiptMessage_returns (x : Packages) (data : List UInt8) (disk : D)
    (hfit : c.DeadlineFits) (hroom : ∀ pool, (c.stored pool).length < isizeMax) :
    ∃ result c' disk', processReceiptMessage x data c disk = .ok (result, c', disk') ∧
      c'.DeadlineFits ∧ ∀ pool, (c'.stored pool).length ≤ (c.stored pool).length + 1 := by
  cases hdata : x.deserializeReceipt data with
  | error msg =>
      exact ⟨.error (.serialization msg), c, disk, by simp [processReceiptMessage, hdata], hfit,
        fun pool => Nat.le_succ _⟩
  | ok receipt =>
      simp only [processReceiptMessage, hdata]
      rcases accepted_or_rejected x c receipt with ⟨hnew, pool, hacc⟩ | hbad
      · have haccept := ingest_accept disk hfit hacc hnew
        rw [if_pos (hroom pool)] at haccept
        refine ⟨_, _, _, haccept, hfit, fun pool' => ?_⟩
        rw [c.stored_accept]
        by_cases hpool : pool = pool' <;> simp [hpool]
      · rcases ingest_reject disk hfit hbad with ⟨err, herr⟩
        exact ⟨_, _, _, herr, hfit, fun pool => Nat.le_succ _⟩

/-- With room for the whole queue the loop comes to its end. -/
theorem drainLoop_returns (x : Packages) (queue : List (List UInt8)) :
    ∀ (count : ℕ) (c : ReceiptCollector) (disk : D), c.DeadlineFits →
      (∀ pool, (c.stored pool).length + queue.length ≤ isizeMax) →
      ∃ out, drainLoop x queue count c disk = .ok out := by
  induction queue with
  | nil =>
      intro count c disk _ _
      exact ⟨(count, c, disk), rfl⟩
  | cons data queue ih =>
      intro count c disk hfit hroom
      have hone : ∀ pool, (c.stored pool).length < isizeMax := fun pool =>
        lt_of_lt_of_le (Nat.lt_add_of_pos_right (Nat.succ_pos _)) (hroom pool)
      rcases processReceiptMessage_returns x data disk hfit hone with
        ⟨result, c', disk', hrun, hfit', hgrown⟩
      -- the head took one place at most, so the tail finds its own
      have hrest : ∀ pool, (c'.stored pool).length + queue.length ≤ isizeMax := by
        intro pool
        have hlen := hroom pool
        rw [List.length_cons] at hlen
        have hpool := hgrown pool
        omega
      cases result with
      | error err =>
          rcases ih count c' disk' hfit' hrest with ⟨out, hout⟩
          exact ⟨out, by simpa [drainLoop, hrun] using hout⟩
      | ok _ =>
          rcases ih (count + 1) c' disk' hfit' hrest with ⟨out, hout⟩
          exact ⟨out, by simpa [drainLoop, hrun] using hout⟩

/-! ## Rejected receipts leave no trace -/

/-- Errors change nothing and `Ok` adds one receipt, a receipt refused for its pool is accepted
once the pool is registered, and draining any queue counts exactly what was added; it returns
whenever the deadline fits a `u64` and the vectors of the pools can grow. -/
theorem rejected_receipts_leave_no_trace (x : Packages) (c : ReceiptCollector) (disk : D) :
    (∀ receipt result c' disk', ingest x receipt c disk = .ok (result, c', disk') →
      Clean c disk [receipt] result c' disk') ∧
    (∀ data result c' disk', processReceiptMessage x data c disk = .ok (result, c', disk') →
      Clean c disk (decoded x [data]) result c' disk') ∧
    (∀ receipt c' disk', ingest x receipt c disk = .ok (.error .unknownPool, c', disk') →
      ∀ pool, (c.stored pool).length < isizeMax →
        ∃ c'' disk'', ingest x receipt (c'.registerPool receipt.contentId pool) disk' =
            .ok (.ok (), c'', disk'') ∧
          AddedOne (c'.registerPool receipt.contentId pool) receipt pool c'') ∧
    (∀ data err c' disk', processReceiptMessage x data c disk = .ok (.error err, c', disk') →
      ∀ queue, drainChannel x (data :: queue) c disk = drainChannel x queue c disk) ∧
    (∀ queue count c' disk', drainChannel x queue c disk = .ok (count, c', disk') →
      c'.receiptCount = c.receiptCount + count) ∧
    (c.DeadlineFits → ∀ queue : List (List UInt8),
      (∀ pool, (c.stored pool).length + queue.length ≤ isizeMax) →
      ∃ count c' disk', drainChannel x queue c disk = .ok (count, c', disk')) := by
  refine ⟨fun _ _ _ _ h => ingest_clean h, fun _ _ _ _ h => processReceiptMessage_clean h,
    fun _ _ _ h pool hroom => ingest_registered h pool hroom,
    fun _ _ _ _ h queue => drainChannel_rejected h queue,
    fun _ _ _ _ h => drainChannel_count h, fun hfit queue hroom => ?_⟩
  rcases drainLoop_returns x queue 0 c disk hfit hroom with ⟨⟨count, c', disk'⟩, hrun⟩
  exact ⟨count, c', disk', hrun⟩

def hourUnregistered : ReceiptCollector :=
  ReceiptCollector.new 3600 7200 300

theorem hourUnregistered_unknownPool :
    ingest receiptPackages firstReceipt hourUnregistered FileTree.empty =
      .ok (.error .unknownPool, hourUnregistered, FileTree.empty) := by
  decide +kernel

/-- Before its content id is registered a receipt is refused, and afterwards accepted. -/
theorem firstReceipt_leaves_no_trace :
    Clean hourUnregistered FileTree.empty [firstReceipt] (.error .unknownPool) hourUnregistered
      FileTree.empty ∧
    (∃ c'' disk'', ingest receiptPackages firstReceipt
        (hourUnregistered.registerPool firstReceipt.contentId somePool) FileTree.empty =
          .ok (.ok (), c'', disk'') ∧
      AddedOne (hourUnregistered.registerPool firstReceipt.contentId somePool) firstReceipt
        somePool c'') ∧
    ∃ count c' disk',
      drainChannel receiptPackages [firstReceipt.bincode] hourUnregistered FileTree.empty =
        .ok (count, c', disk') ∧
      c'.receiptCount = hourUnregistered.receiptCount + count := by
  rcases rejected_receipts_leave_no_trace receiptPackages hourUnregistered FileTree.empty with
    ⟨hingest, -, hretry, -, hcount, hreturns⟩
  have hfit : hourUnregistered.DeadlineFits := by
    simp only [ReceiptCollector.DeadlineFits]
    decide
  have hroom : ∀ pool,
      (hourUnregistered.stored pool).length + [firstReceipt.bincode].length ≤ isizeMax := by
    intro pool
    show 0 + 1 ≤ isizeMax
    decide
  rcases hreturns hfit [firstReceipt.bincode] hroom with ⟨count, c', disk', hrun⟩
  exact ⟨hingest _ _ _ _ hourUnregistered_unknownPool,
    hretry _ _ _ hourUnregistered_unknownPool somePool (by decide),
    count, c', disk', hrun, hcount _ _ _ _ hrun⟩

/-- Without a deadline that fits a `u64`, draining one well-formed message does not return. -/
theorem drainChannel_overflows :
    drainChannel receiptPackages [firstReceipt.bincode]
      (ReceiptCollector.new 3600 18446744073709551615 300) FileTree.empty =
        .panic .overflow := by
  decide +kernel

end Aggregator
end CraftecCore
