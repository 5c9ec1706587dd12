import CraftecCore.Aggregator.Loop

/-!
# Boundary — receipts around the end of an epoch

A receipt may reach the channel while the loop is still busy with an earlier epoch.  The loop then
offers it to the window of that epoch, which rejects every timestamp from the end of the grace
period on, and the message is gone.  In a run where that does not happen, and no epoch ends with a
receipt of timestamp zero, every genuine receipt that entered the channel in time is part of a
distribution once its epoch was processed.
-/

namespace CraftecCore
namespace Aggregator

open Settlement FileSystem Prover Transition

/-! ## Receipts in time -/

/-- The checks of `ingest` that look neither at the window nor at duplicates. -/
structure Genuine (x : Packages) (c : ReceiptCollector) (receipt : StorageReceipt)
    (pool : Bytes 32) : Prop where
  storageNode : receipt.storageNode ≠ Bytes.zero 32
  contentId : receipt.contentId ≠ Bytes.zero 32
  signature : verifyReceiptSignature x receipt = .ok ()
  pool : c.cidToPool.get? receipt.contentId = some pool

theorem Genuine.congr {x : Packages} {c c' : ReceiptCollector} {receipt : StorageReceipt}
    {pool : Bytes 32} (h : Genuine x c' receipt pool) (hcids : c'.cidToPool = c.cidToPool) :
    Genuine x c receipt pool :=
  { storageNode := h.storageNode
    contentId := h.contentId
    signature := h.signature
    pool := hcids ▸ h.pool }

/-- Inside the window nothing else is checked. -/
theorem Genuine.acceptable {x : Packages} {c : ReceiptCollector} {receipt : StorageReceipt}
    {pool : Bytes 32} (h : Genuine x c receipt pool)
    (hstart : c.epochStart.toNat ≤ receipt.timestamp.toNat)
    (hend : receipt.timestamp.toNat < c.epochEnd.toNat + c.graceSecs.toNat) :
    Acceptable x c receipt pool :=
  { notEarly := hstart
    notLate := hend
    storageNode := h.storageNode
    contentId := h.contentId
    signature := h.signature
    pool := h.pool }

def epochOf (s : AggregatorService) (receipt : StorageReceipt) : ℕ :=
  receipt.timestamp.toNat / s.config.epochDurationSecs.toNat

section Runs

variable {D : Type}

/-- The receipt is part of a distribution that the end of some epoch built. -/
def Included (x : Packages) (s : LoopState D) (pool : Bytes 32) (receipt : StorageReceipt) :
    Prop :=
  ∃ receipts tx, (pool, receipts) ∈ s.log.taken ∧ receipt ∈ receipts ∧
    buildDistribution x pool receipts = .ok (.ok tx)

/-- No genuine receipt is lost: if it entered the channel before the final drain of its epoch and
was no duplicate when it was received, it is included once its epoch was processed. -/
def NoneLost (x : Packages) (s : LoopState D) : Prop :=
  ∀ (i : ℕ) (h : i < s.log.enqueued.length) (receipt : StorageReceipt) (pool : Bytes 32),
    receipt ∈ decoded x [s.log.enqueued[i].2] →
      Genuine x s.base.service.collector receipt pool → i ∉ s.log.duplicates →
        s.log.enqueued[i].1 ≤ epochOf s.base.service receipt →
          epochOf s.base.service receipt < s.currentEpoch → Included x s pool receipt

/-- Receipts enter the channel no earlier than their timestamp. -/
def Punctual (x : Packages) (s : LoopState D) : LoopEvent → Prop
  | .enqueue data => ∀ receipt ∈ decoded x [data], receipt.timestamp.toNat ≤ s.seconds
  | _ => True

/-- No genuine receipt with a new dedup hash is received when its timestamp is past the grace
period of the open window, and no epoch ends with a receipt of timestamp zero. -/
def InWindow (x : Packages) (s : LoopState D) : LoopEvent → Prop
  | .receive => ∀ data queue, s.queue = data :: queue → ∀ receipt ∈ decoded x [data], ∀ pool,
      Genuine x s.base.service.collector receipt pool →
        receipt.dedupHash x.sha256 ∉ s.base.service.collector.seen →
          receipt.timestamp.toNat <
            s.base.service.collector.epochEnd.toNat + s.base.service.collector.graceSecs.toNat
  | .epochEnd _ => ∀ pool, ∀ receipt ∈ s.base.service.collector.stored pool,
      receipt.timestamp ≠ 0
  | _ => True

/-! ## The invariant -/

/-- The `i`-th message was received; its receipt is included, or held for an epoch that is not
later than the one in which the message was due. -/
def Served (x : Packages) (s : LoopState D) (i : ℕ) (message : ℕ × List UInt8) : Prop :=
  ∀ receipt pool, receipt ∈ decoded x [message.2] →
    Genuine x s.base.service.collector receipt pool → i ∉ s.log.duplicates →
      message.1 ≤ epochOf s.base.service receipt →
        Included x s pool receipt ∨
          ((pool, receipt) ∈ s.base.history.accepted ∧ s.currentEpoch ≤ message.1)

/-- The messages received so far were served, and those in the channel are still in time. -/
structure InTime (x : Packages) (s : LoopState D) (past ahead : List (ℕ × List UInt8)) :
    Prop where
  enqueued : s.log.enqueued = past ++ ahead
  queue : s.queue = ahead.map Prod.snd
  due : ∀ message ∈ ahead, s.currentEpoch ≤ message.1
  served : ∀ (i : ℕ) (h : i < past.length), Served x s i past[i]

theorem InTime.received {x : Packages} {s : LoopState D} {past ahead : List (ℕ × List UInt8)}
    (h : InTime x s past ahead) : s.received = past.length := by
  simp [LoopState.received, h.enqueued, h.queue]

theorem currentEpoch_le_dueEpoch (s : LoopState D) : s.currentEpoch ≤ s.dueEpoch := by
  unfold LoopState.dueEpoch
  split
  · exact Nat.le_succ _
  · exact le_rfl

/-- What was served stays so while receipts are taken from the pools at most. -/
theorem Served.mono {x : Packages} {s s' : LoopState D} {i : ℕ} {message : ℕ × List UInt8}
    (h : Served x s i message)
    (hcids : s'.base.service.collector.cidToPool = s.base.service.collector.cidToPool)
    (hconfig : s'.base.service.config = s.base.service.config)
    (hduplicates : i ∉ s'.log.duplicates → i ∉ s.log.duplicates)
    (htaken : ∀ batch ∈ s.log.taken, batch ∈ s'.log.taken)
    (haccepted : ∀ pool receipt, (pool, receipt) ∈ s.base.history.accepted →
      s.currentEpoch ≤ message.1 → Included x s' pool receipt ∨
        ((pool, receipt) ∈ s'.base.history.accepted ∧ s'.currentEpoch ≤ message.1)) :
    Served x s' i message := by
  intro receipt pool hdecoded hgenuine hdup hdue
  have hdue' : message.1 ≤ epochOf s.base.service receipt := by
    simpa [epochOf, hconfig] using hdue
  rcases h receipt pool hdecoded (hgenuine.congr hcids) (hduplicates hdup) hdue' with
    ⟨receipts, tx, hmem, hr, hbuild⟩ | ⟨hheld, hepoch⟩
  · exact Or.inl ⟨receipts, tx, htaken _ hmem, hr, hbuild⟩
  · exact haccepted pool receipt hheld hepoch

/-- A message is served when it is received: its receipt was seen before, or is accepted now. -/
theorem InTime.served_received [FileSystem D] {x : Packages} {s : LoopState D}
    {past ahead : List (ℕ × List UInt8)} {message : ℕ × List UInt8} (htallied : Tallied x s)
    (h : InTime x s past (message :: ahead)) {queue : List (List UInt8)}
    {accepted : List (Bytes 32 × StorageReceipt)} {c' : ReceiptCollector} {disk' : D}
    (hqueue : s.queue = message.2 :: queue) (hallowed : InWindow x s .receive)
    (hrun : ingestAll x (decoded x [message.2]) s.base.service.collector s.base.disk =
      .ok (accepted, c', disk')) :
    Served x (s.receive x message.2 queue c' disk') past.length message := by
  have htook := ingestAll_took hrun
  intro receipt pool hdecoded hgenuine' hdup hdue
  have hgenuine : Genuine x s.base.service.collector receipt pool :=
    hgenuine'.congr htook.settings.cidToPool
  have hone : decoded x [message.2] = [receipt] := decoded_singleton hdecoded
  have hnew : receipt.dedupHash x.sha256 ∉ s.base.service.collector.seen := by
    intro hseen
    apply hdup
    have hdup' : s.Seen x message.2 := ⟨receipt, hdecoded, hseen⟩
    simp [LoopState.receive, hdup', h.received]
  have hepoch : s.currentEpoch ≤ message.1 := h.due message List.mem_cons_self
  have hstart : s.base.service.collector.epochStart.toNat ≤ receipt.timestamp.toNat := by
    rw [htallied.consistent.aligned.epochStart]
    calc s.currentEpoch * s.base.service.config.epochDurationSecs.toNat
        ≤ epochOf s.base.service receipt * s.base.service.config.epochDurationSecs.toNat :=
          Nat.mul_le_mul_right _ (hepoch.trans hdue)
      _ ≤ receipt.timestamp.toNat := Nat.div_mul_le_self _ _
  have hend := hallowed _ _ hqueue receipt hdecoded pool hgenuine hnew
  have hacc : Acceptable x s.base.service.collector receipt pool :=
    hgenuine.acceptable hstart hend
  -- nothing else was offered, so it is this receipt that was accepted
  rcases htook.exists_accepted hdecoded hacc hnew with ⟨a, ha, -⟩
  have hreceipt : a.2 = receipt := by
    have hoffered := (htook.sound a ha).1
    rw [hone] at hoffered
    exact List.mem_singleton.1 hoffered
  have hpool : a.1 = pool := htook.pool_eq ha hacc (by rw [hreceipt])
  have hmem : (pool, receipt) ∈ accepted := by
    rw [← hpool, ← hreceipt]
    exact ha
  refine Or.inr ⟨?_, hepoch⟩
  simp only [LoopState.receive, State.deliver, acceptedBy_eq hrun]
  exact List.mem_append_right _ hmem

/-- Receiving a message keeps what was served, and serves it. -/
theorem InTime.receive [FileSystem D] {x : Packages} {s : LoopState D}
    {past ahead : List (ℕ × List UInt8)} (htallied : Tallied x s) (h : InTime x s past ahead)
    {data : List UInt8} {queue : List (List UInt8)} {accepted : List (Bytes 32 × StorageReceipt)}
    {c' : ReceiptCollector} {disk' : D} (hqueue : s.queue = data :: queue)
    (hallowed : InWindow x s .receive)
    (hrun : ingestAll x (decoded x [data]) s.base.service.collector s.base.disk =
      .ok (accepted, c', disk')) :
    ∃ past' ahead', InTime x (s.receive x data queue c' disk') past' ahead' := by
  have hsettings := (ingestAll_took hrun).settings
  rcases List.map_eq_cons_iff.1 (h.queue.symm.trans hqueue) with ⟨message, ahead', rfl, rfl, hrest⟩
  refine ⟨past ++ [message], ahead', ?_⟩
  exact
    { enqueued := by
        simp only [LoopState.receive, h.enqueued, List.append_assoc, List.singleton_append]
      queue := hrest.symm
      due := fun m hm => h.due m (List.mem_cons_of_mem _ hm)
      served := by
        intro i hi
        by_cases hold : i < past.length
        · -- an earlier message
          rw [List.getElem_append_left hold]
          refine (h.served i hold).mono hsettings.cidToPool rfl ?_ (fun _ hb => hb) ?_
          · intro hdup hmem
            apply hdup
            simp only [LoopState.receive]
            split
            · exact List.mem_append_left _ hmem
            · exact hmem
          · exact fun pool receipt hheld hepoch =>
              Or.inr ⟨List.mem_append_left _ hheld, hepoch⟩
        · -- the message just received
          have hi' : i = past.length := by
            simp only [List.length_append, List.length_singleton] at hi
            exact Nat.le_antisymm (Nat.le_of_lt_succ hi) (Nat.le_of_not_lt hold)
          subst hi'
          simpa using h.served_received htallied hqueue hallowed hrun }

/-- The end of an epoch includes what the collector holds. -/
theorem InTime.close {x : Packages} {s : LoopState D} {past ahead : List (ℕ × List UInt8)}
    (htallied : Tallied x s) (h : InTime x s past ahead) {pools : List (Bytes 32)}
    {results : List (Except AggregatorError BuiltTransaction)} {service' : AggregatorService}
    (hqueue : s.queue = []) (hperm : pools.Perm s.base.service.collector.pools)
    (hallowed : InWindow x s (.epochEnd pools))
    (hadv : s.base.service.advanceEpoch = .ok service') :
    ∃ past' ahead', InTime x (s.close pools results service') past' ahead' := by
  have hholds := htallied.consistent.holds
  have hnil : ahead = [] := List.map_eq_nil_iff.1 (h.queue.symm.trans hqueue)
  subst hnil
  rcases advanceEpoch_cases hadv with ⟨hconfig, -, -, -, -, -⟩
  refine ⟨past, [], { enqueued := h.enqueued, queue := hqueue, due := by simp, served := ?_ }⟩
  intro i hi
  refine (h.served i hi).mono (advanceEpoch_cidToPool hadv) hconfig (fun hdup => hdup)
    (fun _ hb => List.mem_append_left _ hb) ?_
  intro pool receipt hheld _
  refine Or.inl ?_
  -- the receipt is in the batch of its pool, and all of that can be proved
  have hmem : receipt ∈ s.base.service.collector.stored pool := hholds.mem_stored.2 hheld
  have hall : ∀ r ∈ s.base.service.collector.stored pool, Provable r := by
    intro r hr
    exact ⟨by simp [ContributionReceipt.weight], hallowed pool r hr,
      hholds.storageNode_stored pool r hr⟩
  rcases buildDistribution_eq_ok x pool (List.ne_nil_of_mem hmem) (hholds.capacity pool) hall
    with ⟨tx, hbuild, -, -⟩
  exact ⟨_, tx, List.mem_append_right _ (hholds.mem_batches hperm hheld), hmem, hbuild⟩

variable [FileSystem D]

theorem InTime.next {x : Packages} {s s' : LoopState D} {e : LoopEvent}
    {past ahead : List (ℕ × List UInt8)} (htallied : Tallied x s) (h : InTime x s past ahead)
    (hallowed : InWindow x s e) (hnext : LoopNext x s e s') :
    ∃ past' ahead', InTime x s' past' ahead' := by
  -- a step that leaves service, taken batches and received messages alone
  have hkeep : ∀ {s'' : LoopState D}, s''.base = s.base → s''.log.taken = s.log.taken →
      s''.log.duplicates = s.log.duplicates →
      ∀ (i : ℕ) (hi : i < past.length), Served x s'' i past[i] := by
    intro s'' hbase htaken hdup i hi
    have hepoch : s''.currentEpoch = s.currentEpoch := by
      simp only [LoopState.currentEpoch, hbase]
    refine (h.served i hi).mono (by rw [hbase]) (by rw [hbase]) (by rw [hdup]; exact id)
      (by rw [htaken]; exact fun _ hb => hb) ?_
    intro pool receipt hheld hle
    exact Or.inr ⟨hbase ▸ hheld, hepoch ▸ hle⟩
  rcases loopNext_cases hnext with
    ⟨data, rfl⟩ | ⟨hbase, hqueue, hlog, -⟩ |
      ⟨data, queue, accepted, c', disk', rfl, -, hqueue, hrun, rfl⟩ |
      ⟨pools, results, service', rfl, -, hqueue, hperm, hrun, rfl⟩ | ⟨results, fate, -, rfl⟩
  · exact ⟨past, ahead ++ [(s.dueEpoch, data)],
      { enqueued := by simp [LoopState.enqueue, h.enqueued]
        queue := by simp [LoopState.enqueue, h.queue]
        due := by
          intro message hm
          rcases List.mem_append.1 hm with hm | hm
          · exact h.due message hm
          · rw [List.mem_singleton.1 hm]
            exact currentEpoch_le_dueEpoch s
        served := hkeep rfl rfl rfl }⟩
  · exact ⟨past, ahead,
      { enqueued := by rw [hlog]; exact h.enqueued
        queue := by rw [hqueue]; exact h.queue
        due := by
          simp only [LoopState.currentEpoch, hbase]
          exact h.due
        served := hkeep hbase (by rw [hlog]) (by rw [hlog]) }⟩
  · exact h.receive htallied hqueue hallowed hrun
  · exact h.close htallied hqueue hperm hallowed (processEpochEnd_cases hrun)
  · exact ⟨past, ahead,
      { enqueued := h.enqueued
        queue := h.queue
        due := h.due
        served := hkeep rfl rfl rfl }⟩

/-- In a run whose receptions and ends of epochs meet the condition, no receipt is lost. -/
theorem noneLost_of_inWindow (x : Packages) {s : LoopState D}
    (hrun : Run (LoopStarted x) (LoopNext x) (fun s e => Punctual x s e ∧ InWindow x s e) s) :
    NoneLost x s := by
  have hinv : Tallied x s ∧ ∃ past ahead, InTime x s past ahead := by
    refine Run.invariant (I := fun s => Tallied x s ∧ ∃ past ahead, InTime x s past ahead)
      ?_ ?_ hrun
    · intro s hs
      have hstart := Tallied.start hs
      rcases hs with ⟨-, hqueue, -, hlog⟩
      exact ⟨hstart, [], [],
        { enqueued := by simp [hlog]
          queue := by simp [hqueue]
          due := by simp
          served := by simp }⟩
    · rintro s e s' ⟨htallied, past, ahead, h⟩ ⟨-, hallowed⟩ hnext
      exact ⟨htallied.next hnext, h.next htallied hallowed hnext⟩
  rcases hinv with ⟨-, past, ahead, h⟩
  intro i hi receipt pool hdecoded hgenuine hdup hdue hprocessed
  have hlate : ¬ s.currentEpoch ≤ s.log.enqueued[i].1 := by omega
  simp only [h.enqueued] at hdecoded hdue hlate hi
  by_cases hold : i < past.length
  · rw [List.getElem_append_left hold] at hdecoded hdue hlate
    rcases h.served i hold receipt pool hdecoded hgenuine hdup hdue with hincluded | ⟨-, hepoch⟩
    · exact hincluded
    · exact absurd hepoch hlate
  · -- still in the channel: then its epoch was not processed
    rw [List.getElem_append_right (Nat.le_of_not_lt hold)] at hlate
    exact absurd (h.due _ (List.getElem_mem _)) hlate

end Runs

/-! ## Two runs of the late receipt -/

theorem decoded_lateReceipt : decoded receiptPackages [lateReceipt.bincode] = [lateReceipt] := by
  decide +kernel

theorem punctual_lateReceipt {s : LoopState FileTree} (h : s.seconds = 7205) :
    Punctual receiptPackages s (.enqueue lateReceipt.bincode) := by
  intro receipt hreceipt
  rw [decoded_lateReceipt, List.mem_singleton] at hreceipt
  rw [hreceipt, h]
  decide

theorem genuine_lateReceipt (epoch : UInt64) :
    Genuine receiptPackages (shortService epoch).collector lateReceipt somePool :=
  { storageNode := by decide +kernel
    contentId := by decide +kernel
    signature := by decide +kernel
    pool := by
      show (SortedMap.empty.insert someContent somePool).get? lateReceipt.contentId = some somePool
      decide +kernel }

/-- Received in its own epoch, the receipt is included. -/
theorem lateReceipt_included : Included receiptPackages shortSubmitting somePool lateReceipt := by
  have hrun : Run (LoopStarted receiptPackages) (LoopNext receiptPackages)
      (fun s e => Punctual receiptPackages s e ∧ InWindow receiptPackages s e)
      shortSubmitting := by
    apply run_shortSubmitting
    · exact fun _ => ⟨⟨trivial, trivial⟩, ⟨trivial, trivial⟩, ⟨trivial, trivial⟩⟩
    · exact fun _ _ => ⟨trivial, trivial⟩
    · exact fun s hseconds => ⟨punctual_lateReceipt hseconds, trivial⟩
    · refine ⟨trivial, ?_⟩
      intro data queue hqueue receipt hreceipt pool _ _
      have hdata : lateReceipt.bincode = data := (List.cons.inj hqueue).1
      rw [← hdata, decoded_lateReceipt, List.mem_singleton] at hreceipt
      rw [hreceipt]
      decide
    · refine ⟨trivial, ?_⟩
      intro pool receipt hreceipt
      have hempty : (shortService 720).collector.stored pool = [] := by
        simp [shortService, ReceiptCollector.stored, ReceiptCollector.registerPool,
          ReceiptCollector.new]
      have hlate : shortDrained.base.service.collector = shortLate 720 := rfl
      rw [hlate, shortLate, ReceiptCollector.stored_accept, hempty, List.nil_append] at hreceipt
      split at hreceipt
      · rw [List.mem_singleton.1 hreceipt]
        decide
      · exact absurd hreceipt List.not_mem_nil
  exact noneLost_of_inWindow receiptPackages hrun 0 (by decide) lateReceipt somePool
    (by rw [show shortSubmitting.log.enqueued[0].2 = lateReceipt.bincode from rfl,
      decoded_lateReceipt]; exact List.mem_singleton_self _)
    (genuine_lateReceipt 721) (by decide +kernel) (by decide +kernel) (by decide +kernel)

/-- Entered at 7195, the loop wakes at 7205 for the final drain of its epoch, and receives a receipt
that was made and sent in that very second.  The window of the ended epoch rejects it, and it is in
no distribution when its own epoch was processed. -/
theorem lateReceipt_lost :
    ∃ s : LoopState FileTree,
      Run (LoopStarted receiptPackages) (LoopNext receiptPackages) (Punctual receiptPackages) s ∧
      ¬ NoneLost receiptPackages s := by
  have hstart := run_shortStart (Punctual receiptPackages) 719 7195 (by decide +kernel)
  have hwait : waitSecs (shortService 719) 7195 = .ok 5 := by decide +kernel
  have hwait' : waitSecs (shortService 720) 7205 = .ok 5 := by decide +kernel
  have hrejected : processReceiptMessage receiptPackages lateReceipt.bincode
      (shortService 719).collector FileTree.empty =
        .ok (.error (.timestampOutOfRange 7205 7190 7205), (shortService 719).collector,
          FileTree.empty) := by
    decide +kernel
  have hadv : (shortService 719).advanceEpoch = .ok (shortService 720) := by decide +kernel
  have hadv' : (shortService 720).advanceEpoch = .ok (shortService 721) := by decide +kernel
  have hend : processEpochEnd receiptPackages [] (shortService 719) =
      .ok ([], shortService 720) := by
    simp [processEpochEnd, hadv]
  have hend' : processEpochEnd receiptPackages [] (shortService 720) =
      .ok ([], shortService 721) := by
    simp [processEpochEnd, hadv']
  have hidle : ∀ s : LoopState FileTree, Punctual receiptPackages s .turn ∧
      Punctual receiptPackages s .wake ∧ Punctual receiptPackages s .sleepAgain ∧
        Punctual receiptPackages s .again :=
    fun _ => ⟨trivial, trivial, trivial, trivial⟩
  have htick : ∀ s : LoopState FileTree, Punctual receiptPackages s (.tick (5 * 10 ^ 9)) :=
    fun _ => trivial
  have hreceive : ∀ s : LoopState FileTree, Punctual receiptPackages s .receive := fun _ => trivial
  have hclose : ∀ s : LoopState FileTree, Punctual receiptPackages s (.epochEnd []) :=
    fun _ => trivial
  -- the first epoch: the receipt arrives just before the final drain
  have hasleep := hstart.step (hidle _).1 (LoopNext.turn rfl hwait)
  have hpoll := hasleep.step (htick _) (LoopNext.tick _ (5 * 10 ^ 9))
  have hpolling := hpoll.step (hidle _).2.1 (LoopNext.wake rfl (by decide))
  have hpolled := hpolling.step (hidle _).2.2.1 (LoopNext.sleepAgain rfl rfl)
  have hgrace := hpolled.step (htick _) (LoopNext.tick _ (5 * 10 ^ 9))
  have harrived := hgrace.step (punctual_lateReceipt (by decide))
    (LoopNext.enqueue _ lateReceipt.bincode)
  have hdrain := harrived.step (hidle _).2.1 (LoopNext.wake rfl (by decide))
  have hreceived := hdrain.step (hreceive _) (LoopNext.receive rfl rfl hrejected)
  have hclosed := hreceived.step (hclose _)
    (LoopNext.epochEnd rfl rfl (List.Perm.refl []) hend)
  have hturn := hclosed.step (hidle _).2.2.2 (LoopNext.again rfl)
  -- the second epoch, in which nothing arrives
  have hasleep' := hturn.step (hidle _).1 (LoopNext.turn rfl hwait')
  have hpoll' := hasleep'.step (htick _) (LoopNext.tick _ (5 * 10 ^ 9))
  have hpolling' := hpoll'.step (hidle _).2.1 (LoopNext.wake rfl (by decide))
  have hpolled' := hpolling'.step (hidle _).2.2.1 (LoopNext.sleepAgain rfl rfl)
  have hgrace' := hpolled'.step (htick _) (LoopNext.tick _ (5 * 10 ^ 9))
  have hdrain' := hgrace'.step (hidle _).2.1 (LoopNext.wake rfl (by decide))
  have hclosed' := hdrain'.step (hclose _)
    (LoopNext.epochEnd rfl rfl (List.Perm.refl []) hend')
  refine ⟨_, hclosed', ?_⟩
  intro hnone
  have hdecoded : lateReceipt ∈ decoded receiptPackages [lateReceipt.bincode] := by
    rw [decoded_lateReceipt]
    exact List.mem_singleton_self _
  rcases hnone 0 (by decide) lateReceipt somePool hdecoded (genuine_lateReceipt 721)
    (by decide +kernel) (by decide +kernel) (by decide +kernel) with ⟨receipts, tx, htaken, -, -⟩
  exact absurd htaken List.not_mem_nil

end Aggregator
end CraftecCore
