import CraftecCore.Aggregator.Intake
import CraftecCore.Library.Run

/-!
# Lifetime — a collector under any sequence of calls

A collector may be registered with, offered receipts, drained pool by pool and reset, in any order.
The state of such a run carries the receipts drained since the last reset.  `Keeps` is the
invariant: what is stored or was drained since the last reset was accepted under the present window,
each dedup hash once.
-/

namespace CraftecCore
namespace Aggregator

open Settlement FileSystem Transition

/-! ## Runs of calls -/

/-- The collector, its disk, and the receipts drained since the last reset. -/
structure CollectorState (D : Type) where
  collector : ReceiptCollector
  disk : D
  drained : List StorageReceipt

def CollectorStarted {D : Type} (s : CollectorState D) : Prop :=
  (∃ epochStart epochEnd graceSecs,
    s.collector = ReceiptCollector.new epochStart epochEnd graceSecs) ∧ s.drained = []

/-- The calls on a collector.  `with_persistence` is `set_persist_dir` on an owned collector. -/
inductive CollectorCall
  | setPersistDir (dir : Path)
  | registerPool (contentId poolPubkey : Bytes 32)
  | ingest (receipt : StorageReceipt)
  | message (data : List UInt8)
  | drainChannel (queue : List (List UInt8))
  | takeReceipts (pool : Bytes 32)
  | reset (epochStart epochEnd : UInt64)

section Calls

variable {D : Type} [FileSystem D]

inductive CollectorNext (x : Packages) :
    CollectorState D → CollectorCall → CollectorState D → Prop
  | setPersistDir (s : CollectorState D) (dir : Path) :
      CollectorNext x s (.setPersistDir dir) { s with collector := s.collector.setPersistDir dir }
  | registerPool (s : CollectorState D) (contentId poolPubkey : Bytes 32) :
      CollectorNext x s (.registerPool contentId poolPubkey)
        { s with collector := s.collector.registerPool contentId poolPubkey }
  | ingest {s : CollectorState D} {receipt : StorageReceipt} {result : Except AggregatorError Unit}
      {c' : ReceiptCollector} {disk' : D} :
      Aggregator.ingest x receipt s.collector s.disk = .ok (result, c', disk') →
        CollectorNext x s (.ingest receipt) { s with collector := c', disk := disk' }
  | message {s : CollectorState D} {data : List UInt8} {result : Except AggregatorError Unit}
      {c' : ReceiptCollector} {disk' : D} :
      processReceiptMessage x data s.collector s.disk = .ok (result, c', disk') →
        CollectorNext x s (.message data) { s with collector := c', disk := disk' }
  | drainChannel {s : CollectorState D} {queue : List (List UInt8)} {count : ℕ}
      {c' : ReceiptCollector} {disk' : D} :
      Aggregator.drainChannel x queue s.collector s.disk = .ok (count, c', disk') →
        CollectorNext x s (.drainChannel queue) { s with collector := c', disk := disk' }
  | takeReceipts (s : CollectorState D) (pool : Bytes 32) :
      CollectorNext x s (.takeReceipts pool)
        { s with
          collector := (s.collector.takeReceipts pool).2
          drained := s.drained ++ (s.collector.takeReceipts pool).1 }
  | reset (s : CollectorState D) (epochStart epochEnd : UInt64) :
      CollectorNext x s (.reset epochStart epochEnd)
        { s with
          collector := s.collector.reset epochStart epochEnd
          drained := [] }

/-- A call sets a registration or the directory, offers receipts, drains a pool, or resets. -/
theorem collectorNext_cases {x : Packages} {s s' : CollectorState D} {call : CollectorCall}
    (h : CollectorNext x s call s') :
    (s'.collector.poolReceipts = s.collector.poolReceipts ∧
      s'.collector.seen = s.collector.seen ∧ s'.collector.epochStart = s.collector.epochStart ∧
      s'.collector.epochEnd = s.collector.epochEnd ∧
      s'.collector.graceSecs = s.collector.graceSecs ∧ s'.drained = s.drained) ∨
    (∃ offered accepted, Took x s.collector offered accepted s'.collector ∧
      s'.drained = s.drained) ∨
    (∃ pool, s'.collector = (s.collector.takeReceipts pool).2 ∧
      s'.drained = s.drained ++ s.collector.stored pool) ∨
    (s'.collector.poolReceipts = SortedMap.empty ∧ s'.drained = []) := by
  cases h with
  | setPersistDir dir => exact Or.inl ⟨rfl, rfl, rfl, rfl, rfl, rfl⟩
  | registerPool contentId poolPubkey => exact Or.inl ⟨rfl, rfl, rfl, rfl, rfl, rfl⟩
  | ingest hrun =>
      rcases ingest_took hrun with ⟨pool, -, -, htook⟩ | ⟨-, -, -, htook⟩
      · exact Or.inr (Or.inl ⟨_, _, htook, rfl⟩)
      · exact Or.inr (Or.inl ⟨_, _, htook, rfl⟩)
  | message hrun =>
      -- a malformed message offers nothing
      rcases processReceiptMessage_cases hrun with ⟨-, rfl, rfl⟩ | ⟨receipt, -, hrun'⟩
      · exact Or.inr (Or.inl ⟨[], [], Took.nil x _, rfl⟩)
      · rcases ingest_took hrun' with ⟨pool, -, -, htook⟩ | ⟨-, -, -, htook⟩
        · exact Or.inr (Or.inl ⟨_, _, htook, rfl⟩)
        · exact Or.inr (Or.inl ⟨_, _, htook, rfl⟩)
  | drainChannel hrun =>
      rw [drainChannel_eq, Outcome.bind_eq_ok] at hrun
      rcases hrun with ⟨⟨accepted, c₁, disk₁⟩, hall, heq⟩
      simp only [Outcome.pure_eq, Outcome.ok.injEq, Prod.mk.injEq] at heq
      rcases heq with ⟨-, rfl, rfl⟩
      exact Or.inr (Or.inl ⟨_, _, ingestAll_took hall, rfl⟩)
  | takeReceipts pool => exact Or.inr (Or.inr (Or.inl ⟨pool, rfl, rfl⟩))
  | reset epochStart epochEnd => exact Or.inr (Or.inr (Or.inr ⟨rfl, rfl⟩))

end Calls

/-! ## The invariant -/

/-- The receipt belongs in the collector's window and is signed. -/
structure Valid (x : Packages) (c : ReceiptCollector) (receipt : StorageReceipt) : Prop where
  notEarly : c.epochStart.toNat ≤ receipt.timestamp.toNat
  notLate : receipt.timestamp.toNat < c.epochEnd.toNat + c.graceSecs.toNat
  storageNode : receipt.storageNode ≠ Bytes.zero 32
  contentId : receipt.contentId ≠ Bytes.zero 32
  signature : verifyReceiptSignature x receipt = .ok ()

theorem Valid.congr {x : Packages} {c c' : ReceiptCollector} {receipt : StorageReceipt}
    (h : Valid x c receipt) (hstart : c'.epochStart = c.epochStart)
    (hend : c'.epochEnd = c.epochEnd) (hgrace : c'.graceSecs = c.graceSecs) :
    Valid x c' receipt :=
  { notEarly := by rw [hstart]; exact h.notEarly
    notLate := by rw [hend, hgrace]; exact h.notLate
    storageNode := h.storageNode
    contentId := h.contentId
    signature := h.signature }

theorem Acceptable.valid {x : Packages} {c : ReceiptCollector} {receipt : StorageReceipt}
    {pool : Bytes 32} (h : Acceptable x c receipt pool) : Valid x c receipt :=
  { notEarly := h.notEarly
    notLate := h.notLate
    storageNode := h.storageNode
    contentId := h.contentId
    signature := h.signature }

/-- Of the receipts accepted since the last reset, some are stored and some were drained. -/
structure Keeps {D : Type} (x : Packages) (s : CollectorState D)
    (accepted : List (Bytes 32 × StorageReceipt)) : Prop where
  stored : ∀ pool, (s.collector.stored pool).Sublist (ofPool accepted pool)
  drained : ∀ r ∈ s.drained, ∃ pool, (pool, r) ∈ accepted
  seen : ∀ a ∈ accepted, a.2.dedupHash x.sha256 ∈ s.collector.seen
  distinct : (accepted.map fun a => a.2.dedupHash x.sha256).Nodup
  valid : ∀ a ∈ accepted, Valid x s.collector a.2
  nonempty : ∀ pool, s.collector.poolReceipts.get? pool ≠ some []
  fits : accepted ≠ [] → s.collector.DeadlineFits

theorem Keeps.of_empty {D : Type} (x : Packages) {s : CollectorState D}
    (hpools : s.collector.poolReceipts = SortedMap.empty) (hdrained : s.drained = []) :
    Keeps x s [] :=
  { stored := fun pool => by simp [ReceiptCollector.stored, hpools]
    drained := fun r hr => by simp [hdrained] at hr
    seen := fun a ha => absurd ha List.not_mem_nil
    distinct := List.nodup_nil
    valid := fun a ha => absurd ha List.not_mem_nil
    nonempty := fun pool => by simp [hpools]
    fits := fun h => absurd rfl h }

theorem Keeps.start {D : Type} (x : Packages) {s : CollectorState D} (h : CollectorStarted s) :
    Keeps x s [] := by
  rcases h with ⟨⟨epochStart, epochEnd, graceSecs, hnew⟩, hdrained⟩
  exact Keeps.of_empty x (by rw [hnew]; rfl) hdrained

/-- Offering receipts adds those accepted. -/
theorem Keeps.took {D : Type} {x : Packages} {s s' : CollectorState D}
    {offered : List StorageReceipt} {accepted accepted' : List (Bytes 32 × StorageReceipt)}
    (h : Keeps x s accepted) (ht : Took x s.collector offered accepted' s'.collector)
    (hdrained : s'.drained = s.drained) : Keeps x s' (accepted ++ accepted') where
  stored := by
    intro pool
    rw [ht.stored, ofPool_append]
    exact (h.stored pool).append (List.Sublist.refl _)
  drained := by
    intro r hr
    rw [hdrained] at hr
    rcases h.drained r hr with ⟨pool, hmem⟩
    exact ⟨pool, List.mem_append_left _ hmem⟩
  -- a receipt that was drained since is still seen
  seen := ht.seen_append h.seen
  distinct := ht.distinct_append h.seen h.distinct
  valid := by
    intro a ha
    have hvalid : Valid x s.collector a.2 := by
      rcases List.mem_append.1 ha with ha | ha
      · exact h.valid a ha
      · exact (ht.sound a ha).2.valid
    exact hvalid.congr ht.settings.epochStart ht.settings.epochEnd ht.settings.graceSecs
  nonempty := by
    intro pool hnil
    have hempty : s'.collector.stored pool = [] := by simp [ReceiptCollector.stored, hnil]
    rw [ht.stored, List.append_eq_nil_iff] at hempty
    -- a pool that is listed was listed before, or has an accepted receipt
    have hlisted : pool ∈ s'.collector.pools := SortedMap.mem_keys.2 ⟨[], hnil⟩
    rcases (ht.pools pool).1 hlisted with hold | ⟨a, ha, rfl⟩
    · rcases SortedMap.mem_keys.1 hold with ⟨receipts, hget⟩
      have hreceipts : receipts = [] := by
        simpa [ReceiptCollector.stored, hget] using hempty.1
      exact h.nonempty pool (hreceipts ▸ hget)
    · have hmem : a.2 ∈ ofPool accepted' a.1 := mem_ofPool.2 ha
      rw [hempty.2] at hmem
      exact List.not_mem_nil hmem
  fits := by
    intro hne
    rw [ht.settings.deadlineFits]
    by_cases hold : accepted = []
    · -- then something was offered now
      refine ht.fits ?_
      rintro rfl
      rcases List.exists_mem_of_ne_nil _ hne with ⟨a, ha⟩
      rw [hold, List.nil_append] at ha
      exact List.not_mem_nil (ht.sound a ha).1
    · exact h.fits hold

/-- Draining a pool moves its receipts. -/
theorem Keeps.takeReceipts {D : Type} {x : Packages} {s s' : CollectorState D}
    {accepted : List (Bytes 32 × StorageReceipt)} (h : Keeps x s accepted) {pool : Bytes 32}
    (hcollector : s'.collector = (s.collector.takeReceipts pool).2)
    (hdrained : s'.drained = s.drained ++ s.collector.stored pool) : Keeps x s' accepted where
  stored := by
    intro other
    rw [hcollector]
    by_cases hother : other = pool
    · simp [ReceiptCollector.takeReceipts, ReceiptCollector.stored, SortedMap.get?_erase, hother]
    · simpa [ReceiptCollector.takeReceipts, ReceiptCollector.stored, SortedMap.get?_erase,
        hother] using h.stored other
  drained := by
    intro r hr
    rw [hdrained] at hr
    rcases List.mem_append.1 hr with hr | hr
    · exact h.drained r hr
    · exact ⟨pool, mem_ofPool.1 ((h.stored pool).subset hr)⟩
  seen := by
    rw [hcollector]
    exact h.seen
  distinct := h.distinct
  valid := by
    rw [hcollector]
    exact fun a ha => (h.valid a ha).congr rfl rfl rfl
  nonempty := by
    intro other
    rw [hcollector]
    by_cases hother : other = pool
    · simp [ReceiptCollector.takeReceipts, SortedMap.get?_erase, hother]
    · simpa [ReceiptCollector.takeReceipts, SortedMap.get?_erase, hother] using h.nonempty other
  fits := by
    rw [hcollector]
    exact h.fits

section Runs

variable {D : Type} [FileSystem D]

theorem Keeps.next {x : Packages} {s s' : CollectorState D} {call : CollectorCall}
    {accepted : List (Bytes 32 × StorageReceipt)} (h : Keeps x s accepted)
    (hnext : CollectorNext x s call s') : ∃ accepted', Keeps x s' accepted' := by
  rcases collectorNext_cases hnext with
    ⟨hpools, hseen, hstart, hend, hgrace, hdrained⟩ | ⟨offered, accepted', htook, hdrained⟩ |
      ⟨pool, hcollector, hdrained⟩ | ⟨hpools, hdrained⟩
  · exact ⟨accepted,
      { stored := fun pool => by simpa [ReceiptCollector.stored, hpools] using h.stored pool
        drained := by rw [hdrained]; exact h.drained
        seen := by rw [hseen]; exact h.seen
        distinct := h.distinct
        valid := fun a ha => (h.valid a ha).congr hstart hend hgrace
        nonempty := by rw [hpools]; exact h.nonempty
        fits := by simpa [ReceiptCollector.DeadlineFits, hend, hgrace] using h.fits }⟩
  · exact ⟨accepted ++ accepted', h.took htook hdrained⟩
  · exact ⟨accepted, h.takeReceipts hcollector hdrained⟩
  · exact ⟨[], Keeps.of_empty x hpools hdrained⟩

theorem Keeps.of_run {x : Packages} {s : CollectorState D}
    (h : Run CollectorStarted (CollectorNext x) (fun _ _ => True) s) :
    ∃ accepted, Keeps x s accepted := by
  refine Run.invariant (I := fun s => ∃ accepted, Keeps x s accepted) ?_ ?_ h
  · intro s hs
    exact ⟨[], Keeps.start x hs⟩
  · rintro s call s' ⟨accepted, hs⟩ - hnext
    exact hs.next hnext

end Runs

/-! ## What the invariant says -/

def ReceiptCollector.allReceipts (c : ReceiptCollector) : List StorageReceipt :=
  c.poolReceipts.values.flatten

theorem ReceiptCollector.mem_allReceipts {c : ReceiptCollector} {receipt : StorageReceipt} :
    receipt ∈ c.allReceipts ↔ ∃ pool, receipt ∈ c.stored pool := by
  simp only [allReceipts, List.mem_flatten, SortedMap.mem_values]
  constructor
  · rintro ⟨receipts, ⟨pool, hget⟩, hmem⟩
    exact ⟨pool, by simpa [stored, hget] using hmem⟩
  · rintro ⟨pool, hmem⟩
    cases hget : c.poolReceipts.get? pool with
    | none => simp [stored, hget] at hmem
    | some receipts => exact ⟨receipts, ⟨pool, hget⟩, by simpa [stored, hget] using hmem⟩

section Keeps

variable {D : Type} {x : Packages} {s : CollectorState D}
  {accepted : List (Bytes 32 × StorageReceipt)}

theorem Keeps.mem_accepted (h : Keeps x s accepted) {pool : Bytes 32} {receipt : StorageReceipt}
    (hr : receipt ∈ s.collector.stored pool) : (pool, receipt) ∈ accepted :=
  mem_ofPool.1 ((h.stored pool).subset hr)

/-- The dedup hashes of all stored receipts are distinct, within a pool and across pools. -/
theorem Keeps.nodup_allReceipts (h : Keeps x s accepted) :
    (s.collector.allReceipts.map fun r => r.dedupHash x.sha256).Nodup := by
  have hstored : ∀ e ∈ s.collector.poolReceipts.entries, s.collector.stored e.1 = e.2 := by
    rintro ⟨pool, receipts⟩ he
    simp [ReceiptCollector.stored, SortedMap.mem_entries.1 he]
  have hflat : (s.collector.allReceipts.map fun r => r.dedupHash x.sha256) =
      (s.collector.poolReceipts.entries.map fun e =>
        e.2.map fun r => r.dedupHash x.sha256).flatten := by
    simp [ReceiptCollector.allReceipts, SortedMap.values, List.map_flatten, Function.comp_def]
  rw [hflat, List.nodup_flatten]
  constructor
  · intro hashes hmem
    rcases List.mem_map.1 hmem with ⟨e, he, rfl⟩
    -- the hashes of one pool are among those of all accepted receipts
    have hsub : (e.2.map fun r => r.dedupHash x.sha256).Sublist
        (accepted.map fun a => a.2.dedupHash x.sha256) := by
      have hpool := h.stored e.1
      rw [hstored e he] at hpool
      have hfilter : (ofPool accepted e.1).Sublist (accepted.map Prod.snd) :=
        List.filter_sublist.map Prod.snd
      simpa [Function.comp_def] using
        (hpool.trans hfilter).map fun r => r.dedupHash x.sha256
    exact h.distinct.sublist hsub
  · rw [List.pairwise_map]
    refine s.collector.poolReceipts.sorted.imp_of_mem ?_
    rintro e e' he he' hlt hash hmem hmem'
    rcases List.mem_map.1 hmem with ⟨r, hr, rfl⟩
    rcases List.mem_map.1 hmem' with ⟨r', hr', heq⟩
    have ha : (e.1, r) ∈ accepted := h.mem_accepted (by rw [hstored e he]; exact hr)
    have ha' : (e'.1, r') ∈ accepted := h.mem_accepted (by rw [hstored e' he']; exact hr')
    -- accepted receipts with one hash are one entry, so of one pool
    have hentry := List.inj_on_of_nodup_map h.distinct ha ha' heq.symm
    exact hlt.ne (Prod.mk.inj hentry).1

end Keeps

section Runs

variable {D : Type} [FileSystem D]

/-- The collector's invariant, in every state that calls reach from `new`: stored receipts are valid
in the present window, their dedup hashes are distinct and all seen, no pool is listed without
receipts, and a receipt drained since the last reset is rejected. -/
theorem collector_invariant (x : Packages) {s : CollectorState D}
    (hrun : Run CollectorStarted (CollectorNext x) (fun _ _ => True) s) :
    (∀ r ∈ s.collector.allReceipts, Valid x s.collector r) ∧
      (s.collector.allReceipts.map fun r => r.dedupHash x.sha256).Nodup ∧
      (∀ r ∈ s.collector.allReceipts, r.dedupHash x.sha256 ∈ s.collector.seen) ∧
      (∀ pool, s.collector.poolReceipts.get? pool ≠ some []) ∧
      ∀ r ∈ s.drained, ∀ disk : D,
        ∃ err, ingest x r s.collector disk = .ok (.error err, s.collector, disk) := by
  rcases Keeps.of_run hrun with ⟨accepted, h⟩
  have hall : ∀ r ∈ s.collector.allReceipts, ∃ pool, (pool, r) ∈ accepted := by
    intro r hr
    rcases ReceiptCollector.mem_allReceipts.1 hr with ⟨pool, hmem⟩
    exact ⟨pool, h.mem_accepted hmem⟩
  refine ⟨?_, h.nodup_allReceipts, ?_, h.nonempty, ?_⟩
  · intro r hr
    rcases hall r hr with ⟨pool, ha⟩
    exact h.valid _ ha
  · intro r hr
    rcases hall r hr with ⟨pool, ha⟩
    exact h.seen _ ha
  · intro r hr disk
    rcases h.drained r hr with ⟨pool, ha⟩
    exact ingest_reject disk (h.fits (List.ne_nil_of_mem ha)) (Or.inl (h.seen _ ha))

/-- A receipt is accepted, drained and offered again. -/
theorem drained_firstReceipt_rejected :
    ∃ err, ingest receiptPackages firstReceipt (hourFirst.takeReceipts somePool).2
        FileTree.empty =
      .ok (.error err, (hourFirst.takeReceipts somePool).2, FileTree.empty) := by
  have hnew : Run CollectorStarted (CollectorNext (D := FileTree) receiptPackages) (fun _ _ => True)
      { collector := ReceiptCollector.new 3600 7200 300, disk := FileTree.empty, drained := [] } :=
    Run.start ⟨⟨3600, 7200, 300, rfl⟩, rfl⟩
  have hregister := hnew.step trivial (CollectorNext.registerPool _ someContent somePool)
  have hingest := hregister.step trivial (CollectorNext.ingest ingest_firstReceipt)
  have htake := hingest.step trivial (CollectorNext.takeReceipts _ somePool)
  have hmem : firstReceipt ∈ [] ++ (hourFirst.takeReceipts somePool).1 := by decide +kernel
  exact (collector_invariant receiptPackages htake).2.2.2.2 firstReceipt hmem FileTree.empty

end Runs

end Aggregator
end CraftecCore
