import CraftecCore.Aggregator.Collector

/-!
# Intake — runs of the collector over many receipts

Raw messages, drained channels and single calls all come down to ingesting a list of receipts one
after the other (`ingestAll`).  `Took` states what such a run does to a collector, as one fact that
composes; `Holds` is what a collector owes to the receipts it accepted since its window opened.
-/

namespace CraftecCore
namespace Aggregator

open Settlement FileSystem

variable {D : Type} [FileSystem D]

/-! ## Lists of receipts -/

/-- Ingest receipts one after the other; the result lists what was accepted, with its pool. -/
def ingestAll (x : Packages) : List StorageReceipt → ReceiptCollector → D →
    Outcome (List (Bytes 32 × StorageReceipt) × ReceiptCollector × D)
  | [], c, disk => pure ([], c, disk)
  | receipt :: receipts, c, disk => do
      match ← ingest x receipt c disk with
      | (.ok (), c', disk') => do
          let (accepted, c', disk') ← ingestAll x receipts c' disk'
          pure (((c.cidToPool.get? receipt.contentId).getD (Bytes.zero 32), receipt) :: accepted,
            c', disk')
      | (.error _, c', disk') => ingestAll x receipts c' disk'

def decoded (x : Packages) (queue : List (List UInt8)) : List StorageReceipt :=
  queue.filterMap fun data => (x.deserializeReceipt data).toOption

/-- A message holds at most one receipt. -/
theorem decoded_singleton {x : Packages} {data : List UInt8} {receipt : StorageReceipt}
    (h : receipt ∈ decoded x [data]) : decoded x [data] = [receipt] := by
  cases hdata : x.deserializeReceipt data with
  | error msg => simp [decoded, hdata, Except.toOption] at h
  | ok r => simpa [decoded, hdata, Except.toOption, eq_comm] using h

/-- The draining loop ingests the receipts among its messages and counts those accepted. -/
theorem drainLoop_eq (x : Packages) :
    ∀ (queue : List (List UInt8)) (count : ℕ) (c : ReceiptCollector) (disk : D),
      drainLoop x queue count c disk = (do
        let (accepted, c', disk') ← ingestAll x (decoded x queue) c disk
        pure (count + accepted.length, c', disk'))
  | [], count, c, disk => by simp [drainLoop, decoded, ingestAll]
  | data :: queue, count, c, disk => by
      cases hdata : x.deserializeReceipt data with
      | error msg =>
          -- a malformed message is skipped
          have hdec : decoded x (data :: queue) = decoded x queue := by
            simp [decoded, hdata, Except.toOption]
          rw [hdec]
          simpa [drainLoop, processReceiptMessage, hdata] using drainLoop_eq x queue count c disk
      | ok receipt =>
          have hdec : decoded x (data :: queue) = receipt :: decoded x queue := by
            simp [decoded, hdata, Except.toOption]
          rw [hdec]
          cases hrun : ingest x receipt c disk with
          | panic why => simp [drainLoop, processReceiptMessage, hdata, ingestAll, hrun]
          | ok out =>
              rcases out with ⟨result, c', disk'⟩
              cases result with
              | error err =>
                  simpa [drainLoop, processReceiptMessage, hdata, ingestAll, hrun] using
                    drainLoop_eq x queue count c' disk'
              | ok _ =>
                  -- an accepted message is counted before the rest of the queue is drained
                  have ih := drainLoop_eq x queue (count + 1) c' disk'
                  simp [drainLoop, processReceiptMessage, hdata, ingestAll, hrun, ih,
                    Nat.add_assoc, Nat.add_comm 1]

theorem drainChannel_eq (x : Packages) (queue : List (List UInt8)) (c : ReceiptCollector)
    (disk : D) :
    drainChannel x queue c disk = (do
      let (accepted, c', disk') ← ingestAll x (decoded x queue) c disk
      pure (accepted.length, c', disk')) := by
  simpa [drainChannel] using drainLoop_eq x queue 0 c disk

/-- A raw message is ingested like a queue of its own. -/
theorem processReceiptMessage_cases {x : Packages} {data : List UInt8} {c c' : ReceiptCollector}
    {disk disk' : D} {result : Except AggregatorError Unit}
    (h : processReceiptMessage x data c disk = .ok (result, c', disk')) :
    (decoded x [data] = [] ∧ c' = c ∧ disk' = disk) ∨
      ∃ receipt, decoded x [data] = [receipt] ∧
        ingest x receipt c disk = .ok (result, c', disk') := by
  cases hdata : x.deserializeReceipt data with
  | error msg =>
      simp only [processReceiptMessage, hdata, Outcome.pure_eq, Outcome.ok.injEq,
        Prod.mk.injEq] at h
      rcases h with ⟨-, rfl, rfl⟩
      exact Or.inl ⟨by simp [decoded, hdata, Except.toOption], rfl, rfl⟩
  | ok receipt =>
      simp only [processReceiptMessage, hdata] at h
      exact Or.inr ⟨receipt, by simp [decoded, hdata, Except.toOption], h⟩

/-! ## What a run does -/

structure SameSettings (c c' : ReceiptCollector) : Prop where
  epochStart : c'.epochStart = c.epochStart
  epochEnd : c'.epochEnd = c.epochEnd
  graceSecs : c'.graceSecs = c.graceSecs
  cidToPool : c'.cidToPool = c.cidToPool
  persistDir : c'.persistDir = c.persistDir

theorem SameSettings.refl (c : ReceiptCollector) : SameSettings c c :=
  { epochStart := rfl
    epochEnd := rfl
    graceSecs := rfl
    cidToPool := rfl
    persistDir := rfl }

theorem SameSettings.trans {c c' c'' : ReceiptCollector} (h : SameSettings c c')
    (h' : SameSettings c' c'') : SameSettings c c'' :=
  { epochStart := h'.epochStart.trans h.epochStart
    epochEnd := h'.epochEnd.trans h.epochEnd
    graceSecs := h'.graceSecs.trans h.graceSecs
    cidToPool := h'.cidToPool.trans h.cidToPool
    persistDir := h'.persistDir.trans h.persistDir }

theorem SameSettings.acceptable {x : Packages} {c c' : ReceiptCollector} (h : SameSettings c c')
    {receipt : StorageReceipt} {pool : Bytes 32} :
    Acceptable x c' receipt pool ↔ Acceptable x c receipt pool := by
  constructor
  · rintro ⟨hearly, hlate, hnode, hcontent, hsignature, hpool⟩
    rw [h.epochStart] at hearly
    rw [h.epochEnd, h.graceSecs] at hlate
    rw [h.cidToPool] at hpool
    exact ⟨hearly, hlate, hnode, hcontent, hsignature, hpool⟩
  · rintro ⟨hearly, hlate, hnode, hcontent, hsignature, hpool⟩
    rw [← h.epochStart] at hearly
    rw [← h.epochEnd, ← h.graceSecs] at hlate
    rw [← h.cidToPool] at hpool
    exact ⟨hearly, hlate, hnode, hcontent, hsignature, hpool⟩

theorem SameSettings.deadlineFits {c c' : ReceiptCollector} (h : SameSettings c c') :
    c'.DeadlineFits ↔ c.DeadlineFits := by
  simp only [ReceiptCollector.DeadlineFits, h.epochEnd, h.graceSecs]

def ofPool (accepted : List (Bytes 32 × StorageReceipt)) (pool : Bytes 32) :
    List StorageReceipt :=
  (accepted.filter fun a => a.1 = pool).map Prod.snd

theorem ofPool_append (accepted accepted' : List (Bytes 32 × StorageReceipt)) (pool : Bytes 32) :
    ofPool (accepted ++ accepted') pool = ofPool accepted pool ++ ofPool accepted' pool := by
  simp [ofPool]

theorem mem_ofPool {accepted : List (Bytes 32 × StorageReceipt)} {pool : Bytes 32}
    {receipt : StorageReceipt} : receipt ∈ ofPool accepted pool ↔ (pool, receipt) ∈ accepted := by
  simp [ofPool]

/-- Receipts with different hashes have different keys. -/
theorem nodup_keys_of_hashes {x : Packages} {accepted : List (Bytes 32 × StorageReceipt)}
    (h : (accepted.map fun a => a.2.dedupHash x.sha256).Nodup) :
    (accepted.map fun a => a.2.key).Nodup := by
  refine List.Nodup.of_map (fun key => x.sha256 key.encode) ?_
  rw [List.map_map]
  exact h

/-- Offering `offered` to the collector `c` leads to `c'`, and `accepted` was accepted. -/
structure Took (x : Packages) (c : ReceiptCollector) (offered : List StorageReceipt)
    (accepted : List (Bytes 32 × StorageReceipt)) (c' : ReceiptCollector) : Prop where
  settings : SameSettings c c'
  fits : offered ≠ [] → c.DeadlineFits
  stored : ∀ pool, c'.stored pool = c.stored pool ++ ofPool accepted pool
  pools : ∀ pool, pool ∈ c'.pools ↔ pool ∈ c.pools ∨ ∃ a ∈ accepted, a.1 = pool
  seen : ∀ hash, hash ∈ c'.seen ↔ hash ∈ c.seen ∨ ∃ a ∈ accepted, a.2.dedupHash x.sha256 = hash
  /-- Only acceptable receipts are accepted. -/
  sound : ∀ a ∈ accepted, a.2 ∈ offered ∧ Acceptable x c a.2 a.1
  /-- An acceptable receipt is accepted, unless its hash was seen. -/
  complete : ∀ receipt ∈ offered, ∀ pool, Acceptable x c receipt pool →
    receipt.dedupHash x.sha256 ∈ c'.seen
  distinct : (accepted.map fun a => a.2.dedupHash x.sha256).Nodup
  unseen : ∀ a ∈ accepted, a.2.dedupHash x.sha256 ∉ c.seen
  capacity : ∀ pool, (c.stored pool).length ≤ isizeMax → (c'.stored pool).length ≤ isizeMax
  count : c'.receiptCount = c.receiptCount + accepted.length

theorem Took.nil (x : Packages) (c : ReceiptCollector) : Took x c [] [] c :=
  { settings := SameSettings.refl c
    fits := fun h => absurd rfl h
    stored := fun pool => by simp [ofPool]
    pools := fun pool => by simp
    seen := fun hash => by simp
    sound := fun a ha => absurd ha List.not_mem_nil
    complete := fun receipt hr => absurd hr List.not_mem_nil
    distinct := List.nodup_nil
    unseen := fun a ha => absurd ha List.not_mem_nil
    capacity := fun pool h => h
    count := rfl }

/-- An acceptable receipt whose hash was not seen is accepted, or one with its hash is. -/
theorem Took.exists_accepted {x : Packages} {c c' : ReceiptCollector}
    {offered : List StorageReceipt} {accepted : List (Bytes 32 × StorageReceipt)}
    (h : Took x c offered accepted c') {receipt : StorageReceipt} {pool : Bytes 32}
    (hoffered : receipt ∈ offered) (hacc : Acceptable x c receipt pool)
    (hnew : receipt.dedupHash x.sha256 ∉ c.seen) :
    ∃ a ∈ accepted, a.2.dedupHash x.sha256 = receipt.dedupHash x.sha256 := by
  rcases (h.seen _).1 (h.complete receipt hoffered pool hacc) with hseen | haccepted
  · exact absurd hseen hnew
  · exact haccepted

/-- The content id of a receipt decides the pool it is accepted into. -/
theorem Took.pool_eq {x : Packages} {c c' : ReceiptCollector} {offered : List StorageReceipt}
    {accepted : List (Bytes 32 × StorageReceipt)} (h : Took x c offered accepted c')
    {a : Bytes 32 × StorageReceipt} (ha : a ∈ accepted) {receipt : StorageReceipt}
    {pool : Bytes 32} (hacc : Acceptable x c receipt pool)
    (hcontent : a.2.contentId = receipt.contentId) : a.1 = pool := by
  have hpool := (h.sound a ha).2.pool
  rw [hcontent, hacc.pool] at hpool
  exact (Option.some.inj hpool).symm

theorem Took.trans {x : Packages} {c c' c'' : ReceiptCollector}
    {offered offered' : List StorageReceipt} {accepted accepted' : List (Bytes 32 × StorageReceipt)}
    (h : Took x c offered accepted c') (h' : Took x c' offered' accepted' c'') :
    Took x c (offered ++ offered') (accepted ++ accepted') c'' :=
  { settings := h.settings.trans h'.settings
    fits := fun hne => by
      cases offered with
      | nil => exact h.settings.deadlineFits.1 (h'.fits (by simpa using hne))
      | cons r rs => exact h.fits (List.cons_ne_nil r rs)
    stored := fun pool => by
      rw [h'.stored, h.stored, ofPool_append, List.append_assoc]
    pools := fun pool => by
      rw [h'.pools, h.pools]
      simp [or_and_right, exists_or, or_assoc]
    seen := fun hash => by
      rw [h'.seen, h.seen]
      simp [or_and_right, exists_or, or_assoc]
    sound := fun a ha => by
      rcases List.mem_append.1 ha with ha | ha
      · exact ⟨List.mem_append_left _ (h.sound a ha).1, (h.sound a ha).2⟩
      · exact ⟨List.mem_append_right _ (h'.sound a ha).1,
          h.settings.acceptable.1 (h'.sound a ha).2⟩
    complete := fun receipt hr pool hacc => by
      rcases List.mem_append.1 hr with hr | hr
      · exact (h'.seen _).2 (Or.inl (h.complete receipt hr pool hacc))
      · exact h'.complete receipt hr pool (h.settings.acceptable.2 hacc)
    distinct := by
      rw [List.map_append]
      refine List.nodup_append'.2 ⟨h.distinct, h'.distinct, ?_⟩
      -- what the second run accepts was not seen, so the first did not accept it
      intro hash hmem hmem'
      rcases List.mem_map.1 hmem with ⟨a, ha, rfl⟩
      rcases List.mem_map.1 hmem' with ⟨a', ha', heq⟩
      exact h'.unseen a' ha' ((h.seen _).2 (Or.inr ⟨a, ha, heq.symm⟩))
    unseen := fun a ha => by
      rcases List.mem_append.1 ha with ha | ha
      · exact h.unseen a ha
      · exact fun hseen => h'.unseen a ha ((h.seen _).2 (Or.inl hseen))
    capacity := fun pool hcap => h'.capacity pool (h.capacity pool hcap)
    count := by rw [h'.count, h.count, List.length_append, Nat.add_assoc] }

theorem ReceiptCollector.stored_accept (c : ReceiptCollector) (hash pool pool' : Bytes 32)
    (receipt : StorageReceipt) :
    (c.accept hash pool receipt).stored pool' =
      c.stored pool' ++ if pool = pool' then [receipt] else [] := by
  by_cases h : pool = pool'
  · simp [accept, stored, h]
  · simp [accept, stored, h, SortedMap.get?_insert_of_ne _ _ (Ne.symm h)]

theorem ReceiptCollector.mem_pools_accept (c : ReceiptCollector) (hash pool pool' : Bytes 32)
    (receipt : StorageReceipt) :
    pool' ∈ (c.accept hash pool receipt).pools ↔ pool' ∈ c.pools ∨ pool = pool' := by
  by_cases h : pool = pool'
  · simp [accept, pools, SortedMap.mem_keys, h]
  · simp [accept, pools, SortedMap.mem_keys, h, SortedMap.get?_insert_of_ne _ _ (Ne.symm h)]

theorem ReceiptCollector.nodup_pools (c : ReceiptCollector) : c.pools.Nodup :=
  SortedMap.nodup_keys _

theorem ReceiptCollector.receiptCount_accept (c : ReceiptCollector) (hash pool : Bytes 32)
    (receipt : StorageReceipt) :
    (c.accept hash pool receipt).receiptCount = c.receiptCount + 1 := by
  -- one list in the pool map grows by one receipt
  have hsum := SortedMap.sum_values_insert List.length c.poolReceipts pool
    (c.stored pool ++ [receipt])
  have hold : ((c.poolReceipts.get? pool).map List.length).getD 0 = (c.stored pool).length := by
    cases hget : c.poolReceipts.get? pool <;> simp [stored, hget]
  rw [hold, List.length_append, List.length_singleton] at hsum
  simp only [receiptCount, accept]
  omega

/-- One accepted receipt. -/
theorem Took.accept {x : Packages} {c : ReceiptCollector} {receipt : StorageReceipt}
    {pool : Bytes 32} (hfit : c.DeadlineFits) (hacc : Acceptable x c receipt pool)
    (hnew : receipt.dedupHash x.sha256 ∉ c.seen) (hcap : (c.stored pool).length < isizeMax) :
    Took x c [receipt] [(pool, receipt)] (c.accept (receipt.dedupHash x.sha256) pool receipt) :=
  { settings :=
      { epochStart := rfl
        epochEnd := rfl
        graceSecs := rfl
        cidToPool := rfl
        persistDir := rfl }
    fits := fun _ => hfit
    stored := fun pool' => by
      rw [c.stored_accept]
      by_cases h : pool = pool' <;> simp [ofPool, h]
    pools := fun pool' => by
      rw [c.mem_pools_accept]
      simp
    seen := fun hash => by
      simp [ReceiptCollector.accept, or_comm, eq_comm]
    sound := fun a ha => by
      rw [List.mem_singleton.1 ha]
      exact ⟨List.mem_singleton_self receipt, hacc⟩
    complete := fun r hr _ _ => by
      rw [List.mem_singleton.1 hr]
      simp [ReceiptCollector.accept]
    distinct := List.nodup_singleton _
    unseen := fun a ha => by
      rw [List.mem_singleton.1 ha]
      exact hnew
    capacity := fun pool' hle => by
      rw [c.stored_accept]
      by_cases h : pool = pool'
      · rw [if_pos h, List.length_append, List.length_singleton]
        rw [h] at hcap
        exact hcap
      · simpa [h] using hle
    count := c.receiptCount_accept _ pool receipt }

/-- One rejected receipt. -/
theorem Took.reject {x : Packages} {c : ReceiptCollector} {receipt : StorageReceipt}
    (hfit : c.DeadlineFits)
    (hbad : receipt.dedupHash x.sha256 ∈ c.seen ∨ ∀ pool, ¬ Acceptable x c receipt pool) :
    Took x c [receipt] [] c :=
  { Took.nil x c with
    fits := fun _ => hfit
    sound := fun a ha => absurd ha List.not_mem_nil
    complete := fun r hr pool hacc => by
      rw [List.mem_singleton.1 hr] at hacc ⊢
      exact hbad.resolve_right fun hnone => hnone pool hacc }

/-- What one returning call took. -/
theorem ingest_took {x : Packages} {receipt : StorageReceipt} {c c' : ReceiptCollector}
    {disk disk' : D} {result : Except AggregatorError Unit}
    (h : ingest x receipt c disk = .ok (result, c', disk')) :
    (∃ pool, c.cidToPool.get? receipt.contentId = some pool ∧ result = .ok () ∧
        Took x c [receipt] [(pool, receipt)] c') ∨
      ((∃ err, result = .error err) ∧ c' = c ∧ disk' = disk ∧ Took x c [receipt] [] c') := by
  rcases ingest_cases h with
    ⟨hfit, ⟨pool, hacc, hnew, hcap, hres, rfl, -⟩ | ⟨hbad, herr, rfl, hdisk⟩⟩
  · exact Or.inl ⟨pool, hacc.pool, hres, Took.accept hfit hacc hnew hcap⟩
  · exact Or.inr ⟨herr, rfl, hdisk, Took.reject hfit hbad⟩

/-- What a returning run over a list of receipts took. -/
theorem ingestAll_took {x : Packages} :
    ∀ {offered : List StorageReceipt} {c c' : ReceiptCollector} {disk disk' : D}
      {accepted : List (Bytes 32 × StorageReceipt)},
      ingestAll x offered c disk = .ok (accepted, c', disk') → Took x c offered accepted c'
  | [], c, c', disk, disk', accepted, h => by
      simp only [ingestAll, Outcome.pure_eq, Outcome.ok.injEq, Prod.mk.injEq] at h
      rcases h with ⟨rfl, rfl, rfl⟩
      exact Took.nil x c
  | receipt :: receipts, c, c', disk, disk', accepted, h => by
      rw [ingestAll, Outcome.bind_eq_ok] at h
      rcases h with ⟨⟨result, c₁, disk₁⟩, hone, hrest⟩
      -- what the first receipt did, then what the others did
      rcases ingest_took hone with ⟨pool, hpool, rfl, htook⟩ | ⟨⟨err, rfl⟩, -, -, htook⟩
      · simp only [Outcome.bind_eq_ok] at hrest
        rcases hrest with ⟨⟨accepted', c₂, disk₂⟩, hrun, heq⟩
        simp only [hpool, Option.getD_some, Outcome.pure_eq, Outcome.ok.injEq,
          Prod.mk.injEq] at heq
        rcases heq with ⟨rfl, rfl, rfl⟩
        exact htook.trans (ingestAll_took hrun)
      · exact htook.trans (ingestAll_took hrest)

/-! ## What a collector holds -/

/-- The collector holds exactly the receipts accepted since its window opened. -/
structure Holds (x : Packages) (c : ReceiptCollector)
    (accepted : List (Bytes 32 × StorageReceipt)) : Prop where
  stored : ∀ pool, c.stored pool = ofPool accepted pool
  pools : ∀ pool, pool ∈ c.pools ↔ ∃ a ∈ accepted, a.1 = pool
  seen : ∀ a ∈ accepted, a.2.dedupHash x.sha256 ∈ c.seen
  distinct : (accepted.map fun a => a.2.dedupHash x.sha256).Nodup
  notEarly : ∀ a ∈ accepted, c.epochStart.toNat ≤ a.2.timestamp.toNat
  storageNode : ∀ a ∈ accepted, a.2.storageNode ≠ Bytes.zero 32
  capacity : ∀ pool, (c.stored pool).length ≤ isizeMax
  count : c.receiptCount = accepted.length

section TookAppend

variable {x : Packages} {c c' : ReceiptCollector} {offered : List StorageReceipt}
  {accepted accepted' : List (Bytes 32 × StorageReceipt)}

/-- Receipts that were seen still are, and so are those accepted now. -/
theorem Took.seen_append (ht : Took x c offered accepted' c')
    (hseen : ∀ a ∈ accepted, a.2.dedupHash x.sha256 ∈ c.seen) :
    ∀ a ∈ accepted ++ accepted', a.2.dedupHash x.sha256 ∈ c'.seen := by
  intro a ha
  rw [ht.seen]
  rcases List.mem_append.1 ha with ha | ha
  · exact Or.inl (hseen a ha)
  · exact Or.inr ⟨a, ha, rfl⟩

/-- What is accepted now was not seen, so it repeats no hash of what was. -/
theorem Took.distinct_append (ht : Took x c offered accepted' c')
    (hseen : ∀ a ∈ accepted, a.2.dedupHash x.sha256 ∈ c.seen)
    (hdistinct : (accepted.map fun a => a.2.dedupHash x.sha256).Nodup) :
    ((accepted ++ accepted').map fun a => a.2.dedupHash x.sha256).Nodup := by
  rw [List.map_append]
  refine List.nodup_append'.2 ⟨hdistinct, ht.distinct, ?_⟩
  intro hash hmem hmem'
  rcases List.mem_map.1 hmem with ⟨a, ha, rfl⟩
  rcases List.mem_map.1 hmem' with ⟨a', ha', heq⟩
  exact ht.unseen a' ha' (heq ▸ hseen a ha)

end TookAppend

theorem Holds.took {x : Packages} {c c' : ReceiptCollector} {offered : List StorageReceipt}
    {accepted accepted' : List (Bytes 32 × StorageReceipt)} (h : Holds x c accepted)
    (ht : Took x c offered accepted' c') : Holds x c' (accepted ++ accepted') :=
  { stored := fun pool => by rw [ht.stored, h.stored, ofPool_append]
    pools := fun pool => by
      rw [ht.pools, h.pools]
      simp [or_and_right, exists_or]
    seen := ht.seen_append h.seen
    distinct := ht.distinct_append h.seen h.distinct
    notEarly := fun a ha => by
      rcases List.mem_append.1 ha with ha | ha
      · rw [ht.settings.epochStart]
        exact h.notEarly a ha
      · rw [ht.settings.epochStart]
        exact (ht.sound a ha).2.notEarly
    storageNode := fun a ha => by
      rcases List.mem_append.1 ha with ha | ha
      · exact h.storageNode a ha
      · exact (ht.sound a ha).2.storageNode
    capacity := fun pool => ht.capacity pool (h.capacity pool)
    count := by rw [ht.count, h.count, List.length_append] }

/-- A collector without receipts holds nothing. -/
theorem Holds.of_empty (x : Packages) {c : ReceiptCollector}
    (h : c.poolReceipts = SortedMap.empty) : Holds x c [] :=
  { stored := fun pool => by simp [ReceiptCollector.stored, h, ofPool]
    pools := fun pool => by simp [ReceiptCollector.pools, h, SortedMap.keys]
    seen := fun a ha => absurd ha List.not_mem_nil
    distinct := List.nodup_nil
    notEarly := fun a ha => absurd ha List.not_mem_nil
    storageNode := fun a ha => absurd ha List.not_mem_nil
    capacity := fun pool => by simp [ReceiptCollector.stored, h]
    count := by simp [ReceiptCollector.receiptCount, h, SortedMap.values] }

theorem Holds.registerPool {x : Packages} {c : ReceiptCollector}
    {accepted : List (Bytes 32 × StorageReceipt)} (h : Holds x c accepted)
    (contentId pool : Bytes 32) : Holds x (c.registerPool contentId pool) accepted :=
  { stored := h.stored
    pools := h.pools
    seen := h.seen
    distinct := h.distinct
    notEarly := h.notEarly
    storageNode := h.storageNode
    capacity := h.capacity
    count := h.count }

/-- A collector that was empty holds what a run accepted. -/
theorem Took.holds {x : Packages} {c c' : ReceiptCollector} {offered : List StorageReceipt}
    {accepted : List (Bytes 32 × StorageReceipt)} (h : Took x c offered accepted c')
    (hempty : c.poolReceipts = SortedMap.empty) : Holds x c' accepted := by
  simpa using (Holds.of_empty x hempty).took h

theorem Holds.mem_stored {x : Packages} {c : ReceiptCollector}
    {accepted : List (Bytes 32 × StorageReceipt)} (h : Holds x c accepted) {pool : Bytes 32}
    {receipt : StorageReceipt} : receipt ∈ c.stored pool ↔ (pool, receipt) ∈ accepted := by
  rw [h.stored, mem_ofPool]

/-- A pool that is listed has receipts. -/
theorem Holds.stored_ne_nil {x : Packages} {c : ReceiptCollector}
    {accepted : List (Bytes 32 × StorageReceipt)} (h : Holds x c accepted) {pool : Bytes 32}
    (hpool : pool ∈ c.pools) : c.stored pool ≠ [] := by
  rcases (h.pools pool).1 hpool with ⟨⟨pool, receipt⟩, ha, rfl⟩
  exact List.ne_nil_of_mem (h.mem_stored.2 ha)

/-- The batches of all pools contain every receipt that is held. -/
theorem Holds.mem_batches {x : Packages} {c : ReceiptCollector}
    {accepted : List (Bytes 32 × StorageReceipt)} (h : Holds x c accepted)
    {pools : List (Bytes 32)} (hperm : pools.Perm c.pools) {pool : Bytes 32}
    {receipt : StorageReceipt} (ha : (pool, receipt) ∈ accepted) :
    (pool, c.stored pool) ∈ pools.map fun pool => (pool, c.stored pool) := by
  have hpool : pool ∈ pools := hperm.mem_iff.2 ((h.pools pool).2 ⟨_, ha, rfl⟩)
  exact List.mem_map.2 ⟨pool, hpool, rfl⟩

/-- Receipts that are held name a storage node. -/
theorem Holds.storageNode_stored {x : Packages} {c : ReceiptCollector}
    {accepted : List (Bytes 32 × StorageReceipt)} (h : Holds x c accepted) (pool : Bytes 32) :
    ∀ r ∈ c.stored pool, r.storageNode ≠ Bytes.zero 32 := by
  intro r hr
  exact h.storageNode _ (h.mem_stored.1 hr)

end Aggregator
end CraftecCore
