import CraftecCore.Aggregator.Conservation

/-!
# Delivery — the order of messages does not change payouts

Which of several conflicting receipts is stored depends on the order of their messages; the dedup
keys that are stored do not.  A key is stored for a pool exactly if some message carries an
acceptable receipt with that key, so any two orders store the same keys.  Weights count storage
nodes, which are part of the key, and everything posted is computed from the weights.
-/

namespace CraftecCore
namespace Aggregator

open Settlement FileSystem Prover
open scoped List

/-! ## One pool -/

def keysOf (accepted : List (Bytes 32 × StorageReceipt)) (pool : Bytes 32) :
    List StorageReceipt.DedupKey :=
  (ofPool accepted pool).map StorageReceipt.key

/-- Counting storage nodes is counting keys. -/
theorem countP_storageNode (receipts : List StorageReceipt) (op : Bytes 32) :
    receipts.countP (fun r => r.storageNode = op) =
      (receipts.map StorageReceipt.key).countP fun k => k.storageNode = op := by
  rw [List.countP_map]
  rfl

/-- A fact about the key of some receipt survives a change to receipts with the same keys. -/
theorem exists_of_keys_perm {receipts receipts' : List StorageReceipt}
    (h : (receipts.map StorageReceipt.key).Perm (receipts'.map StorageReceipt.key))
    {p : StorageReceipt.DedupKey → Prop} (hex : ∃ r ∈ receipts, p r.key) :
    ∃ r ∈ receipts', p r.key := by
  rcases hex with ⟨r, hr, hp⟩
  rcases List.mem_map.1 (h.mem_iff.1 (List.mem_map_of_mem hr)) with ⟨r', hr', hkey⟩
  exact ⟨r', hr', hkey ▸ hp⟩

/-- Receipts with the same keys have the same weights. -/
theorem weights_eq_of_keys_perm {receipts receipts' : List StorageReceipt}
    (h : (receipts.map StorageReceipt.key).Perm (receipts'.map StorageReceipt.key))
    {w w' : SortedMap (Bytes 32) UInt64} (hw : Adds SortedMap.empty receipts w)
    (hw' : Adds SortedMap.empty receipts' w') : w = w' := by
  refine eq_of_adds_empty hw hw' ?_ ?_
  · intro op
    constructor
    · exact exists_of_keys_perm h (p := fun k => k.storageNode = op)
    · exact exists_of_keys_perm h.symm (p := fun k => k.storageNode = op)
  · intro op
    rw [earned_storage, earned_storage, countP_storageNode, countP_storageNode, h.countP_eq]

/-- A weight map commits to one output. -/
theorem Commits.unique {x : Packages} {pool : Bytes 32} {w : SortedMap (Bytes 32) UInt64}
    {out out' : DistributionOutput} (h : Commits x pool w out) (h' : Commits x pool w out') :
    out = out' := by
  rcases h with ⟨hroot, htotal, hcount, hpool⟩
  rcases h' with ⟨hroot', htotal', hcount', hpool'⟩
  apply DistributionOutput.ext
  · simpa using hroot.symm.trans hroot'
  · exact UInt64.toNat_inj.1 (htotal.symm.trans htotal')
  · rw [hcount, hcount']
  · rw [hpool, hpool']

/-- Provable receipts with the same keys are built into the same batch. -/
theorem build_congr (x : Packages) (pool : Bytes 32) {receipts receipts' : List StorageReceipt}
    (h : (receipts.map StorageReceipt.key).Perm (receipts'.map StorageReceipt.key))
    (hne : receipts ≠ []) (hfit : receipts.length < 2 ^ 64) (hall : ∀ r ∈ receipts, Provable r)
    (hall' : ∀ r ∈ receipts', Provable r) :
    ∃ batch, build x pool receipts = .ok (.ok batch) ∧
      build x pool receipts' = .ok (.ok batch) := by
  have hlen : receipts.length = receipts'.length := by simpa using h.length_eq
  have hne' : receipts' ≠ [] := by
    rw [← List.length_pos_iff] at hne ⊢
    omega
  rcases exists_weights receipts hfit with ⟨w, hrun, hadds⟩
  rcases exists_weights receipts' (by omega) with ⟨w', hrun', hadds'⟩
  have hw : w = w' := weights_eq_of_keys_perm h hadds hadds'
  subst hw
  rcases UInt64.exists_toNat_eq hfit with ⟨totalWeight, htotal⟩
  have htotal' : totalIn w = totalWeight.toNat := by
    rw [Adds.totalIn_eq hadds, htotal]
  -- the batch is computed from the weights and the number of receipts
  rcases build_eq_ok x pool hne hall hrun htotal' with ⟨out, hout, -, hbuild⟩
  rcases build_eq_ok x pool hne' hall' hrun' htotal' with ⟨out', hout', -, hbuild'⟩
  rw [hlen, hout.unique hout'] at hbuild
  exact ⟨_, hbuild, hbuild'⟩

/-- Receipts one of which has no timestamp are not built, whatever their order. -/
theorem build_zeroTimestamp (x : Packages) (pool : Bytes 32) {receipts : List StorageReceipt}
    (hfit : receipts.length < 2 ^ 64) (hnode : ∀ r ∈ receipts, r.storageNode ≠ Bytes.zero 32)
    (hzero : ∃ r ∈ receipts, r.timestamp = 0) :
    build x pool receipts = .ok (.error (.prover .zeroTimestamp)) := by
  have hne : receipts ≠ [] := by
    rintro rfl
    simp at hzero
  rcases exists_weights receipts hfit with ⟨w, hrun, hadds⟩
  rcases UInt64.exists_toNat_eq hfit with ⟨totalWeight, htotal⟩
  have hsum : sumU64 w.values = .ok totalWeight := by
    rw [sumU64_eq_ok, htotal]
    exact Adds.totalIn_eq hadds
  have hloop : aggregateLoop receipts SortedMap.empty = .ok (.error .zeroTimestamp) := by
    refine aggregateLoop_zeroTimestamp (fun r hr => ⟨?_, hnode r hr⟩) hzero ?_
    · simp [ContributionReceipt.weight]
    · simpa [totalIn, SortedMap.values, totalEarned_storage] using hfit
  have hprove : proveBatch x.sha256 receipts pool = .ok (.error .zeroTimestamp) := by
    have hagg : aggregateReceipts receipts = .ok (.error .zeroTimestamp) := by
      simp [aggregateReceipts, aggregateReceiptsIn, hne, aggregateLoopIn_on, hloop]
    simp [proveBatch, proveBatchIn, aggregateReceiptsIn_on, hagg]
  simp [build, hne, hrun, hsum, hprove]

/-- The result of a pool depends on the keys of its receipts only. -/
theorem buildDistribution_congr (x : Packages) (pool : Bytes 32)
    {receipts receipts' : List StorageReceipt}
    (h : (receipts.map StorageReceipt.key).Perm (receipts'.map StorageReceipt.key))
    (hne : receipts ≠ []) (hlen : receipts.length ≤ isizeMax)
    (hnode : ∀ r ∈ receipts, r.storageNode ≠ Bytes.zero 32)
    (hnode' : ∀ r ∈ receipts', r.storageNode ≠ Bytes.zero 32) :
    ∃ result, buildDistribution x pool receipts = .ok result ∧
      buildDistribution x pool receipts' = .ok result := by
  have hfit : receipts.length < 2 ^ 64 := Nat.lt_of_le_of_lt hlen (by decide)
  have hfit' : receipts'.length < 2 ^ 64 := by
    have hlen' : receipts.length = receipts'.length := by simpa using h.length_eq
    omega
  have hprovable : ∀ {rs : List StorageReceipt}, (∀ r ∈ rs, r.storageNode ≠ Bytes.zero 32) →
      (¬ ∃ r ∈ rs, r.timestamp = 0) → ∀ r ∈ rs, Provable r := by
    intro rs hrs hno r hr
    exact ⟨by simp [ContributionReceipt.weight], fun htime => hno ⟨r, hr, htime⟩, hrs r hr⟩
  by_cases hzero : ∃ r ∈ receipts, r.timestamp = 0
  · have hzero' : ∃ r ∈ receipts', r.timestamp = 0 :=
      exists_of_keys_perm h (p := fun k => k.timestamp = 0) hzero
    exact ⟨.error (.prover .zeroTimestamp),
      by simp [buildDistribution, build_zeroTimestamp x pool hfit hnode hzero],
      by simp [buildDistribution, build_zeroTimestamp x pool hfit' hnode' hzero']⟩
  · have hzero' : ¬ ∃ r ∈ receipts', r.timestamp = 0 :=
      fun hex => hzero (exists_of_keys_perm h.symm (p := fun k => k.timestamp = 0) hex)
    rcases build_congr x pool h hne hfit (hprovable hnode hzero) (hprovable hnode' hzero') with
      ⟨batch, hbuild, hbuild'⟩
    exact ⟨.ok (buildPostDistribution x batch), by simp [buildDistribution, hbuild],
      by simp [buildDistribution, hbuild']⟩

/-! ## What is stored -/

/-- Two receipts among those offered have different dedup messages with the same hash. -/
def OfferedCollision (x : Packages) (offered : List StorageReceipt) : Prop :=
  ∃ r ∈ offered, ∃ r' ∈ offered, StorageReceipt.KeyCollision x.sha256 r.key r'.key

theorem key_eq_of_hash_eq {x : Packages} {offered : List StorageReceipt}
    (hno : ¬ OfferedCollision x offered) {r r' : StorageReceipt} (hr : r ∈ offered)
    (hr' : r' ∈ offered) (h : r.dedupHash x.sha256 = r'.dedupHash x.sha256) : r.key = r'.key := by
  rcases StorageReceipt.key_eq_or_collision h with hkey | hcollision
  · exact hkey
  · exact absurd ⟨r, hr, r', hr', hcollision⟩ hno

/-- The keys stored for a pool are those of the acceptable receipts for it. -/
theorem Took.mem_keysOf {x : Packages} {c c' : ReceiptCollector} {offered : List StorageReceipt}
    {accepted : List (Bytes 32 × StorageReceipt)} (h : Took x c offered accepted c')
    (hseen : c.seen = ∅) (hno : ¬ OfferedCollision x offered) {pool : Bytes 32}
    {k : StorageReceipt.DedupKey} :
    k ∈ keysOf accepted pool ↔ ∃ r ∈ offered, Acceptable x c r pool ∧ r.key = k := by
  constructor
  · intro hk
    rcases List.mem_map.1 hk with ⟨r, hr, hkey⟩
    rcases h.sound _ (mem_ofPool.1 hr) with ⟨hoffered, hacc⟩
    exact ⟨r, hoffered, hacc, hkey⟩
  · rintro ⟨r, hr, hacc, rfl⟩
    -- a receipt with the hash of this one was accepted, hence one with its key
    have hnew : r.dedupHash x.sha256 ∉ c.seen := by simp [hseen]
    rcases h.exists_accepted hr hacc hnew with ⟨a, ha, hhash⟩
    have hkey : a.2.key = r.key := key_eq_of_hash_eq hno (h.sound a ha).1 hr hhash
    have hcontent : a.2.contentId = r.contentId :=
      congrArg StorageReceipt.DedupKey.contentId hkey
    have hpool : a.1 = pool := h.pool_eq ha hacc hcontent
    exact List.mem_map.2 ⟨a.2, mem_ofPool.2 (hpool ▸ ha), hkey⟩

theorem Took.nodup_keysOf {x : Packages} {c c' : ReceiptCollector} {offered : List StorageReceipt}
    {accepted : List (Bytes 32 × StorageReceipt)} (h : Took x c offered accepted c')
    (pool : Bytes 32) : (keysOf accepted pool).Nodup := by
  have hsub : (keysOf accepted pool) <+ accepted.map fun a => a.2.key := by
    rw [keysOf, ofPool, List.map_map]
    exact List.Sublist.map _ List.filter_sublist
  exact (nodup_keys_of_hashes h.distinct).sublist hsub

/-- The same receipts, offered in any order, leave the same keys for every pool. -/
theorem keysOf_perm {x : Packages} {c c₁ c₂ : ReceiptCollector}
    {offered offered' : List StorageReceipt} {accepted accepted' : List (Bytes 32 × StorageReceipt)}
    (h : Took x c offered accepted c₁) (h' : Took x c offered' accepted' c₂)
    (hperm : offered.Perm offered') (hseen : c.seen = ∅) (hno : ¬ OfferedCollision x offered)
    (pool : Bytes 32) : (keysOf accepted pool).Perm (keysOf accepted' pool) := by
  have hno' : ¬ OfferedCollision x offered' := by
    rintro ⟨r, hr, r', hr', hcollision⟩
    exact hno ⟨r, hperm.mem_iff.2 hr, r', hperm.mem_iff.2 hr', hcollision⟩
  refine (List.perm_ext_iff_of_nodup (h.nodup_keysOf pool) (h'.nodup_keysOf pool)).2 ?_
  intro k
  rw [h.mem_keysOf hseen hno, h'.mem_keysOf hseen hno']
  simp only [hperm.mem_iff]

/-- The pools of a collector are those with a key. -/
theorem Holds.mem_pools {x : Packages} {c : ReceiptCollector}
    {accepted : List (Bytes 32 × StorageReceipt)} (h : Holds x c accepted) (pool : Bytes 32) :
    pool ∈ c.pools ↔ ∃ k, k ∈ keysOf accepted pool := by
  rw [h.pools]
  constructor
  · rintro ⟨⟨pool, r⟩, ha, rfl⟩
    exact ⟨r.key, List.mem_map_of_mem (mem_ofPool.2 ha)⟩
  · rintro ⟨k, hk⟩
    rcases List.mem_map.1 hk with ⟨r, hr, -⟩
    exact ⟨(pool, r), mem_ofPool.1 hr, rfl⟩

/-- Receipts with different keys of `K` are fewer than `K` while a key of `K` is missing. -/
theorem length_lt_of_missing_key {receipts : List StorageReceipt} {K : List StorageReceipt.DedupKey}
    (hnodup : (receipts.map StorageReceipt.key).Nodup) (hall : ∀ r ∈ receipts, r.key ∈ K)
    {k : StorageReceipt.DedupKey} (hk : k ∈ K) (hmissing : k ∉ receipts.map StorageReceipt.key) :
    receipts.length < K.length := by
  have hcons : (k :: receipts.map StorageReceipt.key).Nodup :=
    List.nodup_cons.2 ⟨hmissing, hnodup⟩
  have hsub : k :: receipts.map StorageReceipt.key ⊆ K := by
    intro key hkey
    rcases List.mem_cons.1 hkey with rfl | hkey
    · exact hk
    · rcases List.mem_map.1 hkey with ⟨r, hr, rfl⟩
      exact hall r hr
  have hle := (List.subperm_of_subset hcons hsub).length_le
  rw [List.length_cons, List.length_map] at hle
  exact hle

/-- Each pool holds different keys of its list `K`, and their hashes were seen. -/
structure KeysIn (x : Packages) (K : Bytes 32 → List StorageReceipt.DedupKey)
    (c : ReceiptCollector) : Prop where
  distinct : ∀ pool, ((c.stored pool).map StorageReceipt.key).Nodup
  known : ∀ pool, ∀ r ∈ c.stored pool, r.key ∈ K pool
  seen : ∀ pool, ∀ r ∈ c.stored pool, r.dedupHash x.sha256 ∈ c.seen

theorem KeysIn.of_empty (x : Packages) (K : Bytes 32 → List StorageReceipt.DedupKey)
    {c : ReceiptCollector} (h : c.poolReceipts = SortedMap.empty) : KeysIn x K c := by
  have hstored : ∀ pool, c.stored pool = [] := fun pool => by simp [ReceiptCollector.stored, h]
  refine { distinct := ?_, known := ?_, seen := ?_ }
  · intro pool
    rw [hstored pool]
    exact List.nodup_nil
  · intro pool r hr
    rw [hstored pool] at hr
    exact absurd hr List.not_mem_nil
  · intro pool r hr
    rw [hstored pool] at hr
    exact absurd hr List.not_mem_nil

/-- A receipt whose hash was not seen has a key that no pool holds. -/
theorem KeysIn.new_key {x : Packages} {K : Bytes 32 → List StorageReceipt.DedupKey}
    {c : ReceiptCollector} (h : KeysIn x K c) {r : StorageReceipt}
    (hnew : r.dedupHash x.sha256 ∉ c.seen) (pool : Bytes 32) :
    r.key ∉ (c.stored pool).map StorageReceipt.key := by
  intro hmem
  rcases List.mem_map.1 hmem with ⟨r', hr', hkey⟩
  have hseen := h.seen pool r' hr'
  rw [StorageReceipt.dedupHash_eq_of_key_eq x.sha256 hkey] at hseen
  exact hnew hseen

/-- Accepting a receipt with a key of `K` keeps this. -/
theorem KeysIn.accept {x : Packages} {K : Bytes 32 → List StorageReceipt.DedupKey}
    {c : ReceiptCollector} (h : KeysIn x K c) {r : StorageReceipt} {pool : Bytes 32}
    (hnew : r.dedupHash x.sha256 ∉ c.seen) (hkey : r.key ∈ K pool) :
    KeysIn x K (c.accept (r.dedupHash x.sha256) pool r) := by
  -- what a pool holds now: what it held, or this receipt
  have hstored : ∀ pool', ∀ r' ∈ (c.accept (r.dedupHash x.sha256) pool r).stored pool',
      r' ∈ c.stored pool' ∨ pool = pool' ∧ r' = r := by
    intro pool' r' hr'
    rw [c.stored_accept] at hr'
    rcases List.mem_append.1 hr' with hold | hadded
    · exact Or.inl hold
    · by_cases hpool : pool = pool'
      · exact Or.inr ⟨hpool, by simpa [hpool] using hadded⟩
      · simp [hpool] at hadded
  refine { distinct := ?_, known := ?_, seen := ?_ }
  · intro pool'
    rw [c.stored_accept]
    by_cases hpool : pool = pool'
    · subst hpool
      rw [if_pos rfl, List.map_append, List.nodup_append_comm]
      exact List.nodup_cons.2 ⟨h.new_key hnew pool, h.distinct pool⟩
    · rw [if_neg hpool, List.append_nil]
      exact h.distinct pool'
  · intro pool' r' hr'
    rcases hstored pool' r' hr' with hold | ⟨rfl, rfl⟩
    · exact h.known pool' r' hold
    · exact hkey
  · intro pool' r' hr'
    rcases hstored pool' r' hr' with hold | ⟨rfl, rfl⟩
    · exact Finset.mem_insert_of_mem (h.seen pool' r' hold)
    · exact Finset.mem_insert_self _ _

section Runs

variable {D : Type} [FileSystem D]

/-- A run returns if the keys that its receipts could store fit: `K` bounds what each pool can
hold. -/
theorem exists_ingestAll_eq_ok {x : Packages} {K : Bytes 32 → List StorageReceipt.DedupKey}
    (hK : ∀ pool, (K pool).length ≤ isizeMax) :
    ∀ {offered : List StorageReceipt} {c : ReceiptCollector} (disk : D),
      (offered ≠ [] → c.DeadlineFits) →
      (∀ r ∈ offered, ∀ pool, Acceptable x c r pool → r.key ∈ K pool) → KeysIn x K c →
        ∃ out, ingestAll x offered c disk = .ok out
  | [], c, disk, _, _, _ => ⟨([], c, disk), rfl⟩
  | r :: rs, c, disk, hfits, hkeys, hin => by
      have hfit : c.DeadlineFits := hfits (List.cons_ne_nil r rs)
      have hkeys' : ∀ r' ∈ rs, ∀ pool, Acceptable x c r' pool → r'.key ∈ K pool :=
        fun r' hr' => hkeys r' (List.mem_cons_of_mem r hr')
      rcases accepted_or_rejected x c r with ⟨hnew, pool, hacc⟩ | hbad
      · have hkey := hkeys r List.mem_cons_self pool hacc
        have hcap : (c.stored pool).length < isizeMax :=
          Nat.lt_of_lt_of_le
            (length_lt_of_missing_key (hin.distinct pool) (hin.known pool) hkey
              (hin.new_key hnew pool))
            (hK pool)
        -- the receipt is stored, and the rest is offered to a collector with the same settings
        have hsettings := (Took.accept hfit hacc hnew hcap).settings
        have hone := ingest_accept disk hfit hacc hnew
        rw [if_pos hcap] at hone
        rcases exists_ingestAll_eq_ok hK (persistAccepted x c.persistDir pool r disk)
          (fun _ => hsettings.deadlineFits.2 hfit)
          (fun r' hr' pool' hacc' => hkeys' r' hr' pool' (hsettings.acceptable.1 hacc'))
          (hin.accept hnew hkey) with ⟨⟨accepted, c', disk'⟩, hrun⟩
        exact ⟨_, by simp only [ingestAll, hone, hrun, Outcome.ok_bind]; rfl⟩
      · rcases ingest_reject disk hfit hbad with ⟨err, herr⟩
        rcases exists_ingestAll_eq_ok hK disk (fun _ => hfit) hkeys' hin with ⟨out, hrun⟩
        exact ⟨out, by simp [ingestAll, herr, hrun]⟩

/-- If one order of receipts is taken by an empty collector, every other order is: no pool has to
hold more keys than in the first one. -/
theorem exists_ingestAll_of_perm {x : Packages} {c c₁ : ReceiptCollector}
    {offered offered' : List StorageReceipt} {accepted : List (Bytes 32 × StorageReceipt)}
    (hempty : c.poolReceipts = SortedMap.empty) (hseen : c.seen = ∅)
    (htook : Took x c offered accepted c₁) (hperm : offered.Perm offered')
    (hno : ¬ OfferedCollision x offered) (disk : D) :
    ∃ out, ingestAll x offered' c disk = .ok out := by
  have hholds := htook.holds hempty
  refine exists_ingestAll_eq_ok (K := keysOf accepted) ?_ disk ?_ ?_ (KeysIn.of_empty x _ hempty)
  · intro pool
    rw [keysOf, List.length_map, ← hholds.stored]
    exact hholds.capacity pool
  · intro hne
    refine htook.fits fun hnil => hne ?_
    rw [hnil] at hperm
    exact hperm.nil_eq.symm
  · intro r hr pool hacc
    exact (htook.mem_keysOf hseen hno).2 ⟨r, hperm.mem_iff.2 hr, hacc, rfl⟩

/-! ## Payouts -/

/-- What draining a queue into the service and ending the epoch returns, with the pools in the order
of the hash map. -/
def Payout (x : Packages) (s : AggregatorService) (disk : D) (queue : List (List UInt8))
    (pools : List (Bytes 32)) (results : List (Except AggregatorError BuiltTransaction)) : Prop :=
  ∃ count c disk' s', drainChannel x queue s.collector disk = .ok (count, c, disk') ∧
    pools.Perm c.pools ∧ processEpochEnd x pools { s with collector := c } = .ok (results, s')

/-- What a payout consists of: a run over the receipts, and the end of the epoch. -/
theorem payout_iff {x : Packages} {s : AggregatorService} {disk : D} {queue : List (List UInt8)}
    {pools : List (Bytes 32)} {results : List (Except AggregatorError BuiltTransaction)} :
    Payout x s disk queue pools results ↔
      ∃ accepted c disk' s',
        ingestAll x (decoded x queue) s.collector disk = .ok (accepted, c, disk') ∧
        pools.Perm c.pools ∧
        processEpochEnd x pools { s with collector := c } = .ok (results, s') := by
  constructor
  · rintro ⟨count, c, disk', s', hdrain, hpools, hend⟩
    rw [drainChannel_eq, Outcome.bind_eq_ok] at hdrain
    rcases hdrain with ⟨⟨accepted, c₁, disk₁⟩, hrun, heq⟩
    simp only [Outcome.pure_eq, Outcome.ok.injEq, Prod.mk.injEq] at heq
    rcases heq with ⟨-, rfl, rfl⟩
    exact ⟨accepted, _, _, s', hrun, hpools, hend⟩
  · rintro ⟨accepted, c, disk', s', hrun, hpools, hend⟩
    exact ⟨accepted.length, c, disk', s', by simp [drainChannel_eq, hrun], hpools, hend⟩

/-- Whether the epoch can advance does not depend on the collector. -/
theorem advanceEpoch_ok_of_ok {s s' : AggregatorService} {c c' : ReceiptCollector}
    (h : AggregatorService.advanceEpoch { s with collector := c } = .ok s') :
    ∃ s'', AggregatorService.advanceEpoch { s with collector := c' } = .ok s'' := by
  simp only [AggregatorService.advanceEpoch, Outcome.bind_eq_ok, Outcome.pure_eq,
    Outcome.ok.injEq] at h ⊢
  rcases h with ⟨epoch, hepoch, epochStart, hstart, epochEnd, hend, -⟩
  exact ⟨_, epoch, hepoch, epochStart, hstart, epochEnd, hend, rfl⟩

/-- Two runs that left the same keys for every pool end the epoch with the same result for every
pool, and the second one ends if the first does. -/
theorem processEpochEnd_congr {x : Packages} {s s₁ : AggregatorService} {c₁ c₂ : ReceiptCollector}
    {accepted accepted' : List (Bytes 32 × StorageReceipt)} (h₁ : Holds x c₁ accepted)
    (h₂ : Holds x c₂ accepted')
    (hkeys : ∀ pool, (keysOf accepted pool).Perm (keysOf accepted' pool))
    {pools pools' : List (Bytes 32)} (hpools : pools.Perm c₁.pools) (hpools' : pools'.Perm c₂.pools)
    {results : List (Except AggregatorError BuiltTransaction)}
    (hend : processEpochEnd x pools { s with collector := c₁ } = .ok (results, s₁)) :
    ∃ results' s₂, processEpochEnd x pools' { s with collector := c₂ } = .ok (results', s₂) ∧
      results.length = pools.length ∧ results'.length = pools'.length ∧
      (pools.zip results).Perm (pools'.zip results') := by
  -- the same pools have receipts
  have hmem : ∀ pool, pool ∈ pools ↔ pool ∈ pools' := by
    intro pool
    rw [hpools.mem_iff, hpools'.mem_iff, h₁.mem_pools, h₂.mem_pools]
    simp only [(hkeys pool).mem_iff]
  have hnodup : pools.Nodup := hpools.nodup_iff.2 (ReceiptCollector.nodup_pools _)
  have hnodup' : pools'.Nodup := hpools'.nodup_iff.2 (ReceiptCollector.nodup_pools _)
  have hperm : pools.Perm pools' := (List.perm_ext_iff_of_nodup hnodup hnodup').2 hmem
  have hne : ∀ pool ∈ pools, c₁.stored pool ≠ [] :=
    fun pool hpool => h₁.stored_ne_nil (hpools.mem_iff.1 hpool)
  have hne' : ∀ pool ∈ pools', c₂.stored pool ≠ [] :=
    fun pool hpool => h₂.stored_ne_nil (hpools'.mem_iff.1 hpool)
  -- every pool has the same result in both
  have hbuild : ∀ pool ∈ pools, ∃ result,
      buildDistribution x pool (c₁.stored pool) = .ok result ∧
        buildDistribution x pool (c₂.stored pool) = .ok result := by
    intro pool hpool
    refine buildDistribution_congr x pool ?_ (hne pool hpool) (h₁.capacity pool)
      (h₁.storageNode_stored pool) (h₂.storageNode_stored pool)
    rw [h₁.stored, h₂.stored]
    exact hkeys pool
  have : Nonempty (Except AggregatorError BuiltTransaction) := ⟨.error .emptyBatch⟩
  choose! result hresult hresult' using hbuild
  -- both ends of the epoch return these results, each in its own order
  have hend₁ := processEpochEnd_eq (s := { s with collector := c₁ }) hnodup hne hresult
  have hend₂ := processEpochEnd_eq (s := { s with collector := c₂ }) hnodup' hne'
    fun pool hpool => hresult' pool ((hmem pool).2 hpool)
  rw [hend₁] at hend
  simp only [Outcome.bind_eq_ok, Outcome.pure_eq, Outcome.ok.injEq, Prod.mk.injEq] at hend
  rcases hend with ⟨s', hadv, rfl, -⟩
  rcases advanceEpoch_ok_of_ok hadv with ⟨s'', hadv'⟩
  refine ⟨pools'.map result, s'', ?_, List.length_map .., List.length_map .., ?_⟩
  · rw [hend₂, hadv']
    rfl
  · rw [← List.map_prod_left_eq_zip, ← List.map_prod_left_eq_zip]
    exact hperm.map fun pool => (pool, result pool)

/-- The order in which the messages of a queue are delivered to a fresh service changes no payout:
if one order pays, every other order does, and with the same result for each pool; unless two of the
dedup messages collide. -/
theorem payout_order_irrelevant (x : Packages) (s : AggregatorService)
    (hfresh : s.collector.poolReceipts = SortedMap.empty) (hseen : s.collector.seen = ∅)
    {queue queue' : List (List UInt8)} (hperm : queue.Perm queue') (disk disk' : D)
    {pools : List (Bytes 32)} {results : List (Except AggregatorError BuiltTransaction)}
    (hpayout : Payout x s disk queue pools results) :
    OfferedCollision x (decoded x queue) ∨
      ((∃ pools' results', Payout x s disk' queue' pools' results') ∧
        ∀ pools' results', Payout x s disk' queue' pools' results' →
          results.length = pools.length ∧ results'.length = pools'.length ∧
            (pools.zip results).Perm (pools'.zip results')) := by
  by_cases hcollision : OfferedCollision x (decoded x queue)
  · exact Or.inl hcollision
  right
  have hoffered : (decoded x queue).Perm (decoded x queue') := hperm.filterMap _
  rcases payout_iff.1 hpayout with ⟨accepted, c₁, disk₁, s₁, hrun, hpools, hend⟩
  have htook := ingestAll_took hrun
  -- any run over the other order leaves the same keys, so its payout is the same
  have hsame : ∀ {accepted' : List (Bytes 32 × StorageReceipt)} {c₂ : ReceiptCollector} {disk₂ : D}
      {pools' : List (Bytes 32)},
      ingestAll x (decoded x queue') s.collector disk' = .ok (accepted', c₂, disk₂) →
        pools'.Perm c₂.pools → ∃ results' s₂,
          processEpochEnd x pools' { s with collector := c₂ } = .ok (results', s₂) ∧
            results.length = pools.length ∧ results'.length = pools'.length ∧
            (pools.zip results).Perm (pools'.zip results') := by
    intro accepted' c₂ disk₂ pools' hrun' hpools'
    have htook' := ingestAll_took hrun'
    exact processEpochEnd_congr (htook.holds hfresh) (htook'.holds hfresh)
      (keysOf_perm htook htook' hoffered hseen hcollision) hpools hpools' hend
  constructor
  · rcases exists_ingestAll_of_perm hfresh hseen htook hoffered hcollision disk' with
      ⟨⟨accepted', c₂, disk₂⟩, hrun'⟩
    rcases hsame hrun' (List.Perm.refl _) with ⟨results', s₂, hend', -⟩
    exact ⟨_, results', payout_iff.2 ⟨accepted', c₂, disk₂, s₂, hrun', List.Perm.refl _, hend'⟩⟩
  · intro pools' results' hpayout'
    rcases payout_iff.1 hpayout' with ⟨accepted', c₂, disk₂, s₂, hrun', hpools', hend'⟩
    rcases hsame hrun' hpools' with ⟨results'', s₃, hend'', hconcl⟩
    rw [hend'] at hend''
    simp only [Outcome.ok.injEq, Prod.mk.injEq] at hend''
    rw [← hend''.1] at hconcl
    exact hconcl

end Runs

/-! ## Two orders of one queue -/

def freshService : AggregatorService :=
  { hourService with collector := hourCollector }

/-- Two receipts with one key, a malformed message, and a receipt for another node. -/
def conflictQueue : List (List UInt8) :=
  [firstReceipt.bincode, [0], conflictingReceipt.bincode, thirdReceipt.bincode]

def reversedQueue : List (List UInt8) :=
  [thirdReceipt.bincode, conflictingReceipt.bincode, [0], firstReceipt.bincode]

def conflictBatch : PoolBatch :=
  { poolPubkey := somePool
    weights :=
      { entries := [(nodeOne, 1), (nodeTwo, 1)]
        sorted := by decide +kernel }
    receiptCount := 2
    totalWeight := 2
    proof := mockProof
      { root :=
          Bytes.ofNat 32 0x2d3b933fd9bd5c2370eaea738a329ed105415a78e6dc6056ee3b096d09330d37
        totalWeight := 2
        entryCount := 2
        poolId := somePool } }

theorem payout_conflictQueue :
    Payout receiptPackages freshService FileTree.empty conflictQueue [somePool]
      [.ok (buildPostDistribution receiptPackages conflictBatch)] := by
  have hdrain : drainChannel receiptPackages conflictQueue hourCollector FileTree.empty =
      .ok (2, hourThird, FileTree.empty) := by
    decide +kernel
  have hadv : AggregatorService.advanceEpoch { freshService with collector := hourThird } =
      .ok { hourService with
        collector := hourCollector.reset 7200 10800
        currentEpoch := 2 } := by
    decide +kernel
  have hbatch : build receiptPackages somePool (hourThird.stored somePool) =
      .ok (.ok conflictBatch) := by
    decide +kernel
  exact ⟨2, hourThird, FileTree.empty, _, hdrain, by decide +kernel,
    processEpochEnd_single (by decide +kernel) hbatch hadv⟩

theorem reversedQueue_same_payout :
    OfferedCollision receiptPackages (decoded receiptPackages conflictQueue) ∨
      ((∃ pools' results', Payout receiptPackages freshService FileTree.empty reversedQueue pools'
          results') ∧
        ∀ pools' results', Payout receiptPackages freshService FileTree.empty reversedQueue pools'
            results' →
          [Except.ok (ε := AggregatorError) (buildPostDistribution receiptPackages
              conflictBatch)].length = [somePool].length ∧
            results'.length = pools'.length ∧
            ([somePool].zip [.ok (buildPostDistribution receiptPackages conflictBatch)]).Perm
              (pools'.zip results')) :=
  payout_order_irrelevant receiptPackages freshService rfl rfl (by decide +kernel) FileTree.empty
    FileTree.empty payout_conflictQueue

end Aggregator
end CraftecCore
