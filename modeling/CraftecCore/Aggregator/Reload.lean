import CraftecCore.Aggregator.Persistence

/-!
# Reload — which records the loader stores

The loader reads every decodable file with the extension `receipts` and stores the records whose
content id is registered and whose hash is new.  It makes none of the other checks of `ingest`, so
what it stores meets them exactly when the records on the disk do.
-/

namespace CraftecCore
namespace Aggregator

open Settlement FileSystem

/-! ## Records on the disk -/

section Disk

variable {D : Type} [FileSystem D]

/-- The records of one file; none if the loader skips it. -/
def fileRecords (x : Packages) (dir : Path) (disk : D) (name : String) : List StorageReceipt :=
  if extension name = some "receipts" then
    match FileSystem.read (dir ++ [name]) disk with
    | .error _ => []
    | .ok data => ((x.deserializeReceipts data).toOption).getD []
  else
    []

/-- The records of a directory, in the order in which the loader meets them. -/
def persistedRecords (x : Packages) (dir : Path) (disk : D) : List StorageReceipt :=
  match FileSystem.readDir dir disk with
  | .error _ => []
  | .ok names => names.flatMap (fileRecords x dir disk)

theorem loadReceipts_append (x : Packages) (later : List StorageReceipt) :
    ∀ (earlier : List StorageReceipt) (c : ReceiptCollector) (count : ℕ),
      loadReceipts x (earlier ++ later) c count = (do
        let (c, count) ← loadReceipts x earlier c count
        loadReceipts x later c count)
  | [], c, count => rfl
  | receipt :: earlier, c, count => by
      simp only [List.cons_append, loadReceipts]
      split
      · exact loadReceipts_append x later earlier c count
      · split
        · exact loadReceipts_append x later earlier c count
        · rename_i pool _
          cases hpush : vecPush ((c.poolReceipts.get? pool).getD []) receipt with
          | panic why => rfl
          | ok stored =>
              simp only [Outcome.ok_bind]
              exact loadReceipts_append x later earlier _ (count + 1)

theorem loadFiles_eq_loadReceipts (x : Packages) (dir : Path) (disk : D) :
    ∀ (names : List String) (c : ReceiptCollector) (count : ℕ),
      loadFiles x dir disk names c count =
        loadReceipts x (names.flatMap (fileRecords x dir disk)) c count
  | [], c, count => rfl
  | name :: names, c, count => by
      have htail := loadFiles_eq_loadReceipts x dir disk names
      rw [List.flatMap_cons, loadReceipts_append, loadFiles]
      by_cases hext : extension name = some "receipts"
      · cases hread : FileSystem.read (dir ++ [name]) disk with
        | error msg => simp [fileRecords, hext, hread, loadReceipts, htail]
        | ok data =>
            cases hdata : x.deserializeReceipts data with
            | error msg =>
                simp [fileRecords, hext, hread, hdata, Except.toOption, loadReceipts, htail]
            | ok receipts => simp [fileRecords, hext, hread, hdata, Except.toOption, htail]
      · simp [fileRecords, hext, loadReceipts, htail]

/-- Loading a directory is loading its records one after the other. -/
theorem loadPersisted_eq_loadReceipts (x : Packages) (dir : Path) (c : ReceiptCollector)
    (disk : D) :
    loadPersisted x dir c disk = loadReceipts x (persistedRecords x dir disk) c 0 := by
  unfold loadPersisted persistedRecords
  cases hdir : FileSystem.readDir dir disk with
  | error msg => rfl
  | ok names => exact loadFiles_eq_loadReceipts x dir disk names c 0

end Disk

/-! ## What is stored -/

/-- A record of a registered content id whose hash neither the collector has seen nor an earlier
such record has. -/
def Recoverable (x : Packages) (c : ReceiptCollector) (records : List StorageReceipt)
    (pool : Bytes 32) (receipt : StorageReceipt) : Prop :=
  ∃ earlier later, records = earlier ++ receipt :: later ∧
    c.cidToPool.get? receipt.contentId = some pool ∧ receipt.dedupHash x.sha256 ∉ c.seen ∧
    ∀ r ∈ earlier, (∃ pool, c.cidToPool.get? r.contentId = some pool) →
      r.dedupHash x.sha256 ≠ receipt.dedupHash x.sha256

section Recoverable

variable {x : Packages} {c : ReceiptCollector} {records : List StorageReceipt} {pool : Bytes 32}
  {receipt first : StorageReceipt}

theorem not_recoverable_nil : ¬ Recoverable x c [] pool receipt := by
  rintro ⟨earlier, later, hsplit, -⟩
  simp at hsplit

theorem recoverable_cons :
    Recoverable x c (first :: records) pool receipt ↔
      (receipt = first ∧ c.cidToPool.get? first.contentId = some pool ∧
        first.dedupHash x.sha256 ∉ c.seen) ∨
      (Recoverable x c records pool receipt ∧
        ((∃ pool, c.cidToPool.get? first.contentId = some pool) →
          first.dedupHash x.sha256 ≠ receipt.dedupHash x.sha256)) := by
  constructor
  · rintro ⟨earlier, later, hsplit, hpool, hnew, hearlier⟩
    cases earlier with
    | nil =>
        rw [List.nil_append, List.cons.injEq] at hsplit
        rcases hsplit with ⟨rfl, rfl⟩
        exact Or.inl ⟨rfl, hpool, hnew⟩
    | cons r earlier =>
        rw [List.cons_append, List.cons.injEq] at hsplit
        rcases hsplit with ⟨rfl, rfl⟩
        refine Or.inr ⟨⟨earlier, later, rfl, hpool, hnew, ?_⟩, hearlier _ List.mem_cons_self⟩
        exact fun r hr => hearlier r (List.mem_cons_of_mem _ hr)
  · rintro (⟨rfl, hpool, hnew⟩ | ⟨⟨earlier, later, rfl, hpool, hnew, hearlier⟩, hfirst⟩)
    · exact ⟨[], records, rfl, hpool, hnew, by simp⟩
    · refine ⟨first :: earlier, later, rfl, hpool, hnew, ?_⟩
      intro r hr
      rcases List.mem_cons.1 hr with rfl | hr
      · exact hfirst
      · exact hearlier r hr

/-- A record whose hash was seen hides nothing. -/
theorem recoverable_cons_seen (hseen : first.dedupHash x.sha256 ∈ c.seen) :
    Recoverable x c (first :: records) pool receipt ↔ Recoverable x c records pool receipt := by
  rw [recoverable_cons]
  constructor
  · rintro (⟨-, -, hnew⟩ | ⟨h, -⟩)
    · exact absurd hseen hnew
    · exact h
  · intro h
    refine Or.inr ⟨h, ?_⟩
    rcases h with ⟨-, -, -, -, hnew, -⟩
    exact fun _ heq => hnew (heq ▸ hseen)

/-- A record of an unknown content id hides nothing. -/
theorem recoverable_cons_unknown (hpool : c.cidToPool.get? first.contentId = none) :
    Recoverable x c (first :: records) pool receipt ↔ Recoverable x c records pool receipt := by
  simp [recoverable_cons, hpool]

/-- Once a record is stored, later ones with its hash are not. -/
theorem recoverable_cons_store {pool' : Bytes 32}
    (hpool : c.cidToPool.get? first.contentId = some pool')
    (hnew : first.dedupHash x.sha256 ∉ c.seen) :
    Recoverable x c (first :: records) pool receipt ↔
      (pool = pool' ∧ receipt = first) ∨
      Recoverable x (c.accept (first.dedupHash x.sha256) pool' first) records pool receipt := by
  rw [recoverable_cons]
  constructor
  · rintro (⟨rfl, hp, -⟩ | ⟨⟨earlier, later, hsplit, hp, hn, hearlier⟩, hfirst⟩)
    · exact Or.inl ⟨Option.some.inj (hp.symm.trans hpool), rfl⟩
    · refine Or.inr ⟨earlier, later, hsplit, hp, ?_, hearlier⟩
      -- unseen, and not the hash just stored
      rw [ReceiptCollector.accept, Finset.mem_insert, not_or]
      exact ⟨(hfirst ⟨pool', hpool⟩).symm, hn⟩
  · rintro (⟨rfl, rfl⟩ | ⟨earlier, later, hsplit, hp, hn, hearlier⟩)
    · exact Or.inl ⟨rfl, hpool, hnew⟩
    · rw [ReceiptCollector.accept, Finset.mem_insert, not_or] at hn
      exact Or.inr ⟨⟨earlier, later, hsplit, hp, hn.2, hearlier⟩, fun _ => Ne.symm hn.1⟩

end Recoverable

/-- Loading `records` into the collector `c` leads to `c'`, and `loaded` was stored. -/
structure Loaded (x : Packages) (c : ReceiptCollector) (records : List StorageReceipt)
    (loaded : List (Bytes 32 × StorageReceipt)) (c' : ReceiptCollector) : Prop where
  stored : ∀ pool, c'.stored pool = c.stored pool ++ ofPool loaded pool
  mem_iff : ∀ pool receipt, (pool, receipt) ∈ loaded ↔ Recoverable x c records pool receipt
  unseen : ∀ a ∈ loaded, a.2.dedupHash x.sha256 ∉ c.seen
  distinct : (loaded.map fun a => a.2.dedupHash x.sha256).Nodup

theorem Loaded.nil (x : Packages) (c : ReceiptCollector) : Loaded x c [] [] c :=
  { stored := fun pool => by simp [ofPool]
    mem_iff := fun pool receipt => by simp [not_recoverable_nil]
    unseen := fun a ha => absurd ha List.not_mem_nil
    distinct := List.nodup_nil }

/-- A record that is passed over. -/
theorem Loaded.skip {x : Packages} {c c' : ReceiptCollector} {records : List StorageReceipt}
    {loaded : List (Bytes 32 × StorageReceipt)} {first : StorageReceipt}
    (h : Loaded x c records loaded c')
    (hskip : ∀ pool receipt,
      Recoverable x c (first :: records) pool receipt ↔ Recoverable x c records pool receipt) :
    Loaded x c (first :: records) loaded c' :=
  { h with mem_iff := fun pool receipt => (h.mem_iff pool receipt).trans (hskip pool receipt).symm }

/-- A record that is stored. -/
theorem Loaded.store {x : Packages} {c c' : ReceiptCollector} {records : List StorageReceipt}
    {loaded : List (Bytes 32 × StorageReceipt)} {first : StorageReceipt} {pool : Bytes 32}
    (hpool : c.cidToPool.get? first.contentId = some pool)
    (hnew : first.dedupHash x.sha256 ∉ c.seen)
    (h : Loaded x (c.accept (first.dedupHash x.sha256) pool first) records loaded c') :
    Loaded x c (first :: records) ((pool, first) :: loaded) c' := by
  have hunseen : ∀ a ∈ loaded, first.dedupHash x.sha256 ≠ a.2.dedupHash x.sha256 ∧
      a.2.dedupHash x.sha256 ∉ c.seen := by
    intro a ha
    have hout := h.unseen a ha
    rw [ReceiptCollector.accept, Finset.mem_insert, not_or] at hout
    exact ⟨Ne.symm hout.1, hout.2⟩
  exact
    { stored := fun pool' => by
        rw [h.stored, c.stored_accept, List.append_assoc]
        by_cases heq : pool = pool' <;> simp [ofPool, heq]
      mem_iff := fun pool' receipt => by
        rw [recoverable_cons_store hpool hnew, List.mem_cons, h.mem_iff, Prod.mk.injEq]
      unseen := fun a ha => by
        rcases List.mem_cons.1 ha with rfl | ha
        · exact hnew
        · exact (hunseen a ha).2
      distinct := by
        rw [List.map_cons, List.nodup_cons]
        refine ⟨?_, h.distinct⟩
        intro hmem
        rcases List.mem_map.1 hmem with ⟨a, ha, heq⟩
        exact (hunseen a ha).1 heq.symm }

/-- What a returning run of the loader stored. -/
theorem loadReceipts_loaded {x : Packages} :
    ∀ {records : List StorageReceipt} {c c' : ReceiptCollector} {count count' : ℕ},
      loadReceipts x records c count = .ok (c', count') → ∃ loaded, Loaded x c records loaded c'
  | [], c, c', count, count', h => by
      simp only [loadReceipts, Outcome.pure_eq, Outcome.ok.injEq, Prod.mk.injEq] at h
      rcases h with ⟨rfl, -⟩
      exact ⟨[], Loaded.nil x c⟩
  | first :: records, c, c', count, count', h => by
      rw [loadReceipts] at h
      split at h
      · -- the hash was seen
        rename_i hseen
        rcases loadReceipts_loaded h with ⟨loaded, hl⟩
        exact ⟨loaded, hl.skip fun _ _ => recoverable_cons_seen hseen⟩
      · rename_i hnew
        split at h
        · -- the content id is not registered
          rename_i hpool
          rcases loadReceipts_loaded h with ⟨loaded, hl⟩
          exact ⟨loaded, hl.skip fun _ _ => recoverable_cons_unknown hpool⟩
        · rename_i pool hpool
          rw [Outcome.bind_eq_ok] at h
          rcases h with ⟨stored, hpush, hrest⟩
          have hstored : stored = c.stored pool ++ [first] := by
            unfold vecPush at hpush
            split at hpush
            · exact (Outcome.ok.inj hpush).symm
            · simp at hpush
          subst hstored
          rcases loadReceipts_loaded hrest with ⟨loaded, hl⟩
          exact ⟨(pool, first) :: loaded, hl.store hpool hnew⟩

/-! ## The bar of live receipts -/

def newlyStored (c c' : ReceiptCollector) (pool : Bytes 32) : List StorageReceipt :=
  (c'.stored pool).drop (c.stored pool).length

/-- Every receipt that is new in `c'` passes all the checks that `ingest` makes on the collector
`c`, and no two of them have one hash. -/
structure MeetsBar (x : Packages) (c c' : ReceiptCollector) : Prop where
  acceptable : ∀ pool, ∀ receipt ∈ newlyStored c c' pool, Acceptable x c receipt pool
  unseen : ∀ pool, ∀ receipt ∈ newlyStored c c' pool, receipt.dedupHash x.sha256 ∉ c.seen
  distinct : ∀ pool, ((newlyStored c c' pool).map fun r => r.dedupHash x.sha256).Nodup
  onePool : ∀ pool pool', ∀ r ∈ newlyStored c c' pool, ∀ r' ∈ newlyStored c c' pool',
    r.dedupHash x.sha256 = r'.dedupHash x.sha256 → pool = pool'

theorem Loaded.newlyStored_eq {x : Packages} {c c' : ReceiptCollector}
    {records : List StorageReceipt} {loaded : List (Bytes 32 × StorageReceipt)}
    (h : Loaded x c records loaded c') (pool : Bytes 32) :
    newlyStored c c' pool = ofPool loaded pool := by
  simp [newlyStored, h.stored]

/-- What the loader stores meets the bar exactly when every recoverable record on the disk passes
the checks of `ingest`. -/
theorem loadPersisted_meetsBar_iff {D : Type} [FileSystem D] {x : Packages} {dir : Path}
    {c c' : ReceiptCollector} {disk : D} {count : ℕ}
    (hrun : loadPersisted x dir c disk = .ok (c', count)) :
    MeetsBar x c c' ↔ ∀ pool receipt,
      Recoverable x c (persistedRecords x dir disk) pool receipt → Acceptable x c receipt pool := by
  rw [loadPersisted_eq_loadReceipts] at hrun
  rcases loadReceipts_loaded hrun with ⟨loaded, hl⟩
  have hmem : ∀ pool receipt, receipt ∈ newlyStored c c' pool ↔
      Recoverable x c (persistedRecords x dir disk) pool receipt := by
    intro pool receipt
    rw [hl.newlyStored_eq, mem_ofPool, hl.mem_iff]
  constructor
  · intro hbar pool receipt hrec
    exact hbar.acceptable pool receipt ((hmem pool receipt).2 hrec)
  · intro hall
    exact
      { acceptable := fun pool receipt hr => hall pool receipt ((hmem pool receipt).1 hr)
        unseen := fun pool receipt hr => by
          rw [hl.newlyStored_eq, mem_ofPool] at hr
          exact hl.unseen _ hr
        distinct := fun pool => by
          rw [hl.newlyStored_eq, ofPool, List.map_map]
          exact hl.distinct.sublist (List.filter_sublist.map _)
        onePool := fun pool pool' r hr r' hr' heq => by
          rw [hl.newlyStored_eq, mem_ofPool] at hr hr'
          exact congrArg Prod.fst (List.inj_on_of_nodup_map hl.distinct hr hr' heq) }

def unsignedReceipt : StorageReceipt :=
  { firstReceipt with signature := [] }

def unsignedFile : FileTree :=
  { files := SortedMap.empty.insert ["epoch_1", "pool.receipts"]
      ((UInt64.ofNat 1).leBytes ++ unsignedReceipt.bincode) }

def unsignedLoaded : ReceiptCollector :=
  hourCollector.accept (unsignedReceipt.dedupHash receiptDigest) somePool unsignedReceipt

theorem meetsBar_iff_unsigned :
    loadPersisted receiptPackages ["epoch_1"] hourCollector unsignedFile =
        .ok (unsignedLoaded, 1) ∧
      (MeetsBar receiptPackages hourCollector unsignedLoaded ↔ ∀ pool receipt,
        Recoverable receiptPackages hourCollector
          (persistedRecords receiptPackages ["epoch_1"] unsignedFile) pool receipt →
        Acceptable receiptPackages hourCollector receipt pool) := by
  have hrun : loadPersisted receiptPackages ["epoch_1"] hourCollector unsignedFile =
      .ok (unsignedLoaded, 1) := by
    decide +kernel
  exact ⟨hrun, loadPersisted_meetsBar_iff hrun⟩

/-- A record without a signature is stored, although `ingest` rejects it. -/
theorem reload_stores_unsigned :
    loadPersisted receiptPackages ["epoch_1"] hourCollector unsignedFile =
        .ok (unsignedLoaded, 1) ∧
      ingest receiptPackages unsignedReceipt hourCollector FileTree.empty =
        .ok (.error .invalidSignature, hourCollector, FileTree.empty) ∧
      unsignedReceipt ∈ newlyStored hourCollector unsignedLoaded somePool ∧
      ¬ MeetsBar receiptPackages hourCollector unsignedLoaded := by
  have hmem : unsignedReceipt ∈ newlyStored hourCollector unsignedLoaded somePool := by
    decide +kernel
  refine ⟨by decide +kernel, by decide +kernel, hmem, ?_⟩
  intro hbar
  have hsig := (hbar.acceptable somePool unsignedReceipt hmem).signature
  have hbad : verifyReceiptSignature receiptPackages unsignedReceipt ≠ .ok () := by
    decide +kernel
  exact hbad hsig

end Aggregator
end CraftecCore
