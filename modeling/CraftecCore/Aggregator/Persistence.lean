import CraftecCore.Aggregator.Intake

/-!
# Persistence — what survives a crash

Accepted receipts are appended to `pool_<hex>.receipts.log`, but the loader reads the files whose
extension is `receipts`, and the extension of the files written is `log`.  So nothing that was
written is ever read back.
-/

namespace CraftecCore
namespace Aggregator

open Settlement FileSystem

/-! ## The source functions -/

/-- The loop over the receipts of one file; they are not validated again. -/
def loadReceipts (x : Packages) : List StorageReceipt → ReceiptCollector → ℕ →
    Outcome (ReceiptCollector × ℕ)
  | [], c, count => pure (c, count)
  | receipt :: receipts, c, count =>
      if receipt.dedupHash x.sha256 ∈ c.seen then
        loadReceipts x receipts c count
      else
        match c.cidToPool.get? receipt.contentId with
        | none => loadReceipts x receipts c count
        | some pool => do
            let stored ← vecPush ((c.poolReceipts.get? pool).getD []) receipt
            loadReceipts x receipts
              { c with
                seen := insert (receipt.dedupHash x.sha256) c.seen
                poolReceipts := c.poolReceipts.insert pool stored }
              (count + 1)

section Disk

variable {D : Type} [FileSystem D]

/-- The loop over the files of a directory; unreadable and undecodable files are skipped. -/
def loadFiles (x : Packages) (dir : Path) (disk : D) : List String → ReceiptCollector → ℕ →
    Outcome (ReceiptCollector × ℕ)
  | [], c, count => pure (c, count)
  | name :: names, c, count =>
      if extension name = some "receipts" then
        match FileSystem.read (dir ++ [name]) disk with
        | .error _ => loadFiles x dir disk names c count
        | .ok data =>
            match x.deserializeReceipts data with
            | .error _ => loadFiles x dir disk names c count
            | .ok receipts => do
                let (c, count) ← loadReceipts x receipts c count
                loadFiles x dir disk names c count
      else
        loadFiles x dir disk names c count

def loadPersisted (x : Packages) (dir : Path) (c : ReceiptCollector) (disk : D) :
    Outcome (ReceiptCollector × ℕ) :=
  match FileSystem.readDir dir disk with
  | .error _ => pure (c, 0)
  | .ok names => loadFiles x dir disk names c 0

/-! ## Nothing is read back -/

/-- Files without the expected extension are passed over. -/
theorem loadFiles_skip {x : Packages} {dir : Path} {disk : D} (c : ReceiptCollector) (count : ℕ) :
    ∀ {names : List String}, (∀ name ∈ names, extension name ≠ some "receipts") →
      loadFiles x dir disk names c count = .ok (c, count)
  | [], _ => rfl
  | name :: names, h => by
      rw [loadFiles, if_neg (h name List.mem_cons_self)]
      exact loadFiles_skip c count fun other hother => h other (List.mem_cons_of_mem name hother)

end Disk

theorem extension_poolFileName (x : Packages) (pool : Bytes 32) :
    extension (poolFileName x pool) = some "log" := by
  have hname : poolFileName x pool =
      ("pool_" ++ x.hexEncode pool.bytes ++ ".receipts") ++ "." ++ "log" := by
    apply String.toList_inj.1
    simp [poolFileName]
  have hstem : "pool_" ++ x.hexEncode pool.bytes ++ ".receipts" ≠ "" := by
    intro hempty
    have hlist := congrArg String.toList hempty
    simp at hlist
  rw [hname]
  exact extension_append hstem (by decide) (by decide)

/-- Every file of a directory is one that was there before, or the file of a pool. -/
def OnlyPoolFiles (x : Packages) (dir : Path) (disk : FileTree) : Prop :=
  ∀ name ∈ disk.names dir, ∃ pool, name = poolFileName x pool

/-- Persisting a receipt adds at most the file of its pool. -/
theorem OnlyPoolFiles.persistReceipt {x : Packages} {dir : Path} {disk : FileTree}
    (h : OnlyPoolFiles x dir disk) (pool : Bytes 32) (receipt : StorageReceipt) :
    OnlyPoolFiles x dir (persistReceipt x dir pool receipt disk).2 := by
  have hopen : ∀ {name : String},
      name ∈ (disk.openAppend (dir ++ [poolFileName x pool])).names dir →
        ∃ pool, name = poolFileName x pool := by
    intro name hname
    rw [FileTree.mem_names, FileTree.mem_keys_openAppend] at hname
    rcases hname with heq | hold
    · exact ⟨pool, by simpa using heq⟩
    · exact h name (FileTree.mem_names.2 hold)
  intro name hname
  cases hdata : x.serializeReceipt receipt with
  | error msg =>
      -- nothing is written
      simp only [Aggregator.persistReceipt, FileSystem.createDirAll, hdata] at hname
      exact h name hname
  | ok data =>
      simp only [Aggregator.persistReceipt, FileSystem.createDirAll, FileSystem.openAppend,
        FileSystem.writeAll, hdata] at hname
      rw [FileTree.mem_names, FileTree.mem_keys_writeAll, FileTree.mem_keys_writeAll] at hname
      rcases hname with heq | heq | hold
      · exact ⟨pool, by simpa using heq⟩
      · exact ⟨pool, by simpa using heq⟩
      · exact hopen (FileTree.mem_names.2 hold)

theorem ingest_onlyPoolFiles {x : Packages} {dir : Path} {receipt : StorageReceipt}
    {c c' : ReceiptCollector} {disk disk' : FileTree} {result : Except AggregatorError Unit}
    (h : OnlyPoolFiles x dir disk) (hdir : c.persistDir = some dir)
    (hrun : ingest x receipt c disk = .ok (result, c', disk')) : OnlyPoolFiles x dir disk' := by
  rcases ingest_cases hrun with
    ⟨-, ⟨pool, -, -, -, -, -, rfl⟩ | ⟨-, -, -, rfl⟩⟩
  · rw [hdir]
    exact h.persistReceipt pool receipt
  · exact h

theorem ingestAll_onlyPoolFiles {x : Packages} {dir : Path} :
    ∀ {offered : List StorageReceipt} {c c' : ReceiptCollector} {disk disk' : FileTree}
      {accepted : List (Bytes 32 × StorageReceipt)}, OnlyPoolFiles x dir disk →
      c.persistDir = some dir → ingestAll x offered c disk = .ok (accepted, c', disk') →
        OnlyPoolFiles x dir disk'
  | [], c, c', disk, disk', accepted, h, _, hrun => by
      simp only [ingestAll, Outcome.pure_eq, Outcome.ok.injEq, Prod.mk.injEq] at hrun
      rcases hrun with ⟨-, -, rfl⟩
      exact h
  | receipt :: receipts, c, c', disk, disk', accepted, h, hdir, hrun => by
      rw [ingestAll, Outcome.bind_eq_ok] at hrun
      rcases hrun with ⟨⟨result, c₁, disk₁⟩, hone, hrest⟩
      -- the directory is fixed along the run, so each receipt adds at most a pool file
      have h₁ := ingest_onlyPoolFiles h hdir hone
      rcases ingest_took hone with ⟨pool, -, rfl, htook⟩ | ⟨⟨err, rfl⟩, -, -, htook⟩
      · simp only [Outcome.bind_eq_ok] at hrest
        rcases hrest with ⟨⟨accepted', c₂, disk₂⟩, hrun', heq⟩
        simp only [Outcome.pure_eq, Outcome.ok.injEq, Prod.mk.injEq] at heq
        rcases heq with ⟨-, -, rfl⟩
        exact ingestAll_onlyPoolFiles h₁ (htook.settings.persistDir.trans hdir) hrun'
      · exact ingestAll_onlyPoolFiles h₁ (htook.settings.persistDir.trans hdir) hrest

def registered (epochStart epochEnd graceSecs : UInt64)
    (registrations : List (Bytes 32 × Bytes 32)) : ReceiptCollector :=
  registrations.foldl (fun c registration => c.registerPool registration.1 registration.2)
    (ReceiptCollector.new epochStart epochEnd graceSecs)

theorem registered_empty (epochStart epochEnd graceSecs : UInt64)
    (registrations : List (Bytes 32 × Bytes 32)) :
    (registered epochStart epochEnd graceSecs registrations).poolReceipts = SortedMap.empty ∧
      (registered epochStart epochEnd graceSecs registrations).seen = ∅ := by
  have hfold : ∀ (registrations : List (Bytes 32 × Bytes 32)) (c : ReceiptCollector),
      c.poolReceipts = SortedMap.empty ∧ c.seen = ∅ →
        (registrations.foldl (fun c r => c.registerPool r.1 r.2) c).poolReceipts =
            SortedMap.empty ∧
          (registrations.foldl (fun c r => c.registerPool r.1 r.2) c).seen = ∅ := by
    intro registrations
    induction registrations with
    | nil => exact fun c h => h
    | cons r rs ih => exact fun c h => ih (c.registerPool r.1 r.2) h
  exact hfold registrations _ ⟨rfl, rfl⟩

/-- The checks on a receipt do not read the persistence directory. -/
theorem acceptable_setPersistDir {x : Packages} {c : ReceiptCollector} {dir : Path}
    {receipt : StorageReceipt} {pool : Bytes 32} :
    Acceptable x (c.setPersistDir dir) receipt pool ↔ Acceptable x c receipt pool := by
  constructor
  · rintro ⟨hearly, hlate, hnode, hcontent, hsignature, hpool⟩
    exact ⟨hearly, hlate, hnode, hcontent, hsignature, hpool⟩
  · rintro ⟨hearly, hlate, hnode, hcontent, hsignature, hpool⟩
    exact ⟨hearly, hlate, hnode, hcontent, hsignature, hpool⟩

/-- The loader finds nothing among the files of pools. -/
theorem loadPersisted_eq {x : Packages} {dir : Path} {disk : FileTree} (c : ReceiptCollector)
    (h : OnlyPoolFiles x dir disk) : loadPersisted x dir c disk = .ok (c, 0) := by
  have hskip : ∀ name ∈ disk.names dir, extension name ≠ some "receipts" := by
    intro name hname
    rcases h name hname with ⟨pool, rfl⟩
    rw [extension_poolFileName]
    decide
  simpa [loadPersisted, FileSystem.readDir] using loadFiles_skip c 0 hskip

/-! ## Recovery -/

/-- A fresh collector recovers what a persistent one held exactly when no receipt that was offered
was acceptable, so that nothing was held. -/
theorem loadPersisted_recovers_iff (x : Packages) (epochStart epochEnd graceSecs : UInt64)
    (registrations : List (Bytes 32 × Bytes 32)) (dir : Path) (disk : FileTree)
    (hempty : disk.names dir = []) (offered : List StorageReceipt)
    {accepted : List (Bytes 32 × StorageReceipt)} {c : ReceiptCollector} {disk' : FileTree}
    (hrun : ingestAll x offered
      ((registered epochStart epochEnd graceSecs registrations).setPersistDir dir) disk =
        .ok (accepted, c, disk')) :
    ∃ recovered count,
      loadPersisted x dir (registered epochStart epochEnd graceSecs registrations) disk' =
        .ok (recovered, count) ∧
      (((∀ pool, (recovered.stored pool).Perm (c.stored pool)) ∧ count = c.receiptCount) ↔
        ∀ receipt ∈ offered, ∀ pool, ¬ Acceptable x
          (registered epochStart epochEnd graceSecs registrations) receipt pool) := by
  rcases registered_empty epochStart epochEnd graceSecs registrations with ⟨hpools, hseen⟩
  have htook := ingestAll_took hrun
  have hholds : Holds x c accepted := htook.holds hpools
  -- the loader runs on a directory of pool files only
  have hfiles : OnlyPoolFiles x dir disk' := by
    refine ingestAll_onlyPoolFiles ?_ rfl hrun
    intro name hname
    simp [hempty] at hname
  have hstart : ∀ pool,
      (registered epochStart epochEnd graceSecs registrations).stored pool = [] := by
    intro pool
    simp [ReceiptCollector.stored, hpools]
  refine ⟨_, 0, loadPersisted_eq _ hfiles, ?_⟩
  constructor
  · rintro ⟨-, hcount⟩ receipt hmem pool hacc
    -- the count says that nothing was accepted, but this receipt was new
    have hnone : accepted = [] := by
      rw [hholds.count] at hcount
      exact List.eq_nil_of_length_eq_zero hcount.symm
    have hnew : receipt.dedupHash x.sha256 ∉
        ((registered epochStart epochEnd graceSecs registrations).setPersistDir dir).seen := by
      simp [ReceiptCollector.setPersistDir, hseen]
    rcases htook.exists_accepted hmem (acceptable_setPersistDir.2 hacc) hnew with ⟨a, ha, -⟩
    rw [hnone] at ha
    exact List.not_mem_nil ha
  · intro hnone
    -- nothing was acceptable, so nothing was accepted: both collectors are empty
    have haccepted : accepted = [] := by
      refine List.eq_nil_iff_forall_not_mem.2 ?_
      intro a ha
      exact hnone a.2 (htook.sound a ha).1 a.1
        (acceptable_setPersistDir.1 (htook.sound a ha).2)
    refine ⟨fun pool => ?_, ?_⟩
    · rw [hstart, hholds.stored, haccepted]
      exact List.Perm.refl _
    · rw [hholds.count, haccepted]
      rfl

def hourPersistent : ReceiptCollector :=
  hourCollector.setPersistDir ["epoch_1"]

def firstFile : FileTree :=
  (persistReceipt receiptPackages ["epoch_1"] somePool firstReceipt FileTree.empty).2

def firstPersistent : ReceiptCollector :=
  hourPersistent.accept (firstReceipt.dedupHash receiptDigest) somePool firstReceipt

theorem ingestAll_firstReceipt :
    ingestAll receiptPackages [firstReceipt] hourPersistent FileTree.empty =
      .ok ([(somePool, firstReceipt)], firstPersistent, firstFile) := by
  decide +kernel

theorem recovers_iff_firstReceipt :
    ∃ recovered count,
      loadPersisted receiptPackages ["epoch_1"] hourCollector firstFile = .ok (recovered, count) ∧
      (((∀ pool, (recovered.stored pool).Perm (firstPersistent.stored pool)) ∧
          count = firstPersistent.receiptCount) ↔
        ∀ receipt ∈ [firstReceipt], ∀ pool,
          ¬ Acceptable receiptPackages hourCollector receipt pool) :=
  loadPersisted_recovers_iff receiptPackages 3600 7200 300 [(someContent, somePool)] ["epoch_1"]
    FileTree.empty rfl [firstReceipt] ingestAll_firstReceipt

/-- One receipt is accepted and written, and the fresh collector loads none: with a serializer and a
deserializer that are inverse to each other. -/
theorem recovery_loses_receipt :
    (∀ r : StorageReceipt, r.signature.length < 2 ^ 64 →
        receiptPackages.deserializeReceipt r.bincode = .ok r) ∧
      ingestAll receiptPackages [firstReceipt] hourPersistent FileTree.empty =
        .ok ([(somePool, firstReceipt)], firstPersistent, firstFile) ∧
      firstPersistent.stored somePool = [firstReceipt] ∧ firstPersistent.receiptCount = 1 ∧
      loadPersisted receiptPackages ["epoch_1"] hourCollector firstFile = .ok (hourCollector, 0) ∧
      hourCollector.stored somePool = [] :=
  ⟨fun _ hlen => StorageReceipt.ofBincode_bincode hlen, ingestAll_firstReceipt, by decide +kernel,
    by decide +kernel, by decide +kernel, by decide +kernel⟩

end Aggregator
end CraftecCore
