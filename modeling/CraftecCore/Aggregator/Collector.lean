import CraftecCore.Aggregator.Batch
import CraftecCore.Library.FileSystem
import Mathlib.Data.Finset.Insert

/-!
# Collector — which receipts are accepted

A receipt is accepted if it passes the checks on its own (`Acceptable`) and its dedup hash was not
seen.  `ingest_accept`, `ingest_reject` and `ingest_panic` say what `ingest` does in every case;
everything else about the collector is derived from them.  Runs over many receipts are described by
the list of what they accepted.  The disk is any `FileSystem`; what it answers never reaches the
collector's memory.
-/

namespace CraftecCore
namespace Aggregator

open Settlement FileSystem

/-! ## The source functions -/

structure ReceiptCollector where
  /-- Receipts grouped by pool pubkey. -/
  poolReceipts : SortedMap (Bytes 32) (List StorageReceipt)
  /-- Dedup hashes of the receipts accepted so far. -/
  seen : Finset (Bytes 32)
  epochStart : UInt64
  epochEnd : UInt64
  graceSecs : UInt64
  /-- Pool of each registered content id. -/
  cidToPool : SortedMap (Bytes 32) (Bytes 32)
  persistDir : Option Path
  deriving DecidableEq

namespace ReceiptCollector

def new (epochStart epochEnd graceSecs : UInt64) : ReceiptCollector :=
  { poolReceipts := SortedMap.empty
    seen := ∅
    epochStart := epochStart
    epochEnd := epochEnd
    graceSecs := graceSecs
    cidToPool := SortedMap.empty
    persistDir := none }

/-- `set_persist_dir`, and `with_persistence` on an owned collector. -/
def setPersistDir (c : ReceiptCollector) (dir : Path) : ReceiptCollector :=
  { c with persistDir := some dir }

def registerPool (c : ReceiptCollector) (contentId poolPubkey : Bytes 32) : ReceiptCollector :=
  { c with cidToPool := c.cidToPool.insert contentId poolPubkey }

/-- Number of receipts collected.  The vectors are in memory together, so the sum fits. -/
def receiptCount (c : ReceiptCollector) : ℕ :=
  (c.poolReceipts.values.map List.length).sum

/-- All pools that have receipts; the source lists them in the order of its hash map. -/
def pools (c : ReceiptCollector) : List (Bytes 32) :=
  c.poolReceipts.keys

def takeReceipts (c : ReceiptCollector) (pool : Bytes 32) :
    List StorageReceipt × ReceiptCollector :=
  ((c.poolReceipts.get? pool).getD [], { c with poolReceipts := c.poolReceipts.erase pool })

def reset (c : ReceiptCollector) (epochStart epochEnd : UInt64) : ReceiptCollector :=
  { c with
    poolReceipts := SortedMap.empty
    seen := ∅
    epochStart := epochStart
    epochEnd := epochEnd }

end ReceiptCollector

def verifyReceiptSignature (x : Packages) (receipt : StorageReceipt) :
    Except AggregatorError Unit :=
  if x.verifyingKey receipt.challenger = false then
    .error .invalidSignature
  else if receipt.signature.length ≠ 64 then
    .error .invalidSignature
  else
    match Bytes.ofList? 64 receipt.signature with
    | none => .error .invalidSignature
    | some signature =>
        -- `verify_strict` on the bytes that the challenger signed
        if x.verifyStrict receipt.challenger receipt.signableBytes signature then
          .ok ()
        else
          .error .invalidSignature

def poolFileName (x : Packages) (pool : Bytes 32) : String :=
  "pool_" ++ x.hexEncode pool.bytes ++ ".receipts.log"

section Disk

variable {D : Type} [FileSystem D]

/-- Append a receipt to the file of its pool, as one length-prefixed record. -/
def persistReceipt (x : Packages) (dir : Path) (pool : Bytes 32) (receipt : StorageReceipt)
    (disk : D) : Except AggregatorError Unit × D :=
  match FileSystem.createDirAll dir disk with
  | (.error msg, disk) => (.error (.serialization msg), disk)
  | (.ok (), disk) =>
      let path := dir ++ [poolFileName x pool]
      match x.serializeReceipt receipt with
      | .error msg => (.error (.serialization msg), disk)
      | .ok data =>
          match FileSystem.openAppend path disk with
          | (.error msg, disk) => (.error (.serialization msg), disk)
          | (.ok (), disk) =>
              match FileSystem.writeAll path (UInt32.ofNat data.length).leBytes disk with
              | (.error msg, disk) => (.error (.serialization msg), disk)
              | (.ok (), disk) =>
                  match FileSystem.writeAll path data disk with
                  | (.error msg, disk) => (.error (.serialization msg), disk)
                  | (.ok (), disk) => (.ok (), disk)

/-- The persistence step of `ingest`: an error is logged, and the receipt accepted anyway. -/
def persistAccepted (x : Packages) (dir : Option Path) (pool : Bytes 32) (receipt : StorageReceipt)
    (disk : D) : D :=
  match dir with
  | none => disk
  | some dir => (persistReceipt x dir pool receipt disk).2

def ingest (x : Packages) (receipt : StorageReceipt) (c : ReceiptCollector) (disk : D) :
    Outcome (Except AggregatorError Unit × ReceiptCollector × D) := do
  let deadline ← c.epochEnd.checkedAdd c.graceSecs
  if receipt.timestamp < c.epochStart ∨ deadline ≤ receipt.timestamp then
    pure (.error (.timestampOutOfRange receipt.timestamp c.epochStart deadline), c, disk)
  else if receipt.storageNode = Bytes.zero 32 ∨ receipt.contentId = Bytes.zero 32 then
    pure (.error .invalidSignature, c, disk)
  else if receipt.dedupHash x.sha256 ∈ c.seen then
    pure (.error (.duplicateReceipt (x.hexEncode (receipt.dedupHash x.sha256).bytes)), c, disk)
  else
    match verifyReceiptSignature x receipt with
    | .error err => pure (.error err, c, disk)
    | .ok () =>
        match c.cidToPool.get? receipt.contentId with
        | none => pure (.error .unknownPool, c, disk)
        | some pool => do
            -- a failed write is logged; the receipt is kept in memory all the same
            let disk := persistAccepted x c.persistDir pool receipt disk
            let receipts ← vecPush ((c.poolReceipts.get? pool).getD []) receipt
            pure
              (.ok (),
                { c with
                  seen := insert (receipt.dedupHash x.sha256) c.seen
                  poolReceipts := c.poolReceipts.insert pool receipts },
                disk)

def processReceiptMessage (x : Packages) (data : List UInt8) (c : ReceiptCollector) (disk : D) :
    Outcome (Except AggregatorError Unit × ReceiptCollector × D) :=
  match x.deserializeReceipt data with
  | .error msg => pure (.error (.serialization msg), c, disk)
  | .ok receipt => ingest x receipt c disk

/-- The receiving loop of `drain_channel`, with the count so far. -/
def drainLoop (x : Packages) : List (List UInt8) → ℕ → ReceiptCollector → D →
    Outcome (ℕ × ReceiptCollector × D)
  | [], count, c, disk => pure (count, c, disk)
  | data :: queue, count, c, disk => do
      match ← processReceiptMessage x data c disk with
      | (.ok (), c, disk) => drainLoop x queue (count + 1) c disk
      | (.error _, c, disk) => drainLoop x queue count c disk

def drainChannel (x : Packages) (queue : List (List UInt8)) (c : ReceiptCollector) (disk : D) :
    Outcome (ℕ × ReceiptCollector × D) :=
  drainLoop x queue 0 c disk

end Disk

/-! ## What ingesting one receipt does -/

def ReceiptCollector.stored (c : ReceiptCollector) (pool : Bytes 32) : List StorageReceipt :=
  (c.poolReceipts.get? pool).getD []

def ReceiptCollector.accept (c : ReceiptCollector) (hash pool : Bytes 32)
    (receipt : StorageReceipt) : ReceiptCollector :=
  { c with
    seen := insert hash c.seen
    poolReceipts := c.poolReceipts.insert pool (c.stored pool ++ [receipt]) }

/-- The checks of `ingest` on a receipt, the one for duplicates apart. -/
structure Acceptable (x : Packages) (c : ReceiptCollector) (receipt : StorageReceipt)
    (pool : Bytes 32) : Prop where
  notEarly : c.epochStart.toNat ≤ receipt.timestamp.toNat
  notLate : receipt.timestamp.toNat < c.epochEnd.toNat + c.graceSecs.toNat
  storageNode : receipt.storageNode ≠ Bytes.zero 32
  contentId : receipt.contentId ≠ Bytes.zero 32
  signature : verifyReceiptSignature x receipt = .ok ()
  pool : c.cidToPool.get? receipt.contentId = some pool

/-- The end of the grace period can be computed. -/
def ReceiptCollector.DeadlineFits (c : ReceiptCollector) : Prop :=
  c.epochEnd.toNat + c.graceSecs.toNat < 2 ^ 64

section Ingest

variable {D : Type} [FileSystem D] {x : Packages} {c : ReceiptCollector} {receipt : StorageReceipt}
  {pool : Bytes 32}

/-- Without a deadline nothing is ingested. -/
theorem ingest_panic (disk : D) (h : ¬ c.DeadlineFits) :
    ingest x receipt c disk = .panic .overflow := by
  have hle : 2 ^ 64 ≤ c.epochEnd.toNat + c.graceSecs.toNat := Nat.le_of_not_lt h
  rw [ingest, UInt64.checkedAdd_eq_panic.2 hle]
  rfl

/-- The window test of the source, on numbers. -/
theorem window_iff {deadline : UInt64}
    (hdeadline : c.epochEnd.toNat + c.graceSecs.toNat = deadline.toNat) :
    (receipt.timestamp < c.epochStart ∨ deadline ≤ receipt.timestamp) ↔
      ¬ (c.epochStart.toNat ≤ receipt.timestamp.toNat ∧
        receipt.timestamp.toNat < c.epochEnd.toNat + c.graceSecs.toNat) := by
  rw [UInt64.lt_iff_toNat_lt, UInt64.le_iff_toNat_le, hdeadline]
  omega

/-- An acceptable receipt with a new hash is persisted and stored. -/
theorem ingest_accept (disk : D) (hfit : c.DeadlineFits) (hacc : Acceptable x c receipt pool)
    (hnew : receipt.dedupHash x.sha256 ∉ c.seen) :
    ingest x receipt c disk =
      if (c.stored pool).length < isizeMax then
        .ok (.ok (), c.accept (receipt.dedupHash x.sha256) pool receipt,
          persistAccepted x c.persistDir pool receipt disk)
      else
        .panic .capacityOverflow := by
  rcases UInt64.exists_toNat_eq hfit with ⟨deadline, hdeadline⟩
  have hadd : c.epochEnd.checkedAdd c.graceSecs = .ok deadline :=
    UInt64.checkedAdd_eq_ok.2 hdeadline.symm
  have hwindow : ¬ (receipt.timestamp < c.epochStart ∨ deadline ≤ receipt.timestamp) := by
    rw [window_iff hdeadline.symm, not_not]
    exact ⟨hacc.notEarly, hacc.notLate⟩
  have hzero : ¬ (receipt.storageNode = Bytes.zero 32 ∨ receipt.contentId = Bytes.zero 32) :=
    not_or.2 ⟨hacc.storageNode, hacc.contentId⟩
  have hpush : vecPush ((c.poolReceipts.get? pool).getD []) receipt =
      if (c.stored pool).length < isizeMax then .ok (c.stored pool ++ [receipt])
      else .panic .capacityOverflow := rfl
  simp only [ingest, hadd, Outcome.ok_bind, if_neg hwindow, if_neg hzero, if_neg hnew,
    hacc.signature, hacc.pool, hpush]
  -- all checks passed; what is left is the push
  by_cases hcap : (c.stored pool).length < isizeMax
  · simp only [if_pos hcap]
    rfl
  · simp only [if_neg hcap]
    rfl

/-- A receipt is to be accepted or to be rejected. -/
theorem accepted_or_rejected (x : Packages) (c : ReceiptCollector) (receipt : StorageReceipt) :
    (receipt.dedupHash x.sha256 ∉ c.seen ∧ ∃ pool, Acceptable x c receipt pool) ∨
      (receipt.dedupHash x.sha256 ∈ c.seen ∨ ∀ pool, ¬ Acceptable x c receipt pool) := by
  by_cases hok : receipt.dedupHash x.sha256 ∉ c.seen ∧ ∃ pool, Acceptable x c receipt pool
  · exact Or.inl hok
  · rw [not_and_or, not_not, not_exists] at hok
    exact Or.inr hok

theorem verifyReceiptSignature_eq_error {err : AggregatorError}
    (h : verifyReceiptSignature x receipt = .error err) : err = .invalidSignature := by
  simp only [verifyReceiptSignature] at h
  split at h
  · exact (Except.error.inj h).symm
  split at h
  · exact (Except.error.inj h).symm
  split at h
  · exact (Except.error.inj h).symm
  split at h
  · cases h
  · exact (Except.error.inj h).symm

/-- The checks in the order of the source: each one that fails returns its error, and a receipt that
passes all before the last one only needs a pool. -/
theorem ingest_checks (x : Packages) (receipt : StorageReceipt) (disk : D)
    (hfit : c.DeadlineFits) :
    (∃ err, err ≠ .unknownPool ∧ ingest x receipt c disk = .ok (.error err, c, disk)) ∨
      (receipt.dedupHash x.sha256 ∉ c.seen ∧
        (∀ cidToPool pool, cidToPool.get? receipt.contentId = some pool →
          Acceptable x { c with cidToPool := cidToPool } receipt pool) ∧
        (c.cidToPool.get? receipt.contentId = none →
          ingest x receipt c disk = .ok (.error .unknownPool, c, disk))) := by
  rcases UInt64.exists_toNat_eq hfit with ⟨deadline, hdeadline⟩
  have hadd : c.epochEnd.checkedAdd c.graceSecs = .ok deadline :=
    UInt64.checkedAdd_eq_ok.2 hdeadline.symm
  simp only [ingest, hadd, Outcome.ok_bind]
  split
  · exact Or.inl ⟨_, by simp, rfl⟩
  rename_i hwindow
  split
  · exact Or.inl ⟨_, by simp, rfl⟩
  rename_i hzero
  split
  · exact Or.inl ⟨_, by simp, rfl⟩
  rename_i hnew
  split
  · rename_i err herr
    exact Or.inl ⟨err, by simp [verifyReceiptSignature_eq_error herr], rfl⟩
  rename_i hsignature
  refine Or.inr ⟨hnew, ?_, ?_⟩
  · intro cidToPool pool hpool
    rw [window_iff hdeadline.symm, not_not] at hwindow
    exact
      { notEarly := hwindow.1
        notLate := hwindow.2
        storageNode := fun heq => hzero (Or.inl heq)
        contentId := fun heq => hzero (Or.inr heq)
        signature := hsignature
        pool := hpool }
  · intro hnone
    simp only [hnone]
    rfl

/-- Any other receipt is rejected and leaves no trace. -/
theorem ingest_reject (disk : D) (hfit : c.DeadlineFits)
    (h : receipt.dedupHash x.sha256 ∈ c.seen ∨ ∀ pool, ¬ Acceptable x c receipt pool) :
    ∃ err, ingest x receipt c disk = .ok (.error err, c, disk) := by
  rcases ingest_checks x receipt disk hfit with ⟨err, -, herr⟩ | ⟨hnew, hpassed, hnone⟩
  · exact ⟨err, herr⟩
  cases hpool : c.cidToPool.get? receipt.contentId with
  | none => exact ⟨.unknownPool, hnone hpool⟩
  | some pool =>
      have hacc : Acceptable x c receipt pool := hpassed c.cidToPool pool hpool
      rcases h with hseen | hbad
      · exact absurd hseen hnew
      · exact absurd hacc (hbad pool)

/-- Inversion: a returning call accepted the receipt, or changed nothing. -/
theorem ingest_cases {disk disk' : D} {c' : ReceiptCollector} {result : Except AggregatorError Unit}
    (h : ingest x receipt c disk = .ok (result, c', disk')) :
    c.DeadlineFits ∧
      ((∃ pool, Acceptable x c receipt pool ∧ receipt.dedupHash x.sha256 ∉ c.seen ∧
          (c.stored pool).length < isizeMax ∧ result = .ok () ∧
          c' = c.accept (receipt.dedupHash x.sha256) pool receipt ∧
          disk' = persistAccepted x c.persistDir pool receipt disk) ∨
        ((receipt.dedupHash x.sha256 ∈ c.seen ∨ ∀ pool, ¬ Acceptable x c receipt pool) ∧
          (∃ err, result = .error err) ∧ c' = c ∧ disk' = disk)) := by
  by_cases hfit : c.DeadlineFits
  · refine ⟨hfit, ?_⟩
    rcases accepted_or_rejected x c receipt with ⟨hnew, pool, hacc⟩ | hbad
    · rw [ingest_accept disk hfit hacc hnew] at h
      split at h
      · rename_i hcap
        simp only [Outcome.ok.injEq, Prod.mk.injEq] at h
        rcases h with ⟨rfl, rfl, rfl⟩
        exact Or.inl ⟨pool, hacc, hnew, hcap, rfl, rfl, rfl⟩
      · simp at h
    · rcases ingest_reject disk hfit hbad with ⟨err, herr⟩
      rw [herr] at h
      simp only [Outcome.ok.injEq, Prod.mk.injEq] at h
      rcases h with ⟨rfl, rfl, rfl⟩
      exact Or.inr ⟨hbad, ⟨err, rfl⟩, rfl, rfl⟩
  · rw [ingest_panic disk hfit] at h
    simp at h

/-- A collector for the epoch from 3600 to 7200, with one content id registered. -/
def hourCollector : ReceiptCollector :=
  (ReceiptCollector.new 3600 7200 300).registerPool someContent somePool

def hourFirst : ReceiptCollector :=
  hourCollector.accept (firstReceipt.dedupHash receiptDigest) somePool firstReceipt

theorem ingest_firstReceipt :
    ingest receiptPackages firstReceipt hourCollector FileTree.empty =
      .ok (.ok (), hourFirst, FileTree.empty) := by
  decide +kernel

end Ingest

end Aggregator
end CraftecCore
