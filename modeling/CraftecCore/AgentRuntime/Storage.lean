import CraftecCore.AgentRuntime.HostFns
import CraftecCore.Library.Bytes
import CraftecCore.Library.Hex

/-!
# Storage — what an agent gets back for a content id

A stored blob is kept under the hash of its bytes, and both the content id and the blob travel
through a shared buffer of fixed size.  The content id always fits; a blob comes back up to the
size of the buffer.
-/

namespace CraftecCore
namespace AgentRuntime

open Text

/-! ## The source functions -/

structure MemoryStore where
  data : SortedMap String (List UInt8)

namespace MemoryStore

def new : MemoryStore :=
  { data := SortedMap.empty }

/-- The CID of bytes: their digest in hexadecimal. -/
def cidOf (blake3 : List UInt8 → Bytes 32) (data : List UInt8) : String :=
  Hex.encode (blake3 data).bytes

def put (blake3 : List UInt8 → Bytes 32) (data : List UInt8) (s : MemoryStore) :
    Except String String × MemoryStore :=
  (.ok (cidOf blake3 data), { data := s.data.insert (cidOf blake3 data) data })

def get (cid : String) (s : MemoryStore) : Except String (List UInt8) × MemoryStore :=
  match s.data.get? cid with
  | none => (.error ("not found: " ++ cid), s)
  | some bytes => (.ok bytes, s)

def packages {Db : Type} (blake3 : List UInt8 → Bytes 32)
    (execute queryCount : String → Db → Except String ℕ × Db) : HostPackages Db MemoryStore :=
  { execute := execute
    queryCount := queryCount
    blake3Hex := cidOf blake3
    put := put blake3
    get := get }

end MemoryStore

section Host

variable {Db St : Type}

def sharedBufferSize : ℕ := 64 * 1024

def HostState.new (db : Db) (permissions : PermissionSet) : HostState Db St :=
  { db := db
    permissions := permissions
    config := SortedMap.empty
    logs := []
    events := []
    sharedBuffer := List.replicate sharedBufferSize 0
    store := none }

def HostState.withStore (s : HostState Db St) (store : St) : HostState Db St :=
  { s with store := some store }

structure PutCall where
  memory : LinearMemory
  dataPtr : Int32
  dataLen : Int32

def PutCall.run (x : HostPackages Db St) (call : PutCall) (s : HostState Db St) :
    Outcome (Int32 × HostState Db St) :=
  storagePut x (some call.memory) call.dataPtr call.dataLen s

def putAll (x : HostPackages Db St) : List PutCall → HostState Db St → Outcome (HostState Db St)
  | [], s => pure s
  | call :: calls, s => do
      let (_, s) ← call.run x s
      putAll x calls s

end Host

/-! ## One call -/

/-- The blob of a call; nothing if its range cannot be read. -/
def PutCall.blob? (call : PutCall) : Option (List UInt8) :=
  match guestSlice call.memory call.dataPtr call.dataLen with
  | .ok bytes => some bytes
  | .panic _ => none

def blobs (calls : List PutCall) : List (List UInt8) :=
  calls.filterMap PutCall.blob?

/-- The front of a memory is sliced. -/
theorem guestSlice_front {data : LinearMemory} {bytes rest : List UInt8} {len : Int32}
    (hdata : data.bytes = bytes ++ rest) (hlen : len.toInt = bytes.length) :
    guestSlice data 0 len = .ok bytes := by
  have hadd : Int32.checkedAdd 0 len = .ok len := by
    rw [Int32.checkedAdd_eq_ok]
    simp
  have hstop : len.asUsize = bytes.length := by
    have hcast := Int32.toInt_asUsize (a := len) (by omega)
    omega
  have hstart : Int32.asUsize 0 = 0 := by decide
  rw [guestSlice, hadd, Outcome.ok_bind, hstart, hstop, hdata,
    List.slice_eq_ok _ (Nat.zero_le _) (by simp)]
  simp

def pageOf (bytes : List UInt8) (h : bytes.length ≤ 65536) : LinearMemory :=
  { bytes := bytes ++ List.replicate (65536 - bytes.length) 0
    length_le := by
      rw [List.length_append, List.length_replicate]
      omega }

section Storage

variable {Db : Type} {blake3 : List UInt8 → Bytes 32}
  {execute queryCount : String → Db → Except String ℕ × Db}

/-- The host of an agent that may read and write storage, after storing `stored`. -/
structure Stores (blake3 : List UInt8 → Bytes 32) (s : HostState Db MemoryStore)
    (stored : List (List UInt8)) : Prop where
  mayRead : s.permissions.has .storageRead = true
  mayWrite : s.permissions.has .storageWrite = true
  sharedBuffer : s.sharedBuffer.length = sharedBufferSize
  /-- Under a CID is the last blob with it. -/
  store : ∃ m, s.store = some m ∧ ∀ cid, m.data.get? cid =
    (stored.filter fun d => MemoryStore.cidOf blake3 d = cid).getLast?

theorem length_utf8_cidOf (d : List UInt8) :
    (utf8 (MemoryStore.cidOf blake3 d)).length = 64 := by
  rw [MemoryStore.cidOf, Hex.length_utf8_encode, Bytes.length_bytes]

theorem denied_eq_false_of_has {St : Type} {s : HostState Db St} {cap : Capability}
    (h : s.permissions.has cap = true) : denied s (some cap) = false :=
  denied_eq_false.2 fun _ hcap => Option.some.inj hcap ▸ h

theorem length_copyToShared {St : Type} (s : HostState Db St) (bytes : List UInt8) :
    (copyToShared s bytes).2.sharedBuffer.length = s.sharedBuffer.length := by
  simp only [copyToShared, List.length_append, List.length_take, List.length_drop]
  omega

/-- The copied bytes stand at the front of the buffer. -/
theorem take_copyToShared {St : Type} (s : HostState Db St) (bytes : List UInt8) :
    (copyToShared s bytes).2.sharedBuffer.take (min bytes.length s.sharedBuffer.length) =
      bytes.take (min bytes.length s.sharedBuffer.length) := by
  have hlen : (bytes.take (min bytes.length s.sharedBuffer.length)).length =
      min bytes.length s.sharedBuffer.length := by
    rw [List.length_take]
    omega
  simp only [copyToShared]
  rw [List.take_append_of_le_length (Nat.le_of_eq hlen.symm), List.take_take, Nat.min_self]

theorem withGuestBytes_eq {St : Type} {capability : Option Capability} {data : LinearMemory}
    {ptr len : Int32} {s : HostState Db St} {bytes : List UInt8}
    (hallowed : denied s capability = false) (hslice : guestSlice data ptr len = .ok bytes)
    (k : List UInt8 → Int32 × HostState Db St) :
    withGuestBytes capability (some data) ptr len s k = .ok (k bytes) := by
  simp [withGuestBytes, hallowed, hslice]

variable (execute queryCount) in
/-- A call to `storage_put` leaves the CID at the front of the buffer, and the blob in the store. -/
theorem Stores.put {s : HostState Db MemoryStore} {stored : List (List UInt8)}
    (h : Stores blake3 s stored) {call : PutCall} {d : List UInt8}
    (hslice : guestSlice call.memory call.dataPtr call.dataLen = .ok d) :
    ∃ s', call.run (MemoryStore.packages blake3 execute queryCount) s = .ok (64, s') ∧
      s'.sharedBuffer.take 64 = utf8 (MemoryStore.cidOf blake3 d) ∧
      Stores blake3 s' (stored ++ [d]) := by
  rcases h.store with ⟨m, hm, hget⟩
  let t : HostState Db MemoryStore :=
    { s with store := some { data := m.data.insert (MemoryStore.cidOf blake3 d) d } }
  have hcid : (utf8 (MemoryStore.cidOf blake3 d)).length = 64 := length_utf8_cidOf d
  have hmin : min (utf8 (MemoryStore.cidOf blake3 d)).length t.sharedBuffer.length = 64 := by
    rw [hcid, show t.sharedBuffer.length = sharedBufferSize from h.sharedBuffer]
    rfl
  have hrun : call.run (MemoryStore.packages blake3 execute queryCount) s =
      .ok (64, (copyToShared t (utf8 (MemoryStore.cidOf blake3 d))).2) := by
    rw [PutCall.run, storagePut, withGuestBytes_eq (denied_eq_false_of_has h.mayWrite) hslice, hm]
    simp only [MemoryStore.packages, MemoryStore.put, toList_toUTF8]
    exact congrArg (fun n => Outcome.ok (Int32.ofNat n, _)) hmin
  refine ⟨_, hrun, ?_, ?_⟩
  · have hfront := take_copyToShared t (utf8 (MemoryStore.cidOf blake3 d))
    rw [hmin] at hfront
    rw [hfront, List.take_of_length_le (Nat.le_of_eq hcid)]
  · exact
      { mayRead := h.mayRead
        mayWrite := h.mayWrite
        sharedBuffer := (length_copyToShared t _).trans h.sharedBuffer
        store := by
          refine ⟨_, rfl, ?_⟩
          intro cid
          rw [SortedMap.get?_insert, hget, List.filter_append]
          by_cases heq : cid = MemoryStore.cidOf blake3 d
          · simp [heq]
          · simp [heq, Ne.symm heq] }

/-- A call that returned had a range that can be read. -/
theorem Stores.run_eq_ok {s : HostState Db MemoryStore} {stored : List (List UInt8)}
    (h : Stores blake3 s stored) {call : PutCall} {result : Int32 × HostState Db MemoryStore}
    (hrun : call.run (MemoryStore.packages blake3 execute queryCount) s = .ok result) :
    ∃ d, call.blob? = some d ∧
      guestSlice call.memory call.dataPtr call.dataLen = .ok d := by
  have hallowed := denied_eq_false_of_has h.mayWrite
  cases hslice : guestSlice call.memory call.dataPtr call.dataLen with
  | panic why => simp [PutCall.run, storagePut, withGuestBytes, hallowed, hslice] at hrun
  | ok d => exact ⟨d, by simp [PutCall.blob?, hslice], rfl⟩

/-- Calls that return stored their blobs. -/
theorem Stores.putAll {calls : List PutCall} : ∀ {s s' : HostState Db MemoryStore}
    {stored : List (List UInt8)}, Stores blake3 s stored →
      putAll (MemoryStore.packages blake3 execute queryCount) calls s = .ok s' →
        Stores blake3 s' (stored ++ blobs calls) := by
  induction calls with
  | nil =>
      intro s s' stored h hrun
      rw [AgentRuntime.putAll, Outcome.pure_eq, Outcome.ok.injEq] at hrun
      simpa [blobs, ← hrun] using h
  | cons call calls ih =>
      intro s s' stored h hrun
      rw [AgentRuntime.putAll, Outcome.bind_eq_ok] at hrun
      rcases hrun with ⟨⟨n, s₁⟩, hcall, hrest⟩
      rcases h.run_eq_ok hcall with ⟨d, hblob, hslice⟩
      rcases h.put execute queryCount hslice with ⟨s₂, hput, -, h₂⟩
      have heq : s₂ = s₁ := by
        rw [hput, Outcome.ok.injEq, Prod.mk.injEq] at hcall
        exact hcall.2
      have htail := ih (heq ▸ h₂) hrest
      simpa [blobs, hblob] using htail

/-- Under the CID of a stored blob is a stored blob with its hash. -/
theorem Stores.find {s : HostState Db MemoryStore} {stored : List (List UInt8)}
    (h : Stores blake3 s stored) {d : List UInt8} (hd : d ∈ stored) :
    ∃ m e, s.store = some m ∧ m.data.get? (MemoryStore.cidOf blake3 d) = some e ∧ e ∈ stored ∧
      blake3 e = blake3 d := by
  rcases h.store with ⟨m, hm, hget⟩
  have hmem : d ∈ stored.filter fun e =>
      MemoryStore.cidOf blake3 e = MemoryStore.cidOf blake3 d := by
    simp [hd]
  rcases Option.isSome_iff_exists.1 (List.getLast?_isSome.2 (List.ne_nil_of_mem hmem)) with
    ⟨e, hlast⟩
  rcases List.mem_filter.1 (List.mem_of_getLast? hlast) with ⟨hstored, hcid⟩
  refine ⟨m, e, hm, (hget _).trans hlast, hstored, ?_⟩
  -- equal CIDs are equal digests
  have hhex : Hex.encode (blake3 e).bytes = Hex.encode (blake3 d).bytes :=
    of_decide_eq_true hcid
  exact Bytes.bytes_injective (Hex.encode_injective hhex)

variable (execute queryCount) in
/-- A call to `storage_get` with the CID of a stored blob returns the blob, cut to the buffer,
unless another stored blob has its hash. -/
theorem Stores.get {s : HostState Db MemoryStore} {stored : List (List UInt8)}
    (h : Stores blake3 s stored) {d : List UInt8} (hd : d ∈ stored) {cidMemory : LinearMemory}
    {cidPtr cidLen : Int32}
    (hslice : guestSlice cidMemory cidPtr cidLen = .ok (utf8 (MemoryStore.cidOf blake3 d))) :
    (∃ s', storageGet (MemoryStore.packages blake3 execute queryCount) (some cidMemory) cidPtr
        cidLen s = .ok (Int32.ofNat (min d.length sharedBufferSize), s') ∧
      s'.sharedBuffer.take (min d.length sharedBufferSize) =
        d.take (min d.length sharedBufferSize) ∧ Stores blake3 s' stored) ∨
    ∃ e ∈ stored, e ≠ d ∧ blake3 e = blake3 d := by
  rcases h.find hd with ⟨m, e, hm, hfound, hstored, hhash⟩
  by_cases heq : e = d
  · left
    subst heq
    have hrun : storageGet (MemoryStore.packages blake3 execute queryCount) (some cidMemory) cidPtr
        cidLen s = .ok (Int32.ofNat (min e.length s.sharedBuffer.length),
          (copyToShared { s with store := some m } e).2) := by
      rw [storageGet, withGuestStr, withGuestBytes_eq (denied_eq_false_of_has h.mayRead) hslice]
      simp only [fromUtf8_utf8, hm, MemoryStore.packages, MemoryStore.get, hfound]
      rfl
    have hfront := take_copyToShared { s with store := some m } e
    have hlength := length_copyToShared { s with store := some m } e
    rw [h.sharedBuffer] at hrun
    simp only [h.sharedBuffer] at hfront hlength
    refine ⟨_, hrun, hfront, ?_⟩
    exact
      { mayRead := h.mayRead
        mayWrite := h.mayWrite
        sharedBuffer := hlength
        store := by
          rcases h.store with ⟨m', hm', hget⟩
          have hsame : m' = m := Option.some.inj (hm'.symm.trans hm)
          exact ⟨m, rfl, hsame ▸ hget⟩ }
  · exact Or.inr ⟨e, hstored, heq, hhash⟩

/-! ## Round trips -/

/-- A host with an empty store, for an agent that may read and write storage. -/
theorem Stores.start {db : Db} {permissions : PermissionSet}
    (hread : permissions.has .storageRead = true) (hwrite : permissions.has .storageWrite = true) :
    Stores blake3 ((HostState.new db permissions).withStore MemoryStore.new) [] :=
  { mayRead := hread
    mayWrite := hwrite
    sharedBuffer := List.length_replicate
    store := ⟨MemoryStore.new, rfl, fun _ => rfl⟩ }

theorem putAll_append {St : Type} (x : HostPackages Db St) (later : List PutCall) :
    ∀ (earlier : List PutCall) (s : HostState Db St),
      putAll x (earlier ++ later) s = putAll x earlier s >>= putAll x later
  | [], s => rfl
  | call :: earlier, s => by
      simp only [List.cons_append, putAll, bind_assoc, putAll_append x later earlier]

/-- After any calls to `storage_put`, every blob that they stored comes back from `storage_get` with
the CID that its call left in the buffer, cut to the size of the buffer; so all of it comes back
exactly if it is no longer than the buffer.  Unless two stored blobs collide. -/
theorem storageGet_putAll {db : Db} {permissions : PermissionSet}
    (hread : permissions.has .storageRead = true) (hwrite : permissions.has .storageWrite = true)
    {earlier later : List PutCall} {call : PutCall} {s : HostState Db MemoryStore}
    (hrun : putAll (MemoryStore.packages blake3 execute queryCount) (earlier ++ call :: later)
      ((HostState.new db permissions).withStore MemoryStore.new) = .ok s) :
    ∃ d s₁ s₂, call.blob? = some d ∧
      putAll (MemoryStore.packages blake3 execute queryCount) earlier
        ((HostState.new db permissions).withStore MemoryStore.new) = .ok s₁ ∧
      call.run (MemoryStore.packages blake3 execute queryCount) s₁ = .ok (64, s₂) ∧
      ((∃ e ∈ blobs (earlier ++ call :: later), e ≠ d ∧ blake3 e = blake3 d) ∨
        ∀ cidMemory cidPtr cidLen,
          guestSlice cidMemory cidPtr cidLen = .ok (s₂.sharedBuffer.take 64) →
            ∃ s', storageGet (MemoryStore.packages blake3 execute queryCount) (some cidMemory)
                cidPtr cidLen s = .ok (Int32.ofNat (min d.length sharedBufferSize), s') ∧
              s'.sharedBuffer.take (min d.length sharedBufferSize) =
                d.take (min d.length sharedBufferSize) ∧
              (s'.sharedBuffer.take d.length = d ↔ d.length ≤ sharedBufferSize)) := by
  have hstart : Stores blake3 ((HostState.new db permissions).withStore MemoryStore.new) [] :=
    Stores.start hread hwrite
  have hend := hstart.putAll hrun
  rw [List.nil_append] at hend
  rw [putAll_append, Outcome.bind_eq_ok] at hrun
  rcases hrun with ⟨s₁, hearlier, hrest⟩
  rw [putAll, Outcome.bind_eq_ok] at hrest
  rcases hrest with ⟨⟨n, s₂'⟩, hcall, -⟩
  have hbefore := hstart.putAll hearlier
  rcases hbefore.run_eq_ok hcall with ⟨d, hblob, hslice⟩
  rcases hbefore.put execute queryCount hslice with
    ⟨s₂, hput, hcid, -⟩
  have hd : d ∈ blobs (earlier ++ call :: later) :=
    List.mem_filterMap.2 ⟨call, List.mem_append_right _ List.mem_cons_self, hblob⟩
  refine ⟨d, s₁, s₂, hblob, hearlier, hput, ?_⟩
  by_cases hcollide : ∃ e ∈ blobs (earlier ++ call :: later), e ≠ d ∧ blake3 e = blake3 d
  · exact Or.inl hcollide
  right
  intro cidMemory cidPtr cidLen hcidslice
  rw [hcid] at hcidslice
  rcases (hend.get execute queryCount hd hcidslice).resolve_right
    hcollide with ⟨s', hget, hfront, hafter⟩
  refine ⟨s', hget, hfront, ?_⟩
  constructor
  · intro hall
    -- the buffer holds no more
    have hlen := congrArg List.length hall
    rw [List.length_take, hafter.sharedBuffer] at hlen
    omega
  · intro hle
    rw [Nat.min_eq_left hle] at hfront
    rw [hfront, List.take_length]

end Storage

/-! ## A blob that fits the buffer, and one that does not -/

/-- The digest of "hello world"; other blobs are not hashed here. -/
def helloBlake3 : List UInt8 → Bytes 32 :=
  Bytes.ofTable
    [(utf8 "hello world",
      { bytes :=
          [0xd7, 0x49, 0x81, 0xef, 0xa7, 0x0a, 0x0c, 0x88, 0x0b, 0x8d, 0x8c, 0x19, 0x85, 0xd0,
            0x75, 0xdb, 0xcb, 0xf6, 0x79, 0xb9, 0x9a, 0x5f, 0x99, 0x14, 0xe5, 0xaa, 0xf9, 0x6b,
            0x83, 0x1a, 0x9e, 0x24]
        length_eq := rfl })]

def storageState : HostState Unit MemoryStore :=
  (HostState.new () { capabilities := {.storageRead, .storageWrite} }).withStore MemoryStore.new

def storagePackages : HostPackages Unit MemoryStore :=
  MemoryStore.packages helloBlake3 (fun _ db => (.ok 0, db)) (fun _ db => (.ok 0, db))

def helloPut : PutCall :=
  { memory := pageOf (utf8 "hello world") (by decide)
    dataPtr := 0
    dataLen := 11 }

def helloCid : LinearMemory :=
  pageOf (utf8 (MemoryStore.cidOf helloBlake3 (utf8 "hello world"))) (by
    rw [length_utf8_cidOf]
    decide)

/-- Stored, and read back. -/
theorem storageGet_putAll_hello :
    ∃ s s', putAll storagePackages [helloPut] storageState = .ok s ∧
      storageGet storagePackages (some helloCid) 0 64 s = .ok (11, s') ∧
      s'.sharedBuffer.take 11 = utf8 "hello world" := by
  have hstart : Stores helloBlake3 storageState [] := Stores.start (by decide) (by decide)
  have hslice : guestSlice helloPut.memory helloPut.dataPtr helloPut.dataLen =
      .ok (utf8 "hello world") :=
    guestSlice_front rfl (by decide)
  have hblob : helloPut.blob? = some (utf8 "hello world") := by
    rw [PutCall.blob?, hslice]
  rcases hstart.put (fun _ db => (.ok 0, db)) (fun _ db => (.ok 0, db)) hslice with
    ⟨s, hput, hcid, -⟩
  have hrun : putAll storagePackages ([] ++ helloPut :: []) storageState = .ok s := by
    rw [List.nil_append, putAll, storagePackages, hput]
    rfl
  rcases storageGet_putAll (by decide) (by decide) hrun with
    ⟨d, s₁, s₂, hd, hfirst, hsecond, hcollide | hget⟩
  · rcases hcollide with ⟨e, he, hne, -⟩
    simp [blobs, hblob] at he hd
    exact absurd (he.trans hd) hne
  · rw [putAll, Outcome.pure_eq, Outcome.ok.injEq] at hfirst
    have hsame : s = s₂ := by
      rw [← hfirst] at hsecond
      have hboth := hput.symm.trans hsecond
      rw [Outcome.ok.injEq, Prod.mk.injEq] at hboth
      exact hboth.2
    have hd' : d = utf8 "hello world" := Option.some.inj (hd.symm.trans hblob)
    subst hsame hd'
    rcases hget helloCid 0 64 (by rw [hcid]; exact guestSlice_front rfl (by
      rw [length_utf8_cidOf]; decide)) with ⟨s', hread, hfront, -⟩
    exact ⟨s, s', hrun, hread, hfront⟩

/-! ## A blob that does not fit -/

def longPut : PutCall :=
  { memory :=
      { bytes := List.replicate 131072 0
        length_le := by rw [List.length_replicate]; decide }
    dataPtr := 0
    dataLen := 65537 }

def longBlob : List UInt8 :=
  List.replicate 65537 0

def longCid : LinearMemory :=
  pageOf (utf8 (MemoryStore.cidOf helloBlake3 longBlob)) (by
    rw [length_utf8_cidOf]
    decide)

/-- It is stored under its CID, which is left in the buffer; but `storage_get` with that CID returns
one byte less than its length, and the buffer cannot hold it. -/
theorem storageGet_truncates :
    ∃ s s', longPut.blob? = some longBlob ∧ longBlob.length = 65537 ∧
      longPut.run storagePackages storageState = .ok (64, s) ∧
      guestSlice longCid 0 64 = .ok (s.sharedBuffer.take 64) ∧
      storageGet storagePackages (some longCid) 0 64 s = .ok (65536, s') ∧
      s'.sharedBuffer.take 65537 ≠ longBlob := by
  have hlength : longBlob.length = 65537 := List.length_replicate
  have hmemory : longPut.memory.bytes = longBlob ++ List.replicate 65535 0 :=
    (List.replicate_append_replicate (n := 65537) (m := 65535)).symm
  have hslice : guestSlice longPut.memory longPut.dataPtr longPut.dataLen = .ok longBlob :=
    guestSlice_front hmemory (by rw [hlength]; rfl)
  have hstart : Stores helloBlake3 storageState [] := Stores.start (by decide) (by decide)
  rcases hstart.put (fun _ db => (.ok 0, db)) (fun _ db => (.ok 0, db)) hslice with
    ⟨s, hput, hcid, hstores⟩
  have hcidslice : guestSlice longCid 0 64 =
      .ok (utf8 (MemoryStore.cidOf helloBlake3 longBlob)) :=
    guestSlice_front rfl (by rw [length_utf8_cidOf]; decide)
  have hblob : longPut.blob? = some longBlob := by
    rw [PutCall.blob?, hslice]
  rcases hstores.get (fun _ db => (.ok 0, db)) (fun _ db => (.ok 0, db)) List.mem_cons_self
    hcidslice with ⟨s', hget, -, hafter⟩ | ⟨e, he, hne, -⟩
  · refine ⟨s, s', hblob, hlength, hput, by rw [hcid]; exact hcidslice, ?_, ?_⟩
    · rw [storagePackages, hget, hlength]
      rfl
    · intro hall
      have hlen := congrArg List.length hall
      rw [List.length_take, hafter.sharedBuffer, hlength] at hlen
      exact absurd hlen (by decide)
  · simp at he
    exact absurd he hne

end AgentRuntime
end CraftecCore
