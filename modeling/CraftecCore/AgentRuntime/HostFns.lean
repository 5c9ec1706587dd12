import CraftecCore.Library.Outcome
import CraftecCore.Library.SortedMap
import CraftecCore.Library.Text
import Mathlib.Data.Finset.Insert
import Mathlib.Data.String.Basic

/-!
# HostFns — what a guest agent can make its host do

A guest passes pointers and lengths as signed 32-bit numbers into its linear memory, and the host
slices the memory there.  `guestSlice_eq_ok` and `guestSlice_panic` say which ranges can be sliced;
every host function comes down to them.  SQLite, BLAKE3 and the content store are arbitrary
functions, and no lock is poisoned.
-/

namespace CraftecCore
namespace AgentRuntime

open Text

/-! ## The source functions -/

inductive Capability
  | readOwnDb
  | writeOwnDb
  | storageRead
  | storageWrite
  | networkSend
  | dhtAccess
  | spawnAgent
  deriving DecidableEq, Repr

structure PermissionSet where
  capabilities : Finset Capability

inductive PermissionError
  | denied (cap : Capability)
  deriving DecidableEq, Repr

def PermissionSet.has (p : PermissionSet) (cap : Capability) : Bool :=
  cap ∈ p.capabilities

def PermissionSet.check (p : PermissionSet) (cap : Capability) : Except PermissionError Unit :=
  if p.has cap then .ok () else .error (.denied cap)

structure LogEntry where
  level : String
  message : String
  deriving DecidableEq

structure Event where
  eventType : String
  payload : String
  deriving DecidableEq

structure HostState (Db St : Type) where
  db : Db
  permissions : PermissionSet
  config : SortedMap String String
  logs : List LogEntry
  events : List Event
  /-- Buffer for passing data between host and guest. -/
  sharedBuffer : List UInt8
  /-- Content-addressed store, if one is configured. -/
  store : Option St

structure HostPackages (Db St : Type) where
  /-- `Connection::execute`: the number of rows affected. -/
  execute : String → Db → Except String ℕ × Db
  /-- `prepare` and `query_map`: the number of rows. -/
  queryCount : String → Db → Except String ℕ × Db
  /-- The digest of the BLAKE3 package in hexadecimal. -/
  blake3Hex : List UInt8 → String
  put : List UInt8 → St → Except String String × St
  get : String → St → Except String (List UInt8) × St

/-- The linear memory of a guest: at most 65536 pages. -/
structure LinearMemory where
  bytes : List UInt8
  length_le : bytes.length ≤ 65536 * 65536

/-- `&data[ptr as usize..(ptr + len) as usize]`. -/
def guestSlice (data : LinearMemory) (ptr len : Int32) : Outcome (List UInt8) := do
  let stop ← ptr.checkedAdd len
  data.bytes.slice ptr.asUsize stop.asUsize

/-- Copy into the shared buffer as much as fits; the number of bytes copied. -/
def copyToShared {Db St : Type} (s : HostState Db St) (bytes : List UInt8) :
    ℕ × HostState Db St :=
  let len := min bytes.length s.sharedBuffer.length
  (len, { s with sharedBuffer := bytes.take len ++ s.sharedBuffer.drop len })

section HostFns

variable {Db St : Type}

/-- Two texts of the guest are read and recorded; text that is not UTF-8 gets the default. -/
def recordPair (defaults : String × String) (memory : Option LinearMemory)
    (ptr₁ len₁ ptr₂ len₂ : Int32) (s : HostState Db St)
    (record : String → String → HostState Db St) : Outcome (HostState Db St) :=
  match memory with
  | none => pure s
  | some data => do
      let first ← guestSlice data ptr₁ len₁
      let second ← guestSlice data ptr₂ len₂
      pure (record ((fromUtf8 first).getD defaults.1) ((fromUtf8 second).getD defaults.2))

def log (memory : Option LinearMemory) (levelPtr levelLen msgPtr msgLen : Int32)
    (s : HostState Db St) : Outcome (HostState Db St) :=
  recordPair ("unknown", "") memory levelPtr levelLen msgPtr msgLen s fun level message =>
    { s with logs := s.logs ++ [{ level := level, message := message }] }

def emitEvent (memory : Option LinearMemory) (typePtr typeLen payloadPtr payloadLen : Int32)
    (s : HostState Db St) : Outcome (HostState Db St) :=
  recordPair ("", "") memory typePtr typeLen payloadPtr payloadLen s fun eventType payload =>
    { s with events := s.events ++ [{ eventType := eventType, payload := payload }] }

/-- The permission check that a host function starts with, if it has one. -/
def denied (s : HostState Db St) : Option Capability → Bool
  | none => false
  | some cap =>
      match s.permissions.check cap with
      | .ok () => false
      | .error _ => true

/-- Check a capability, read bytes of the guest and go on with them; `-1` where that fails. -/
def withGuestBytes (capability : Option Capability) (memory : Option LinearMemory)
    (ptr len : Int32) (s : HostState Db St) (k : List UInt8 → Int32 × HostState Db St) :
    Outcome (Int32 × HostState Db St) :=
  if denied s capability then
    pure (-1, s)
  else
    match memory with
    | none => pure (-1, s)
    | some data => do
        let bytes ← guestSlice data ptr len
        pure (k bytes)

/-- The same for text; `-1` where the bytes are not UTF-8. -/
def withGuestStr (capability : Option Capability) (memory : Option LinearMemory)
    (ptr len : Int32) (s : HostState Db St) (k : String → Int32 × HostState Db St) :
    Outcome (Int32 × HostState Db St) :=
  withGuestBytes capability memory ptr len s fun bytes =>
    match fromUtf8 bytes with
    | none => (-1, s)
    | some text => k text

variable (x : HostPackages Db St)

/-- `db_execute(sql_ptr, sql_len)`: rows affected, or `-1` on error. -/
def dbExecute (memory : Option LinearMemory) (sqlPtr sqlLen : Int32) (s : HostState Db St) :
    Outcome (Int32 × HostState Db St) :=
  withGuestStr (some .writeOwnDb) memory sqlPtr sqlLen s fun sql =>
    match x.execute sql s.db with
    | (.ok n, db) => (Int32.ofNat n, { s with db := db })
    | (.error _, db) => (-1, { s with db := db })

/-- `db_query(sql_ptr, sql_len)`: number of rows, or `-1` on error. -/
def dbQuery (memory : Option LinearMemory) (sqlPtr sqlLen : Int32) (s : HostState Db St) :
    Outcome (Int32 × HostState Db St) :=
  withGuestStr (some .readOwnDb) memory sqlPtr sqlLen s fun sql =>
    match x.queryCount sql s.db with
    | (.ok n, db) => (Int32.ofNat n, { s with db := db })
    | (.error _, db) => (-1, { s with db := db })

/-- `get_config(key_ptr, key_len)`: length of the value, or `-1`. -/
def getConfig (memory : Option LinearMemory) (keyPtr keyLen : Int32) (s : HostState Db St) :
    Outcome (Int32 × HostState Db St) :=
  -- any agent may read its configuration
  withGuestStr none memory keyPtr keyLen s fun key =>
    match s.config.get? key with
    | some val => (Int32.ofNat val.utf8ByteSize, s)
    | none => (-1, s)

/-- `storage_put(data_ptr, data_len)`: length of the content id in the shared buffer, or `-1`. -/
def storagePut (memory : Option LinearMemory) (dataPtr dataLen : Int32) (s : HostState Db St) :
    Outcome (Int32 × HostState Db St) :=
  withGuestBytes (some .storageWrite) memory dataPtr dataLen s fun bytes =>
    match s.store with
    | none =>
        -- without a store the digest is returned all the same
        let (len, s) := copyToShared s (x.blake3Hex bytes).toUTF8.toList
        (Int32.ofNat len, s)
    | some store =>
        match x.put bytes store with
        | (.ok cid, store) =>
            let (len, s) := copyToShared { s with store := some store } cid.toUTF8.toList
            (Int32.ofNat len, s)
        | (.error _, store) => (-1, { s with store := some store })

/-- `storage_get(cid_ptr, cid_len)`: length of the data in the shared buffer, or `-1`. -/
def storageGet (memory : Option LinearMemory) (cidPtr cidLen : Int32) (s : HostState Db St) :
    Outcome (Int32 × HostState Db St) :=
  withGuestStr (some .storageRead) memory cidPtr cidLen s fun cid =>
    match s.store with
    | none => (-1, s)
    | some store =>
        match x.get cid store with
        | (.ok bytes, store) =>
            let (len, s) := copyToShared { s with store := some store } bytes
            (Int32.ofNat len, s)
        | (.error _, store) => (-1, { s with store := some store })

inductive HostCall
  | log (levelPtr levelLen msgPtr msgLen : Int32)
  | emitEvent (typePtr typeLen payloadPtr payloadLen : Int32)
  | dbExecute (sqlPtr sqlLen : Int32)
  | dbQuery (sqlPtr sqlLen : Int32)
  | getConfig (keyPtr keyLen : Int32)
  | storagePut (dataPtr dataLen : Int32)
  | storageGet (cidPtr cidLen : Int32)
  deriving DecidableEq

/-- The registered function behind a call; `log` and `emit_event` return nothing. -/
def hostCall (memory : Option LinearMemory) (s : HostState Db St) :
    HostCall → Outcome (Option Int32 × HostState Db St)
  | .log levelPtr levelLen msgPtr msgLen => do
      let s ← log memory levelPtr levelLen msgPtr msgLen s
      pure (none, s)
  | .emitEvent typePtr typeLen payloadPtr payloadLen => do
      let s ← emitEvent memory typePtr typeLen payloadPtr payloadLen s
      pure (none, s)
  | .dbExecute sqlPtr sqlLen => do
      let (n, s) ← dbExecute x memory sqlPtr sqlLen s
      pure (some n, s)
  | .dbQuery sqlPtr sqlLen => do
      let (n, s) ← dbQuery x memory sqlPtr sqlLen s
      pure (some n, s)
  | .getConfig keyPtr keyLen => do
      let (n, s) ← getConfig memory keyPtr keyLen s
      pure (some n, s)
  | .storagePut dataPtr dataLen => do
      let (n, s) ← storagePut x memory dataPtr dataLen s
      pure (some n, s)
  | .storageGet cidPtr cidLen => do
      let (n, s) ← storageGet x memory cidPtr cidLen s
      pure (some n, s)

end HostFns

/-! ## Ranges of guest memory -/

def InMemory (data : LinearMemory) (range : Int32 × Int32) : Prop :=
  0 ≤ range.1.toInt ∧ 0 ≤ range.2.toInt ∧ range.1.toInt + range.2.toInt ≤ data.bytes.length

/-- The range lies inside the memory, and its end is an `i32`. -/
def Readable (data : LinearMemory) (range : Int32 × Int32) : Prop :=
  InMemory data range ∧ range.1.toInt + range.2.toInt ≤ Int32.maxValue.toInt

theorem LinearMemory.length_le_isizeMax (data : LinearMemory) :
    data.bytes.length ≤ isizeMax :=
  Nat.le_trans data.length_le (by decide)

/-- A readable range is sliced. -/
theorem guestSlice_eq_ok {data : LinearMemory} {ptr len : Int32} (h : Readable data (ptr, len)) :
    ∃ bytes, guestSlice data ptr len = .ok bytes := by
  rcases h with ⟨⟨hptr, hlen, hend⟩, hword⟩
  simp only at hptr hlen hend hword
  have hlow := ptr.le_toInt
  rcases Int32.exists_toInt_eq (n := ptr.toInt + len.toInt)
    (by change -2147483648 ≤ _; omega) hword with ⟨stop, hstop⟩
  have hadd : ptr.checkedAdd len = .ok stop := Int32.checkedAdd_eq_ok.2 hstop.symm
  -- start and stop as sizes are the numbers they stand for
  have hstart := Int32.toInt_asUsize hptr
  have hstop' := Int32.toInt_asUsize (show 0 ≤ stop.toInt by omega)
  rw [guestSlice, hadd, Outcome.ok_bind, List.slice_eq_ok data.bytes (by omega) (by omega)]
  exact ⟨_, rfl⟩

/-- Any other range stops the call with a panic. -/
theorem guestSlice_panic {data : LinearMemory} {ptr len : Int32} (h : ¬ Readable data (ptr, len)) :
    ∃ why, guestSlice data ptr len = .panic why := by
  cases hadd : ptr.checkedAdd len with
  | panic why => exact ⟨why, by rw [guestSlice, hadd, Outcome.panic_bind]⟩
  | ok stop =>
      refine ⟨.indexOutOfBounds, ?_⟩
      rw [guestSlice, hadd, Outcome.ok_bind]
      have hsum := Int32.checkedAdd_eq_ok.1 hadd
      have hmax : stop.toInt ≤ Int32.maxValue.toInt := Int32.toInt_le stop
      have hmemory := data.length_le_isizeMax
      -- a negative start or stop is a size beyond the memory; else the order or the end is wrong
      have hbad : ¬ (ptr.asUsize ≤ stop.asUsize ∧ stop.asUsize ≤ data.bytes.length) := by
        rintro ⟨horder, hend⟩
        by_cases hptr : ptr.toInt < 0
        · have := Int32.lt_asUsize hptr
          omega
        · by_cases hstop : stop.toInt < 0
          · have := Int32.lt_asUsize hstop
            omega
          · have hstart := Int32.toInt_asUsize (Int.not_lt.1 hptr)
            have hstop' := Int32.toInt_asUsize (Int.not_lt.1 hstop)
            exact h ⟨⟨by simp only; omega, by simp only; omega, by simp only; omega⟩,
              by simp only; omega⟩
      rw [List.slice, if_neg hbad]

/-! ## Calls -/

def HostCall.capability : HostCall → Option Capability
  | .log _ _ _ _ => none
  | .emitEvent _ _ _ _ => none
  | .dbExecute _ _ => some .writeOwnDb
  | .dbQuery _ _ => some .readOwnDb
  | .getConfig _ _ => none
  | .storagePut _ _ => some .storageWrite
  | .storageGet _ _ => some .storageRead

def HostCall.ranges : HostCall → List (Int32 × Int32)
  | .log levelPtr levelLen msgPtr msgLen => [(levelPtr, levelLen), (msgPtr, msgLen)]
  | .emitEvent typePtr typeLen payloadPtr payloadLen =>
      [(typePtr, typeLen), (payloadPtr, payloadLen)]
  | .dbExecute sqlPtr sqlLen => [(sqlPtr, sqlLen)]
  | .dbQuery sqlPtr sqlLen => [(sqlPtr, sqlLen)]
  | .getConfig keyPtr keyLen => [(keyPtr, keyLen)]
  | .storagePut dataPtr dataLen => [(dataPtr, dataLen)]
  | .storageGet cidPtr cidLen => [(cidPtr, cidLen)]

def HostCall.Permitted {Db St : Type} (call : HostCall) (s : HostState Db St) : Prop :=
  ∀ cap, call.capability = some cap → s.permissions.has cap = true

section Calls

variable {Db St : Type}

/-- The call returns; where a range is outside the memory, with `-1` or without effect. -/
def SafeCall (x : HostPackages Db St) (memory : Option LinearMemory) (s : HostState Db St)
    (call : HostCall) : Prop :=
  ∃ result s', hostCall x memory s call = .ok (result, s') ∧
    ((∀ data, memory = some data → ∃ range ∈ call.ranges, ¬ InMemory data range) →
      result = some (-1) ∨ s' = s)

theorem denied_eq_false {s : HostState Db St} {capability : Option Capability} :
    denied s capability = false ↔
      ∀ cap, capability = some cap → s.permissions.has cap = true := by
  cases capability with
  | none => simp [denied]
  | some cap =>
      cases h : s.permissions.has cap <;> simp [denied, PermissionSet.check, h]

/-- A call that records two texts returns as it is without a memory, and else reads both. -/
theorem recordPair_cases (defaults : String × String) (memory : Option LinearMemory)
    (ptr₁ len₁ ptr₂ len₂ : Int32) (s : HostState Db St)
    (record : String → String → HostState Db St) :
    (memory = none ∧ recordPair defaults memory ptr₁ len₁ ptr₂ len₂ s record = .ok s) ∨
      ∃ data, memory = some data ∧
        ((Readable data (ptr₁, len₁) ∧ Readable data (ptr₂, len₂) ∧
            ∃ s', recordPair defaults memory ptr₁ len₁ ptr₂ len₂ s record = .ok s') ∨
          (¬ (Readable data (ptr₁, len₁) ∧ Readable data (ptr₂, len₂)) ∧
            ∃ why, recordPair defaults memory ptr₁ len₁ ptr₂ len₂ s record = .panic why)) := by
  cases memory with
  | none => exact Or.inl ⟨rfl, rfl⟩
  | some data =>
      refine Or.inr ⟨data, rfl, ?_⟩
      simp only [recordPair]
      by_cases h₁ : Readable data (ptr₁, len₁)
      · rcases guestSlice_eq_ok h₁ with ⟨first, hfirst⟩
        rw [hfirst, Outcome.ok_bind]
        by_cases h₂ : Readable data (ptr₂, len₂)
        · rcases guestSlice_eq_ok h₂ with ⟨second, hsecond⟩
          rw [hsecond, Outcome.ok_bind]
          exact Or.inl ⟨h₁, h₂, _, rfl⟩
        · rcases guestSlice_panic h₂ with ⟨why, hpanic⟩
          rw [hpanic, Outcome.panic_bind]
          exact Or.inr ⟨fun h => h₂ h.2, why, rfl⟩
      · rcases guestSlice_panic h₁ with ⟨why, hpanic⟩
        rw [hpanic, Outcome.panic_bind]
        exact Or.inr ⟨fun h => h₁ h.1, why, rfl⟩

/-- A call that reads bytes returns `-1` if it is denied or there is no memory, and else reads. -/
theorem withGuestBytes_cases (capability : Option Capability) (memory : Option LinearMemory)
    (ptr len : Int32) (s : HostState Db St) (k : List UInt8 → Int32 × HostState Db St) :
    ((denied s capability = true ∨ memory = none) ∧
        withGuestBytes capability memory ptr len s k = .ok (-1, s)) ∨
      ∃ data, denied s capability = false ∧ memory = some data ∧
        ((Readable data (ptr, len) ∧
            ∃ result, withGuestBytes capability memory ptr len s k = .ok result) ∨
          (¬ Readable data (ptr, len) ∧
            ∃ why, withGuestBytes capability memory ptr len s k = .panic why)) := by
  cases hdenied : denied s capability with
  | true => exact Or.inl ⟨Or.inl rfl, by simp [withGuestBytes, hdenied]⟩
  | false =>
      cases memory with
      | none => exact Or.inl ⟨Or.inr rfl, by simp [withGuestBytes, hdenied]⟩
      | some data =>
          refine Or.inr ⟨data, rfl, rfl, ?_⟩
          simp only [withGuestBytes, hdenied, Bool.false_eq_true, if_false]
          by_cases h : Readable data (ptr, len)
          · rcases guestSlice_eq_ok h with ⟨bytes, hbytes⟩
            rw [hbytes, Outcome.ok_bind]
            exact Or.inl ⟨h, _, rfl⟩
          · rcases guestSlice_panic h with ⟨why, hpanic⟩
            rw [hpanic, Outcome.panic_bind]
            exact Or.inr ⟨h, why, rfl⟩

/-- A call that returns is safe if the ranges it is given are readable. -/
theorem safeCall_of_readable {x : HostPackages Db St} {data : LinearMemory} {s : HostState Db St}
    {call : HostCall} {result : Option Int32 × HostState Db St}
    (hok : hostCall x (some data) s call = .ok result)
    (hall : ∀ range ∈ call.ranges, Readable data range) : SafeCall x (some data) s call := by
  refine ⟨result.1, result.2, hok, ?_⟩
  intro hinvalid
  rcases hinvalid data rfl with ⟨range, hmem, hout⟩
  exact absurd (hall range hmem).1 hout

/-- Where every range can be read, a call that returns is safe, whatever it is permitted. -/
theorem safeCall_iff_of_readable {x : HostPackages Db St} {data : LinearMemory}
    {s : HostState Db St} {call : HostCall} {result : Option Int32 × HostState Db St}
    (hok : hostCall x (some data) s call = .ok result)
    (hall : ∀ range ∈ call.ranges, Readable data range) :
    SafeCall x (some data) s call ↔
      ∀ data', some data = some data' → call.Permitted s →
        ∀ range ∈ call.ranges, Readable data' range := by
  refine iff_of_true (safeCall_of_readable hok hall) ?_
  intro data' hdata _
  rw [← Option.some.inj hdata]
  exact hall

/-- A call that panics is not safe. -/
theorem not_safeCall_of_panic {x : HostPackages Db St} {memory : Option LinearMemory}
    {s : HostState Db St} {call : HostCall} {why : Panic}
    (hpanic : hostCall x memory s call = .panic why) : ¬ SafeCall x memory s call := by
  intro hsafe
  rcases hsafe with ⟨result, s', hok, -⟩
  rw [hpanic] at hok
  simp at hok

variable (x : HostPackages Db St)

/-- Every call records two texts, or reads bytes from one range. -/
theorem hostCall_cases (memory : Option LinearMemory) (s : HostState Db St) (call : HostCall) :
    (∃ defaults ptr₁ len₁ ptr₂ len₂ record, call.capability = none ∧
        call.ranges = [(ptr₁, len₁), (ptr₂, len₂)] ∧
        hostCall x memory s call = (do
          let s' ← recordPair defaults memory ptr₁ len₁ ptr₂ len₂ s record
          pure (none, s'))) ∨
      ∃ ptr len k, call.ranges = [(ptr, len)] ∧
        hostCall x memory s call = (do
          let (n, s') ← withGuestBytes call.capability memory ptr len s k
          pure (some n, s')) := by
  cases call with
  | log levelPtr levelLen msgPtr msgLen => exact Or.inl ⟨_, _, _, _, _, _, rfl, rfl, rfl⟩
  | emitEvent typePtr typeLen payloadPtr payloadLen =>
      exact Or.inl ⟨_, _, _, _, _, _, rfl, rfl, rfl⟩
  | dbExecute sqlPtr sqlLen => exact Or.inr ⟨_, _, _, rfl, rfl⟩
  | dbQuery sqlPtr sqlLen => exact Or.inr ⟨_, _, _, rfl, rfl⟩
  | getConfig keyPtr keyLen => exact Or.inr ⟨_, _, _, rfl, rfl⟩
  | storagePut dataPtr dataLen => exact Or.inr ⟨_, _, _, rfl, rfl⟩
  | storageGet cidPtr cidLen => exact Or.inr ⟨_, _, _, rfl, rfl⟩

/-- A host call is safe exactly when it does not get to the guest's memory, or every range it is
given lies inside that memory and ends below `2^31`. -/
theorem hostCall_safe_iff (memory : Option LinearMemory) (s : HostState Db St) (call : HostCall) :
    SafeCall x memory s call ↔
      ∀ data, memory = some data → call.Permitted s →
        ∀ range ∈ call.ranges, Readable data range := by
  rcases hostCall_cases x memory s call with
    ⟨defaults, ptr₁, len₁, ptr₂, len₂, record, hcap, hranges, hrun⟩ | ⟨ptr, len, k, hranges, hrun⟩
  · have hpermitted : call.Permitted s := by simp [HostCall.Permitted, hcap]
    rcases recordPair_cases defaults memory ptr₁ len₁ ptr₂ len₂ s record with
      ⟨rfl, hok⟩ | ⟨data, rfl, ⟨h₁, h₂, s', hok⟩ | ⟨hbad, why, hpanic⟩⟩
    · -- without a memory nothing is read
      refine iff_of_true ⟨none, s, by rw [hrun, hok]; rfl, fun _ => Or.inr rfl⟩ ?_
      intro data hdata
      exact absurd hdata (by simp)
    · have hall : ∀ range ∈ call.ranges, Readable data range := by simp [hranges, h₁, h₂]
      rw [hok, Outcome.ok_bind] at hrun
      exact safeCall_iff_of_readable hrun hall
    · rw [hpanic, Outcome.panic_bind] at hrun
      refine iff_of_false (not_safeCall_of_panic hrun) ?_
      intro hall
      have hread := hall data rfl hpermitted
      exact hbad ⟨hread _ (by simp [hranges]), hread _ (by simp [hranges])⟩
  · rcases withGuestBytes_cases call.capability memory ptr len s k with
      ⟨hearly, hok⟩ | ⟨data, hdenied, rfl, ⟨h, ⟨n, s'⟩, hok⟩ | ⟨hbad, why, hpanic⟩⟩
    · -- denied, or without a memory
      refine iff_of_true ⟨some (-1), s, by rw [hrun, hok]; rfl, fun _ => Or.inl rfl⟩ ?_
      intro data hdata hpermitted
      rcases hearly with hdenied | hnone
      · rw [denied_eq_false.2 hpermitted] at hdenied
        exact absurd hdenied (by simp)
      · exact absurd hdata (by simp [hnone])
    · have hall : ∀ range ∈ call.ranges, Readable data range := by simp [hranges, h]
      rw [hok, Outcome.ok_bind] at hrun
      exact safeCall_iff_of_readable hrun hall
    · rw [hpanic, Outcome.panic_bind] at hrun
      refine iff_of_false (not_safeCall_of_panic hrun) ?_
      intro hall
      exact hbad (hall data rfl (denied_eq_false.1 hdenied) _ (by simp [hranges]))

end Calls

/-! ## One page of memory -/

def onePage : LinearMemory :=
  { bytes := List.replicate 65536 0
    length_le := by rw [List.length_replicate]; decide }

def plainPackages : HostPackages Unit Unit :=
  { execute := fun _ db => (.ok 0, db)
    queryCount := fun _ db => (.ok 0, db)
    blake3Hex := fun _ => ""
    put := fun _ store => (.error "full", store)
    get := fun _ store => (.error "not found", store) }

def plainState : HostState Unit Unit :=
  { db := ()
    permissions := { capabilities := {.readOwnDb, .writeOwnDb} }
    config := SortedMap.empty
    logs := []
    events := []
    sharedBuffer := List.replicate 16 0
    store := none }

/-- A query past the end of the memory panics instead of returning `-1`, and so does a pointer whose
end overflows. -/
theorem dbExecute_past_end_panics :
    hostCall plainPackages (some onePage) plainState (.dbExecute 65530 100) =
        .panic .indexOutOfBounds ∧
      hostCall plainPackages (some onePage) plainState (.log 2147483647 1 0 0) =
        .panic .overflow ∧
      ¬ SafeCall plainPackages (some onePage) plainState (.dbExecute 65530 100) := by
  have hlen : onePage.bytes.length = 65536 := List.length_replicate
  have hslice : guestSlice onePage 65530 100 = .panic .indexOutOfBounds := by
    have hadd : Int32.checkedAdd 65530 100 = .ok 65630 := by decide
    have hout : ¬ (Int32.asUsize 65530 ≤ Int32.asUsize 65630 ∧
        Int32.asUsize 65630 ≤ onePage.bytes.length) := by
      rw [hlen]
      decide
    rw [guestSlice, hadd, Outcome.ok_bind, List.slice, if_neg hout]
  have hoverflow : guestSlice onePage 2147483647 1 = .panic .overflow := by
    have hadd : Int32.checkedAdd 2147483647 1 = .panic .overflow := by decide
    rw [guestSlice, hadd, Outcome.panic_bind]
  have hrun : hostCall plainPackages (some onePage) plainState (.dbExecute 65530 100) =
      .panic .indexOutOfBounds := by
    have hpermitted : denied plainState (some .writeOwnDb) = false := by decide
    simp only [hostCall, dbExecute, withGuestStr, withGuestBytes, hpermitted, hslice,
      Bool.false_eq_true, if_false, Outcome.panic_bind]
  have hlog : hostCall plainPackages (some onePage) plainState (.log 2147483647 1 0 0) =
      .panic .overflow := by
    simp only [hostCall, log, recordPair, hoverflow, Outcome.panic_bind]
  exact ⟨hrun, hlog, not_safeCall_of_panic hrun⟩

end AgentRuntime
end CraftecCore
