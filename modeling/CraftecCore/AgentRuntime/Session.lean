import CraftecCore.AgentRuntime.Storage

/-!
# Session — a whole run of an agent against its host

Between two host calls a guest computes what it likes, so a run is any sequence of calls, each with
its own memory.  `step_db` says what one call can do to the database of an agent without
`WriteOwnDb`: only what the statement does that it passes to `db_query`.  Runs follow from it by
induction.
-/

namespace CraftecCore
namespace AgentRuntime

open Text

/-! ## The source functions -/

inductive HostResult
  | unit
  | i32 (n : Int32)
  | i64 (n : Int64)
  deriving DecidableEq

inductive AgentCall
  /-- One that reads guest memory. -/
  | host (call : HostCall)
  | currentTime
  | networkSend (peerPtr peerLen msgPtr msgLen : Int32)
  | dhtPut (keyPtr keyLen valPtr valLen : Int32)
  | dhtGet (keyPtr keyLen : Int32)
  deriving DecidableEq

section AgentCalls

variable {Db St : Type}

def currentTime (millis : ℕ) : Int64 :=
  Int64.ofNat millis

/-- A function that so far only checks its capability; `-1` where it is denied. -/
def stub (capability : Capability) (answer : Int32) (s : HostState Db St) : Int32 :=
  match s.permissions.check capability with
  | .error _ => -1
  | .ok () => answer

def networkSend (s : HostState Db St) : Int32 :=
  stub .networkSend 0 s

def dhtPut (s : HostState Db St) : Int32 :=
  stub .dhtAccess 0 s

/-- `dht_get(key_ptr, key_len)`: nothing is found. -/
def dhtGet (s : HostState Db St) : Int32 :=
  stub .dhtAccess (-1) s

variable (x : HostPackages Db St)

/-- The registered function behind a call, at a time of the system clock. -/
def agentCall (memory : Option LinearMemory) (millis : ℕ) (s : HostState Db St) :
    AgentCall → Outcome (HostResult × HostState Db St)
  | .host call => do
      let (result, s) ← hostCall x memory s call
      match result with
      | none => pure (.unit, s)
      | some n => pure (.i32 n, s)
  | .currentTime => pure (.i64 (currentTime millis), s)
  | .networkSend _ _ _ _ => pure (.i32 (networkSend s), s)
  | .dhtPut _ _ _ _ => pure (.i32 (dhtPut s), s)
  | .dhtGet _ _ => pure (.i32 (dhtGet s), s)

/-! ## Runs -/

structure Invocation where
  memory : Option LinearMemory
  millis : ℕ
  call : AgentCall

/-- The state that a call leaves; a panic comes before every effect. -/
def stateAfter {α : Type} (s : HostState Db St) : Outcome (α × HostState Db St) → HostState Db St
  | .ok (_, s') => s'
  | .panic _ => s

def Invocation.step (i : Invocation) (s : HostState Db St) : HostState Db St :=
  stateAfter s (agentCall x i.memory i.millis s i.call)

def runCalls (calls : List Invocation) (s : HostState Db St) : HostState Db St :=
  calls.foldl (fun s i => i.step x s) s

end AgentCalls

/-! ## What a call reads -/

/-- The bytes that a host function reads, if it gets to read them. -/
def guestBytes? (permissions : PermissionSet) (capability : Option Capability)
    (memory : Option LinearMemory) (ptr len : Int32) : Option (List UInt8) :=
  if ∀ cap, capability = some cap → permissions.has cap = true then
    match memory with
    | none => none
    | some data =>
        match guestSlice data ptr len with
        | .ok bytes => some bytes
        | .panic _ => none
  else
    none

/-- The statement that a call passes to the database as a query. -/
def HostCall.statement? (permissions : PermissionSet) (memory : Option LinearMemory) :
    HostCall → Option String
  | .dbQuery sqlPtr sqlLen =>
      (guestBytes? permissions (some .readOwnDb) memory sqlPtr sqlLen).bind fromUtf8
  | _ => none

def Invocation.statement? (permissions : PermissionSet) (i : Invocation) : Option String :=
  match i.call with
  | .host call => call.statement? permissions i.memory
  | _ => none

section Frame

variable {Db St : Type} {x : HostPackages Db St} {s : HostState Db St}

theorem guestBytes?_eq_none {permissions : PermissionSet} {cap : Capability}
    (h : permissions.has cap = false) (memory : Option LinearMemory) (ptr len : Int32) :
    guestBytes? permissions (some cap) memory ptr len = none := by
  have hnot : ¬ ∀ cap', some cap = some cap' → permissions.has cap' = true := by
    intro hall
    exact absurd (hall cap rfl) (by simp [h])
  simp only [guestBytes?, if_neg hnot]

theorem guestBytes?_eq_some {permissions : PermissionSet} {cap : Capability}
    (h : permissions.has cap = true) {data : LinearMemory} {ptr len : Int32} {bytes : List UInt8}
    (hslice : guestSlice data ptr len = .ok bytes) :
    guestBytes? permissions (some cap) (some data) ptr len = some bytes := by
  have hall : ∀ cap', some cap = some cap' → permissions.has cap' = true :=
    fun _ heq => Option.some.inj heq ▸ h
  simp only [guestBytes?, if_pos hall, hslice]

/-- A call that reads bytes goes on with them, or leaves the state as it was. -/
theorem stateAfter_withGuestBytes (capability : Option Capability) (memory : Option LinearMemory)
    (ptr len : Int32) (k : List UInt8 → Int32 × HostState Db St) :
    stateAfter s (withGuestBytes capability memory ptr len s k) =
      match guestBytes? s.permissions capability memory ptr len with
      | some bytes => (k bytes).2
      | none => s := by
  by_cases hpermitted : ∀ cap, capability = some cap → s.permissions.has cap = true
  · have hallowed := denied_eq_false.2 hpermitted
    cases memory with
    | none => simp [withGuestBytes, hallowed, guestBytes?, stateAfter]
    | some data =>
        rw [guestBytes?, if_pos hpermitted]
        cases hslice : guestSlice data ptr len with
        | ok bytes => simp [withGuestBytes_eq hallowed hslice, stateAfter]
        | panic why => simp [withGuestBytes, hallowed, hslice, stateAfter]
  · have hdenied : denied s capability = true := by
      rw [← denied_eq_false, Bool.not_eq_false] at hpermitted
      exact hpermitted
    simp [withGuestBytes, hdenied, guestBytes?, if_neg hpermitted, stateAfter]

/-- A call that returns a number leaves the state that its function leaves. -/
theorem stateAfter_map (run : Outcome (Int32 × HostState Db St)) :
    stateAfter s (do
      let (n, s') ← run
      pure (some n, s')) = stateAfter s run := by
  cases run <;> rfl

def queried (x : HostPackages Db St) : Option String → Db → Db
  | none, db => db
  | some sql, db => (x.queryCount sql db).2

/-- Of the database and the capabilities, only the database has changed, and only by a query. -/
structure AfterQuery (x : HostPackages Db St) (s : HostState Db St) (statement : Option String)
    (s' : HostState Db St) : Prop where
  db : s'.db = queried x statement s.db
  permissions : s'.permissions = s.permissions

theorem AfterQuery.refl (x : HostPackages Db St) (s : HostState Db St) : AfterQuery x s none s :=
  { db := rfl
    permissions := rfl }

/-- Recording two texts. -/
theorem AfterQuery.recordPair {defaults : String × String} {memory : Option LinearMemory}
    {ptr₁ len₁ ptr₂ len₂ : Int32} {record : String → String → HostState Db St}
    (h : ∀ first second, AfterQuery x s none (record first second)) :
    AfterQuery x s none (stateAfter s (do
      let s' ← recordPair defaults memory ptr₁ len₁ ptr₂ len₂ s record
      pure ((none : Option Int32), s'))) := by
  cases memory with
  | none => exact AfterQuery.refl x s
  | some data =>
      rw [AgentRuntime.recordPair]
      cases guestSlice data ptr₁ len₁ with
      | panic why => exact AfterQuery.refl x s
      | ok first =>
          cases guestSlice data ptr₂ len₂ with
          | panic why => exact AfterQuery.refl x s
          | ok second => exact h _ _

/-- Reading bytes, and going on without a query. -/
theorem AfterQuery.withGuestBytes {capability : Option Capability} {memory : Option LinearMemory}
    {ptr len : Int32} {k : List UInt8 → Int32 × HostState Db St}
    (h : ∀ bytes, AfterQuery x s none (k bytes).2) :
    AfterQuery x s none (stateAfter s (do
      let (n, s') ← withGuestBytes capability memory ptr len s k
      pure (some n, s'))) := by
  rw [stateAfter_map, stateAfter_withGuestBytes]
  cases guestBytes? s.permissions capability memory ptr len with
  | none => exact AfterQuery.refl x s
  | some bytes => exact h bytes

theorem AfterQuery.withGuestStr {capability : Option Capability} {memory : Option LinearMemory}
    {ptr len : Int32} {k : String → Int32 × HostState Db St}
    (h : ∀ text, AfterQuery x s none (k text).2) :
    AfterQuery x s none (stateAfter s (do
      let (n, s') ← withGuestStr capability memory ptr len s k
      pure (some n, s'))) := by
  refine AfterQuery.withGuestBytes ?_
  intro bytes
  cases fromUtf8 bytes with
  | none => exact AfterQuery.refl x s
  | some text => exact h text

/-- The query itself. -/
theorem AfterQuery.dbQuery (memory : Option LinearMemory) (sqlPtr sqlLen : Int32) :
    AfterQuery x s
      ((guestBytes? s.permissions (some .readOwnDb) memory sqlPtr sqlLen).bind fromUtf8)
      (stateAfter s (dbQuery x memory sqlPtr sqlLen s)) := by
  rw [AgentRuntime.dbQuery, AgentRuntime.withGuestStr, stateAfter_withGuestBytes]
  cases guestBytes? s.permissions (some .readOwnDb) memory sqlPtr sqlLen with
  | none => exact AfterQuery.refl x s
  | some bytes =>
      simp only [Option.bind_some]
      cases fromUtf8 bytes with
      | none => exact AfterQuery.refl x s
      | some sql =>
          simp only
          cases hquery : x.queryCount sql s.db with
          | mk result db =>
              have hdb : db = queried x (some sql) s.db := by rw [queried, hquery]
              cases result with
              | ok n => exact ⟨hdb, rfl⟩
              | error e => exact ⟨hdb, rfl⟩

/-! ## The database after one call -/

/-- A call changes the database of an agent without `WriteOwnDb` only by the statement that it
queries. -/
theorem AfterQuery.hostCall {memory : Option LinearMemory}
    (hwrite : s.permissions.has .writeOwnDb = false) : ∀ call : HostCall,
      AfterQuery x s (call.statement? s.permissions memory)
        (stateAfter s (hostCall x memory s call))
  | .log _ _ _ _ => AfterQuery.recordPair fun _ _ => ⟨rfl, rfl⟩
  | .emitEvent _ _ _ _ => AfterQuery.recordPair fun _ _ => ⟨rfl, rfl⟩
  | .dbExecute sqlPtr sqlLen => by
      -- denied: no bytes are read
      rw [AgentRuntime.hostCall, stateAfter_map, dbExecute, AgentRuntime.withGuestStr,
        stateAfter_withGuestBytes, guestBytes?_eq_none hwrite]
      exact AfterQuery.refl x s
  | .dbQuery sqlPtr sqlLen => by
      rw [AgentRuntime.hostCall, stateAfter_map]
      exact AfterQuery.dbQuery memory sqlPtr sqlLen
  | .getConfig _ _ => AfterQuery.withGuestStr fun key => by
      cases s.config.get? key <;> exact AfterQuery.refl x s
  | .storagePut _ _ => AfterQuery.withGuestBytes fun bytes => by
      cases s.store with
      | none => exact ⟨rfl, rfl⟩
      | some store =>
          simp only
          rcases x.put bytes store with ⟨cid | e, store'⟩
          · exact ⟨rfl, rfl⟩
          · exact ⟨rfl, rfl⟩
  | .storageGet _ _ => AfterQuery.withGuestStr fun cid => by
      cases s.store with
      | none => exact AfterQuery.refl x s
      | some store =>
          simp only
          rcases x.get cid store with ⟨bytes | e, store'⟩
          · exact ⟨rfl, rfl⟩
          · exact ⟨rfl, rfl⟩

/-- So does any call. -/
theorem AfterQuery.step (hwrite : s.permissions.has .writeOwnDb = false) (i : Invocation) :
    AfterQuery x s (i.statement? s.permissions) (i.step x s) := by
  rcases i with ⟨memory, millis, call⟩
  cases call with
  | host call =>
      have hstate : Invocation.step x ⟨memory, millis, .host call⟩ s =
          stateAfter s (AgentRuntime.hostCall x memory s call) := by
        rw [Invocation.step, agentCall]
        rcases AgentRuntime.hostCall x memory s call with ⟨⟨_ | n, s'⟩⟩ | why <;> rfl
      rw [hstate]
      exact AfterQuery.hostCall hwrite call
  | currentTime => exact AfterQuery.refl x s
  | networkSend _ _ _ _ => exact AfterQuery.refl x s
  | dhtPut _ _ _ _ => exact AfterQuery.refl x s
  | dhtGet _ _ => exact AfterQuery.refl x s

/-! ## The database after a run -/

theorem runCalls_append (calls : List Invocation) (i : Invocation) :
    runCalls x (calls ++ [i]) s = i.step x (runCalls x calls s) := by
  simp [runCalls]

/-- Every statement that the calls query leaves the database as it is. -/
def QueriesOnlyRead (x : HostPackages Db St) (permissions : PermissionSet) (db : Db)
    (calls : List Invocation) : Prop :=
  ∀ i ∈ calls, ∀ sql, i.statement? permissions = some sql → (x.queryCount sql db).2 = db

theorem runCalls_permissions (hwrite : s.permissions.has .writeOwnDb = false)
    (calls : List Invocation) : (runCalls x calls s).permissions = s.permissions := by
  induction calls using List.reverseRecOn with
  | nil => rfl
  | append_singleton calls i ih =>
      rw [runCalls_append]
      exact (AfterQuery.step (by rw [ih]; exact hwrite) i).permissions.trans ih

/-- One more call, after calls that left the database. -/
theorem runCalls_append_db (hwrite : s.permissions.has .writeOwnDb = false)
    {calls : List Invocation} (hdb : (runCalls x calls s).db = s.db) (i : Invocation) :
    (runCalls x (calls ++ [i]) s).db = queried x (i.statement? s.permissions) s.db := by
  have hpermissions := runCalls_permissions (x := x) hwrite calls
  have hstep := AfterQuery.step (x := x) (s := runCalls x calls s)
    (by rw [hpermissions]; exact hwrite) i
  rw [runCalls_append, hstep.db, hdb, hpermissions]

/-- A run whose queries only read leaves the database. -/
theorem runCalls_db (hwrite : s.permissions.has .writeOwnDb = false) {calls : List Invocation}
    (hread : QueriesOnlyRead x s.permissions s.db calls) : (runCalls x calls s).db = s.db := by
  induction calls using List.reverseRecOn with
  | nil => rfl
  | append_singleton calls i ih =>
      have hdb := ih fun j hj => hread j (List.mem_append_left _ hj)
      rw [runCalls_append_db hwrite hdb]
      cases hstatement : i.statement? s.permissions with
      | none => rfl
      | some sql => exact hread i (by simp) sql hstatement

/-- An agent with neither capability on its database never changes it. -/
theorem runCalls_db_of_no_capability (hwrite : s.permissions.has .writeOwnDb = false)
    (hread : s.permissions.has .readOwnDb = false) (calls : List Invocation) :
    (runCalls x calls s).db = s.db := by
  refine runCalls_db hwrite ?_
  intro i _ sql hstatement
  rcases i with ⟨memory, millis, call⟩
  cases call with
  | host call =>
      cases call <;> simp [Invocation.statement?, HostCall.statement?, guestBytes?_eq_none hread]
        at hstatement
  | _ => simp [Invocation.statement?] at hstatement

/-- Throughout a run, the database of an agent without `WriteOwnDb` is as it was exactly when every
statement that it queries leaves it so. -/
theorem db_unchanged_iff (x : HostPackages Db St) (s : HostState Db St)
    (hwrite : s.permissions.has .writeOwnDb = false) (calls : List Invocation) :
    (∀ earlier, earlier <+: calls → (runCalls x earlier s).db = s.db) ↔
      QueriesOnlyRead x s.permissions s.db calls := by
  constructor
  · intro hall i hi sql hstatement
    rcases List.append_of_mem hi with ⟨earlier, later, rfl⟩
    have hbefore := hall earlier (List.prefix_append _ _)
    have hafter := hall (earlier ++ [i]) ⟨later, by simp⟩
    -- the statement is queried on the first database
    rw [runCalls_append_db hwrite hbefore, hstatement] at hafter
    exact hafter
  · intro hread earlier hstart
    exact runCalls_db hwrite fun i hi => hread i (hstart.subset hi)

end Frame

/-! ## A table of rows -/

/-- A database of rows that can be counted, or deleted. -/
def tablePackages : HostPackages (List String) Unit :=
  { plainPackages with
    execute := fun sql db => if sql = "DELETE FROM rows" then (.ok db.length, []) else (.ok 0, db)
    queryCount := fun sql db =>
      if sql = "DELETE FROM rows" then (.ok 0, []) else (.ok db.length, db) }

def readerState : HostState (List String) Unit :=
  HostState.new ["first", "second"] { capabilities := {.readOwnDb} }

def queryOf (sql : String) (h : (utf8 sql).length ≤ 65536) (len : Int32) : Invocation :=
  { memory := some (pageOf (utf8 sql) h)
    millis := 0
    call := .host (.dbQuery 0 len) }

theorem statement?_queryOf {sql : String} (h : (utf8 sql).length ≤ 65536) {len : Int32}
    (hlen : len.toInt = (utf8 sql).length) :
    (queryOf sql h len).statement? readerState.permissions = some sql := by
  have hpermitted : ∀ cap, some Capability.readOwnDb = some cap →
      readerState.permissions.has cap = true := by
    intro cap hcap
    rw [← Option.some.inj hcap]
    decide
  have hslice : guestSlice (pageOf (utf8 sql) h) 0 len = .ok (utf8 sql) :=
    guestSlice_front rfl hlen
  simp only [Invocation.statement?, queryOf, HostCall.statement?, guestBytes?, if_pos hpermitted,
    hslice, Option.bind_some, fromUtf8_utf8]

/-- Counting the rows leaves them. -/
theorem db_unchanged_iff_count :
    (runCalls tablePackages [queryOf "SELECT * FROM rows" (by decide) 18] readerState).db =
      ["first", "second"] := by
  refine (db_unchanged_iff tablePackages readerState (by decide) _).2 ?_ _ List.prefix_rfl
  intro i hi sql hstatement
  rw [List.mem_singleton.1 hi, statement?_queryOf _ (by decide), Option.some.injEq] at hstatement
  rw [← hstatement]
  decide

/-- A query deletes the rows of an agent that may not write. -/
theorem query_deletes_rows :
    readerState.permissions.has .writeOwnDb = false ∧ readerState.db = ["first", "second"] ∧
      (runCalls tablePackages [queryOf "DELETE FROM rows" (by decide) 16] readerState).db = [] := by
  have hwrite : readerState.permissions.has .writeOwnDb = false := by decide
  refine ⟨hwrite, rfl, ?_⟩
  rw [← List.nil_append [queryOf _ _ _], runCalls_append_db hwrite rfl,
    statement?_queryOf _ (by decide)]
  decide

end AgentRuntime
end CraftecCore
