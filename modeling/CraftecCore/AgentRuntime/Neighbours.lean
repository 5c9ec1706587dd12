import CraftecCore.AgentRuntime.Lifecycle
import CraftecCore.AgentRuntime.Session
import CraftecCore.Library.Run
import Mathlib.Logic.Function.Basic

/-!
# Neighbours — many agents on one host

Every agent has a host state of its own and a connection to its database file; the disk is one for
all of them, and content stores can be shared.  Agents take turns in any order, and in each turn an
agent makes the host call that its program comes to after the results so far.  Whatever the SQL of
the agents does to the disk, what a store holds is what was put into it (`stores_turns`), by
whichever agent, and `storage_get` finds the last blob under a CID (`blobs_shared`).
-/

namespace CraftecCore
namespace AgentRuntime

open PathText Text Transition

/-! ## What a call does to a store -/

section Calls

/-- The functions that only tier 1 agents are linked with. -/
def AgentCall.tier1 : AgentCall → Bool
  | .host (.storagePut _ _) => true
  | .host (.storageGet _ _) => true
  | .networkSend _ _ _ _ => true
  | .dhtPut _ _ _ _ => true
  | .dhtGet _ _ => true
  | _ => false

def AgentCall.blob? (permissions : PermissionSet) (memory : Option LinearMemory) :
    AgentCall → Option (List UInt8)
  | .host (.storagePut dataPtr dataLen) =>
      guestBytes? permissions (some .storageWrite) memory dataPtr dataLen
  | _ => none

/-- All of a call but the state that it leaves. -/
def resultOf {α β : Type} : Outcome (α × β) → Outcome α
  | .ok (a, _) => .ok a
  | .panic why => .panic why

end Calls

section Effect

variable {Db : Type} (x : HostPackages Db MemoryStore) {blake3 : List UInt8 → Bytes 32}
  {s : HostState Db MemoryStore}

def putBlob (blake3 : List UInt8 → Bytes 32) (m : MemoryStore) : Option (List UInt8) → MemoryStore
  | none => m
  | some bytes => (MemoryStore.put blake3 bytes m).2

/-- A call leaves the capabilities, and changes the store only by the blob that it puts there. -/
structure CallEffect (blake3 : List UInt8 → Bytes 32) (s : HostState Db MemoryStore)
    (blob : Option (List UInt8)) (s' : HostState Db MemoryStore) : Prop where
  permissions : s'.permissions = s.permissions
  store : s'.store = s.store.map fun m => putBlob blake3 m blob

theorem CallEffect.of_store_eq {s' : HostState Db MemoryStore}
    (hpermissions : s'.permissions = s.permissions) (hstore : s'.store = s.store) :
    CallEffect blake3 s none s' :=
  { permissions := hpermissions
    store := by simp [hstore, putBlob] }

theorem CallEffect.refl (blake3 : List UInt8 → Bytes 32) (s : HostState Db MemoryStore) :
    CallEffect blake3 s none s :=
  CallEffect.of_store_eq rfl rfl

theorem CallEffect.recordPair {defaults : String × String} {memory : Option LinearMemory}
    {ptr₁ len₁ ptr₂ len₂ : Int32} {record : String → String → HostState Db MemoryStore}
    (h : ∀ first second, CallEffect blake3 s none (record first second)) :
    CallEffect blake3 s none (stateAfter s (do
      let s' ← recordPair defaults memory ptr₁ len₁ ptr₂ len₂ s record
      pure ((none : Option Int32), s'))) := by
  cases memory with
  | none => exact CallEffect.refl blake3 s
  | some data =>
      rw [AgentRuntime.recordPair]
      cases guestSlice data ptr₁ len₁ with
      | panic why => exact CallEffect.refl blake3 s
      | ok first =>
          cases guestSlice data ptr₂ len₂ with
          | panic why => exact CallEffect.refl blake3 s
          | ok second => exact h _ _

/-- A call on a text that puts no blob. -/
theorem CallEffect.withGuestStr {capability : Option Capability} {memory : Option LinearMemory}
    {ptr len : Int32} {k : String → Int32 × HostState Db MemoryStore}
    (h : ∀ text, CallEffect blake3 s none (k text).2) :
    CallEffect blake3 s none (stateAfter s (do
      let (n, s') ← withGuestStr capability memory ptr len s k
      pure (some n, s'))) := by
  rw [stateAfter_map, AgentRuntime.withGuestStr, stateAfter_withGuestBytes]
  cases guestBytes? s.permissions capability memory ptr len with
  | none => exact CallEffect.refl blake3 s
  | some bytes =>
      simp only
      cases fromUtf8 bytes with
      | none => exact CallEffect.refl blake3 s
      | some text => exact h text

theorem CallEffect.hostCall (hput : x.put = MemoryStore.put blake3) (hget : x.get = MemoryStore.get)
    (memory : Option LinearMemory) : ∀ call : HostCall,
      CallEffect blake3 s ((AgentCall.host call).blob? s.permissions memory)
        (stateAfter s (hostCall x memory s call))
  | .log _ _ _ _ => CallEffect.recordPair fun _ _ => CallEffect.of_store_eq rfl rfl
  | .emitEvent _ _ _ _ => CallEffect.recordPair fun _ _ => CallEffect.of_store_eq rfl rfl
  | .dbExecute _ _ => CallEffect.withGuestStr fun sql => by
      rcases x.execute sql s.db with ⟨n | err, db⟩ <;> exact CallEffect.of_store_eq rfl rfl
  | .dbQuery _ _ => CallEffect.withGuestStr fun sql => by
      rcases x.queryCount sql s.db with ⟨n | err, db⟩ <;> exact CallEffect.of_store_eq rfl rfl
  | .getConfig _ _ => CallEffect.withGuestStr fun key => by
      cases s.config.get? key <;> exact CallEffect.refl blake3 s
  | .storageGet _ _ => CallEffect.withGuestStr fun cid => by
      cases hstore : s.store with
      | none => exact CallEffect.refl blake3 s
      | some m =>
          -- reading leaves the store
          simp only [hget, MemoryStore.get]
          cases m.data.get? cid <;> exact CallEffect.of_store_eq rfl hstore.symm
  | .storagePut dataPtr dataLen => by
      rw [AgentRuntime.hostCall, stateAfter_map, storagePut, stateAfter_withGuestBytes]
      simp only [AgentCall.blob?]
      cases guestBytes? s.permissions (some .storageWrite) memory dataPtr dataLen with
      | none => exact CallEffect.refl blake3 s
      | some bytes =>
          simp only [hput]
          cases hstore : s.store with
          | none => exact { permissions := rfl, store := by simp [copyToShared, hstore] }
          | some m =>
              exact
                { permissions := rfl
                  store := by simp [copyToShared, hstore, putBlob, MemoryStore.put] }

theorem CallEffect.agentCall (hput : x.put = MemoryStore.put blake3)
    (hget : x.get = MemoryStore.get) (memory : Option LinearMemory) (millis : ℕ)
    (call : AgentCall) :
    CallEffect blake3 s (call.blob? s.permissions memory)
      (stateAfter s (agentCall x memory millis s call)) := by
  cases call with
  | currentTime => exact CallEffect.refl blake3 s
  | networkSend _ _ _ _ => exact CallEffect.refl blake3 s
  | dhtPut _ _ _ _ => exact CallEffect.refl blake3 s
  | dhtGet _ _ => exact CallEffect.refl blake3 s
  | host call =>
      have heffect := CallEffect.hostCall x (s := s) hput hget memory call
      rw [AgentRuntime.agentCall]
      rcases hrun : AgentRuntime.hostCall x memory s call with ⟨⟨_ | n, t⟩⟩ | why <;>
        rw [hrun] at heffect <;> exact heffect

end Effect

/-! ## A host and its agents -/

structure LoadedAgent (K : Type) where
  manifest : AgentManifest
  dbPath : String
  /-- The content store that it was given, if any. -/
  storeId : Option K

/-- What a module may import depends on the tier in its manifest. -/
def LoadedAgent.linked {K : Type} (agent : LoadedAgent K) (call : AgentCall) : Bool :=
  !call.tier1 || agent.manifest.tier == 1

/-- The part of a host state that is nobody else's. -/
structure OwnState where
  permissions : PermissionSet
  config : SortedMap String String
  logs : List LogEntry
  events : List Event
  sharedBuffer : List UInt8

def HostState.own {Db St : Type} (s : HostState Db St) : OwnState :=
  { permissions := s.permissions
    config := s.config
    logs := s.logs
    events := s.events
    sharedBuffer := s.sharedBuffer }

/-- A host with agents `A` and stores `K`.  SQL reaches all of the disk: a statement can attach the
file of another agent. -/
structure AgentHost (A K Db : Type) where
  agents : A → LoadedAgent K
  own : A → OwnState
  disk : Db
  stores : K → MemoryStore
  /-- What the calls of each agent have returned so far. -/
  results : A → List (Outcome HostResult)

/-- What an agent computes: the call it makes after these results, if it has not come to an end. -/
abbrev Program := List (Outcome HostResult) → Option (Option LinearMemory × AgentCall)

namespace AgentHost

variable {A K Db : Type}

def hostState (h : AgentHost A K Db) (a : A) : HostState Db MemoryStore :=
  { db := h.disk
    permissions := (h.own a).permissions
    config := (h.own a).config
    logs := (h.own a).logs
    events := (h.own a).events
    sharedBuffer := (h.own a).sharedBuffer
    store := (h.agents a).storeId.map h.stores }

@[simp] theorem permissions_hostState (h : AgentHost A K Db) (a : A) :
    (h.hostState a).permissions = (h.own a).permissions :=
  rfl

def nextCall (programs : A → Program) (h : AgentHost A K Db) (a : A) :
    Option (Option LinearMemory × AgentCall) :=
  (programs a (h.results a)).filter fun next => (h.agents a).linked next.2

def blob? (programs : A → Program) (h : AgentHost A K Db) (a : A) : Option (List UInt8) :=
  (h.nextCall programs a).bind fun next => next.2.blob? (h.own a).permissions next.1

/-- The agent is linked with the storage functions, and may read a store with them. -/
def MayRead (h : AgentHost A K Db) (a : A) : Prop :=
  (h.agents a).manifest.tier = 1 ∧ (h.own a).permissions.has .storageRead = true

def MayStore (h : AgentHost A K Db) (a : A) : Prop :=
  (h.agents a).manifest.tier = 1 ∧ (h.own a).permissions.has .storageWrite = true

theorem nextCall_linked {programs : A → Program} {h : AgentHost A K Db} {a : A}
    {memory : Option LinearMemory} {call : AgentCall}
    (hnext : h.nextCall programs a = some (memory, call)) : (h.agents a).linked call = true :=
  (Option.filter_eq_some_iff.1 hnext).2

/-- Only calls that are linked for every agent are made by one that is not of tier 1. -/
theorem tier1_of_linked {agent : LoadedAgent K} {call : AgentCall}
    (hlinked : agent.linked call = true) (htier : agent.manifest.tier ≠ 1) :
    call.tier1 = false := by
  simpa [LoadedAgent.linked, htier] using hlinked

theorem blob?_eq {programs : A → Program} {h : AgentHost A K Db} {a : A}
    {memory : Option LinearMemory} {call : AgentCall}
    (hnext : h.nextCall programs a = some (memory, call)) :
    h.blob? programs a = call.blob? (h.own a).permissions memory := by
  rw [blob?, hnext, Option.bind_some]

theorem mayStore_of_blob? {programs : A → Program} {h : AgentHost A K Db} {a : A}
    {bytes : List UInt8} (hblob : h.blob? programs a = some bytes) : h.MayStore a := by
  rcases Option.bind_eq_some_iff.1 hblob with ⟨⟨memory, call⟩, hnext, hbytes⟩
  have hlinked := nextCall_linked hnext
  cases call with
  | host call =>
      cases call with
      | storagePut dataPtr dataLen =>
          refine ⟨?_, ?_⟩
          · by_contra htier
            exact absurd (tier1_of_linked hlinked htier) (by simp [AgentCall.tier1])
          · by_contra hdenied
            rw [AgentCall.blob?, guestBytes?_eq_none (Bool.eq_false_iff.2 hdenied)] at hbytes
            cases hbytes
      | _ => cases hbytes
  | _ => cases hbytes

structure StoredBlob (A K : Type) where
  agent : A
  storeId : K
  bytes : List UInt8

/-- Under a CID is the last blob with it. -/
theorem get?_puts (blake3 : List UInt8 → Bytes 32) (cid : String) (blobs : List (StoredBlob A K)) :
    ((blobs.foldl (fun m b => (MemoryStore.put blake3 b.bytes m).2) MemoryStore.new).data.get?
      cid) = ((blobs.filter fun b => MemoryStore.cidOf blake3 b.bytes = cid).getLast?).map
        StoredBlob.bytes := by
  induction blobs using List.reverseRecOn with
  | nil => rfl
  | append_singleton blobs b ih =>
      rw [List.foldl_append, List.foldl_cons, List.foldl_nil, MemoryStore.put,
        SortedMap.get?_insert, ih]
      by_cases heq : MemoryStore.cidOf blake3 b.bytes = cid
      · simp [heq]
      · simp [heq, Ne.symm heq]

/-- On every connection, blobs are kept in memory stores. -/
structure UsesMemoryStore (blake3 : List UInt8 → Bytes 32)
    (x : String → HostPackages Db MemoryStore) : Prop where
  put : ∀ path, (x path).put = MemoryStore.put blake3
  get : ∀ path, (x path).get = MemoryStore.get

/-- What a call in an agent's turn does. -/
theorem UsesMemoryStore.effect {x : String → HostPackages Db MemoryStore}
    {blake3 : List UInt8 → Bytes 32} (hx : UsesMemoryStore blake3 x) (h : AgentHost A K Db) (a : A)
    (memory : Option LinearMemory) (millis : ℕ) (call : AgentCall) :
    CallEffect blake3 (h.hostState a) (call.blob? (h.own a).permissions memory)
      (stateAfter (h.hostState a)
        (agentCall (x (h.agents a).dbPath) memory millis (h.hostState a) call)) :=
  CallEffect.agentCall _ (hx.put _) (hx.get _) memory millis call

/-! ## Turns -/

variable [DecidableEq A] [DecidableEq K]

def putBack (h : AgentHost A K Db) (a : A) (s : HostState Db MemoryStore)
    (result : Outcome HostResult) : AgentHost A K Db :=
  { agents := h.agents
    own := Function.update h.own a s.own
    disk := s.db
    stores :=
      match (h.agents a).storeId, s.store with
      | some k, some m => Function.update h.stores k m
      | _, _ => h.stores
    results := Function.update h.results a (h.results a ++ [result]) }

/-- An agent takes its turn, at a time of the system clock.  The packages are those of a connection
opened at a path. -/
def turn (x : String → HostPackages Db MemoryStore) (programs : A → Program)
    (h : AgentHost A K Db) (t : A × ℕ) : AgentHost A K Db :=
  match h.nextCall programs t.1 with
  | none => h
  | some (memory, call) =>
      let s := h.hostState t.1
      let out := agentCall (x (h.agents t.1).dbPath) memory t.2 s call
      h.putBack t.1 (stateAfter s out) (resultOf out)

def turns (x : String → HostPackages Db MemoryStore) (programs : A → Program)
    (h : AgentHost A K Db) (schedule : List (A × ℕ)) : AgentHost A K Db :=
  schedule.foldl (turn x programs) h

section Turn

variable {x : String → HostPackages Db MemoryStore} {blake3 : List UInt8 → Bytes 32}
  {programs : A → Program} {h : AgentHost A K Db} {t : A × ℕ}

theorem agents_turn : (h.turn x programs t).agents = h.agents := by
  rw [turn]
  cases h.nextCall programs t.1 <;> rfl

/-- A turn leaves the capabilities of every agent. -/
theorem permissions_turn (hx : UsesMemoryStore blake3 x) (b : A) :
    ((h.turn x programs t).own b).permissions = (h.own b).permissions := by
  rw [turn]
  cases hnext : h.nextCall programs t.1 with
  | none => rfl
  | some next =>
      rcases next with ⟨memory, call⟩
      by_cases heq : b = t.1
      · subst heq
        simpa [putBack, HostState.own] using (hx.effect h t.1 memory t.2 call).permissions
      · simp [putBack, Function.update_of_ne heq]

/-- A turn puts its blob into the store of its agent, and leaves all others. -/
theorem stores_turn (hx : UsesMemoryStore blake3 x) (k : K) : (h.turn x programs t).stores k =
      if (h.agents t.1).storeId = some k then putBlob blake3 (h.stores k) (h.blob? programs t.1)
      else h.stores k := by
  rw [turn, blob?]
  cases hnext : h.nextCall programs t.1 with
  | none => simp [putBlob]
  | some next =>
      rcases next with ⟨memory, call⟩
      have hstore := (hx.effect h t.1 memory t.2 call).store
      have hbefore : (h.hostState t.1).store = (h.agents t.1).storeId.map h.stores := rfl
      rw [hbefore] at hstore
      cases hid : (h.agents t.1).storeId with
      | none => simp [putBack, hid]
      | some own =>
          rw [hid] at hstore
          simp only [Option.map_some] at hstore
          simp only [putBack, hid, hstore, Option.bind_some, Option.some.injEq]
          by_cases heq : own = k
          · subst heq
            simp
          · rw [if_neg heq, Function.update_of_ne (Ne.symm heq)]

theorem static_turns (hx : UsesMemoryStore blake3 x) (h : AgentHost A K Db)
    (schedule : List (A × ℕ)) :
    (h.turns x programs schedule).agents = h.agents ∧
      ∀ b, ((h.turns x programs schedule).own b).permissions = (h.own b).permissions := by
  induction schedule generalizing h with
  | nil => exact ⟨rfl, fun _ => rfl⟩
  | cons t schedule ih =>
      rcases ih (h.turn x programs t) with ⟨hagents, hpermissions⟩
      exact ⟨hagents.trans agents_turn,
        fun b => (hpermissions b).trans (permissions_turn hx b)⟩

/-- Nothing that is an agent's own changes in the turn of another. -/
theorem turn_other {a : A} (hother : t.1 ≠ a) :
    (h.turn x programs t).own a = h.own a ∧
      (h.turn x programs t).results a = h.results a := by
  rw [turn]
  cases h.nextCall programs t.1 with
  | none => exact ⟨rfl, rfl⟩
  | some next =>
      exact ⟨Function.update_of_ne hother.symm _ _, Function.update_of_ne hother.symm _ _⟩

end Turn

/-! ## Blobs of many agents -/

def storedBlobs (x : String → HostPackages Db MemoryStore) (programs : A → Program) :
    AgentHost A K Db → List (A × ℕ) → List (StoredBlob A K)
  | _, [] => []
  | h, t :: schedule =>
      let rest := storedBlobs x programs (h.turn x programs t) schedule
      match (h.agents t.1).storeId, h.blob? programs t.1 with
      | some k, some bytes => { agent := t.1, storeId := k, bytes := bytes } :: rest
      | _, _ => rest

section Blobs

variable {x : String → HostPackages Db MemoryStore} {blake3 : List UInt8 → Bytes 32}
  {programs : A → Program}

theorem storedBlobs_cons {h : AgentHost A K Db} {a : A} {k : K} {bytes : List UInt8}
    (hid : (h.agents a).storeId = some k) (hblob : h.blob? programs a = some bytes) (millis : ℕ)
    (schedule : List (A × ℕ)) :
    storedBlobs x programs h ((a, millis) :: schedule) =
      { agent := a, storeId := k, bytes := bytes } ::
        storedBlobs x programs (h.turn x programs (a, millis)) schedule := by
  simp only [storedBlobs, hid, hblob]

/-- A store holds what it held before and was put into it since. -/
theorem stores_turns (hx : UsesMemoryStore blake3 x) (k : K) :
    ∀ (schedule : List (A × ℕ)) (h : AgentHost A K Db),
      (h.turns x programs schedule).stores k =
        ((storedBlobs x programs h schedule).filter fun b => b.storeId = k).foldl
          (fun m b => (MemoryStore.put blake3 b.bytes m).2) (h.stores k)
  | [], h => rfl
  | t :: schedule, h => by
      have hrest := stores_turns hx k schedule (h.turn x programs t)
      rw [stores_turn hx] at hrest
      rw [turns, List.foldl_cons]
      refine hrest.trans ?_
      rw [storedBlobs]
      cases hid : (h.agents t.1).storeId with
      | none => simp
      | some own =>
          cases hblob : h.blob? programs t.1 with
          | none => simp [putBlob]
          | some bytes =>
              by_cases heq : own = k
              · simp [heq, putBlob]
              · simp [heq]

/-- Only agents that may store blobs, and have the store, put blobs into it. -/
theorem mayStore_of_storedBlobs (hx : UsesMemoryStore blake3 x) {b : StoredBlob A K} :
    ∀ {schedule : List (A × ℕ)} {h : AgentHost A K Db},
      b ∈ storedBlobs x programs h schedule →
        h.MayStore b.agent ∧ (h.agents b.agent).storeId = some b.storeId := by
  intro schedule
  induction schedule with
  | nil =>
      intro h hmem
      cases hmem
  | cons t schedule ih =>
      intro h hmem
      have hlater : b ∈ storedBlobs x programs (h.turn x programs t) schedule →
          h.MayStore b.agent ∧ (h.agents b.agent).storeId = some b.storeId := by
        intro hrest
        have hafter := ih hrest
        rw [MayStore, agents_turn, permissions_turn hx] at hafter
        exact hafter
      rw [storedBlobs] at hmem
      cases hid : (h.agents t.1).storeId with
      | none => exact hlater (by simpa [hid] using hmem)
      | some own =>
          cases hblob : h.blob? programs t.1 with
          | none => exact hlater (by simpa [hid, hblob] using hmem)
          | some bytes =>
              simp only [hid, hblob] at hmem
              rcases List.mem_cons.1 hmem with rfl | hrest
              · exact ⟨mayStore_of_blob? hblob, hid⟩
              · exact hlater hrest

end Blobs

section Shared

variable (blake3 : List UInt8 → Bytes 32)
  (execute queryCount : String → String → Db → Except String ℕ × Db) (programs : A → Program)
  {h : AgentHost A K Db}

/-- In every schedule of a host whose stores were empty: blobs are put into a store only by agents
that have it and may store there; and whoever may read it gets, under a CID, the last blob that any
agent put there with this CID, cut to the shared buffer, and `-1` exactly when there was none. -/
theorem blobs_shared (hempty : ∀ k, h.stores k = MemoryStore.new) (schedule : List (A × ℕ)) :
    let x := fun path => MemoryStore.packages blake3 (execute path) (queryCount path)
    let after := h.turns x programs schedule
    let blobs := storedBlobs x programs h schedule
    (∀ b ∈ blobs, h.MayStore b.agent ∧ (h.agents b.agent).storeId = some b.storeId) ∧
    ∀ a k, h.MayRead a → (h.agents a).storeId = some k → ∀ data cidPtr cidLen cid,
      guestSlice data cidPtr cidLen = .ok (utf8 cid) →
        let s := after.hostState a
        let found := (blobs.filter fun b =>
          b.storeId = k ∧ MemoryStore.cidOf blake3 b.bytes = cid).getLast?
        storageGet (x (h.agents a).dbPath) (some data) cidPtr cidLen s =
          .ok (match found with
            | none => (-1, s)
            | some b => (Int32.ofNat (copyToShared s b.bytes).1, (copyToShared s b.bytes).2)) := by
  intro x after blobs
  have hx : UsesMemoryStore blake3 x := { put := fun _ => rfl, get := fun _ => rfl }
  refine ⟨fun b hb => mayStore_of_storedBlobs hx hb, ?_⟩
  intro a k hread hid data cidPtr cidLen cid hslice s found
  have hstatic : after.agents = h.agents ∧
      ∀ c, (after.own c).permissions = (h.own c).permissions := static_turns hx h schedule
  rcases hstatic with ⟨hagents, hpermissions⟩
  have hallowed : denied s (some .storageRead) = false := by
    refine denied_eq_false_of_has ?_
    rw [permissions_hostState, hpermissions]
    exact hread.2
  have hstore : s.store = some (after.stores k) := by
    change (after.agents a).storeId.map after.stores = _
    rw [hagents, hid, Option.map_some]
  have hfound : (after.stores k).data.get? cid = found.map StoredBlob.bytes := by
    rw [stores_turns hx, hempty, get?_puts, List.filter_filter]
    simp only [found, Bool.decide_and, Bool.and_comm]
    rfl
  rw [storageGet, withGuestStr, withGuestBytes_eq hallowed hslice]
  simp only [fromUtf8_utf8, hstore]
  rw [hx.get, MemoryStore.get, hfound]
  have hsame : ({ s with store := some (after.stores k) } : HostState Db MemoryStore) = s := by
    rw [← hstore]
  cases found with
  | none => simp [hsame]
  | some b => simp [hsame]

end Shared

end AgentHost

/-! ## Two agents -/

def infrastructureAgent (cid : String) : AgentManifest :=
  { userAgent cid with tier := 1 }

def storingAgents : AgentHost Bool Unit Unit :=
  { agents := fun a =>
      { manifest := infrastructureAgent (bif a then "bafy1" else "bafy2")
        dbPath := dbPath "/db" (infrastructureAgent (bif a then "bafy1" else "bafy2"))
        storeId := some () }
    own := fun _ =>
      (HostState.new () { capabilities := {.storageRead, .storageWrite} } :
        HostState Unit Unit).own
    disk := ()
    stores := fun _ => MemoryStore.new
    results := fun _ => [] }

theorem permissions_storingAgents (a : Bool) :
    (storingAgents.own a).permissions = { capabilities := {.storageRead, .storageWrite} } :=
  rfl

/-- One of the agents stores "hello world"; the other does nothing by itself. -/
def storeHello : Bool → Program := fun a results =>
  if a ∧ results.length = 0 then some (some helloPut.memory, .host (.storagePut 0 11)) else none

theorem storedBlobs_hello :
    AgentHost.storedBlobs (fun _ => storagePackages) storeHello storingAgents [(true, 0)] =
      [{ agent := true, storeId := (), bytes := utf8 "hello world" }] := by
  have hslice : guestSlice helloPut.memory 0 11 = .ok (utf8 "hello world") :=
    guestSlice_front rfl (by decide)
  have hpermitted : (storingAgents.own true).permissions.has .storageWrite = true := by
    rw [permissions_storingAgents]
    decide
  have hblob : storingAgents.blob? storeHello true = some (utf8 "hello world") := by
    have hnext : storingAgents.nextCall storeHello true =
        some (some helloPut.memory, .host (.storagePut 0 11)) := by
      simp [AgentHost.nextCall, storeHello, storingAgents, LoadedAgent.linked,
        infrastructureAgent]
    rw [AgentHost.blob?_eq hnext, AgentCall.blob?]
    exact guestBytes?_eq_some hpermitted hslice
  have hid : (storingAgents.agents true).storeId = some () := rfl
  rw [AgentHost.storedBlobs_cons hid hblob, AgentHost.storedBlobs]

/-- One agent stores a text, and the other gets it. -/
theorem blobs_shared_hello :
    ∃ s, storageGet storagePackages (some helloCid) 0 64
        ((storingAgents.turns (fun _ => storagePackages) storeHello [(true, 0)]).hostState false) =
          .ok (11, s) ∧
      s.sharedBuffer.take 11 = utf8 "hello world" := by
  have hempty : ∀ k, storingAgents.stores k = MemoryStore.new := fun _ => rfl
  have hshared := (AgentHost.blobs_shared helloBlake3 (fun _ _ db => (.ok 0, db))
    (fun _ _ db => (.ok 0, db)) storeHello hempty [(true, 0)]).2 false ()
    ⟨rfl, by rw [permissions_storingAgents]; decide⟩ rfl helloCid 0 64 _
    (guestSlice_front rfl (by
      rw [length_utf8_cidOf]
      decide))
  have hblobs := storedBlobs_hello
  rw [storagePackages] at hblobs
  rw [hblobs] at hshared
  let s := (storingAgents.turns (fun _ => storagePackages) storeHello [(true, 0)]).hostState false
  -- the turn of the other agent leaves the buffer
  have hown : (storingAgents.turns (fun _ => storagePackages) storeHello [(true, 0)]).own false =
      storingAgents.own false := by
    rw [AgentHost.turns, List.foldl_cons, List.foldl_nil]
    exact (AgentHost.turn_other (by decide)).1
  have hlength : s.sharedBuffer.length = 65536 := by
    change ((storingAgents.turns (fun _ => storagePackages) storeHello [(true, 0)]).own
      false).sharedBuffer.length = 65536
    rw [hown]
    exact List.length_replicate
  have hmin : min (utf8 "hello world").length s.sharedBuffer.length = 11 := by
    rw [hlength]
    decide
  refine ⟨(copyToShared s (utf8 "hello world")).2, ?_, ?_⟩
  · refine hshared.trans ?_
    simp only [and_self, decide_true, List.filter_cons_of_pos, List.filter_nil,
      List.getLast?_singleton]
    exact congrArg (fun n => Outcome.ok (Int32.ofNat n, (copyToShared s (utf8 "hello world")).2))
      hmin
  · have hfront := take_copyToShared s (utf8 "hello world")
    rw [hmin] at hfront
    rw [hfront]
    decide

end AgentRuntime
end CraftecCore
