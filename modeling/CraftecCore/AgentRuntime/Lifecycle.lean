import CraftecCore.AgentRuntime.HostFns
import CraftecCore.AgentRuntime.Sandbox
import CraftecCore.Library.PathText

/-!
# Lifecycle — whose database an agent opens

The database of an agent is named after the CID of its manifest, and nothing looks at that text.  It
can be absolute, go back behind the directory, or be another spelling of the CID of another agent.
Two agents are isolated, whatever the directory, exactly when both CIDs stay below the directory and
lead to different places there.

Paths are resolved without symbolic links.  SQLite, the host state and the linker are parameters.
-/

namespace CraftecCore
namespace AgentRuntime

open PathText WasmMemory

/-! ## The source functions -/

structure AgentManifest where
  /-- Content ID of the WASM binary. -/
  cid : String
  name : String
  version : String
  requiredCapabilities : List Capability
  /-- 1 = whitelisted infrastructure, 2 = sandboxed user agent. -/
  tier : UInt8

structure AgentInstance (T : Type) where
  manifest : AgentManifest
  store : Store T
  inst : Instance
  dbPath : String

inductive LifecycleError (E D : Type)
  | sandbox (err : SandboxError E)
  | database (err : D)
  | wasm (err : E)
  | noEntryPoint

/-- What loading calls: the engine, SQLite with errors `D` and connections `Db`, the host state and
the registration of the host functions. -/
structure LoadPackages (F V E D Db T : Type) where
  wt : Wasmtime F V E
  openDb : String → Except D Db
  createObservabilityTables : Db → Except D Unit
  hostState : Db → PermissionSet → T
  registerHostFns : Except E (String → String → Option (Extern V))
  registerTier1HostFns :
    (String → String → Option (Extern V)) → Except E (String → String → Option (Extern V))

section Load

variable {F V E D Db T : Type} (pk : LoadPackages F V E D Db T)

def loadOpened (sandbox : WasmSandbox) (wasmBytes : List UInt8) (manifest : AgentManifest)
    (permissions : PermissionSet) (dbPath : String) :
    Except (LifecycleError E D) (AgentInstance T) := do
  let db ← (pk.openDb dbPath).mapError .database
  (pk.createObservabilityTables db).mapError .database
  let hostState := pk.hostState db permissions
  let store ← (sandbox.createStore pk.wt hostState).mapError .sandbox
  let linker ← pk.registerHostFns.mapError .wasm
  -- tier 1 agents get extra host functions
  let linker ←
    if manifest.tier = 1 then (pk.registerTier1HostFns linker).mapError .wasm else pure linker
  let inst ← (sandbox.instantiate pk.wt wasmBytes linker).mapError .sandbox
  pure
    { manifest := manifest
      store := store
      inst := inst
      dbPath := dbPath }

/-- Each agent gets its own SQLite file. -/
def dbPath (dbDir : String) (manifest : AgentManifest) : String :=
  join dbDir (manifest.cid ++ ".sqlite")

/-- Load an agent: the paths of the databases that are opened, and the result. -/
def loadAgent (wasmBytes : List UInt8) (manifest : AgentManifest) (permissions : PermissionSet)
    (dbDir : String) (sandboxConfig : Option SandboxConfig) :
    List String × Except (LifecycleError E D) (AgentInstance T) :=
  match WasmSandbox.new pk.wt (sandboxConfig.getD .default) with
  | .error err => ([], .error (.sandbox err))
  | .ok sandbox =>
      ([dbPath dbDir manifest],
        loadOpened pk sandbox wasmBytes manifest permissions (dbPath dbDir manifest))

/-! ## The file of a manifest -/

/-- The file name ends in a component of its own. -/
theorem components_cid (cid : String) : ∃ names last, components (cid ++ ".sqlite") =
    names ++ [last] ∧ last ≠ [] ∧ last ≠ ['.'] ∧ last ≠ ['.', '.'] := by
  have hback : '/' ∉ ".sqlite".toList := by decide
  rcases components_append hback cid with ⟨names, last, heq⟩
  have hlen : 7 ≤ (last ++ ".sqlite".toList).length := by
    rw [List.length_append]
    exact Nat.le_add_left 7 last.length
  refine ⟨names, last ++ ".sqlite".toList, heq, ?_, ?_, ?_⟩
  · intro h
    exact absurd (h ▸ hlen) (by decide)
  · intro h
    exact absurd (h ▸ hlen) (by decide)
  · intro h
    exact absurd (h ▸ hlen) (by decide)

/-- The databases of two manifests are different files inside the directory. -/
def Isolated (cwd : List Name) (dbDir path₁ path₂ : String) : Prop :=
  Inside (resolve cwd dbDir) (resolve cwd path₁) ∧ Inside (resolve cwd dbDir) (resolve cwd path₂) ∧
    resolve cwd path₁ ≠ resolve cwd path₂

theorem isolated_iff (m₁ m₂ : AgentManifest) :
    (∀ cwd dbDir, Isolated cwd dbDir (dbPath dbDir m₁) (dbPath dbDir m₂)) ↔
      ∃ rest₁ rest₂, relative (m₁.cid ++ ".sqlite") = some rest₁ ∧
        relative (m₂.cid ++ ".sqlite") = some rest₂ ∧ rest₁ ≠ rest₂ := by
  constructor
  · intro hall
    rcases (inside_join_iff (components_cid m₁.cid)).1 fun cwd dir => (hall cwd dir).1 with
      ⟨rest₁, h₁⟩
    rcases (inside_join_iff (components_cid m₂.cid)).1 fun cwd dir => (hall cwd dir).2.1 with
      ⟨rest₂, h₂⟩
    refine ⟨rest₁, rest₂, h₁, h₂, ?_⟩
    intro heq
    apply (hall [] "").2.2
    rw [dbPath, dbPath, resolve_join_of_relative h₁, resolve_join_of_relative h₂, heq]
  · rintro ⟨rest₁, rest₂, h₁, h₂, hne⟩ cwd dbDir
    refine ⟨(inside_join_iff (components_cid m₁.cid)).2 ⟨rest₁, h₁⟩ cwd dbDir,
      (inside_join_iff (components_cid m₂.cid)).2 ⟨rest₂, h₂⟩ cwd dbDir, ?_⟩
    rw [dbPath, dbPath, resolve_join_of_relative h₁, resolve_join_of_relative h₂]
    exact fun heq => hne (List.append_cancel_left heq)

/-- A CID without a slash is a file name. -/
theorem relative_of_no_slash {cid : String} (h : '/' ∉ cid.toList) :
    relative (cid ++ ".sqlite") = some [(cid ++ ".sqlite").toList] := by
  have hname : '/' ∉ (cid ++ ".sqlite").toList := by
    rw [String.toList_append, List.mem_append, not_or]
    exact ⟨h, by decide⟩
  have hcomponents : components (cid ++ ".sqlite") = [(cid ++ ".sqlite").toList] :=
    List.splitOn_eq_singleton hname
  have habs : isAbsolute (cid ++ ".sqlite") = false := by
    rw [isAbsolute, decide_eq_false_iff_not]
    intro hhead
    exact hname (List.mem_of_mem_head? hhead)
  rcases components_cid cid with ⟨names, last, heq, hempty, hdot, hback⟩
  rw [hcomponents] at heq
  have hlast : names = [] ∧ (cid ++ ".sqlite").toList = last := by
    have := List.append_eq_singleton_iff.1 heq.symm
    simpa [eq_comm] using this
  rw [relative, habs, if_neg (by decide), hcomponents, hlast.2]
  simp [below, hempty, hdot, hback]

/-- Agents whose CIDs have no slash are isolated. -/
theorem isolated_of_no_slash {m₁ m₂ : AgentManifest} (h₁ : '/' ∉ m₁.cid.toList)
    (h₂ : '/' ∉ m₂.cid.toList) (hne : m₁.cid ≠ m₂.cid) (cwd : List Name) (dbDir : String) :
    Isolated cwd dbDir (dbPath dbDir m₁) (dbPath dbDir m₂) := by
  refine (isolated_iff m₁ m₂).2 ⟨_, _, relative_of_no_slash h₁, relative_of_no_slash h₂, ?_⟩
    cwd dbDir
  intro heq
  apply hne
  have htext := String.toList_inj.1 (List.singleton_injective heq)
  simpa using htext

/-- The databases that two agents open are isolated, in every directory, exactly when both CIDs are
relative paths that never go back behind their start, and lead to different places. -/
theorem databases_isolated_iff (hengine : pk.wt.newEngine = .ok ()) (wasm₁ wasm₂ : List UInt8)
    (m₁ m₂ : AgentManifest) (permissions₁ permissions₂ : PermissionSet)
    (config₁ config₂ : Option SandboxConfig) :
    (∀ cwd dbDir, ∀ path₁ ∈ (loadAgent pk wasm₁ m₁ permissions₁ dbDir config₁).1,
      ∀ path₂ ∈ (loadAgent pk wasm₂ m₂ permissions₂ dbDir config₂).1,
        Isolated cwd dbDir path₁ path₂) ↔
      ∃ rest₁ rest₂, relative (m₁.cid ++ ".sqlite") = some rest₁ ∧
        relative (m₂.cid ++ ".sqlite") = some rest₂ ∧ rest₁ ≠ rest₂ := by
  have hopened : ∀ wasmBytes manifest permissions dbDir config,
      (loadAgent pk wasmBytes manifest permissions dbDir config).1 = [dbPath dbDir manifest] := by
    intro wasmBytes manifest permissions dbDir config
    simp [loadAgent, WasmSandbox.new, hengine]
  rw [← isolated_iff]
  simp only [hopened, List.mem_singleton, forall_eq]

end Load

/-- Packages on which everything succeeds, and the host keeps the path of its database. -/
def plainLoader : LoadPackages Unit Unit String String String String :=
  { wt := threeModules
    openDb := .ok
    createObservabilityTables := fun _ => .ok ()
    hostState := fun db _ => db
    registerHostFns := .ok fun _ _ => none
    registerTier1HostFns := .ok }

def userAgent (cid : String) : AgentManifest :=
  { cid := cid
    name := "agent"
    version := "0.1.0"
    requiredCapabilities := []
    tier := 2 }

theorem databases_isolated_iff_bafy :
    let opened := fun cid =>
      (loadAgent plainLoader boundedWasm (userAgent cid) ⟨∅⟩ "/db" none).1
    opened "bafya" = ["/db/bafya.sqlite"] ∧ opened "bafyb" = ["/db/bafyb.sqlite"] ∧
      Isolated [] "/db" "/db/bafya.sqlite" "/db/bafyb.sqlite" := by
  intro opened
  have hfirst : opened "bafya" = ["/db/bafya.sqlite"] := by decide +kernel
  have hsecond : opened "bafyb" = ["/db/bafyb.sqlite"] := by decide +kernel
  have hall := (databases_isolated_iff plainLoader rfl boundedWasm boundedWasm
    (userAgent "bafya") (userAgent "bafyb") ⟨∅⟩ ⟨∅⟩ none none).2 ⟨_, _,
      relative_of_no_slash (by decide), relative_of_no_slash (by decide), by decide⟩
  refine ⟨hfirst, hsecond, hall [] "/db" _ ?_ _ ?_⟩
  · show "/db/bafya.sqlite" ∈ opened "bafya"
    rw [hfirst]
    exact List.mem_singleton_self _
  · show "/db/bafyb.sqlite" ∈ opened "bafyb"
    rw [hsecond]
    exact List.mem_singleton_self _

/-- Two spellings of one CID open one file; others open a file beside the directory, or anywhere. -/
theorem cids_not_isolated :
    let opened := fun cid =>
      (loadAgent plainLoader boundedWasm (userAgent cid) ⟨∅⟩ "/db" none).1.map (resolve [])
    opened "a" = [["db".toList, "a.sqlite".toList]] ∧ opened "./a" = opened "a" ∧
      opened "../a" = [["a.sqlite".toList]] ∧
      opened "/etc/a" = [["etc".toList, "a.sqlite".toList]] ∧
      ¬ Inside (resolve [] "/db") ["a.sqlite".toList] := by
  refine ⟨by decide +kernel, by decide +kernel, by decide +kernel, by decide +kernel, ?_⟩
  rintro ⟨rest, -, heq⟩
  have hdir : resolve [] "/db" = ["db".toList] := by decide +kernel
  rw [hdir] at heq
  exact absurd (List.cons.inj heq).1 (by decide)

end AgentRuntime
end CraftecCore
