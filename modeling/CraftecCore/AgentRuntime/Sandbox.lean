import CraftecCore.Library.WasmMemory

/-!
# Sandbox — which memories the memory limit covers

The sandbox compares the limit with the minimum of the memories that a module imports.  A memory
that the module defines itself is not looked at, nor is the maximum of any memory, and the store has
no limiter.  So the limit holds in every run exactly when it happens to hold for the reach of every
memory that the module defines and of every memory that the linker supplies.

What belongs to the WASM engine is a parameter: compiling, matching the other kinds of imports, and
the start function.  A start function is guest code, so what it grows belongs to the runs.
-/

namespace CraftecCore
namespace AgentRuntime

open WasmMemory

/-! ## The source functions -/

structure SandboxConfig where
  /-- Maximum memory in bytes. -/
  maxMemoryBytes : ℕ
  /-- Fuel limit for instruction metering. -/
  fuelLimit : UInt64

def SandboxConfig.default : SandboxConfig :=
  { maxMemoryBytes := 64 * 1024 * 1024
    fuelLimit := 1000000 }

/-- What is used of the WASM engine; `F` and `V` are the types and values of the imports that are
not memories, `E` its errors. -/
structure Wasmtime (F V E : Type) where
  newEngine : Except E Unit
  /-- The error of `set_fuel` on an engine that does not consume fuel. -/
  fuelNotConfigured : E
  compile : List UInt8 → Except E (Module F)
  otherMatches : F → V → Bool
  /-- The error of a missing import, or of one of another type. -/
  unlinked : E
  start : Module F → Except E Unit

structure Engine where
  consumeFuel : Bool

structure WasmSandbox where
  engine : Engine
  config : SandboxConfig

inductive SandboxError (E : Type)
  | wasm (err : E)
  | resourceLimit (msg : String)

/-- A store; nothing in the source sets its limiter. -/
structure Store (T : Type) where
  data : T
  fuel : UInt64
  epochDeadline : ℕ
  limiter : Option ℕ

structure Instance where
  memories : List Memory

section Sandbox

variable {F V E : Type} (wt : Wasmtime F V E)

namespace WasmSandbox

def new (config : SandboxConfig) : Except (SandboxError E) WasmSandbox :=
  match wt.newEngine with
  | .error err => .error (.wasm err)
  | .ok () => .ok { engine := { consumeFuel := true }, config := config }

def createStore {T : Type} (sandbox : WasmSandbox) (data : T) :
    Except (SandboxError E) (Store T) :=
  if sandbox.engine.consumeFuel then
    .ok
      { data := data
        fuel := sandbox.config.fuelLimit
        epochDeadline := 1
        limiter := none }
  else
    .error (.wasm wt.fuelNotConfigured)

/-- Validate memory limits: of the imported memories, in order. -/
def checkImports (sandbox : WasmSandbox) : List (Import F) → Except (SandboxError E) Unit
  | [] => .ok ()
  | imp :: imports =>
      match imp.ty with
      | .memory memType =>
          let maxPages := sandbox.config.maxMemoryBytes / 65536
          if maxPages < memType.minimum then
            .error (.resourceLimit
              s!"module requests {memType.minimum} pages, max is {maxPages}")
          else
            checkImports sandbox imports
      | .other _ => checkImports sandbox imports

def instantiate (sandbox : WasmSandbox) (wasmBytes : List UInt8)
    (linker : String → String → Option (Extern V)) : Except (SandboxError E) Instance :=
  match wt.compile wasmBytes with
  | .error err => .error (.wasm err)
  | .ok module =>
      match checkImports (E := E) sandbox module.imports with
      | .error err => .error err
      | .ok () =>
          match allocate wt.otherMatches linker module, wt.start module with
          | none, _ => .error (.wasm wt.unlinked)
          | some _, .error err => .error (.wasm err)
          | some memories, .ok () => .ok { memories := memories }

end WasmSandbox

/-! ## What is checked -/

open WasmSandbox

/-- The check passes exactly when no imported memory asks for more than the limit. -/
theorem checkImports_eq_ok {sandbox : WasmSandbox} :
    ∀ {imports : List (Import F)}, checkImports (E := E) sandbox imports = .ok () ↔
      ∀ imp ∈ imports, ∀ memType, imp.ty = .memory memType →
        memType.minimum * pageSize ≤ sandbox.config.maxMemoryBytes
  | [] => by simp [checkImports]
  | imp :: imports => by
      have ih := @checkImports_eq_ok sandbox imports
      have hpages : ∀ pages, pages ≤ sandbox.config.maxMemoryBytes / 65536 ↔
          pages * pageSize ≤ sandbox.config.maxMemoryBytes :=
        fun pages => Nat.le_div_iff_mul_le (by decide)
      cases hty : imp.ty with
      | memory memType =>
          by_cases hlarge : sandbox.config.maxMemoryBytes / 65536 < memType.minimum
          · have hnot : ¬ memType.minimum * pageSize ≤ sandbox.config.maxMemoryBytes := by
              rw [← hpages]
              exact Nat.not_le_of_lt hlarge
            simp [checkImports, hty, hlarge, hnot]
          · have hle := (hpages memType.minimum).1 (Nat.le_of_not_lt hlarge)
            simp [checkImports, hty, hlarge, hle, ih]
      | other ty => simp [checkImports, hty, ih]

/-- What an accepted module went through. -/
theorem instantiate_eq_ok {sandbox : WasmSandbox} {wasmBytes : List UInt8}
    {linker : String → String → Option (Extern V)} {inst : Instance} :
    sandbox.instantiate wt wasmBytes linker = .ok inst ↔
      ∃ module, wt.compile wasmBytes = .ok module ∧
        checkImports (E := E) sandbox module.imports = .ok () ∧
        allocate wt.otherMatches linker module = some inst.memories ∧
        wt.start module = .ok () := by
  unfold instantiate
  cases hcompile : wt.compile wasmBytes with
  | error err => simp
  | ok module =>
      cases hcheck : checkImports (E := E) sandbox module.imports with
      | error err => simp [hcheck]
      | ok u =>
          cases hmemories : allocate wt.otherMatches linker module with
          | none => simp [hcheck, hmemories]
          | some memories =>
              cases hstart : wt.start module with
              | error err => simp [hcheck, hmemories, hstart]
              | ok u =>
                  rcases inst with ⟨memories'⟩
                  simp [hcheck, hmemories, hstart]

/-! ## What the limit covers -/

/-- Every memory stays below the limit, whatever the guest grows. -/
def MemoryLimited {T : Type} (sandbox : WasmSandbox) (store : Store T) (inst : Instance) : Prop :=
  ∀ grows, ∀ m ∈ runGrows store.limiter inst.memories grows,
    m.ty.minimum * pageSize ≤ sandbox.config.maxMemoryBytes ∧
      m.bytes ≤ sandbox.config.maxMemoryBytes

/-- The source never sets a limiter. -/
theorem limiter_of_createStore {T : Type} {sandbox : WasmSandbox} {data : T} {store : Store T}
    (h : sandbox.createStore wt data = .ok store) : store.limiter = none := by
  unfold createStore at h
  split at h
  · cases h
    rfl
  · cases h

/-- A minimum is never more than what a memory has, so only the sizes matter. -/
theorem memoryLimited_iff_bytes {T : Type} {sandbox : WasmSandbox} {store : Store T}
    {inst : Instance} (hlimiter : store.limiter = none) :
    MemoryLimited sandbox store inst ↔
      ∀ grows, ∀ m ∈ runGrows none inst.memories grows,
        m.bytes ≤ sandbox.config.maxMemoryBytes := by
  rw [MemoryLimited, hlimiter]
  refine forall_congr' fun grows => forall₂_congr fun m hm => ?_
  exact and_iff_right_of_imp fun hle => le_trans (Nat.mul_le_mul_right _ m.minimum_le) hle

/-- The limit covers every memory of an accepted module, in every run, exactly when the reach of
each memory that the module defines and of each that is linked to one of its imports is below it.
What the sandbox checked is the minimum of the imported ones. -/
theorem memoryLimited_iff {T : Type} {sandbox : WasmSandbox} {data : T} {store : Store T}
    (hstore : sandbox.createStore wt data = .ok store) {wasmBytes : List UInt8}
    {linker : String → String → Option (Extern V)} {inst : Instance}
    (hinst : sandbox.instantiate wt wasmBytes linker = .ok inst) {module : Module F}
    (hmodule : wt.compile wasmBytes = .ok module) :
    (MemoryLimited sandbox store inst ↔
      (∀ ty ∈ module.memories, ty.reach * pageSize ≤ sandbox.config.maxMemoryBytes) ∧
        ∀ imp ∈ module.imports, ∀ memType m, imp.ty = .memory memType →
          linker imp.module imp.name = some (.memory m) →
            m.ty.reach * pageSize ≤ sandbox.config.maxMemoryBytes) ∧
      ∀ imp ∈ module.imports, ∀ memType, imp.ty = .memory memType →
        memType.minimum * pageSize ≤ sandbox.config.maxMemoryBytes := by
  rcases (instantiate_eq_ok wt).1 hinst with ⟨module', hcompile, hcheck, hmemories, -⟩
  have heq : module' = module := by simpa [hmodule] using hcompile.symm
  rw [heq] at hcheck hmemories
  refine ⟨?_, checkImports_eq_ok.1 hcheck⟩
  rw [memoryLimited_iff_bytes (limiter_of_createStore wt hstore), bytes_runGrows_le_iff]
  have hmem := fun m => mem_allocate hmemories (m := m)
  constructor
  · intro hall
    refine ⟨?_, ?_⟩
    · intro ty hty
      exact hall ty.create ((hmem _).2 (Or.inr ⟨ty, hty, rfl⟩))
    · intro imp himp memType m hty hget
      -- the module was linked, so this import was, and to what the linker has for it
      rcases Option.bind_eq_some_iff.1 hmemories with ⟨links, hlinks, -⟩
      rcases link_of_linkAll hlinks imp himp with ⟨linked, hlink⟩
      exact hall m ((hmem m).2 (Or.inl ⟨imp, himp, link_memory_of_get hty hget hlink⟩))
  · rintro ⟨hdefined, hlinked⟩ m hm
    rcases (hmem m).1 hm with ⟨imp, himp, hlink⟩ | ⟨ty, hty, rfl⟩
    · rcases link_memory.1 hlink with ⟨memType, hty, hget, -⟩
      exact hlinked imp himp memType m hty hget
    · exact hdefined ty hty

end Sandbox

/-! ## Modules with a memory of their own -/

/-- `(module (memory 1 1))`, `(module (memory 1))` and `(module (memory 1025))`. -/
def boundedWasm : List UInt8 :=
  [0, 97, 115, 109, 1, 0, 0, 0, 5, 4, 1, 1, 1, 1]

def unboundedWasm : List UInt8 :=
  [0, 97, 115, 109, 1, 0, 0, 0, 5, 3, 1, 0, 1]

def largeWasm : List UInt8 :=
  [0, 97, 115, 109, 1, 0, 0, 0, 5, 4, 1, 0, 129, 8]

def threeModules : Wasmtime Unit Unit String :=
  { newEngine := .ok ()
    fuelNotConfigured := "fuel is not configured in this store"
    compile := fun bytes =>
      if bytes = boundedWasm then
        .ok
          { imports := []
            memories := [{ minimum := 1, maximum := some 1, memory64 := false }] }
      else if bytes = unboundedWasm then
        .ok
          { imports := []
            memories := [{ minimum := 1, maximum := none, memory64 := false }] }
      else if bytes = largeWasm then
        .ok
          { imports := []
            memories := [{ minimum := 1025, maximum := none, memory64 := false }] }
      else
        .error "failed to parse WebAssembly module"
    otherMatches := fun _ _ => true
    unlinked := "unknown import"
    start := fun _ => .ok () }

def defaultSandbox : WasmSandbox :=
  { engine := { consumeFuel := true }
    config := .default }

/-- A memory of one page that cannot grow is covered. -/
theorem memoryLimited_bounded :
    ∃ store inst, defaultSandbox.createStore threeModules () = .ok store ∧
      defaultSandbox.instantiate threeModules boundedWasm (fun _ _ => none) = .ok inst ∧
        MemoryLimited defaultSandbox store inst := by
  refine ⟨_, _, rfl, rfl, ?_⟩
  have hstore : defaultSandbox.createStore threeModules () = .ok _ := rfl
  have hinst : defaultSandbox.instantiate threeModules boundedWasm (fun _ _ => none) = .ok _ := rfl
  refine ((memoryLimited_iff threeModules hstore hinst rfl).1).2 ⟨?_, ?_⟩
  · intro ty hty
    rw [List.mem_singleton.1 hty]
    decide
  · intro imp himp
    exact absurd himp List.not_mem_nil

/-- A memory without a maximum grows past the limit, and one that starts past it is created. -/
theorem own_memory_not_limited :
    (∃ store inst, defaultSandbox.createStore threeModules () = .ok store ∧
      defaultSandbox.instantiate threeModules unboundedWasm (fun _ _ => none) = .ok inst ∧
        ¬ MemoryLimited defaultSandbox store inst) ∧
    ∃ inst, defaultSandbox.instantiate threeModules largeWasm (fun _ _ => none) = .ok inst ∧
      ∃ m ∈ inst.memories, defaultSandbox.config.maxMemoryBytes < m.ty.minimum * pageSize := by
  refine ⟨⟨_, _, rfl, rfl, ?_⟩, ⟨_, rfl, _, List.mem_singleton_self _, by decide⟩⟩
  intro hall
  have hgrown := (hall [(0, 1024)] _ (List.mem_singleton_self _)).2
  exact absurd hgrown (by decide)

end AgentRuntime
end CraftecCore
