import Mathlib.Algebra.Order.Ring.Nat
import Mathlib.Data.List.Basic

/-!
# WasmMemory — the memories of an instance, and how far they grow

A linear memory has a type, which declares a minimum of pages and maybe a maximum, and grows in
pages.  A module imports memories, which a linker supplies, and defines some of its own, which are
created at their minimum.  Without a limiter a memory grows as far as its type lets it, so the
memories of an instance stay below a bound in every run exactly when the reach of their types does.
-/

namespace WasmMemory

/-! ## Memories -/

def pageSize : ℕ := 65536

/-- The pages that an index reaches. -/
def indexBound (memory64 : Bool) : ℕ :=
  if memory64 then 2 ^ 48 else 2 ^ 16

structure MemoryType where
  minimum : ℕ
  maximum : Option ℕ
  memory64 : Bool
  minimum_le : minimum ≤ maximum.getD (indexBound memory64) := by decide
  maximum_le : maximum.getD (indexBound memory64) ≤ indexBound memory64 := by decide

def MemoryType.reach (ty : MemoryType) : ℕ :=
  ty.maximum.getD (indexBound ty.memory64)

structure Memory where
  ty : MemoryType
  pages : ℕ
  minimum_le : ty.minimum ≤ pages
  pages_le : pages ≤ ty.reach

def Memory.bytes (m : Memory) : ℕ :=
  m.pages * pageSize

def MemoryType.create (ty : MemoryType) : Memory :=
  { ty := ty
    pages := ty.minimum
    minimum_le := le_rfl
    pages_le := ty.minimum_le }

/-- `memory.grow`: refused past the reach of the type, and past the limiter if there is one. -/
def Memory.grow (limiter : Option ℕ) (m : Memory) (delta : ℕ) : Memory :=
  if h : m.pages + delta ≤ m.ty.reach ∧
      limiter.all (fun limit => decide ((m.pages + delta) * pageSize ≤ limit)) = true then
    { ty := m.ty
      pages := m.pages + delta
      minimum_le := le_trans m.minimum_le (Nat.le_add_right _ _)
      pages_le := h.1 }
  else
    m

/-- A guest grows its memories: their numbers, and by how many pages. -/
def runGrows (limiter : Option ℕ) (memories : List Memory) (grows : List (ℕ × ℕ)) : List Memory :=
  grows.foldl (fun memories g => memories.modify g.1 fun m => m.grow limiter g.2) memories

/-! ## Modules and linkers -/

/-- The type of an import; other types than those of memories are left open. -/
inductive ExternType (F : Type)
  | memory (ty : MemoryType)
  | other (ty : F)

structure Import (F : Type) where
  module : String
  name : String
  ty : ExternType F

structure Module (F : Type) where
  imports : List (Import F)
  memories : List MemoryType

inductive Extern (V : Type)
  | memory (m : Memory)
  | other (value : V)

def Extern.memory? {V : Type} : Extern V → Option Memory
  | .memory m => some m
  | .other _ => none

/-- A memory can stand for an import: it is as large as that asks for, and may not grow further. -/
def MemoryType.accepts (expected : MemoryType) (m : Memory) : Bool :=
  decide (expected.minimum ≤ m.pages) && decide (expected.memory64 = m.ty.memory64) &&
    match expected.maximum with
    | none => true
    | some most => m.ty.maximum.any fun actual => decide (actual ≤ most)

section Link

variable {F V : Type} (otherMatches : F → V → Bool) (linker : String → String → Option (Extern V))

/-- Look up one import; `none` if it is missing or of another type. -/
def link (imp : Import F) : Option (Extern V) :=
  match imp.ty, linker imp.module imp.name with
  | .memory expected, some (.memory m) => if expected.accepts m then some (.memory m) else none
  | .other expected, some (.other value) =>
      if otherMatches expected value then some (.other value) else none
  | _, _ => none

def linkAll : List (Import F) → Option (List (Extern V))
  | [] => some []
  | imp :: imports => do
      let linked ← link otherMatches linker imp
      let links ← linkAll imports
      some (linked :: links)

/-- The memories of an instance: the imported ones, then those that the module defines. -/
def allocate (module : Module F) : Option (List Memory) := do
  let links ← linkAll otherMatches linker module.imports
  some (links.filterMap Extern.memory? ++ module.memories.map MemoryType.create)

end Link

/-! ## Growing -/

@[simp] theorem ty_grow (limiter : Option ℕ) (m : Memory) (delta : ℕ) :
    (m.grow limiter delta).ty = m.ty := by
  unfold Memory.grow
  split <;> rfl

theorem pages_grow {m : Memory} {delta : ℕ} (h : m.pages + delta ≤ m.ty.reach) :
    (m.grow none delta).pages = m.pages + delta := by
  simp [Memory.grow, h]

/-- Growing does not change the types. -/
theorem ty_runGrows (limiter : Option ℕ) (grows : List (ℕ × ℕ)) :
    ∀ memories : List Memory,
      (runGrows limiter memories grows).map Memory.ty = memories.map Memory.ty := by
  induction grows with
  | nil =>
      intro memories
      rfl
  | cons g grows ih =>
      intro memories
      rw [runGrows, List.foldl_cons]
      calc (runGrows limiter (memories.modify g.1 fun m => m.grow limiter g.2) grows).map Memory.ty
          = (memories.modify g.1 fun m => m.grow limiter g.2).map Memory.ty := ih _
        _ = memories.map Memory.ty := by
          apply List.ext_getElem?
          intro i
          rw [List.getElem?_map, List.getElem?_map, List.getElem?_modify]
          cases memories[i]? with
          | none => rfl
          | some m => split <;> simp

/-- Without a limiter, memories stay below a bound in every run exactly when their types do. -/
theorem bytes_runGrows_le_iff (memories : List Memory) (bound : ℕ) :
    (∀ grows, ∀ m ∈ runGrows none memories grows, m.bytes ≤ bound) ↔
      ∀ m ∈ memories, m.ty.reach * pageSize ≤ bound := by
  constructor
  · intro hall m hm
    rcases List.mem_iff_getElem?.1 hm with ⟨i, hi⟩
    -- the guest grows this memory by all that is left
    let delta := m.ty.reach - m.pages
    have hfit : m.pages + delta = m.ty.reach := Nat.add_sub_cancel' m.pages_le
    have hmem : m.grow none delta ∈ runGrows none memories [(i, delta)] := by
      apply List.mem_iff_getElem?.2
      exact ⟨i, by simp [runGrows, hi]⟩
    have hle := hall _ _ hmem
    rwa [Memory.bytes, pages_grow hfit.le, hfit] at hle
  · intro hall grows m hm
    have hty : m.ty ∈ (runGrows none memories grows).map Memory.ty := List.mem_map_of_mem hm
    rw [ty_runGrows] at hty
    rcases List.mem_map.1 hty with ⟨m₀, hm₀, heq⟩
    calc m.bytes
        ≤ m.ty.reach * pageSize := Nat.mul_le_mul_right _ m.pages_le
      _ ≤ bound := heq ▸ hall m₀ hm₀

/-! ## Instances -/

section Link

variable {F V : Type} {otherMatches : F → V → Bool}
  {linker : String → String → Option (Extern V)}

theorem link_memory {imp : Import F} {m : Memory} :
    link otherMatches linker imp = some (.memory m) ↔
      ∃ expected, imp.ty = .memory expected ∧ linker imp.module imp.name = some (.memory m) ∧
        expected.accepts m = true := by
  unfold link
  split
  · rename_i expected actual hty hget
    rw [hty, hget]
    by_cases haccepts : expected.accepts actual = true
    · rw [if_pos haccepts]
      constructor
      · intro h
        cases h
        exact ⟨expected, rfl, rfl, haccepts⟩
      · rintro ⟨-, -, heq, -⟩
        exact heq
    · rw [if_neg haccepts]
      constructor
      · intro h
        cases h
      · rintro ⟨asked, hasked, heq, hyes⟩
        cases hasked
        cases heq
        exact absurd hyes haccepts
  · rename_i expected value hty hget
    rw [hty]
    constructor
    · intro h
      split at h <;> cases h
    · rintro ⟨asked, hasked, -⟩
      cases hasked
  · rename_i hnone _
    constructor
    · intro h
      cases h
    · rintro ⟨asked, hasked, hget, -⟩
      exact absurd hget (hnone asked m hasked)

/-- If an import of a memory is linked, it is to what the linker has for it. -/
theorem link_memory_of_get {imp : Import F} {expected : MemoryType} {m : Memory}
    {linked : Extern V} (hty : imp.ty = .memory expected)
    (hget : linker imp.module imp.name = some (.memory m))
    (hlink : link otherMatches linker imp = some linked) :
    link otherMatches linker imp = some (.memory m) := by
  unfold link at hlink ⊢
  rw [hty, hget] at hlink ⊢
  by_cases haccepts : expected.accepts m = true
  · simp [haccepts]
  · simp [haccepts] at hlink

theorem mem_linkAll {linked : Extern V} :
    ∀ {imports : List (Import F)} {links : List (Extern V)},
      linkAll otherMatches linker imports = some links →
        (linked ∈ links ↔ ∃ imp ∈ imports, link otherMatches linker imp = some linked)
  | [], links, h => by
      have heq : [] = links := by simpa [linkAll] using h
      simp [← heq]
  | imp :: imports, links, h => by
      rcases Option.bind_eq_some_iff.1 h with ⟨first, hfirst, h⟩
      rcases Option.bind_eq_some_iff.1 h with ⟨rest, hrest, h⟩
      rw [← Option.some.inj h, List.mem_cons, mem_linkAll hrest]
      simp only [List.mem_cons, exists_eq_or_imp, hfirst, Option.some.injEq]
      exact or_congr_left eq_comm

theorem link_of_linkAll :
    ∀ {imports : List (Import F)} {links : List (Extern V)},
      linkAll otherMatches linker imports = some links →
        ∀ imp ∈ imports, ∃ linked, link otherMatches linker imp = some linked
  | [], _, _, imp, hmem => by simp at hmem
  | first :: imports, _, h, imp, hmem => by
      rcases Option.bind_eq_some_iff.1 h with ⟨linked, hfirst, h⟩
      rcases Option.bind_eq_some_iff.1 h with ⟨rest, hrest, -⟩
      rcases List.mem_cons.1 hmem with rfl | hmem
      · exact ⟨linked, hfirst⟩
      · exact link_of_linkAll hrest imp hmem

/-- A memory of an instance is one that a linker supplied for an import, or a new one. -/
theorem mem_allocate {module : Module F} {memories : List Memory}
    (h : allocate otherMatches linker module = some memories) {m : Memory} :
    m ∈ memories ↔
      (∃ imp ∈ module.imports, link otherMatches linker imp = some (.memory m)) ∨
        ∃ ty ∈ module.memories, ty.create = m := by
  rcases Option.bind_eq_some_iff.1 h with ⟨links, hlinks, hmemories⟩
  rw [← Option.some.inj hmemories, List.mem_append, List.mem_map, List.mem_filterMap,
    ← mem_linkAll hlinks]
  refine or_congr_left ?_
  constructor
  · rintro ⟨linked, hmem, hm⟩
    cases linked with
    | memory actual =>
        have heq : actual = m := by simpa [Extern.memory?] using hm
        exact heq ▸ hmem
    | other value => simp [Extern.memory?] at hm
  · exact fun hmem => ⟨.memory m, hmem, rfl⟩

end Link

end WasmMemory
