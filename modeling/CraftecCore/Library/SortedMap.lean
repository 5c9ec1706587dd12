import Mathlib.Algebra.BigOperators.Group.List.Basic
import Mathlib.Data.List.Nodup
import Mathlib.Data.List.Perm.Basic
import Mathlib.Order.Lattice
import Mathlib.Tactic.Common

/-!
# SortedMap — finite maps with ordered keys

A map is the list of its entries in strictly increasing key order, so equal maps are equal lists
and iteration order is key order.  Insertion replaces; lookups determine the map.
-/

/-- A finite map whose entries are kept in key order. -/
structure SortedMap (K V : Type) [LinearOrder K] where
  entries : List (K × V)
  sorted : entries.Pairwise fun a b => a.1 < b.1
  deriving DecidableEq

namespace SortedMap

variable {K V : Type} [LinearOrder K]

/-! ## Sorted entry lists -/

def lookup (k : K) : List (K × V) → Option V
  | [] => none
  | (k', v) :: rest => if k = k' then some v else lookup k rest

def upsert (k : K) (v : V) : List (K × V) → List (K × V)
  | [] => [(k, v)]
  | (k', v') :: rest =>
      if k < k' then
        (k, v) :: (k', v') :: rest
      else if k = k' then
        (k, v) :: rest
      else
        (k', v') :: upsert k v rest

theorem mem_upsert {k : K} {v : V} {e : K × V} :
    ∀ {l : List (K × V)}, e ∈ upsert k v l → e = (k, v) ∨ e ∈ l
  | [], h => by simpa [upsert] using h
  | (k', v') :: rest, h => by
      simp only [upsert] at h
      split at h
      · simpa using h
      split at h
      · rcases List.mem_cons.1 h with h | h
        · exact Or.inl h
        · exact Or.inr (List.mem_cons_of_mem _ h)
      · rcases List.mem_cons.1 h with h | h
        · exact Or.inr (h ▸ List.mem_cons_self)
        · rcases mem_upsert h with h | h
          · exact Or.inl h
          · exact Or.inr (List.mem_cons_of_mem _ h)

theorem sorted_upsert (k : K) (v : V) :
    ∀ {l : List (K × V)}, l.Pairwise (fun a b => a.1 < b.1) →
      (upsert k v l).Pairwise fun a b => a.1 < b.1
  | [], _ => by simp [upsert]
  | (k', v') :: rest, h => by
      rcases List.pairwise_cons.1 h with ⟨hhead, hrest⟩
      simp only [upsert]
      split
      · rename_i hlt
        refine List.pairwise_cons.2 ⟨?_, h⟩
        intro e he
        rcases List.mem_cons.1 he with rfl | he
        · exact hlt
        · exact hlt.trans (hhead e he)
      split
      · rename_i heq
        exact List.pairwise_cons.2 ⟨fun e he => heq ▸ hhead e he, hrest⟩
      · rename_i hle hne
        refine List.pairwise_cons.2 ⟨?_, sorted_upsert k v hrest⟩
        intro e he
        rcases mem_upsert he with rfl | he
        · exact lt_of_le_of_ne (not_lt.1 hle) (Ne.symm hne)
        · exact hhead e he

theorem lookup_eq_none_of_lt {k : K} {l : List (K × V)} (h : ∀ e ∈ l, k < e.1) :
    lookup k l = none := by
  induction l with
  | nil => rfl
  | cons e rest ih =>
      have hne : k ≠ e.1 := (h e List.mem_cons_self).ne
      have hrest : lookup k rest = none := ih fun e he => h e (List.mem_cons_of_mem _ he)
      simp [lookup, hne, hrest]

theorem lookup_upsert (k : K) (v : V) (k₁ : K) :
    ∀ {l : List (K × V)}, lookup k₁ (upsert k v l) = if k₁ = k then some v else lookup k₁ l
  | [] => by simp [upsert, lookup]
  | (k', v') :: rest => by
      simp only [upsert]
      split
      · simp [lookup]
      split
      · rename_i heq
        subst heq
        by_cases h : k₁ = k <;> simp [lookup, h]
      · rename_i hne
        have ih := lookup_upsert k v k₁ (l := rest)
        by_cases h : k₁ = k'
        · have : ¬ k₁ = k := fun heq => hne (heq ▸ h)
          simp [lookup, h, Ne.symm hne]
        · simp [lookup, h, ih]

/-- In a sorted list an entry is what the lookup of its key finds. -/
theorem mem_iff_lookup {l : List (K × V)} (h : l.Pairwise fun a b => a.1 < b.1) {k : K} {v : V} :
    (k, v) ∈ l ↔ lookup k l = some v := by
  induction l with
  | nil => simp [lookup]
  | cons e rest ih =>
      rcases List.pairwise_cons.1 h with ⟨hhead, hrest⟩
      by_cases hk : k = e.1
      · subst hk
        have hnot : ∀ v, (e.1, v) ∉ rest := fun v hv => lt_irrefl e.1 (hhead (e.1, v) hv)
        have hpair : (e.1, v) = e ↔ v = e.2 := by
          rw [Prod.ext_iff]
          simp
        simp [lookup, hnot, hpair, eq_comm]
      · have hne : (k, v) ≠ e := fun heq => hk (congrArg Prod.fst heq)
        simp [lookup, hk, hne, ih hrest]

theorem sum_upsert {M : Type} [AddCommMonoid M] (f : V → M) (k : K) (v : V) :
    ∀ {l : List (K × V)}, l.Pairwise (fun a b => a.1 < b.1) →
      ((upsert k v l).map fun e => f e.2).sum + ((lookup k l).map f).getD 0 =
        (l.map fun e => f e.2).sum + f v
  | [], _ => by simp [upsert, lookup]
  | (k', v') :: rest, h => by
      rcases List.pairwise_cons.1 h with ⟨hhead, hrest⟩
      simp only [upsert]
      split
      · rename_i hlt
        have hnone : lookup k ((k', v') :: rest) = none := by
          apply lookup_eq_none_of_lt
          intro e he
          rcases List.mem_cons.1 he with rfl | he
          · exact hlt
          · exact hlt.trans (hhead e he)
        simp only [hnone, List.map_cons, List.sum_cons, Option.map_none, Option.getD_none, add_zero]
        rw [add_comm]
      split
      · rename_i heq
        simp only [lookup, if_pos heq, List.map_cons, List.sum_cons, Option.map_some,
          Option.getD_some]
        rw [add_comm (f v), add_right_comm, add_comm _ (f v'), add_assoc]
      · rename_i hne
        have ih := sum_upsert f k v hrest
        simp only [lookup, if_neg hne, List.map_cons, List.sum_cons, add_assoc, ih]

/-! ## Maps -/

def empty : SortedMap K V :=
  { entries := []
    sorted := List.Pairwise.nil }

def get? (m : SortedMap K V) (k : K) : Option V :=
  lookup k m.entries

def insert (m : SortedMap K V) (k : K) (v : V) : SortedMap K V :=
  { entries := upsert k v m.entries
    sorted := sorted_upsert k v m.sorted }

def erase (m : SortedMap K V) (k : K) : SortedMap K V :=
  { entries := m.entries.filter fun e => e.1 ≠ k
    sorted := m.sorted.filter _ }

def keys (m : SortedMap K V) : List K :=
  m.entries.map Prod.fst

def values (m : SortedMap K V) : List V :=
  m.entries.map Prod.snd

@[simp] theorem get?_empty (k : K) : (empty : SortedMap K V).get? k = none := rfl

@[simp] theorem entries_empty : (empty : SortedMap K V).entries = [] := rfl

theorem mem_entries {m : SortedMap K V} {k : K} {v : V} : (k, v) ∈ m.entries ↔ m.get? k = some v :=
  mem_iff_lookup m.sorted

theorem get?_insert (m : SortedMap K V) (k k₁ : K) (v : V) :
    (m.insert k v).get? k₁ = if k₁ = k then some v else m.get? k₁ :=
  lookup_upsert k v k₁

@[simp] theorem get?_insert_self (m : SortedMap K V) (k : K) (v : V) :
    (m.insert k v).get? k = some v := by
  simp [get?_insert]

theorem get?_insert_of_ne (m : SortedMap K V) {k k₁ : K} (v : V) (h : k₁ ≠ k) :
    (m.insert k v).get? k₁ = m.get? k₁ := by
  simp [get?_insert, h]

theorem get?_erase (m : SortedMap K V) (k k₁ : K) :
    (m.erase k).get? k₁ = if k₁ = k then none else m.get? k₁ := by
  apply Option.ext
  intro v
  rw [← mem_entries]
  by_cases h : k₁ = k
  · simp [erase, h]
  · simp [erase, h, mem_entries]

/-- Maps with the same lookups are equal. -/
theorem ext_get? {m m' : SortedMap K V} (h : ∀ k, m.get? k = m'.get? k) : m = m' := by
  have hnodup : ∀ m : SortedMap K V, m.entries.Nodup :=
    fun m => m.sorted.imp fun hlt heq => hlt.ne (congrArg Prod.fst heq)
  have hperm : m.entries.Perm m'.entries := by
    refine (List.perm_ext_iff_of_nodup (hnodup m) (hnodup m')).2 ?_
    rintro ⟨k, v⟩
    rw [mem_entries, mem_entries, h]
  have heq : m.entries = m'.entries :=
    hperm.eq_of_pairwise (fun a b _ _ hab hba => absurd hab hba.asymm) m.sorted m'.sorted
  cases m
  cases m'
  simpa using heq

theorem mem_keys {m : SortedMap K V} {k : K} : k ∈ m.keys ↔ ∃ v, m.get? k = some v := by
  simp [keys, ← mem_entries]

theorem nodup_keys (m : SortedMap K V) : m.keys.Nodup := by
  have hlt : m.keys.Pairwise (· < ·) := List.pairwise_map.2 m.sorted
  exact hlt.imp fun h => h.ne

theorem mem_values {m : SortedMap K V} {v : V} : v ∈ m.values ↔ ∃ k, m.get? k = some v := by
  simp [values, ← mem_entries]

/-- Replacing a value changes a sum over the values by the difference. -/
theorem sum_values_insert {M : Type} [AddCommMonoid M] (f : V → M) (m : SortedMap K V) (k : K)
    (v : V) :
    ((m.insert k v).values.map f).sum + ((m.get? k).map f).getD 0 = (m.values.map f).sum + f v := by
  have hsum := sum_upsert f k v m.sorted
  simpa [values, Function.comp_def, insert, get?] using hsum

end SortedMap
