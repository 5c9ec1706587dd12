import Mathlib.Algebra.BigOperators.Fin
import Mathlib.Algebra.Module.Pi
import Mathlib.Algebra.Field.Basic
import Mathlib.Data.List.OfFn

/-!
# RowVector — lists of field elements as vectors

Programs keep a row as a list and work on it with loops over two lists at once.  This module reads
a list of length `n` as a vector (`toVec`) and says which vector operation each loop is:

* an in-place pass over one list zipped with another adds a multiple of the other,
* a fold that adds one item at a time is a sum,
* the running dot product is the dot product.

The last section cuts a list into consecutive chunks of one size and puts them together again.
-/

namespace RowVector

/-! ## In-place loops -/

section InPlace

variable {α β : Type}

/-- `for (x, y) in xs.iter_mut().zip(ys)` with body `*x = f(x, y)`: positions past the end of `ys`
keep their value. -/
def zipMut (f : α → β → α) : List α → List β → List α
  | x :: xs, y :: ys => f x y :: zipMut f xs ys
  | xs, _ => xs

@[simp] theorem length_zipMut (f : α → β → α) :
    ∀ (xs : List α) (ys : List β), (zipMut f xs ys).length = xs.length
  | [], _ => by simp [zipMut]
  | _ :: _, [] => by simp [zipMut]
  | _ :: xs, _ :: ys => by simpa [zipMut] using length_zipMut f xs ys

theorem getD_zipMut (f : α → β → α) (d : α) (e : β) :
    ∀ (xs : List α) (ys : List β) (i : ℕ), i < xs.length → i < ys.length →
      (zipMut f xs ys).getD i d = f (xs.getD i d) (ys.getD i e)
  | _ :: _, _ :: _, 0, _, _ => by simp [zipMut]
  | _ :: xs, _ :: ys, i + 1, hx, hy => by
      simpa [zipMut] using getD_zipMut f d e xs ys i (by simpa using hx) (by simpa using hy)

end InPlace

/-- A fold whose every step adds the value of its item computes the sum of the values. -/
theorem foldl_accumulate {σ ι V : Type} [AddCommMonoid V] (good : σ → Prop) (view : σ → V)
    (value : ι → V) (step : σ → ι → σ) :
    ∀ (items : List ι) (s : σ), good s →
      (∀ s, ∀ i ∈ items, good s → good (step s i) ∧ view (step s i) = view s + value i) →
      good (items.foldl step s) ∧
        view (items.foldl step s) = view s + (items.map value).sum
  | [], s, hs, _ => by simpa using hs
  | i :: items, s, hs, hstep => by
      rcases hstep s i List.mem_cons_self hs with ⟨hgood, hview⟩
      -- the invariant `good` travels along with the running sum
      have htail := foldl_accumulate good view value step items (step s i) hgood
        fun s j hj => hstep s j (List.mem_cons_of_mem _ hj)
      simpa [hview, add_assoc] using htail

/-- Summing over two lists of length `n` in step is summing over `Fin n`. -/
theorem sum_map_zip {α β V : Type} [AddCommMonoid V] {n : ℕ} {xs : List α} {ys : List β}
    (hx : xs.length = n) (hy : ys.length = n) (g : α × β → V) :
    ((xs.zip ys).map g).sum =
      ∑ i : Fin n, g (xs.get (i.cast hx.symm), ys.get (i.cast hy.symm)) := by
  have hzip : xs.zip ys =
      List.ofFn fun i : Fin n => (xs.get (i.cast hx.symm), ys.get (i.cast hy.symm)) := by
    apply List.ext_getElem
    · simp [hx, hy]
    · intro i h₁ h₂
      simp
  simp [hzip, List.map_ofFn, List.sum_ofFn]

/-! ## Rows as vectors -/

section Vector

variable {K : Type} [Field K] {n : ℕ}

def toVec (n : ℕ) (l : List K) : Fin n → K :=
  fun j => l.getD j 0

theorem toVec_apply (l : List K) (j : Fin n) : toVec n l j = l.getD j 0 := rfl

theorem toVec_eq_get {l : List K} (h : l.length = n) (j : Fin n) :
    toVec n l j = l.get (j.cast h.symm) := by
  have : j.val < l.length := by simp [h]
  simp [toVec, this]

/-- A row of the right length is determined by its vector. -/
theorem eq_of_toVec_eq {l l' : List K} (h : l.length = n) (h' : l'.length = n)
    (heq : toVec n l = toVec n l') : l = l' := by
  apply List.ext_getElem
  · rw [h, h']
  · intro i hi hi'
    have := congrFun heq ⟨i, h ▸ hi⟩
    simpa [toVec, hi, hi'] using this

@[simp] theorem toVec_replicate (m : ℕ) : toVec n (List.replicate m (0 : K)) = 0 := by
  funext j
  simp only [toVec, List.getD_eq_getElem?_getD, List.getElem?_replicate, Pi.zero_apply]
  split <;> rfl

/-- The row with a single one. -/
theorem toVec_unit {i : ℕ} (hi : i < n) :
    toVec n ((List.replicate n (0 : K)).set i 1) = Pi.single ⟨i, hi⟩ 1 := by
  funext j
  by_cases h : i = j.val
  · have : j = ⟨i, hi⟩ := Fin.ext h.symm
    simp [toVec, this, hi]
  · have : j ≠ ⟨i, hi⟩ := fun heq => h (congrArg Fin.val heq).symm
    simp [toVec, h, this]

/-- Scaling a row in place. -/
theorem toVec_map {f : K → K} {c : K} (hf : ∀ x, f x = c * x) (l : List K) :
    toVec n (l.map f) = c • toVec n l := by
  funext j
  by_cases hj : j.val < l.length
  · simp [toVec, hj, hf]
  · simp [toVec, hj]

/-- Adding a multiple of another row in place. -/
theorem toVec_zipMut {f : K → K → K} {c : K} (hf : ∀ x y, f x y = x + c * y) {l p : List K}
    (hl : l.length = n) (hp : p.length = n) :
    toVec n (zipMut f l p) = toVec n l + c • toVec n p := by
  funext j
  have hzip := getD_zipMut f 0 0 l p j (by simp [hl]) (by simp [hp])
  simpa [toVec, hf] using hzip

/-- The running dot product of two rows. -/
theorem foldl_dot {f : K → K × K → K} (hf : ∀ r x y, f r (x, y) = r + x * y) {l p : List K}
    (hl : l.length = n) (hp : p.length = n) :
    (l.zip p).foldl f 0 = ∑ j : Fin n, toVec n l j * toVec n p j := by
  have hfold := (foldl_accumulate (fun _ => True) id (fun xy : K × K => xy.1 * xy.2) f (l.zip p) 0
    trivial fun r xy _ _ => ⟨trivial, hf r xy.1 xy.2⟩).2
  calc (l.zip p).foldl f 0
      = ((l.zip p).map fun xy => xy.1 * xy.2).sum := by simpa using hfold
    _ = ∑ j : Fin n, toVec n l j * toVec n p j := by
        rw [sum_map_zip hl hp]
        exact Finset.sum_congr rfl fun j _ => by rw [toVec_eq_get hl, toVec_eq_get hp]

end Vector

/-! ## Consecutive chunks -/

section Chunks

variable {α : Type}

/-- The first `k` chunks of size `size` make up a prefix. -/
theorem flatten_chunks (size : ℕ) (l : List α) (k : ℕ) :
    ((List.range k).map fun i => (l.drop (i * size)).take size).flatten = l.take (k * size) := by
  induction k with
  | zero => simp
  | succ k ih =>
      calc ((List.range (k + 1)).map fun i => (l.drop (i * size)).take size).flatten
          = l.take (k * size) ++ (l.drop (k * size)).take size := by
            simp [List.range_succ, ih]
        _ = l.take ((k + 1) * size) := by
            rw [Nat.succ_mul, List.take_add]

/-- Enough chunks make up the whole list. -/
theorem flatten_chunks_of_le {size k : ℕ} {l : List α} (h : l.length ≤ k * size) :
    ((List.range k).map fun i => (l.drop (i * size)).take size).flatten = l := by
  rw [flatten_chunks, List.take_of_length_le h]

end Chunks

end RowVector
