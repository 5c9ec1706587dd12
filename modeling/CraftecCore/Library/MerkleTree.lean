import Mathlib.Data.List.Basic
import Mathlib.Tactic.Common
import Mathlib.Tactic.Ring

/-!
# MerkleTree — climbing a perfect binary tree level by level

A level of a tree is a list of nodes; the next level combines neighbours.  Two perfect trees, maybe
of different heights, that reach the same root either start from the same leaves, or two different
pairs of neighbours are combined to one node, or a leaf of the lower tree is itself a node of the
higher one.  Nothing is assumed about the combining function.  Climbing reaches the root that the
tree has from the top down.
-/

namespace MerkleTree

variable {D : Type}

/-! ## One level -/

def pairs : List D → List (D × D)
  | a :: b :: rest => (a, b) :: pairs rest
  | _ => []

def pairUp (node : D → D → D) (level : List D) : List D :=
  (pairs level).map (Function.uncurry node)

theorem length_pairs : ∀ l : List D, (pairs l).length = l.length / 2
  | [] => by simp [pairs]
  | [_] => by simp [pairs]
  | a :: b :: rest => by
      have := length_pairs rest
      simp only [pairs, List.length_cons, this]
      omega

@[simp] theorem length_pairUp (node : D → D → D) (l : List D) :
    (pairUp node l).length = l.length / 2 := by
  simp [pairUp, length_pairs]

/-- A level of even length is determined by its pairs. -/
theorem eq_of_pairs_eq : ∀ {x y : List D}, Even x.length → Even y.length → pairs x = pairs y → x = y
  | [], [], _, _, _ => rfl
  | [], [_], _, hy, _ => by simp at hy
  | [], _ :: _ :: _, _, _, h => by simp [pairs] at h
  | [_], _, hx, _, _ => by simp at hx
  | _ :: _ :: _, [], _, _, h => by simp [pairs] at h
  | _ :: _ :: _, [_], _, hy, _ => by simp at hy
  | a :: b :: x, c :: d :: y, hx, hy, h => by
      have hx' : Even x.length := by simpa [Nat.even_add_one] using hx
      have hy' : Even y.length := by simpa [Nat.even_add_one] using hy
      simp only [pairs, List.cons.injEq, Prod.mk.injEq] at h
      rcases h with ⟨⟨rfl, rfl⟩, htail⟩
      rw [eq_of_pairs_eq hx' hy' htail]

/-- Two different values, one of each list, with the same image. -/
def Clash {A B : Type} (f : A → B) (xs ys : List A) : Prop :=
  ∃ x ∈ xs, ∃ y ∈ ys, x ≠ y ∧ f x = f y

theorem Clash.mono {A B : Type} {f : A → B} {xs xs' ys ys' : List A} (h : Clash f xs ys)
    (hx : xs ⊆ xs') (hy : ys ⊆ ys') : Clash f xs' ys' := by
  rcases h with ⟨x, hxm, y, hym, hne, heq⟩
  exact ⟨x, hx hxm, y, hy hym, hne, heq⟩

/-- Lists with equal images are equal, or two of their values clash. -/
theorem eq_or_clash {A B : Type} (f : A → B) :
    ∀ {xs ys : List A}, xs.map f = ys.map f → xs = ys ∨ Clash f xs ys
  | [], [], _ => Or.inl rfl
  | [], _ :: _, h => by simp at h
  | _ :: _, [], h => by simp at h
  | x :: xs, y :: ys, h => by
      simp only [List.map_cons, List.cons.injEq] at h
      -- the first position where the lists differ is the clash
      by_cases hxy : x = y
      · rcases eq_or_clash f h.2 with heq | hclash
        · exact Or.inl (by rw [hxy, heq])
        · exact Or.inr (hclash.mono (List.subset_cons_self x xs) (List.subset_cons_self y ys))
      · exact Or.inr ⟨x, List.mem_cons_self, y, List.mem_cons_self, hxy, h.1⟩

theorem pairUp_eq_or_clash (node : D → D → D) {x y : List D} (hx : Even x.length)
    (hy : Even y.length) (h : pairUp node x = pairUp node y) :
    x = y ∨ Clash (Function.uncurry node) (pairs x) (pairs y) := by
  rcases eq_or_clash (Function.uncurry node) h with heq | hclash
  · exact Or.inl (eq_of_pairs_eq hx hy heq)
  · exact Or.inr hclash

/-! ## Climbing -/

/-- The level reached after `d` steps. -/
def climb (node : D → D → D) : ℕ → List D → List D
  | 0, level => level
  | d + 1, level => pairUp node (climb node d level)

/-- The first step is the one from the leaves. -/
theorem climb_succ' (node : D → D → D) (level : List D) :
    ∀ d : ℕ, climb node (d + 1) level = climb node d (pairUp node level)
  | 0 => rfl
  | d + 1 => by
      rw [climb, climb_succ' node level d]
      rfl

/-- All pairs combined on the way up to height `d`. -/
def allPairs (node : D → D → D) (d : ℕ) (level : List D) : List (D × D) :=
  (List.range d).flatMap fun j => pairs (climb node j level)

theorem length_climb (node : D → D → D) {e : ℕ} {l : List D} (hl : l.length = 2 ^ e) :
    ∀ {d : ℕ}, d ≤ e → (climb node d l).length = 2 ^ (e - d)
  | 0, _ => by simpa [climb] using hl
  | d + 1, hd => by
      have ih := length_climb node hl (show d ≤ e by omega)
      have hexp : e - d = (e - (d + 1)) + 1 := by omega
      rw [climb, length_pairUp, ih, hexp, Nat.pow_succ, Nat.mul_div_cancel _ (by decide)]

/-- Every level below the root has an even number of nodes. -/
theorem even_length_climb (node : D → D → D) {e d : ℕ} {l : List D} (hl : l.length = 2 ^ e)
    (hd : d < e) : Even (climb node d l).length := by
  rw [length_climb node hl (Nat.le_of_lt hd)]
  exact (Nat.even_pow.2 ⟨even_two, by omega⟩)

theorem pairs_subset_allPairs (node : D → D → D) (l : List D) {j d : ℕ} (hj : j < d) :
    pairs (climb node j l) ⊆ allPairs node d l :=
  fun _ hp => List.mem_flatMap.2 ⟨j, List.mem_range.2 hj, hp⟩

theorem allPairs_mono (node : D → D → D) (l : List D) {d e : ℕ} (h : d ≤ e) :
    allPairs node d l ⊆ allPairs node e l := by
  intro p hp
  rcases List.mem_flatMap.1 hp with ⟨j, hj, hpj⟩
  have hlt := List.mem_range.1 hj
  exact pairs_subset_allPairs node l (lt_of_lt_of_le hlt h) hpj

/-- Peeling levels off two trees from the top, as far as the lower one goes. -/
theorem climb_eq_or_clash (node : D → D → D) {e₁ e₂ : ℕ} {x y : List D} (hx : x.length = 2 ^ e₁)
    (hy : y.length = 2 ^ e₂) :
    ∀ {d k : ℕ}, d ≤ e₁ → d + k ≤ e₂ → climb node d x = climb node (d + k) y →
      x = climb node k y ∨
        Clash (Function.uncurry node) (allPairs node d x) (allPairs node (d + k) y)
  | 0, k, _, _, h => Or.inl (by simpa [climb] using h)
  | d + 1, k, hd, hk, h => by
      have hidx : d + 1 + k = (d + k) + 1 := by omega
      rw [hidx] at h hk ⊢
      -- compare the topmost levels; where they agree, go on with the levels below
      have hlevel := pairUp_eq_or_clash node (even_length_climb node hx (show d < e₁ by omega))
        (even_length_climb node hy (show d + k < e₂ by omega)) h
      rcases hlevel with heq | hclash
      · rcases climb_eq_or_clash node hx hy (show d ≤ e₁ by omega) (show d + k ≤ e₂ by omega) heq
          with hleaves | hclash
        · exact Or.inl hleaves
        · exact Or.inr (hclash.mono (allPairs_mono node x (Nat.le_succ d))
            (allPairs_mono node y (Nat.le_succ (d + k))))
      · exact Or.inr (hclash.mono (pairs_subset_allPairs node x (Nat.lt_succ_self d))
          (pairs_subset_allPairs node y (Nat.lt_succ_self (d + k))))

/-- Binding: two perfect trees with one root have the same height and leaves, or two pairs clash,
or every leaf of the lower tree is a node of the higher one. -/
theorem binding (node : D → D → D) {d k : ℕ} {x y : List D} (hx : x.length = 2 ^ d)
    (hy : y.length = 2 ^ (d + k)) (h : climb node d x = climb node (d + k) y) :
    (k = 0 ∧ x = y) ∨ Clash (Function.uncurry node) (allPairs node d x) (allPairs node (d + k) y) ∨
      ∀ a ∈ x, ∃ q ∈ allPairs node (d + k) y, a = Function.uncurry node q := by
  rcases climb_eq_or_clash node hx hy le_rfl le_rfl h with hleaves | hclash
  · -- trees of one height agree leaf by leaf; else a leaf is a node `k` levels up
    cases k with
    | zero => exact Or.inl ⟨rfl, hleaves⟩
    | succ k =>
        refine Or.inr (Or.inr ?_)
        intro a ha
        rw [hleaves] at ha
        rcases List.mem_map.1 ha with ⟨q, hq, rfl⟩
        exact ⟨q, pairs_subset_allPairs node y (show k < d + (k + 1) by omega) hq, rfl⟩
  · exact Or.inr (Or.inl hclash)

/-! ## From the top down -/

/-- A binary tree with all its leaves at one depth. -/
inductive Perfect (D : Type) : ℕ → Type where
  | leaf (d : D) : Perfect D 0
  | node {h : ℕ} (left right : Perfect D h) : Perfect D (h + 1)

namespace Perfect

def leaves : {h : ℕ} → Perfect D h → List D
  | 0, .leaf d => [d]
  | _ + 1, .node left right => left.leaves ++ right.leaves

def root (combine : D → D → D) : {h : ℕ} → Perfect D h → D
  | 0, .leaf d => d
  | _ + 1, .node left right => combine (left.root combine) (right.root combine)

/-- The tree over a level that is full: the two halves become the two subtrees. -/
def build : (h : ℕ) → (level : List D) → level.length = 2 ^ h → Perfect D h
  | 0, [d], _ => .leaf d
  | h + 1, level, hlen =>
      have hsplit : 2 ^ (h + 1) = 2 ^ h + 2 ^ h := by ring
      .node (build h (level.take (2 ^ h)) (by rw [List.length_take]; omega))
        (build h (level.drop (2 ^ h)) (by rw [List.length_drop]; omega))

theorem leaves_build : ∀ (h : ℕ) (level : List D) (hlen : level.length = 2 ^ h),
    (build h level hlen).leaves = level
  | 0, [d], _ => rfl
  | h + 1, level, hlen => by
      rw [build, leaves, leaves_build h, leaves_build h, List.take_append_drop]

theorem length_leaves : ∀ {h : ℕ} (t : Perfect D h), t.leaves.length = 2 ^ h
  | 0, .leaf _ => rfl
  | h + 1, .node left right => by
      rw [leaves, List.length_append, length_leaves left, length_leaves right]
      ring

end Perfect

theorem pairs_append : ∀ {x y : List D}, Even x.length → pairs (x ++ y) = pairs x ++ pairs y
  | [], _, _ => rfl
  | [_], _, h => by simp at h
  | a :: b :: x, y, h => by
      have hx : Even x.length := by simpa [Nat.even_add_one] using h
      simp [pairs, pairs_append hx]

/-- Two full levels side by side are climbed side by side. -/
theorem climb_append (node : D → D → D) {e : ℕ} {x y : List D} (hx : x.length = 2 ^ e) :
    ∀ {d : ℕ}, d ≤ e → climb node d (x ++ y) = climb node d x ++ climb node d y
  | 0, _ => rfl
  | d + 1, hd => by
      have ih := climb_append node (y := y) hx (show d ≤ e by omega)
      have heven := even_length_climb node hx (show d < e by omega)
      rw [climb, ih, pairUp, pairs_append heven, List.map_append]
      rfl

/-- What climbing reaches above the leaves of a tree is its root. -/
theorem climb_leaves (node : D → D → D) :
    ∀ {h : ℕ} (t : Perfect D h), climb node h t.leaves = [t.root node]
  | 0, .leaf _ => rfl
  | h + 1, .node left right => by
      calc climb node (h + 1) (left.leaves ++ right.leaves)
          = pairUp node (climb node h left.leaves ++ climb node h right.leaves) := by
            rw [climb, climb_append node left.length_leaves le_rfl]
        _ = pairUp node [left.root node, right.root node] := by
            rw [climb_leaves node left, climb_leaves node right, List.singleton_append]
        _ = [(Perfect.node left right).root node] := rfl

end MerkleTree
