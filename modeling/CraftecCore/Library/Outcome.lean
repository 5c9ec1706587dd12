import Mathlib.Algebra.Order.Floor.Div
import Mathlib.Tactic.Common
import Mathlib.Data.List.Basic

/-!
# Outcome — runs that return or panic

A call of a checked program either returns a value or stops the thread with a panic (a checked
addition that does not fit, an index out of range, a failed assertion).  `Outcome α` keeps the two
apart from the errors a function *returns*, which stay ordinary `Except` values inside `α`.

The module also fixes the checked operations on machine words and the indexed reads that the
programs modelled on top of it use, with the lemma that says when each of them returns.
-/

inductive Panic
  | overflow
  | underflow
  | indexOutOfBounds
  | capacityOverflow
  | divisionByZero
  | assertion
  deriving DecidableEq, Repr

inductive Outcome (α : Type)
  | ok (value : α)
  | panic (why : Panic)
  deriving DecidableEq, Repr

namespace Outcome

variable {α β : Type}

def bind : Outcome α → (α → Outcome β) → Outcome β
  | ok a, f => f a
  | panic why, _ => panic why

instance : Monad Outcome where
  pure := ok
  bind := bind

@[simp] theorem pure_eq (a : α) : (pure a : Outcome α) = ok a := rfl

@[simp] theorem ok_bind (a : α) (f : α → Outcome β) : (ok a >>= f) = f a := rfl

@[simp] theorem panic_bind (why : Panic) (f : α → Outcome β) :
    (panic why >>= f) = panic why := rfl

private theorem id_map_outcome {α : Type} (x : Outcome α) : id <$> x = x := by
  cases x <;> rfl

private theorem bind_assoc_outcome {α β γ : Type} (x : Outcome α) (f : α → Outcome β)
    (g : β → Outcome γ) : x >>= f >>= g = x >>= fun a => f a >>= g := by
  cases x <;> rfl

instance : LawfulMonad Outcome :=
  LawfulMonad.mk' Outcome id_map_outcome (fun _ _ => rfl) bind_assoc_outcome

/-- What a returning sequence did: its first half returned, and the second half on its value. -/
theorem bind_eq_ok {x : Outcome α} {f : α → Outcome β} {b : β} :
    (x >>= f) = ok b ↔ ∃ a, x = ok a ∧ f a = ok b := by
  cases x with
  | ok a => simp
  | panic why => simp

/-- What a panicking sequence did: one of its halves panicked. -/
theorem bind_eq_panic {x : Outcome α} {f : α → Outcome β} {why : Panic} :
    (x >>= f) = panic why ↔ x = panic why ∨ ∃ a, x = ok a ∧ f a = panic why := by
  cases x with
  | ok a => simp
  | panic why' => simp

/-- `mapM` over calls that all return is `map` over their values. -/
theorem mapM_eq_ok {f : α → Outcome β} {g : α → β} {l : List α}
    (h : ∀ a ∈ l, f a = ok (g a)) : l.mapM f = ok (l.map g) := by
  induction l with
  | nil => simp
  | cons a l ih =>
      have hl : l.mapM f = ok (l.map g) := ih fun b hb => h b (List.mem_cons_of_mem _ hb)
      simp [h a List.mem_cons_self, hl]

/-- `mapM` over calls that return or panic in one way panics in this way once one of them does. -/
theorem mapM_eq_panic {f : α → Outcome β} {why : Panic} {l : List α}
    (h : ∀ a ∈ l, (∃ b, f a = ok b) ∨ f a = panic why) (hpanic : ∃ a ∈ l, f a = panic why) :
    l.mapM f = panic why := by
  induction l with
  | nil => simp at hpanic
  | cons a l ih =>
      rcases h a List.mem_cons_self with ⟨b, hb⟩ | ha
      · have hl : l.mapM f = panic why := by
          apply ih fun a' ha' => h a' (List.mem_cons_of_mem _ ha')
          simpa [hb] using hpanic
        simp [hb, hl]
      · simp [ha]

/-- A panicking `mapM` stopped at one of its calls. -/
theorem exists_of_mapM_eq_panic {f : α → Outcome β} {why : Panic} :
    ∀ {l : List α}, l.mapM f = panic why → ∃ a ∈ l, f a = panic why
  | [], h => by simp at h
  | a :: l, h => by
      rw [List.mapM_cons, bind_eq_panic] at h
      rcases h with ha | ⟨b, -, h⟩
      · exact ⟨a, List.mem_cons_self, ha⟩
      · rcases bind_eq_panic.1 h with hl | ⟨bs, -, hpure⟩
        · rcases exists_of_mapM_eq_panic hl with ⟨a', hmem, ha'⟩
          exact ⟨a', List.mem_cons_of_mem _ hmem, ha'⟩
        · cases hpure

/-- The calls behind a returning `mapM` returned, in order. -/
theorem forall₂_of_mapM_eq_ok {f : α → Outcome β} :
    ∀ {l : List α} {out : List β}, l.mapM f = ok out →
      List.Forall₂ (fun a b => f a = ok b) l out
  | [], out, h => by
      have : out = [] := by simpa [eq_comm] using h
      simp [this]
  | a :: l, out, h => by
      rw [List.mapM_cons, bind_eq_ok] at h
      obtain ⟨b, hb, h⟩ := h
      rw [bind_eq_ok] at h
      obtain ⟨bs, hbs, h⟩ := h
      have : out = b :: bs := by simpa [eq_comm] using h
      subst this
      exact List.Forall₂.cons hb (forall₂_of_mapM_eq_ok hbs)

/-- `mapM` returns when all of its calls do. -/
theorem mapM_returns_iff {f : α → Outcome β} {l : List α} :
    (∃ out, l.mapM f = ok out) ↔ ∀ a ∈ l, ∃ b, f a = ok b := by
  induction l with
  | nil => simp
  | cons a l ih =>
      rw [List.forall_mem_cons, ← ih]
      constructor
      · rintro ⟨out, h⟩
        rw [List.mapM_cons, bind_eq_ok] at h
        rcases h with ⟨b, hb, h⟩
        rcases bind_eq_ok.1 h with ⟨bs, hbs, -⟩
        exact ⟨⟨b, hb⟩, bs, hbs⟩
      · rintro ⟨⟨b, hb⟩, bs, hbs⟩
        exact ⟨b :: bs, by simp [hb, hbs]⟩

/-- A returning `mapM` is `map`, when each call can only return the mapped value. -/
theorem eq_map_of_mapM_eq_ok {f : α → Outcome β} {g : α → β} {l : List α} {out : List β}
    (hrun : l.mapM f = ok out) (h : ∀ a ∈ l, ∀ b, f a = ok b → b = g a) : out = l.map g := by
  have hall := forall₂_of_mapM_eq_ok hrun
  clear hrun
  induction hall with
  | nil => rfl
  | cons hab _ ih =>
      have htail := ih fun a ha => h a (List.mem_cons_of_mem _ ha)
      simp [h _ List.mem_cons_self _ hab, htail]

end Outcome

open Outcome

/-! ## Collected results -/

/-- `results.into_iter().collect()`: all values in order, or the first error. -/
def List.collectResults {ε α : Type} (results : List (Except ε α)) : Except ε (List α) :=
  results.mapM id

theorem List.collectResults_map_ok {ε α β : Type} (f : α → β) (l : List α) :
    (l.map fun a => (Except.ok (f a) : Except ε β)).collectResults = .ok (l.map f) := by
  induction l with
  | nil => rfl
  | cons a l ih =>
      unfold List.collectResults at ih ⊢
      rw [List.map_cons, List.mapM_cons, ih]
      rfl

/-- Values are collected only when there is no error. -/
theorem List.eq_map_of_collectResults {ε α : Type} :
    ∀ {results : List (Except ε α)} {values : List α},
      results.collectResults = .ok values → results = values.map Except.ok
  | [], values, h => by
      have heq : [] = values := Except.ok.inj h
      simp [← heq]
  | .error err :: results, values, h => by cases h
  | .ok value :: results, values, h => by
      cases hrest : results.collectResults with
      | error err =>
          unfold List.collectResults at h hrest
          rw [List.mapM_cons, hrest] at h
          cases h
      | ok rest =>
          have hmap := List.eq_map_of_collectResults hrest
          unfold List.collectResults at h hrest
          rw [List.mapM_cons, hrest] at h
          have heq : value :: rest = values := Except.ok.inj h
          simp [← heq, hmap]

/-! ## Indexed reads -/

/-- `xs[i]`. -/
def List.index {α : Type} (xs : List α) (i : Nat) : Outcome α :=
  match xs[i]? with
  | some a => .ok a
  | none => .panic .indexOutOfBounds

theorem List.index_eq_ok {α : Type} {xs : List α} {i : Nat} (h : i < xs.length) :
    xs.index i = .ok xs[i] := by
  simp [List.index, h]

theorem List.lt_length_of_index {α : Type} {xs : List α} {i : Nat} {a : α}
    (h : xs.index i = .ok a) : i < xs.length := by
  by_contra hle
  simp [List.index, List.getElem?_eq_none (Nat.le_of_not_lt hle)] at h

theorem List.index_eq_panic {α : Type} {xs : List α} {i : Nat} (h : xs.length ≤ i) :
    xs.index i = .panic .indexOutOfBounds := by
  simp [List.index, h]

theorem List.index_eq_getD {α : Type} {xs : List α} {i : Nat} (d : α) (h : i < xs.length) :
    xs.index i = .ok (xs.getD i d) := by
  simp [List.index_eq_ok h, h]

/-- `&xs[start..stop]`. -/
def List.slice {α : Type} (xs : List α) (start stop : Nat) : Outcome (List α) :=
  if start ≤ stop ∧ stop ≤ xs.length then
    .ok ((xs.drop start).take (stop - start))
  else
    .panic .indexOutOfBounds

theorem List.slice_eq_ok {α : Type} (xs : List α) {start stop : Nat} (h : start ≤ stop)
    (h' : stop ≤ xs.length) : xs.slice start stop = .ok ((xs.drop start).take (stop - start)) := by
  simp [List.slice, h, h']

/-! ## Buffers

A buffer is never larger than `isizeMax` bytes: asking for more panics.  Memory itself is not
modelled, so an allocation within that bound succeeds.
-/

/-- Largest size of a buffer, in bytes. -/
def isizeMax : Nat := 2 ^ 63 - 1

/-- `Vec::with_capacity(n)` for one-byte elements. -/
def withCapacity (n : Nat) : Outcome Unit :=
  if n ≤ isizeMax then .ok () else .panic .capacityOverflow

/-- `vec![a; n]` for one-byte elements. -/
def byteBuffer {α : Type} (a : α) (n : Nat) : Outcome (List α) := do
  withCapacity n
  pure (List.replicate n a)

theorem withCapacity_eq_ok {n : Nat} (h : n ≤ isizeMax) : withCapacity n = .ok () := by
  simp [withCapacity, h]

theorem byteBuffer_eq_ok {α : Type} {a : α} {n : Nat} {l : List α} :
    byteBuffer a n = .ok l ↔ n ≤ isizeMax ∧ List.replicate n a = l := by
  by_cases h : n ≤ isizeMax <;> simp [byteBuffer, withCapacity, h]

/-- `xs.push(a)`, for elements of at least one byte. -/
def vecPush {α : Type} (xs : List α) (a : α) : Outcome (List α) :=
  if xs.length < isizeMax then .ok (xs ++ [a]) else .panic .capacityOverflow

/-! ## Checked word arithmetic -/

def usizeAdd (a b : Nat) : Outcome Nat :=
  if a + b < 2 ^ 64 then .ok (a + b) else .panic .overflow

def usizeMul (a b : Nat) : Outcome Nat :=
  if a * b < 2 ^ 64 then .ok (a * b) else .panic .overflow

def usizeSub (a b : Nat) : Outcome Nat :=
  if b ≤ a then .ok (a - b) else .panic .underflow

theorem usizeAdd_eq_ok {a b : Nat} (h : a + b < 2 ^ 64) : usizeAdd a b = .ok (a + b) := by
  simp only [usizeAdd, if_pos h]

theorem usizeMul_eq_ok {a b : Nat} (h : a * b < 2 ^ 64) : usizeMul a b = .ok (a * b) := by
  simp only [usizeMul, if_pos h]

theorem usizeSub_eq_ok {a b : Nat} (h : b ≤ a) : usizeSub a b = .ok (a - b) := by
  simp only [usizeSub, if_pos h]

theorem usizeAdd_eq_panic {a b : Nat} (h : ¬ a + b < 2 ^ 64) :
    usizeAdd a b = .panic .overflow := by
  simp only [usizeAdd, if_neg h]

theorem usizeMul_eq_panic {a b : Nat} (h : ¬ a * b < 2 ^ 64) :
    usizeMul a b = .panic .overflow := by
  simp only [usizeMul, if_neg h]

theorem usizeSub_eq_panic {a b : Nat} (h : a < b) : usizeSub a b = .panic .underflow := by
  simp only [usizeSub, if_neg (Nat.not_le_of_lt h)]

def UInt64.checkedAdd (a b : UInt64) : Outcome UInt64 :=
  if a.toNat + b.toNat < 2 ^ 64 then .ok (a + b) else .panic .overflow

def UInt64.checkedMul (a b : UInt64) : Outcome UInt64 :=
  if a.toNat * b.toNat < 2 ^ 64 then .ok (a * b) else .panic .overflow

def UInt64.checkedDiv (a b : UInt64) : Outcome UInt64 :=
  if b = 0 then .panic .divisionByZero else .ok (a / b)

/-- A checked sum that returns is the sum of the values. -/
theorem UInt64.checkedAdd_eq_ok {a b c : UInt64} :
    a.checkedAdd b = .ok c ↔ a.toNat + b.toNat = c.toNat := by
  unfold UInt64.checkedAdd
  have hc : c.toNat < 2 ^ 64 := c.toNat_lt
  split
  · rename_i h
    simp only [Outcome.ok.injEq, ← UInt64.toNat_inj, UInt64.toNat_add, Nat.mod_eq_of_lt h]
  · rename_i h
    simp only [reduceCtorEq, false_iff]
    omega

theorem UInt64.checkedMul_eq_ok {a b c : UInt64} :
    a.checkedMul b = .ok c ↔ a.toNat * b.toNat = c.toNat := by
  unfold UInt64.checkedMul
  have hc : c.toNat < 2 ^ 64 := c.toNat_lt
  split
  · rename_i h
    simp only [Outcome.ok.injEq, ← UInt64.toNat_inj, UInt64.toNat_mul, Nat.mod_eq_of_lt h]
  · rename_i h
    simp only [reduceCtorEq, false_iff]
    omega

theorem UInt64.checkedDiv_eq_ok {a b c : UInt64} :
    a.checkedDiv b = .ok c ↔ 0 < b.toNat ∧ a.toNat / b.toNat = c.toNat := by
  unfold UInt64.checkedDiv
  have hzero : b = 0 ↔ b.toNat = 0 := by
    rw [← UInt64.toNat_inj]
    rfl
  split
  · rename_i h
    rw [hzero] at h
    simp [h]
  · rename_i h
    rw [hzero] at h
    simp only [Outcome.ok.injEq, ← UInt64.toNat_inj, UInt64.toNat_div, Nat.pos_iff_ne_zero, ne_eq,
      h, not_false_eq_true, true_and]

/-- Every number below `2 ^ 64` is the value of a word. -/
theorem UInt64.exists_toNat_eq {n : Nat} (h : n < 2 ^ 64) : ∃ w : UInt64, w.toNat = n :=
  ⟨UInt64.ofNat n, UInt64.toNat_ofNat_of_lt' h⟩

def sumU64 (words : List UInt64) : Outcome UInt64 :=
  words.foldlM UInt64.checkedAdd 0

/-- A checked sum of words returns their sum. -/
theorem sumU64_eq_ok {words : List UInt64} {s : UInt64} :
    sumU64 words = .ok s ↔ (words.map UInt64.toNat).sum = s.toNat := by
  -- over any accumulator, by induction on the words still to be added
  have hgen : ∀ (words : List UInt64) (acc : UInt64),
      words.foldlM UInt64.checkedAdd acc = .ok s ↔
        acc.toNat + (words.map UInt64.toNat).sum = s.toNat := by
    intro words
    induction words with
    | nil =>
        intro acc
        simp [UInt64.toNat_inj]
    | cons w words ih =>
        intro acc
        simp only [List.foldlM_cons, Outcome.bind_eq_ok, UInt64.checkedAdd_eq_ok, ih,
          List.map_cons, List.sum_cons]
        constructor
        · rintro ⟨next, hnext, hsum⟩
          omega
        · intro hsum
          have hlt := s.toNat_lt
          have hfit : acc.toNat + w.toNat < 2 ^ 64 := by omega
          rcases UInt64.exists_toNat_eq hfit with ⟨next, hnext⟩
          exact ⟨next, hnext.symm, by omega⟩
  simpa [sumU64] using hgen words 0

/-- A checked sum panics exactly when the sum does not fit. -/
theorem UInt64.checkedAdd_eq_panic {a b : UInt64} :
    a.checkedAdd b = .panic .overflow ↔ 2 ^ 64 ≤ a.toNat + b.toNat := by
  unfold UInt64.checkedAdd
  split <;> simp <;> omega

def usizeDivCeil (a b : Nat) : Outcome Nat :=
  if b = 0 then
    .panic .divisionByZero
  else
    .ok (a / b + if a % b = 0 then 0 else 1)

/-- Division that rounds up, as the ceiling division of the order library. -/
theorem usizeDivCeil_eq_ok (a : Nat) {b : Nat} (hb : 0 < b) :
    usizeDivCeil a b = .ok (a ⌈/⌉ b) := by
  have hne : b ≠ 0 := Nat.pos_iff_ne_zero.1 hb
  -- both sides round up: a quotient, and one more if something is left over
  have hq : a / b + (if a % b = 0 then 0 else 1) = a ⌈/⌉ b := by
    rw [Nat.ceilDiv_eq_add_pred_div, Nat.add_sub_assoc hb]
    have hdiv : b * (a / b) + a % b = a := Nat.div_add_mod a b
    have hmod : a % b < b := Nat.mod_lt a hb
    symm
    rw [Nat.div_eq_iff hb, Nat.add_mul, Nat.mul_comm (a / b) b]
    split <;> omega
  simp [usizeDivCeil, hne, hq]

/-! ## Saturating word arithmetic -/

def UInt64.saturatingMul (a b : UInt64) : UInt64 :=
  UInt64.ofNat (min (a.toNat * b.toNat) (2 ^ 64 - 1))

def UInt64.saturatingSub (a b : UInt64) : UInt64 :=
  UInt64.ofNat (a.toNat - b.toNat)

@[simp] theorem UInt64.toNat_saturatingMul (a b : UInt64) :
    (a.saturatingMul b).toNat = min (a.toNat * b.toNat) (2 ^ 64 - 1) := by
  have hlt : min (a.toNat * b.toNat) (2 ^ 64 - 1) < 2 ^ 64 := by omega
  exact UInt64.toNat_ofNat_of_lt' hlt

@[simp] theorem UInt64.toNat_saturatingSub (a b : UInt64) :
    (a.saturatingSub b).toNat = a.toNat - b.toNat := by
  have hlt : a.toNat - b.toNat < 2 ^ 64 := Nat.lt_of_le_of_lt (Nat.sub_le _ _) a.toNat_lt
  exact UInt64.toNat_ofNat_of_lt' hlt

/-- `a.saturating_mul(b)` on `u128`, whose values are kept as numbers. -/
def u128SaturatingMul (a b : Nat) : Nat :=
  min (a * b) (2 ^ 128 - 1)

theorem u128SaturatingMul_toNat (a b : UInt64) :
    u128SaturatingMul a.toNat b.toNat = a.toNat * b.toNat := by
  -- the product of two words fits in two words
  have hle : a.toNat * b.toNat ≤ (2 ^ 64 - 1) * (2 ^ 64 - 1) :=
    Nat.mul_le_mul (Nat.le_of_lt_succ a.toNat_lt) (Nat.le_of_lt_succ b.toNat_lt)
  exact Nat.min_eq_left (Nat.le_trans hle (by decide))

/-! ## Signed words -/

def Int32.checkedAdd (a b : Int32) : Outcome Int32 :=
  if Int32.minValue.toInt ≤ a.toInt + b.toInt ∧ a.toInt + b.toInt ≤ Int32.maxValue.toInt then
    .ok (a + b)
  else
    .panic .overflow

/-- `a as usize`, which extends the sign. -/
def Int32.asUsize (a : Int32) : Nat :=
  a.toInt64.toUInt64.toNat

/-- A checked sum that returns is the sum of the values. -/
theorem Int32.checkedAdd_eq_ok {a b c : Int32} :
    a.checkedAdd b = .ok c ↔ a.toInt + b.toInt = c.toInt := by
  have hmin : Int32.minValue.toInt = -2147483648 := rfl
  have hmax : Int32.maxValue.toInt = 2147483647 := rfl
  unfold Int32.checkedAdd
  split
  · rename_i h
    have hsum : (a + b).toInt = a.toInt + b.toInt := by
      rw [Int32.toInt_add, Int.bmod_eq_emod]
      split <;> omega
    rw [Outcome.ok.injEq, ← Int32.toInt_inj, hsum]
  · rename_i h
    have hlt := c.toInt_lt
    have hle := c.le_toInt
    simp only [reduceCtorEq, false_iff]
    omega

/-- Every number in the range of an `i32` is the value of one. -/
theorem Int32.exists_toInt_eq {n : Int} (hlow : Int32.minValue.toInt ≤ n)
    (hhigh : n ≤ Int32.maxValue.toInt) : ∃ w : Int32, w.toInt = n :=
  ⟨Int32.ofInt n, Int32.toInt_ofInt_of_le hlow (Int.lt_add_one_of_le hhigh)⟩

theorem Int32.toInt_asUsize {a : Int32} (h : 0 ≤ a.toInt) : (a.asUsize : Int) = a.toInt := by
  have hvalue : a.toInt64.toBitVec.toInt = a.toInt := Int32.toInt_toInt64 a
  rw [BitVec.toInt_eq_toNat_cond] at hvalue
  change (a.toInt64.toBitVec.toNat : Int) = a.toInt
  split at hvalue <;> omega

/-- A negative number becomes a size beyond every buffer. -/
theorem Int32.lt_asUsize {a : Int32} (h : a.toInt < 0) : isizeMax < a.asUsize := by
  have hvalue : a.toInt64.toBitVec.toInt = a.toInt := Int32.toInt_toInt64 a
  have hlow := a.le_toInt
  rw [BitVec.toInt_eq_toNat_cond] at hvalue
  change isizeMax < a.toInt64.toBitVec.toNat
  unfold isizeMax
  split at hvalue <;> omega
