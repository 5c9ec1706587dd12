import Mathlib.Algebra.Field.Basic
import Mathlib.Data.Fintype.Card
import Mathlib.Data.Fintype.EquivFin
import Mathlib.Tactic.Common

/-!
# GF256 — arithmetic of GF(2^8) with the polynomial 0x11D

The source builds a logarithm and an exponential table by walking the powers of the generator,
and multiplies and inverts by table lookups.  Addition is XOR.  This module holds the tables and
the operations as the source computes them, and proves that they make the 256 bytes a field.

Nothing is checked on all pairs of bytes: the walk multiplies by the generator (`xtime`), that map
is additive, and its orbit of `1` visits every non-zero byte once.
-/

namespace CraftecCore
namespace Erasure

/-- A byte of erasure-coded data or of a coefficient vector. -/
@[ext]
structure GF256 where
  byte : UInt8
  deriving DecidableEq, Repr

namespace GF256

/-! ## Tables -/

def polynomial : UInt16 := 0x11D

structure Tables where
  log : List UInt8
  exp : List UInt8

/-- One round of the table loop; the state is the current power and the two tables. -/
def fillStep (s : UInt16 × Tables) (i : Nat) : UInt16 × Tables :=
  let val := s.1
  let exp := s.2.exp.set i val.toUInt8
  let log := s.2.log.set val.toNat (UInt8.ofNat i)
  let val := val <<< 1
  let val := if val &&& 0x100 ≠ 0 then val ^^^ polynomial else val
  (val, { log := log, exp := exp })

def emptyTables : Tables :=
  { log := List.replicate 256 0
    exp := List.replicate 256 0 }

def tables : Tables :=
  let t := ((List.range 255).foldl fillStep (1, emptyTables)).2
  -- `exp[255]` is not used for multiplication but set for completeness
  { t with exp := t.exp.set 255 (t.exp.getD 0 0) }

/-! ## Field operations -/

def add (a b : GF256) : GF256 :=
  ⟨a.byte ^^^ b.byte⟩

def sub (a b : GF256) : GF256 :=
  ⟨a.byte ^^^ b.byte⟩

def logOf (a : GF256) : UInt16 :=
  (tables.log.getD a.byte.toNat 0).toUInt16

def expOf (n : UInt16) : GF256 :=
  ⟨tables.exp.getD n.toNat 0⟩

def mul (a b : GF256) : GF256 :=
  if a.byte = 0 ∨ b.byte = 0 then
    ⟨0⟩
  else
    expOf ((logOf a + logOf b) % 255)

def mulTable (a : GF256) : List GF256 :=
  if a.byte = 0 then
    List.replicate 256 ⟨0⟩
  else
    (List.range 256).map fun x =>
      if x = 0 then ⟨0⟩ else expOf ((logOf a + logOf ⟨UInt8.ofNat x⟩) % 255)

/-- `table[x as usize]`; a byte is always in range of a 256-entry table. -/
def lookup (table : List GF256) (x : GF256) : GF256 :=
  table.getD x.byte.toNat ⟨0⟩

def inv (a : GF256) : Option GF256 :=
  if a.byte = 0 then none else some (expOf ((255 - logOf a) % 255))

instance : Zero GF256 := ⟨⟨0⟩⟩
instance : One GF256 := ⟨⟨1⟩⟩

/-- The `^=` of the table-driven loops. -/
instance : XorOp GF256 := ⟨fun a b => ⟨a.byte ^^^ b.byte⟩⟩

/-! ## The generator walk -/

/-- Multiplication by the generator: the update of `val` in the table loop, on bytes. -/
def xtime (a : UInt8) : UInt8 :=
  (a <<< 1) ^^^ (if a &&& 0x80 = 0 then 0 else 0x1D)

def power (n : Nat) : UInt8 :=
  xtime^[n] 1

theorem xtime_zero : xtime 0 = 0 := by decide

private theorem topBit_cases (a : UInt8) : a &&& 0x80 = 0 ∨ a &&& 0x80 = 0x80 := by
  have h : ∀ n < 256, UInt8.ofNat n &&& 0x80 = 0 ∨ UInt8.ofNat n &&& 0x80 = 0x80 := by
    decide +kernel
  simpa using h a.toNat a.toNat_lt

private theorem xor_and_right (a b c : UInt8) : (a ^^^ b) &&& c = (a &&& c) ^^^ (b &&& c) := by
  -- bit by bit
  refine UInt8.toBitVec_inj.1 (BitVec.eq_of_getLsbD_eq ?_)
  intro i _
  simp only [UInt8.toBitVec_and, UInt8.toBitVec_xor, BitVec.getLsbD_and, BitVec.getLsbD_xor]
  cases a.toBitVec.getLsbD i <;> cases c.toBitVec.getLsbD i <;> simp

private theorem xor_xor_xor_comm (a b c d : UInt8) :
    (a ^^^ b) ^^^ (c ^^^ d) = (a ^^^ c) ^^^ (b ^^^ d) := by
  rw [UInt8.xor_assoc, UInt8.xor_assoc, ← UInt8.xor_assoc b c d, UInt8.xor_comm b c,
    UInt8.xor_assoc c b d]

/-- Multiplication by the generator is additive. -/
theorem xtime_xor (a b : UInt8) : xtime (a ^^^ b) = xtime a ^^^ xtime b := by
  unfold xtime
  rw [xor_xor_xor_comm, UInt8.shiftLeft_xor, xor_and_right]
  congr 1
  rcases topBit_cases a with ha | ha <;> rcases topBit_cases b with hb | hb <;> simp [ha, hb]

theorem xtime_iterate_zero (n : Nat) : xtime^[n] 0 = 0 := by
  induction n with
  | zero => rfl
  | succ n ih => rw [Function.iterate_succ_apply, xtime_zero, ih]

theorem xtime_iterate_xor (n : Nat) (a b : UInt8) :
    xtime^[n] (a ^^^ b) = xtime^[n] a ^^^ xtime^[n] b := by
  induction n generalizing a b with
  | zero => rfl
  | succ n ih => simp only [Function.iterate_succ_apply, xtime_xor, ih]

theorem xtime_injective : Function.Injective xtime := by
  -- an additive map is injective if nothing but zero is mapped to zero
  have hker : ∀ n < 256, xtime (UInt8.ofNat n) = 0 → UInt8.ofNat n = 0 := by
    decide +kernel
  intro a b hab
  have hzero : xtime (a ^^^ b) = 0 := by
    rw [xtime_xor, hab, UInt8.xor_self]
  have := hker (a ^^^ b).toNat (a ^^^ b).toNat_lt
  rw [UInt8.ofNat_toNat] at this
  exact UInt8.xor_eq_zero_iff.1 (this hzero)

theorem power_succ (n : Nat) : power (n + 1) = xtime (power n) :=
  Function.iterate_succ_apply' xtime n 1

theorem power_add (m n : Nat) : power (m + n) = xtime^[m] (power n) :=
  Function.iterate_add_apply xtime m n 1

def orbit : Nat → UInt8 → List UInt8
  | 0, _ => []
  | n + 1, a => a :: orbit n (xtime a)

theorem mem_orbit (n : Nat) (a : UInt8) {i : Nat} (hi : i < n) : xtime^[i] a ∈ orbit n a := by
  induction n generalizing a i with
  | zero => omega
  | succ n ih =>
      cases i with
      | zero => simp [orbit]
      | succ i =>
          have : xtime^[i] (xtime a) ∈ orbit n (xtime a) := ih (xtime a) (by omega)
          simpa [orbit, Function.iterate_succ_apply] using Or.inr this

/-- The walk returns to `1` after 255 rounds. -/
theorem power_255 : power 255 = 1 := by decide +kernel

/-- The walk does not return to `1` earlier. -/
theorem power_ne_one {n : Nat} (h0 : 0 < n) (hn : n < 255) : power n ≠ 1 := by
  -- the whole orbit is computed once, as a list
  have hcheck : 1 ∉ orbit 254 (xtime 1) := by decide +kernel
  obtain ⟨m, rfl⟩ : ∃ m, n = m + 1 := ⟨n - 1, by omega⟩
  intro h
  have hmem : xtime^[m] (xtime 1) ∈ orbit 254 (xtime 1) := mem_orbit 254 _ (by omega)
  have hone : xtime^[m] (xtime 1) = 1 := h
  rw [hone] at hmem
  exact hcheck hmem

theorem power_ne_zero (n : Nat) : power n ≠ 0 := by
  intro h
  have hinj : Function.Injective (xtime^[n]) := xtime_injective.iterate n
  have : (1 : UInt8) = 0 := hinj (by rw [xtime_iterate_zero]; exact h)
  exact absurd this (by decide)

theorem power_injective {i j : Nat} (hi : i < 255) (hj : j < 255) (h : power i = power j) :
    i = j := by
  wlog hij : i ≤ j generalizing i j
  · exact (this hj hi h.symm (by omega)).symm
  have hinj : Function.Injective (xtime^[i]) := xtime_injective.iterate i
  -- cancel the first `i` rounds of both walks
  have hone : (1 : UInt8) = power (j - i) := by
    apply hinj
    rw [← power_add, Nat.add_sub_cancel' hij]
    exact h
  by_contra hne
  exact power_ne_one (by omega) (by omega) hone.symm

theorem power_mod (n : Nat) : power (n % 255) = power n := by
  have hperiod : ∀ q r, power (255 * q + r) = power r := by
    intro q r
    induction q with
    | zero => simp
    | succ q ih =>
        have : 255 * (q + 1) + r = (255 * q + r) + 255 := by omega
        rw [this, power_add, power_255]
        exact ih
  conv_rhs => rw [← Nat.div_add_mod n 255, hperiod]

/-- Every non-zero byte is a power of the generator. -/
theorem exists_power {a : UInt8} (ha : a ≠ 0) : ∃ i < 255, power i = a := by
  let f : Fin 255 → Fin 255 := fun i =>
    ⟨(power i).toNat - 1, by
      have := (power i).toNat_lt
      omega⟩
  have hpos : ∀ b : UInt8, b ≠ 0 → 0 < b.toNat := by
    intro b hb
    have : b.toNat ≠ 0 := fun h => hb (UInt8.toNat_inj.1 h)
    omega
  -- 255 different powers fill the 255 non-zero bytes
  have hf : Function.Injective f := by
    intro i j hij
    have hi := hpos _ (power_ne_zero i)
    have hj := hpos _ (power_ne_zero j)
    have hval : (power i).toNat - 1 = (power j).toNat - 1 := congrArg Fin.val hij
    have : power i = power j := UInt8.toNat_inj.1 (by omega)
    exact Fin.ext (power_injective i.2 j.2 this)
  obtain ⟨i, hi⟩ := (Finite.injective_iff_surjective.1 hf)
    ⟨a.toNat - 1, by have := a.toNat_lt; omega⟩
  refine ⟨i, i.2, UInt8.toNat_inj.1 ?_⟩
  have hval : (power i).toNat - 1 = a.toNat - 1 := congrArg Fin.val hi
  have h1 := hpos _ (power_ne_zero i)
  have h2 := hpos _ ha
  omega

/-! ## What the tables hold -/

/-- The update of `val` on a byte is multiplication by the generator. -/
private theorem fillStep_val (n : Nat) (t : Tables) (i : Nat) :
    (fillStep ((power n).toUInt16, t) i).1 = (power (n + 1)).toUInt16 := by
  have hbyte : ∀ m < 256,
      (let val := (UInt8.ofNat m).toUInt16 <<< 1
        if val &&& 0x100 ≠ 0 then val ^^^ polynomial else val) =
        (xtime (UInt8.ofNat m)).toUInt16 := by
    decide +kernel
  have := hbyte (power n).toNat (power n).toNat_lt
  rw [UInt8.ofNat_toNat] at this
  rw [power_succ]
  exact this

/-- What the table loop has written after `n` rounds. -/
structure Filled (n : Nat) (s : UInt16 × Tables) : Prop where
  val : s.1 = (power n).toUInt16
  exp_length : s.2.exp.length = 256
  log_length : s.2.log.length = 256
  exp : ∀ i < n, s.2.exp.getD i 0 = power i
  log : ∀ i < n, s.2.log.getD (power i).toNat 0 = UInt8.ofNat i

private theorem getD_set_of_lt {α : Type} {l : List α} {i j : Nat} {a d : α} (h : i < l.length) :
    (l.set i a).getD j d = if i = j then a else l.getD j d := by
  simp only [List.getD_eq_getElem?_getD, List.getElem?_set]
  split
  · simp_all
  · rfl

/-- One round extends both tables and keeps what earlier rounds wrote. -/
theorem Filled.step {n : Nat} (hn : n < 255) {s : UInt16 × Tables} (h : Filled n s) :
    Filled (n + 1) (fillStep s n) := by
  obtain ⟨val, t⟩ := s
  have hval : val = (power n).toUInt16 := h.val
  subst hval
  have hexp : n < t.exp.length := by
    have := h.exp_length
    simp only at this
    omega
  have hlog : (power n).toNat < t.log.length := by
    have := h.log_length
    have := (power n).toNat_lt
    simp only at *
    omega
  -- the round writes `exp[n]` and `log[power n]`; no earlier entry is written again
  refine ⟨fillStep_val n t n, ?_, ?_, ?_, ?_⟩
  · simpa [fillStep] using h.exp_length
  · simpa [fillStep] using h.log_length
  · intro i hi
    simp only [fillStep, UInt8.toUInt8_toUInt16, getD_set_of_lt hexp]
    split
    · rename_i heq
      rw [heq]
    · exact h.exp i (by omega)
  · intro i hi
    simp only [fillStep, UInt8.toNat_toUInt16, getD_set_of_lt hlog]
    by_cases heq : n = i
    · simp [heq]
    · have hne : (power n).toNat ≠ (power i).toNat := by
        intro hp
        exact heq (power_injective (by omega) (by omega) (UInt8.toNat_inj.1 hp))
      rw [if_neg hne]
      exact h.log i (by omega)

theorem filled_foldl {n : Nat} (hn : n ≤ 255) :
    Filled n ((List.range n).foldl fillStep (1, emptyTables)) := by
  induction n with
  | zero =>
      exact ⟨rfl, List.length_replicate, List.length_replicate, by simp, by simp⟩
  | succ n ih =>
      rw [List.range_succ, List.foldl_append]
      exact (ih (by omega)).step (by omega)

theorem tables_exp {i : Nat} (hi : i < 255) : tables.exp.getD i 0 = power i := by
  have h := filled_foldl (n := 255) (by omega)
  have hlen : 255 < ((List.range 255).foldl fillStep (1, emptyTables)).2.exp.length := by
    rw [h.exp_length]
    omega
  simp only [tables, getD_set_of_lt hlen, if_neg (show 255 ≠ i by omega)]
  exact h.exp i hi

theorem tables_log {i : Nat} (hi : i < 255) :
    tables.log.getD (power i).toNat 0 = UInt8.ofNat i := by
  have h := (filled_foldl (n := 255) (by omega)).log i hi
  simp only [tables]
  exact h

/-! ## Operations on powers of the generator -/

theorem logOf_power {i : Nat} (hi : i < 255) : (logOf ⟨power i⟩).toNat = i := by
  simp only [logOf, tables_log hi, UInt8.toNat_toUInt16, UInt8.toNat_ofNat']
  omega

theorem expOf_eq {n : UInt16} (hn : n.toNat < 255) : expOf n = ⟨power n.toNat⟩ := by
  simp only [expOf, tables_exp hn]

/-- The table product of two powers adds the exponents. -/
theorem mul_power (i : Nat) (hi : i < 255) (j : Nat) (hj : j < 255) :
    mul ⟨power i⟩ ⟨power j⟩ = ⟨power (i + j)⟩ := by
  have hsum : ((logOf ⟨power i⟩ + logOf ⟨power j⟩) % 255).toNat = (i + j) % 255 := by
    simp only [UInt16.toNat_mod, UInt16.toNat_add, logOf_power hi, logOf_power hj]
    rw [Nat.mod_eq_of_lt (show i + j < 2 ^ 16 by omega)]
    rfl
  have hlt : ((logOf ⟨power i⟩ + logOf ⟨power j⟩) % 255).toNat < 255 := by
    rw [hsum]
    omega
  rw [mul, if_neg (by simp [power_ne_zero]), expOf_eq hlt, hsum, power_mod]

theorem zero_byte : (0 : GF256).byte = 0 := rfl

/-- A table product by a power of the generator is that many rounds of the walk. -/
theorem mul_eq_iterate {i : Nat} (hi : i < 255) (b : GF256) :
    mul ⟨power i⟩ b = ⟨xtime^[i] b.byte⟩ := by
  by_cases hb : b.byte = 0
  · simp [mul, hb, xtime_iterate_zero]
  · obtain ⟨j, hj, hbj⟩ := exists_power hb
    have : b = ⟨power j⟩ := GF256.ext hbj.symm
    rw [this, mul_power i hi j hj, power_add]

theorem mul_of_zero {a b : GF256} (h : a.byte = 0 ∨ b.byte = 0) : mul a b = 0 := by
  rw [mul, if_pos h]
  rfl

theorem inv_power {i : Nat} (hi : i < 255) : inv ⟨power i⟩ = some ⟨power ((255 - i) % 255)⟩ := by
  have hsub : ((255 - logOf ⟨power i⟩) % 255).toNat = (255 - i) % 255 := by
    have hle : logOf ⟨power i⟩ ≤ 255 := by
      rw [UInt16.le_iff_toNat_le, logOf_power hi]
      exact Nat.le_of_lt hi
    rw [UInt16.toNat_mod, UInt16.toNat_sub_of_le _ _ hle, logOf_power hi]
    rfl
  have hlt : ((255 - logOf ⟨power i⟩) % 255).toNat < 255 := by
    rw [hsub]
    omega
  rw [inv, if_neg (by simp [power_ne_zero]), expOf_eq hlt, hsub]

/-! ## The field -/

theorem mul_comm' (a b : GF256) : mul a b = mul b a := by
  simp only [mul, or_comm, UInt16.add_comm]

theorem mul_add' (a b c : GF256) : mul a (add b c) = add (mul a b) (mul a c) := by
  by_cases ha : a.byte = 0
  · rw [mul_of_zero (Or.inl ha), mul_of_zero (Or.inl ha), mul_of_zero (Or.inl ha)]
    decide
  · obtain ⟨i, hi, hai⟩ := exists_power ha
    have : a = ⟨power i⟩ := GF256.ext hai.symm
    rw [this, mul_eq_iterate hi, mul_eq_iterate hi, mul_eq_iterate hi]
    exact GF256.ext (xtime_iterate_xor i b.byte c.byte)

theorem mul_assoc' (a b c : GF256) : mul (mul a b) c = mul a (mul b c) := by
  -- with a zero factor both sides are zero; otherwise every factor is a power
  by_cases ha : a.byte = 0
  · rw [mul_of_zero (Or.inl ha), mul_of_zero (Or.inl ha), mul_of_zero (Or.inl zero_byte)]
  by_cases hb : b.byte = 0
  · rw [mul_of_zero (Or.inr hb), mul_of_zero (Or.inl hb), mul_of_zero (Or.inl zero_byte),
      mul_of_zero (Or.inr zero_byte)]
  obtain ⟨i, hi, hai⟩ := exists_power ha
  obtain ⟨j, hj, hbj⟩ := exists_power hb
  have hA : a = ⟨power i⟩ := GF256.ext hai.symm
  have hB : b = ⟨power j⟩ := GF256.ext hbj.symm
  have hmod : (i + j) % 255 < 255 := Nat.mod_lt _ (by decide)
  rw [hA, hB, mul_power i hi j hj, ← power_mod (i + j), mul_eq_iterate hmod, mul_eq_iterate hj,
    mul_eq_iterate hi]
  refine GF256.ext ?_
  change xtime^[(i + j) % 255] c.byte = xtime^[i] (xtime^[j] c.byte)
  rw [← Function.iterate_add_apply]
  by_cases hc : c.byte = 0
  · simp [hc, xtime_iterate_zero]
  · obtain ⟨l, _, hcl⟩ := exists_power hc
    rw [← hcl, ← power_add, ← power_add, ← power_mod, Nat.mod_add_mod, power_mod]

theorem one_mul' (a : GF256) : mul 1 a = a := by
  have := mul_eq_iterate (i := 0) (by omega) a
  exact this

theorem mul_inv' {a b : GF256} (h : inv a = some b) : mul a b = 1 := by
  -- an inverse was returned, so `a` is a power, and the exponents add up to 255
  have ha : a.byte ≠ 0 := by
    intro h0
    simp [inv, h0] at h
  obtain ⟨i, hi, hai⟩ := exists_power ha
  have hA : a = ⟨power i⟩ := GF256.ext hai.symm
  rw [hA, inv_power hi] at h
  obtain rfl := Option.some.inj h
  rw [hA, mul_power i hi _ (Nat.mod_lt _ (by decide)), ← power_mod, Nat.add_mod_mod,
    Nat.add_sub_cancel' (Nat.le_of_lt hi)]
  rfl

theorem inv_eq_none {a : GF256} : inv a = none ↔ a = 0 := by
  rw [GF256.ext_iff]
  unfold inv
  split <;> simp_all [zero_byte]

instance : Add GF256 := ⟨add⟩
instance : Sub GF256 := ⟨sub⟩
instance : Neg GF256 := ⟨id⟩
instance : Mul GF256 := ⟨mul⟩
instance : Inv GF256 := ⟨fun a => (inv a).getD 0⟩

instance : Field GF256 where
  add_assoc a b c := GF256.ext (UInt8.xor_assoc _ _ _)
  zero_add a := GF256.ext UInt8.zero_xor
  add_zero a := GF256.ext UInt8.xor_zero
  add_comm a b := GF256.ext (UInt8.xor_comm _ _)
  neg_add_cancel a := GF256.ext UInt8.xor_self
  left_distrib := mul_add'
  right_distrib a b c := by
    change mul (add a b) c = add (mul a c) (mul b c)
    rw [mul_comm', mul_add', mul_comm' c a, mul_comm' c b]
  zero_mul a := mul_of_zero (Or.inl rfl)
  mul_zero a := mul_of_zero (Or.inr rfl)
  mul_assoc := mul_assoc'
  one_mul := one_mul'
  mul_one a := (mul_comm' a 1).trans (one_mul' a)
  mul_comm := mul_comm'
  exists_pair_ne := ⟨0, 1, by decide⟩
  inv_zero := rfl
  mul_inv_cancel a ha := by
    cases h : inv a with
    | none => exact absurd (inv_eq_none.1 h) ha
    | some b =>
        have hb : a⁻¹ = b := by
          change (inv a).getD 0 = b
          rw [h]
          rfl
        rw [hb]
        exact mul_inv' h
  nsmul := nsmulRec
  zsmul := zsmulRec
  nnqsmul := _
  nnqsmul_def := fun _ _ => rfl
  qsmul := _
  qsmul_def := fun _ _ => rfl

theorem add_eq (a b : GF256) : add a b = a + b := rfl

theorem mul_eq (a b : GF256) : mul a b = a * b := rfl

theorem xor_eq (a b : GF256) : a ^^^ b = a + b := rfl

theorem sub_eq_add (a b : GF256) : a - b = a + b := rfl

theorem inv_eq_some {a : GF256} (ha : a ≠ 0) : inv a = some a⁻¹ := by
  cases h : inv a with
  | none => exact absurd (inv_eq_none.1 h) ha
  | some b =>
      change some b = some ((inv a).getD 0)
      rw [h]
      rfl

/-- The per-scalar table multiplies like the two-operand product. -/
theorem lookup_mulTable (a x : GF256) : lookup (mulTable a) x = a * x := by
  rw [← mul_eq]
  have hx : x.byte.toNat < 256 := x.byte.toNat_lt
  -- the source fills the table of zero in a branch of its own
  by_cases ha : a.byte = 0
  · rw [mul_of_zero (Or.inl ha)]
    simp only [lookup, mulTable, ha, if_true]
    simp only [List.getD_eq_getElem?_getD, List.getElem?_replicate, hx, if_true]
    rfl
  · simp only [lookup, mulTable, ha, if_false]
    simp only [List.getD_eq_getElem?_getD, List.getElem?_map, List.getElem?_range hx,
      Option.map_some, Option.getD_some, UInt8.ofNat_toNat, mul, ha, false_or]
    by_cases hx0 : x.byte = 0
    · simp [hx0]
    · have : x.byte.toNat ≠ 0 := fun h => hx0 (UInt8.toNat_inj.1 h)
      simp [hx0, this]

end GF256
end Erasure
end CraftecCore
