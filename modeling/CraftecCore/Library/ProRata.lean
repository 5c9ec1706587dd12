import Mathlib.Algebra.BigOperators.Group.List.Basic
import Mathlib.Algebra.Order.Ring.Nat
import Mathlib.Tactic.Common

/-!
# ProRata — dividing an amount in proportion to weights, rounded down

Every claimant gets the integer part of its exact share `amount * weight / total`.  What is paid and
what is cut off together make up the exact shares, so the payments never exceed the amount, and when
the weights make up the total less than one unit is left for each claimant.
-/

namespace ProRata

def share (amount total weight : ℕ) : ℕ :=
  amount * weight / total

def paid (amount total : ℕ) (weights : List ℕ) : ℕ :=
  (weights.map (share amount total)).sum

/-- The parts cut off, in units of one `total`-th. -/
def cut (amount total : ℕ) (weights : List ℕ) : ℕ :=
  (weights.map fun weight => amount * weight % total).sum

variable {total : ℕ} {weights : List ℕ}

/-- A share is no larger than the amount, for a weight no larger than the total. -/
theorem share_le (amount : ℕ) {weight : ℕ} (h : weight ≤ total) :
    share amount total weight ≤ amount := by
  apply Nat.div_le_of_le_mul
  calc amount * weight
      ≤ amount * total := Nat.mul_le_mul_left amount h
    _ = total * amount := Nat.mul_comm amount total

/-- Payments and cut-off parts make up the exact shares. -/
theorem paid_add_cut (amount total : ℕ) (weights : List ℕ) :
    total * paid amount total weights + cut amount total weights = amount * weights.sum := by
  induction weights with
  | nil => simp [paid, cut]
  | cons weight weights ih =>
      have hdiv := Nat.div_add_mod (amount * weight) total
      simp only [paid, cut, share, List.map_cons, List.sum_cons, Nat.mul_add] at ih ⊢
      omega

/-- The payments never exceed the amount. -/
theorem paid_le (amount : ℕ) (htotal : 0 < total) (hsum : weights.sum ≤ total) :
    paid amount total weights ≤ amount := by
  have hle : total * paid amount total weights ≤ total * amount := by
    calc total * paid amount total weights
        ≤ total * paid amount total weights + cut amount total weights := Nat.le_add_right _ _
      _ = amount * weights.sum := paid_add_cut amount total weights
      _ ≤ amount * total := Nat.mul_le_mul_left amount hsum
      _ = total * amount := Nat.mul_comm amount total
  exact Nat.le_of_mul_le_mul_left hle htotal

/-- Less than one unit is cut off for each claimant. -/
theorem cut_lt (amount : ℕ) (htotal : 0 < total) : ∀ {weights : List ℕ}, weights ≠ [] →
    cut amount total weights < total * weights.length
  | [], hne => absurd rfl hne
  | [weight], _ => by
      simpa [cut] using Nat.mod_lt (amount * weight) htotal
  | weight :: weight' :: weights, _ => by
      have hhead := Nat.mod_lt (amount * weight) htotal
      have htail := cut_lt amount htotal (List.cons_ne_nil weight' weights)
      simp only [cut, List.map_cons, List.sum_cons, List.length_cons, Nat.mul_add] at htail ⊢
      omega

/-- When the weights make up the total, the rest is smaller than the number of claimants. -/
theorem lt_paid_add_length (amount : ℕ) (htotal : 0 < total) (hsum : weights.sum = total) :
    amount < paid amount total weights + weights.length := by
  have hne : weights ≠ [] := by
    rintro rfl
    simp [← hsum] at htotal
  have hlt : total * amount < total * (paid amount total weights + weights.length) := by
    calc total * amount
        = amount * weights.sum := by rw [hsum, Nat.mul_comm]
      _ = total * paid amount total weights + cut amount total weights :=
          (paid_add_cut amount total weights).symm
      _ < total * paid amount total weights + total * weights.length :=
          Nat.add_lt_add_left (cut_lt amount htotal hne) _
      _ = total * (paid amount total weights + weights.length) := (Nat.mul_add _ _ _).symm
  exact Nat.lt_of_mul_lt_mul_left hlt

end ProRata
