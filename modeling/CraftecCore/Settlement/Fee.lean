import CraftecCore.Library.Outcome
import CraftecCore.Library.ProRata
import Mathlib.Algebra.Order.BigOperators.Group.List

/-!
# Fee — protocol fees and payouts from a pool

An operator's share of a pool is proportional to its weight; the protocol fee is taken out of the
share.  Fee and payout make up the share exactly, whatever the rate, so the pool is divided as
`ProRata` says and stays solvent.
-/

namespace CraftecCore
namespace Settlement

open ProRata

/-! ## The source functions -/

def maxProtocolFeeBps : UInt64 := 5000

def bpsDenominator : UInt64 := 10000

/-- Fee and payout of an amount, where `payout = amount - fee`. -/
def calculateFee (amount feeBps : UInt64) : Outcome (UInt64 × UInt64) :=
  if feeBps ≤ maxProtocolFeeBps then
    let fee := amount.saturatingMul feeBps / bpsDenominator
    let payout := amount.saturatingSub fee
    .ok (fee, payout)
  else
    .panic .assertion

def calculateProportionalPayout (poolBalance operatorWeight totalWeight feeBps : UInt64) :
    Outcome (UInt64 × UInt64) :=
  if totalWeight = 0 ∨ operatorWeight = 0 ∨ poolBalance = 0 then
    .ok (0, 0)
  else
    -- the product is taken in `u128`
    let share := u128SaturatingMul poolBalance.toNat operatorWeight.toNat / totalWeight.toNat
    let share := UInt64.ofNat (min share (2 ^ 64 - 1))
    calculateFee share feeBps

/-! ## Fee and payout make up the share -/

/-- At a legal rate the fee is at most the amount, and the payout is the rest. -/
theorem calculateFee_eq_ok (amount : UInt64) {feeBps : UInt64} (hfee : feeBps ≤ maxProtocolFeeBps) :
    ∃ fee payout, calculateFee amount feeBps = .ok (fee, payout) ∧
      fee.toNat + payout.toNat = amount.toNat := by
  have hrate : feeBps.toNat ≤ 5000 := by
    simpa [maxProtocolFeeBps, UInt64.le_iff_toNat_le] using hfee
  have hle : (amount.saturatingMul feeBps / bpsDenominator).toNat ≤ amount.toNat := by
    rw [UInt64.toNat_div, UInt64.toNat_saturatingMul]
    -- a rate of at most one half, also where the product saturates
    apply Nat.div_le_of_le_mul
    calc min (amount.toNat * feeBps.toNat) (2 ^ 64 - 1)
        ≤ amount.toNat * feeBps.toNat := Nat.min_le_left _ _
      _ ≤ amount.toNat * 10000 := Nat.mul_le_mul_left _ (by omega)
      _ = bpsDenominator.toNat * amount.toNat := Nat.mul_comm _ _
  refine ⟨_, _, if_pos hfee, ?_⟩
  rw [UInt64.toNat_saturatingSub]
  omega

/-- For a weight within the total the proportional payout is the payout of the share, which the
clamp to `u64` leaves as it is. -/
theorem exists_calculateFee_share (poolBalance : UInt64)
    {operatorWeight totalWeight feeBps : UInt64}
    (hfee : feeBps ≤ maxProtocolFeeBps) (hweight : operatorWeight.toNat ≤ totalWeight.toNat) :
    ∃ amount : UInt64,
      amount.toNat = share poolBalance.toNat totalWeight.toNat operatorWeight.toNat ∧
      calculateProportionalPayout poolBalance operatorWeight totalWeight feeBps =
        calculateFee amount feeBps := by
  by_cases hzero : totalWeight = 0 ∨ operatorWeight = 0 ∨ poolBalance = 0
  · -- the early return is the fee on nothing
    refine ⟨0, ?_, ?_⟩
    · rcases hzero with rfl | rfl | rfl <;> simp [share]
    · rw [calculateProportionalPayout, if_pos hzero, calculateFee, if_pos hfee]
      simp [UInt64.saturatingMul, UInt64.saturatingSub]
  · -- the share is at most the balance, so it is not clamped
    have hle : share poolBalance.toNat totalWeight.toNat operatorWeight.toNat ≤ 2 ^ 64 - 1 :=
      Nat.le_trans (share_le _ hweight) (Nat.le_of_lt_succ poolBalance.toNat_lt)
    have hshare : (UInt64.ofNat (min (u128SaturatingMul poolBalance.toNat operatorWeight.toNat /
        totalWeight.toNat) (2 ^ 64 - 1))).toNat =
        share poolBalance.toNat totalWeight.toNat operatorWeight.toNat := by
      rw [u128SaturatingMul_toNat]
      change (UInt64.ofNat (min (share _ _ _) _)).toNat = _
      rw [Nat.min_eq_left hle]
      exact UInt64.toNat_ofNat_of_lt' (Nat.lt_succ_of_le hle)
    exact ⟨_, hshare, if_neg hzero⟩

/-- Fee and payout of an operator make up its proportional share. -/
theorem calculateProportionalPayout_eq_ok (poolBalance : UInt64)
    {operatorWeight totalWeight feeBps : UInt64} (hfee : feeBps ≤ maxProtocolFeeBps)
    (hweight : operatorWeight.toNat ≤ totalWeight.toNat) :
    ∃ fee payout,
      calculateProportionalPayout poolBalance operatorWeight totalWeight feeBps =
        .ok (fee, payout) ∧
      fee.toNat + payout.toNat =
        share poolBalance.toNat totalWeight.toNat operatorWeight.toNat := by
  rcases exists_calculateFee_share poolBalance hfee hweight with ⟨amount, hshare, hrun⟩
  rcases calculateFee_eq_ok amount hfee with ⟨fee, payout, hfeeRun, hsum⟩
  exact ⟨fee, payout, hrun.trans hfeeRun, hsum.trans hshare⟩

/-! ## Where the fee is exact -/

/-- The first product whose fee the saturated `u64` product gets wrong: the first multiple of the
denominator above `u64::MAX`. -/
def firstLossyProduct : ℕ :=
  ((2 ^ 64 - 1) / 10000 + 1) * 10000

/-- A run charges the fee `amount * rate / 10000`, computed without loss, and pays the rest. -/
def ChargesExactly (amount rate : ℕ) (run : Outcome (UInt64 × UInt64)) : Prop :=
  ∃ fee payout, run = .ok (fee, payout) ∧
    fee.toNat = amount * rate / 10000 ∧ payout.toNat = amount - amount * rate / 10000

/-- At a legal rate the fee is that of the product cut off at `u64::MAX`. -/
theorem calculateFee_toNat (amount : UInt64) {feeBps : UInt64} (hfee : feeBps ≤ maxProtocolFeeBps) :
    ∃ fee payout, calculateFee amount feeBps = .ok (fee, payout) ∧
      fee.toNat = min (amount.toNat * feeBps.toNat) (2 ^ 64 - 1) / 10000 ∧
      payout.toNat = amount.toNat - fee.toNat := by
  refine ⟨_, _, if_pos hfee, ?_, UInt64.toNat_saturatingSub _ _⟩
  rw [UInt64.toNat_div, UInt64.toNat_saturatingMul]
  rfl

/-- At a legal rate the fee is exact for the amounts whose product with the rate stays below the
first lossy one, and for no other. -/
theorem chargesExactly_calculateFee (amount : UInt64) {feeBps : UInt64}
    (hfee : feeBps ≤ maxProtocolFeeBps) :
    ChargesExactly amount.toNat feeBps.toNat (calculateFee amount feeBps) ↔
      amount.toNat * feeBps.toNat < firstLossyProduct := by
  rcases calculateFee_toNat amount hfee with ⟨fee, payout, hrun, hfeeNat, hpayout⟩
  constructor
  · rintro ⟨fee', payout', hrun', hexact, -⟩
    obtain ⟨rfl, rfl⟩ : fee = fee' ∧ payout = payout' := by
      simpa [hrun] using hrun'
    rw [firstLossyProduct]
    omega
  · intro hlt
    rw [firstLossyProduct] at hlt
    have hexact : fee.toNat = amount.toNat * feeBps.toNat / 10000 := by omega
    exact ⟨fee, payout, hrun, hexact, hexact ▸ hpayout⟩

/-- Fees are exact as long as the product of amount and rate stays below the first multiple of the
denominator above `u64::MAX`, for an amount and for an operator's share of a pool alike. -/
theorem fees_exact_iff (feeBps : UInt64) (hfee : feeBps ≤ maxProtocolFeeBps) :
    (∀ amount : UInt64,
      ChargesExactly amount.toNat feeBps.toNat (calculateFee amount feeBps) ↔
        amount.toNat * feeBps.toNat < firstLossyProduct) ∧
    (∀ poolBalance operatorWeight totalWeight : UInt64,
      operatorWeight ≤ totalWeight →
        (ChargesExactly (share poolBalance.toNat totalWeight.toNat operatorWeight.toNat)
          feeBps.toNat
          (calculateProportionalPayout poolBalance operatorWeight totalWeight feeBps) ↔
        share poolBalance.toNat totalWeight.toNat operatorWeight.toNat * feeBps.toNat <
          firstLossyProduct)) := by
  refine ⟨fun amount => chargesExactly_calculateFee amount hfee, ?_⟩
  intro poolBalance operatorWeight totalWeight hweight
  rcases exists_calculateFee_share poolBalance hfee (UInt64.le_iff_toNat_le.1 hweight) with
    ⟨amount, hshare, hrun⟩
  rw [hrun, ← hshare]
  exact chargesExactly_calculateFee amount hfee

/-- At the default rate of 5% the fee on one USDC is exact. -/
theorem fees_exact_iff_default :
    ChargesExactly 1000000 500 (calculateFee 1000000 500) ∧
      ChargesExactly (share 1000000 3 1) 500 (calculateProportionalPayout 1000000 1 3 500) :=
  ⟨((fees_exact_iff 500 (by decide)).1 1000000).2 (by decide),
    ((fees_exact_iff 500 (by decide)).2 1000000 1 3 (by decide)).2 (by decide)⟩

/-- At the maximum rate the largest amount is charged a ten-thousandth of it and not one half. -/
theorem not_fees_exact :
    ¬ ∀ amount feeBps : UInt64, feeBps ≤ maxProtocolFeeBps →
      ChargesExactly amount.toNat feeBps.toNat (calculateFee amount feeBps) := by
  intro h
  have hfee : (5000 : UInt64) ≤ maxProtocolFeeBps := by decide
  have hlt := (chargesExactly_calculateFee 18446744073709551615 hfee).1
    (h 18446744073709551615 5000 hfee)
  exact absurd hlt (by decide)

/-! ## Solvency -/

/-- What an operator's payout takes out of the pool. -/
def withdrawn (feePayout : UInt64 × UInt64) : ℕ :=
  feePayout.1.toNat + feePayout.2.toNat

/-- Operators whose weights fit in the total are paid their shares. -/
theorem exists_payouts (poolBalance : UInt64) {totalWeight feeBps : UInt64}
    (hfee : feeBps ≤ maxProtocolFeeBps) :
    ∀ {weights : List UInt64}, (∀ w ∈ weights, w.toNat ≤ totalWeight.toNat) →
      ∃ payouts,
        weights.mapM (fun w => calculateProportionalPayout poolBalance w totalWeight feeBps) =
          .ok payouts ∧
        (payouts.map withdrawn).sum =
          paid poolBalance.toNat totalWeight.toNat (weights.map UInt64.toNat)
  | [], _ => ⟨[], rfl, rfl⟩
  | w :: weights, hle => by
      rcases calculateProportionalPayout_eq_ok poolBalance hfee
        (hle w List.mem_cons_self) with ⟨fee, payout, hrun, hshare⟩
      rcases exists_payouts poolBalance hfee fun w' hw' => hle w' (List.mem_cons_of_mem w hw') with
        ⟨payouts, hrest, hsum⟩
      refine ⟨(fee, payout) :: payouts, ?_, ?_⟩
      · simp [hrun, hrest]
      · simp only [paid] at hsum
        simp [withdrawn, paid, hshare, hsum]

/-- The pool is solvent: all fees and payouts together never exceed its balance, and when the
weights make up the total less than one lamport for each operator stays behind. -/
theorem payouts_solvent (poolBalance totalWeight feeBps : UInt64) (weights : List UInt64)
    (hfee : feeBps ≤ maxProtocolFeeBps) (htotal : 0 < totalWeight)
    (hsum : (weights.map UInt64.toNat).sum ≤ totalWeight.toNat) :
    ∃ payouts,
      weights.mapM (fun w => calculateProportionalPayout poolBalance w totalWeight feeBps) =
        .ok payouts ∧
      (payouts.map withdrawn).sum ≤ poolBalance.toNat ∧
      ((weights.map UInt64.toNat).sum = totalWeight.toNat →
        poolBalance.toNat - (payouts.map withdrawn).sum < weights.length) := by
  have hpos : 0 < totalWeight.toNat := by
    simpa [UInt64.lt_iff_toNat_lt] using htotal
  have hle : ∀ w ∈ weights, w.toNat ≤ totalWeight.toNat := by
    intro w hw
    exact Nat.le_trans (List.single_le_sum (fun _ _ => Nat.zero_le _) _ (List.mem_map_of_mem hw))
      hsum
  rcases exists_payouts poolBalance hfee hle with ⟨payouts, hrun, hpaid⟩
  have hsolvent := paid_le poolBalance.toNat hpos hsum
  refine ⟨payouts, hrun, hpaid ▸ hsolvent, ?_⟩
  intro hall
  have hrest := lt_paid_add_length poolBalance.toNat hpos hall
  rw [List.length_map, ← hpaid] at hrest
  rw [← hpaid] at hsolvent
  omega

/-- A pool of one hundred lamports and three operators of equal weight. -/
theorem payouts_solvent_three :
    ∃ payouts, [1, 1, 1].mapM (fun w => calculateProportionalPayout 100 w 3 500) = .ok payouts ∧
      (payouts.map withdrawn).sum ≤ UInt64.toNat 100 ∧
      (([1, 1, 1] : List UInt64).map UInt64.toNat).sum = UInt64.toNat 3 ∧
      UInt64.toNat 100 - (payouts.map withdrawn).sum < 3 := by
  rcases payouts_solvent 100 3 500 [1, 1, 1] (by decide) (by decide) (by decide) with
    ⟨payouts, hrun, hle, hdust⟩
  exact ⟨payouts, hrun, hle, by decide, hdust (by decide)⟩

end Settlement
end CraftecCore
