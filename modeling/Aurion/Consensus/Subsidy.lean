import Aurion.Primitives
import Mathlib.Algebra.BigOperators.Intervals
import Mathlib.Algebra.Order.BigOperators.Group.Finset
import Mathlib.Algebra.Order.Ring.GeomSum

/-!
# Emission schedule
-/

namespace Aurion

def quantaPerAur : Nat := 100000000

def maxTotalSupplyAur : Nat := 66000000

def maxTotalSupplyQuanta : Quantum := Quantum.fromRaw (maxTotalSupplyAur * quantaPerAur)

def creatorAllocationAur : Nat := 19800000

def devAllocationAur : Nat := 6600000

def totalGenesisPremineQuanta : Quantum :=
  Quantum.fromRaw ((creatorAllocationAur + devAllocationAur) * quantaPerAur)

def initialSubsidyAur : Nat := 99

def initialSubsidyQuanta : Quantum := Quantum.fromRaw (initialSubsidyAur * quantaPerAur)

def subsidyHalvingInterval : Nat := 200000

def maxHalvings : Nat := 64

def calculateBlockSubsidy (height : UInt64) : Quantum :=
  let halvings := height.toNat / subsidyHalvingInterval
  if halvings ≥ maxHalvings then Quantum.zero
  else Quantum.fromRaw (initialSubsidyQuanta.raw >>> halvings)

section Emission

/-- The subsidies of the heights `1` to `height` together. -/
def cumulativeSubsidy (height : Nat) : Nat :=
  ∑ i ∈ Finset.Icc 1 height, (calculateBlockSubsidy (UInt64.ofNat i)).raw

@[simp]
theorem cumulativeSubsidy_zero : cumulativeSubsidy 0 = 0 := rfl

theorem cumulativeSubsidy_succ (height : Nat) :
    cumulativeSubsidy (height + 1) =
      cumulativeSubsidy height + (calculateBlockSubsidy (UInt64.ofNat (height + 1))).raw :=
  Finset.sum_Icc_succ_top (Nat.le_add_left 1 height) _

/-- The guard on the number of halvings is redundant: the shift reaches zero first. -/
theorem raw_calculateBlockSubsidy (height : UInt64) :
    (calculateBlockSubsidy height).raw = 9900000000 / 2 ^ (height.toNat / 200000) := by
  have initial : initialSubsidyQuanta.raw = 9900000000 := by decide
  simp only [calculateBlockSubsidy, subsidyHalvingInterval, maxHalvings, initial]
  split
  next many =>
      have large : 2 ^ 64 ≤ 2 ^ (height.toNat / 200000) := Nat.pow_le_pow_right (by decide) many
      rw [Nat.div_eq_of_lt (Nat.lt_of_lt_of_le (by decide) large)]
      rfl
  next few =>
      rw [Nat.shiftRight_eq_div_pow]
      exact Quantum.raw_fromRaw (Nat.lt_of_le_of_lt (Nat.div_le_self _ _) (by decide))

/-- A sum over eras of one length counts each era's value that many times. -/
theorem sum_range_mul_div (interval eras : Nat) (positive : 0 < interval) (value : Nat → Nat) :
    ∑ i ∈ Finset.range (eras * interval), value (i / interval) =
      interval * ∑ era ∈ Finset.range eras, value era := by
  induction eras with
  | zero => simp
  | succ eras inductionHypothesis =>
      have sameEra : ∀ i ∈ Finset.range interval,
          value ((eras * interval + i) / interval) = value eras := by
        intro i membership
        rw [Nat.mul_comm, Nat.mul_add_div positive,
          Nat.div_eq_of_lt (Finset.mem_range.mp membership), Nat.add_zero]
      rw [Nat.succ_mul, Finset.sum_range_add, inductionHypothesis, Finset.sum_congr rfl sameEra,
        Finset.sum_const, Finset.card_range, Finset.sum_range_succ, Nat.nsmul_eq_mul, Nat.mul_add]

theorem cumulativeSubsidy_le (height : Nat) (fits : height < 2 ^ 64) :
    cumulativeSubsidy height ≤ 3960000000000000 := by
  let era (i : Nat) : Nat := 9900000000 / 2 ^ (i / 200000)
  have schedule : ∀ i ∈ Finset.Icc 1 height,
      (calculateBlockSubsidy (UInt64.ofNat i)).raw = era i := by
    intro i membership
    have bound := (Finset.mem_Icc.mp membership).2
    rw [raw_calculateBlockSubsidy, UInt64.toNat_ofNat_of_lt' (Nat.lt_of_le_of_lt bound fits)]
  have subset : Finset.Icc 1 height ⊆ Finset.range ((height + 1) * 200000) := by
    intro i membership
    rw [Finset.mem_Icc] at membership
    rw [Finset.mem_range]
    omega
  calc cumulativeSubsidy height
      = ∑ i ∈ Finset.Icc 1 height, era i := Finset.sum_congr rfl schedule
    _ ≤ ∑ i ∈ Finset.range ((height + 1) * 200000), era i :=
        Finset.sum_le_sum_of_subset subset
    _ = 200000 * ∑ k ∈ Finset.range (height + 1), 9900000000 / 2 ^ k :=
        sum_range_mul_div 200000 (height + 1) (by decide) fun k => 9900000000 / 2 ^ k
    _ ≤ 200000 * (9900000000 * 2 / (2 - 1)) :=
        Nat.mul_le_mul_left _ (Nat.geom_sum_le (le_refl 2) _ _)
    _ = 3960000000000000 := by norm_num

/-- The premine and every subsidy ever due stay within the hard cap. -/
theorem premine_add_cumulativeSubsidy_le (height : Nat) (fits : height < 2 ^ 64) :
    totalGenesisPremineQuanta.raw + cumulativeSubsidy height ≤ maxTotalSupplyQuanta.raw := by
  have premine : totalGenesisPremineQuanta.raw = 2640000000000000 := by decide
  have cap : maxTotalSupplyQuanta.raw = 6600000000000000 := by decide
  have emission := cumulativeSubsidy_le height fits
  omega

end Emission

end Aurion
