import Aurion.Foundation.OrderedSet
import Aurion.Primitives
import Mathlib.Algebra.Order.Field.Rat
import Mathlib.Algebra.Order.Field.Basic
import Mathlib.Data.Prod.Lex

/-!
# Fee rates

Two fee rates are compared by cross multiplication in 256 bits.  The order is
that of the exact ratios, with the transaction id as the second key.
-/

namespace Aurion

open Foundation

structure FeeRateIndex where
  fee : Quantum
  sizeBytes : Nat
  txid : Hash256
  deriving DecidableEq, Repr

section Product

def wrappingAdd (left right : Nat) : Nat := (left + right) % 2 ^ 128

def wrappingMul (left right : Nat) : Nat := left * right % 2 ^ 128

def wrappingShl (value shift : Nat) : Nat := (value <<< shift) % 2 ^ 128

def u64Max : Nat := 2 ^ 64 - 1

/-- The product of two 128-bit numbers as a high and a low half. -/
def wideMulU128 (a b : Nat) : Nat × Nat :=
  let aLo := a &&& u64Max
  let aHi := a >>> 64
  let bLo := b &&& u64Max
  let bHi := b >>> 64
  let ll := wrappingMul aLo bLo
  let lh := wrappingMul aLo bHi
  let hl := wrappingMul aHi bLo
  let hh := wrappingMul aHi bHi
  let lo := wrappingAdd (wrappingAdd ll (wrappingShl lh 64)) (wrappingShl hl 64)
  let carryLh := lh >>> 64
  let carryHl := hl >>> 64
  let carryLoOverflow :=
    wrappingAdd (wrappingAdd (ll >>> 64) (lh &&& u64Max)) (hl &&& u64Max) >>> 64
  let hi := wrappingAdd (wrappingAdd (wrappingAdd hh carryLh) carryHl) carryLoOverflow
  (hi, lo)

theorem halves_lt {value : Nat} (fits : value < 2 ^ 128) :
    value &&& u64Max < 2 ^ 64 ∧ value >>> 64 < 2 ^ 64 := by
  simp only [u64Max, Nat.and_two_pow_sub_one_eq_mod, Nat.shiftRight_eq_div_pow]
  omega

/-- Halves of 64 bits have products below `2 ^ 128`. -/
theorem wrappingMul_of_lt {left right : Nat} (leftFits : left < 2 ^ 64)
    (rightFits : right < 2 ^ 64) : wrappingMul left right = left * right := by
  have product := Nat.mul_lt_mul'' leftFits rightFits
  exact Nat.mod_eq_of_lt (by omega)

/-- The four partial products of two numbers cut into halves. -/
theorem mul_eq_halves (a b : Nat) :
    a * b = a / 2 ^ 64 * (b / 2 ^ 64) * 2 ^ 128 +
      (a % 2 ^ 64 * (b / 2 ^ 64) + a / 2 ^ 64 * (b % 2 ^ 64)) * 2 ^ 64 +
      a % 2 ^ 64 * (b % 2 ^ 64) := by
  have splitA := Nat.div_add_mod' a (2 ^ 64)
  have splitB := Nat.div_add_mod' b (2 ^ 64)
  calc a * b = (a / 2 ^ 64 * 2 ^ 64 + a % 2 ^ 64) * (b / 2 ^ 64 * 2 ^ 64 + b % 2 ^ 64) := by
        rw [splitA, splitB]
    _ = _ := by ring

/-- The low half wraps exactly as often as the carries count. -/
theorem low_add_carries {ll lh hl : Nat} (llFits : ll < 2 ^ 128) :
    (lh >>> 64 + hl >>> 64 + wrappingAdd (wrappingAdd (ll >>> 64) (lh &&& u64Max))
        (hl &&& u64Max) >>> 64) * 2 ^ 128 +
      wrappingAdd (wrappingAdd ll (wrappingShl lh 64)) (wrappingShl hl 64) =
        ll + lh * 2 ^ 64 + hl * 2 ^ 64 := by
  simp only [wrappingAdd, wrappingShl, u64Max, Nat.and_two_pow_sub_one_eq_mod,
    Nat.shiftRight_eq_div_pow, Nat.shiftLeft_eq]
  omega

/-- Three numbers of 64 bits are added up without a wrap. -/
theorem wrappingAdd_middle {ll lh hl : Nat} (llFits : ll < 2 ^ 128) :
    wrappingAdd (wrappingAdd (ll >>> 64) (lh &&& u64Max)) (hl &&& u64Max) =
      ll >>> 64 + (lh &&& u64Max) + (hl &&& u64Max) := by
  simp only [wrappingAdd, u64Max, Nat.and_two_pow_sub_one_eq_mod, Nat.shiftRight_eq_div_pow]
  omega

/-- A sum below `2 ^ 128` is added up without a wrap. -/
theorem wrappingAdd_of_lt {hh carryLh carryHl carryLo : Nat}
    (fits : hh + carryLh + carryHl + carryLo < 2 ^ 128) :
    wrappingAdd (wrappingAdd (wrappingAdd hh carryLh) carryHl) carryLo =
      hh + carryLh + carryHl + carryLo := by
  simp only [wrappingAdd, Nat.mod_add_mod]
  exact Nat.mod_eq_of_lt fits

/-- The high half is the exact sum of the last partial product and the carries. -/
theorem wideMulU128_high {a b : Nat} (aFits : a < 2 ^ 128) (bFits : b < 2 ^ 128) :
    let ll := wrappingMul (a &&& u64Max) (b &&& u64Max)
    let lh := wrappingMul (a &&& u64Max) (b >>> 64)
    let hl := wrappingMul (a >>> 64) (b &&& u64Max)
    let hh := wrappingMul (a >>> 64) (b >>> 64)
    let high := hh + lh >>> 64 + hl >>> 64 +
      wrappingAdd (wrappingAdd (ll >>> 64) (lh &&& u64Max)) (hl &&& u64Max) >>> 64
    high * 2 ^ 128 + (wideMulU128 a b).2 = a * b ∧ (wideMulU128 a b).1 = high := by
  intro ll lh hl hh high
  obtain ⟨aLoFits, aHiFits⟩ := halves_lt aFits
  obtain ⟨bLoFits, bHiFits⟩ := halves_lt bFits
  have llFits : ll < 2 ^ 128 := Nat.mod_lt _ (by decide)
  have products : hh * 2 ^ 128 + (ll + lh * 2 ^ 64 + hl * 2 ^ 64) = a * b := by
    rw [mul_eq_halves a b, show ll = _ from wrappingMul_of_lt aLoFits bLoFits,
      show lh = _ from wrappingMul_of_lt aLoFits bHiFits,
      show hl = _ from wrappingMul_of_lt aHiFits bLoFits,
      show hh = _ from wrappingMul_of_lt aHiFits bHiFits]
    simp only [u64Max, Nat.and_two_pow_sub_one_eq_mod, Nat.shiftRight_eq_div_pow]
    ring
  have whole : high * 2 ^ 128 + (wideMulU128 a b).2 = a * b := by
    rw [← products, ← low_add_carries llFits]
    change _ * _ + wrappingAdd (wrappingAdd ll (wrappingShl lh 64)) (wrappingShl hl 64) = _
    ring
  -- The product of two 128-bit numbers leaves no room for a wrap of the high half.
  have bound : high * 2 ^ 128 < 2 ^ 128 * 2 ^ 128 :=
    lt_of_le_of_lt (Nat.le.intro whole) (Nat.mul_lt_mul'' aFits bFits)
  have highFits : high < 2 ^ 128 := Nat.lt_of_mul_lt_mul_right bound
  exact ⟨whole, wrappingAdd_of_lt highFits⟩

/-- No carry between the partial products is lost. -/
theorem wideMulU128_exact {a b : Nat} (aFits : a < 2 ^ 128) (bFits : b < 2 ^ 128) :
    (wideMulU128 a b).1 * 2 ^ 128 + (wideMulU128 a b).2 = a * b ∧
      (wideMulU128 a b).2 < 2 ^ 128 := by
  obtain ⟨whole, high⟩ := wideMulU128_high aFits bFits
  rw [high]
  exact ⟨whole, Nat.mod_lt _ (by decide)⟩

/-- The product is exact.  The partial products and the sums of the carry and
of the high half do not wrap, and what the low half wraps is what the three
carries put into the high half. -/
theorem wideMulU128_accounts {a b : Nat} (aFits : a < 2 ^ 128) (bFits : b < 2 ^ 128) :
    ((wideMulU128 a b).1 * 2 ^ 128 + (wideMulU128 a b).2 = a * b ∧
      (wideMulU128 a b).1 < 2 ^ 128 ∧ (wideMulU128 a b).2 < 2 ^ 128) ∧
    let aLo := a &&& u64Max
    let aHi := a >>> 64
    let bLo := b &&& u64Max
    let bHi := b >>> 64
    let ll := wrappingMul aLo bLo
    let lh := wrappingMul aLo bHi
    let hl := wrappingMul aHi bLo
    let hh := wrappingMul aHi bHi
    let carryLoOverflow :=
      wrappingAdd (wrappingAdd (ll >>> 64) (lh &&& u64Max)) (hl &&& u64Max) >>> 64
    (ll = aLo * bLo ∧ lh = aLo * bHi ∧ hl = aHi * bLo ∧ hh = aHi * bHi) ∧
      carryLoOverflow = (ll >>> 64 + (lh &&& u64Max) + (hl &&& u64Max)) >>> 64 ∧
      (wideMulU128 a b).1 = hh + lh >>> 64 + hl >>> 64 + carryLoOverflow ∧
      (lh >>> 64 + hl >>> 64 + carryLoOverflow) * 2 ^ 128 + (wideMulU128 a b).2 =
        ll + lh * 2 ^ 64 + hl * 2 ^ 64 := by
  obtain ⟨exactly, lowFits⟩ := wideMulU128_exact aFits bFits
  have highFits : (wideMulU128 a b).1 < 2 ^ 128 := Nat.mod_lt _ (by decide)
  refine ⟨⟨exactly, highFits, lowFits⟩, ?_⟩
  intro aLo aHi bLo bHi ll lh hl hh carryLoOverflow
  obtain ⟨aLoFits, aHiFits⟩ := halves_lt aFits
  obtain ⟨bLoFits, bHiFits⟩ := halves_lt bFits
  have llFits : ll < 2 ^ 128 := Nat.mod_lt _ (by decide)
  refine ⟨?products, ?middle, ?high, ?low⟩
  case products =>
    exact ⟨wrappingMul_of_lt aLoFits bLoFits, wrappingMul_of_lt aLoFits bHiFits,
      wrappingMul_of_lt aHiFits bLoFits, wrappingMul_of_lt aHiFits bHiFits⟩
  case middle => exact congrArg (· >>> 64) (wrappingAdd_middle llFits)
  case high => exact (wideMulU128_high aFits bFits).2
  case low => exact low_add_carries llFits

/-- In the square of the largest number the low half wraps and its carry reaches
the high half. -/
theorem wideMulU128_accounts_max :
    (wideMulU128 (2 ^ 128 - 1) (2 ^ 128 - 1)).1 * 2 ^ 128 +
        (wideMulU128 (2 ^ 128 - 1) (2 ^ 128 - 1)).2 = (2 ^ 128 - 1) * (2 ^ 128 - 1) ∧
      wideMulU128 (2 ^ 128 - 1) (2 ^ 128 - 1) = (2 ^ 128 - 2, 1) :=
  ⟨(wideMulU128_accounts (by decide) (by decide)).1.1, by decide⟩

end Product

namespace FeeRateIndex

/-- Fee rates by cross multiplication, ties by the bytes of the transaction ids. -/
def cmp (self other : FeeRateIndex) : Ordering :=
  let lhs := wideMulU128 self.fee.raw other.sizeBytes
  let rhs := wideMulU128 other.fee.raw self.sizeBytes
  match (compare lhs.1 rhs.1).then (compare lhs.2 rhs.2) with
  | .eq => compareOfLessAndEq self.txid.asBytes other.txid.asBytes
  | rates => rates

/-- Whether the fee rate is strictly higher. -/
def beats (self other : FeeRateIndex) : Bool := self.cmp other == .gt

/-- The exact ratio of fee and size, then the id as a number. -/
def rank (index : FeeRateIndex) : ℚ ×ₗ ℕ :=
  toLex ((index.fee.raw : ℚ) / index.sizeBytes, index.txid.toNat)

/-- Numbers cut into a high and a low half compare half by half. -/
theorem compare_halves {high low high' low' : Nat} (lowFits : low < 2 ^ 128)
    (lowFits' : low' < 2 ^ 128) :
    (compare high high').then (compare low low') =
      compare (high * 2 ^ 128 + low) (high' * 2 ^ 128 + low') := by
  rcases Nat.lt_trichotomy high high' with below | rfl | above
  · have ordered : high * 2 ^ 128 + low < high' * 2 ^ 128 + low' := by omega
    rw [Nat.compare_eq_lt.mpr below, Nat.compare_eq_lt.mpr ordered]
    rfl
  · rw [Nat.compare_eq_eq.mpr rfl, Ordering.eq_then]
    rcases Nat.lt_trichotomy low low' with below | rfl | above
    · rw [Nat.compare_eq_lt.mpr below, Nat.compare_eq_lt.mpr (Nat.add_lt_add_left below _)]
    · rw [Nat.compare_eq_eq.mpr rfl, Nat.compare_eq_eq.mpr rfl]
    · rw [Nat.compare_eq_gt.mpr above, Nat.compare_eq_gt.mpr (Nat.add_lt_add_left above _)]
  · have ordered : high' * 2 ^ 128 + low' < high * 2 ^ 128 + low := by omega
    rw [Nat.compare_eq_gt.mpr above, Nat.compare_eq_gt.mpr ordered]
    rfl

/-- Ids compare as the numbers that their bytes spell. -/
theorem compare_txids (self other : FeeRateIndex) :
    compareOfLessAndEq self.txid.asBytes other.txid.asBytes =
      compare self.txid.toNat other.txid.toNat := by
  have sizes := self.txid.size.trans other.txid.size.symm
  have same : self.txid.asBytes = other.txid.asBytes ↔ self.txid.toNat = other.txid.toNat :=
    ⟨congrArg beValue, fun equal => congrArg Hash256.asBytes (Hash256.toNat_inj.mp equal)⟩
  change _ = compareOfLessAndEq self.txid.toNat other.txid.toNat
  simp only [compareOfLessAndEq, lt_iff_beValue_lt sizes, same, Hash256.toNat]
  congr

/-- The comparison is that of the cross products, then of the ids. -/
theorem cmp_eq {self other : FeeRateIndex} (selfFits : self.sizeBytes < 2 ^ 128)
    (otherFits : other.sizeBytes < 2 ^ 128) :
    self.cmp other = (compare (self.fee.raw * other.sizeBytes)
      (other.fee.raw * self.sizeBytes)).then (compare self.txid.toNat other.txid.toNat) := by
  obtain ⟨lhs, lhsLow⟩ := wideMulU128_exact self.fee.bound otherFits
  obtain ⟨rhs, rhsLow⟩ := wideMulU128_exact other.fee.bound selfFits
  simp only [cmp, compare_halves lhsLow rhsLow, lhs, rhs, compare_txids]
  cases compare (self.fee.raw * other.sizeBytes) (other.fee.raw * self.sizeBytes) <;> rfl

/-- The cross products compare as the exact ratios. -/
theorem compare_ratios {self other : FeeRateIndex} (selfPositive : 0 < self.sizeBytes)
    (otherPositive : 0 < other.sizeBytes) :
    compare ((self.fee.raw : ℚ) / self.sizeBytes) (other.fee.raw / other.sizeBytes) =
      compare (self.fee.raw * other.sizeBytes) (other.fee.raw * self.sizeBytes) := by
  have selfSize : (0 : ℚ) < self.sizeBytes := Nat.cast_pos.mpr selfPositive
  have otherSize : (0 : ℚ) < other.sizeBytes := Nat.cast_pos.mpr otherPositive
  rcases Nat.lt_trichotomy (self.fee.raw * other.sizeBytes) (other.fee.raw * self.sizeBytes) with
    lower | same | higher
  · rw [Nat.compare_eq_lt.mpr lower, compare_lt_iff_lt, div_lt_div_iff₀ selfSize otherSize]
    exact_mod_cast lower
  · rw [Nat.compare_eq_eq.mpr same, compare_eq_iff_eq, div_eq_div_iff selfSize.ne' otherSize.ne']
    exact_mod_cast same
  · rw [Nat.compare_eq_gt.mpr higher, compare_gt_iff_gt, div_lt_div_iff₀ otherSize selfSize]
    exact_mod_cast higher

/-- A comparison by two keys is that of the pairs in lexicographic order. -/
theorem then_compares {First Second : Type} [LinearOrder First] [LinearOrder Second]
    (first first' : First) (second second' : Second) :
    ((compare first first').then (compare second second')).Compares
      (toLex (first, second)) (toLex (first', second')) := by
  rcases lt_trichotomy first first' with lower | rfl | higher
  · rw [compare_lt_iff_lt.mpr lower]
    exact Prod.Lex.toLex_lt_toLex.mpr (Or.inl lower)
  · rw [compare_eq_iff_eq.mpr rfl, Ordering.eq_then]
    rcases lt_trichotomy second second' with lower | rfl | higher
    · rw [compare_lt_iff_lt.mpr lower]
      exact Prod.Lex.toLex_lt_toLex.mpr (Or.inr ⟨rfl, lower⟩)
    · rw [compare_eq_iff_eq.mpr rfl]
      exact rfl
    · rw [compare_gt_iff_gt.mpr higher]
      exact Prod.Lex.toLex_lt_toLex.mpr (Or.inr ⟨rfl, higher⟩)
  · rw [compare_gt_iff_gt.mpr higher]
    exact Prod.Lex.toLex_lt_toLex.mpr (Or.inl higher)

/-- For positive sizes the comparison is that of the ranks. -/
theorem cmp_compares {self other : FeeRateIndex} (selfPositive : 0 < self.sizeBytes)
    (otherPositive : 0 < other.sizeBytes) (selfFits : self.sizeBytes < 2 ^ 128)
    (otherFits : other.sizeBytes < 2 ^ 128) :
    (self.cmp other).Compares self.rank other.rank := by
  rw [cmp_eq selfFits otherFits, ← compare_ratios selfPositive otherPositive]
  exact then_compares _ _ _ _

/-- Indices of one rank have the same id. -/
theorem txid_eq_of_rank_eq {self other : FeeRateIndex} (same : self.rank = other.rank) :
    self.txid = other.txid :=
  Hash256.toNat_inj.mp (congrArg (fun rank => (ofLex rank).2) same)

/-- A size that a `usize` can hold, except zero. -/
def Sized (index : FeeRateIndex) : Prop := 1 ≤ index.sizeBytes ∧ index.sizeBytes < 2 ^ 128

/-- The order of the index is that of the exact ratios and, for equal ratios,
that of the bytes of the ids.  It is total, antisymmetric and transitive. -/
theorem cmp_total_order (a b c : FeeRateIndex) (aSized : a.Sized) (bSized : b.Sized)
    (cSized : c.Sized) :
    a.cmp b = (compare ((a.fee.raw : ℚ) / a.sizeBytes) (b.fee.raw / b.sizeBytes)).then
      (compareOfLessAndEq a.txid.asBytes b.txid.asBytes) ∧
    a.cmp a = .eq ∧
    b.cmp a = (a.cmp b).swap ∧
    (a.cmp b ≠ .gt ∨ b.cmp a ≠ .gt) ∧
    (a.cmp b ≠ .gt → b.cmp a ≠ .gt → a.cmp b = .eq) ∧
    (a.cmp b ≠ .gt → b.cmp c ≠ .gt → a.cmp c ≠ .gt) ∧
    (a.cmp b = .lt → b.cmp c = .lt → a.cmp c = .lt) ∧
    (a.cmp b = .eq → a.txid = b.txid) := by
  have compares : ∀ {self other : FeeRateIndex}, self.Sized → other.Sized →
      (self.cmp other).Compares self.rank other.rank := fun selfSized otherSized =>
    cmp_compares selfSized.1 otherSized.1 selfSized.2 otherSized.2
  have ab := compares aSized bSized
  have ba := compares bSized aSized
  have bc := compares bSized cSized
  have ac := compares aSized cSized
  refine ⟨?_, (compares aSized aSized).eq_eq.mpr rfl, ba.inj ab.swap, ?_, ?_, ?_, ?_, ?_⟩
  · rw [cmp_eq aSized.2 bSized.2, compare_ratios aSized.1 bSized.1, compare_txids]
  · rw [ab.ne_gt, ba.ne_gt]
    exact le_total _ _
  · rw [ab.ne_gt, ba.ne_gt, ab.eq_eq]
    exact le_antisymm
  · rw [ab.ne_gt, bc.ne_gt, ac.ne_gt]
    exact le_trans
  · rw [ab.eq_lt, bc.eq_lt, ac.eq_lt]
    exact lt_trans
  · rw [ab.eq_eq]
    exact txid_eq_of_rank_eq

/-- Three fees of one and the same ratio are ordered by their ids. -/
theorem cmp_total_order_equal_ratios :
    let index := fun fee size id : Nat =>
      FeeRateIndex.mk (Quantum.fromRaw fee) size (Hash256.ofNat id)
    (index 2 4 1).cmp (index 1 2 2) = .lt ∧ (index 1 2 2).cmp (index 3 6 3) = .lt ∧
      (index 2 4 1).cmp (index 3 6 3) = .lt := by
  intro index
  have ordered := cmp_total_order (index 2 4 1) (index 1 2 2) (index 3 6 3)
    ⟨by decide, by decide⟩ ⟨by decide, by decide⟩ ⟨by decide, by decide⟩
  have first : (index 2 4 1).cmp (index 1 2 2) = .lt := by decide +kernel
  have second : (index 1 2 2).cmp (index 3 6 3) = .lt := by decide +kernel
  exact ⟨first, second, ordered.2.2.2.2.2.2.1 first second⟩

end FeeRateIndex

end Aurion
