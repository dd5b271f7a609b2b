import CircuitWidths.Proofs.Static.Meaning
import Mathlib.Algebra.Ring.Int.Parity
import Mathlib.Data.Nat.Size

/-!
# Computed powers

Whether a power is computed depends on an estimate of its size: the number of bits of the base times
the exponent.  A base of more than one bit accounts for at least half of the bits that it is counted
with, so the estimate is less than twice the size of the power.  Hence powers beyond the bound are
never computed, and those within half of it always are (`Op.fold?_pow_bounded`).
-/

namespace CircuitWidths

namespace Static

private theorem bitLength_eq_size (n : Nat) : bitLength n = n.size := by
  unfold bitLength
  split
  · rename_i isZero
    rw [isZero, Nat.size_zero]
  · rename_i nonzero
    apply Nat.le_antisymm
    · exact Nat.lt_size.mpr (Nat.log2_self_le nonzero)
    · exact Nat.size_le.mpr Nat.lt_log2_self

/-! ## The estimate and the size -/

section Estimate

variable {base : Nat}

/-- A power has at most as many bits as estimated, except that an exponent of zero leaves one bit. -/
theorem size_pow_le (base exponent : Nat) :
    (base ^ exponent).size ≤ max 1 (base.size * exponent) := by
  cases exponent with
  | zero => simp
  | succ smaller =>
      have below : base ^ (smaller + 1) < 2 ^ (base.size * (smaller + 1)) := by
        rw [Nat.pow_mul]
        exact Nat.pow_lt_pow_left base.lt_size_self (Nat.succ_ne_zero smaller)
      exact Nat.le_trans (Nat.size_le.mpr below) (Nat.le_max_right _ _)

/-- A power has more bits than are counted without the leading bit of each factor. -/
theorem lt_size_pow {bits : Nat} (size : base.size = bits + 1) (exponent : Nat) :
    bits * exponent < (base ^ exponent).size := by
  have leading : 2 ^ bits ≤ base := Nat.lt_size.mp (size ▸ Nat.lt_succ_self bits)
  apply Nat.lt_size.mpr
  rw [Nat.pow_mul]
  exact Nat.pow_le_pow_left leading exponent

private theorem estimate_lt (grows : 1 < base.size) (exponent : Nat) :
    base.size * exponent < 2 * (base ^ exponent).size := by
  obtain ⟨bits, size⟩ := Nat.exists_eq_add_of_lt grows
  have split : base.size = (bits + 1) + 1 := by omega
  have counted := lt_size_pow split exponent
  have leading : exponent ≤ (bits + 1) * exponent := Nat.le_mul_of_pos_left _ (Nat.succ_pos bits)
  calc base.size * exponent
      = (bits + 1) * exponent + exponent := by rw [split, Nat.succ_mul]
    _ ≤ 2 * ((bits + 1) * exponent) := by omega
    _ < 2 * (base ^ exponent).size := by omega

/-- The estimate is within the bound, or the base has at most one bit and the power never grows. -/
def Affordable (base exponent : Nat) : Prop :=
  1 < base.size → base.size * exponent ≤ 2 ^ 16

private theorem Affordable.size_le {exponent : Nat} (affordable : Affordable base exponent) :
    (base ^ exponent).size ≤ 2 ^ 16 := by
  by_cases grows : 1 < base.size
  · have estimated := size_pow_le base exponent
    have bounded := affordable grows
    omega
  · have small : base < 2 ^ 1 := Nat.size_le.mp (Nat.not_lt.mp grows)
    have stays : base ^ exponent ≤ 1 ^ exponent :=
      Nat.pow_le_pow_left (Nat.lt_succ_iff.mp small) exponent
    rw [Nat.one_pow] at stays
    calc (base ^ exponent).size
        ≤ Nat.size 1 := Nat.size_le_size stays
      _ ≤ 2 ^ 16 := by simp

private theorem affordable_of_size_le {exponent : Nat} (small : (base ^ exponent).size ≤ 2 ^ 15) :
    Affordable base exponent := by
  intro grows
  have estimated := estimate_lt grows exponent
  omega

private theorem affordable_of_le_one (small : base ≤ 1) (exponent : Nat) :
    Affordable base exponent := by
  intro grows
  have twoBits : 2 ^ 1 ≤ base := Nat.lt_size.mp grows
  omega

end Estimate

/-- The bound is far below the greatest number of 64 bits, so the estimate may be saturated. -/
theorem affordable_iff_saturated {base exponent : Nat} :
    Affordable base exponent ↔
      ¬ (1 < base.size ∧ 2 ^ 16 < saturatingProduct base.size exponent) := by
  rw [Affordable, saturatingProduct, maxEstimate]
  constructor
  · intro affordable large
    have bounded := affordable large.1
    have exceeds := large.2
    split at exceeds <;> omega
  · intro within grows
    by_contra exceeds
    refine within ⟨grows, ?_⟩
    split <;> omega

private theorem power?_eq_some_iff {base exponent result : Int} :
    power? base exponent = some result ↔
      (0 ≤ exponent ∧ exponent < 2 ^ 32) ∧ Affordable base.natAbs exponent.toNat ∧
        base ^ exponent.toNat = result := by
  rw [power?, bitLength_eq_size, maxExponent, maxPowerBits]
  by_cases range : 0 ≤ exponent ∧ exponent < 2 ^ 32
  · rw [if_neg (by omega)]
    by_cases large : 1 < base.natAbs.size ∧ 65536 < saturatingProduct base.natAbs.size exponent.toNat
    · rw [if_pos large]
      have tooLarge : ¬ Affordable base.natAbs exponent.toNat :=
        fun affordable => affordable_iff_saturated.mp affordable large
      simp only [tooLarge, false_and, and_false, reduceCtorEq]
    · rw [if_neg large]
      have affordable : Affordable base.natAbs exponent.toNat := affordable_iff_saturated.mpr large
      simp only [range, affordable, true_and, and_self, Option.some.injEq]
      rfl
  · rw [if_pos (by omega)]
    simp only [range, false_and, reduceCtorEq]

private theorem Op.fold?_pow_eq_some_iff {base exponent : Int} {folded : Expr} :
    Op.pow.fold? base exponent = some folded ↔
      (0 ≤ exponent ∧ exponent < 2 ^ 32) ∧ Affordable base.natAbs exponent.toNat ∧
        .int (base ^ exponent.toNat) = folded := by
  rw [Op.fold?, Option.map_eq_some_iff]
  constructor
  · rintro ⟨result, computed, rfl⟩
    obtain ⟨range, affordable, rfl⟩ := power?_eq_some_iff.mp computed
    exact ⟨range, affordable, rfl⟩
  · rintro ⟨range, affordable, rfl⟩
    exact ⟨_, power?_eq_some_iff.mpr ⟨range, affordable, rfl⟩, rfl⟩

/-- **Powers are computed within bounds.**  A power that is computed has an exponent of at most 32
bits, is exact, and has at most 65536 bits.  A power with such an exponent is computed if it has at
most 32768 bits, and always if its base is zero, one or minus one.  What decides is whether the base
has more than one bit and the saturated product of its bits and the exponent exceeds 65536. -/
theorem Op.fold?_pow_bounded (base exponent : Int) :
    (∀ folded, Op.pow.fold? base exponent = some folded →
      0 ≤ exponent ∧ exponent < 2 ^ 32 ∧ folded = .int (base ^ exponent.toNat) ∧
        (base ^ exponent.toNat).natAbs.size ≤ 2 ^ 16) ∧
    (0 ≤ exponent → exponent < 2 ^ 32 → (base ^ exponent.toNat).natAbs.size ≤ 2 ^ 15 →
      Op.pow.fold? base exponent = some (.int (base ^ exponent.toNat))) ∧
    (0 ≤ exponent → exponent < 2 ^ 32 → base = 0 ∨ base = 1 ∨ base = -1 →
      Op.pow.fold? base exponent = some (.int (base ^ exponent.toNat))) ∧
    (Op.pow.fold? base exponent = none ↔ exponent < 0 ∨ 2 ^ 32 ≤ exponent ∨
      1 < base.natAbs.size ∧ 2 ^ 16 < saturatingProduct base.natAbs.size exponent.toNat) := by
  refine ⟨?_, ?_, ?_, ?_⟩
  · intro folded computed
    obtain ⟨⟨nonnegative, below⟩, affordable, rfl⟩ := Op.fold?_pow_eq_some_iff.mp computed
    refine ⟨nonnegative, below, rfl, ?_⟩
    rw [Int.natAbs_pow]
    exact affordable.size_le
  · intro nonnegative below small
    rw [Int.natAbs_pow] at small
    exact Op.fold?_pow_eq_some_iff.mpr ⟨⟨nonnegative, below⟩, affordable_of_size_le small, rfl⟩
  · intro nonnegative below trivialBase
    have small : base.natAbs ≤ 1 := by omega
    exact Op.fold?_pow_eq_some_iff.mpr
      ⟨⟨nonnegative, below⟩, affordable_of_le_one small exponent.toNat, rfl⟩
  · rw [Option.eq_none_iff_forall_ne_some]
    constructor
    · intro refused
      by_contra within
      rw [not_or, not_or] at within
      obtain ⟨nonnegative, below, saturated⟩ := within
      exact refused _ (Op.fold?_pow_eq_some_iff.mpr
        ⟨⟨Int.not_lt.mp nonnegative, Int.not_le.mp below⟩, affordable_iff_saturated.mpr saturated, rfl⟩)
    · intro outside folded computed
      obtain ⟨range, affordable, _⟩ := Op.fold?_pow_eq_some_iff.mp computed
      have saturated := affordable_iff_saturated.mp affordable
      omega

/-- A power of exactly 32768 bits is computed, and so is minus one to a large power, while a large
power of three is left as it is. -/
theorem Op.fold?_pow_bounded_half :
    ((2 : Int) ^ 32767).natAbs.size = 2 ^ 15 ∧
    Op.pow.fold? 2 32767 = some (.int (2 ^ 32767)) ∧
    Op.pow.fold? (-1) 3000000001 = some (.int (-1)) ∧
    Op.pow.fold? 3 4000000000 = none := by
  have sizes : ∀ exponent : Nat, ((2 : Int) ^ exponent).natAbs.size = exponent + 1 := by
    intro exponent
    rw [Int.natAbs_pow]
    exact Nat.size_pow
  have size : ((2 : Int) ^ 32767).natAbs.size = 2 ^ 15 := sizes 32767
  have odd : Odd (3000000001 : Int).toNat := ⟨1500000000, rfl⟩
  obtain ⟨_, small, _, _⟩ := Op.fold?_pow_bounded 2 32767
  obtain ⟨_, _, trivialBase, _⟩ := Op.fold?_pow_bounded (-1) 3000000001
  obtain ⟨_, _, _, refused⟩ := Op.fold?_pow_bounded 3 4000000000
  refine ⟨size, small (by decide) (by decide) (Nat.le_of_eq size), ?_, refused.mpr (by decide)⟩
  rw [trivialBase (by decide) (by decide) (.inr (.inr rfl)), odd.neg_one_pow]

end Static

end CircuitWidths
