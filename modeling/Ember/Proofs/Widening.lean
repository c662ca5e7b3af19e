import Mathlib.Algebra.Ring.Nat
import Ember.Operator
import Ember.Proofs.Rounding

/-!
# Integers as floating-point numbers

Widening takes an integer to the nearest floating-point number. Since 64 bits are more than 53,
integers that are close to each other can be widened to the same number. This module says how much
of their order is left: `roundedUnits` is the widened integer as a whole number of units, it keeps
the order (`roundedUnits_mono`), is the integer itself up to `2 ^ 53` (`roundedUnits_exact`) and off
by at most 512 everywhere (`roundedUnits_near`).

Main statements: `Number.compare?_int`, two integers compare as their rounded units do, and
`Number.isZero_int`, only zero is widened to zero.
-/

namespace Ember

/-! ## Multiples of one -/

theorem unitsPerOne_eq : ∃ k, 52 ≤ k ∧ unitsPerOne = 2 ^ k :=
  ⟨1074, by omega, by decide +kernel⟩

theorem unitsPerOne_pos : 0 < unitsPerOne := by
  obtain ⟨k, _, one⟩ := unitsPerOne_eq
  rw [one]
  exact Nat.two_pow_pos k

/-- Up to `2 ^ 64` all whole numbers are in range. -/
theorem mul_unitsPerOne_lt {n : Nat} (le : n ≤ 2 ^ 64) : n * unitsPerOne < unitsLimit := by
  have limit : 2 ^ 64 * unitsPerOne < unitsLimit := by decide +kernel
  exact Nat.lt_of_le_of_lt (Nat.mul_le_mul_right _ le) limit

theorem nearest_mul_unitsPerOne {n q s : Nat} (eq : n = q * 2 ^ s) (le : q ≤ 2 ^ 53)
    (range : n ≤ 2 ^ 64) : nearest (n * unitsPerOne) 1 = n * unitsPerOne := by
  refine nearest_of_fits ⟨mul_unitsPerOne_lt range, ?_⟩
  obtain ⟨k, _, one⟩ := unitsPerOne_eq
  rw [eq, one, Nat.mul_assoc, ← Nat.pow_add]
  exact mul_two_pow_mod_lastPlace le _

/-- An integer of 63 bits is widened with an error of at most 512, half the distance of the widened
integers next to `2 ^ 63`. -/
theorem nearest_mul_unitsPerOne_near {n : Nat} (le : n ≤ 2 ^ 63) :
    nearest (n * unitsPerOne) 1 ≤ n * unitsPerOne + 512 * unitsPerOne ∧
      n * unitsPerOne ≤ nearest (n * unitsPerOne) 1 + 512 * unitsPerOne := by
  by_cases top : n = 2 ^ 63
  · have exact := nearest_mul_unitsPerOne (q := 1) (s := 63) (by omega) (by omega)
      (show n ≤ 2 ^ 64 by omega)
    omega
  · have place : lastPlace (n * unitsPerOne) ≤ 1024 * unitsPerOne := by
      obtain ⟨k, bits, one⟩ := unitsPerOne_eq
      rw [one, show 1024 = 2 ^ 10 from rfl, ← Nat.pow_add, lastPlace]
      apply Nat.pow_le_pow_right (by omega)
      by_cases zero : n * 2 ^ k = 0
      · simp [zero]
      · have lt : n * 2 ^ k < 2 ^ (63 + k) := by
          rw [Nat.pow_add]
          exact Nat.mul_lt_mul_of_pos_right (by omega) (Nat.two_pow_pos k)
        have log := (Nat.log2_lt zero).2 lt
        omega
    have near := nearest_near (n * unitsPerOne)
    omega

/-! ## Rounded integers -/

/-- An integer rounded to 53 significant bits, in units. -/
def roundedUnits (n : Int) : Int :=
  Binary64.signed (n < 0) (nearest (n.natAbs * unitsPerOne) 1)

theorem roundedUnits_natCast (n : Nat) : roundedUnits n = nearest (n * unitsPerOne) 1 := by
  unfold roundedUnits Binary64.signed
  have nonneg : ¬ (n : Int) < 0 := by omega
  simp [nonneg]

theorem roundedUnits_neg (n : Nat) : roundedUnits (-n) = -(nearest (n * unitsPerOne) 1 : Int) := by
  unfold roundedUnits Binary64.signed
  by_cases zero : n = 0
  · simp [zero, nearest_of_fits fits_zero]
  · have negative : -(n : Int) < 0 := by omega
    simp only [negative, decide_true, if_true, Int.natAbs_neg, Int.natAbs_natCast]

theorem roundedUnits_mono {m n : Int} (le : m ≤ n) : roundedUnits m ≤ roundedUnits n := by
  obtain ⟨a, rfl | rfl⟩ := m.eq_nat_or_neg <;> obtain ⟨b, rfl | rfl⟩ := n.eq_nat_or_neg
  · have mono := nearest_mono (Nat.mul_le_mul_right unitsPerOne (show a ≤ b by omega))
    rw [roundedUnits_natCast, roundedUnits_natCast]
    omega
  · have zero : a = 0 ∧ b = 0 := by omega
    simp [zero]
  · rw [roundedUnits_neg, roundedUnits_natCast]
    omega
  · have mono := nearest_mono (Nat.mul_le_mul_right unitsPerOne (show b ≤ a by omega))
    rw [roundedUnits_neg, roundedUnits_neg]
    omega

theorem roundedUnits_exact {n : Int} (le : n.natAbs ≤ 2 ^ 53) :
    roundedUnits n = n * unitsPerOne := by
  have exact := nearest_mul_unitsPerOne (n := n.natAbs) (s := 0) (Nat.mul_one _).symm le (by omega)
  obtain ⟨a, rfl | rfl⟩ := n.eq_nat_or_neg
  · rw [Int.natAbs_natCast] at exact
    rw [roundedUnits_natCast, exact, Int.natCast_mul]
  · rw [Int.natAbs_neg, Int.natAbs_natCast] at exact
    rw [roundedUnits_neg, exact, Int.natCast_mul, Int.neg_mul]

theorem roundedUnits_near {n : Int} (le : n.natAbs ≤ 2 ^ 63) :
    roundedUnits n ≤ (n + 512) * unitsPerOne ∧ (n - 512) * unitsPerOne ≤ roundedUnits n := by
  have near := nearest_mul_unitsPerOne_near le
  rw [Int.add_mul, Int.sub_mul]
  obtain ⟨a, rfl | rfl⟩ := n.eq_nat_or_neg
  · rw [Int.natAbs_natCast] at near
    rw [roundedUnits_natCast]
    omega
  · rw [Int.natAbs_neg, Int.natAbs_natCast] at near
    rw [roundedUnits_neg, Int.neg_mul]
    omega

/-- Integers that are more than twice the error apart are widened to different numbers. -/
theorem roundedUnits_lt {m n : Int} (left : m.natAbs ≤ 2 ^ 63) (right : n.natAbs ≤ 2 ^ 63)
    (far : 1024 < n - m) : roundedUnits m < roundedUnits n := by
  have apart : (m + 512) * unitsPerOne < (n - 512) * unitsPerOne :=
    Int.mul_lt_mul_of_pos_right (by omega) (by have := unitsPerOne_pos; omega)
  have above := (roundedUnits_near left).1
  have below := (roundedUnits_near right).2
  omega

/-- Rounding keeps the units of one apart from zero, since `1` is a number of 53 bits. -/
theorem roundedUnits_eq_zero_iff {n : Int} : roundedUnits n = 0 ↔ n = 0 := by
  have one := unitsPerOne_pos
  constructor
  · intro zero
    rcases Int.lt_trichotomy n 0 with neg | eq | pos
    · have le := roundedUnits_mono (show n ≤ -1 by omega)
      rw [roundedUnits_exact (n := -1) (by omega)] at le
      omega
    · exact eq
    · have le := roundedUnits_mono (show 1 ≤ n by omega)
      rw [roundedUnits_exact (n := 1) (by omega)] at le
      omega
  · rintro rfl
    rw [roundedUnits_exact (by omega), Int.zero_mul]

/-! ## Widened integers -/

theorem natAbs_toInt_le (i : Int64) : i.toInt.natAbs ≤ 2 ^ 63 := by
  have low := i.le_toInt
  have high := i.toInt_lt
  omega

namespace Number

/-- An integer is widened to a finite number, its rounded number of units. -/
theorem widen_int (i : Int64) : ∃ fits, (int i).widen =
    .finite (i.toInt < 0) (nearest (i.toInt.natAbs * unitsPerOne) 1) fits := by
  have le := natAbs_toInt_le i
  have near := nearest_mul_unitsPerOne_near le
  have limit := mul_unitsPerOne_lt (n := i.toInt.natAbs + 512) (by omega)
  rw [Nat.add_mul] at limit
  have range : nearest (i.toInt.natAbs * unitsPerOne) 1 < unitsLimit := by omega
  refine ⟨fits_nearest range, ?_⟩
  rw [widen, Binary64.ofInt]
  exact Binary64.ofRatio_of_nearest (fits_nearest range) rfl

theorem compare?_int (l r : Int64) :
    (int l).compare? (int r) = some (compare (roundedUnits l.toInt) (roundedUnits r.toInt)) := by
  obtain ⟨_, left⟩ := widen_int l
  obtain ⟨_, right⟩ := widen_int r
  rw [compare?, left, right]
  rfl

theorem isZero_int {i : Int64} : (int i).isZero = true ↔ i = 0 := by
  obtain ⟨_, wide⟩ := widen_int i
  rw [isZero, wide, Binary64.isZero, Binary64.eq, decide_eq_true_iff]
  show some (compare (roundedUnits i.toInt) 0) = some .eq ↔ i = 0
  rw [Option.some_inj, Std.compare_eq_iff_eq, roundedUnits_eq_zero_iff, ← Int64.toInt_inj]
  rfl

end Number

end Ember
