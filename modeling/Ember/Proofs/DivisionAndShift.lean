import Mathlib.Data.Int.ModEq
import Ember.Proofs.Widening
import Ember.Proofs.Wrapping

/-!
# Division and shifts of integers

Whether a divisor is zero is asked of the widened number, and the division that follows works on
words. Both agree since only zero is widened to zero (`Number.isZero_int`), so that the division of
words never meets a zero.

Quotient and remainder are those of division toward zero; the one quotient that is out of range, the
least integer over minus one, wraps to the least integer (`toInt_div_of_fits`), and so the two always
give the dividend back modulo `2 ^ 64` (`div_mul_add_mod`). A shift takes the low 32 bits of its right
operand and of these the lowest six, and so goes by the operand modulo 64, whatever its sign and size
(`toInt_shiftLeft`, `toInt_shiftRight`).
-/

namespace Ember

/-! ## Words -/

/-- A quotient that is in range is the one rounded toward zero. -/
theorem toInt_div_of_fits {l r : Int64} (fits : ¬ (l = Int64.minValue ∧ r = -1)) :
    (l / r).toInt = l.toInt.tdiv r.toInt := by
  by_cases least : l = Int64.minValue
  · exact Int64.toInt_div_of_ne_right l r fun minus => fits ⟨least, minus⟩
  · exact Int64.toInt_div_of_ne_left l r least

theorem div_mul_add_mod (l r : Int64) :
    (l / r).toInt * r.toInt + (l % r).toInt ≡ l.toInt [ZMOD 2 ^ 64] := by
  have quotient : (l / r).toInt ≡ l.toInt.tdiv r.toInt [ZMOD 2 ^ 64] := by
    rw [Int64.toInt_div]
    exact Int.bmod_emod
  calc (l / r).toInt * r.toInt + (l % r).toInt
      ≡ l.toInt.tdiv r.toInt * r.toInt + l.toInt.tmod r.toInt [ZMOD 2 ^ 64] := by
        rw [Int64.toInt_mod]
        exact (quotient.mul_right _).add_right _
    _ = l.toInt := by rw [mul_comm, Int.mul_tdiv_add_tmod]

theorem natAbs_mod_lt {r : Int64} (nonzero : r ≠ 0) (l : Int64) :
    (l % r).toInt.natAbs < r.toInt.natAbs := by
  have divisor : r.toInt ≠ 0 := fun zero => nonzero (Int64.toInt_inj.1 zero)
  rw [Int64.toInt_mod, Int.natAbs_tmod]
  exact Nat.mod_lt _ (by omega)

theorem sign_mod (l r : Int64) :
    (l % r).toInt = 0 ∨ (l % r).toInt.sign = l.toInt.sign := by
  rw [Int64.toInt_mod]
  by_cases divides : r.toInt ∣ l.toInt
  · exact .inl (Int.tmod_eq_zero_of_dvd divides)
  · exact .inr (by rw [Int.sign_tmod, if_neg divides])

theorem toInt_shiftLeft (l r : Int64) : (Number.shiftLeft l (Number.shiftAmount r)).toInt =
    (l.toInt * 2 ^ (r.toInt % 64).toNat).bmod (2 ^ 64) := by
  have shift := ofInt_shiftLeft l.toInt r.toInt
  rw [Int64.ofInt_toInt, Int64.ofInt_toInt] at shift
  rw [← shift]
  exact Int64.toInt_ofInt

theorem toInt_shiftRight (l r : Int64) : (Number.shiftRight l (Number.shiftAmount r)).toInt =
    l.toInt.fdiv (2 ^ (r.toInt % 64).toNat) := by
  have amount := shiftAmount_ofInt r.toInt
  rw [Int64.ofInt_toInt] at amount
  show (l.toBitVec.sshiftRight (Number.shiftAmount r &&& 63).toNat).toInt = _
  rw [amount, BitVec.toInt_sshiftRight, Int.shiftRight_eq_div_pow,
    Int.fdiv_eq_ediv_of_nonneg _ (Int.pow_nonneg (by omega))]
  push_cast
  rfl

/-! ## Operators -/

namespace Number

theorem div_int (l r : Int64) : (int l).div (int r) =
    if r = 0 then .error .divisionByZero else .ok (.int (l / r)) := by
  simp only [div, isZero_int]

theorem rem_int (l r : Int64) : (int l).rem (int r) =
    if r = 0 then .error .moduloByZero else .ok (.int (l % r)) := by
  simp only [rem, isZero_int]

end Number

/-- Division and remainder of two integers fail exactly if the divisor is zero, which the check on
the widened divisor finds out before any division of words. Otherwise they are those of division
toward zero, with a remainder that is smaller than the divisor and has the sign of the dividend; the
least integer over minus one is the least integer, without a remainder. A shift multiplies or
divides by two to the power of its right operand modulo 64, modulo `2 ^ 64` to the left and rounding
down to the right. -/
theorem integer_division_and_shift_exact (l r : Int64) :
    ((Number.int r).isZero = true ↔ r = 0) ∧
    (∀ f, InfixOp.divide.apply (.int l) (.int r) = .error f ↔ r = 0 ∧ f = .divisionByZero) ∧
    (∀ f, InfixOp.modulo.apply (.int l) (.int r) = .error f ↔ r = 0 ∧ f = .moduloByZero) ∧
    (r ≠ 0 → ∃ q m : Int64, InfixOp.divide.apply (.int l) (.int r) = .ok (.int q) ∧
      InfixOp.modulo.apply (.int l) (.int r) = .ok (.int m) ∧
      q.toInt * r.toInt + m.toInt ≡ l.toInt [ZMOD 2 ^ 64] ∧
      m.toInt.natAbs < r.toInt.natAbs ∧ (m.toInt = 0 ∨ m.toInt.sign = l.toInt.sign) ∧
      (¬ (l = Int64.minValue ∧ r = -1) → q.toInt = l.toInt.tdiv r.toInt) ∧
      (l = Int64.minValue ∧ r = -1 → q = Int64.minValue ∧ m = 0)) ∧
    ∃ k : Nat, k < 64 ∧ (k : Int) = r.toInt % 64 ∧
      (∃ v : Int64, InfixOp.shiftLeft.apply (.int l) (.int r) = .ok (.int v) ∧
        v.toInt = (l.toInt * 2 ^ k).bmod (2 ^ 64)) ∧
      ∃ v : Int64, InfixOp.shiftRight.apply (.int l) (.int r) = .ok (.int v) ∧
        v.toInt = l.toInt.fdiv (2 ^ k) := by
  refine ⟨Number.isZero_int, fun f => ?_, fun f => ?_, fun nonzero => ?_, ?_⟩
  · rw [InfixOp.apply, Number.div_int]
    split <;> simp [*, eq_comm]
  · rw [InfixOp.apply, Number.rem_int]
    split <;> simp [*, eq_comm]
  · refine ⟨l / r, l % r, ?_, ?_, div_mul_add_mod l r, natAbs_mod_lt nonzero l, sign_mod l r,
      toInt_div_of_fits, ?_⟩
    · rw [InfixOp.apply, Number.div_int, if_neg nonzero]
    · rw [InfixOp.apply, Number.rem_int, if_neg nonzero]
    · rintro ⟨rfl, rfl⟩
      exact ⟨Int64.minValue_div_neg_one, by decide⟩
  · exact ⟨(r.toInt % 64).toNat, by omega, by omega, ⟨_, rfl, toInt_shiftLeft l r⟩,
      ⟨_, rfl, toInt_shiftRight l r⟩⟩

/-- The least integer over minus one, and the least integer shifted by minus one. -/
theorem least_over_minus_one_wraps :
    (-1 : Int64) ≠ 0 ∧
    InfixOp.divide.apply (.int Int64.minValue) (.int (-1)) = .ok (.int Int64.minValue) ∧
    InfixOp.modulo.apply (.int Int64.minValue) (.int (-1)) = .ok (.int 0) ∧
    InfixOp.shiftRight.apply (.int Int64.minValue) (.int (-1)) = .ok (.int (-1)) := by
  have nonzero : (-1 : Int64) ≠ 0 := by decide
  obtain ⟨_, _, _, exact, k, _, amount, _, v, shift, value⟩ :=
    integer_division_and_shift_exact Int64.minValue (-1)
  obtain ⟨q, m, quotient, remainder, _, _, _, _, least⟩ := exact nonzero
  obtain ⟨rfl, rfl⟩ := least ⟨rfl, rfl⟩
  have places : k = 63 := by
    rw [show (-1 : Int64).toInt = -1 from rfl] at amount
    omega
  have one : v.toInt = (-1 : Int64).toInt := by
    rw [value, places, Int64.toInt_minValue]
    rfl
  rw [Int64.toInt_inj.1 one] at shift
  exact ⟨nonzero, quotient, remainder, shift⟩

end Ember
