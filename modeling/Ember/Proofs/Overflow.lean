import Mathlib.Algebra.Order.Field.Basic
import Mathlib.Algebra.Order.Field.Rat
import Mathlib.Tactic.Ring
import Ember.Proofs.Kind
import Ember.Proofs.Widening

/-!
# Numbers out of range

Rounding goes to infinity from a limit on, which lies half a last place above the greatest number
that the format can hold: `2 ^ 1024 - 2 ^ 970`. Arithmetic on finite numbers is exact arithmetic and
one rounding, so that a sum, difference, product or quotient is finite exactly if the exact result
is below the limit; a remainder and all that the other operators give is finite in any case.

1. `nearest_lt_iff`: what rounds to less than a power of two, with ties going to the even neighbour
   (`le_roundQuotient_iff`). `finite_ofRatio_iff` is the same for quotients as rational numbers.
2. `finite_add_iff`, `finite_sub_iff`, `finite_mul_iff`, `finite_div_iff`, `finite_rem`: arithmetic.
3. `PrefixOp.finite_apply`, `InfixOp.finite_apply_iff`: operators on numbers of both kinds.
-/

namespace Ember

/-! ## Where rounding leaves the range -/

/-- Halfway between two whole numbers, the even one is taken. -/
theorem roundQuotient_even {num den : Nat} (pos : 0 < den)
    (half : 2 * num = 2 * (roundQuotient num den * den) + den) : roundQuotient num den % 2 = 0 := by
  have split_num := Nat.div_add_mod num den
  have small := Nat.mod_lt num pos
  have next_multiple : (num / den + 1) * den = num / den * den + den := Nat.succ_mul ..
  rw [Nat.mul_comm] at split_num
  unfold roundQuotient at half ⊢
  dsimp only at half ⊢
  split at half
  · next under =>
    rw [Nat.compare_eq_lt] at under
    omega
  · omega
  · next above =>
    rw [Nat.compare_eq_gt] at above
    omega

/-- A quotient is rounded to an even number or more from half below that number on. -/
theorem le_roundQuotient_iff {k num den : Nat} (pos : 0 < den) (even : k % 2 = 0) :
    k ≤ roundQuotient num den ↔ 2 * (k * den) ≤ 2 * num + den := by
  obtain ⟨above, below⟩ := roundQuotient_near pos num
  constructor
  · intro le
    have multiple : k * den ≤ roundQuotient num den * den := Nat.mul_le_mul_right _ le
    omega
  · intro le
    by_contra lt
    have multiple : (roundQuotient num den + 1) * den ≤ k * den := Nat.mul_le_mul_right _ (by omega)
    rw [Nat.succ_mul] at multiple
    -- only the tie is left, which goes to an even number, and `k` is the odd one next to it
    have half : 2 * num = 2 * (roundQuotient num den * den) + den := by omega
    have next : k = roundQuotient num den + 1 := by
      have same : k * den = (roundQuotient num den + 1) * den := by
        rw [Nat.succ_mul]
        omega
      exact Nat.eq_of_mul_eq_mul_right pos same
    have := roundQuotient_even pos half
    omega

/-- In the uppermost binary place of a power of two, the last place is `2 ^ (s + 1)`. -/
theorem nearest_lt_iff_of_top {s num den : Nat} (pos : 0 < den) (top : 2 ^ (s + 53) ≤ num / den)
    (lt : num / den < 2 ^ (s + 54)) :
    nearest num den < 2 ^ (s + 54) ↔ num + 2 ^ s * den < 2 ^ (s + 54) * den := by
  have nonzero : num / den ≠ 0 := by
    have := Nat.two_pow_pos (s + 53)
    omega
  have log : (num / den).log2 = s + 53 := by
    have above := (Nat.log2_lt nonzero).2 lt
    have below := (Nat.le_log2 nonzero).2 top
    omega
  have place : lastPlace (num / den) = 2 ^ (s + 1) := by
    rw [lastPlace, log, Nat.pow_eq, show s + 53 - 52 = s + 1 by omega]
  have power : 2 ^ (s + 54) = 2 ^ 53 * 2 ^ (s + 1) := by
    rw [← Nat.pow_add]
    congr 1
    omega
  have double : den * 2 ^ (s + 1) = 2 * (2 ^ s * den) := by
    rw [Nat.pow_succ, Nat.mul_comm, Nat.mul_right_comm, Nat.mul_comm]
  have rounds : 2 ^ 53 ≤ roundQuotient num (den * 2 ^ (s + 1)) ↔ _ :=
    le_roundQuotient_iff (Nat.mul_pos pos (Nat.two_pow_pos (s + 1))) (by decide)
  calc nearest num den < 2 ^ (s + 54)
      ↔ roundQuotient num (den * 2 ^ (s + 1)) < 2 ^ 53 := by
        rw [nearest, place, power]
        exact Nat.mul_lt_mul_right (Nat.two_pow_pos _)
    _ ↔ ¬ 2 * (2 ^ 53 * (den * 2 ^ (s + 1))) ≤ 2 * num + den * 2 ^ (s + 1) := by
        rw [← rounds, Nat.not_le]
    _ ↔ num + 2 ^ s * den < 2 ^ (s + 54) * den := by
        rw [power, Nat.mul_assoc, Nat.mul_comm (2 ^ (s + 1)) den, double]
        omega

/-- Rounding stays below a power of two as long as the number is less than half a last place below
that power. -/
theorem nearest_lt_iff {s num den : Nat} (pos : 0 < den) :
    nearest num den < 2 ^ (s + 54) ↔ num + 2 ^ s * den < 2 ^ (s + 54) * den := by
  have half : 2 ^ (s + 54) * den = 2 * (2 ^ (s + 53) * den) := by
    rw [Nat.pow_succ, Nat.mul_comm _ 2, Nat.mul_assoc]
  have less : 2 ^ s * den ≤ 2 ^ (s + 53) * den :=
    Nat.mul_le_mul_right _ (Nat.pow_le_pow_right (by decide) (by omega))
  rcases Nat.lt_or_ge (num / den) (2 ^ (s + 54)) with lt | ge
  · rcases Nat.lt_or_ge (num / den) (2 ^ (s + 53)) with low | top
    · have rounded : nearest num den ≤ 2 ^ (s + 53) := nearest_le_of_div_lt low
      have below : num < 2 ^ (s + 53) * den := (Nat.div_lt_iff_lt_mul pos).1 low
      have powers : 2 ^ (s + 53) < 2 ^ (s + 54) := Nat.pow_lt_pow_right (by decide) (by omega)
      omega
    · exact nearest_lt_iff_of_top pos top lt
  · have far : 2 ^ (s + 54) * den ≤ num := (Nat.le_div_iff_mul_le pos).1 ge
    have rounded := le_nearest rfl (by omega) pos far
    rw [Nat.pow_eq] at rounded
    omega

/-- Numbers from here on are rounded to infinity, and so are their negatives. -/
def overflowLimit : ℚ := 2 ^ 1024 - 2 ^ 970

theorem unitsPerOne_eq_pow : unitsPerOne = 2 ^ 1074 := by decide +kernel

theorem unitsLimit_eq_pow : unitsLimit = 2 ^ (2044 + 54) := by decide +kernel

/-- The limit in units. -/
theorem overflowLimit_mul_unitsPerOne :
    overflowLimit * unitsPerOne = 2 ^ (2044 + 54) - 2 ^ 2044 := by
  have powers (a b : Nat) : ((2 : ℚ) ^ (a + 54) - 2 ^ a) * 2 ^ b =
      2 ^ (a + b + 54) - 2 ^ (a + b) := by ring
  rw [unitsPerOne_eq_pow, Nat.cast_pow, Nat.cast_ofNat]
  exact powers 970 1074

namespace Binary64

/-- The exact value of a finite number. -/
def value? : Binary64 → Option ℚ
  | finite s n _ => some (signed s n / unitsPerOne)
  | _ => none

/-- The number is neither infinite nor `nan`. -/
def Finite (x : Binary64) : Prop := ∃ q, x.value? = some q

instance : (x : Binary64) → Decidable x.Finite
  | finite _ _ _ => isTrue ⟨_, rfl⟩
  | infinite _ => isFalse (by rintro ⟨_, ⟨⟩⟩)
  | nan => isFalse (by rintro ⟨_, ⟨⟩⟩)

theorem unitsPerOne_cast_pos : (0 : ℚ) < unitsPerOne := Nat.cast_pos.2 unitsPerOne_pos

theorem finite_ofRatio_iff {negative : Bool} {num den : Nat} (pos : 0 < den) :
    (ofRatio negative num den).Finite ↔ (num / den / unitsPerOne : ℚ) < overflowLimit := by
  have range : (ofRatio negative num den).Finite ↔ nearest num den < unitsLimit := by
    unfold ofRatio
    split
    · next lt => exact iff_of_true ⟨_, rfl⟩ lt
    · next ge =>
      refine iff_of_false ?_ ge
      rintro ⟨q, ⟨⟩⟩
  have den_pos : (0 : ℚ) < den := Nat.cast_pos.2 pos
  rw [range, unitsLimit_eq_pow, nearest_lt_iff pos, div_lt_iff₀ unitsPerOne_cast_pos,
    div_lt_iff₀ den_pos, overflowLimit_mul_unitsPerOne, sub_mul, lt_sub_iff_add_lt]
  exact_mod_cast Iff.rfl

/-! ## Arithmetic on finite numbers -/

theorem abs_signed (s : Bool) (n : Nat) : |(signed s n : ℚ)| = n := by
  cases s with
  | false => exact abs_of_nonneg (Nat.cast_nonneg n)
  | true =>
    rw [signed, if_pos rfl, Int.cast_neg, abs_neg]
    exact abs_of_nonneg (Nat.cast_nonneg n)

theorem natAbs_signed (s : Bool) (n : Nat) : (signed s n).natAbs = n := by
  cases s with
  | false => rfl
  | true => exact Int.natAbs_neg n

theorem signed_not (s : Bool) (n : Nat) : signed (!s) n = -signed s n := by
  cases s with
  | false => rfl
  | true => exact (Int.neg_neg n).symm

section

variable {x y : Binary64} {p q : ℚ}

theorem exists_units_of_value? (h : x.value? = some p) :
    ∃ s n fits, x = finite s n fits ∧ p = signed s n / unitsPerOne := by
  cases x with
  | finite s n fits =>
    cases h
    exact ⟨s, n, fits, rfl, rfl⟩
  | _ => cases h

theorem value?_neg (h : x.value? = some p) : x.neg.value? = some (-p) := by
  obtain ⟨s, n, fits, rfl, rfl⟩ := exists_units_of_value? h
  rw [neg, value?, signed_not, Int.cast_neg, neg_div]

theorem finite_add_iff (hx : x.value? = some p) (hy : y.value? = some q) :
    (x.add y).Finite ↔ |p + q| < overflowLimit := by
  obtain ⟨s, m, _, rfl, rfl⟩ := exists_units_of_value? hx
  obtain ⟨t, n, _, rfl, rfl⟩ := exists_units_of_value? hy
  have exact : ((signed s m + signed t n).natAbs / (1 : Nat) / unitsPerOne : ℚ) =
      |(signed s m / unitsPerOne + signed t n / unitsPerOne : ℚ)| := by
    rw [← add_div, abs_div, abs_of_pos unitsPerOne_cast_pos, Nat.cast_one, div_one,
      Nat.cast_natAbs, Int.cast_abs, Int.cast_add]
  rw [← exact]
  exact finite_ofRatio_iff Nat.one_pos

theorem finite_sub_iff (hx : x.value? = some p) (hy : y.value? = some q) :
    (x.sub y).Finite ↔ |p - q| < overflowLimit := by
  rw [sub_eq_add_neg]
  exact finite_add_iff hx (value?_neg hy)

theorem finite_mul_iff (hx : x.value? = some p) (hy : y.value? = some q) :
    (x.mul y).Finite ↔ |p * q| < overflowLimit := by
  obtain ⟨s, m, _, rfl, rfl⟩ := exists_units_of_value? hx
  obtain ⟨t, n, _, rfl, rfl⟩ := exists_units_of_value? hy
  have exact : ((m * n : Nat) / unitsPerOne / unitsPerOne : ℚ) =
      |(signed s m / unitsPerOne * (signed t n / unitsPerOne) : ℚ)| := by
    rw [div_mul_div_comm, abs_div, abs_mul, abs_signed, abs_signed, abs_mul,
      abs_of_pos unitsPerOne_cast_pos, div_div, Nat.cast_mul]
  rw [← exact]
  exact finite_ofRatio_iff unitsPerOne_pos

theorem isZero_finite {s : Bool} {n : Nat} {fits : Fits n} :
    (finite s n fits).isZero = true ↔ n = 0 := by
  rw [isZero, eq, decide_eq_true_iff]
  show some (compare (signed s n) 0) = some .eq ↔ n = 0
  rw [Option.some_inj, Std.compare_eq_iff_eq, ← Int.natAbs_eq_zero, natAbs_signed]

theorem isZero_of_value? (hy : y.value? = some q) : y.isZero = true ↔ q = 0 := by
  obtain ⟨t, n, _, rfl, rfl⟩ := exists_units_of_value? hy
  rw [isZero_finite, div_eq_zero_iff, or_iff_left (ne_of_gt unitsPerOne_cast_pos), Int.cast_eq_zero,
    ← Int.natAbs_eq_zero, natAbs_signed]

theorem finite_div_iff (hx : x.value? = some p) (hy : y.value? = some q)
    (nonzero : ¬ y.isZero = true) : (x.div y).Finite ↔ |p / q| < overflowLimit := by
  obtain ⟨s, m, _, rfl, rfl⟩ := exists_units_of_value? hx
  obtain ⟨t, n, _, rfl, rfl⟩ := exists_units_of_value? hy
  rw [isZero_finite] at nonzero
  have exact : ((m * unitsPerOne : Nat) / n / unitsPerOne : ℚ) =
      |(signed s m / unitsPerOne / (signed t n / unitsPerOne) : ℚ)| := by
    rw [div_div_div_cancel_right₀ (ne_of_gt unitsPerOne_cast_pos), abs_div, abs_signed, abs_signed,
      Nat.cast_mul, div_right_comm, mul_div_cancel_right₀ _ (ne_of_gt unitsPerOne_cast_pos)]
  rw [← exact, div, if_neg nonzero]
  exact finite_ofRatio_iff (Nat.pos_of_ne_zero nonzero)

/-- A remainder is not above the first number, and hence in range. -/
theorem finite_rem (hx : x.value? = some p) (hy : y.value? = some q)
    (nonzero : ¬ y.isZero = true) : (x.rem y).Finite := by
  obtain ⟨s, m, fits, rfl, rfl⟩ := exists_units_of_value? hx
  obtain ⟨t, n, _, rfl, rfl⟩ := exists_units_of_value? hy
  rw [isZero_finite] at nonzero
  have mono := nearest_mono (Nat.mod_le m n)
  rw [nearest_of_fits fits] at mono
  rw [rem, if_neg nonzero, ofRatio_of_nearest (fits_nearest (Nat.lt_of_le_of_lt mono fits.1)) rfl]
  exact ⟨_, rfl⟩

end

end Binary64

/-! ## Operators -/

namespace Number

/-- The number is neither infinite nor `nan`; an integer never is. -/
def Finite (n : Number) : Prop := n.widen.Finite

instance (n : Number) : Decidable n.Finite := inferInstanceAs (Decidable n.widen.Finite)

theorem finite_int (i : Int64) : (int i).Finite := by
  obtain ⟨fits, wide⟩ := widen_int i
  rw [Finite, wide]
  exact ⟨_, rfl⟩

theorem finite_of_kind {n : Number} (h : n.kind = .int) : n.Finite := by
  cases n with
  | int i => exact finite_int i
  | float x => cases h

section

variable {m n v : Number} (float : m.kind.join n.kind = .float)

include float

theorem add_of_float : m.add n = .float (m.widen.add n.widen) := by
  cases m <;> cases n <;> first | rfl | cases float

theorem sub_of_float : m.sub n = .float (m.widen.sub n.widen) := by
  cases m <;> cases n <;> first | rfl | cases float

theorem mul_of_float : m.mul n = .float (m.widen.mul n.widen) := by
  cases m <;> cases n <;> first | rfl | cases float

theorem div_of_float (h : m.div n = .ok v) :
    ¬ n.widen.isZero = true ∧ v = .float (m.widen.div n.widen) := by
  unfold div at h
  split at h
  · cases h
  · next nonzero =>
    cases h
    refine ⟨nonzero, ?_⟩
    cases m <;> cases n <;> first | rfl | cases float

theorem rem_of_float (h : m.rem n = .ok v) :
    ¬ n.widen.isZero = true ∧ v = .float (m.widen.rem n.widen) := by
  unfold rem at h
  split at h
  · cases h
  · next nonzero =>
    cases h
    refine ⟨nonzero, ?_⟩
    cases m <;> cases n <;> first | rfl | cases float

end

end Number

open Binary64

theorem PrefixOp.finite_apply {op : PrefixOp} {n v : Number} (finite : n.Finite)
    (result : op.apply n = .ok v) : v.Finite := by
  cases n with
  | int i =>
    refine Number.finite_of_kind ?_
    rw [(PrefixOp.apply_ok result).1]
    cases op <;> rfl
  | float x =>
    cases op with
    | plus =>
      cases result
      exact finite
    | negate =>
      cases result
      obtain ⟨q, value⟩ := finite
      exact ⟨_, value?_neg value⟩
    | logicalNot =>
      cases result
      show (Binary64.ofInt (if x.isZero then 1 else 0)).Finite
      split
      · exact Number.finite_int 1
      · exact Number.finite_int 0
    | bitNot => cases result

namespace InfixOp

/-- The operation on exact values whose result the operator rounds. -/
def onRat? : InfixOp → Option (ℚ → ℚ → ℚ)
  | add => some (· + ·)
  | subtract => some (· - ·)
  | multiply => some (· * ·)
  | divide => some (· / ·)
  | _ => none

/-- The operator works on finite floating-point numbers, and their exact result is out of range. -/
def Overflows (op : InfixOp) (m n : Number) : Prop :=
  m.kind.join n.kind = .float ∧ ∃ f p q, op.onRat? = some f ∧ m.widen.value? = some p ∧
    n.widen.value? = some q ∧ overflowLimit ≤ |f p q|

section

variable {op : InfixOp} {m n v : Number} {f : ℚ → ℚ → ℚ} {p q : ℚ}

/-- A rounded result is finite exactly if the exact one is below the limit. -/
theorem finite_apply_float_iff (exact : op.onRat? = some f) (float : m.kind.join n.kind = .float)
    (left : m.widen.value? = some p) (right : n.widen.value? = some q)
    (result : op.apply m n = .ok v) : v.Finite ↔ |f p q| < overflowLimit := by
  cases op with
  | add =>
    cases exact
    cases result
    rw [Number.add_of_float float]
    exact finite_add_iff left right
  | subtract =>
    cases exact
    cases result
    rw [Number.sub_of_float float]
    exact finite_sub_iff left right
  | multiply =>
    cases exact
    cases result
    rw [Number.mul_of_float float]
    exact finite_mul_iff left right
  | divide =>
    cases exact
    obtain ⟨nonzero, rfl⟩ := Number.div_of_float float result
    exact finite_div_iff left right nonzero
  | _ => cases exact

/-- Where nothing is rounded, finite numbers have a finite result. -/
theorem finite_apply_of_none (exact : op.onRat? = none) (float : m.kind.join n.kind = .float)
    (left : m.widen.value? = some p) (right : n.widen.value? = some q)
    (result : op.apply m n = .ok v) : v.Finite := by
  cases op with
  | add | subtract | multiply | divide => cases exact
  | modulo =>
    obtain ⟨nonzero, rfl⟩ := Number.rem_of_float float result
    exact finite_rem left right nonzero
  | _ => exact Number.finite_of_kind (apply_ok result).1

/-- A result of finite numbers is finite unless the operator overflows. -/
theorem finite_apply_iff (left : m.Finite) (right : n.Finite) (result : op.apply m n = .ok v) :
    v.Finite ↔ ¬ op.Overflows m n := by
  obtain ⟨p, left⟩ := left
  obtain ⟨q, right⟩ := right
  cases float : m.kind.join n.kind with
  | int =>
    refine iff_of_true (Number.finite_of_kind ?_) fun overflow => ?_
    · rw [(apply_ok result).1]
      cases op <;> first | exact float | rfl
    · rw [overflow.1] at float
      cases float
  | float =>
    cases exact : op.onRat? with
    | none =>
      refine iff_of_true (finite_apply_of_none exact float left right result) ?_
      rintro ⟨_, f, _, _, some, _⟩
      rw [exact] at some
      cases some
    | some f =>
      rw [finite_apply_float_iff exact float left right result, ← not_le, not_iff_not]
      constructor
      · exact fun beyond => ⟨float, f, p, q, exact, left, right, beyond⟩
      · rintro ⟨_, _, _, _, exact', left', right', beyond⟩
        cases exact.symm.trans exact'
        cases left.symm.trans left'
        cases right.symm.trans right'
        exact beyond

theorem overflowLimit_pos : 0 < overflowLimit :=
  sub_pos.2 (pow_lt_pow_right₀ one_lt_two (by omega))

/-- An operator that overflows has a result, which is not finite. -/
theorem Overflows.exists_result (h : op.Overflows m n) :
    ∃ v, op.apply m n = .ok v ∧ ¬ v.Finite := by
  have ⟨_, f, p, q, exact, left, right, beyond⟩ := h
  have defined : ∃ v, op.apply m n = .ok v := by
    cases op with
    | add | subtract | multiply => exact ⟨_, rfl⟩
    | divide =>
      cases exact
      have nonzero : ¬ n.widen.isZero = true := by
        rw [isZero_of_value? right]
        rintro rfl
        dsimp only at beyond
        rw [div_zero, abs_zero] at beyond
        exact absurd beyond (not_le.2 overflowLimit_pos)
      exact ⟨_, if_neg nonzero⟩
    | _ => cases exact
  obtain ⟨v, result⟩ := defined
  refine ⟨v, result, fun finite => ?_⟩
  exact (finite_apply_iff ⟨p, left⟩ ⟨q, right⟩ result).1 finite h

end

end InfixOp

end Ember
