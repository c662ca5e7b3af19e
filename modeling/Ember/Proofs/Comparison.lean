import Mathlib.Control.Monad.Basic
import Ember.Proofs.Widening

/-!
# Comparisons of integers

Comparisons go by the widened numbers, which are all that is left of two integers. `relation?` says
what each comparison asks of two whole numbers, and a comparison of integers answers that question
for their rounded units (`InfixOp.says_iff`). The six answers therefore fit together as those for
two whole numbers do, and the properties of rounding carry over: an order is never turned around,
integers that are more than 1024 apart keep theirs, and up to `2 ^ 53` every answer is exact.
-/

namespace Ember

namespace InfixOp

/-- What a comparison asks of two whole numbers. -/
def relation? : InfixOp → Option (Int → Int → Bool)
  | equal => some fun x y => x = y
  | notEqual => some fun x y => x ≠ y
  | less => some fun x y => x < y
  | lessEqual => some fun x y => x ≤ y
  | greater => some fun x y => y < x
  | greaterEqual => some fun x y => y ≤ x
  | _ => none

/-- The operator takes the two integers to one for the answer yes, and to zero for no. -/
def Says (op : InfixOp) (l r : Int64) (answer : Bool) : Prop :=
  op.apply (.int l) (.int r) = .ok (.int (if answer then 1 else 0))

instance (op : InfixOp) (l r : Int64) (answer : Bool) : Decidable (op.Says l r answer) :=
  inferInstanceAs (Decidable (_ = _))

end InfixOp

/-! ## Answers -/

namespace Number

theorem eq_int (l r : Int64) :
    (int l).eq (int r) = decide (roundedUnits l.toInt = roundedUnits r.toInt) := by
  show decide ((int l).compare? (int r) = some .eq) = _
  rw [compare?_int, decide_eq_decide, Option.some_inj]
  exact Std.compare_eq_iff_eq

theorem lt_int (l r : Int64) :
    (int l).lt (int r) = decide (roundedUnits l.toInt < roundedUnits r.toInt) := by
  show decide ((int l).compare? (int r) = some .lt) = _
  rw [compare?_int, decide_eq_decide, Option.some_inj]
  exact Int.compare_eq_lt

theorem le_int (l r : Int64) :
    (int l).le (int r) = decide (roundedUnits l.toInt ≤ roundedUnits r.toInt) := by
  show ((int l).lt (int r) || (int l).eq (int r)) = _
  rw [lt_int, eq_int, ← Bool.decide_or, decide_eq_decide]
  exact Int.le_iff_lt_or_eq.symm

theorem ofBool_inj {a b : Bool} : ofBool a = ofBool b ↔ a = b := by
  cases a <;> cases b <;> decide

end Number

namespace InfixOp

/-- A comparison of integers answers for their rounded units. -/
theorem says_iff (op : InfixOp) {rel : Int → Int → Bool} (h : op.relation? = some rel)
    (l r : Int64) (answer : Bool) : op.Says l r answer ↔
      rel (roundedUnits l.toInt) (roundedUnits r.toInt) = answer := by
  show op.apply (.int l) (.int r) = .ok (.ofBool answer) ↔ _
  cases op with
  | equal => cases h; rw [apply, Number.eq_int, Except.ok.injEq, Number.ofBool_inj]
  | notEqual =>
    cases h
    rw [apply, Number.eq_int, Except.ok.injEq, Number.ofBool_inj, ← decide_not]
  | less => cases h; rw [apply, Number.lt_int, Except.ok.injEq, Number.ofBool_inj]
  | lessEqual => cases h; rw [apply, Number.le_int, Except.ok.injEq, Number.ofBool_inj]
  | greater => cases h; rw [apply, Number.lt_int, Except.ok.injEq, Number.ofBool_inj]
  | greaterEqual => cases h; rw [apply, Number.le_int, Except.ok.injEq, Number.ofBool_inj]
  | _ => cases h

/-- A comparison only asks for the order of two numbers, which a common positive factor keeps. -/
theorem relation?_mul_right {op : InfixOp} {rel : Int → Int → Bool} (h : op.relation? = some rel)
    {k : Int} (pos : 0 < k) (x y : Int) : rel (x * k) (y * k) = rel x y := by
  have lt (x y : Int) : x * k < y * k ↔ x < y := Int.mul_lt_mul_right pos
  have le (x y : Int) : x * k ≤ y * k ↔ x ≤ y := Int.mul_le_mul_right pos
  have eq : x * k = y * k ↔ x = y := Int.mul_eq_mul_right_iff (by omega)
  cases op <;> cases h <;> simp only [lt, le, eq, ne_eq]

/-- Of `<`, `==` and `>` exactly one answers yes for two integers, and `<=`, `>=` and `!=` are the
opposites of `>`, `<` and `==`. If the first integer is below the second, `<=` says so and `>` does
not; if it is more than 1024 below it, `<` says so too; and for integers of at most `2 ^ 53` in
absolute value all six answers are exact. -/
theorem integer_comparison_never_inverted (l r : Int64) :
    (less.Says l r true ∧ equal.Says l r false ∧ greater.Says l r false ∨
      less.Says l r false ∧ equal.Says l r true ∧ greater.Says l r false ∨
      less.Says l r false ∧ equal.Says l r false ∧ greater.Says l r true) ∧
    (∀ answer, lessEqual.Says l r answer ↔ greater.Says l r !answer) ∧
    (∀ answer, greaterEqual.Says l r answer ↔ less.Says l r !answer) ∧
    (∀ answer, notEqual.Says l r answer ↔ equal.Says l r !answer) ∧
    (l.toInt < r.toInt → lessEqual.Says l r true ∧ greater.Says l r false) ∧
    (1024 < r.toInt - l.toInt → less.Says l r true) ∧
    (l.toInt.natAbs ≤ 2 ^ 53 → r.toInt.natAbs ≤ 2 ^ 53 →
      ∀ (op : InfixOp) rel, op.relation? = some rel → op.Says l r (rel l.toInt r.toInt)) := by
  have lt := says_iff less rfl l r
  have eq := says_iff equal rfl l r
  have gt := says_iff greater rfl l r
  have le := says_iff lessEqual rfl l r
  have ge := says_iff greaterEqual rfl l r
  have ne := says_iff notEqual rfl l r
  refine ⟨?_, fun answer => ?_, fun answer => ?_, fun answer => ?_, fun below => ?_, fun far => ?_,
    fun left right op rel h => ?_⟩
  · simp only [lt, eq, gt, decide_eq_true_eq, decide_eq_false_iff_not]
    omega
  · rw [le, gt]
    cases answer <;> simp
  · rw [ge, lt]
    cases answer <;> simp
  · rw [ne, eq]
    cases answer <;> simp
  · have mono := roundedUnits_mono (Int.le_of_lt below)
    simp only [le, gt, decide_eq_true_eq, decide_eq_false_iff_not]
    omega
  · rw [lt, decide_eq_true_eq]
    exact roundedUnits_lt (natAbs_toInt_le l) (natAbs_toInt_le r) far
  · have one : (0 : Int) < unitsPerOne := by exact_mod_cast unitsPerOne_pos
    rw [says_iff op h, roundedUnits_exact left, roundedUnits_exact right]
    exact relation?_mul_right h one l.toInt r.toInt

/-- Two integers that are 1025 apart, with the greater one the last for which all answers are
exact. -/
theorem two_pow_53_compares_exactly :
    lessEqual.Says 9007199254739967 9007199254740992 true ∧
      greater.Says 9007199254739967 9007199254740992 false ∧
      less.Says 9007199254739967 9007199254740992 true ∧
      notEqual.Says 9007199254739967 9007199254740992 true := by
  obtain ⟨_, _, _, _, below, far, exact⟩ :=
    integer_comparison_never_inverted 9007199254739967 9007199254740992
  obtain ⟨lessEqual, greater⟩ := below (by decide)
  exact ⟨lessEqual, greater, far (by decide), exact (by decide) (by decide) notEqual _ rfl⟩

-- Neither bound can be improved: `2 ^ 53` and its successor are widened to the same number, and so
-- are some integers that are 1024 apart.
example : equal.Says 9007199254740992 9007199254740993 true := by decide +kernel

example : equal.Says 4611686018427389440 4611686018427390464 true := by decide +kernel

end InfixOp

end Ember
