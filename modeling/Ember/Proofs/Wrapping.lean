import Mathlib.Data.Int.Bitwise
import Ember.Evaluation

/-!
# Integer expressions modulo `2 ^ 64`

An expression over integer literals with `+`, `-`, `*`, the bitwise operators and left shifts has an
exact value among all whole numbers, negative ones having infinitely many ones on the left. The
words that evaluation goes through wrap at every operator, and still the result is the exact value
reduced once (`evaluate_of_exactValue`): taking a whole number to its word commutes with each of
these operators (`PrefixOp.apply_ofInt`, `InfixOp.apply_ofInt`).

The bits of a word are the lowest 64 of the number (`getLsbD_ofInt`), which settles the bitwise
operators; a shift goes by its right operand modulo 64, and 64 divides `2 ^ 64`.
-/

namespace Ember

/-! ## Exact values -/

/-- What a prefix operator does to whole numbers. -/
def PrefixOp.onInt? : PrefixOp → Option (Int → Int)
  | plus => some fun x => x
  | negate => some fun x => -x
  | bitNot => some Int.lnot
  | logicalNot => none

/-- What an infix operator does to whole numbers; the other operators do not go by residues. -/
def InfixOp.onInt? : InfixOp → Option (Int → Int → Int)
  | add => some fun x y => x + y
  | subtract => some fun x y => x - y
  | multiply => some fun x y => x * y
  | bitAnd => some Int.land
  | bitOr => some Int.lor
  | bitXor => some Int.xor
  | shiftLeft => some fun x y => x * 2 ^ (y % 64).toNat
  | _ => none

namespace Expr

/-- The value of an expression among all whole numbers. -/
def exactValue? : Expr → Option Int
  | literal n _ => n.int?.map Int64.toInt
  | unary op e _ => op.onInt?.bind fun f => e.exactValue?.map f
  | binary op l r _ => op.onInt?.bind fun f => l.exactValue?.bind fun x => r.exactValue?.map (f x)

/-- All literals are integers, and all operators are sums, products, bitwise or left shifts. -/
def IsModular : Expr → Prop
  | literal n _ => n.isInt = true
  | unary op e _ => op ∈ [.plus, .negate, .bitNot] ∧ e.IsModular
  | binary op l r _ =>
    op ∈ [.add, .subtract, .multiply, .bitAnd, .bitOr, .bitXor, .shiftLeft] ∧
      l.IsModular ∧ r.IsModular

instance decidableIsModular : (e : Expr) → Decidable e.IsModular
  | literal n _ => inferInstanceAs (Decidable (n.isInt = true))
  | unary _ e _ =>
    have := decidableIsModular e
    inferInstanceAs (Decidable (_ ∧ _))
  | binary _ l r _ =>
    have := decidableIsModular l
    have := decidableIsModular r
    inferInstanceAs (Decidable (_ ∧ _ ∧ _))

end Expr

/-! ## Words and their bits -/

theorem getLsbD_ofInt {w i : Nat} (h : i < w) (x : Int) :
    (BitVec.ofInt w x).getLsbD i = x.testBit i := by
  cases x with
  | ofNat m =>
    rw [Int.ofNat_eq_natCast, BitVec.ofInt_natCast, BitVec.getLsbD_ofNat, decide_eq_true h,
      Bool.true_and]
    rfl
  | negSucc m =>
    rw [BitVec.ofInt_negSucc_eq_not_ofNat, BitVec.getLsbD_not, BitVec.getLsbD_ofNat,
      decide_eq_true h, Bool.true_and, Bool.true_and]
    rfl

/-- A number whose 64 lowest bits are those of a word has this word. -/
theorem ofInt_eq_of_bits {x : Int} {v : Int64}
    (h : ∀ i < 64, x.testBit i = v.toBitVec.getLsbD i) : Int64.ofInt x = v := by
  apply Int64.toBitVec_inj.1
  apply BitVec.eq_of_getLsbD_eq
  intro i lt
  rw [Int64.toBitVec_ofInt, getLsbD_ofInt lt, h i lt]

theorem ofInt_lnot (x : Int) : Int64.ofInt x.lnot = ~~~Int64.ofInt x := by
  apply ofInt_eq_of_bits
  intro i lt
  rw [Int.testBit_lnot, Int64.toBitVec_not, BitVec.getLsbD_not, Int64.toBitVec_ofInt,
    getLsbD_ofInt lt, decide_eq_true lt, Bool.true_and]

/-- An operation that works on each bit alone does the same to words and to whole numbers. -/
theorem ofInt_bitwise (f : Bool → Bool → Bool) (op : Int64 → Int64 → Int64)
    (h : ∀ v w i, (op v w).toBitVec.getLsbD i = f (v.toBitVec.getLsbD i) (w.toBitVec.getLsbD i))
    (x y : Int) : Int64.ofInt (Int.bitwise f x y) = op (.ofInt x) (.ofInt y) := by
  apply ofInt_eq_of_bits
  intro i lt
  rw [Int.testBit_bitwise, h, Int64.toBitVec_ofInt, Int64.toBitVec_ofInt, getLsbD_ofInt lt,
    getLsbD_ofInt lt]

theorem ofInt_land (x y : Int) : Int64.ofInt (x.land y) = Int64.ofInt x &&& Int64.ofInt y := by
  rw [← Int.bitwise_and]
  exact ofInt_bitwise and (· &&& ·) (fun _ _ _ => BitVec.getLsbD_and) x y

theorem ofInt_lor (x y : Int) : Int64.ofInt (x.lor y) = Int64.ofInt x ||| Int64.ofInt y := by
  rw [← Int.bitwise_or]
  exact ofInt_bitwise or (· ||| ·) (fun _ _ _ => BitVec.getLsbD_or) x y

theorem ofInt_xor (x y : Int) : Int64.ofInt (x.xor y) = Int64.ofInt x ^^^ Int64.ofInt y := by
  rw [← Int.bitwise_xor]
  exact ofInt_bitwise xor (· ^^^ ·) (fun _ _ _ => BitVec.getLsbD_xor) x y

/-! ## Shifts -/

/-- Neither the low 32 bits nor the mask of a shift amount lose anything of the right operand modulo
64. -/
theorem shiftAmount_ofInt (y : Int) :
    (Number.shiftAmount (.ofInt y) &&& 63).toNat = (y % 64).toNat := by
  have word : (Int64.ofInt y).toUInt64.toNat = (y % 2 ^ 64).toNat := BitVec.toNat_ofInt y
  have mask : (63 : UInt32).toNat = 2 ^ 6 - 1 := rfl
  rw [UInt32.toNat_and, mask, Nat.and_two_pow_sub_one_eq_mod, Number.shiftAmount,
    UInt64.toNat_toUInt32, word]
  omega

theorem ofInt_two_pow (n : Nat) : BitVec.ofInt 64 (2 ^ n) = BitVec.twoPow 64 n := by
  have cast : (2 ^ n : Int) = ((2 ^ n : Nat) : Int) := by norm_cast
  rw [cast, BitVec.ofInt_natCast]
  apply BitVec.eq_of_toNat_eq
  rw [BitVec.toNat_ofNat, BitVec.toNat_twoPow]

theorem ofInt_shiftLeft (x y : Int) : Int64.ofInt (x * 2 ^ (y % 64).toNat) =
    Number.shiftLeft (.ofInt x) (Number.shiftAmount (.ofInt y)) := by
  apply Int64.toBitVec_inj.1
  rw [Number.shiftLeft, shiftAmount_ofInt, Int64.toBitVec_ofBitVec, Int64.toBitVec_ofInt,
    Int64.toBitVec_ofInt, BitVec.ofInt_mul, ofInt_two_pow, BitVec.mul_twoPow_eq_shiftLeft]

/-! ## Operators -/

theorem PrefixOp.apply_ofInt {op : PrefixOp} {f : Int → Int} (h : op.onInt? = some f) (x : Int) :
    op.apply (.int (.ofInt x)) = .ok (.int (.ofInt (f x))) := by
  cases op with
  | plus => cases h; rfl
  | negate => cases h; rw [apply, Number.negate, Int64.ofInt_neg]
  | logicalNot => cases h
  | bitNot => cases h; rw [apply, Number.bitNot, ofInt_lnot]

theorem InfixOp.apply_ofInt {op : InfixOp} {f : Int → Int → Int} (h : op.onInt? = some f)
    (x y : Int) : op.apply (.int (.ofInt x)) (.int (.ofInt y)) = .ok (.int (.ofInt (f x y))) := by
  cases op with
  | add => cases h; rw [Int64.ofInt_add]; rfl
  | subtract => cases h; rw [Int64.ofInt_sub]; rfl
  | multiply => cases h; rw [Int64.ofInt_mul]; rfl
  | bitAnd => cases h; rw [ofInt_land]; rfl
  | bitOr => cases h; rw [ofInt_lor]; rfl
  | bitXor => cases h; rw [ofInt_xor]; rfl
  | shiftLeft => cases h; rw [ofInt_shiftLeft]; rfl
  | _ => cases h

/-! ## Expressions -/

namespace Expr

/-- Wrapping at every operator comes to wrapping the exact value once. -/
theorem evaluate_of_exactValue {e : Expr} {x : Int} (h : e.exactValue? = some x) :
    e.evaluate = .ok (.int (.ofInt x)) := by
  induction e generalizing x with
  | literal n p =>
    obtain ⟨i, value, rfl⟩ := Option.map_eq_some_iff.1 h
    cases n with
    | int j =>
      cases value
      rw [evaluate, Int64.ofInt_toInt]
    | float y => cases value
  | unary op e p ih =>
    obtain ⟨f, exact, h⟩ := Option.bind_eq_some_iff.1 h
    obtain ⟨y, operand, rfl⟩ := Option.map_eq_some_iff.1 h
    simp only [evaluate, ih operand, PrefixOp.apply_ofInt exact]
    rfl
  | binary op l r p ihl ihr =>
    obtain ⟨f, exact, h⟩ := Option.bind_eq_some_iff.1 h
    obtain ⟨y, left, h⟩ := Option.bind_eq_some_iff.1 h
    obtain ⟨z, right, rfl⟩ := Option.map_eq_some_iff.1 h
    simp only [evaluate, ihl left, ihr right, InfixOp.apply_ofInt exact]
    rfl

/-- Every modular expression has an exact value. -/
theorem IsModular.exists_exactValue {e : Expr} (h : e.IsModular) : ∃ x, e.exactValue? = some x := by
  induction e with
  | literal n p =>
    cases n with
    | int i => exact ⟨i.toInt, rfl⟩
    | float y => cases h
  | unary op e p ih =>
    obtain ⟨x, operand⟩ := ih h.2
    have exact : ∀ op ∈ [PrefixOp.plus, .negate, .bitNot], op.onInt?.isSome := by decide
    obtain ⟨f, exact⟩ := Option.isSome_iff_exists.1 (exact op h.1)
    exact ⟨f x, by rw [exactValue?, exact, operand]; rfl⟩
  | binary op l r p ihl ihr =>
    obtain ⟨x, left⟩ := ihl h.2.1
    obtain ⟨y, right⟩ := ihr h.2.2
    have exact : ∀ op ∈ [InfixOp.add, .subtract, .multiply, .bitAnd, .bitOr, .bitXor, .shiftLeft],
        op.onInt?.isSome := by decide
    obtain ⟨f, exact⟩ := Option.isSome_iff_exists.1 (exact op h.1)
    exact ⟨f x y, by rw [exactValue?, exact, left, right]; rfl⟩

/-- A modular expression evaluates to the integer of 64 bits that its exact value is congruent to
modulo `2 ^ 64`. -/
theorem evaluate_eq_exact_mod_two_pow_64 {e : Expr} (h : e.IsModular) :
    ∃ x v, e.exactValue? = some x ∧ e.evaluate = .ok (.int v) ∧ v.toInt = x.bmod (2 ^ 64) := by
  obtain ⟨x, exact⟩ := h.exists_exactValue
  exact ⟨x, .ofInt x, exact, evaluate_of_exactValue exact, Int64.toInt_ofInt⟩

/-- The square of the greatest integer, shifted by minus one: the exact value has 189 bits, and the
least integer is what is left of it. -/
theorem square_shifted_by_minus_one_wraps :
    ∃ e : Expr, e.IsModular ∧
      e.exactValue? = some (9223372036854775807 * 9223372036854775807 * 2 ^ 63) ∧
      e.evaluate = .ok (.int (-9223372036854775808)) := by
  let greatest : Expr := .literal (.int 9223372036854775807) ⟨1, 0⟩
  let e : Expr := .binary .shiftLeft (.binary .multiply greatest greatest ⟨1, 20⟩)
    (.unary .negate (.literal (.int 1) ⟨1, 46⟩) ⟨1, 45⟩) ⟨1, 42⟩
  have modular : e.IsModular := by decide
  have exact : e.exactValue? = some (9223372036854775807 * 9223372036854775807 * 2 ^ 63) := by
    decide +kernel
  obtain ⟨x, v, exact', value, residue⟩ := evaluate_eq_exact_mod_two_pow_64 modular
  cases exact.symm.trans exact'
  have least : v = -9223372036854775808 := Int64.toInt_inj.1 (residue.trans (by decide +kernel))
  exact ⟨e, modular, exact, by rw [value, least]⟩

end Expr

end Ember
