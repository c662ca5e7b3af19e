/-!
# Binary floating-point numbers of 64 bits

Every finite number of the format is a whole multiple of the least positive one, `2 ^ -1074`. A
finite value is therefore kept as a sign and a natural number of these units. The numbers of units
that the format can hold are those with at most 53 significant bits below `2 ^ 2098`: `Fits` says
so, and each value carries a proof of it.

Arithmetic is exact arithmetic on units followed by one rounding, `ofRatio`: to the nearest
number that fits, the one with an even last bit if two are as near, and to infinity beyond the
range. There is one value `nan`, for all results that are not numbers.

Main statement: `fits_nearest`, the rounded number of units fits unless it is out of range.
-/

namespace Ember

/-! ## Numbers of units -/

/-- One is this many units of `2 ^ -1074`. -/
def unitsPerOne : Nat := Nat.pow 2 1074

/-- The first power of two that is out of range, in units. -/
def unitsLimit : Nat := Nat.pow 2 2098

/-- The weight of the last bit of `n` when it is written with 53 significant bits. -/
def lastPlace (n : Nat) : Nat := Nat.pow 2 (n.log2 - 52)

/-- The format can hold `n` units: they are in range and have at most 53 significant bits. -/
def Fits (n : Nat) : Prop := n < unitsLimit ∧ n % lastPlace n = 0

instance (n : Nat) : Decidable (Fits n) := inferInstanceAs (Decidable (_ ∧ _))

theorem fits_zero : Fits 0 := ⟨by decide +kernel, Nat.zero_mod _⟩

/-- The whole number nearest to `num / den`, the even one of two that are as near. -/
def roundQuotient (num den : Nat) : Nat :=
  let quotient := num / den
  match compare (2 * (num % den)) den with
  | .lt => quotient
  | .eq => quotient + quotient % 2
  | .gt => quotient + 1

/-- The number with at most 53 significant bits nearest to `num / den`, the one with an even last
bit of two that are as near. -/
def nearest (num den : Nat) : Nat :=
  let place := lastPlace (num / den)
  roundQuotient num (den * place) * place

theorem roundQuotient_le (num den : Nat) : roundQuotient num den ≤ num / den + 1 := by
  unfold roundQuotient
  dsimp only
  split <;> omega

/-- A multiple of a power of two that counts at most `2 ^ 53` of it has at most 53 significant
bits. -/
theorem mul_two_pow_mod_lastPlace {q : Nat} (le : q ≤ Nat.pow 2 53) (s : Nat) :
    q * Nat.pow 2 s % lastPlace (q * Nat.pow 2 s) = 0 := by
  apply Nat.mod_eq_zero_of_dvd
  unfold lastPlace
  simp only [Nat.pow_eq] at le ⊢
  by_cases full : q = 2 ^ 53
  · rw [full, ← Nat.pow_add, Nat.log2_two_pow]
    exact Nat.pow_dvd_pow 2 (by omega)
  · by_cases zero : q = 0
    · simp [zero]
    · have lt : q * 2 ^ s < 2 ^ (53 + s) := by
        rw [Nat.pow_add]
        exact Nat.mul_lt_mul_of_pos_right (by omega) (Nat.two_pow_pos s)
      have bits : (q * 2 ^ s).log2 < 53 + s :=
        (Nat.log2_lt (Nat.mul_ne_zero zero (Nat.ne_of_gt (Nat.two_pow_pos s)))).2 lt
      exact Nat.dvd_trans (Nat.pow_dvd_pow 2 (by omega)) (Nat.dvd_mul_left _ _)

/-- Rounding leaves at most 53 significant bits: the rounded quotient has 53 bits, or it is the
next power of two. -/
theorem nearest_mod_lastPlace (num den : Nat) :
    nearest num den % lastPlace (nearest num den) = 0 := by
  have small : num / (den * lastPlace (num / den)) < 2 ^ 53 := by
    rw [← Nat.div_div_eq_div_mul, lastPlace, Nat.pow_eq,
      Nat.div_lt_iff_lt_mul (Nat.two_pow_pos _), ← Nat.pow_add]
    exact Nat.lt_of_lt_of_le Nat.lt_log2_self (Nat.pow_le_pow_right (by decide) (by omega))
  exact mul_two_pow_mod_lastPlace (Nat.le_trans (roundQuotient_le ..) small) _

/-- A rounded number of units fits as soon as it is in range. -/
theorem fits_nearest {num den : Nat} (h : nearest num den < unitsLimit) :
    Fits (nearest num den) :=
  ⟨h, nearest_mod_lastPlace num den⟩

/-! ## Values -/

/-- A floating-point number of 64 bits. -/
inductive Binary64 where
  | nan
  | infinite (negative : Bool)
  /-- A number of units of `2 ^ -1074`, with a sign that zero has too. -/
  | finite (negative : Bool) (units : Nat) (fits : Fits units)
deriving DecidableEq

namespace Binary64

/-- Zero, with a sign. -/
def zero (negative : Bool) : Binary64 := .finite negative 0 fits_zero

/-- The number nearest to `num / den` units; one that is out of range is infinite. -/
def ofRatio (negative : Bool) (num den : Nat) : Binary64 :=
  if h : nearest num den < unitsLimit then
    .finite negative (nearest num den) (fits_nearest h)
  else
    .infinite negative

/-- The number nearest to a whole number. -/
def ofInt (n : Int) : Binary64 := ofRatio (n < 0) (n.natAbs * unitsPerOne) 1

/-- The number with the given bits: a sign, eleven bits of exponent and 52 of significand. -/
def ofBits (bits : UInt64) : Binary64 :=
  let negative := bits >>> 63 = 1
  let exponent := (bits >>> 52 &&& 0x7ff).toNat
  let fraction := (bits &&& 0xfffffffffffff).toNat
  if exponent = 0x7ff then
    if fraction = 0 then .infinite negative else .nan
  else if exponent = 0 then
    ofRatio negative fraction 1
  else
    ofRatio negative ((0x10000000000000 + fraction) * Nat.pow 2 (exponent - 1)) 1

/-- A sign and a number of units, as a whole number. -/
def signed (negative : Bool) (units : Nat) : Int := if negative then -units else units

/-! ## Order -/

/-- The order of two numbers; there is none with `nan`, and both zeros are equal. -/
def compare? : Binary64 → Binary64 → Option Ordering
  | .nan, _ => none
  | _, .nan => none
  | .infinite s, .infinite t => some (Ord.compare t s)
  | .infinite s, .finite .. => some (if s then .lt else .gt)
  | .finite .., .infinite t => some (if t then .gt else .lt)
  | .finite s m _, .finite t n _ => some (Ord.compare (signed s m) (signed t n))

/-- Whether two numbers are equal; `nan` equals nothing. -/
def eq (x y : Binary64) : Bool := x.compare? y = some .eq

/-- Whether `x` is below `y`. -/
def lt (x y : Binary64) : Bool := x.compare? y = some .lt

/-- Whether `x` is below `y` or equal to it. -/
def le (x y : Binary64) : Bool := x.lt y || x.eq y

/-- Whether the number is one of the two zeros. -/
def isZero (x : Binary64) : Bool := x.eq (zero false)

/-! ## Arithmetic -/

/-- The number with the other sign. -/
def neg : Binary64 → Binary64
  | .nan => .nan
  | .infinite s => .infinite !s
  | .finite s n h => .finite (!s) n h

/-- The sum. Two infinities of different signs have none, and a zero sum is negative only if both
numbers are. -/
def add : Binary64 → Binary64 → Binary64
  | .nan, _ => .nan
  | _, .nan => .nan
  | .infinite s, .infinite t => if s = t then .infinite s else .nan
  | .infinite s, .finite .. => .infinite s
  | .finite .., .infinite t => .infinite t
  | .finite s m _, .finite t n _ =>
    let sum := signed s m + signed t n
    ofRatio (if sum = 0 then s && t else sum < 0) sum.natAbs 1

/-- The difference. -/
def sub (x y : Binary64) : Binary64 := x.add y.neg

/-- The product. An infinity times zero has none. -/
def mul : Binary64 → Binary64 → Binary64
  | .nan, _ => .nan
  | _, .nan => .nan
  | .infinite s, .infinite t => .infinite (s ^^ t)
  | .infinite s, .finite t n _ => if n = 0 then .nan else .infinite (s ^^ t)
  | .finite s m _, .infinite t => if m = 0 then .nan else .infinite (s ^^ t)
  | .finite s m _, .finite t n _ => ofRatio (s ^^ t) (m * n) unitsPerOne

/-- The quotient. Infinity over infinity and zero over zero have none, and anything else over zero
is infinite. -/
def div : Binary64 → Binary64 → Binary64
  | .nan, _ => .nan
  | _, .nan => .nan
  | .infinite _, .infinite _ => .nan
  | .infinite s, .finite t _ _ => .infinite (s ^^ t)
  | .finite s _ _, .infinite t => zero (s ^^ t)
  | .finite s m _, .finite t n _ =>
    if n = 0 then
      if m = 0 then .nan else .infinite (s ^^ t)
    else
      ofRatio (s ^^ t) (m * unitsPerOne) n

/-- What is left of the first number after taking away a whole multiple of the second, the
quotient being rounded toward zero; it has the sign of the first number. The remainder of the
numbers of units always fits, so that rounding changes nothing. -/
def rem : Binary64 → Binary64 → Binary64
  | .nan, _ => .nan
  | _, .nan => .nan
  | .infinite _, _ => .nan
  | x, .infinite _ => x
  | .finite s m _, .finite _ n _ => if n = 0 then .nan else ofRatio s (m % n) 1

end Binary64

end Ember
