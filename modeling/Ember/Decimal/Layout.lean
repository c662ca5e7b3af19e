import Ember.Decimal

/-!
# The text of a floating-point number

A number is written with its shortest digits, either positionally (`0.001`, `120.0`) or with an
exponent (`1.5e-7`). A `Layout` says which numbers are written with an exponent and whether a whole
number keeps a point and a zero.
-/

namespace Ember

/-- The choices in writing a floating-point number. -/
structure Layout where
  /-- Whether numbers of this magnitude are written positionally, where a number of magnitude `e`
  is below `10 ^ e` and not below `10 ^ (e - 1)`. -/
  positional : Int → Bool
  /-- Whether a whole number written positionally ends in a point and a zero. -/
  pointZero : Bool

namespace Layout

/-- Numbers from `10 ^ -4` up to `10 ^ 16` are written positionally, and a point is always
there. -/
def value : Layout := ⟨fun e => -3 ≤ e && e ≤ 16, true⟩

/-- All numbers are written positionally, and a whole number has no point. -/
def plain : Layout := ⟨fun _ => true, false⟩

/-- Digits with the point after the first `e` of them. -/
def placePoint (l : Layout) (digits : List Char) (e : Int) : List Char :=
  if e ≤ 0 then
    '0' :: '.' :: List.replicate (-e).toNat '0' ++ digits
  else if digits.length ≤ e.toNat then
    digits ++ List.replicate (e.toNat - digits.length) '0'
      ++ (if l.pointZero then ['.', '0'] else [])
  else
    digits.take e.toNat ++ '.' :: digits.drop e.toNat

/-- Digits with the point after the first one, and the power of ten. -/
def withExponent (digits : List Char) (e : Int) : List Char :=
  let mantissa :=
    match digits with
    | [] => []
    | [d] => [d]
    | d :: ds => d :: '.' :: ds
  mantissa ++ 'e' :: (Int.repr (e - 1)).toList

/-- A decimal other than zero. -/
def decimal (l : Layout) (d : Decimal) : List Char :=
  let digits := Nat.toDigits 10 d.digits
  if l.positional d.magnitude then l.placePoint digits d.magnitude
  else withExponent digits d.magnitude

/-- A number without its sign. -/
def unsigned (l : Layout) (units : Nat) : List Char :=
  if units = 0 then (if l.pointZero then ['0', '.', '0'] else ['0'])
  else l.decimal (.shortest units)

/-- A sign, where there is one, before a text. -/
def sign (negative : Bool) (cs : List Char) : List Char := if negative then '-' :: cs else cs

/-- The text of a number. -/
def text (l : Layout) : Binary64 → String
  | .nan => "NaN"
  | .infinite s => String.ofList (sign s ['i', 'n', 'f'])
  | .finite s n _ => String.ofList (sign s (l.unsigned n))

end Layout

end Ember
