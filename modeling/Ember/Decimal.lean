import Ember.Binary64

/-!
# Decimal numerals

A decimal is a whole number of some power of ten. This module reads numerals into decimals, and
rounds a decimal to the nearest `Binary64`. `Decimal.shortest` goes the other way: of the decimals
that round to a given number it takes one with the fewest digits, the nearest of those.

The search tries one digit, then two, and so on up to seventeen; behind it stands the exact
decimal value of the number, so that the result rounds back to the number in every case.
-/

namespace Ember

/-! ## Digits -/

/-- The value of an ASCII digit. -/
def digitValue (c : Char) : Nat := c.toNat - '0'.toNat

/-- The value of a run of digits. -/
def digitsValue (cs : List Char) : Nat := cs.foldl (fun n c => 10 * n + digitValue c) 0

/-- How many decimal digits a number is written with. -/
def digitCount (n : Nat) : Nat := (Nat.toDigits 10 n).length

/-- Whether the characters are digits, and at least one. -/
def isNumeral (cs : List Char) : Bool := !cs.isEmpty && cs.all Char.isDigit

/-- A leading sign, `true` for a minus, and what follows it. -/
def splitSign : List Char → Bool × List Char
  | '-' :: cs => (true, cs)
  | '+' :: cs => (false, cs)
  | cs => (false, cs)

/-- The whole number that a numeral with an optional sign stands for. -/
def readInt? (cs : List Char) : Option Int :=
  let (negative, ds) := splitSign cs
  if isNumeral ds then
    some (if negative then -(digitsValue ds : Int) else (digitsValue ds : Int))
  else
    none

/-- The 64-bit integer that a numeral with an optional sign stands for, if it is in range. -/
def readInt64? (cs : List Char) : Option Int64 :=
  match readInt? cs with
  | some n =>
    if Int64.minValue.toInt ≤ n ∧ n ≤ Int64.maxValue.toInt then some (.ofInt n) else none
  | none => none

/-! ## Decimals -/

/-- The number `digits * 10 ^ exponent`. -/
structure Decimal where
  digits : Nat
  /-- The power of ten that they count. -/
  exponent : Int
deriving DecidableEq

namespace Decimal

/-- Numerator of the value. -/
def num (d : Decimal) : Nat := d.digits * Nat.pow 10 d.exponent.toNat

/-- Denominator of the value. -/
def den (d : Decimal) : Nat := Nat.pow 10 (-d.exponent).toNat

/-- The exponent `e` for which the value is below `10 ^ e` and not below `10 ^ (e - 1)`. -/
def magnitude (d : Decimal) : Int := digitCount d.digits + d.exponent

/-- The nearest number of 64 bits. A value from `10 ^ 309` on is out of range and one below
`10 ^ -324` is less than half a unit, so that no large power of ten is ever written out. -/
def toBinary64 (negative : Bool) (d : Decimal) : Binary64 :=
  if d.digits = 0 then .zero negative
  else if 309 < d.magnitude then .infinite negative
  else if d.magnitude < -323 then .zero negative
  else .ofRatio negative (d.num * unitsPerOne) d.den

/-! ## Reading -/

/-- The exponent part of a numeral: nothing, or the letter and a whole number. -/
def readExponent? : List Char → Option Int
  | [] => some 0
  | c :: cs => if c = 'e' ∨ c = 'E' then readInt? cs else none

/-- An unsigned numeral: digits with a point before, among or after them or none at all, and an
optional exponent. -/
def read? (cs : List Char) : Option Decimal :=
  let whole := cs.takeWhile Char.isDigit
  let (places, rest) :=
    match cs.dropWhile Char.isDigit with
    | '.' :: ds => (ds.takeWhile Char.isDigit, ds.dropWhile Char.isDigit)
    | ds => ([], ds)
  if whole ++ places = [] then none
  else
    (readExponent? rest).map fun e => ⟨digitsValue (whole ++ places), e - places.length⟩

/-- A number of 64 bits in words or digits: an optional sign, and then an infinity or `nan` in any
case, or a numeral. -/
def readBinary64? (cs : List Char) : Option Binary64 :=
  let (negative, ds) := splitSign cs
  let word := String.ofList (ds.map Char.toLower)
  if word = "inf" ∨ word = "infinity" then some (.infinite negative)
  else if word = "nan" then some .nan
  else (read? ds).map (toBinary64 negative)

/-! ## The shortest decimal of a number -/

/-- The exact value of a number of units. -/
def exact (units : Nat) : Decimal := ⟨units * Nat.pow 5 1074, -1074⟩

/-- The exponent `e` for which the number of units is below `10 ^ e` and not below `10 ^ (e - 1)`.
A unit is more than `10 ^ -324`, so that the number times `10 ^ 324` has a whole part. -/
def unitsMagnitude (units : Nat) : Int :=
  (digitCount (units * Nat.pow 10 324 / unitsPerOne) : Int) - 324

/-- Whether the decimal rounds to `units`. -/
def roundsTo (d : Decimal) (units : Nat) : Bool :=
  match d.toBinary64 false with
  | .finite _ n _ => n = units
  | _ => false

/-- Of the decimals that count `10 ^ exponent`, the one nearest to `units` among those that round
to it; halfway between two, the greater. -/
def onGrid? (units : Nat) (exponent : Int) : Option Decimal :=
  let num := units * Nat.pow 10 (-exponent).toNat
  let den := unitsPerOne * Nat.pow 10 exponent.toNat
  let below : Decimal := ⟨num / den, exponent⟩
  let above : Decimal := ⟨num / den + 1, exponent⟩
  match below.roundsTo units, above.roundsTo units with
  | true, true => some (if 2 * (num % den) < den then below else above)
  | true, false => some below
  | false, true => some above
  | false, false => none

/-- The same value without zeros at the end of its digits. -/
def trim (d : Decimal) : Decimal :=
  if d.digits ≠ 0 ∧ d.digits % 10 = 0 then trim ⟨d.digits / 10, d.exponent + 1⟩ else d
termination_by d.digits
decreasing_by omega

/-- A decimal with the fewest digits of those that round to `units`, the nearest of them. -/
def shortest (units : Nat) : Decimal :=
  let e := unitsMagnitude units
  (((List.range 17).findSome? fun (n : Nat) => onGrid? units (e - (n + 1))).getD (exact units)).trim

end Decimal

end Ember
