import Ember.Decimal.Layout

/-!
# Numbers

A number is a 64-bit integer or a floating-point number. Numbers of different kinds meet as
floating-point numbers: `widen` takes an integer to the nearest one, and equality and order are
those of the widened values.
-/

namespace Ember

/-- A value of the language. -/
inductive Number where
  | int (value : Int64)
  | float (value : Binary64)
deriving DecidableEq

namespace Number

instance : Inhabited Number := ⟨.int 0⟩

/-- One for `true` and zero for `false`. -/
def ofBool (b : Bool) : Number := .int (if b then 1 else 0)

/-- Whether the number is kept as an integer. -/
def isInt : Number → Bool
  | .int _ => true
  | .float _ => false

/-- The name of the kind that the number is kept as. -/
def kindName : Number → String
  | .int _ => "integer"
  | .float _ => "float"

/-- The integer, if the number is kept as one. -/
def int? : Number → Option Int64
  | .int i => some i
  | .float _ => none

/-- The floating-point number, if the number is kept as one. -/
def float? : Number → Option Binary64
  | .int _ => none
  | .float x => some x

/-- The number as a floating-point number, an integer going to the nearest one. -/
def widen : Number → Binary64
  | .int i => .ofInt i.toInt
  | .float x => x

/-- Whether the widened number is zero. -/
def isZero (n : Number) : Bool := n.widen.isZero

/-- The order of the widened numbers. -/
def compare? (m n : Number) : Option Ordering := m.widen.compare? n.widen

/-- Whether the widened numbers are equal. -/
def eq (m n : Number) : Bool := m.widen.eq n.widen

/-- Whether the first widened number is below the second. -/
def lt (m n : Number) : Bool := m.widen.lt n.widen

/-- Whether the first widened number is not above the second. -/
def le (m n : Number) : Bool := m.widen.le n.widen

/-- The text of a number: an integer in decimal, and a floating-point number with a point or an
exponent. -/
def text : Number → String
  | .int i => Int.repr i.toInt
  | .float x => Layout.value.text x

/-- What is reported when an integer is asked for and the number is `x`. -/
def notAnInteger (x : Binary64) : String :=
  "expected an integer number, found float " ++ Layout.plain.text x

/-- What is reported when a floating-point number is asked for and the number is `i`. -/
def notAFloat (i : Int64) : String :=
  "expected a float number, found integer " ++ Int.repr i.toInt

end Number

end Ember
