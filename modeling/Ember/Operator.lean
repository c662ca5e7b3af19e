import Ember.Number

/-!
# Operators

The prefix and infix operators, their symbols, and what they do to numbers. Arithmetic on two
integers is that of 64-bit words, and with a floating-point number on either side both are widened;
comparisons always widen; bitwise operators take integers only.
-/

namespace Ember

/-- An operator before its operand. -/
inductive PrefixOp where
  | plus
  | negate
  | logicalNot
  | bitNot
deriving DecidableEq

namespace PrefixOp

/-- Every prefix operator. -/
def all : List PrefixOp := [.plus, .negate, .logicalNot, .bitNot]

/-- The operator as it is written. -/
def symbol : PrefixOp → String
  | plus => "+"
  | negate => "-"
  | logicalNot => "!"
  | bitNot => "~"

/-- The operator with a given symbol. -/
def ofSymbol? (s : String) : Option PrefixOp := all.find? (fun op => op.symbol = s)

end PrefixOp

/-- An operator between its operands. -/
inductive InfixOp where
  | add
  | subtract
  | multiply
  | divide
  | modulo
  | bitAnd
  | bitOr
  | bitXor
  | shiftLeft
  | shiftRight
  | equal
  | notEqual
  | less
  | lessEqual
  | greater
  | greaterEqual
deriving DecidableEq

namespace InfixOp

/-- Every infix operator: arithmetic, bitwise, comparisons. -/
def all : List InfixOp :=
  [.add, .subtract, .multiply, .divide, .modulo, .bitAnd, .bitOr, .bitXor, .shiftLeft,
    .shiftRight, .equal, .notEqual, .less, .lessEqual, .greater, .greaterEqual]

/-- The operator as it is written. -/
def symbol : InfixOp → String
  | add => "+"
  | subtract => "-"
  | multiply => "*"
  | divide => "/"
  | modulo => "%"
  | bitAnd => "&"
  | bitOr => "|"
  | bitXor => "^"
  | shiftLeft => "<<"
  | shiftRight => ">>"
  | equal => "=="
  | notEqual => "!="
  | less => "<"
  | lessEqual => "<="
  | greater => ">"
  | greaterEqual => ">="

/-- The operator with a given symbol. -/
def ofSymbol? (s : String) : Option InfixOp := all.find? (fun op => op.symbol = s)

/-- Whether the operator works on the bits of integers. -/
def isBitwise : InfixOp → Bool
  | bitAnd | bitOr | bitXor | shiftLeft | shiftRight => true
  | _ => false

end InfixOp

/-! ## Operations -/

/-- Why an operator has no result. -/
inductive OpError where
  | divisionByZero
  | moduloByZero
  /-- A bitwise operator, given by its symbol, has an operand that is not an integer. -/
  | nonIntegralOperand (symbol : String)
deriving DecidableEq

namespace OpError

/-- The error in words. -/
def message : OpError → String
  | divisionByZero => "division by zero"
  | moduloByZero => "modulo by zero"
  | nonIntegralOperand symbol => "non-integral operand for bitwise operator '" ++ symbol ++ "'"

/-- The symbol of the operator, where the message quotes it. -/
def symbol? : OpError → Option String
  | divisionByZero => none
  | moduloByZero => none
  | nonIntegralOperand symbol => some symbol

end OpError

namespace Number

/-- The sum: that of words for two integers, and of widened values otherwise. -/
def add : Number → Number → Number
  | .int l, .int r => .int (l + r)
  | l, r => .float (l.widen.add r.widen)

/-- The difference: that of words for two integers, and of widened values otherwise. -/
def sub : Number → Number → Number
  | .int l, .int r => .int (l - r)
  | l, r => .float (l.widen.sub r.widen)

/-- The product: that of words for two integers, and of widened values otherwise. -/
def mul : Number → Number → Number
  | .int l, .int r => .int (l * r)
  | l, r => .float (l.widen.mul r.widen)

/-- The quotient, rounded toward zero for two integers; the least integer over minus one wraps to
itself. -/
def div (l r : Number) : Except OpError Number :=
  if r.isZero then .error .divisionByZero
  else
    .ok (match l, r with
      | .int l, .int r => .int (l / r)
      | l, r => .float (l.widen.div r.widen))

/-- The remainder, with the sign of the first number. -/
def rem (l r : Number) : Except OpError Number :=
  if r.isZero then .error .moduloByZero
  else
    .ok (match l, r with
      | .int l, .int r => .int (l % r)
      | l, r => .float (l.widen.rem r.widen))

/-- The number with the other sign; the least integer wraps to itself. -/
def negate : Number → Number
  | .int i => .int (-i)
  | .float x => .float x.neg

/-- One for zero and zero for anything else, of the same kind. -/
def logicalNot : Number → Number
  | .int i => .int (if i = 0 then 1 else 0)
  | .float x => .float (.ofInt (if x.isZero then 1 else 0))

/-- All bits of an integer inverted. -/
def bitNot : Number → Except OpError Number
  | .int i => .ok (.int (~~~i))
  | .float _ => .error (.nonIntegralOperand PrefixOp.bitNot.symbol)

/-- The amount of a shift: the low 32 bits of the right operand. -/
def shiftAmount (r : Int64) : UInt32 := r.toUInt64.toUInt32

/-- An integer shifted to the left. Of the amount, only the lowest six bits count. -/
def shiftLeft (l : Int64) (amount : UInt32) : Int64 :=
  .ofBitVec (l.toBitVec <<< (amount &&& 63).toNat)

/-- An integer shifted to the right, with copies of its sign moving in. Of the amount, only the
lowest six bits count. -/
def shiftRight (l : Int64) (amount : UInt32) : Int64 :=
  .ofBitVec (l.toBitVec.sshiftRight (amount &&& 63).toNat)

/-- A bitwise operation, on integers only. -/
def bitwise (op : InfixOp) (f : Int64 → Int64 → Int64) : Number → Number → Except OpError Number
  | .int l, .int r => .ok (.int (f l r))
  | _, _ => .error (.nonIntegralOperand op.symbol)

theorem div_error {l r : Number} {f : OpError} (h : l.div r = .error f) : f = .divisionByZero := by
  unfold div at h
  split at h
  · cases h
    rfl
  · cases h

theorem rem_error {l r : Number} {f : OpError} (h : l.rem r = .error f) : f = .moduloByZero := by
  unfold rem at h
  split at h
  · cases h
    rfl
  · cases h

theorem bitwise_error {op : InfixOp} {g : Int64 → Int64 → Int64} {l r : Number} {f : OpError}
    (h : bitwise op g l r = .error f) : f = .nonIntegralOperand op.symbol := by
  unfold bitwise at h
  split at h
  · cases h
  · cases h
    rfl

end Number

/-- What a prefix operator makes of a number. -/
def PrefixOp.apply : PrefixOp → Number → Except OpError Number
  | plus, n => .ok n
  | negate, n => .ok n.negate
  | logicalNot, n => .ok n.logicalNot
  | bitNot, n => n.bitNot

/-- What an infix operator makes of two numbers. -/
def InfixOp.apply (op : InfixOp) (l r : Number) : Except OpError Number :=
  match op with
  | add => .ok (l.add r)
  | subtract => .ok (l.sub r)
  | multiply => .ok (l.mul r)
  | divide => l.div r
  | modulo => l.rem r
  | bitAnd => Number.bitwise op (· &&& ·) l r
  | bitOr => Number.bitwise op (· ||| ·) l r
  | bitXor => Number.bitwise op (· ^^^ ·) l r
  | shiftLeft => Number.bitwise op (fun l r => Number.shiftLeft l (Number.shiftAmount r)) l r
  | shiftRight => Number.bitwise op (fun l r => Number.shiftRight l (Number.shiftAmount r)) l r
  | equal => .ok (.ofBool (l.eq r))
  | notEqual => .ok (.ofBool !(l.eq r))
  | less => .ok (.ofBool (l.lt r))
  | lessEqual => .ok (.ofBool (l.le r))
  | greater => .ok (.ofBool (r.lt l))
  | greaterEqual => .ok (.ofBool (r.le l))

end Ember
