import Ember.Parser
import Ember.Decimal

/-!
# Parsing expressions

The infix operators form six tiers, from the multiplicative one, which binds tightest, to the
comparisons; each groups to the left. Their operands are literals, expressions in parentheses and
operands after a prefix operator. `expression` bounds the nesting of parentheses and prefix
operators: an operand inside `maxNesting` others is refused.

`last` is the place of the last token of the whole list, where an error at its end is reported.
-/

namespace Ember

/-- The prefix operator that a kind of token is. -/
def PrefixOp.ofKind? : TokenKind → Option PrefixOp
  | .plus => some .plus
  | .minus => some .negate
  | .bang => some .logicalNot
  | .tilde => some .bitNot
  | _ => none

namespace InfixOp

/-- The infix operator that a kind of token is. -/
def ofKind? : TokenKind → Option InfixOp
  | .plus => some .add
  | .minus => some .subtract
  | .star => some .multiply
  | .slash => some .divide
  | .percent => some .modulo
  | .ampersand => some .bitAnd
  | .pipe => some .bitOr
  | .caret => some .bitXor
  | .lessLess => some .shiftLeft
  | .greaterGreater => some .shiftRight
  | .equalEqual => some .equal
  | .bangEqual => some .notEqual
  | .less => some .less
  | .lessEqual => some .lessEqual
  | .greater => some .greater
  | .greaterEqual => some .greaterEqual
  | _ => none

/-- The tier of an operator; a lower tier binds tighter. -/
def tier : InfixOp → Nat
  | multiply | divide | modulo | bitXor => 0
  | add | subtract => 1
  | shiftLeft | shiftRight => 2
  | bitAnd => 3
  | bitOr => 4
  | equal | notEqual | less | lessEqual | greater | greaterEqual => 5

/-- The number of tiers. -/
def tierCount : Nat := 6

/-- The operator of tier `n` that a kind of token is. -/
def ofKindInTier? (n : Nat) (k : TokenKind) : Option InfixOp :=
  (ofKind? k).filter (fun op => op.tier = n)

end InfixOp

/-- How deep parentheses and prefix operators may be nested. -/
def maxNesting : Nat := 256

namespace Parser

/-- Expressions whose operators are all in the first `n` tiers, over given operands. -/
def tiers (operand : Parser Expr) : Nat → Parser Expr
  | 0 => operand
  | n + 1 => leftAssoc (InfixOp.ofKindInTier? n) (tiers operand n)

/-- The place of the next token, or `last` if there is none. -/
def nextPosition (last : Position) : List Token → Position
  | [] => last
  | t :: _ => t.position

/-- Takes the closing parenthesis after an expression. -/
def closeParen (last : Position) (reply : Reply Expr) : Reply Expr :=
  match reply.result, reply.left with
  | .error e, ts => ⟨.error e, ts⟩
  | .ok e, t :: ts =>
    if t.kind = .rightParen then ⟨.ok e, ts⟩ else ⟨.error ⟨.parenExpected, t.position⟩, t :: ts⟩
  | .ok _, [] => ⟨.error ⟨.parenExpected, last⟩, []⟩

/-- The literal that a token is, taken off in front of `ts`. -/
def literal (read? : List Char → Option Number) (fault : String → ParseFault) (t : Token)
    (ts : List Token) : Reply Expr :=
  match read? t.lexeme.toList with
  | some n => ⟨.ok (.literal n t.position), ts⟩
  | none => ⟨.error ⟨fault t.lexeme, t.position⟩, ts⟩

/-- An operand that starts with token `t`, where `inner` parses operands one level deeper. -/
def operandFrom (last : Position) (inner : Parser Expr) (t : Token) (ts : List Token) :
    Reply Expr :=
  match PrefixOp.ofKind? t.kind with
  | some op => (inner.run ts).map (.unary op · t.position)
  | none =>
    match t.kind with
    | .integer => literal (fun cs => (readInt64? cs).map .int) .integerOutOfRange t ts
    | .float => literal (fun cs => (Decimal.readBinary64? cs).map .float) .invalidFloat t ts
    | .leftParen => closeParen last ((tiers inner InfixOp.tierCount).run ts)
    | kind => ⟨.error ⟨.unknownPrimary kind, t.position⟩, t :: ts⟩

theorem closeParen_suffix (last : Position) (reply : Reply Expr) :
    (closeParen last reply).left <:+ reply.left := by
  unfold closeParen
  split
  · exact List.suffix_rfl
  · next t ts _ e =>
    rw [e]
    split
    · exact List.suffix_cons t ts
    · exact List.suffix_rfl
  · exact List.nil_suffix

theorem literal_left (read? : List Char → Option Number) (fault : String → ParseFault) (t : Token)
    (ts : List Token) : (literal read? fault t ts).left = ts := by
  unfold literal
  split <;> rfl

theorem operandFrom_suffix (last : Position) (inner : Parser Expr) (t : Token)
    (ts : List Token) : (operandFrom last inner t ts).left <:+ t :: ts := by
  have tail := List.suffix_cons t ts
  unfold operandFrom
  split
  · exact (inner.left_suffix ts).trans tail
  · split
    · rw [literal_left]; exact tail
    · rw [literal_left]; exact tail
    · exact ((closeParen_suffix ..).trans ((tiers ..).left_suffix ts)).trans tail
    · exact List.suffix_rfl

theorem operandFrom_lt {last : Position} {inner : Parser Expr} {t : Token} {ts : List Token}
    {e : Expr} (h : (operandFrom last inner t ts).result = .ok e) :
    (operandFrom last inner t ts).left.length < (t :: ts).length := by
  revert h
  unfold operandFrom
  split
  · exact fun _ => Nat.lt_succ_of_le (inner.left_suffix ts).length_le
  · split
    · rw [literal_left]; exact fun _ => Nat.lt_succ_self _
    · rw [literal_left]; exact fun _ => Nat.lt_succ_self _
    · exact fun _ => Nat.lt_succ_of_le
        ((closeParen_suffix ..).trans ((tiers ..).left_suffix ts)).length_le
    · intro h; cases h

/-- A literal, an expression in parentheses, or a prefix operator and an operand, where `inner`
parses operands one level deeper. -/
def operandOver (last : Position) (inner : Parser Expr) : Parser Expr where
  run
    | [] => ⟨.error ⟨.unexpectedEnd, last⟩, []⟩
    | t :: ts => operandFrom last inner t ts
  left_suffix
    | [] => List.suffix_rfl
    | _ :: _ => operandFrom_suffix ..
  left_lt {ts e} h := by
    match ts with
    | [] => cases h
    | _ :: _ => exact operandFrom_lt h

/-- Refuses any operand. -/
def tooDeep (last : Position) : Parser Expr where
  run ts := ⟨.error ⟨.nestedTooDeeply, nextPosition last ts⟩, ts⟩
  left_suffix _ := List.suffix_rfl
  left_lt h := by cases h

/-- Operands nested at most `n` deep. -/
def operand (last : Position) : Nat → Parser Expr
  | 0 => tooDeep last
  | n + 1 => operandOver last (operand last n)

/-- An expression, as long as the tokens go on with it. -/
def expression (last : Position) : Parser Expr :=
  tiers (operand last maxNesting) InfixOp.tierCount

end Parser

end Ember
