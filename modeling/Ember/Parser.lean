import Ember.Token
import Ember.Expr

/-!
# Parsers of tokens

A parser takes tokens off the front of a list. Its reply is a result or an error, and the tokens
that are left in either case, so that a reader can go on after an error from where it arose.
Every parser only takes tokens off (`left_suffix`) and takes at least one when it succeeds
(`left_lt`); repetition ends for this reason.

`leftAssoc` builds the parser of one tier of infix operators from the parser of its operands.
-/

namespace Ember

/-- Why tokens cannot be parsed. -/
inductive ParseFault where
  | unexpectedEnd
  | nestedTooDeeply
  | integerOutOfRange (lexeme : String)
  | invalidFloat (lexeme : String)
  | parenExpected
  /-- A token where an operand should start. -/
  | unknownPrimary (kind : TokenKind)
  /-- A token after a complete expression. -/
  | trailingToken (kind : TokenKind)
deriving DecidableEq

/-- The fault in words. -/
def ParseFault.message : ParseFault → String
  | unexpectedEnd => "unexpected end of input"
  | nestedTooDeeply => "expression nested too deeply"
  | integerOutOfRange lexeme => "integer literal '" ++ lexeme ++ "' out of range"
  | invalidFloat lexeme => "invalid float literal '" ++ lexeme ++ "'"
  | parenExpected => "')' expected"
  | unknownPrimary kind => "unknown primary token " ++ kind.name
  | trailingToken kind => "unexpected token " ++ kind.name ++ " after expression"

/-- A fault and the place of the token that shows it. -/
structure ParseError where
  fault : ParseFault
  position : Position
deriving DecidableEq

/-- The error in words, with its place. -/
def ParseError.text (e : ParseError) : String := e.fault.message ++ " at " ++ e.position.text

/-- What a parser makes of a list of tokens. -/
structure Reply (α : Type) where
  result : Except ParseError α
  left : List Token

namespace Reply

/-- The reply with a function applied to its value. -/
def map {α β : Type} (f : α → β) (r : Reply α) : Reply β := ⟨r.result.map f, r.left⟩

@[simp]
theorem left_map {α β : Type} (f : α → β) (r : Reply α) : (r.map f).left = r.left := rfl

theorem map_id {α : Type} (r : Reply α) : r.map id = r := by
  obtain ⟨result, left⟩ := r
  cases result <;> rfl

theorem map_map {α β γ : Type} (f : α → β) (g : β → γ) (r : Reply α) :
    (r.map f).map g = r.map (g ∘ f) := by
  obtain ⟨result, left⟩ := r
  cases result <;> rfl

theorem result_map_ok {α β : Type} {f : α → β} {r : Reply α} {b : β}
    (h : (r.map f).result = .ok b) : ∃ a, r.result = .ok a ∧ f a = b := by
  unfold map at h
  cases e : r.result with
  | error _ => rw [e] at h; cases h
  | ok a => rw [e] at h; exact ⟨a, rfl, Except.ok.inj h⟩

end Reply

/-- A parser of values of type `α`. -/
structure Parser (α : Type) where
  run : List Token → Reply α
  /-- The tokens that are left are the last ones of the list. -/
  left_suffix : ∀ ts, (run ts).left <:+ ts
  /-- A success takes at least one token. -/
  left_lt : ∀ {ts a}, (run ts).result = .ok a → (run ts).left.length < ts.length

namespace Parser

/-! ## Tiers of infix operators -/

/-- The expression that `left` is the beginning of: while the next token is an operator of the
tier, the operator and one more operand are added to it. -/
def chain (op? : TokenKind → Option InfixOp) (operand : Parser Expr) (left : Expr) :
    List Token → Reply Expr
  | [] => ⟨.ok left, []⟩
  | t :: ts =>
    match op? t.kind with
    | none => ⟨.ok left, t :: ts⟩
    | some op =>
      let reply := operand.run ts
      match reply.result with
      | .error e => ⟨.error e, reply.left⟩
      | .ok right =>
        have := (operand.left_suffix ts).length_le
        chain op? operand (.binary op left right t.position) reply.left
termination_by ts => ts.length

theorem chain_suffix (op? : TokenKind → Option InfixOp) (operand : Parser Expr) (left : Expr)
    (ts : List Token) : (chain op? operand left ts).left <:+ ts := by
  fun_induction chain op? operand left ts with
  | case1 => exact List.suffix_rfl
  | case2 => exact List.suffix_rfl
  | case3 left t ts op h reply e h' => exact (operand.left_suffix ts).trans (List.suffix_cons t ts)
  | case4 left t ts op h reply right h' _ ih =>
    exact ih.trans ((operand.left_suffix ts).trans (List.suffix_cons t ts))

/-- An operand, and then any number of operators of one tier with an operand after each, grouped
to the left. -/
def leftAssoc (op? : TokenKind → Option InfixOp) (operand : Parser Expr) : Parser Expr where
  run ts :=
    let reply := operand.run ts
    match reply.result with
    | .error e => ⟨.error e, reply.left⟩
    | .ok left => chain op? operand left reply.left
  left_suffix ts := by
    dsimp only
    split
    · exact operand.left_suffix ts
    · exact (chain_suffix ..).trans (operand.left_suffix ts)
  left_lt {ts a} := by
    dsimp only
    split
    · intro h; cases h
    · next e =>
      intro _
      exact Nat.lt_of_le_of_lt (chain_suffix ..).length_le (operand.left_lt e)

end Parser

end Ember
