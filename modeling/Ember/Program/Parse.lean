import Ember.Expr.Parse
import Ember.Program

/-!
# Parsing programs

A program is a sequence of statements, each with an optional semicolon after it. A `Cursor` is a
list of tokens of which some have been taken: it can be asked for an expression, for one
expression up to the end, or for statements up to the end, one after another and also after an
error. `Ast.ofTokens` and `Program.ofTokens` ask a fresh cursor.
-/

namespace Ember

namespace Parser

/-- A statement without its semicolon. -/
def statement (last : Position) : Parser Stmt where
  run
    | [] => ((expression last).run []).map .expr
    | t :: ts =>
      if t.kind = .keyword .print_ then ((expression last).run ts).map (.print · t.position)
      else ((expression last).run (t :: ts)).map .expr
  left_suffix
    | [] => (expression last).left_suffix []
    | t :: ts => by
      dsimp only
      split
      · exact ((expression last).left_suffix ts).trans (List.suffix_cons t ts)
      · exact (expression last).left_suffix (t :: ts)
  left_lt {ts s} := by
    match ts with
    | [] =>
      intro h
      obtain ⟨e, he, _⟩ := Reply.result_map_ok h
      exact (expression last).left_lt he
    | t :: ts =>
      dsimp only
      split <;> intro h <;> obtain ⟨e, he, _⟩ := Reply.result_map_ok h
      · exact Nat.lt_succ_of_lt ((expression last).left_lt he)
      · exact (expression last).left_lt he

/-- The tokens after a semicolon, if they start with one. -/
def skipSemicolon : List Token → List Token
  | [] => []
  | t :: ts => if t.kind = .semicolon then ts else t :: ts

theorem skipSemicolon_suffix (ts : List Token) : skipSemicolon ts <:+ ts := by
  unfold skipSemicolon
  split
  · exact List.suffix_rfl
  · split
    · exact List.suffix_cons ..
    · exact List.suffix_rfl

/-- Statements up to the end of the tokens. -/
def statements (last : Position) (ts : List Token) : Reply (List Stmt) :=
  if ts = [] then ⟨.ok [], []⟩
  else
    let reply := (statement last).run ts
    match h : reply.result with
    | .error e => ⟨.error e, reply.left⟩
    | .ok s =>
      have := Nat.lt_of_le_of_lt (skipSemicolon_suffix reply.left).length_le
        ((statement last).left_lt h)
      (statements last (skipSemicolon reply.left)).map (s :: ·)
termination_by ts.length

end Parser

/-! ## Cursors -/

/-- Tokens of which some have been taken. -/
structure Cursor where
  left : List Token
  /-- The place of the last token of the whole list. -/
  last : Position

namespace Cursor

/-- The cursor before the first of the tokens. -/
def ofTokens (ts : List Token) : Cursor :=
  ⟨ts, (ts.getLast?.map Token.position).getD .start⟩

/-- A result and the cursor after it. -/
def after {α : Type} (c : Cursor) (r : Reply α) : Except ParseError α × Cursor :=
  (r.result, ⟨r.left, c.last⟩)

/-- Takes an expression. -/
def expression (c : Cursor) : Except ParseError Expr × Cursor :=
  c.after ((Parser.expression c.last).run c.left)

/-- What is wrong when tokens are left after the only expression. -/
def finish (reply : Reply Expr) : Reply Ast :=
  match reply.result, reply.left with
  | .error e, ts => ⟨.error e, ts⟩
  | .ok e, [] => ⟨.ok ⟨some e⟩, []⟩
  | .ok _, t :: ts => ⟨.error ⟨.trailingToken t.kind, t.position⟩, t :: ts⟩

/-- Takes all tokens as one expression, or as none if there are no tokens. -/
def ast (c : Cursor) : Except ParseError Ast × Cursor :=
  if c.left = [] then (.ok .empty, c)
  else c.after (finish ((Parser.expression c.last).run c.left))

/-- Takes all tokens as statements. -/
def program (c : Cursor) : Except ParseError Program × Cursor :=
  c.after ((Parser.statements c.last c.left).map Program.mk)

end Cursor

/-- The expression that the tokens are. -/
def Ast.ofTokens (ts : List Token) : Except ParseError Ast := (Cursor.ofTokens ts).ast.1

/-- The program that the tokens are. -/
def Program.ofTokens (ts : List Token) : Except ParseError Program :=
  (Cursor.ofTokens ts).program.1

end Ember
