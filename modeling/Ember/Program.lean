import Ember.Expr

/-!
# Programs

A program is a list of statements: an expression whose value is the value of the program so far,
or an expression whose value is printed.
-/

namespace Ember

/-- A statement. -/
inductive Stmt where
  | expr (value : Expr)
  /-- An expression to print, with the place of the word `print`. -/
  | print (value : Expr) (position : Position)
deriving DecidableEq

namespace Stmt

/-- The place of the word `print` or of the root of the expression. -/
def position : Stmt → Position
  | expr e => e.position
  | print _ p => p

/-- The expression. -/
def value : Stmt → Expr
  | expr e => e
  | print e _ => e

/-- Whether the value is printed. -/
def isPrint : Stmt → Bool
  | expr _ => false
  | print _ _ => true

/-- The statement in parentheses. -/
def text : Stmt → String
  | expr e => e.text
  | print e _ => "(print " ++ e.text ++ ")"

end Stmt

/-- A list of statements. -/
structure Program where
  statements : List Stmt
deriving DecidableEq

namespace Program

/-- No statement. -/
def empty : Program := ⟨[]⟩

instance : Inhabited Program := ⟨empty⟩

/-- The statements of one program and then those of another. -/
protected def append (p q : Program) : Program := ⟨p.statements ++ q.statements⟩

instance : Append Program := ⟨Program.append⟩

@[simp]
theorem statements_append (p q : Program) :
    (p ++ q).statements = p.statements ++ q.statements := rfl

/-- Whether there is no statement. -/
def isEmpty (p : Program) : Bool := p.statements.isEmpty

/-- The statements, one a line. -/
def text (p : Program) : String := "\n".intercalate (p.statements.map Stmt.text)

end Program

end Ember
