import Ember.Program

/-!
# Evaluation

An expression is evaluated from the leaves up, the left operand before the right one, and the
first operator without a result is the error. A program runs its statements in order; an
`Execution` has the lines printed and the value of the last expression statement, or the error
that stopped it. A `Session` runs programs one after another and keeps all that they print; each
of them runs as if it were alone (`Session.run_eq`).
-/

namespace Ember

/-- An operator without a result, and its place. -/
structure RuntimeError where
  fault : OpError
  /-- Where the operator stands. -/
  position : Position
deriving DecidableEq

/-- The error in words, with its place. -/
def RuntimeError.text (e : RuntimeError) : String :=
  e.fault.message ++ " at " ++ e.position.text

/-- Gives an operator's error its place. -/
def locate (p : Position) (r : Except OpError Number) : Except RuntimeError Number :=
  r.mapError (⟨·, p⟩)

/-- The value of an expression. -/
def Expr.evaluate : Expr → Except RuntimeError Number
  | literal n _ => .ok n
  | unary op e p =>
    match e.evaluate with
    | .error err => .error err
    | .ok n => locate p (op.apply n)
  | binary op l r p =>
    match l.evaluate with
    | .error err => .error err
    | .ok m =>
      match r.evaluate with
      | .error err => .error err
      | .ok n => locate p (op.apply m n)

theorem locate_ok {p : Position} {r : Except OpError Number} {n : Number}
    (h : locate p r = .ok n) : r = .ok n := by
  cases r with
  | ok m =>
    cases h
    rfl
  | error f => cases h

theorem locate_error {p : Position} {r : Except OpError Number} {err : RuntimeError}
    (h : locate p r = .error err) : r = .error err.fault ∧ err.position = p := by
  cases r with
  | ok n => cases h
  | error f =>
    cases h
    exact ⟨rfl, rfl⟩

namespace Expr

theorem evaluate_unary_ok {op : PrefixOp} {e : Expr} {p : Position} {v : Number}
    (h : (unary op e p).evaluate = .ok v) : ∃ n, e.evaluate = .ok n ∧ op.apply n = .ok v := by
  unfold evaluate at h
  split at h
  · cases h
  · next n ok => exact ⟨n, ok, locate_ok h⟩

theorem evaluate_binary_ok {op : InfixOp} {l r : Expr} {p : Position} {v : Number}
    (h : (binary op l r p).evaluate = .ok v) :
    ∃ m n, l.evaluate = .ok m ∧ r.evaluate = .ok n ∧ op.apply m n = .ok v := by
  unfold evaluate at h
  split at h
  · cases h
  · next m left =>
    split at h
    · cases h
    · next n right => exact ⟨m, n, left, right, locate_ok h⟩

theorem evaluate_unary_error {op : PrefixOp} {e : Expr} {p : Position} {err : RuntimeError}
    (h : (unary op e p).evaluate = .error err) : e.evaluate = .error err ∨
      ∃ n, e.evaluate = .ok n ∧ op.apply n = .error err.fault ∧ err.position = p := by
  unfold evaluate at h
  split at h
  · next inner =>
    cases h
    exact .inl inner
  · next n ok => exact .inr ⟨n, ok, locate_error h⟩

/-- The right operand is evaluated only if the left one has a value, and the operator is applied
only if both have. -/
theorem evaluate_binary_error {op : InfixOp} {l r : Expr} {p : Position} {err : RuntimeError}
    (h : (binary op l r p).evaluate = .error err) : l.evaluate = .error err ∨
      ∃ m, l.evaluate = .ok m ∧ (r.evaluate = .error err ∨
        ∃ n, r.evaluate = .ok n ∧ op.apply m n = .error err.fault ∧ err.position = p) := by
  unfold evaluate at h
  split at h
  · next left =>
    cases h
    exact .inl left
  · next m left =>
    refine .inr ⟨m, left, ?_⟩
    split at h
    · next right =>
      cases h
      exact .inl right
    · next n right => exact .inr ⟨n, right, locate_error h⟩

end Expr

/-- The value of the expression, or zero if there is none. -/
def Ast.evaluate (a : Ast) : Except RuntimeError Number :=
  match a.root with
  | some e => e.evaluate
  | none => .ok default

/-! ## Programs -/

/-- What running a program comes to. -/
structure Execution where
  printed : List String
  result : Except RuntimeError Number

/-- Runs statements when `value` is the value so far. -/
def executeFrom (value : Number) : List Stmt → Execution
  | [] => ⟨[], .ok value⟩
  | .expr e :: rest =>
    match e.evaluate with
    | .error err => ⟨[], .error err⟩
    | .ok n => executeFrom n rest
  | .print e _ :: rest =>
    match e.evaluate with
    | .error err => ⟨[], .error err⟩
    | .ok n =>
      let x := executeFrom value rest
      ⟨n.text :: x.printed, x.result⟩

/-- Runs a program; without an expression statement its value is zero. -/
def Program.execute (p : Program) : Execution := executeFrom default p.statements

/-- Programs run one after another, and all that they have printed. -/
structure Session where
  printed : List String := []

namespace Session

/-- Prints a number on a line of its own. -/
def print (s : Session) (n : Number) : Session := ⟨s.printed ++ [n.text]⟩

/-- Runs statements when `value` is the value so far. An error ends the run, and what has been
printed before it stays printed. -/
def runFrom (s : Session) (value : Number) :
    List Stmt → Except RuntimeError Number × Session
  | [] => (.ok value, s)
  | .expr e :: rest =>
    match e.evaluate with
    | .error err => (.error err, s)
    | .ok n => s.runFrom n rest
  | .print e _ :: rest =>
    match e.evaluate with
    | .error err => (.error err, s)
    | .ok n => (s.print n).runFrom value rest

/-- Runs one more program. Its value does not depend on the programs before it. -/
def run (s : Session) (p : Program) : Except RuntimeError Number × Session :=
  s.runFrom default p.statements

/-- A session adds what the statements print to what it has printed before. -/
theorem runFrom_eq (s : Session) (value : Number) (ss : List Stmt) : s.runFrom value ss =
    ((executeFrom value ss).result, ⟨s.printed ++ (executeFrom value ss).printed⟩) := by
  fun_induction runFrom s value ss with
  | case1 s value => rw [executeFrom, List.append_nil]
  | case2 s value e rest err fails => simp only [executeFrom, fails, List.append_nil]
  | case3 s value e rest n ok ih => simp only [executeFrom, ok, ih]
  | case4 s value e p rest err fails => simp only [executeFrom, fails, List.append_nil]
  | case5 s value e p rest n ok ih =>
    rw [ih, print, List.append_assoc, List.singleton_append]
    simp only [executeFrom, ok]

theorem run_eq (s : Session) (p : Program) :
    s.run p = (p.execute.result, ⟨s.printed ++ p.execute.printed⟩) :=
  runFrom_eq s default p.statements

end Session

end Ember
