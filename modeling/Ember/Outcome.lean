import Ember.Diagnostic
import Ember.Evaluation
import Ember.Program.Parse
import Ember.Token.Scan

/-!
# Running a source

`run` takes a source through all phases and stops at the first that fails. Its `Outcome` has what
each phase that was reached produced, and the failure as a diagnostic. `evaluate` is the short way
for a source that is a single expression.
-/

namespace Ember

/-- A lexical error as a failure. -/
def LexError.toFailure (e : LexError) : Failure := ⟨.lex, e.fault.message, e.position⟩

/-- An error in parsing as a failure. -/
def ParseError.toFailure (e : ParseError) : Failure := ⟨.parse, e.fault.message, e.position⟩

/-- An error in evaluation as a failure. -/
def RuntimeError.toFailure (e : RuntimeError) : Failure :=
  ⟨.interpret, e.fault.message, e.position⟩

/-- The value of a source that holds at most one expression. -/
def evaluate (source : String) : Except Failure Number :=
  match Token.ofSource source with
  | .error e => .error e.toFailure
  | .ok ts =>
    match Ast.ofTokens ts with
    | .error e => .error e.toFailure
    | .ok a => a.evaluate.mapError RuntimeError.toFailure

/-- What running a source comes to. -/
structure Outcome where
  tokens : Option (List Token)
  program : Option Program
  /-- The value, if the program was run; zero stands for the value of a program that failed. -/
  value : Option Number
  printed : List String
  diagnostics : Diagnostics

namespace Outcome

/-- Whether nothing failed. -/
def isSuccess (o : Outcome) : Bool := o.diagnostics.isEmpty

/-- The phase that failed. -/
def failedPhase? (o : Outcome) : Option Phase := o.diagnostics.firstFailed?

/-- The exit code: that of the failed phase, or zero. -/
def exitCode (o : Outcome) : UInt8 :=
  match o.failedPhase? with
  | some p => p.exitCode
  | none => 0

end Outcome

/-- The name given to a source that comes from no file. -/
def inlineName : String := "<eval>"

/-- Runs a source under a file name. -/
def run (file source : String) : Outcome :=
  match Token.ofSource source with
  | .error e => ⟨none, none, none, [], (Diagnostics.new file).record e.toFailure⟩
  | .ok ts =>
    match Program.ofTokens ts with
    | .error e => ⟨some ts, none, none, [], (Diagnostics.new file).record e.toFailure⟩
    | .ok p =>
      let x := p.execute
      match x.result with
      | .error e =>
        ⟨some ts, some p, some default, x.printed, (Diagnostics.new file).record e.toFailure⟩
      | .ok n => ⟨some ts, some p, some n, x.printed, Diagnostics.new file⟩

/-! ## The phase that a run ends in -/

section

variable {source : String} {ts : List Token} {p : Program}

theorem run_of_lexError {e : LexError} (lexed : Token.ofSource source = .error e) (file : String) :
    run file source = ⟨none, none, none, [], (Diagnostics.new file).record e.toFailure⟩ := by
  unfold run
  rw [lexed]

theorem run_of_parseError {e : ParseError} (lexed : Token.ofSource source = .ok ts)
    (parsed : Program.ofTokens ts = .error e) (file : String) :
    run file source = ⟨some ts, none, none, [], (Diagnostics.new file).record e.toFailure⟩ := by
  unfold run
  simp only [lexed, parsed]

theorem run_of_runtimeError {e : RuntimeError} (lexed : Token.ofSource source = .ok ts)
    (parsed : Program.ofTokens ts = .ok p) (fails : p.execute.result = .error e) (file : String) :
    run file source = ⟨some ts, some p, some default, p.execute.printed,
      (Diagnostics.new file).record e.toFailure⟩ := by
  unfold run
  simp only [lexed, parsed, fails]

theorem run_of_value {n : Number} (lexed : Token.ofSource source = .ok ts)
    (parsed : Program.ofTokens ts = .ok p) (value : p.execute.result = .ok n) (file : String) :
    run file source = ⟨some ts, some p, some n, p.execute.printed, Diagnostics.new file⟩ := by
  unfold run
  simp only [lexed, parsed, value]

theorem evaluate_of_lexError {e : LexError} (lexed : Token.ofSource source = .error e) :
    evaluate source = .error e.toFailure := by
  unfold evaluate
  rw [lexed]

theorem evaluate_of_parseError {e : ParseError} (lexed : Token.ofSource source = .ok ts)
    (parsed : Ast.ofTokens ts = .error e) : evaluate source = .error e.toFailure := by
  unfold evaluate
  simp only [lexed, parsed]

theorem evaluate_of_ast {a : Ast} (lexed : Token.ofSource source = .ok ts)
    (parsed : Ast.ofTokens ts = .ok a) :
    evaluate source = a.evaluate.mapError RuntimeError.toFailure := by
  unfold evaluate
  simp only [lexed, parsed]

end

end Ember
