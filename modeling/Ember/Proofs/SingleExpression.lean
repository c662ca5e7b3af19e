import Mathlib.Control.Monad.Basic
import Ember.Outcome
import Ember.Proofs.Statement

/-!
# Single expressions and programs

A source can be evaluated as a single expression or run as a program. The two ways agree as far as
both apply: tokens that are a single expression are a program of one statement
(`Program.ofTokens_of_ast`), with the same value and the same errors; and a program is a single
expression as soon as it has no semicolon, no `print` and no second statement
(`Ast.ofTokens_of_program`). What fails to be a program fails to be a single expression.
-/

namespace Ember

open Grammar

/-! ## Tokens -/

/-- No expression has a semicolon in it. -/
theorem Grammar.Derives.ne_semicolon {n : Nat} {ts : List Token} {e : Expr} {d : Nat}
    (h : Derives n ts e d) : ∀ t ∈ ts, t.kind ≠ .semicolon := by
  intro t mem semicolon
  have kind := h.kind_mem t mem
  rw [semicolon] at kind
  exact absurd kind (by decide)

/-- The program of one statement, or of none if there is no expression. -/
def Ast.program (a : Ast) : Program := ⟨a.root.toList.map .expr⟩

theorem Program.ofTokens_of_ast {ts : List Token} {a : Ast} (h : Ast.ofTokens ts = .ok a) :
    Program.ofTokens ts = .ok a.program := by
  rcases Ast.ofTokens_ok_iff.1 h with ⟨rfl, rfl⟩ | ⟨e, rfl, d, le, derives⟩
  · exact ofTokens_ok_iff.2 ⟨[], .nil, rfl⟩
  · have fits : (Segment.mk none ts e none).Fits [] :=
      ⟨by rintro _ ⟨⟩, by rintro _ ⟨⟩, ⟨d, le, derives⟩, by rintro _ ⟨⟩⟩
    have segmented := Segmented.cons fits .nil
    rw [Segment.tokens, Option.toList_none, List.nil_append, List.append_nil,
      List.append_nil] at segmented
    exact ofTokens_ok_iff.2 ⟨_, segmented, rfl⟩

theorem Ast.ne_semicolon_of_ofTokens {ts : List Token} {a : Ast} (h : Ast.ofTokens ts = .ok a) :
    ∀ t ∈ ts, t.kind ≠ .semicolon := by
  rcases ofTokens_ok_iff.1 h with ⟨rfl, _⟩ | ⟨e, _, d, _, derives⟩
  · exact fun t mem => absurd mem List.not_mem_nil
  · exact derives.ne_semicolon

/-- A segment without a semicolon whose statement prints nothing is an expression. -/
theorem Segment.Fits.expression {s : Segment} {rest : List Token} (h : s.Fits rest)
    (semicolon : ∀ t ∈ s.tokens, t.kind ≠ .semicolon) (print : s.stmt.isPrint = false) :
    ∃ d ≤ maxNesting, Expression s.tokens s.value d := by
  have noSemicolon : s.semicolon? = none := by
    cases some : s.semicolon? with
    | none => rfl
    | some t =>
      refine absurd (h.semicolon t some) (semicolon t ?_)
      rw [tokens, some]
      exact List.mem_append_right _ (List.mem_singleton_self t)
  have noPrint : s.print? = none := by
    cases some : s.print? with
    | none => rfl
    | some t =>
      rw [stmt, some] at print
      cases print
  obtain ⟨d, le, derives⟩ := h.derives
  refine ⟨d, le, ?_⟩
  rwa [tokens, noSemicolon, noPrint, Option.toList_none, List.nil_append, List.append_nil]

theorem Ast.ofTokens_of_program {ts : List Token} {p : Program} (h : Program.ofTokens ts = .ok p)
    (semicolon : ∀ t ∈ ts, t.kind ≠ .semicolon) (print : ∀ s ∈ p.statements, s.isPrint = false)
    (one : p.statements.length ≤ 1) : ∃ a, Ast.ofTokens ts = .ok a := by
  obtain ⟨ss, segmented, rfl⟩ := Program.ofTokens_ok_iff.1 h
  cases segmented with
  | nil => exact ⟨.empty, rfl⟩
  | @cons s rest ss fits more =>
    cases more with
    | nil =>
      rw [List.append_nil] at semicolon ⊢
      have expression := fits.expression semicolon (print s.stmt (List.mem_cons_self ..))
      exact ⟨_, ofTokens_ok_iff.2 (.inr ⟨s.value, rfl, expression⟩)⟩
    | cons _ _ =>
      rw [List.map_cons, List.map_cons, List.length_cons, List.length_cons] at one
      omega

/-! ## Runs -/

theorem Ast.execute_program (a : Ast) : a.program.execute = ⟨[], a.evaluate⟩ := by
  obtain ⟨root⟩ := a
  cases root with
  | none => rfl
  | some e =>
    show executeFrom default [.expr e] = ⟨[], e.evaluate⟩
    rw [executeFrom]
    cases e.evaluate <;> rfl

/-- A source that evaluates as a single expression runs to the same value or the same error, and
prints nothing. -/
theorem run_of_ast {source : String} {ts : List Token} {a : Ast}
    (lexed : Token.ofSource source = .ok ts) (parsed : Ast.ofTokens ts = .ok a) (file : String) :
    run file source = match a.evaluate with
      | .error e =>
        ⟨some ts, some a.program, some default, [], (Diagnostics.new file).record e.toFailure⟩
      | .ok n => ⟨some ts, some a.program, some n, [], Diagnostics.new file⟩ := by
  have program := Program.ofTokens_of_ast parsed
  have execution := a.execute_program
  cases result : a.evaluate with
  | error e =>
    rw [run_of_runtimeError lexed program (by rw [execution, result]) file, execution]
  | ok n => rw [run_of_value lexed program (by rw [execution, result]) file, execution]

/-- How far a source can be read as a program and as a single expression. -/
inductive Reading (source : String) : Prop
  | noTokens {e : LexError} (lexed : Token.ofSource source = .error e)
  | noProgram {ts : List Token} {e e' : ParseError} (lexed : Token.ofSource source = .ok ts)
      (parsed : Program.ofTokens ts = .error e) (single : Ast.ofTokens ts = .error e')
  | programOnly {ts : List Token} {p : Program} {e : ParseError}
      (lexed : Token.ofSource source = .ok ts) (parsed : Program.ofTokens ts = .ok p)
      (single : Ast.ofTokens ts = .error e)
  | single {ts : List Token} {a : Ast} (lexed : Token.ofSource source = .ok ts)
      (single : Ast.ofTokens ts = .ok a)

theorem reading (source : String) : Reading source := by
  cases lexed : Token.ofSource source with
  | error e => exact .noTokens lexed
  | ok ts =>
    cases single : Ast.ofTokens ts with
    | ok a => exact .single lexed single
    | error e =>
      cases parsed : Program.ofTokens ts with
      | ok p => exact .programOnly lexed parsed single
      | error e' => exact .noProgram lexed parsed single

/-- A program that was read ends without a failure or fails when it is run. -/
theorem run_of_program {source : String} {ts : List Token} {p : Program}
    (lexed : Token.ofSource source = .ok ts) (parsed : Program.ofTokens ts = .ok p)
    (file : String) : (run file source).tokens = some ts ∧ (run file source).program = some p ∧
      ((run file source).failedPhase? = none ∨
        (run file source).failedPhase? = some .interpret) := by
  cases result : p.execute.result with
  | error e =>
    rw [run_of_runtimeError lexed parsed result, Outcome.failedPhase?]
    exact ⟨rfl, rfl, .inr (Diagnostics.firstFailed?_record_new file e.toFailure)⟩
  | ok n =>
    rw [run_of_value lexed parsed result, Outcome.failedPhase?]
    exact ⟨rfl, rfl, .inl (Diagnostics.firstFailed?_new file)⟩

/-! ## Both ways agree -/

/-- The evaluation of the source as a single expression fails in the phase. -/
def FailsIn (source : String) (phase : Phase) : Prop :=
  ∃ e, evaluate source = .error e ∧ e.phase = phase

/-- The program has more to it than a single expression: a semicolon among its tokens, a `print` or
a second statement. -/
def Program.Exceeds (p : Program) (ts : List Token) : Prop :=
  (∃ t ∈ ts, t.kind = .semicolon) ∨ (∃ s ∈ p.statements, s.isPrint = true) ∨
    1 < p.statements.length

theorem Ast.not_exceeds {ts : List Token} {a : Ast} (h : Ast.ofTokens ts = .ok a) :
    ¬ a.program.Exceeds ts := by
  rintro (⟨t, mem, semicolon⟩ | ⟨s, mem, print⟩ | many)
  · exact ne_semicolon_of_ofTokens h t mem semicolon
  · obtain ⟨e, _, rfl⟩ := List.mem_map.1 mem
    cases print
  · rw [program, List.length_map] at many
    have one : a.root.toList.length ≤ 1 := Option.length_toList_le
    omega

theorem Program.exceeds_of_error {ts : List Token} {p : Program} {e : ParseError}
    (parsed : Program.ofTokens ts = .ok p) (single : Ast.ofTokens ts = .error e) :
    p.Exceeds ts := by
  by_contra no
  simp only [Exceeds, not_or, not_exists, not_and, Bool.not_eq_true, Nat.not_lt] at no
  obtain ⟨a, ok⟩ := Ast.ofTokens_of_program parsed no.1 no.2.1 no.2.2
  rw [single] at ok
  cases ok

theorem run_of_evaluate_ok {source : String} {v : Number} (h : evaluate source = .ok v)
    (file : String) : ∃ (ts : List Token) (a : Ast), run file source =
      ⟨some ts, some a.program, some v, [], Diagnostics.new file⟩ := by
  cases reading source with
  | noTokens lexed =>
    rw [evaluate_of_lexError lexed] at h
    cases h
  | noProgram lexed _ single | programOnly lexed _ single =>
    rw [evaluate_of_parseError lexed single] at h
    cases h
  | @single ts a lexed single =>
    rw [evaluate_of_ast lexed single] at h
    rw [run_of_ast lexed single]
    cases value : a.evaluate with
    | error e =>
      rw [value] at h
      cases h
    | ok n =>
      rw [value] at h
      cases h
      exact ⟨ts, a, rfl⟩

theorem diagnostics_of_evaluate_error {source : String} {e : Failure}
    (h : evaluate source = .error e) (phase : e.phase ≠ .parse) (file : String) :
    (run file source).diagnostics = (Diagnostics.new file).record e := by
  cases reading source with
  | noTokens lexed =>
    rw [evaluate_of_lexError lexed] at h
    cases h
    rw [run_of_lexError lexed]
  | noProgram lexed _ single | programOnly lexed _ single =>
    rw [evaluate_of_parseError lexed single] at h
    cases h
    exact absurd rfl phase
  | @single ts a lexed single =>
    rw [evaluate_of_ast lexed single] at h
    rw [run_of_ast lexed single]
    cases value : a.evaluate with
    | error err =>
      rw [value] at h
      cases h
      rfl
    | ok n =>
      rw [value] at h
      cases h

theorem failsIn_of_failedPhase? {file source : String} {phase : Phase}
    (h : (run file source).failedPhase? = some phase) (early : phase ≠ .interpret) :
    FailsIn source phase := by
  have late {ts : List Token} {p : Program} (lexed : Token.ofSource source = .ok ts)
      (parsed : Program.ofTokens ts = .ok p) : False := by
    obtain ⟨_, _, none | interpret⟩ := run_of_program lexed parsed file
    · rw [none] at h
      cases h
    · rw [interpret] at h
      cases h
      exact early rfl
  cases reading source with
  | noTokens lexed =>
    rw [run_of_lexError lexed, Outcome.failedPhase?, Diagnostics.firstFailed?_record_new] at h
    cases h
    exact ⟨_, evaluate_of_lexError lexed, rfl⟩
  | noProgram lexed parsed single =>
    rw [run_of_parseError lexed parsed, Outcome.failedPhase?,
      Diagnostics.firstFailed?_record_new] at h
    cases h
    exact ⟨_, evaluate_of_parseError lexed single, rfl⟩
  | programOnly lexed parsed _ => exact (late lexed parsed).elim
  | single lexed single => exact (late lexed (Program.ofTokens_of_ast single)).elim

theorem failsIn_parse_iff_exceeds {file source : String}
    (lex : (run file source).failedPhase? ≠ some .lex)
    (parse : (run file source).failedPhase? ≠ some .parse) :
    ∃ ts p, (run file source).tokens = some ts ∧ (run file source).program = some p ∧
      (FailsIn source .parse ↔ p.Exceeds ts) := by
  cases reading source with
  | noTokens lexed =>
    rw [run_of_lexError lexed, Outcome.failedPhase?, Diagnostics.firstFailed?_record_new] at lex
    exact absurd rfl lex
  | noProgram lexed parsed _ =>
    rw [run_of_parseError lexed parsed, Outcome.failedPhase?,
      Diagnostics.firstFailed?_record_new] at parse
    exact absurd rfl parse
  | @programOnly ts p e lexed parsed single =>
    obtain ⟨tokens, program, _⟩ := run_of_program lexed parsed file
    have fails : FailsIn source .parse := ⟨_, evaluate_of_parseError lexed single, rfl⟩
    exact ⟨ts, p, tokens, program, fun _ => Program.exceeds_of_error parsed single, fun _ => fails⟩
  | @single ts a lexed single =>
    obtain ⟨tokens, program, _⟩ := run_of_program lexed (Program.ofTokens_of_ast single) file
    refine ⟨ts, a.program, tokens, program, ?_, fun more => absurd more (Ast.not_exceeds single)⟩
    rintro ⟨e, fails, phase⟩
    rw [evaluate_of_ast lexed single] at fails
    cases value : a.evaluate with
    | error err =>
      rw [value] at fails
      cases fails
      cases phase
    | ok n =>
      rw [value] at fails
      cases fails

/-- Evaluating a source as a single expression and running it as a program agree: a value is the
value of the run, which prints nothing and has at most one statement; an error other than one of
parsing is the only diagnostic of the run; a run that fails before it is executed fails in the same
phase as the evaluation; and otherwise the evaluation fails in parsing exactly if the program has a
semicolon, a `print` or a second statement. -/
theorem evaluate_agrees_with_run (file source : String) :
    (∀ v, evaluate source = .ok v → (run file source).isSuccess = true ∧
      (run file source).value = some v ∧ (run file source).printed = [] ∧
      ((run file source).program = some .empty ∨
        ∃ e, (run file source).program = some ⟨[.expr e]⟩)) ∧
    (∀ e, evaluate source = .error e → e.phase = .lex ∨ e.phase = .interpret →
      (run file source).diagnostics.toList = [⟨e.phase, file, e.position, e.message⟩]) ∧
    (∀ phase, (run file source).failedPhase? = some phase → phase = .lex ∨ phase = .parse →
      FailsIn source phase) ∧
    ((run file source).failedPhase? ≠ some .lex → (run file source).failedPhase? ≠ some .parse →
      ∃ ts p, (run file source).tokens = some ts ∧ (run file source).program = some p ∧
        (FailsIn source .parse ↔ p.Exceeds ts)) := by
  refine ⟨fun v ok => ?_, fun e fails phase => ?_, fun phase failed early => ?_,
    failsIn_parse_iff_exceeds⟩
  · obtain ⟨ts, ⟨root⟩, same⟩ := run_of_evaluate_ok ok file
    rw [same]
    refine ⟨Diagnostics.isEmpty_new file, rfl, rfl, ?_⟩
    cases root with
    | none => exact .inl rfl
    | some e => exact .inr ⟨e, rfl⟩
  · have late : e.phase ≠ .parse := by rcases phase with phase | phase <;> rw [phase] <;> decide
    rw [diagnostics_of_evaluate_error fails late, Diagnostics.toList_record_new]
  · have before : phase ≠ .interpret := by rcases early with rfl | rfl <;> decide
    exact failsIn_of_failedPhase? failed before

/-- `1;` runs to the value one, and is no single expression for its semicolon. -/
theorem semicolon_runs_and_is_no_expression :
    (run inlineName "1;").failedPhase? = none ∧ (run inlineName "1;").value = some (.int 1) ∧
      FailsIn "1;" .parse := by
  have ends : (run inlineName "1;").failedPhase? = none := by decide +kernel
  have lexed : (run inlineName "1;").tokens =
      some [⟨"1", .integer, ⟨1, 0⟩⟩, ⟨";", .semicolon, ⟨1, 1⟩⟩] := by decide +kernel
  obtain ⟨_, _, _, single⟩ := evaluate_agrees_with_run inlineName "1;"
  obtain ⟨ts, p, tokens, _, fails⟩ := single (by rw [ends]; decide) (by rw [ends]; decide)
  cases lexed.symm.trans tokens
  exact ⟨ends, by decide +kernel, fails.2 (.inl (by decide))⟩

end Ember
