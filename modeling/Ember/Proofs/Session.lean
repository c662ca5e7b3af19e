import Mathlib.Control.Monad.Basic
import Ember.Evaluation

/-!
# Programs in a session

A session runs programs one after another and goes on after a failure. Nothing of a program but its
lines is left to the next one: each has the result that it has alone, and the lines of the session
are the lines that each prints alone, in order.

1. `ran_executeFrom`: what statements print and come to, up to the first that has no value.
2. `executeFrom_append`, `executeFrom_start`: two lists of statements in a row, and the value that
   the second starts with.
3. `Session.runAll_results`, `Session.runAll_printed`: a whole session, from what one run does to it
   (`Session.run_eq`).
-/

namespace Ember

/-! ## What statements come to -/

namespace Stmt

/-- The expression of the statement has a value. -/
def HasValue (s : Stmt) : Prop := ∃ n, s.value.evaluate = .ok n

/-- The line that the statement prints. -/
def line? : Stmt → Option String
  | expr _ => none
  | print e _ => e.evaluate.toOption.map Number.text

/-- The value that the statement gives to its program. -/
def result? : Stmt → Option Number
  | expr e => e.evaluate.toOption
  | print _ _ => none

end Stmt

/-- What statements print and come to when `value` is the value so far. -/
inductive Ran (value : Number) : List Stmt → Execution → Prop
  /-- All of them are run; the value is that of the last expression statement. -/
  | through {ss : List Stmt} (values : ∀ s ∈ ss, s.HasValue) :
      Ran value ss ⟨ss.filterMap Stmt.line?, .ok ((ss.filterMap Stmt.result?).getLast?.getD value)⟩
  /-- Those before the first one without a value are run. -/
  | stopped {before after : List Stmt} {s : Stmt} {err : RuntimeError}
      (values : ∀ s ∈ before, s.HasValue) (fails : s.value.evaluate = .error err) :
      Ran value (before ++ s :: after) ⟨before.filterMap Stmt.line?, .error err⟩

/-! ## One statement -/

section

variable {s : Stmt} {value n : Number} {err : RuntimeError}

theorem executeFrom_cons_of_error (fails : s.value.evaluate = .error err) (ss : List Stmt) :
    executeFrom value (s :: ss) = ⟨[], .error err⟩ := by
  cases s with
  | expr e | print e p =>
    rw [Stmt.value] at fails
    simp only [executeFrom, fails]

theorem executeFrom_cons_of_ok (ok : s.value.evaluate = .ok n) (ss : List Stmt) :
    executeFrom value (s :: ss) =
      ⟨s.line?.toList ++ (executeFrom (s.result?.getD value) ss).printed,
        (executeFrom (s.result?.getD value) ss).result⟩ := by
  cases s with
  | expr e | print e p =>
    rw [Stmt.value] at ok
    simp only [executeFrom, Stmt.line?, Stmt.result?, ok]
    rfl

end

/-! ## All statements -/

theorem Ran.of_error {value : Number} {s : Stmt} {err : RuntimeError}
    (fails : s.value.evaluate = .error err) (ss : List Stmt) :
    Ran value (s :: ss) ⟨[], .error err⟩ := by
  have none : ∀ s ∈ ([] : List Stmt), s.HasValue := List.forall_mem_nil _
  exact .stopped none fails

theorem Ran.cons {value : Number} {s : Stmt} {ss : List Stmt} {x : Execution} (first : s.HasValue)
    (more : Ran (s.result?.getD value) ss x) :
    Ran value (s :: ss) ⟨s.line?.toList ++ x.printed, x.result⟩ := by
  have lines (ss : List Stmt) :
      (s :: ss).filterMap Stmt.line? = s.line?.toList ++ ss.filterMap Stmt.line? := by
    rw [List.filterMap_cons]
    cases s.line? <;> rfl
  have last (ss : List Stmt) : ((s :: ss).filterMap Stmt.result?).getLast?.getD value =
      (ss.filterMap Stmt.result?).getLast?.getD (s.result?.getD value) := by
    rw [List.filterMap_cons]
    cases s.result? with
    | none => rfl
    | some n => exact congrArg (Option.getD · value) List.getLast?_cons
  cases more with
  | through values =>
    dsimp only
    rw [← lines, ← last]
    exact .through (List.forall_mem_cons.2 ⟨first, values⟩)
  | stopped values fails =>
    dsimp only
    rw [← lines, ← List.cons_append]
    exact .stopped (List.forall_mem_cons.2 ⟨first, values⟩) fails

theorem ran_executeFrom (value : Number) (ss : List Stmt) :
    Ran value ss (executeFrom value ss) := by
  induction ss generalizing value with
  | nil => exact .through (List.forall_mem_nil _)
  | cons s ss ih =>
    cases evaluated : s.value.evaluate with
    | error err =>
      rw [executeFrom_cons_of_error evaluated]
      exact .of_error evaluated ss
    | ok n =>
      rw [executeFrom_cons_of_ok evaluated]
      exact .cons ⟨n, evaluated⟩ (ih _)

/-- The second list is run only if the first has no error, and starts with its value. -/
theorem executeFrom_append (value : Number) (ss ts : List Stmt) : executeFrom value (ss ++ ts) =
    match (executeFrom value ss).result with
    | .error _ => executeFrom value ss
    | .ok n => ⟨(executeFrom value ss).printed ++ (executeFrom n ts).printed,
        (executeFrom n ts).result⟩ := by
  induction ss generalizing value with
  | nil => rfl
  | cons s ss ih =>
    rw [List.cons_append]
    cases evaluated : s.value.evaluate with
    | error err => rw [executeFrom_cons_of_error evaluated, executeFrom_cons_of_error evaluated]
    | ok n =>
      rw [executeFrom_cons_of_ok evaluated, executeFrom_cons_of_ok evaluated, ih]
      generalize executeFrom (s.result?.getD value) ss = first
      obtain ⟨printed, result⟩ := first
      cases result with
      | error err => rfl
      | ok m => simp only [List.append_assoc]

/-- The value so far is the value in the end only if there is no expression statement. -/
theorem executeFrom_start (value n : Number) (ss : List Stmt) : executeFrom n ss =
    ⟨(executeFrom value ss).printed,
      (executeFrom value ss).result.map fun m => if ss.any (!·.isPrint) then m else n⟩ := by
  induction ss with
  | nil => rfl
  | cons s ss ih =>
    cases evaluated : s.value.evaluate with
    | error err =>
      rw [executeFrom_cons_of_error evaluated, executeFrom_cons_of_error evaluated]
      rfl
    | ok m =>
      rw [executeFrom_cons_of_ok evaluated, executeFrom_cons_of_ok evaluated]
      cases s with
      | expr e =>
        -- the statement sets the value, so that both runs go on alike
        have set : (Stmt.expr e).result? = some m := by
          rw [Stmt.result?, show e.evaluate = .ok m from evaluated]
          rfl
        have same (r : Except RuntimeError Number) :
            r.map (fun m => if true then m else n) = r := by
          cases r <;> rfl
        rw [set]
        exact congrArg (Execution.mk _) (same _).symm
      | print e p =>
        show Execution.mk (_ ++ (executeFrom n ss).printed) (executeFrom n ss).result = _
        rw [ih]
        rfl

/-! ## Programs -/

namespace Program

/-- The result of the program in a session of its own, and that session. -/
def alone (p : Program) : Except RuntimeError Number × Session := Session.run {} p

/-- Whether there is an expression statement. -/
def hasExpr (p : Program) : Bool := p.statements.any (!·.isPrint)

theorem alone_eq (p : Program) : p.alone = (p.execute.result, ⟨p.execute.printed⟩) := by
  rw [alone, Session.run_eq, List.nil_append]

theorem ran_alone (p : Program) : Ran (.int 0) p.statements ⟨p.alone.2.printed, p.alone.1⟩ := by
  rw [alone_eq]
  exact ran_executeFrom (.int 0) p.statements

theorem execute_append_of_error {p : Program} {err : RuntimeError}
    (fails : p.execute.result = .error err) (q : Program) : (p ++ q).execute = p.execute := by
  have split := executeFrom_append default p.statements q.statements
  rwa [show (executeFrom default p.statements).result = .error err from fails] at split

theorem execute_append_of_ok {p : Program} {v : Number} (ok : p.execute.result = .ok v)
    (q : Program) : (p ++ q).execute = ⟨p.execute.printed ++ q.execute.printed,
      q.execute.result.map fun w => if q.hasExpr then w else v⟩ := by
  have split := executeFrom_append default p.statements q.statements
  rw [show (executeFrom default p.statements).result = .ok v from ok] at split
  dsimp only at split
  rwa [executeFrom_start default v] at split

end Program

/-! ## Sessions -/

namespace Session

/-- Runs programs one after another, also after failures: the result of each, and the session
after all of them. -/
def runAll (s : Session) : List Program → List (Except RuntimeError Number) × Session
  | [] => ([], s)
  | p :: ps =>
    let (result, s) := s.run p
    let (results, s) := s.runAll ps
    (result :: results, s)

theorem run_eq_alone (s : Session) (p : Program) :
    s.run p = (p.alone.1, ⟨s.printed ++ p.alone.2.printed⟩) := by
  rw [run_eq, Program.alone_eq]

theorem runAll_results (s : Session) (ps : List Program) :
    (s.runAll ps).1 = ps.map (·.alone.1) := by
  induction ps generalizing s with
  | nil => rfl
  | cons p ps ih =>
    simp only [runAll, run_eq_alone, ih, List.map_cons]

theorem runAll_printed (s : Session) (ps : List Program) :
    (s.runAll ps).2.printed = s.printed ++ ps.flatMap (·.alone.2.printed) := by
  induction ps generalizing s with
  | nil => exact (List.append_nil _).symm
  | cons p ps ih =>
    simp only [runAll, run_eq_alone, ih, List.flatMap_cons, List.append_assoc]

/-- Every program of a session has the result that it has alone, and the session prints what each of
them prints alone, one after the other. Alone, a program prints the values of its `print` statements
up to the first statement without a value, which is its error, and otherwise has the value of its
last expression statement, or zero. A program in front of another runs as it does alone; if it has
no error, the other follows, and the value is that of the other if that has an expression
statement. -/
theorem each_program_runs_as_alone :
    (∀ (s : Session) (ps : List Program), (s.runAll ps).1 = ps.map (·.alone.1) ∧
      (s.runAll ps).2.printed = s.printed ++ ps.flatMap (·.alone.2.printed)) ∧
    (∀ p : Program, Ran (.int 0) p.statements ⟨p.alone.2.printed, p.alone.1⟩) ∧
    ∀ p q : Program,
      (∀ err, p.alone.1 = .error err → (p ++ q).alone = p.alone) ∧
      ∀ v, p.alone.1 = .ok v →
        (p ++ q).alone.2.printed = p.alone.2.printed ++ q.alone.2.printed ∧
        (∀ err, q.alone.1 = .error err → (p ++ q).alone.1 = .error err) ∧
        ∀ w, q.alone.1 = .ok w → (p ++ q).alone.1 = .ok (if q.hasExpr then w else v) := by
  refine ⟨fun s ps => ⟨s.runAll_results ps, s.runAll_printed ps⟩, Program.ran_alone,
    fun p q => ?_⟩
  simp only [Program.alone_eq]
  refine ⟨fun err fails => ?_, fun v ok => ?_⟩
  · rw [Program.execute_append_of_error fails q]
  · rw [Program.execute_append_of_ok ok q]
    refine ⟨rfl, fun err fails => ?_, fun w ok' => ?_⟩
    · rw [fails]
      rfl
    · rw [ok']
      rfl

/-- A session of `print 1; 1 / 0; print 2` and `7; print 3`: the failure leaves its line behind and
nothing else. In the other order, in one program, both lines are printed before the failure. -/
theorem failed_division_leaves_its_line :
    ∃ p q : Program, ∃ err : RuntimeError,
      p.alone.1 = .error err ∧ q.alone.1 = .ok (.int 7) ∧
      (Session.runAll {} [p, q, p]).1 = [.error err, .ok (.int 7), .error err] ∧
      (Session.runAll {} [p, q, p]).2.printed = ["1", "3", "1"] ∧
      (p ++ q).alone = p.alone ∧
      (q ++ p).alone.1 = .error err ∧ (q ++ p).alone.2.printed = ["3", "1"] := by
  let division : Expr :=
    .binary .divide (.literal (.int 1) ⟨1, 9⟩) (.literal (.int 0) ⟨1, 13⟩) ⟨1, 11⟩
  let p : Program := ⟨[.print (.literal (.int 1) ⟨1, 6⟩) ⟨1, 0⟩, .expr division,
    .print (.literal (.int 2) ⟨1, 22⟩) ⟨1, 16⟩]⟩
  let q : Program := ⟨[.expr (.literal (.int 7) ⟨1, 0⟩), .print (.literal (.int 3) ⟨1, 9⟩) ⟨1, 3⟩]⟩
  let err : RuntimeError := ⟨.divisionByZero, ⟨1, 11⟩⟩
  have fails : p.alone.1 = .error err := by decide +kernel
  have ok : q.alone.1 = .ok (.int 7) := by decide +kernel
  obtain ⟨all, _, append⟩ := each_program_runs_as_alone
  obtain ⟨results, lines⟩ := all {} [p, q, p]
  obtain ⟨printed, fails', _⟩ := (append q p).2 _ ok
  refine ⟨p, q, err, fails, ok, ?_, ?_, (append p q).1 err fails, fails' err fails, ?_⟩
  · rw [results]
    decide +kernel
  · rw [lines]
    decide +kernel
  · rw [printed]
    decide +kernel

end Session

end Ember
