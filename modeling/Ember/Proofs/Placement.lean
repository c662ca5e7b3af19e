import Mathlib.Data.List.Forall2
import Ember.Outcome
import Ember.Proofs.ViablePrefix

/-!
# Places and meaning

Places are carried through parsing and evaluation and are never looked at. So two sources with the
same kinds and lexemes, however they are laid out, run alike: they have the same program but for the
places in it, the same value, the same output and the same messages, and if they fail, they fail at
the same token.

The argument is about any relation `R` between places. Things are alike if they are the same but for
places that `R` relates.

1. Parsers (`alike_chain` to `alike_statements`): parsers of like tokens that report like ends have
   like replies, one lemma for each parser.
2. Evaluation (`Expr.Alike.evaluate`, `alike_executeFrom`): like programs have equal values and like
   errors.
3. Runs: `R` relates the places of the first tokens, of the second tokens and so on (`SameToken`).
-/

namespace Ember

open Grammar

/-! ## The same but for places -/

namespace Expr

/-- The expression with all places forgotten. -/
def unplaced : Expr → Expr
  | literal n _ => literal n .start
  | unary op e _ => unary op e.unplaced .start
  | binary op l r _ => binary op l.unplaced r.unplaced .start

end Expr

/-- The statement with all places forgotten. -/
def Stmt.unplaced : Stmt → Stmt
  | expr e => expr e.unplaced
  | print e _ => print e.unplaced .start

/-- The program with all places forgotten. -/
def Program.unplaced (p : Program) : Program := ⟨p.statements.map Stmt.unplaced⟩

section

variable (R : Position → Position → Prop)

structure Token.Alike (t t' : Token) : Prop where
  lexeme : t.lexeme = t'.lexeme
  kind : t.kind = t'.kind
  position : R t.position t'.position

/-- As many tokens, which are alike one by one. -/
abbrev TokensAlike : List Token → List Token → Prop := List.Forall₂ (Token.Alike R)

inductive Expr.Alike : Expr → Expr → Prop
  | literal {n : Number} {p p' : Position} (place : R p p') : Alike (.literal n p) (.literal n p')
  | unary {op : PrefixOp} {e e' : Expr} {p p' : Position} (operand : Alike e e')
      (place : R p p') : Alike (.unary op e p) (.unary op e' p')
  | binary {op : InfixOp} {l l' r r' : Expr} {p p' : Position} (left : Alike l l')
      (right : Alike r r') (place : R p p') : Alike (.binary op l r p) (.binary op l' r' p')

inductive Stmt.Alike : Stmt → Stmt → Prop
  | expr {e e' : Expr} (value : e.Alike R e') : Alike (.expr e) (.expr e')
  | print {e e' : Expr} {p p' : Position} (value : e.Alike R e') (place : R p p') :
      Alike (.print e p) (.print e' p')

structure ParseError.Alike (e e' : ParseError) : Prop where
  fault : e.fault = e'.fault
  position : R e.position e'.position

structure RuntimeError.Alike (e e' : RuntimeError) : Prop where
  fault : e.fault = e'.fault
  position : R e.position e'.position

/-- Both replies are errors or both are results, and as many tokens are left. -/
inductive Reply.Alike {α : Type} (A : α → α → Prop) : Reply α → Reply α → Prop
  | error {e e' : ParseError} {ts ts' : List Token} (fault : e.Alike R e')
      (left : TokensAlike R ts ts') : Alike A ⟨.error e, ts⟩ ⟨.error e', ts'⟩
  | ok {a a' : α} {ts ts' : List Token} (value : A a a') (left : TokensAlike R ts ts') :
      Alike A ⟨.ok a, ts⟩ ⟨.ok a', ts'⟩

/-- The parsers have like replies to like tokens. -/
def Parser.Alike {α : Type} (A : α → α → Prop) (p p' : Parser α) : Prop :=
  ∀ ⦃ts ts' : List Token⦄, TokensAlike R ts ts' → Reply.Alike R A (p.run ts) (p'.run ts')

end

/-- Both are errors or both are results. -/
inductive ResultsAlike {ε α : Type} (E : ε → ε → Prop) (A : α → α → Prop) :
    Except ε α → Except ε α → Prop
  | error {e e' : ε} (fault : E e e') : ResultsAlike E A (.error e) (.error e')
  | ok {a a' : α} (value : A a a') : ResultsAlike E A (.ok a) (.ok a')

variable {R : Position → Position → Prop}

theorem Expr.Alike.unplaced_eq {e e' : Expr} (h : e.Alike R e') : e.unplaced = e'.unplaced := by
  induction h with
  | literal _ => rfl
  | unary _ _ ih => rw [unplaced, unplaced, ih]
  | binary _ _ _ ihl ihr => rw [unplaced, unplaced, ihl, ihr]

theorem Stmt.Alike.unplaced_eq {s s' : Stmt} (h : s.Alike R s') : s.unplaced = s'.unplaced := by
  cases h with
  | expr value => rw [unplaced, unplaced, value.unplaced_eq]
  | print value _ => rw [unplaced, unplaced, value.unplaced_eq]

theorem unplaced_eq_of_alike {ss ss' : List Stmt} (h : List.Forall₂ (Stmt.Alike R) ss ss') :
    (Program.mk ss).unplaced = (Program.mk ss').unplaced := by
  have statements : ss.map Stmt.unplaced = ss'.map Stmt.unplaced := by
    induction h with
    | nil => rfl
    | cons first _ ih => rw [List.map_cons, List.map_cons, first.unplaced_eq, ih]
  exact congrArg Program.mk statements

theorem ResultsAlike.map {ε α β : Type} {E : ε → ε → Prop} {A : α → α → Prop} {B : β → β → Prop}
    {x x' : Except ε α} {f f' : α → β} (h : ResultsAlike E A x x')
    (like : ∀ a a', A a a' → B (f a) (f' a')) : ResultsAlike E B (x.map f) (x'.map f') := by
  cases h with
  | error fault => exact .error fault
  | ok value => exact .ok (like _ _ value)

theorem ResultsAlike.same_or_errors {ε α : Type} {E : ε → ε → Prop} {x x' : Except ε α}
    (h : ResultsAlike E Eq x x') : (∃ a, x = .ok a ∧ x' = .ok a) ∨
      ∃ e e', x = .error e ∧ x' = .error e' ∧ E e e' := by
  cases h with
  | error fault => exact .inr ⟨_, _, rfl, rfl, fault⟩
  | ok same => exact .inl ⟨_, rfl, same ▸ rfl⟩

/-! ## Parsers -/

theorem Reply.Alike.map {α β : Type} {A : α → α → Prop} {B : β → β → Prop} {r r' : Reply α}
    {f f' : α → β} (h : r.Alike R A r') (like : ∀ a a', A a a' → B (f a) (f' a')) :
    (r.map f).Alike R B (r'.map f') := by
  cases h with
  | error fault left => exact .error fault left
  | ok value left => exact .ok (like _ _ value) left

theorem Reply.Alike.result {α : Type} {A : α → α → Prop} {r r' : Reply α} (h : r.Alike R A r') :
    ResultsAlike (ParseError.Alike R) A r.result r'.result := by
  cases h with
  | error fault _ => exact .error fault
  | ok value _ => exact .ok value

theorem Reply.Alike.of_error {α : Type} {A : α → α → Prop} {r r' : Reply α} {e : ParseError}
    (h : r.Alike R A r') (fails : r.result = .error e) :
    ∃ e' ts', r' = ⟨.error e', ts'⟩ ∧ e.Alike R e' ∧ TokensAlike R r.left ts' := by
  cases h with
  | error fault left =>
    cases fails
    exact ⟨_, _, rfl, fault, left⟩
  | ok _ _ => cases fails

theorem Reply.Alike.of_ok {α : Type} {A : α → α → Prop} {r r' : Reply α} {a : α}
    (h : r.Alike R A r') (ok : r.result = .ok a) :
    ∃ a' ts', r' = ⟨.ok a', ts'⟩ ∧ A a a' ∧ TokensAlike R r.left ts' := by
  cases h with
  | error _ _ => cases ok
  | ok value left =>
    cases ok
    exact ⟨_, _, rfl, value, left⟩

namespace Parser

theorem chain_of_error {op? : TokenKind → Option InfixOp} {p : Parser Expr} {l : Expr} {t : Token}
    {op : InfixOp} {ts rest : List Token} {err : ParseError} (sign : op? t.kind = some op)
    (h : p.run ts = ⟨.error err, rest⟩) : chain op? p l (t :: ts) = ⟨.error err, rest⟩ := by
  rw [chain]
  simp only [sign, h]

theorem chain_of_none {op? : TokenKind → Option InfixOp} {p : Parser Expr} {l : Expr} {t : Token}
    {ts : List Token} (ends : op? t.kind = none) : chain op? p l (t :: ts) = ⟨.ok l, t :: ts⟩ := by
  rw [chain]
  simp only [ends]

theorem alike_chain (op? : TokenKind → Option InfixOp) {p p' : Parser Expr}
    (hp : p.Alike R (Expr.Alike R) p') (left left' : Expr) (ts ts' : List Token)
    (hl : left.Alike R left') (h : TokensAlike R ts ts') :
    (chain op? p left ts).Alike R (Expr.Alike R) (chain op? p' left' ts') := by
  fun_induction chain op? p left ts generalizing left' ts' with
  | case1 left =>
    cases h
    rw [chain]
    exact .ok hl .nil
  | case2 left t ts ends =>
    cases h with
    | cons like rest =>
      rw [like.kind] at ends
      rw [chain_of_none ends]
      exact .ok hl (.cons like rest)
  | case3 left t ts op sign reply err fails =>
    cases h with
    | cons like rest =>
      obtain ⟨err', rest', run', fault, left⟩ := (hp rest).of_error fails
      rw [like.kind] at sign
      rw [chain_of_error sign run']
      exact .error fault left
  | case4 left t ts op sign reply right ok _ ih =>
    cases h with
    | cons like rest =>
      obtain ⟨right', rest', run', value, left⟩ := (hp rest).of_ok ok
      rw [like.kind] at sign
      rw [chain_cons_ok sign run']
      -- both loops go on with one more operator, at like places
      exact ih _ _ (.binary hl value like.position) left

theorem alike_leftAssoc (op? : TokenKind → Option InfixOp) {p p' : Parser Expr}
    (hp : p.Alike R (Expr.Alike R) p') :
    (leftAssoc op? p).Alike R (Expr.Alike R) (leftAssoc op? p') := by
  intro ts ts' h
  have first := hp h
  dsimp only [leftAssoc]
  generalize p.run ts = r at first
  generalize p'.run ts' = r' at first
  cases first with
  | error fault left => exact .error fault left
  | ok value left => exact alike_chain op? hp _ _ _ _ value left

theorem alike_tiers {p p' : Parser Expr} (hp : p.Alike R (Expr.Alike R) p') (n : Nat) :
    (tiers p n).Alike R (Expr.Alike R) (tiers p' n) := by
  induction n with
  | zero => exact hp
  | succ n ih => exact alike_leftAssoc _ ih

theorem alike_closeParen {last last' : Position} {r r' : Reply Expr} (ends : R last last')
    (h : r.Alike R (Expr.Alike R) r') :
    (closeParen last r).Alike R (Expr.Alike R) (closeParen last' r') := by
  cases h with
  | error fault left => exact .error fault left
  | ok value left =>
    cases left with
    | nil => exact .error ⟨rfl, ends⟩ .nil
    | @cons t t' ts ts' like rest =>
      unfold closeParen
      dsimp only
      rw [← like.kind]
      split
      · exact .ok value rest
      · exact .error ⟨rfl, like.position⟩ (.cons like rest)

theorem alike_literal (read? : List Char → Option Number) (fault : String → ParseFault)
    {t t' : Token} {ts ts' : List Token} (like : t.Alike R t') (rest : TokensAlike R ts ts') :
    (literal read? fault t ts).Alike R (Expr.Alike R) (literal read? fault t' ts') := by
  unfold literal
  rw [← like.lexeme]
  split
  · exact .ok (.literal like.position) rest
  · exact .error ⟨rfl, like.position⟩ rest

theorem alike_operandFrom {last last' : Position} {inner inner' : Parser Expr} {t t' : Token}
    {ts ts' : List Token} (ends : R last last') (hi : inner.Alike R (Expr.Alike R) inner')
    (like : t.Alike R t') (rest : TokensAlike R ts ts') :
    (operandFrom last inner t ts).Alike R (Expr.Alike R) (operandFrom last' inner' t' ts') := by
  by_cases start : t.kind ∈ starters
  · rcases starters_cases start with ⟨op, sign⟩ | kind | kind | kind
    · have sign' := sign
      rw [like.kind] at sign'
      rw [operandFrom_unary sign, operandFrom_unary sign']
      exact (hi rest).map fun _ _ operand => .unary operand like.position
    · rw [operandFrom_integer kind, operandFrom_integer (like.kind.symm.trans kind)]
      exact alike_literal _ _ like rest
    · rw [operandFrom_float kind, operandFrom_float (like.kind.symm.trans kind)]
      exact alike_literal _ _ like rest
    · rw [operandFrom_leftParen kind, operandFrom_leftParen (like.kind.symm.trans kind)]
      exact alike_closeParen ends (alike_tiers hi _ rest)
  · have start' := start
    rw [like.kind] at start'
    rw [operandFrom_other start, operandFrom_other start', like.kind]
    exact .error ⟨rfl, like.position⟩ (.cons like rest)

theorem alike_operandOver {last last' : Position} {inner inner' : Parser Expr} (ends : R last last')
    (hi : inner.Alike R (Expr.Alike R) inner') :
    (operandOver last inner).Alike R (Expr.Alike R) (operandOver last' inner') := by
  intro ts ts' h
  cases h with
  | nil => exact .error ⟨rfl, ends⟩ .nil
  | cons like rest => exact alike_operandFrom ends hi like rest

theorem alike_tooDeep {last last' : Position} (ends : R last last') :
    (tooDeep last).Alike R (Expr.Alike R) (tooDeep last') := by
  intro ts ts' h
  cases h with
  | nil => exact .error ⟨rfl, ends⟩ .nil
  | cons like rest => exact .error ⟨rfl, like.position⟩ (.cons like rest)

theorem alike_operand {last last' : Position} (ends : R last last') (depth : Nat) :
    (operand last depth).Alike R (Expr.Alike R) (operand last' depth) := by
  induction depth with
  | zero => exact alike_tooDeep ends
  | succ depth ih => exact alike_operandOver ends ih

theorem alike_expression {last last' : Position} (ends : R last last') :
    (expression last).Alike R (Expr.Alike R) (expression last') :=
  alike_tiers (alike_operand ends maxNesting) InfixOp.tierCount

theorem alike_statement {last last' : Position} (ends : R last last') :
    (statement last).Alike R (Stmt.Alike R) (statement last') := by
  have hp := alike_expression ends
  intro ts ts' h
  cases h with
  | nil => exact (hp .nil).map fun _ _ value => .expr value
  | cons like rest =>
    dsimp only [statement]
    rw [← like.kind]
    split
    · exact (hp rest).map fun _ _ value => .print value like.position
    · exact (hp (.cons like rest)).map fun _ _ value => .expr value

theorem alike_skipSemicolon {ts ts' : List Token} (h : TokensAlike R ts ts') :
    TokensAlike R (skipSemicolon ts) (skipSemicolon ts') := by
  cases h with
  | nil => exact .nil
  | cons like rest =>
    rw [skipSemicolon, skipSemicolon, ← like.kind]
    split
    · exact rest
    · exact .cons like rest

theorem alike_statements {last last' : Position} (ends : R last last') (ts ts' : List Token)
    (h : TokensAlike R ts ts') :
    ResultsAlike (ParseError.Alike R) (List.Forall₂ (Stmt.Alike R)) (statements last ts).result
      (statements last' ts').result := by
  fun_induction statements last ts generalizing ts' with
  | case1 =>
    cases h
    rw [statements, if_pos rfl]
    exact .ok .nil
  | case2 ts ne reply err fails =>
    obtain ⟨err', rest', run', fault, _⟩ := (alike_statement ends h).of_error fails
    have ne' : ts' ≠ [] := by
      rintro rfl
      cases h
      exact ne rfl
    rw [statements_of_error ne' (congrArg Reply.result run')]
    exact .error fault
  | case3 ts ne reply st ok _ ih =>
    obtain ⟨st', rest', run', value, left⟩ := (alike_statement ends h).of_ok ok
    rw [statements_of_run run']
    exact (ih _ (alike_skipSemicolon left)).map fun _ _ more => .cons value more

end Parser

/-! ## Evaluation -/

theorem alike_locate {p p' : Position} (place : R p p') (r : Except OpError Number) :
    ResultsAlike (RuntimeError.Alike R) Eq (locate p r) (locate p' r) := by
  cases r with
  | error f => exact .error ⟨rfl, place⟩
  | ok n => exact .ok rfl

theorem Expr.Alike.evaluate {e e' : Expr} (h : e.Alike R e') :
    ResultsAlike (RuntimeError.Alike R) Eq e.evaluate e'.evaluate := by
  induction h with
  | literal _ => exact .ok rfl
  | unary _ place ih =>
    rcases ih.same_or_errors with ⟨n, ok, ok'⟩ | ⟨err, err', fails, fails', fault⟩
    · simp only [Expr.evaluate, ok, ok']
      exact alike_locate place _
    · simp only [Expr.evaluate, fails, fails']
      exact .error fault
  | binary _ _ place ihl ihr =>
    rcases ihl.same_or_errors with ⟨m, left, left'⟩ | ⟨err, err', fails, fails', fault⟩
    · rcases ihr.same_or_errors with ⟨n, right, right'⟩ | ⟨err, err', fails, fails', fault⟩
      · simp only [Expr.evaluate, left, left', right, right']
        exact alike_locate place _
      · simp only [Expr.evaluate, left, left', fails, fails']
        exact .error fault
    · simp only [Expr.evaluate, fails, fails']
      exact .error fault

/-- The same output, and the same value or like errors. -/
structure Execution.Alike (R : Position → Position → Prop) (x x' : Execution) : Prop where
  printed : x.printed = x'.printed
  result : ResultsAlike (RuntimeError.Alike R) Eq x.result x'.result

theorem alike_executeFrom {ss ss' : List Stmt} (h : List.Forall₂ (Stmt.Alike R) ss ss')
    (value : Number) : (executeFrom value ss).Alike R (executeFrom value ss') := by
  induction h generalizing value with
  | nil => exact ⟨rfl, .ok rfl⟩
  | cons first _ ih =>
    cases first with
    | expr like =>
      rcases like.evaluate.same_or_errors with ⟨n, ok, ok'⟩ | ⟨err, err', fails, fails', fault⟩
      · simp only [executeFrom, ok, ok']
        exact ih n
      · simp only [executeFrom, fails, fails']
        exact ⟨rfl, .error fault⟩
    | print like _ =>
      rcases like.evaluate.same_or_errors with ⟨n, ok, ok'⟩ | ⟨err, err', fails, fails', fault⟩
      · simp only [executeFrom, ok, ok']
        exact ⟨congrArg (n.text :: ·) (ih value).printed, (ih value).result⟩
      · simp only [executeFrom, fails, fails']
        exact ⟨rfl, .error fault⟩

/-! ## Runs -/

/-- The places are those of tokens that stand at the same index. -/
def SameToken (ts ts' : List Token) (p p' : Position) : Prop :=
  ∃ (i : Nat) (t t' : Token), ts[i]? = some t ∧ ts'[i]? = some t' ∧ p = t.position ∧
    p' = t'.position

/-- What a token is but for its place. -/
def Token.unplaced (t : Token) : TokenKind × String := (t.kind, t.lexeme)

theorem tokensAlike_sameToken {ts ts' : List Token}
    (same : ts.map Token.unplaced = ts'.map Token.unplaced) :
    TokensAlike (SameToken ts ts') ts ts' := by
  have length : ts.length = ts'.length := by simpa using congrArg List.length same
  refine List.forall₂_iff_get.2 ⟨length, fun i lt lt' => ?_⟩
  have here : ts[i].unplaced = ts'[i].unplaced := by
    have get := congrArg (·[i]?) same
    simpa [lt, lt'] using get
  obtain ⟨kind, lexeme⟩ := Prod.mk.inj here
  exact ⟨lexeme, kind, i, ts[i], ts'[i], List.getElem?_eq_getElem lt,
    List.getElem?_eq_getElem lt', rfl, rfl⟩

theorem sameToken_last {ts ts' : List Token} (same : ts.length = ts'.length) (ne : ts ≠ []) :
    SameToken ts ts' (Cursor.ofTokens ts).last (Cursor.ofTokens ts').last := by
  have ne' : ts' ≠ [] := by
    rintro rfl
    exact ne (List.length_eq_zero_iff.1 same)
  obtain ⟨t, getLast, last⟩ := Cursor.last_of_ne_nil ne
  obtain ⟨t', getLast', last'⟩ := Cursor.last_of_ne_nil ne'
  rw [List.getLast?_eq_getElem?] at getLast getLast'
  rw [← same] at getLast'
  exact ⟨ts.length - 1, t, t', getLast, getLast', last, last'⟩

/-- Tokens that are the same but for places are like programs, or have like errors. -/
theorem alike_ofTokens {ts ts' : List Token}
    (same : ts.map Token.unplaced = ts'.map Token.unplaced) :
    ResultsAlike (ParseError.Alike (SameToken ts ts'))
      (fun p p' => List.Forall₂ (Stmt.Alike (SameToken ts ts')) p.statements p'.statements)
      (Program.ofTokens ts) (Program.ofTokens ts') := by
  have tokens := tokensAlike_sameToken same
  by_cases ne : ts = []
  · -- there is no last token to report an end at, and nothing to parse either
    subst ne
    cases tokens
    rw [Program.ofTokens_ok_iff.2 ⟨[], .nil, rfl⟩]
    exact .ok .nil
  · have ends := sameToken_last tokens.length_eq ne
    exact (Parser.alike_statements ends ts ts' tokens).map fun _ _ statements => statements

/-- The same outcome but for places, which `R` relates if there is a failure. -/
structure Outcome.Alike (R : Position → Position → Prop) (o o' : Outcome) : Prop where
  program : o.program.map Program.unplaced = o'.program.map Program.unplaced
  value : o.value = o'.value
  printed : o.printed = o'.printed
  failedPhase : o.failedPhase? = o'.failedPhase?
  exitCode : o.exitCode = o'.exitCode
  messages : o.diagnostics.toList.map Diagnostic.message =
    o'.diagnostics.toList.map Diagnostic.message
  places : o.isSuccess = false → ∃ d d', o.diagnostics.toList = [d] ∧
    o'.diagnostics.toList = [d'] ∧ R d.position d'.position

/-- Outcomes with like programs and one failure each, which are the same but for their places. -/
theorem Outcome.alike_of_failures {tokens tokens' : Option (List Token)}
    {program program' : Option Program} {e e' : Failure}
    (programs : program.map Program.unplaced = program'.map Program.unplaced)
    (phase : e.phase = e'.phase) (message : e.message = e'.message)
    (place : R e.position e'.position) (value : Option Number) (printed : List String)
    (file file' : String) :
    Outcome.Alike R ⟨tokens, program, value, printed, (Diagnostics.new file).record e⟩
      ⟨tokens', program', value, printed, (Diagnostics.new file').record e'⟩ where
  program := programs
  value := rfl
  printed := rfl
  failedPhase := by simp only [failedPhase?, Diagnostics.firstFailed?_record_new, phase]
  exitCode := by simp only [exitCode, failedPhase?, Diagnostics.firstFailed?_record_new, phase]
  messages := by
    simp only [Diagnostics.toList_record_new, List.map_cons, List.map_nil, message]
  places _ := ⟨_, _, Diagnostics.toList_record_new file e,
    Diagnostics.toList_record_new file' e', place⟩

/-- Two sources with the same kinds and lexemes, in whatever layout, run to the same outcome but for
places, and if they fail, then at the same token. -/
theorem run_ignores_layout {source source' : String} {ts ts' : List Token}
    (lexed : Token.ofSource source = .ok ts) (lexed' : Token.ofSource source' = .ok ts')
    (same : ts.map Token.unplaced = ts'.map Token.unplaced) (file file' : String) :
    (run file source).Alike (SameToken ts ts') (run file' source') := by
  have parses := alike_ofTokens same
  generalize parsed : Program.ofTokens ts = x at parses
  generalize parsed' : Program.ofTokens ts' = x' at parses
  cases parses with
  | error like =>
    rw [run_of_parseError lexed parsed, run_of_parseError lexed' parsed']
    apply Outcome.alike_of_failures
    · rfl
    · rfl
    · exact congrArg ParseFault.message like.fault
    · exact like.position
  | @ok p p' statements =>
    have programs : p.unplaced = p'.unplaced := unplaced_eq_of_alike statements
    have execution : p.execute.Alike _ p'.execute := alike_executeFrom statements default
    rcases execution.result.same_or_errors with ⟨n, ok, ok'⟩ | ⟨err, err', fails, fails', like⟩
    · rw [run_of_value lexed parsed ok, run_of_value lexed' parsed' ok']
      exact ⟨congrArg some programs, rfl, execution.printed, rfl, rfl, rfl, by rintro ⟨⟩⟩
    · rw [run_of_runtimeError lexed parsed fails, run_of_runtimeError lexed' parsed' fails',
        execution.printed]
      apply Outcome.alike_of_failures
      · exact congrArg some programs
      · rfl
      · exact congrArg OpError.message like.fault
      · exact like.position

/-- `print 1; 2 + 3/0` fails at its seventh token, also if it is spread over two lines. -/
theorem division_fails_in_any_layout :
    ∃ ts ts', Token.ofSource "print 1; 2 + 3/0" = .ok ts ∧
      Token.ofSource "print 1;2 # two\n +3 / 0" = .ok ts' ∧
      ts.map Token.position ≠ ts'.map Token.position ∧
      (run inlineName "print 1; 2 + 3/0").isSuccess = false ∧
      (run inlineName "print 1; 2 + 3/0").Alike (SameToken ts ts')
        (run inlineName "print 1;2 # two\n +3 / 0") := by
  let ts : List Token := [⟨"print", .keyword .print_, ⟨1, 0⟩⟩, ⟨"1", .integer, ⟨1, 6⟩⟩,
    ⟨";", .semicolon, ⟨1, 7⟩⟩, ⟨"2", .integer, ⟨1, 9⟩⟩, ⟨"+", .plus, ⟨1, 11⟩⟩,
    ⟨"3", .integer, ⟨1, 13⟩⟩, ⟨"/", .slash, ⟨1, 14⟩⟩, ⟨"0", .integer, ⟨1, 15⟩⟩]
  let ts' : List Token := [⟨"print", .keyword .print_, ⟨1, 0⟩⟩, ⟨"1", .integer, ⟨1, 6⟩⟩,
    ⟨";", .semicolon, ⟨1, 7⟩⟩, ⟨"2", .integer, ⟨1, 8⟩⟩, ⟨"+", .plus, ⟨2, 1⟩⟩,
    ⟨"3", .integer, ⟨2, 2⟩⟩, ⟨"/", .slash, ⟨2, 4⟩⟩, ⟨"0", .integer, ⟨2, 6⟩⟩]
  have lexed : Token.ofSource "print 1; 2 + 3/0" = .ok ts := by decide +kernel
  have lexed' : Token.ofSource "print 1;2 # two\n +3 / 0" = .ok ts' := by decide +kernel
  exact ⟨ts, ts', lexed, lexed', by decide, by decide +kernel,
    run_ignores_layout lexed lexed' (by decide) inlineName inlineName⟩

end Ember
