import Ember.Proofs.Descent
import Ember.Proofs.Numeral

/-!
# What a descent never does

A descent relies on itself: it asks for the token taken last only after it has taken one, looks up
operators only for the signs of a tier, lowers its counter only after it has raised it, and raises
it only below the limit. `Guarded` is the descent that checks each of these and names what is wrong
as a `Breach`; it has no answer at all (`none`) where it would never end.

1. `Passes`: an answer without guards is the answer with them, so that there is no breach on the way
   to it. Each guard lets a descent pass that goes on (`passes_previous`, `passes_operator`,
   `passes_leave`, `guardedEnter_eq`), and so does one computation after another (`Passes.bind`).
2. `passes_expressions`, `passes_statements`: by induction on how a descent comes to its answer.
3. `passes_callAll`: any number of calls.

Main statement: `breaches_and_float_faults_unreachable`. That a descent has an answer to begin with
is `Descent.callAll_eq`; the errors about literals are those of `Program.literal_fault_of_source`.
-/

namespace Ember

open Grammar

/-- What a descent relies on not to happen. -/
inductive Breach where
  /-- The token taken last is asked for, and none has been taken. -/
  | nothingTaken
  /-- A token is asked for where there is none. -/
  | outOfBounds (index : Nat)
  /-- The sign of a tier is no operator. -/
  | unknownOperator (kind : TokenKind) (position : Position)
  /-- The counter is lowered from zero. -/
  | counterBelowZero
  /-- The counter is raised above its limit. -/
  | counterAboveLimit
deriving DecidableEq

/-- An answer or a breach, or neither if there is no end. -/
abbrev Guarded (α : Type) : Type := ExceptT Breach Option α

namespace Descent

/-! ## Guards -/

/-- The token taken last. -/
def guardedPrevious (d : Descent) : Guarded Token :=
  if d.taken = 0 then throw .nothingTaken
  else
    match d.tokens[d.taken - 1]? with
    | some t => pure t
    | none => throw (.outOfBounds (d.taken - 1))

/-- The operator that the token is. -/
def guardedOperator (t : Token) : Guarded InfixOp :=
  match InfixOp.ofKind? t.kind with
  | some op => pure op
  | none => throw (.unknownOperator t.kind t.position)

/-- One operand further in. -/
def guardedEnter (d : Descent) : Guarded Descent :=
  if d.depth < maxNesting then pure d.enter else throw .counterAboveLimit

/-- One operand further out. -/
def guardedLeave (d : Descent) : Guarded Descent :=
  if d.depth = 0 then throw .counterBelowZero else pure { d with depth := d.depth - 1 }

/-! ## Expressions -/

mutual

/-- An expression with operators of the first `n` tiers. -/
def guardedTier (n : Nat) (d : Descent) : Guarded (Result Expr) :=
  match n with
  | 0 => d |>.guardedOperand
  | n + 1 => do
    match ← d |>.guardedTier n with
    | (.error e, d) => pure (.error e, d)
    | (.ok left, d) => d |>.guardedChain n left
partial_fixpoint

/-- The expression that `left` is the beginning of. -/
def guardedChain (n : Nat) (left : Expr) (d : Descent) : Guarded (Result Expr) :=
  if d.nextIs ((tierAt n).map Prod.fst) then do
    let t ← d.advance.guardedPrevious
    let op ← guardedOperator t
    match ← d.advance |>.guardedTier n with
    | (.error e, d) => pure (.error e, d)
    | (.ok right, d) => d |>.guardedChain n (.binary op left right t.position)
  else
    pure (.ok left, d)
partial_fixpoint

/-- An operand, unless there are too many around it. -/
def guardedOperand (d : Descent) : Guarded (Result Expr) :=
  if maxNesting ≤ d.depth then pure (.error ⟨.nestedTooDeeply, d.nextPosition⟩, d)
  else do
    let d ← d.guardedEnter
    let (result, d) ← d |>.guardedSigned
    let d ← d.guardedLeave
    pure (result, d)
partial_fixpoint

/-- A prefix operator and its operand, or an operand without one. -/
def guardedSigned (d : Descent) : Guarded (Result Expr) :=
  match d.next?.bind fun t => PrefixOp.ofKind? t.kind with
  | some op => do
    let t ← d.advance.guardedPrevious
    let (result, d) ← d.advance |>.guardedOperand
    pure (result.map (.unary op · t.position), d)
  | none => d |>.guardedPrimary
partial_fixpoint

/-- A literal or an expression in parentheses. -/
def guardedPrimary (d : Descent) : Guarded (Result Expr) :=
  match d.next? with
  | none => pure (.error ⟨.unexpectedEnd, d.last⟩, d)
  | some t =>
    match t.kind with
    | .integer => .lift <|
      literal (fun cs => (readInt64? cs).map .int) .integerOutOfRange t d.advance
    | .float => .lift <|
      literal (fun cs => (Decimal.readBinary64? cs).map .float) .invalidFloat t d.advance
    | .leftParen => do
      let result ← d.advance |>.guardedTier InfixOp.tierCount
      .lift (close result)
    | kind => pure (.error ⟨.unknownPrimary kind, t.position⟩, d)
partial_fixpoint

end

/-! ## Statements -/

/-- An expression. -/
def guardedExpression (d : Descent) : Guarded (Result Expr) := d.guardedTier InfixOp.tierCount

/-- One expression up to the end, or nothing if there is no token left. -/
def guardedAst (d : Descent) : Guarded (Result Ast) :=
  if d.next? = none then pure (.ok .empty, d)
  else do
    match ← d.guardedExpression with
    | (.error e, d) => pure (.error e, d)
    | (.ok e, d) =>
      match d.next? with
      | none => pure (.ok ⟨some e⟩, d)
      | some t => pure (.error ⟨.trailingToken t.kind, t.position⟩, d)

/-- A statement without its semicolon. -/
def guardedStatement (d : Descent) : Guarded (Result Stmt) :=
  if d.nextIs [.keyword .print_] then do
    let t ← d.advance.guardedPrevious
    let (result, d) ← d.advance.guardedExpression
    pure (result.map (.print · t.position), d)
  else do
    let (result, d) ← d.guardedExpression
    pure (result.map .expr, d)

/-- Statements up to the end. -/
def guardedStatements (d : Descent) : Guarded (Result (List Stmt)) :=
  if d.next? = none then pure (.ok [], d)
  else do
    match ← d.guardedStatement with
    | (.error e, d) => pure (.error e, d)
    | (.ok s, d) =>
      let (result, d) ← d.skipSemicolon |>.guardedStatements
      pure (result.map (s :: ·), d)
partial_fixpoint

/-- A program up to the end. -/
def guardedProgram (d : Descent) : Guarded (Result Program) := do
  let (result, d) ← d.guardedStatements
  pure (result.map Program.mk, d)

/-- The answer to a call, and the descent after it. -/
def guardedCall (d : Descent) : Call → Guarded (Answer × Descent)
  | .expression => (fun (r, d) => (.expression r, d)) <$> d.guardedExpression
  | .ast => (fun (r, d) => (.ast r, d)) <$> d.guardedAst
  | .program => (fun (r, d) => (.program r, d)) <$> d.guardedProgram

/-- The answers to calls one after the other, and the descent after them. -/
def guardedCallAll (d : Descent) : List Call → Guarded (List Answer × Descent)
  | [] => pure ([], d)
  | q :: qs => do
    let (answer, d) ← d.guardedCall q
    let (answers, d) ← d.guardedCallAll qs
    pure (answer :: answers, d)

/-! ## Answers without a breach -/

/-- Every answer without guards is the answer with them. -/
def Passes {α : Type} (o : Option α) (g : Guarded α) : Prop := ∀ a, o = some a → g = pure a

section

variable {α β : Type}

theorem passes_some (a : α) : Passes (some a) (pure a) := by
  rintro _ ⟨⟩
  rfl

theorem passes_lift (o : Option α) : Passes o (.lift o) := by
  rintro a rfl
  rfl

theorem Passes.bind {o : Option α} {g : Guarded α} {f : α → Option β} {f' : α → Guarded β}
    (h : Passes o g) (next : ∀ a, Passes (f a) (f' a)) : Passes (o >>= f) (g >>= f') := by
  intro b answer
  obtain ⟨a, first, rest⟩ := Option.bind_eq_some_iff.1 answer
  rw [h a first, pure_bind]
  exact next a b rest

theorem Passes.map {o : Option α} {g : Guarded α} (h : Passes o g) (f : α → β) :
    Passes (o.map f) (f <$> g) := by
  intro b answer
  obtain ⟨a, first, rfl⟩ := Option.map_eq_some_iff.1 answer
  rw [h a first, map_pure]

end

theorem passes_previous (d : Descent) : Passes d.previous? d.guardedPrevious := by
  intro t answer
  unfold previous? at answer
  unfold guardedPrevious
  split at answer
  · cases answer
  · next taken => rw [if_neg taken, answer]

theorem passes_operator (t : Token) : Passes (InfixOp.ofKind? t.kind) (guardedOperator t) := by
  intro op answer
  rw [guardedOperator, answer]

theorem passes_leave (d : Descent) : Passes d.leave? d.guardedLeave := by
  intro d' answer
  unfold leave? at answer
  unfold guardedLeave
  split at answer
  · cases answer
  · next depth =>
    cases answer
    rw [if_neg depth]

example : (ofTokens []).guardedPrevious.run = some (.error .nothingTaken) ∧
    (ofTokens []).guardedLeave.run = some (.error .counterBelowZero) := ⟨rfl, rfl⟩

theorem guardedEnter_eq {d : Descent} (free : ¬ maxNesting ≤ d.depth) :
    d.guardedEnter = pure d.enter := by
  rw [guardedEnter, if_pos (Nat.lt_of_not_le free)]

/-- The functions that call one another, all at once: by induction on how a descent comes to its
answer, each step of which a guard lets pass. -/
theorem passes_expressions :
    (∀ n d, Passes (tier n d) (guardedTier n d)) ∧
      (∀ n left d, Passes (chain n left d) (guardedChain n left d)) ∧
      (∀ d, Passes (operand d) (guardedOperand d)) ∧
      (∀ d, Passes (signed d) (guardedSigned d)) ∧
      (∀ d, Passes (primary d) (guardedPrimary d)) := by
  refine tier.mutual_partial_correctness (fun n d r => guardedTier n d = pure r)
    (fun n left d r => guardedChain n left d = pure r) (fun d r => guardedOperand d = pure r)
    (fun d r => guardedSigned d = pure r) (fun d r => guardedPrimary d = pure r) ?_ ?_ ?_ ?_ ?_
  · intro _ _ _ tiers chains operands n d
    cases n with
    | zero =>
      rw [guardedTier]
      exact operands d
    | succ n =>
      rw [guardedTier]
      refine Passes.bind (tiers n d) ?_
      rintro ⟨e | left, d⟩
      · exact passes_some _
      · exact chains n left d
  · intro _ _ tiers chains n left d
    rw [guardedChain]
    split
    · refine (passes_previous _).bind fun t => (passes_operator t).bind fun op =>
        Passes.bind (tiers n _) ?_
      rintro ⟨e | right, d⟩
      · exact passes_some _
      · exact chains n _ d
    · exact passes_some _
  · intro _ signeds d
    rw [guardedOperand]
    split
    · exact passes_some _
    · next free =>
      rw [guardedEnter_eq free, pure_bind]
      refine Passes.bind (signeds _) fun (result, d) => (passes_leave d).bind fun d => ?_
      exact passes_some _
  · intro _ _ operands primaries d
    rw [guardedSigned]
    cases d.next?.bind fun t => PrefixOp.ofKind? t.kind with
    | some op =>
      refine (passes_previous _).bind fun t => Passes.bind (operands _) fun (result, d) => ?_
      exact passes_some _
    | none => exact primaries d
  · intro _ tiers d
    rw [guardedPrimary]
    cases d.next? with
    | none => exact passes_some _
    | some t =>
      dsimp only
      cases t.kind with
      | integer => exact passes_lift _
      | float => exact passes_lift _
      | leftParen => exact Passes.bind (tiers _ _) fun result => passes_lift _
      | _ => exact passes_some _

theorem passes_expression (d : Descent) : Passes d.expression d.guardedExpression :=
  passes_expressions.1 InfixOp.tierCount d

theorem passes_ast (d : Descent) : Passes d.ast d.guardedAst := by
  unfold ast guardedAst
  split
  · exact passes_some _
  · refine (passes_expression d).bind ?_
    rintro ⟨e | e, d⟩
    · exact passes_some _
    · dsimp only
      cases d.next? <;> exact passes_some _

theorem passes_statement (d : Descent) : Passes d.statement d.guardedStatement := by
  unfold statement guardedStatement
  split
  · refine (passes_previous _).bind fun t => (passes_expression _).bind fun (result, d) => ?_
    exact passes_some _
  · exact (passes_expression d).bind fun (result, d) => passes_some _

theorem passes_statements (d : Descent) : Passes d.statements d.guardedStatements := by
  refine statements.partial_correctness (fun d r => guardedStatements d = pure r) ?_ d
  intro _ more d
  rw [guardedStatements]
  split
  · exact passes_some _
  · refine (passes_statement d).bind ?_
    rintro ⟨e | s, d⟩
    · exact passes_some _
    · exact Passes.bind (more _) fun (result, d) => passes_some _

theorem passes_program (d : Descent) : Passes d.program d.guardedProgram :=
  (passes_statements d).bind fun _ => passes_some _

theorem passes_call (d : Descent) (q : Call) : Passes (d.call q) (d.guardedCall q) := by
  cases q with
  | expression => exact (passes_expression d).map _
  | ast => exact (passes_ast d).map _
  | program => exact (passes_program d).map _

theorem passes_callAll (d : Descent) (qs : List Call) : Passes (d.callAll qs) (d.guardedCallAll qs) := by
  induction qs generalizing d with
  | nil => exact passes_some _
  | cons q qs ih =>
    exact (passes_call d q).bind fun (answer, d) => (ih d).bind fun (answers, d) => passes_some _

/-- A statement that is parsed has taken a token. -/
theorem taken_lt_of_statement {d : Descent} (h : d.Idle) {st : Stmt}
    (parsed : ((Parser.statement d.last).run d.rest).result = .ok st) :
    d.taken < (d.leaving ((Parser.statement d.last).run d.rest).left).taken := by
  have fewer := (Parser.statement d.last).left_lt parsed
  have left : d.rest.length = d.tokens.length - d.taken := List.length_drop
  have within := h.within
  show d.taken < d.tokens.length - ((Parser.statement d.last).run d.rest).left.length
  omega

/-- Whatever the tokens are and whatever a descent over them is asked for, it has answers, those of
a cursor over the tokens, and there is no breach; its counter is zero again after every call.
Between statements, the next statement has an answer, and takes a token if it can be parsed. If the
tokens are those of a source, no numeral with a point is refused, and a numeral without one is
refused only if it is an integer token that stands for more than the greatest integer. -/
theorem breaches_and_float_faults_unreachable :
    (∀ (ts : List Token) (calls : List Call), ∃ (answers : List Answer) (d : Descent),
      ((ofTokens ts).guardedCallAll calls).run = some (.ok (answers, d)) ∧
        (Cursor.ofTokens ts).callAll calls = (answers, (Cursor.ofTokens ts).skip d.taken) ∧
        d.tokens = ts ∧ d.taken ≤ ts.length ∧ d.depth = 0) ∧
    (∀ d : Descent, d.depth = 0 → d.taken ≤ d.tokens.length →
      ∃ (result : Except ParseError Stmt) (d' : Descent),
        d.guardedStatement.run = some (.ok (result, d')) ∧
          d'.tokens = d.tokens ∧ d'.taken ≤ d'.tokens.length ∧ d'.depth = 0 ∧
          ∀ st, result = .ok st → d.taken < d'.taken) ∧
    (∀ (s : String) (ts : List Token), Token.ofSource s = .ok ts →
      ∀ e, Program.ofTokens ts = .error e →
        (∀ l, e.fault ≠ .invalidFloat l) ∧
        ∀ l, e.fault = .integerOutOfRange l →
          ∃ t ∈ ts, t.kind = .integer ∧ t.lexeme = l ∧ t.position = e.position ∧
            l ≠ "" ∧ (∀ c ∈ l.toList, '0' ≤ c ∧ c ≤ '9') ∧
            Int64.maxValue.toInt < digitsValue l.toList) := by
  refine ⟨fun ts calls => ?_, fun d depth within => ?_, fun s ts lexed e fails => ⟨?_, ?_⟩⟩
  · let d := ofTokens ts
    have idle : d.Idle := idle_ofTokens ts
    have after := cursor_after_calls d calls
    refine ⟨_, _, passes_callAll d calls _ (callAll_eq idle calls), ?_, rfl,
      Nat.sub_le .., rfl⟩
    exact Prod.ext rfl after.symm
  · have idle : d.Idle := ⟨depth, rfl, within⟩
    refine ⟨_, _, passes_statement d _ (follows_statement d.last idle), rfl,
      Nat.sub_le .., depth, fun st parsed => ?_⟩
    exact taken_lt_of_statement idle parsed
  · intro l fault
    obtain ⟨t, _, _, rfl, _⟩ := Program.literal_fault_of_source lexed fails (by rw [fault]; trivial)
    cases fault
  · intro l fault
    obtain ⟨t, mem, kind, rfl, numeral⟩ :=
      Program.literal_fault_of_source lexed fails (by rw [fault]; trivial)
    cases fault
    exact ⟨t, mem, kind, rfl, rfl, numeral⟩

/-- The least integer that is out of range, as an operand: the error stands at it. -/
theorem integer_beyond_range_refused : ∃ ts : List Token,
    Token.ofSource "1+9223372036854775808" = .ok ts ∧
      Program.ofTokens ts = .error ⟨.integerOutOfRange "9223372036854775808", ⟨1, 2⟩⟩ ∧
      (∃ t ∈ ts, t.kind = .integer ∧ t.lexeme = "9223372036854775808" ∧ t.position = ⟨1, 2⟩) ∧
      (∃ answers d, ((ofTokens ts).guardedCallAll [.program, .expression]).run =
        some (.ok (answers, d)) ∧ d.depth = 0) ∧
      ∃ result d', (ofTokens ts).guardedStatement.run = some (.ok (result, d')) ∧ d'.depth = 0 := by
  let ts : List Token := [⟨"1", .integer, ⟨1, 0⟩⟩, ⟨"+", .plus, ⟨1, 1⟩⟩,
    ⟨"9223372036854775808", .integer, ⟨1, 2⟩⟩]
  have lexed : Token.ofSource "1+9223372036854775808" = .ok ts := by decide +kernel
  have fails : Program.ofTokens ts =
      .error ⟨.integerOutOfRange "9223372036854775808", ⟨1, 2⟩⟩ := by decide +kernel
  obtain ⟨calls, statements, literals⟩ := breaches_and_float_faults_unreachable
  obtain ⟨answers, d, called, _, _, _, depth⟩ := calls ts [.program, .expression]
  obtain ⟨result, d', parsed, _, _, depth', _⟩ := statements (.ofTokens ts) rfl (Nat.zero_le _)
  obtain ⟨t, mem, kind, lexeme, position, _⟩ := (literals _ ts lexed _ fails).2 _ rfl
  exact ⟨ts, lexed, fails, ⟨t, mem, kind, lexeme, position⟩, ⟨answers, d, called, depth⟩,
    result, d', parsed, depth'⟩

end Descent

end Ember
