import Mathlib.Control.Monad.Basic
import Ember.Proofs.Statement

/-!
# Descending with a counter

A descent is a parser at work: all tokens, how many of them it has taken, and how many operands it
is inside of. It takes tokens one by one, raises the counter when it goes into an operand and lowers
it when it comes out, also with an error. Its functions call one another without any bound, and have
no answer (`none`) where a token or an operator is missing that has to be there, where the counter
would fall below zero, and where they would never end.

Every one of them has an answer, the one that the parser of its name gives to the tokens that are
left, and leaves the counter as it was (`Follows`):

1. `chain_eq`, `follows_tier`: a tier follows the parser of its tier if operands do.
2. `follows_operand`: by induction on the room that the counter leaves, with `signed_eq` for what is
   one level further in.
3. `call_eq`, `callAll_eq`: what is asked of a descent between calls, and hence any number of calls.
-/

namespace Ember

open Grammar

/-- A parser at work. -/
structure Descent where
  tokens : List Token
  /-- How many tokens have been taken. -/
  taken : Nat
  /-- How many operands are being parsed, one inside the other. -/
  depth : Nat

namespace Descent

/-- Before the first token. -/
def ofTokens (ts : List Token) : Descent := ⟨ts, 0, 0⟩

/-! ## Tokens -/

/-- The token that comes next. -/
def next? (d : Descent) : Option Token := d.tokens[d.taken]?

/-- The token taken last. -/
def previous? (d : Descent) : Option Token :=
  if d.taken = 0 then none else d.tokens[d.taken - 1]?

/-- Takes a token, if there is one. -/
def advance (d : Descent) : Descent :=
  if d.taken < d.tokens.length then { d with taken := d.taken + 1 } else d

/-- Whether the next token is of one of the kinds. -/
def nextIs (d : Descent) (kinds : List TokenKind) : Bool := d.next?.any (·.kind ∈ kinds)

/-- The place of the last of all tokens. -/
def last (d : Descent) : Position := (d.tokens.getLast?.map Token.position).getD .start

/-- The place of the next token, or of the last one if there is none. -/
def nextPosition (d : Descent) : Position := (d.next?.map Token.position).getD d.last

/-! ## Operands -/

/-- One operand further in. -/
def enter (d : Descent) : Descent := { d with depth := d.depth + 1 }

/-- One operand further out. -/
def leave? (d : Descent) : Option Descent :=
  if d.depth = 0 then none else some { d with depth := d.depth - 1 }

/-- A value or an error, and the descent after it. -/
abbrev Result (α : Type) : Type := Except ParseError α × Descent

/-- The literal that the token is. -/
def literal (read? : List Char → Option Number) (fault : String → ParseFault) (t : Token)
    (d : Descent) : Option (Result Expr) :=
  match read? t.lexeme.toList with
  | some n => some (.ok (.literal n t.position), d)
  | none => some (.error ⟨fault t.lexeme, t.position⟩, d)

/-- Takes the closing parenthesis after an expression. -/
def close : Result Expr → Option (Result Expr)
  | (.error e, d) => some (.error e, d)
  | (.ok e, d) =>
    if d.nextIs [.rightParen] then some (.ok e, d.advance)
    else some (.error ⟨.parenExpected, d.nextPosition⟩, d)

mutual

/-- An expression with operators of the first `n` tiers. -/
def tier (n : Nat) (d : Descent) : Option (Result Expr) :=
  match n with
  | 0 => d |>.operand
  | n + 1 => do
    match ← d |>.tier n with
    | (.error e, d) => some (.error e, d)
    | (.ok left, d) => d |>.chain n left
partial_fixpoint

/-- The expression that `left` is the beginning of. -/
def chain (n : Nat) (left : Expr) (d : Descent) : Option (Result Expr) :=
  if d.nextIs ((tierAt n).map Prod.fst) then do
    let t ← d.advance.previous?
    let op ← InfixOp.ofKind? t.kind
    match ← d.advance |>.tier n with
    | (.error e, d) => some (.error e, d)
    | (.ok right, d) => d |>.chain n (.binary op left right t.position)
  else
    some (.ok left, d)
partial_fixpoint

/-- An operand, unless there are too many around it. The counter is lowered after an error too. -/
def operand (d : Descent) : Option (Result Expr) :=
  if maxNesting ≤ d.depth then some (.error ⟨.nestedTooDeeply, d.nextPosition⟩, d)
  else do
    let (result, d) ← d.enter |>.signed
    let d ← d.leave?
    some (result, d)
partial_fixpoint

/-- A prefix operator and its operand, or an operand without one. -/
def signed (d : Descent) : Option (Result Expr) :=
  match d.next?.bind fun t => PrefixOp.ofKind? t.kind with
  | some op => do
    let t ← d.advance.previous?
    let (result, d) ← d.advance |>.operand
    some (result.map (.unary op · t.position), d)
  | none => d |>.primary
partial_fixpoint

/-- A literal or an expression in parentheses. -/
def primary (d : Descent) : Option (Result Expr) :=
  match d.next? with
  | none => some (.error ⟨.unexpectedEnd, d.last⟩, d)
  | some t =>
    match t.kind with
    | .integer => literal (fun cs => (readInt64? cs).map .int) .integerOutOfRange t d.advance
    | .float => literal (fun cs => (Decimal.readBinary64? cs).map .float) .invalidFloat t d.advance
    | .leftParen => do close (← d.advance |>.tier InfixOp.tierCount)
    | kind => some (.error ⟨.unknownPrimary kind, t.position⟩, d)
partial_fixpoint

end

/-! ## Statements -/

/-- An expression. -/
def expression (d : Descent) : Option (Result Expr) := tier InfixOp.tierCount d

/-- One expression up to the end, or nothing if there is no token left. -/
def ast (d : Descent) : Option (Result Ast) :=
  if d.next? = none then some (.ok .empty, d)
  else do
    match ← d.expression with
    | (.error e, d) => some (.error e, d)
    | (.ok e, d) =>
      match d.next? with
      | none => some (.ok ⟨some e⟩, d)
      | some t => some (.error ⟨.trailingToken t.kind, t.position⟩, d)

/-- A statement without its semicolon. -/
def statement (d : Descent) : Option (Result Stmt) :=
  if d.nextIs [.keyword .print_] then do
    let t ← d.advance.previous?
    let (result, d) ← d.advance.expression
    some (result.map (.print · t.position), d)
  else do
    let (result, d) ← d.expression
    some (result.map .expr, d)

/-- Takes a semicolon, if one comes next. -/
def skipSemicolon (d : Descent) : Descent := if d.nextIs [.semicolon] then d.advance else d

/-- Statements up to the end. -/
def statements (d : Descent) : Option (Result (List Stmt)) :=
  if d.next? = none then some (.ok [], d)
  else do
    match ← d.statement with
    | (.error e, d) => some (.error e, d)
    | (.ok s, d) =>
      let (result, d) ← d.skipSemicolon |>.statements
      some (result.map (s :: ·), d)
partial_fixpoint

/-- A program up to the end. -/
def program (d : Descent) : Option (Result Program) := do
  let (result, d) ← d.statements
  some (result.map Program.mk, d)

end Descent

/-! ## Calls -/

/-- What a parser can be asked for. -/
inductive Call where
  | expression
  | ast
  | program
deriving DecidableEq

/-- What a parser is asked for and says. -/
inductive Answer where
  | expression (result : Except ParseError Expr)
  | ast (result : Except ParseError Ast)
  | program (result : Except ParseError Program)
deriving DecidableEq

/-- What is said of no tokens, when the last one taken stood at `last`. -/
def Call.atEnd (last : Position) : Call → Answer
  | expression => .expression (.error ⟨.unexpectedEnd, last⟩)
  | ast => .ast (.ok .empty)
  | program => .program (.ok .empty)

theorem Parser.statements_suffix (last : Position) (ts : List Token) :
    (statements last ts).left <:+ ts := by
  fun_induction statements last ts with
  | case1 => exact List.suffix_rfl
  | case2 ts _ r err fails => exact (statement last).left_suffix ts
  | case3 ts _ r st ok _ ih =>
    exact ih.trans ((skipSemicolon_suffix r.left).trans ((statement last).left_suffix ts))

namespace Cursor

/-- The answer to a call, and the cursor after it. -/
def call (c : Cursor) : Call → Answer × Cursor
  | .expression => (.expression c.expression.1, c.expression.2)
  | .ast => (.ast c.ast.1, c.ast.2)
  | .program => (.program c.program.1, c.program.2)

/-- The answers to calls one after the other, and the cursor after them. -/
def callAll (c : Cursor) : List Call → List Answer × Cursor
  | [] => ([], c)
  | q :: qs => (((c.call q).2.callAll qs).1.cons (c.call q).1, ((c.call q).2.callAll qs).2)

theorem finish_left (r : Reply Expr) : (finish r).left = r.left := by
  unfold finish
  split
  · rfl
  · next left => exact left.symm
  · next left => exact left.symm

theorem call_last (c : Cursor) (q : Call) : (c.call q).2.last = c.last := by
  cases q with
  | ast =>
    rw [call, ast]
    split <;> rfl
  | expression | program => rfl

theorem call_suffix (c : Cursor) (q : Call) : (c.call q).2.left <:+ c.left := by
  cases q with
  | expression => exact (Parser.expression c.last).left_suffix c.left
  | ast =>
    rw [call, ast]
    split
    · exact List.suffix_rfl
    · dsimp only [after]
      rw [finish_left]
      exact (Parser.expression c.last).left_suffix c.left
  | program => exact Parser.statements_suffix c.last c.left

theorem call_nil (last : Position) (q : Call) :
    (Cursor.mk [] last).call q = (q.atEnd last, ⟨[], last⟩) := by
  cases q with
  | expression => rfl
  | ast => rfl
  | program =>
    rw [call, program, Parser.statements, if_pos rfl]
    rfl

theorem callAll_last (c : Cursor) (qs : List Call) : (c.callAll qs).2.last = c.last := by
  induction qs generalizing c with
  | nil => rfl
  | cons q qs ih => exact (ih (c.call q).2).trans (c.call_last q)

theorem callAll_suffix (c : Cursor) (qs : List Call) : (c.callAll qs).2.left <:+ c.left := by
  induction qs generalizing c with
  | nil => exact List.suffix_rfl
  | cons q qs ih => exact (ih (c.call q).2).trans (c.call_suffix q)

end Cursor

namespace Descent

/-- The answer to a call, and the descent after it. -/
def call (d : Descent) : Call → Option (Answer × Descent)
  | .expression => d.expression.map fun (r, d) => (.expression r, d)
  | .ast => d.ast.map fun (r, d) => (.ast r, d)
  | .program => d.program.map fun (r, d) => (.program r, d)

/-- The answers to calls one after the other, and the descent after them. -/
def callAll (d : Descent) : List Call → Option (List Answer × Descent)
  | [] => some ([], d)
  | q :: qs => do
    let (answer, d) ← d.call q
    let (answers, d) ← d.callAll qs
    some (answer :: answers, d)

/-! ## What is left -/

/-- The tokens that are left. -/
def rest (d : Descent) : List Token := d.tokens.drop d.taken

/-- The descent as it is when the tokens `ts` are left. -/
def leaving (d : Descent) (ts : List Token) : Descent :=
  { d with taken := d.tokens.length - ts.length }

/-- The descent is at the given depth, its last token stands at the given place, and it has not
taken more tokens than there are. -/
structure At (d : Descent) (depth : Nat) (last : Position) : Prop where
  depth : d.depth = depth
  last : d.last = last
  within : d.taken ≤ d.tokens.length

section

variable {d : Descent} {depth : Nat} {last : Position} {t : Token} {ts us : List Token}

theorem At.leaving (h : d.At depth last) (ts : List Token) : (d.leaving ts).At depth last :=
  ⟨h.depth, h.last, Nat.sub_le ..⟩

theorem At.leaving_eq (h : d.At depth last) (left : d.rest = ts) : d.leaving ts = d := by
  have taken : d.tokens.length - ts.length = d.taken := by
    rw [← left, rest, List.length_drop, Nat.sub_sub_self h.within]
  rw [Descent.leaving, taken]

theorem rest_leaving (left : d.rest = ts) (h : us <:+ ts) : (d.leaving us).rest = us := by
  have all : us <:+ d.tokens := (left ▸ h).trans (List.drop_suffix ..)
  exact (List.suffix_iff_eq_drop.1 all).symm

theorem next?_eq (left : d.rest = ts) : d.next? = ts.head? := by
  rw [next?, ← left, rest, List.head?_drop]

theorem nextIs_nil (left : d.rest = []) (kinds : List TokenKind) : d.nextIs kinds = false := by
  rw [nextIs, next?_eq left]
  rfl

theorem nextIs_cons (left : d.rest = t :: ts) (kinds : List TokenKind) :
    d.nextIs kinds = decide (t.kind ∈ kinds) := by
  rw [nextIs, next?_eq left]
  rfl

theorem nextPosition_eq (left : d.rest = ts) :
    d.nextPosition = Parser.nextPosition d.last ts := by
  rw [nextPosition, next?_eq left]
  cases ts <;> rfl

theorem advance_eq (left : d.rest = t :: ts) : d.advance = d.leaving ts := by
  have length := congrArg List.length left
  rw [rest, List.length_drop, List.length_cons] at length
  have taken : d.tokens.length - ts.length = d.taken + 1 := by omega
  rw [advance, if_pos (by omega), leaving, taken]

theorem previous?_leaving (left : d.rest = t :: ts) : (d.leaving ts).previous? = some t := by
  have length := congrArg List.length left
  rw [rest, List.length_drop, List.length_cons] at length
  rw [← advance_eq left, advance, if_pos (by omega), previous?, if_neg (Nat.succ_ne_zero _)]
  exact next?_eq left

end

/-! ## Following a parser -/

/-- The result of a reply, and the descent when the tokens of the reply are left. -/
def reply {α : Type} (d : Descent) (r : Reply α) : Result α := (r.result, d.leaving r.left)

/-- At the given depth, a function of descents has an answer, which is the reply to the tokens that
are left. Nothing but the number of tokens taken is changed. -/
def Follows {α : Type} (step : Descent → Option (Result α)) (depth : Nat) (last : Position)
    (run : List Token → Reply α) : Prop :=
  ∀ ⦃d⦄, d.At depth last → step d = some (d.reply (run d.rest))

section

variable {depth : Nat} {last : Position} {d : Descent} {t : Token} {ts : List Token}

theorem Follows.eq {α : Type} {step : Descent → Option (Result α)} {run : List Token → Reply α}
    (follows : Follows step depth last run) (h : d.At depth last) (left : d.rest = ts) :
    step d = some ((run ts).result, d.leaving (run ts).left) := by
  rw [follows h, left]
  rfl

/-- What follows a parser goes on after one token as the parser does. -/
theorem Follows.eq_leaving {α : Type} {step : Descent → Option (Result α)}
    {run : List Token → Reply α}
    (follows : Follows step depth last run) (h : d.At depth last) (left : d.rest = t :: ts) :
    step (d.leaving ts) = some ((run ts).result, d.leaving (run ts).left) :=
  follows.eq (h.leaving ts) (rest_leaving left (List.suffix_cons t ts))

end

/-! ## Tiers -/

section

variable {depth : Nat} {last : Position} {p : Parser Expr}

theorem chain_of_nil {n : Nat} {d : Descent} (left : d.rest = []) (e : Expr) :
    chain n e d = some (.ok e, d) := by
  rw [chain, nextIs_nil left, if_neg Bool.false_ne_true]

theorem chain_of_none {n : Nat} {d : Descent} {t : Token} {ts : List Token}
    (left : d.rest = t :: ts) (none : InfixOp.ofKindInTier? n t.kind = none) (e : Expr) :
    chain n e d = some (.ok e, d) := by
  have other : t.kind ∉ (tierAt n).map Prod.fst := by
    intro mem
    obtain ⟨⟨_, op⟩, sign, kind⟩ := List.mem_map.1 mem
    rw [← kind] at none
    exact ofKindInTier?_eq_none_iff.1 none op sign
  rw [chain, nextIs_cons left, decide_eq_false other, if_neg Bool.false_ne_true]

theorem chain_of_some {n : Nat} {d : Descent} {t : Token} {ts : List Token} {op : InfixOp}
    (left : d.rest = t :: ts) (some : InfixOp.ofKindInTier? n t.kind = some op) (e : Expr) :
    chain n e d = (tier n (d.leaving ts)).bind fun
      | (.error err, d) => .some (.error err, d)
      | (.ok r, d) => chain n (.binary op e r t.position) d := by
  have sign := ofKindInTier?_eq_some_iff.1 some
  have kind : t.kind ∈ (tierAt n).map Prod.fst := List.mem_map_of_mem sign
  rw [chain, nextIs_cons left, decide_eq_true kind, if_pos rfl, advance_eq left,
    previous?_leaving left]
  simp only [Option.bind_eq_bind, Option.bind_some, (mem_tierAt_iff.1 sign).1]

theorem chain_eq {n : Nat} (follows : Follows (tier n) depth last p.run) (e : Expr)
    (ts : List Token) (d : Descent) (h : d.At depth last) (left : d.rest = ts) :
    chain n e d = some (d.reply (Parser.chain (InfixOp.ofKindInTier? n) p e ts)) := by
  fun_induction Parser.chain (InfixOp.ofKindInTier? n) p e ts generalizing d with
  | case1 e => rw [chain_of_nil left, reply, h.leaving_eq left]
  | case2 e t ts none => rw [chain_of_none left none, reply, h.leaving_eq left]
  | case3 e t ts op some r err fails =>
    rw [chain_of_some left some, follows.eq_leaving h left, Option.bind_some, fails]
    rfl
  | case4 e t ts op some r right ok _ ih =>
    have tail := rest_leaving left ((p.left_suffix ts).trans (List.suffix_cons t ts))
    rw [chain_of_some left some, follows.eq_leaving h left, Option.bind_some, ok]
    exact ih _ (h.leaving _) tail

theorem follows_tier (follows : Follows operand depth last p.run) (n : Nat) :
    Follows (tier n) depth last (Parser.tiers p n).run := by
  induction n with
  | zero =>
    intro d h
    rw [tier]
    exact follows h
  | succ n ih =>
    intro d h
    rw [tier, ih.eq h rfl, Option.bind_eq_bind, Option.bind_some]
    simp only [Parser.tiers, Parser.leftAssoc]
    cases ((Parser.tiers p n).run d.rest).result with
    | error e => rfl
    | ok e =>
      have left := rest_leaving rfl ((Parser.tiers p n).left_suffix d.rest)
      exact chain_eq ih e _ _ (h.leaving _) left

/-! ## Operands -/

theorem signed_of_sign {d : Descent} {t : Token} {ts : List Token} {op : PrefixOp}
    (left : d.rest = t :: ts) (sign : (t.kind, op) ∈ prefixes) :
    signed d = (operand (d.leaving ts)).bind fun (result, d) =>
      some (result.map (.unary op · t.position), d) := by
  rw [signed, next?_eq left, advance_eq left, previous?_leaving left]
  simp only [List.head?_cons, Option.bind_some, prefixOfKind?_eq_some_iff.2 sign,
    Option.bind_eq_bind]

theorem signed_eq_primary {d : Descent} {t : Token} {ts : List Token} (left : d.rest = t :: ts)
    (other : PrefixOp.ofKind? t.kind = none) : signed d = primary d := by
  rw [signed, next?_eq left]
  simp only [List.head?_cons, Option.bind_some, other]

theorem signed_of_integer {d : Descent} {t : Token} {ts : List Token} (left : d.rest = t :: ts)
    (kind : t.kind = .integer) : signed d =
      literal (fun cs => (readInt64? cs).map .int) .integerOutOfRange t (d.leaving ts) := by
  rw [signed_eq_primary left (by rw [kind]; rfl), primary, next?_eq left, advance_eq left]
  simp only [List.head?_cons, kind]

theorem signed_of_float {d : Descent} {t : Token} {ts : List Token} (left : d.rest = t :: ts)
    (kind : t.kind = .float) : signed d =
      literal (fun cs => (Decimal.readBinary64? cs).map .float) .invalidFloat t (d.leaving ts) := by
  rw [signed_eq_primary left (by rw [kind]; rfl), primary, next?_eq left, advance_eq left]
  simp only [List.head?_cons, kind]

theorem signed_of_leftParen {d : Descent} {t : Token} {ts : List Token} (left : d.rest = t :: ts)
    (kind : t.kind = .leftParen) :
    signed d = (tier infixTiers.length (d.leaving ts)).bind close := by
  rw [signed_eq_primary left (by rw [kind]; rfl), primary, next?_eq left, advance_eq left]
  simp only [List.head?_cons, kind]
  rfl

theorem signed_of_other {d : Descent} {t : Token} {ts : List Token} (left : d.rest = t :: ts)
    (kind : t.kind ∉ starters) :
    signed d = some (.error ⟨.unknownPrimary t.kind, t.position⟩, d) := by
  have other : PrefixOp.ofKind? t.kind = none := by
    rw [Option.eq_none_iff_forall_ne_some]
    intro op some
    have sign := prefixOfKind?_eq_some_iff.1 some
    exact kind (List.mem_append_right _ (List.mem_map_of_mem sign))
  rw [signed_eq_primary left other, primary, next?_eq left]
  dsimp only [List.head?_cons]
  split
  · next e => rw [e] at kind; exact absurd (by decide) kind
  · next e => rw [e] at kind; exact absurd (by decide) kind
  · next e => rw [e] at kind; exact absurd (by decide) kind
  · rfl

theorem signed_of_nil {d : Descent} (left : d.rest = []) :
    signed d = some (.error ⟨.unexpectedEnd, d.last⟩, d) := by
  rw [signed, next?_eq left]
  dsimp only [List.head?_nil, Option.bind_none]
  rw [primary, next?_eq left]
  rfl

theorem literal_eq (read? : List Char → Option Number) (fault : String → ParseFault) (t : Token)
    (ts : List Token) (d : Descent) :
    literal read? fault t (d.leaving ts) = some (d.reply (Parser.literal read? fault t ts)) := by
  unfold literal Parser.literal
  cases read? t.lexeme.toList <;> rfl

theorem close_eq {d : Descent} {r : Reply Expr} (h : d.At depth last) (suffix : r.left <:+ d.rest) :
    close (d.reply r) = some (d.reply (Parser.closeParen last r)) := by
  obtain ⟨result, ts⟩ := r
  have left := rest_leaving rfl suffix
  cases result with
  | error e => rfl
  | ok e =>
    dsimp only [reply, close]
    cases ts with
    | nil =>
      rw [nextIs_nil left, nextPosition_eq left, if_neg Bool.false_ne_true, (h.leaving []).last]
      rfl
    | cons t ts =>
      rw [nextIs_cons left, nextPosition_eq left, advance_eq left]
      simp only [Parser.closeParen, List.mem_singleton, decide_eq_true_eq]
      split <;> rfl

/-- What stands one level further in: nothing but the counter tells the levels apart. -/
theorem signed_eq {d : Descent} (follows : Follows operand depth last p.run)
    (h : d.At depth last) :
    signed d = some (d.reply ((Parser.operandOver last p).run d.rest)) := by
  cases left : d.rest with
  | nil =>
    rw [signed_of_nil left, h.last, reply, Parser.operandOver, h.leaving_eq left]
  | cons t ts =>
    show _ = some (d.reply (Parser.operandFrom last p t ts))
    by_cases start : t.kind ∈ starters
    · rcases Parser.starters_cases start with ⟨op, sign⟩ | kind | kind | kind
      · rw [signed_of_sign left sign, follows.eq_leaving h left, Parser.operandFrom_unary sign]
        rfl
      · rw [signed_of_integer left kind, Parser.operandFrom_integer kind, literal_eq]
      · rw [signed_of_float left kind, Parser.operandFrom_float kind, literal_eq]
      · have inside := (follows_tier follows infixTiers.length).eq_leaving h left
        have suffix := ((Parser.tiers p infixTiers.length).left_suffix ts).trans
          (List.suffix_cons t ts)
        rw [← left] at suffix
        rw [signed_of_leftParen left kind, Parser.operandFrom_leftParen kind, inside,
          Option.bind_some]
        exact close_eq h suffix
    · rw [signed_of_other left start, Parser.operandFrom_other start, reply, h.leaving_eq left]

theorem follows_operand (last : Position) (room depth : Nat) (all : depth + room = maxNesting) :
    Follows operand depth last (Parser.operand last room).run := by
  induction room generalizing depth with
  | zero =>
    intro d h
    have full : maxNesting ≤ d.depth := by rw [h.depth, ← all]; exact Nat.le_refl _
    rw [operand, if_pos full, nextPosition_eq rfl, h.last, Parser.operand, Parser.tooDeep, reply,
      h.leaving_eq rfl]
  | succ room ih =>
    intro d h
    have free : ¬ maxNesting ≤ d.depth := by rw [h.depth]; omega
    have inner : d.enter.At (depth + 1) last := ⟨congrArg (· + 1) h.depth, h.last, h.within⟩
    -- the counter is one higher inside, and as it was when the operand is left
    rw [operand, if_neg free, signed_eq (ih (depth + 1) (by omega)) inner]
    rfl

end

/-! ## Statements -/

theorem follows_expression (last : Position) :
    Follows expression 0 last (Parser.expression last).run :=
  follows_tier (follows_operand last maxNesting 0 (Nat.zero_add _)) InfixOp.tierCount

section

variable {last : Position} {d : Descent}

theorem next?_eq_none_iff (d : Descent) : d.next? = none ↔ d.rest = [] := by
  rw [next?_eq rfl, List.head?_eq_none_iff]

theorem follows_statement (last : Position) :
    Follows statement 0 last (Parser.statement last).run := by
  intro d h
  have follows := follows_expression last
  cases left : d.rest with
  | nil =>
    rw [statement, nextIs_nil left, if_neg Bool.false_ne_true, follows.eq h left]
    rfl
  | cons t ts =>
    rw [statement, nextIs_cons left, advance_eq left, previous?_leaving left,
      follows.eq_leaving h left, follows.eq h left]
    simp only [List.mem_singleton, decide_eq_true_eq, Parser.statement]
    split <;> rfl

theorem skipSemicolon_eq (h : d.At 0 last) {ts : List Token} (left : d.rest = ts) :
    d.skipSemicolon = d.leaving (Parser.skipSemicolon ts) := by
  cases ts with
  | nil =>
    rw [skipSemicolon, nextIs_nil left, if_neg Bool.false_ne_true, Parser.skipSemicolon,
      h.leaving_eq left]
  | cons t ts =>
    rw [skipSemicolon, nextIs_cons left, advance_eq left, Parser.skipSemicolon]
    simp only [List.mem_singleton, decide_eq_true_eq]
    split
    · rfl
    · rw [h.leaving_eq left]

theorem statements_eq (ts : List Token) (d : Descent) (h : d.At 0 last) (left : d.rest = ts) :
    d.statements = some (d.reply (Parser.statements last ts)) := by
  have follows := follows_statement last
  fun_induction Parser.statements last ts generalizing d with
  | case1 => rw [statements, if_pos ((next?_eq_none_iff d).2 left), reply, h.leaving_eq left]
  | case2 ts ne r err fails =>
    have more : d.next? ≠ none := by rwa [ne_eq, next?_eq_none_iff, left]
    rw [statements, if_neg more, follows.eq h left, fails]
    rfl
  | case3 ts ne r st ok _ ih =>
    have more : d.next? ≠ none := by rwa [ne_eq, next?_eq_none_iff, left]
    have after := rest_leaving left ((Parser.statement last).left_suffix ts)
    have next := rest_leaving after (Parser.skipSemicolon_suffix _)
    rw [statements, if_neg more, follows.eq h left, ok]
    dsimp only [Option.bind_eq_bind, Option.bind_some]
    rw [skipSemicolon_eq (h.leaving _) after, ih _ ((h.leaving _).leaving _) next]
    rfl

end

/-! ## Between calls -/

/-- The cursor before the tokens that are left. -/
def cursor (d : Descent) : Cursor := ⟨d.rest, d.last⟩

/-- Between calls, a descent is inside of no operand. -/
abbrev Idle (d : Descent) : Prop := d.At 0 d.last

theorem idle_ofTokens (ts : List Token) : (ofTokens ts).Idle := ⟨rfl, rfl, Nat.zero_le _⟩

section

variable {d : Descent}

theorem ast_eq (h : d.Idle) : d.ast = some (d.cursor.ast.1, d.leaving d.cursor.ast.2.left) := by
  by_cases empty : d.rest = []
  · rw [ast, if_pos ((next?_eq_none_iff d).2 empty), Cursor.ast,
      if_pos (show d.cursor.left = [] from empty)]
    show some (Except.ok Ast.empty, d) = some (.ok .empty, d.leaving d.rest)
    rw [h.leaving_eq rfl]
  · have after := rest_leaving (d := d) rfl ((Parser.expression d.last).left_suffix d.rest)
    rw [ast, if_neg (mt (next?_eq_none_iff d).1 empty), (follows_expression d.last).eq h rfl,
      Cursor.ast, if_neg (show d.cursor.left ≠ [] from empty)]
    dsimp only [cursor, Option.bind_eq_bind, Option.bind_some]
    -- from here on only the reply counts, and what it leaves
    generalize (Parser.expression d.last).run d.rest = r at after
    obtain ⟨result, ts⟩ := r
    cases result with
    | error e => rfl
    | ok e =>
      dsimp only at after ⊢
      rw [next?_eq after]
      cases ts <;> rfl

/-- A call has an answer, that of the cursor before the tokens that are left. -/
theorem call_eq (h : d.Idle) (q : Call) :
    d.call q = some ((d.cursor.call q).1, d.leaving (d.cursor.call q).2.left) := by
  cases q with
  | expression =>
    rw [call, (follows_expression d.last).eq h rfl]
    rfl
  | ast =>
    rw [call, ast_eq h]
    rfl
  | program =>
    rw [call, program, statements_eq _ d h rfl]
    rfl

theorem cursor_leaving {c : Cursor} (suffix : c.left <:+ d.rest) (last : c.last = d.last) :
    (d.leaving c.left).cursor = c := by
  rw [cursor, rest_leaving rfl suffix, show (d.leaving c.left).last = c.last from last.symm]

theorem cursor_after_call (d : Descent) (q : Call) :
    (d.leaving (d.cursor.call q).2.left).cursor = (d.cursor.call q).2 :=
  cursor_leaving (d.cursor.call_suffix q) (d.cursor.call_last q)

theorem cursor_after_calls (d : Descent) (qs : List Call) :
    (d.leaving (d.cursor.callAll qs).2.left).cursor = (d.cursor.callAll qs).2 :=
  cursor_leaving (d.cursor.callAll_suffix qs) (d.cursor.callAll_last qs)

/-- Any number of calls have answers, those of the cursor before the tokens that are left. -/
theorem callAll_eq (h : d.Idle) (qs : List Call) :
    d.callAll qs = some ((d.cursor.callAll qs).1, d.leaving (d.cursor.callAll qs).2.left) := by
  induction qs generalizing d with
  | nil =>
    show some ([], d) = some ([], d.leaving d.rest)
    rw [h.leaving_eq rfl]
  | cons q qs ih =>
    rw [callAll, call_eq h]
    dsimp only [Option.bind_eq_bind, Option.bind_some]
    rw [ih (h.leaving _), cursor_after_call]
    rfl

theorem taken_le_call (h : d.Idle) (q : Call) :
    d.taken ≤ (d.leaving (d.cursor.call q).2.left).taken := by
  have le := (d.cursor.call_suffix q).length_le
  have left : d.cursor.left.length = d.tokens.length - d.taken := List.length_drop
  have within := h.within
  show d.taken ≤ d.tokens.length - (d.cursor.call q).2.left.length
  omega

/-- A fresh descent over the tokens that are left, if there are any, has the same answer. -/
theorem call_fresh (more : d.taken < d.tokens.length) (q : Call) :
    ∃ f, (ofTokens d.rest).call q = some ((d.cursor.call q).1, f) ∧
      (d.leaving (d.cursor.call q).2.left).taken = d.taken + f.taken := by
  -- only with tokens left is the last of them the last of all
  have last : (ofTokens d.rest).last = d.last := by
    rw [Descent.last, ofTokens, rest, List.getLast?_drop, if_neg (Nat.not_le.2 more)]
    rfl
  have same : (ofTokens d.rest).cursor = d.cursor := by
    rw [cursor, last]
    rfl
  have fresh := call_eq (idle_ofTokens d.rest) q
  rw [same] at fresh
  refine ⟨_, fresh, ?_⟩
  have le := (d.cursor.call_suffix q).length_le
  have left : d.cursor.left.length = d.tokens.length - d.taken := List.length_drop
  show d.tokens.length - _ = d.taken + (d.cursor.left.length - _)
  omega

theorem call_at_end (h : d.Idle) (all : d.taken = d.tokens.length) (q : Call) :
    d.call q = some (q.atEnd d.last, d) := by
  have empty : d.rest = [] := List.drop_eq_nil_of_le (Nat.le_of_eq all.symm)
  rw [call_eq h, cursor, empty, Cursor.call_nil, h.leaving_eq empty]

end

/-- After any calls, the counter of a descent is zero and no more tokens have been taken than there
are, and whatever it is asked for next, it has an answer: that of a fresh descent over the tokens
that are left, if there are any, and takes as many tokens as that one takes. With no tokens left,
there is nothing to parse, and an expression ends too early at the place of the last token. All its
answers are those of a cursor over the tokens. -/
theorem usable_after_any_calls (ts : List Token) (before : List Call) (q : Call) :
    ∃ (answers : List Answer) (d : Descent) (answer : Answer) (d' : Descent),
      (ofTokens ts).callAll before = some (answers, d) ∧ d.call q = some (answer, d') ∧
      (Cursor.ofTokens ts).callAll before = (answers, (Cursor.ofTokens ts).skip d.taken) ∧
      ((Cursor.ofTokens ts).skip d.taken).call q = (answer, (Cursor.ofTokens ts).skip d'.taken) ∧
      d.depth = 0 ∧ d'.depth = 0 ∧ d.taken ≤ d'.taken ∧ d'.taken ≤ ts.length ∧
      (d.taken < ts.length → ∃ f, (ofTokens (ts.drop d.taken)).call q = some (answer, f) ∧
        d'.taken = d.taken + f.taken) ∧
      (d.taken = ts.length →
        answer = q.atEnd ((ts.getLast?.map Token.position).getD ⟨1, 0⟩) ∧ d' = d) := by
  let c := Cursor.ofTokens ts
  let d := (ofTokens ts).leaving (c.callAll before).2.left
  have idle : d.Idle := (idle_ofTokens ts).leaving _
  have cursor : d.cursor = (c.callAll before).2 := cursor_after_calls (ofTokens ts) before
  refine ⟨_, d, _, _, callAll_eq (idle_ofTokens ts) before, call_eq idle q, ?_, ?_, rfl, rfl,
    taken_le_call idle q, Nat.sub_le .., fun more => call_fresh more q, fun all => ?_⟩
  · exact Prod.ext rfl cursor.symm
  · exact Prod.ext rfl (cursor_after_call d q).symm
  · have ends := (call_eq idle q).symm.trans (call_at_end idle all q)
    obtain ⟨answer, after⟩ := Prod.mk.inj (Option.some.inj ends)
    exact ⟨answer, after⟩

/-- A number after 256 opening parentheses: it stands too deep for the first call, which leaves it
where it is, and the second call takes it, as a fresh descent over the number alone does. -/
theorem number_taken_after_refusal : ∃ (ts : List Token) (d d' f : Descent),
    ts = List.replicate 256 ⟨"(", .leftParen, ⟨1, 0⟩⟩ ++ [⟨"1", .integer, ⟨1, 256⟩⟩] ∧
      (ofTokens ts).callAll [.expression] =
        some ([.expression (.error ⟨.nestedTooDeeply, ⟨1, 256⟩⟩)], d) ∧
      d.taken = 256 ∧ d.depth = 0 ∧
      d.call .expression = some (.expression (.ok (.literal (.int 1) ⟨1, 256⟩)), d') ∧
      d'.taken = 257 ∧ d'.depth = 0 ∧
      (ofTokens [⟨"1", .integer, ⟨1, 256⟩⟩]).call .expression =
        some (.expression (.ok (.literal (.int 1) ⟨1, 256⟩)), f) ∧ f.taken = 1 := by
  let ts : List Token :=
    List.replicate 256 ⟨"(", .leftParen, ⟨1, 0⟩⟩ ++ [⟨"1", .integer, ⟨1, 256⟩⟩]
  have length : ts.length = 257 := by
    rw [List.length_append, List.length_replicate, List.length_singleton]
  have first : ((Cursor.ofTokens ts).callAll [.expression]).1 =
      [.expression (.error ⟨.nestedTooDeeply, ⟨1, 256⟩⟩)] ∧
      ((Cursor.ofTokens ts).callAll [.expression]).2.left.length = 1 := by decide +kernel
  have second : (((Cursor.ofTokens ts).skip 256).call .expression).1 =
      .expression (.ok (.literal (.int 1) ⟨1, 256⟩)) ∧
      (((Cursor.ofTokens ts).skip 256).call .expression).2.left.length = 0 := by decide +kernel
  obtain ⟨answers, d, answer, d', calls, call, same, same', depth, depth', le, le', fresh, _⟩ :=
    usable_after_any_calls ts [.expression] .expression
  have left (k : Nat) : ((Cursor.ofTokens ts).skip k).left.length = ts.length - k :=
    List.length_drop
  rw [same, left] at first
  have taken : d.taken = 256 := by
    clear fresh
    omega
  rw [taken] at same' fresh
  rw [same', left] at second
  obtain ⟨f, called, further⟩ := fresh (by rw [length]; decide)
  clear fresh
  obtain rfl := first.1
  obtain rfl := second.1
  exact ⟨ts, d, d', f, rfl, calls, taken, depth, call, by omega, depth', called, by omega⟩

end Descent

end Ember
