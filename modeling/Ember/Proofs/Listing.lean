import Mathlib.Control.Monad.Basic
import Ember.Evaluation
import Ember.Proofs.Statement

/-!
# Programs in the order of their tokens

The items of a program are what it says from left to right: the word `print`, signs and numbers,
each with its place. Parentheses and semicolons leave no item behind, and nothing else of the tokens
of a program is lost or moved (`listed_of_segmented`).

An operator without a result is an item of the program (`isAt_of_executeFrom`), so that the
place of a runtime error is the place of a token, and its kind is the kind that the error is about.
-/

namespace Ember

/-! ## Items -/

/-- What a token of a program stands for. -/
inductive Content where
  | print
  | sign (symbol : String)
  | number (value : Number)
deriving DecidableEq

/-- A word, a sign or a number, and its place. -/
structure Item where
  content : Content
  position : Position
deriving DecidableEq

/-- The items of an expression: a prefix operator stands before its operand and an infix operator
between its operands. -/
def Expr.items : Expr → List Item
  | literal n p => [⟨.number n, p⟩]
  | unary op e p => ⟨.sign op.symbol, p⟩ :: e.items
  | binary op l r p => l.items ++ ⟨.sign op.symbol, p⟩ :: r.items

/-- The items of a statement, the word `print` first. -/
def Stmt.items : Stmt → List Item
  | expr e => e.items
  | print e p => ⟨.print, p⟩ :: e.items

/-- The items of a program, one statement after the other. -/
def Program.items (p : Program) : List Item := p.statements.flatMap Stmt.items

/-! ## Tokens -/

/-- The kinds of token that are an operator, and how they are written. -/
def signs : List (TokenKind × String) :=
  [(.plus, "+"), (.minus, "-"), (.star, "*"), (.slash, "/"), (.percent, "%"), (.ampersand, "&"),
    (.pipe, "|"), (.caret, "^"), (.tilde, "~"), (.bang, "!"), (.bangEqual, "!="),
    (.equalEqual, "=="), (.greater, ">"), (.greaterEqual, ">="), (.greaterGreater, ">>"),
    (.less, "<"), (.lessEqual, "<="), (.lessLess, "<<")]

/-- The kinds of token that are an operator on the bits of integers. -/
def bitwiseKinds : List TokenKind :=
  [.ampersand, .pipe, .caret, .lessLess, .greaterGreater, .tilde]

namespace Token

/-- The item that a token is. -/
def item? (t : Token) : Option Item :=
  match t.kind with
  | .keyword .print_ => some ⟨.print, t.position⟩
  | .integer => (readInt64? t.lexeme.toList).map fun i => ⟨.number (.int i), t.position⟩
  | .float => (Decimal.readBinary64? t.lexeme.toList).map fun x => ⟨.number (.float x), t.position⟩
  | k => (signs.lookup k).map fun s => ⟨.sign s, t.position⟩

/-- Whether the token is neither a parenthesis nor a semicolon. -/
def isListed (t : Token) : Bool := t.kind ∉ [.leftParen, .rightParen, .semicolon]

/-- The items of the tokens, parentheses and semicolons left out. -/
def listed (ts : List Token) : List (Option Item) := (ts.filter isListed).map item?

theorem listed_append (ts us : List Token) : listed (ts ++ us) = listed ts ++ listed us := by
  simp only [listed, List.filter_append, List.map_append]

theorem listed_cons_of_unlisted {t : Token} (h : t.isListed = false) (ts : List Token) :
    listed (t :: ts) = listed ts := by
  rw [listed, List.filter_cons_of_neg (by rw [h]; decide), listed]

theorem listed_cons_of_item {t : Token} {i : Item} (h : t.isListed = true) (item : t.item? = some i)
    (ts : List Token) : listed (t :: ts) = some i :: listed ts := by
  rw [listed, List.filter_cons_of_pos h, List.map_cons, item, listed]

theorem mem_of_mem_listed {ts : List Token} {i : Item} (h : some i ∈ listed ts) :
    ∃ t ∈ ts, t.item? = some i := by
  obtain ⟨t, mem, item⟩ := List.mem_map.1 h
  exact ⟨t, (List.mem_filter.1 mem).1, item⟩

theorem mem_signs_of_lookup {k : TokenKind} {s : String} (h : signs.lookup k = some s) :
    (k, s) ∈ signs := by
  obtain ⟨l, r, split, _⟩ := List.lookup_eq_some_iff.1 h
  rw [split]
  exact List.mem_append_right l (List.mem_cons_self ..)

/-- An operator is written as itself: no operator is a word, a literal or left out. -/
theorem listed_cons_of_sign {t : Token} {s : String} (h : signs.lookup t.kind = some s)
    (ts : List Token) : listed (t :: ts) = some ⟨.sign s, t.position⟩ :: listed ts := by
  have table : ∀ p ∈ signs, p.1 ≠ .keyword .print_ ∧ p.1 ≠ .integer ∧ p.1 ≠ .float ∧
      p.1 ∉ [.leftParen, .rightParen, .semicolon] := by decide
  obtain ⟨print, integer, float, listed⟩ := table _ (mem_signs_of_lookup h)
  refine listed_cons_of_item (decide_eq_true listed) ?_ ts
  unfold item?
  split
  · contradiction
  · contradiction
  · contradiction
  · rw [h, Option.map_some]

/-- A token whose item is a sign is an operator that is written so, at the same place. -/
theorem sign_of_item? {t : Token} {s : String} {p : Position}
    (h : t.item? = some ⟨.sign s, p⟩) : (t.kind, s) ∈ signs ∧ t.position = p := by
  unfold item? at h
  split at h
  · cases h
  · obtain ⟨i, _, item⟩ := Option.map_eq_some_iff.1 h
    cases item
  · obtain ⟨x, _, item⟩ := Option.map_eq_some_iff.1 h
    cases item
  · obtain ⟨s', sign, item⟩ := Option.map_eq_some_iff.1 h
    cases item
    exact ⟨mem_signs_of_lookup sign, rfl⟩

end Token

open Grammar Token

/-! ## The items of a program are those of its tokens -/

theorem lookup_of_mem_prefixes {k : TokenKind} {op : PrefixOp} (h : (k, op) ∈ prefixes) :
    signs.lookup k = some op.symbol := by
  have table : ∀ p ∈ prefixes, signs.lookup p.1 = some p.2.symbol := by decide
  exact table _ h

theorem lookup_of_mem_tierAt {n : Nat} {k : TokenKind} {op : InfixOp} (h : (k, op) ∈ tierAt n) :
    signs.lookup k = some op.symbol := by
  have table : ∀ n < infixTiers.length, ∀ p ∈ tierAt n, signs.lookup p.1 = some p.2.symbol := by
    decide
  rcases Nat.lt_or_ge n infixTiers.length with lt | ge
  · exact table n lt _ h
  · rw [tierAt_of_le ge] at h
    cases h

theorem listed_of_derives {n : Nat} {ts : List Token} {e : Expr} {d : Nat}
    (h : Derives n ts e d) : listed ts = e.items.map some := by
  induction h with
  | @integer t i kind value =>
    have item : t.item? = some ⟨.number (.int i), t.position⟩ := by
      simp only [item?, kind, value, Option.map_some]
    exact listed_cons_of_item (by rw [isListed, kind]; rfl) item []
  | @float t x kind value =>
    have item : t.item? = some ⟨.number (.float x), t.position⟩ := by
      simp only [item?, kind, value, Option.map_some]
    exact listed_cons_of_item (by rw [isListed, kind]; rfl) item []
  | @parens l r ts e d opens closes _ ih =>
    have none : listed [r] = [] := listed_cons_of_unlisted (by rw [isListed, closes]; rfl) []
    rw [List.cons_append, listed_cons_of_unlisted (by rw [isListed, opens]; rfl), listed_append,
      none, List.append_nil, ih]
  | unary sign _ ih =>
    rw [listed_cons_of_sign (lookup_of_mem_prefixes sign), ih, Expr.items, List.map_cons]
  | operand _ ih => exact ih
  | binary _ sign _ ihl ihr =>
    rw [listed_append, listed_cons_of_sign (lookup_of_mem_tierAt sign), ihl, ihr, Expr.items,
      List.map_append, List.map_cons]

theorem listed_of_fits {s : Segment} {rest : List Token} (h : s.Fits rest) :
    listed s.tokens = s.stmt.items.map some := by
  obtain ⟨d, _, derives⟩ := h.derives
  have semicolon : listed s.semicolon?.toList = [] := by
    cases semicolon : s.semicolon? with
    | none => rfl
    | some t =>
      exact listed_cons_of_unlisted (by rw [isListed, h.semicolon t semicolon]; rfl) []
  rw [Segment.tokens, listed_append, listed_append, semicolon, List.append_nil,
    listed_of_derives derives, Segment.stmt]
  cases print : s.print? with
  | none => rfl
  | some t =>
    have kind := h.print t print
    have item : t.item? = some ⟨.print, t.position⟩ := by simp only [item?, kind]
    exact congrArg (· ++ _) (listed_cons_of_item (by rw [isListed, kind]; rfl) item [])

theorem listed_of_segmented {ts : List Token} {ss : List Segment} (h : Segmented ts ss) :
    listed ts = (Program.mk (ss.map Segment.stmt)).items.map some := by
  induction h with
  | nil => rfl
  | cons fits _ ih =>
    rw [listed_append, listed_of_fits fits, ih, Program.items, Program.items, List.map_cons,
      List.flatMap_cons, List.map_append]

/-! ## Operators without a result -/

namespace OpError

/-- The error is about a token of this kind. -/
def About : OpError → TokenKind → Prop
  | divisionByZero, k => k = .slash
  | moduloByZero, k => k = .percent
  | nonIntegralOperand symbol, k => k ∈ bitwiseKinds ∧ (k, symbol) ∈ signs

instance (f : OpError) (k : TokenKind) : Decidable (f.About k) :=
  match f with
  | divisionByZero => inferInstanceAs (Decidable (k = .slash))
  | moduloByZero => inferInstanceAs (Decidable (k = .percent))
  | nonIntegralOperand symbol =>
    inferInstanceAs (Decidable (k ∈ bitwiseKinds ∧ (k, symbol) ∈ signs))

/-- Every operator that is written so is one that the error is about. -/
def AboutSign (f : OpError) (s : String) : Prop := ∀ p ∈ signs, p.2 = s → f.About p.1

instance (f : OpError) (s : String) : Decidable (f.AboutSign s) :=
  inferInstanceAs (Decidable (∀ p ∈ signs, p.2 = s → f.About p.1))

end OpError

theorem PrefixOp.aboutSign_of_apply {op : PrefixOp} {n : Number} {f : OpError}
    (h : op.apply n = .error f) : f.AboutSign op.symbol := by
  cases op with
  | bitNot =>
    cases n with
    | int i => cases h
    | float x =>
      cases h
      decide
  | _ => cases h

theorem InfixOp.aboutSign_of_apply {op : InfixOp} {l r : Number} {f : OpError}
    (h : op.apply l r = .error f) : f.AboutSign op.symbol := by
  cases op with
  | divide =>
    rw [Number.div_error h]
    decide
  | modulo =>
    rw [Number.rem_error h]
    decide
  | bitAnd | bitOr | bitXor | shiftLeft | shiftRight =>
    rw [Number.bitwise_error h]
    decide
  | _ => cases h

/-! ## Runtime errors -/

/-- Some sign among the items is written as an operator that the error is about, at its place. -/
def RuntimeError.IsAt (err : RuntimeError) (items : List Item) : Prop :=
  ∃ s, ⟨.sign s, err.position⟩ ∈ items ∧ err.fault.AboutSign s

theorem RuntimeError.IsAt.mono {err : RuntimeError} {items more : List Item} (h : err.IsAt items)
    (sub : items ⊆ more) : err.IsAt more := by
  obtain ⟨s, mem, about⟩ := h
  exact ⟨s, sub mem, about⟩

/-- The operator that has no result is an item of the expression. -/
theorem Expr.isAt_of_evaluate {e : Expr} {err : RuntimeError} (h : e.evaluate = .error err) :
    err.IsAt e.items := by
  induction e with
  | literal n p => cases h
  | unary op e p ih =>
    rcases evaluate_unary_error h with inner | ⟨n, _, fails, rfl⟩
    · exact (ih inner).mono (List.subset_cons_self _ _)
    · exact ⟨op.symbol, List.mem_cons_self .., PrefixOp.aboutSign_of_apply fails⟩
  | binary op l r p ihl ihr =>
    rcases evaluate_binary_error h with left | ⟨m, _, right | ⟨n, _, fails, rfl⟩⟩
    · exact (ihl left).mono (List.subset_append_left _ _)
    · exact (ihr right).mono (List.subset_append_of_subset_right _ (List.subset_cons_self _ _))
    · exact ⟨op.symbol, List.mem_append_right _ (List.mem_cons_self ..),
        InfixOp.aboutSign_of_apply fails⟩

theorem isAt_of_executeFrom (value : Number) (ss : List Stmt) (err : RuntimeError)
    (h : (executeFrom value ss).result = .error err) : err.IsAt (ss.flatMap Stmt.items) := by
  fun_induction executeFrom value ss with
  | case1 value => cases h
  | case2 value e rest err' fails =>
    cases h
    exact (Expr.isAt_of_evaluate fails).mono (List.subset_append_left _ _)
  | case3 value e rest n ok ih => exact (ih h).mono (List.subset_append_right _ _)
  | case4 value e p rest err' fails =>
    cases h
    exact (Expr.isAt_of_evaluate fails).mono
      (List.subset_append_of_subset_left _ (List.subset_cons_self _ _))
  | case5 value e p rest n ok x ih => exact (ih h).mono (List.subset_append_right _ _)

/-- The items of a program are its tokens in their order, parentheses and semicolons left out, and
a runtime error stands at a token of the kind that the error is about. -/
theorem Program.tokens_listed_and_errors_placed {ts : List Token} {p : Program}
    (h : Program.ofTokens ts = .ok p) :
    (ts.filter Token.isListed).map Token.item? = p.items.map some ∧
    ∀ (session : Session) (err : RuntimeError), (session.run p).1 = .error err →
      ∃ t ∈ ts, t.position = err.position ∧ err.fault.About t.kind := by
  obtain ⟨ss, segmented, rfl⟩ := ofTokens_ok_iff.1 h
  have all := listed_of_segmented segmented
  refine ⟨all, fun session err fails => ?_⟩
  rw [Session.run_eq] at fails
  obtain ⟨s, mem, about⟩ := isAt_of_executeFrom default _ err fails
  have item : some ⟨.sign s, err.position⟩ ∈ listed ts := by
    rw [all]
    exact List.mem_map_of_mem mem
  obtain ⟨t, mem, item⟩ := mem_of_mem_listed item
  obtain ⟨sign, place⟩ := sign_of_item? item
  exact ⟨t, mem, place, about _ sign rfl⟩

/-- In `print 7 / (3 - 3);` the division fails, at its sign. -/
theorem Program.division_by_difference_placed :
    ∃ ts p, Program.ofTokens ts = .ok p ∧ ts.map Token.kind = [.keyword .print_, .integer, .slash,
      .leftParen, .integer, .minus, .integer, .rightParen, .semicolon] ∧
      ((Session.mk []).run p).1 = .error ⟨.divisionByZero, ⟨1, 8⟩⟩ ∧
      ∃ t ∈ ts, t.position = ⟨1, 8⟩ ∧ t.kind = .slash := by
  let ts : List Token := [⟨"print", .keyword .print_, ⟨1, 0⟩⟩, ⟨"7", .integer, ⟨1, 6⟩⟩,
    ⟨"/", .slash, ⟨1, 8⟩⟩, ⟨"(", .leftParen, ⟨1, 10⟩⟩, ⟨"3", .integer, ⟨1, 11⟩⟩,
    ⟨"-", .minus, ⟨1, 13⟩⟩, ⟨"3", .integer, ⟨1, 15⟩⟩, ⟨")", .rightParen, ⟨1, 16⟩⟩,
    ⟨";", .semicolon, ⟨1, 17⟩⟩]
  let p : Program := ⟨[.print (.binary .divide (.literal (.int 7) ⟨1, 6⟩)
    (.binary .subtract (.literal (.int 3) ⟨1, 11⟩) (.literal (.int 3) ⟨1, 15⟩) ⟨1, 13⟩)
    ⟨1, 8⟩) ⟨1, 0⟩]⟩
  have ok : Program.ofTokens ts = .ok p := by decide +kernel
  have fails : ((Session.mk []).run p).1 = .error ⟨.divisionByZero, ⟨1, 8⟩⟩ := by decide +kernel
  exact ⟨ts, p, ok, rfl, fails, (tokens_listed_and_errors_placed ok).2 _ _ fails⟩

end Ember
