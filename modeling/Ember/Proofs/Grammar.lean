import Ember.Expr.Parse

/-!
# The grammar of expressions

`Derives n ts e d` says that the tokens `ts` are the expression `e`, written with infix operators of
the `n` tightest tiers only (outside parentheses), and that its operands are nested `d` deep. Tier
zero is an operand: a literal, an expression in parentheses, or a prefix operator with an operand.
Tier `n + 1` is `operand (op operand)*` over tier `n`, grouped to the left.

The tables `infixTiers` and `prefixes` list the operators; `ofKindInTier?_eq_some_iff` and
`prefixOfKind?_eq_some_iff` say that the parser's look-ups read the same tables.
-/

namespace Ember

namespace Grammar

/-! ## Operators -/

/-- The infix operators by tier, the tier that binds tightest first. -/
def infixTiers : List (List (TokenKind × InfixOp)) :=
  [[(.star, .multiply), (.slash, .divide), (.percent, .modulo), (.caret, .bitXor)],
    [(.plus, .add), (.minus, .subtract)],
    [(.lessLess, .shiftLeft), (.greaterGreater, .shiftRight)],
    [(.ampersand, .bitAnd)],
    [(.pipe, .bitOr)],
    [(.equalEqual, .equal), (.bangEqual, .notEqual), (.less, .less), (.lessEqual, .lessEqual),
      (.greater, .greater), (.greaterEqual, .greaterEqual)]]

/-- The operators of tier `n`; there are none beyond the last tier. -/
def tierAt (n : Nat) : List (TokenKind × InfixOp) := infixTiers.getD n []

/-- The kinds of token that are an infix operator. -/
def infixKinds : List TokenKind := infixTiers.flatten.map Prod.fst

/-- The prefix operators. -/
def prefixes : List (TokenKind × PrefixOp) :=
  [(.plus, .plus), (.minus, .negate), (.bang, .logicalNot), (.tilde, .bitNot)]

/-- There are sixteen infix operators, each with a kind of its own. -/
example : infixKinds.length = 16 ∧ infixKinds.Nodup := by decide

/-! ## Rules -/

/-- The tokens are the expression, with operators of the first tiers only, nested to a depth. -/
inductive Derives : Nat → List Token → Expr → Nat → Prop
  | integer {t : Token} {i : Int64} (kind : t.kind = .integer)
      (value : readInt64? t.lexeme.toList = some i) :
      Derives 0 [t] (.literal (.int i) t.position) 1
  | float {t : Token} {x : Binary64} (kind : t.kind = .float)
      (value : Decimal.readBinary64? t.lexeme.toList = some x) :
      Derives 0 [t] (.literal (.float x) t.position) 1
  | parens {l r : Token} {ts : List Token} {e : Expr} {d : Nat} (opens : l.kind = .leftParen)
      (closes : r.kind = .rightParen) (inside : Derives infixTiers.length ts e d) :
      Derives 0 (l :: ts ++ [r]) e (d + 1)
  | unary {t : Token} {op : PrefixOp} {ts : List Token} {e : Expr} {d : Nat}
      (sign : (t.kind, op) ∈ prefixes) (operand : Derives 0 ts e d) :
      Derives 0 (t :: ts) (.unary op e t.position) (d + 1)
  | operand {n : Nat} {ts : List Token} {e : Expr} {d : Nat} (only : Derives n ts e d) :
      Derives (n + 1) ts e d
  | binary {n : Nat} {ls rs : List Token} {t : Token} {op : InfixOp} {l r : Expr} {dl dr : Nat}
      (left : Derives (n + 1) ls l dl) (sign : (t.kind, op) ∈ tierAt n)
      (right : Derives n rs r dr) :
      Derives (n + 1) (ls ++ t :: rs) (.binary op l r t.position) (max dl dr)

/-- The tokens are the expression, nested to a depth. -/
abbrev Expression : List Token → Expr → Nat → Prop := Derives infixTiers.length

/-- No operator of the first `n` tiers comes next. -/
def Stops (n : Nat) (ts : List Token) : Prop :=
  ∀ t ∈ ts.head?, ∀ m < n, ∀ op, (t.kind, op) ∉ tierAt m

/-- An expression may end after the first `k` tokens: nothing follows, or no infix operator. -/
def MayEnd (ts : List Token) (k : Nat) : Prop :=
  k = ts.length ∨ ∃ t, ts[k]? = some t ∧ t.kind ∉ infixKinds

/-- The first `k` tokens are the expression, nested to a depth, and it may end there. -/
def DerivesTo (ts : List Token) (k : Nat) (e : Expr) (d : Nat) : Prop :=
  Expression (ts.take k) e d ∧ MayEnd ts k

/-- The kinds of token that an expression can start with. -/
def starters : List TokenKind := [.integer, .float, .leftParen] ++ prefixes.map Prod.fst

/-- The kinds of token that an expression is made of. -/
def expressionKinds : List TokenKind :=
  [.integer, .float, .leftParen, .rightParen] ++ prefixes.map Prod.fst ++ infixKinds

/-! ## The tables and the parser's look-ups -/

theorem tierAt_spec : ∀ n < infixTiers.length, ∀ p ∈ tierAt n,
    InfixOp.ofKind? p.1 = some p.2 ∧ p.2.tier = n := by decide

theorem tierAt_of_le {n : Nat} (h : infixTiers.length ≤ n) : tierAt n = [] := by
  rw [tierAt, List.getD_eq_getElem?_getD, List.getElem?_eq_none h, Option.getD_none]

theorem mem_tierAt_iff {n : Nat} {k : TokenKind} {op : InfixOp} :
    (k, op) ∈ tierAt n ↔ InfixOp.ofKind? k = some op ∧ op.tier = n := by
  constructor
  · intro h
    rcases Nat.lt_or_ge n infixTiers.length with lt | ge
    · exact tierAt_spec n lt _ h
    · rw [tierAt_of_le ge] at h
      cases h
  · rintro ⟨h, rfl⟩
    cases k <;> cases h <;> decide

theorem ofKindInTier?_eq_some_iff {n : Nat} {k : TokenKind} {op : InfixOp} :
    InfixOp.ofKindInTier? n k = some op ↔ (k, op) ∈ tierAt n := by
  rw [InfixOp.ofKindInTier?, Option.filter_eq_some_iff, decide_eq_true_eq, mem_tierAt_iff]

theorem ofKindInTier?_eq_none_iff {n : Nat} {k : TokenKind} :
    InfixOp.ofKindInTier? n k = none ↔ ∀ op, (k, op) ∉ tierAt n := by
  simp only [Option.eq_none_iff_forall_ne_some, ne_eq, ofKindInTier?_eq_some_iff]

theorem prefixOfKind?_eq_some_iff {k : TokenKind} {op : PrefixOp} :
    PrefixOp.ofKind? k = some op ↔ (k, op) ∈ prefixes := by
  constructor
  · intro h
    cases k <;> cases h <;> decide
  · intro h
    have table : ∀ p ∈ prefixes, PrefixOp.ofKind? p.1 = some p.2 := by decide
    exact table _ h

theorem mem_infixKinds_iff {k : TokenKind} :
    k ∈ infixKinds ↔ ∃ n < infixTiers.length, ∃ op, (k, op) ∈ tierAt n := by
  constructor
  · intro h
    have table : ∀ k ∈ infixKinds, (InfixOp.ofKind? k).isSome := by decide
    obtain ⟨op, e⟩ := Option.isSome_iff_exists.1 (table k h)
    have bound : op.tier < infixTiers.length := by cases op <;> decide
    exact ⟨op.tier, bound, op, mem_tierAt_iff.2 ⟨e, rfl⟩⟩
  · rintro ⟨n, lt, op, h⟩
    have table : ∀ n < infixTiers.length, ∀ p ∈ tierAt n, p.1 ∈ infixKinds := by decide
    exact table n lt _ h

/-! ## What may follow -/

theorem stops_nil (n : Nat) : Stops n [] := by
  intro t h
  cases h

theorem stops_zero (ts : List Token) : Stops 0 ts := by
  intro t _ m lt
  omega

theorem stops_cons_iff {n : Nat} {t : Token} {ts : List Token} :
    Stops n (t :: ts) ↔ ∀ m < n, ∀ op, (t.kind, op) ∉ tierAt m := by
  simp [Stops]

theorem Stops.pred {n : Nat} {ts : List Token} (h : Stops n ts) : Stops (n - 1) ts :=
  fun t ht m lt => h t ht m (by omega)

/-- An operator of one tier ends any operand of that tier. -/
theorem stops_of_mem_tierAt {n : Nat} {t : Token} {op : InfixOp} (h : (t.kind, op) ∈ tierAt n)
    (ts : List Token) : Stops n (t :: ts) := by
  rw [stops_cons_iff]
  intro m lt op' h'
  obtain ⟨e, tier⟩ := mem_tierAt_iff.1 h
  obtain ⟨e', tier'⟩ := mem_tierAt_iff.1 h'
  rw [e, Option.some.injEq] at e'
  subst e'
  omega

theorem stops_succ_cons_iff {n : Nat} {t : Token} {ts : List Token} :
    Stops (n + 1) (t :: ts) ↔
      Stops n (t :: ts) ∧ InfixOp.ofKindInTier? n t.kind = none := by
  rw [stops_cons_iff, stops_cons_iff, ofKindInTier?_eq_none_iff]
  constructor
  · intro h
    exact ⟨fun m lt => h m (by omega), h n (by omega)⟩
  · rintro ⟨below, here⟩ m lt
    rcases Nat.lt_or_eq_of_le (Nat.le_of_lt_succ lt) with lt' | rfl
    · exact below m lt'
    · exact here

/-- A whole expression ends where no infix operator comes next. -/
theorem stops_iff {ts : List Token} :
    Stops infixTiers.length ts ↔ ∀ t ∈ ts.head?, t.kind ∉ infixKinds := by
  simp only [Stops, mem_infixKinds_iff, not_exists, not_and]

theorem mayEnd_iff {ts : List Token} {k : Nat} :
    MayEnd ts k ↔ k ≤ ts.length ∧ Stops infixTiers.length (ts.drop k) := by
  rw [stops_iff, List.head?_drop]
  constructor
  · rintro (rfl | ⟨t, here, kind⟩)
    · refine ⟨Nat.le_refl _, fun t h => ?_⟩
      rw [List.getElem?_eq_none (Nat.le_refl _)] at h
      cases h
    · obtain ⟨lt, _⟩ := List.getElem?_eq_some_iff.1 here
      refine ⟨Nat.le_of_lt lt, fun u h => ?_⟩
      rw [here, Option.mem_some_iff] at h
      rwa [← h]
  · rintro ⟨le, kind⟩
    rcases Nat.lt_or_eq_of_le le with lt | rfl
    · exact .inr ⟨_, List.getElem?_eq_getElem lt, kind _ (List.getElem?_eq_getElem lt)⟩
    · exact .inl rfl

/-! ## Derivations -/

/-- An operand alone is an expression of any tier. -/
theorem Derives.of_operand {ts : List Token} {e : Expr} {d : Nat} (h : Derives 0 ts e d) (n : Nat) :
    Derives n ts e d := by
  induction n with
  | zero => exact h
  | succ n ih => exact ih.operand

theorem Derives.head {n : Nat} {ts : List Token} {e : Expr} {d : Nat} (h : Derives n ts e d) :
    ∃ t us, ts = t :: us ∧ t.kind ∈ starters := by
  induction h with
  | integer kind _ => exact ⟨_, _, rfl, by rw [kind]; decide⟩
  | float kind _ => exact ⟨_, _, rfl, by rw [kind]; decide⟩
  | parens opens _ _ _ => exact ⟨_, _, rfl, by rw [opens]; decide⟩
  | unary sign _ _ =>
    exact ⟨_, _, rfl, List.mem_append_right _ (List.mem_map_of_mem sign)⟩
  | operand _ ih => exact ih
  | binary _ _ _ ih _ =>
    obtain ⟨t, us, rfl, start⟩ := ih
    exact ⟨t, _, rfl, start⟩

theorem Derives.head_ne {n : Nat} {ts : List Token} {e : Expr} {d : Nat} (h : Derives n ts e d)
    {k : TokenKind} (hk : k ∉ starters) (rest : List Token) :
    ∀ t ∈ (ts ++ rest).head?, t.kind ≠ k := by
  obtain ⟨t, us, rfl, start⟩ := h.head
  rintro _ ⟨⟩ kind
  rw [kind] at start
  exact hk start

theorem Derives.kind_mem {n : Nat} {ts : List Token} {e : Expr} {d : Nat} (h : Derives n ts e d) :
    ∀ t ∈ ts, t.kind ∈ expressionKinds := by
  induction h with
  | integer kind _ => simp [kind, expressionKinds]
  | float kind _ => simp [kind, expressionKinds]
  | parens opens closes _ ih => simpa [opens, closes, or_imp, forall_and, expressionKinds] using ih
  | unary sign _ ih =>
    refine List.forall_mem_cons.2 ⟨?_, ih⟩
    exact List.mem_append_left _ (List.mem_append_right _ (List.mem_map_of_mem sign))
  | operand _ ih => exact ih
  | @binary n _ _ _ op _ _ _ _ _ sign _ ihl ihr =>
    have lt : n < infixTiers.length := by
      refine Nat.lt_of_not_le fun le => ?_
      rw [tierAt_of_le le] at sign
      cases sign
    refine List.forall_mem_append.2 ⟨ihl, List.forall_mem_cons.2 ⟨?_, ihr⟩⟩
    exact List.mem_append_right _ (mem_infixKinds_iff.2 ⟨n, lt, op, sign⟩)

theorem Derives.ne_nil {n : Nat} {ts : List Token} {e : Expr} {d : Nat} (h : Derives n ts e d) :
    ts ≠ [] := by
  obtain ⟨t, us, rfl, _⟩ := h.head
  exact List.cons_ne_nil t us

end Grammar

end Ember
