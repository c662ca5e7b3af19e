import Ember.Program.Parse
import Ember.Proofs.Grammar

/-!
# The expression parser and its grammar

`Parser.expression` accepts exactly the token lists that the grammar derives with nesting of at most
`maxNesting`, and takes as many tokens as it can.

1. Soundness (`sound_tiers`, `sound_operand`): a success has a derivation of the tokens taken,
   nested at most as deep as the parser allows, and stops where no operator of its tiers follows.
2. Completeness (`run_of_derives`): a derivation within the limit is found, and the parser goes on
   with the loop of its tier.
3. Depth (`run_of_derives_of_lt`): a derivation beyond the limit is refused for its depth, at one of
   its own tokens.
4. Derivations are unique (`Derives.unique`), because the parser is a function.
-/

namespace Ember

open Grammar

namespace Parser

/-! ## What an operand can be -/

theorem operandFrom_unary {last : Position} {inner : Parser Expr} {t : Token} {ts : List Token}
    {op : PrefixOp} (sign : (t.kind, op) ∈ prefixes) :
    operandFrom last inner t ts = (inner.run ts).map (.unary op · t.position) := by
  unfold operandFrom
  rw [prefixOfKind?_eq_some_iff.2 sign]

theorem operandFrom_integer {last : Position} {inner : Parser Expr} {t : Token} {ts : List Token}
    (kind : t.kind = .integer) : operandFrom last inner t ts =
      literal (fun cs => (readInt64? cs).map .int) .integerOutOfRange t ts := by
  unfold operandFrom
  rw [kind]
  rfl

theorem operandFrom_float {last : Position} {inner : Parser Expr} {t : Token} {ts : List Token}
    (kind : t.kind = .float) : operandFrom last inner t ts =
      literal (fun cs => (Decimal.readBinary64? cs).map .float) .invalidFloat t ts := by
  unfold operandFrom
  rw [kind]
  rfl

theorem operandFrom_leftParen {last : Position} {inner : Parser Expr} {t : Token}
    {ts : List Token} (kind : t.kind = .leftParen) :
    operandFrom last inner t ts = closeParen last ((tiers inner infixTiers.length).run ts) := by
  unfold operandFrom
  rw [kind]
  rfl

theorem operandFrom_other {last : Position} {inner : Parser Expr} {t : Token} {ts : List Token}
    (kind : t.kind ∉ starters) :
    operandFrom last inner t ts = ⟨.error ⟨.unknownPrimary t.kind, t.position⟩, t :: ts⟩ := by
  unfold operandFrom
  split
  · next op sign =>
    rw [prefixOfKind?_eq_some_iff] at sign
    exact absurd (List.mem_append_right _ (List.mem_map_of_mem sign)) kind
  · split
    · next e => rw [e] at kind; exact absurd (by decide) kind
    · next e => rw [e] at kind; exact absurd (by decide) kind
    · next e => rw [e] at kind; exact absurd (by decide) kind
    · rfl

/-- A token that starts an operand is a prefix operator, a literal or an opening parenthesis. -/
theorem starters_cases {k : TokenKind} (h : k ∈ starters) :
    (∃ op, (k, op) ∈ prefixes) ∨ k = .integer ∨ k = .float ∨ k = .leftParen := by
  rcases List.mem_append.1 h with h | h
  · simp only [List.mem_cons, List.not_mem_nil, or_false] at h
    exact .inr h
  · obtain ⟨⟨_, op⟩, sign, rfl⟩ := List.mem_map.1 h
    exact .inl ⟨op, sign⟩

theorem literal_ok {read? : List Char → Option Number} {fault : String → ParseFault} {t : Token}
    {ts : List Token} {e : Expr} (h : (literal read? fault t ts).result = .ok e) :
    ∃ n, read? t.lexeme.toList = some n ∧ e = .literal n t.position := by
  unfold literal at h
  split at h
  · next n some => cases h; exact ⟨n, some, rfl⟩
  · cases h

theorem closeParen_ok {last : Position} {reply : Reply Expr} {e : Expr}
    (h : (closeParen last reply).result = .ok e) :
    ∃ t, t.kind = .rightParen ∧ reply.result = .ok e ∧
      reply.left = t :: (closeParen last reply).left := by
  unfold closeParen at h ⊢
  split at h
  · cases h
  · next t ts ok left =>
    split at h
    · next closes =>
      cases h
      refine ⟨t, closes, ok, ?_⟩
      simp only [left, if_pos closes]
    · cases h
  · cases h

/-! ## Soundness -/

/-- Every success of the parser has a derivation in tier `n`, at most `depth` deep. -/
def Sound (p : Parser Expr) (n depth : Nat) : Prop :=
  ∀ ⦃ts e⦄, (p.run ts).result = .ok e →
    ∃ us d, us ++ (p.run ts).left = ts ∧ Derives n us e d ∧ d ≤ depth ∧ Stops n (p.run ts).left

theorem sound_chain {p : Parser Expr} {n depth : Nat} (hp : Sound p n depth) (left e : Expr)
    (us ts : List Token) (d : Nat) (hl : Derives (n + 1) us left d) (le : d ≤ depth)
    (stops : Stops n ts) (h : (chain (InfixOp.ofKindInTier? n) p left ts).result = .ok e) :
    ∃ vs d', vs ++ (chain (InfixOp.ofKindInTier? n) p left ts).left = ts ∧
      Derives (n + 1) (us ++ vs) e d' ∧ d' ≤ depth ∧
      Stops (n + 1) (chain (InfixOp.ofKindInTier? n) p left ts).left := by
  fun_induction chain (InfixOp.ofKindInTier? n) p left ts generalizing us d with
  | case1 left =>
    cases h
    exact ⟨[], d, rfl, by rwa [List.append_nil], le, stops_nil _⟩
  | case2 left t ts ends =>
    cases h
    exact ⟨[], d, rfl, by rwa [List.append_nil], le, stops_succ_cons_iff.2 ⟨stops, ends⟩⟩
  | case3 left t ts op sign reply err fails => cases h
  | case4 left t ts op sign reply right ok _ ih =>
    -- one more operator and operand: the derivation so far becomes the left operand
    obtain ⟨rs, dr, split, hr, le', stops'⟩ := hp ok
    have longer := Derives.binary hl (ofKindInTier?_eq_some_iff.1 sign) hr
    obtain ⟨vs, d', split', he, le'', stops''⟩ := ih _ _ longer (Nat.max_le.2 ⟨le, le'⟩) stops' h
    refine ⟨t :: rs ++ vs, d', ?_, ?_, le'', stops''⟩
    · rw [List.append_assoc, split', List.cons_append, split]
    · rwa [List.append_assoc] at he

theorem sound_leftAssoc {p : Parser Expr} {n depth : Nat} (hp : Sound p n depth) :
    Sound (leftAssoc (InfixOp.ofKindInTier? n) p) (n + 1) depth := by
  intro ts e h
  cases hl : (p.run ts).result with
  | error err =>
    simp only [leftAssoc, hl] at h
    cases h
  | ok left =>
    simp only [leftAssoc, hl] at h ⊢
    obtain ⟨us, d, split, derives, le, stops⟩ := hp hl
    obtain ⟨vs, d', split', derives', le', stops'⟩ :=
      sound_chain hp left e us _ d derives.operand le stops h
    exact ⟨us ++ vs, d', by rw [List.append_assoc, split', split], derives', le', stops'⟩

theorem sound_tiers {p : Parser Expr} {depth : Nat} (hp : Sound p 0 depth) (n : Nat) :
    Sound (tiers p n) n depth := by
  induction n with
  | zero => exact hp
  | succ n ih => exact sound_leftAssoc ih

theorem sound_operandOver {last : Position} {inner : Parser Expr} {depth : Nat}
    (hi : Sound inner 0 depth) : Sound (operandOver last inner) 0 (depth + 1) := by
  intro ts e h
  match ts with
  | [] => cases h
  | t :: ts =>
    change (operandFrom last inner t ts).result = .ok e at h
    show ∃ us d, us ++ (operandFrom last inner t ts).left = t :: ts ∧ Derives 0 us e d ∧
      d ≤ depth + 1 ∧ Stops 0 (operandFrom last inner t ts).left
    by_cases start : t.kind ∈ starters
    · rcases starters_cases start with ⟨op, sign⟩ | kind | kind | kind
      · rw [operandFrom_unary sign] at h ⊢
        obtain ⟨e', ok, rfl⟩ := Reply.result_map_ok h
        obtain ⟨us, d, split, derives, le, _⟩ := hi ok
        exact ⟨t :: us, d + 1, congrArg (t :: ·) split, .unary sign derives, by omega, stops_zero _⟩
      · rw [operandFrom_integer kind] at h ⊢
        obtain ⟨n, some, rfl⟩ := literal_ok h
        obtain ⟨i, value, rfl⟩ := Option.map_eq_some_iff.1 some
        exact ⟨[t], 1, by rw [literal_left]; rfl, .integer kind value, by omega, stops_zero _⟩
      · rw [operandFrom_float kind] at h ⊢
        obtain ⟨n, some, rfl⟩ := literal_ok h
        obtain ⟨x, value, rfl⟩ := Option.map_eq_some_iff.1 some
        exact ⟨[t], 1, by rw [literal_left]; rfl, .float kind value, by omega, stops_zero _⟩
      · rw [operandFrom_leftParen kind] at h ⊢
        obtain ⟨r, closes, ok, left⟩ := closeParen_ok h
        obtain ⟨us, d, split, derives, le, _⟩ := sound_tiers hi infixTiers.length ok
        rw [left] at split
        refine ⟨t :: us ++ [r], d + 1, ?_, .parens kind closes derives, by omega, stops_zero _⟩
        rw [List.append_assoc, List.cons_append, List.singleton_append, split]
    · rw [operandFrom_other start] at h
      cases h

theorem sound_operand (last : Position) (depth : Nat) : Sound (operand last depth) 0 depth := by
  induction depth with
  | zero =>
    intro ts e h
    cases h
  | succ depth ih => exact sound_operandOver ih

/-! ## Completeness -/

/-- How parsing goes on when `e` is the first operand of tier `n`: with the loop of the tier. -/
def resume (p : Parser Expr) : Nat → Expr → List Token → Reply Expr
  | 0, e, ts => ⟨.ok e, ts⟩
  | n + 1, e, ts => chain (InfixOp.ofKindInTier? n) (tiers p n) e ts

theorem chain_cons_ok {op? : TokenKind → Option InfixOp} {p : Parser Expr} {l r : Expr} {t : Token}
    {op : InfixOp} {ts rest : List Token} (sign : op? t.kind = some op)
    (h : p.run ts = ⟨.ok r, rest⟩) :
    chain op? p l (t :: ts) = chain op? p (.binary op l r t.position) rest := by
  rw [chain]
  simp only [sign, h]

theorem chain_cons_error {op? : TokenKind → Option InfixOp} {p : Parser Expr} {l : Expr} {t : Token}
    {op : InfixOp} {ts : List Token} {err : ParseError} (sign : op? t.kind = some op)
    (h : (p.run ts).result = .error err) : (chain op? p l (t :: ts)).result = .error err := by
  rw [chain]
  simp only [sign, h]

theorem run_leftAssoc_ok {op? : TokenKind → Option InfixOp} {p : Parser Expr} {l : Expr}
    {ts rest : List Token} (h : p.run ts = ⟨.ok l, rest⟩) :
    (leftAssoc op? p).run ts = chain op? p l rest := by
  simp only [leftAssoc, h]

theorem run_leftAssoc_error {op? : TokenKind → Option InfixOp} {p : Parser Expr} {ts : List Token}
    {err : ParseError} (h : (p.run ts).result = .error err) :
    ((leftAssoc op? p).run ts).result = .error err := by
  simp only [leftAssoc, h]

theorem resume_of_stops {p : Parser Expr} {n : Nat} {e : Expr} {ts : List Token}
    (h : Stops n ts) : resume p n e ts = ⟨.ok e, ts⟩ := by
  cases n with
  | zero => rfl
  | succ n =>
    cases ts with
    | nil => rw [resume, chain]
    | cons t ts =>
      rw [resume, chain]
      simp only [(stops_succ_cons_iff.1 h).2]

theorem closeParen_cons {last : Position} {reply : Reply Expr} {e : Expr} {r : Token}
    {rest : List Token} (closes : r.kind = .rightParen) (h : reply = ⟨.ok e, r :: rest⟩) :
    closeParen last reply = ⟨.ok e, rest⟩ := by
  rw [h, closeParen]
  exact if_pos closes

theorem closeParen_error {last : Position} {reply : Reply Expr} {err : ParseError}
    (h : reply.result = .error err) : (closeParen last reply).result = .error err := by
  unfold closeParen
  rw [h]

theorem stops_of_rightParen {r : Token} (closes : r.kind = .rightParen) (n : Nat)
    (ts : List Token) : Stops n (r :: ts) := by
  rw [stops_cons_iff]
  intro m _ op h
  rw [mem_tierAt_iff, closes] at h
  cases h.1

theorem literal_of_some {read? : List Char → Option Number} {fault : String → ParseFault}
    {t : Token} {ts : List Token} {n : Number} (h : read? t.lexeme.toList = some n) :
    literal read? fault t ts = ⟨.ok (.literal n t.position), ts⟩ := by
  unfold literal
  rw [h]

theorem run_operand_succ (last : Position) (depth : Nat) (t : Token) (ts : List Token) :
    (operand last (depth + 1)).run (t :: ts) = operandFrom last (operand last depth) t ts := rfl

/-- A derivation within the limit is found, and the loop of its tier goes on after it. -/
theorem run_of_derives (last : Position) {n d : Nat} {us : List Token} {e : Expr}
    (h : Derives n us e d) : ∀ (depth : Nat) (rest : List Token), d ≤ depth →
      Stops (n - 1) rest → (tiers (operand last depth) n).run (us ++ rest) =
        resume (operand last depth) n e rest := by
  induction h with
  | @integer t i kind value =>
    intro depth rest le _
    cases depth with
    | zero => omega
    | succ k =>
      rw [tiers, List.singleton_append, run_operand_succ, operandFrom_integer kind]
      exact literal_of_some (by rw [value, Option.map_some])
  | @float t x kind value =>
    intro depth rest le _
    cases depth with
    | zero => omega
    | succ k =>
      rw [tiers, List.singleton_append, run_operand_succ, operandFrom_float kind]
      exact literal_of_some (by rw [value, Option.map_some])
  | @parens l r ts e d opens closes inside ih =>
    intro depth rest le _
    cases depth with
    | zero => omega
    | succ k =>
      have inner := ih k (r :: rest) (by omega) (stops_of_rightParen closes _ _)
      rw [resume_of_stops (stops_of_rightParen closes _ _)] at inner
      rw [tiers, List.append_assoc, List.cons_append, run_operand_succ,
        operandFrom_leftParen opens]
      exact closeParen_cons closes inner
  | @unary t op ts e d sign operand ih =>
    intro depth rest le _
    cases depth with
    | zero => omega
    | succ k =>
      have inner := ih k rest (by omega) (stops_zero _)
      rw [tiers] at inner
      rw [tiers, List.cons_append, run_operand_succ, operandFrom_unary sign, inner]
      rfl
  | @operand n ts e d only ih =>
    intro depth rest le stops
    rw [Nat.add_sub_cancel] at stops
    have first := ih depth rest le stops.pred
    rw [resume_of_stops stops] at first
    exact run_leftAssoc_ok first
  | @binary n ls rs t op l r dl dr left sign right ihl ihr =>
    -- the left operand leaves the loop at `t`, which takes one more operand and goes on
    intro depth rest le stops
    obtain ⟨lel, ler⟩ := Nat.max_le.1 le
    rw [Nat.add_sub_cancel] at stops
    have next := ihr depth rest ler stops.pred
    rw [resume_of_stops stops] at next
    rw [List.append_assoc, List.cons_append, ihl depth _ lel (stops_of_mem_tierAt sign _), resume,
      resume, chain_cons_ok (ofKindInTier?_eq_some_iff.2 sign) next]

/-- A derivation beyond the limit is refused for its depth, at one of its tokens. -/
theorem run_of_derives_of_lt (last : Position) {n d : Nat} {us : List Token} {e : Expr}
    (h : Derives n us e d) : ∀ (depth : Nat) (rest : List Token), depth < d →
      Stops (n - 1) rest → ∃ t ∈ us, ((tiers (operand last depth) n).run (us ++ rest)).result =
        .error ⟨.nestedTooDeeply, t.position⟩ := by
  induction h with
  | @integer t i kind value =>
    intro depth rest lt _
    obtain rfl : depth = 0 := by omega
    exact ⟨t, List.mem_singleton_self t, rfl⟩
  | @float t x kind value =>
    intro depth rest lt _
    obtain rfl : depth = 0 := by omega
    exact ⟨t, List.mem_singleton_self t, rfl⟩
  | @parens l r ts e d opens closes inside ih =>
    intro depth rest lt _
    cases depth with
    | zero => exact ⟨l, List.mem_append_left _ (List.mem_cons_self ..), rfl⟩
    | succ k =>
      obtain ⟨t, mem, fails⟩ :=
        ih k (r :: rest) (by omega) (stops_of_rightParen closes _ _)
      refine ⟨t, List.mem_append_left _ (List.mem_cons_of_mem _ mem), ?_⟩
      rw [tiers, List.append_assoc, List.cons_append, run_operand_succ,
        operandFrom_leftParen opens]
      exact closeParen_error fails
  | @unary t op ts e d sign operand ih =>
    intro depth rest lt _
    cases depth with
    | zero => exact ⟨t, List.mem_cons_self .., rfl⟩
    | succ k =>
      obtain ⟨u, mem, fails⟩ := ih k rest (by omega) (stops_zero _)
      refine ⟨u, List.mem_cons_of_mem _ mem, ?_⟩
      rw [tiers] at fails
      rw [tiers, List.cons_append, run_operand_succ, operandFrom_unary sign, Reply.map, fails]
      rfl
  | @operand n ts e d only ih =>
    intro depth rest lt stops
    rw [Nat.add_sub_cancel] at stops
    obtain ⟨t, mem, fails⟩ := ih depth rest lt stops.pred
    exact ⟨t, mem, run_leftAssoc_error fails⟩
  | @binary n ls rs t op l r dl dr left sign right ihl ihr =>
    intro depth rest lt stops
    rw [Nat.add_sub_cancel] at stops
    have after : Stops n (t :: rs ++ rest) := stops_of_mem_tierAt sign _
    rw [List.append_assoc]
    by_cases le : dl ≤ depth
    · -- the left operand is within the limit, so the right one is not
      obtain ⟨u, mem, fails⟩ := ihr depth rest (by omega) stops.pred
      refine ⟨u, List.mem_append_right _ (List.mem_cons_of_mem _ mem), ?_⟩
      rw [run_of_derives last left depth _ le after, resume]
      exact chain_cons_error (ofKindInTier?_eq_some_iff.2 sign) fails
    · obtain ⟨u, mem, fails⟩ := ihl depth (t :: rs ++ rest) (by omega) after
      exact ⟨u, List.mem_append_left _ mem, fails⟩

theorem run_eq_ok_of_derives (last : Position) {n d depth : Nat} {us rest : List Token} {e : Expr}
    (h : Derives n us e d) (le : d ≤ depth) (stops : Stops n rest) :
    (tiers (operand last depth) n).run (us ++ rest) = ⟨.ok e, rest⟩ := by
  rw [run_of_derives last h depth rest le stops.pred, resume_of_stops stops]

/-- The parser takes an expression exactly if the tokens taken derive it within the limit and no
infix operator follows them. -/
theorem run_expression_iff {last : Position} {ts rest : List Token} {e : Expr} :
    (expression last).run ts = ⟨.ok e, rest⟩ ↔
      ∃ us d, us ++ rest = ts ∧ Expression us e d ∧ d ≤ maxNesting ∧
        Stops infixTiers.length rest := by
  constructor
  · intro h
    have sound := sound_tiers (sound_operand last maxNesting) InfixOp.tierCount
    obtain ⟨us, d, split, derives, le, stops⟩ := sound (congrArg Reply.result h)
    change us ++ ((expression last).run ts).left = ts at split
    change Stops _ ((expression last).run ts).left at stops
    rw [h] at split stops
    exact ⟨us, d, split, derives, le, stops⟩
  · rintro ⟨us, d, rfl, derives, le, stops⟩
    exact run_eq_ok_of_derives last derives le stops

theorem run_expression_of_lt (last : Position) {us rest : List Token} {e : Expr} {d : Nat}
    (h : Expression us e d) (lt : maxNesting < d) (stops : Stops infixTiers.length rest) :
    ∃ t ∈ us, ((expression last).run (us ++ rest)).result =
      .error ⟨.nestedTooDeeply, t.position⟩ :=
  run_of_derives_of_lt last h maxNesting rest lt stops.pred

end Parser

/-! ## Derivations are unique -/

namespace Grammar

theorem Derives.depth_le {n d₁ d₂ : Nat} {us₁ us₂ rest₁ rest₂ : List Token} {e₁ e₂ : Expr}
    (h₁ : Derives n us₁ e₁ d₁) (h₂ : Derives n us₂ e₂ d₂) (stops₁ : Stops n rest₁)
    (stops₂ : Stops n rest₂) (same : us₁ ++ rest₁ = us₂ ++ rest₂) : d₂ ≤ d₁ := by
  rcases Nat.lt_or_ge d₁ d₂ with lt | ge
  · -- parsing with room for `d₁` only would both succeed and fail
    have ok := Parser.run_eq_ok_of_derives .start h₁ (Nat.le_refl d₁) stops₁
    obtain ⟨t, _, fails⟩ := Parser.run_of_derives_of_lt .start h₂ d₁ rest₂ lt
      stops₂.pred
    rw [← same, ok] at fails
    cases fails
  · exact ge

/-- Two derivations at the front of the same tokens that end where they may are the same. -/
theorem Derives.unique {n d₁ d₂ : Nat} {us₁ us₂ rest₁ rest₂ : List Token} {e₁ e₂ : Expr}
    (h₁ : Derives n us₁ e₁ d₁) (h₂ : Derives n us₂ e₂ d₂) (stops₁ : Stops n rest₁)
    (stops₂ : Stops n rest₂) (same : us₁ ++ rest₁ = us₂ ++ rest₂) :
    us₁ = us₂ ∧ rest₁ = rest₂ ∧ e₁ = e₂ ∧ d₁ = d₂ := by
  have depth : d₁ = d₂ := Nat.le_antisymm (h₂.depth_le h₁ stops₂ stops₁ same.symm)
    (h₁.depth_le h₂ stops₁ stops₂ same)
  have ok₁ := Parser.run_eq_ok_of_derives .start h₁ (Nat.le_refl d₁) stops₁
  have ok₂ := Parser.run_eq_ok_of_derives .start h₂ (Nat.le_of_eq depth.symm) stops₂
  rw [same, ok₂] at ok₁
  obtain ⟨value, rest⟩ := Reply.mk.inj ok₁
  subst rest
  exact ⟨List.append_cancel_right same, rfl, (Except.ok.inj value).symm, depth⟩

theorem DerivesTo.unique {ts : List Token} {k₁ k₂ d₁ d₂ : Nat} {e₁ e₂ : Expr}
    (h₁ : DerivesTo ts k₁ e₁ d₁) (h₂ : DerivesTo ts k₂ e₂ d₂) :
    k₁ = k₂ ∧ e₁ = e₂ ∧ d₁ = d₂ := by
  obtain ⟨le₁, stops₁⟩ := mayEnd_iff.1 h₁.2
  obtain ⟨le₂, stops₂⟩ := mayEnd_iff.1 h₂.2
  obtain ⟨same, _, value, depth⟩ := h₁.1.unique h₂.1 stops₁ stops₂
    (by rw [List.take_append_drop, List.take_append_drop])
  have length := congrArg List.length same
  rw [List.length_take_of_le le₁, List.length_take_of_le le₂] at length
  exact ⟨length, value, depth⟩

end Grammar

/-! ## A fresh cursor -/

namespace Cursor

/-- The cursor `k` tokens further on. -/
def skip (c : Cursor) (k : Nat) : Cursor := ⟨c.left.drop k, c.last⟩

theorem expression_eq_iff {c : Cursor} {e : Expr} {k : Nat} :
    c.expression = (.ok e, c.skip k) ↔
      (Parser.expression c.last).run c.left = ⟨.ok e, c.left.drop k⟩ := by
  constructor
  · intro h
    obtain ⟨result, cursor⟩ := Prod.mk.inj h
    have left := congrArg Cursor.left cursor
    cases run : (Parser.expression c.last).run c.left with
    | mk result' left' =>
      simp only [run, skip] at result left
      rw [result, left]
  · intro h
    rw [expression, after, h, skip]

theorem expression_ok_iff_derivesTo {ts : List Token} {e : Expr} {k : Nat} :
    (k ≤ ts.length ∧ (ofTokens ts).expression = (.ok e, (ofTokens ts).skip k)) ↔
      ∃ d ≤ maxNesting, DerivesTo ts k e d := by
  rw [expression_eq_iff, Parser.run_expression_iff]
  constructor
  · rintro ⟨le, us, d, split, derives, bound, stops⟩
    obtain rfl : us = ts.take k :=
      List.append_cancel_right (split.trans (List.take_append_drop k ts).symm)
    exact ⟨d, bound, derives, mayEnd_iff.2 ⟨le, stops⟩⟩
  · rintro ⟨d, bound, derives, ends⟩
    obtain ⟨le, stops⟩ := mayEnd_iff.1 ends
    exact ⟨le, _, d, List.take_append_drop k ts, derives, bound, stops⟩

/-- A fresh cursor takes an expression and stands before token `k` exactly if the first `k` tokens
derive it, nested at most 256 deep, and it may end there; a deeper one is refused for its depth;
and there is at most one such derivation. -/
theorem expression_iff_unique_derivation (ts : List Token) :
    (∀ k e, (k ≤ ts.length ∧ (ofTokens ts).expression = (.ok e, (ofTokens ts).skip k)) ↔
      ∃ d ≤ 256, DerivesTo ts k e d) ∧
    (∀ k e d, DerivesTo ts k e d → 256 < d → ∃ t ∈ ts.take k,
      (ofTokens ts).expression.1 = .error ⟨.nestedTooDeeply, t.position⟩) ∧
    (∀ k k' e e' d d', DerivesTo ts k e d → DerivesTo ts k' e' d' →
      k = k' ∧ e = e' ∧ d = d') := by
  refine ⟨fun k e => expression_ok_iff_derivesTo, fun k e d h lt => ?_,
    fun k k' e e' d d' h h' => h.unique h'⟩
  obtain ⟨t, mem, fails⟩ := Parser.run_expression_of_lt (ofTokens ts).last h.1 lt
    (mayEnd_iff.1 h.2).2
  rw [List.take_append_drop] at fails
  exact ⟨t, mem, fails⟩

/-- A literal after `n` minus signs, all at the same place. -/
def signed (n : Nat) : List Token :=
  List.replicate n ⟨"-", .minus, .start⟩ ++ [⟨"1", .integer, .start⟩]

theorem signed_derivesTo (n : Nat) : ∃ e, DerivesTo (signed n) (n + 1) e (n + 1) := by
  have length : (signed n).length = n + 1 := by
    rw [signed, List.length_append, List.length_replicate, List.length_singleton]
  have operand : ∃ e, Derives 0 (signed n) e (n + 1) := by
    clear length
    induction n with
    | zero => exact ⟨_, .integer (i := 1) rfl (by decide)⟩
    | succ n ih =>
      obtain ⟨e, h⟩ := ih
      have minus : (TokenKind.minus, PrefixOp.negate) ∈ prefixes := by decide
      exact ⟨_, .unary minus h⟩
  obtain ⟨e, h⟩ := operand
  refine ⟨e, ?_, .inl length.symm⟩
  rw [List.take_of_length_le (Nat.le_of_eq length)]
  exact h.of_operand infixTiers.length

theorem signed_position {n : Nat} {t : Token} (h : t ∈ signed n) : t.position = .start := by
  rcases List.mem_append.1 h with h | h
  · rw [List.eq_of_mem_replicate h]
  · rw [List.mem_singleton.1 h]

/-- A literal after 256 signs is one level too deep, and the only derivation of its tokens. -/
theorem expression_refuses_level_257 : ∃ e, DerivesTo (signed 256) 257 e 257 ∧
    (ofTokens (signed 256)).expression.1 = .error ⟨.nestedTooDeeply, .start⟩ ∧
    ∀ k e' d, DerivesTo (signed 256) k e' d → k = 257 ∧ e' = e ∧ d = 257 := by
  obtain ⟨e, h⟩ := signed_derivesTo 256
  obtain ⟨_, deep, unique⟩ := expression_iff_unique_derivation (signed 256)
  obtain ⟨t, mem, fails⟩ := deep 257 e 257 h (by decide)
  rw [signed_position (List.mem_of_mem_take mem)] at fails
  exact ⟨e, h, fails, fun k e' d h' => unique k 257 e' e d 257 h' h⟩

end Cursor

end Ember
