import Ember.Proofs.Expression

/-!
# Programs as sequences of segments

A segment is `[print] expression [;]`, where no infix operator follows the expression. A list of
tokens is a program exactly if it is cut into segments, and there is at most one way to cut it
(`Segmented.unique`): an expression goes on as long as an infix operator follows, and neither an
expression nor a segment starts with a semicolon.
-/

namespace Ember

open Grammar

/-- The statement that an expression is after an optional word `print`. -/
def Stmt.ofExpr (print? : Option Token) (e : Expr) : Stmt :=
  match print? with
  | some t => .print e t.position
  | none => .expr e

/-! ## Segments -/

/-- The tokens of one statement and the expression in it. -/
structure Segment where
  print? : Option Token
  body : List Token
  value : Expr
  semicolon? : Option Token

namespace Segment

/-- All tokens of the segment. -/
def tokens (s : Segment) : List Token := s.print?.toList ++ s.body ++ s.semicolon?.toList

/-- The statement that the segment is. -/
def stmt (s : Segment) : Stmt := .ofExpr s.print? s.value

/-- The segment is well formed when the tokens `rest` follow it. -/
structure Fits (s : Segment) (rest : List Token) : Prop where
  print : ∀ t ∈ s.print?, t.kind = .keyword .print_
  semicolon : ∀ t ∈ s.semicolon?, t.kind = .semicolon
  derives : ∃ d ≤ 256, Expression s.body s.value d
  ends : ∀ t ∈ (s.semicolon?.toList ++ rest).head?, t.kind ∉ infixKinds

end Segment

/-- The tokens are the segments, one after the other. -/
inductive Segmented : List Token → List Segment → Prop
  | nil : Segmented [] []
  | cons {s : Segment} {rest : List Token} {ss : List Segment} (fits : s.Fits rest)
      (more : Segmented rest ss) : Segmented (s.tokens ++ rest) (s :: ss)

/-- A statement starts with the word `print` or with an expression. -/
theorem Segment.Fits.head {s : Segment} {rest : List Token} (h : s.Fits rest) :
    ∃ t us, s.tokens = t :: us ∧ (t.kind = .keyword .print_ ∨ t.kind ∈ starters) := by
  obtain ⟨d, _, derives⟩ := h.derives
  obtain ⟨u, us, body, start⟩ := derives.head
  cases print : s.print? with
  | some t => exact ⟨t, _, by rw [tokens, print]; rfl, .inl (h.print t print)⟩
  | none => exact ⟨u, _, by rw [tokens, print, body]; rfl, .inr start⟩

/-- A segment fits before any tokens that start like those it was cut from. -/
theorem Segment.Fits.of_head {s : Segment} {rest rest' : List Token} (h : s.Fits rest)
    (head : ∀ t ∈ rest'.head?, t ∈ rest.head?) : s.Fits rest' := by
  refine ⟨h.print, h.semicolon, h.derives, fun t mem => h.ends t ?_⟩
  cases semicolon : s.semicolon? with
  | some u =>
    rw [semicolon] at mem
    exact mem
  | none =>
    rw [semicolon] at mem
    exact head t mem

theorem Segmented.head_ne_semicolon {ts : List Token} {ss : List Segment} (h : Segmented ts ss) :
    ∀ t ∈ ts.head?, t.kind ≠ .semicolon := by
  cases h with
  | nil => intro t h; cases h
  | cons fits _ =>
    obtain ⟨u, us, tokens, kind⟩ := fits.head
    rw [tokens, List.cons_append, List.head?_cons]
    rintro t ⟨⟩ semicolon
    rw [semicolon] at kind
    revert kind
    decide

/-! ## One statement -/

theorem Reply.map_eq_ok_iff {α β : Type} {f : α → β} {r : Reply α} {b : β} {rest : List Token} :
    r.map f = ⟨.ok b, rest⟩ ↔ ∃ a, r = ⟨.ok a, rest⟩ ∧ f a = b := by
  constructor
  · intro h
    obtain ⟨a, ok, value⟩ := result_map_ok (congrArg result h)
    have left : r.left = rest := congrArg Reply.left h
    exact ⟨a, by rw [← ok, ← left], value⟩
  · rintro ⟨a, rfl, rfl⟩
    rfl

namespace Parser

theorem run_statement_append {last : Position} {p : Option Token} {us : List Token}
    (print : ∀ t ∈ p, t.kind = .keyword .print_)
    (head : p = none → ∀ t ∈ us.head?, t.kind ≠ .keyword .print_) :
    (statement last).run (p.toList ++ us) = ((expression last).run us).map (Stmt.ofExpr p) := by
  cases p with
  | some t => exact if_pos (print t rfl)
  | none =>
    cases us with
    | nil => rfl
    | cons t us => exact if_neg (head rfl t rfl)

/-- Tokens start with a token of a given kind or with another. -/
theorem optional_split (k : TokenKind) (ts : List Token) :
    ∃ s : Option Token, ∃ us, s.toList ++ us = ts ∧ (∀ t ∈ s, t.kind = k) ∧
      (s = none → ∀ t ∈ us.head?, t.kind ≠ k) := by
  cases ts with
  | nil => exact ⟨none, [], rfl, by rintro _ ⟨⟩, by rintro _ _ ⟨⟩⟩
  | cons t ts =>
    by_cases kind : t.kind = k
    · exact ⟨some t, ts, rfl, by rintro _ ⟨⟩; exact kind, by rintro ⟨⟩⟩
    · exact ⟨none, t :: ts, rfl, by rintro _ ⟨⟩, by rintro _ _ ⟨⟩; exact kind⟩

/-- The parser takes a statement exactly if the tokens taken are an expression within the limit,
after an optional `print`, and no infix operator follows them. -/
theorem run_statement_iff {last : Position} {ts rest : List Token} {st : Stmt} :
    (statement last).run ts = ⟨.ok st, rest⟩ ↔
      ∃ (p : Option Token) (us : List Token) (e : Expr) (d : Nat),
        p.toList ++ us ++ rest = ts ∧ (∀ t ∈ p, t.kind = .keyword .print_) ∧ Expression us e d ∧
        d ≤ maxNesting ∧ Stops infixTiers.length rest ∧ Stmt.ofExpr p e = st := by
  constructor
  · intro h
    obtain ⟨p, us, rfl, print, head⟩ := optional_split (.keyword .print_) ts
    rw [run_statement_append print head, Reply.map_eq_ok_iff] at h
    obtain ⟨e, run, rfl⟩ := h
    obtain ⟨vs, d, rfl, derives, le, stops⟩ := run_expression_iff.1 run
    exact ⟨p, vs, e, d, List.append_assoc .., print, derives, le, stops, rfl⟩
  · rintro ⟨p, us, e, d, rfl, print, derives, le, stops, rfl⟩
    rw [List.append_assoc,
      run_statement_append print fun _ => derives.head_ne (by decide) rest, Reply.map_eq_ok_iff]
    exact ⟨e, run_expression_iff.2 ⟨us, d, rfl, derives, le, stops⟩, rfl⟩

/-! ## All statements -/

theorem skipSemicolon_append {s : Option Token} {ts : List Token}
    (semicolon : ∀ t ∈ s, t.kind = .semicolon)
    (head : s = none → ∀ t ∈ ts.head?, t.kind ≠ .semicolon) :
    skipSemicolon (s.toList ++ ts) = ts := by
  cases s with
  | some t => exact if_pos (semicolon t rfl)
  | none =>
    cases ts with
    | nil => rfl
    | cons t ts => exact if_neg (head rfl t rfl)

theorem run_statement_of_fits (last : Position) {s : Segment} {rest : List Token}
    (h : s.Fits rest) : (statement last).run (s.tokens ++ rest) =
      ⟨.ok s.stmt, s.semicolon?.toList ++ rest⟩ := by
  obtain ⟨d, le, derives⟩ := h.derives
  have split : s.print?.toList ++ s.body ++ (s.semicolon?.toList ++ rest) = s.tokens ++ rest := by
    rw [Segment.tokens, ← List.append_assoc]
  exact run_statement_iff.2 ⟨s.print?, s.body, s.value, d, split, h.print, derives, le,
    stops_iff.2 h.ends, rfl⟩

/-- The statement that is taken and the semicolon after it, if any, are a segment. -/
theorem segment_of_run {last : Position} {ts left : List Token} {st : Stmt}
    (h : (statement last).run ts = ⟨.ok st, left⟩) :
    ∃ s : Segment, s.Fits (skipSemicolon left) ∧ s.tokens ++ skipSemicolon left = ts ∧
      s.stmt = st ∧
      (s.semicolon? = none → ∀ t ∈ (skipSemicolon left).head?, t.kind ≠ .semicolon) := by
  obtain ⟨print?, us, e, d, rfl, print, derives, le, stops, value⟩ := run_statement_iff.1 h
  obtain ⟨semicolon?, rest, rfl, semicolon, head⟩ := optional_split .semicolon left
  rw [skipSemicolon_append semicolon head]
  have fits : (Segment.mk print? us e semicolon?).Fits rest :=
    ⟨print, semicolon, ⟨d, le, derives⟩, stops_iff.1 stops⟩
  exact ⟨_, fits, List.append_assoc .., value, head⟩

theorem statements_of_run {last : Position} {ts rest : List Token} {st : Stmt}
    (h : (statement last).run ts = ⟨.ok st, rest⟩) :
    statements last ts = (statements last (skipSemicolon rest)).map (st :: ·) := by
  have ne : ts ≠ [] := by
    rintro rfl
    have lt := (statement last).left_lt (congrArg Reply.result h)
    exact Nat.not_lt_zero _ lt
  rw [statements, if_neg ne]
  dsimp only
  split
  · next err fails => rw [h] at fails; cases fails
  · next st' ok =>
    rw [h] at ok ⊢
    cases ok
    rfl

theorem statements_ok {last : Position} (ts : List Token) (p : List Stmt)
    (h : (statements last ts).result = .ok p) :
    ∃ ss, Segmented ts ss ∧ p = ss.map Segment.stmt := by
  fun_induction statements last ts generalizing p with
  | case1 =>
    cases h
    exact ⟨[], .nil, rfl⟩
  | case2 ts _ reply err fails => cases h
  | case3 ts _ reply st ok _ ih =>
    obtain ⟨p', ok', rfl⟩ := Reply.result_map_ok h
    obtain ⟨ss, more, rfl⟩ := ih p' ok'
    have run : (statement last).run ts = ⟨.ok st, reply.left⟩ := by rw [← ok]
    obtain ⟨s, fits, split, rfl, _⟩ := segment_of_run run
    have all := Segmented.cons fits more
    rw [split] at all
    exact ⟨_, all, rfl⟩

theorem statements_of_segmented (last : Position) {ts : List Token} {ss : List Segment}
    (h : Segmented ts ss) : statements last ts = ⟨.ok (ss.map Segment.stmt), []⟩ := by
  induction h with
  | nil => rw [statements, if_pos rfl, List.map_nil]
  | cons fits more ih =>
    rw [statements_of_run (run_statement_of_fits last fits),
      skipSemicolon_append fits.semicolon fun _ => more.head_ne_semicolon, ih]
    rfl

end Parser

/-! ## One way to cut -/

theorem optional_append_unique {k : TokenKind} {s s' : Option Token} {ts ts' : List Token}
    (kind : ∀ t ∈ s, t.kind = k) (kind' : ∀ t ∈ s', t.kind = k)
    (head : ∀ t ∈ ts.head?, t.kind ≠ k) (head' : ∀ t ∈ ts'.head?, t.kind ≠ k)
    (same : s.toList ++ ts = s'.toList ++ ts') : s = s' ∧ ts = ts' := by
  cases s with
  | none =>
    cases s' with
    | none => exact ⟨rfl, same⟩
    | some t' =>
      obtain rfl : ts = t' :: ts' := same
      exact absurd (kind' t' rfl) (head t' rfl)
  | some t =>
    cases s' with
    | none =>
      obtain rfl : t :: ts = ts' := same
      exact absurd (kind t rfl) (head' t rfl)
    | some t' =>
      obtain ⟨rfl, rfl⟩ := List.cons.inj same
      exact ⟨rfl, rfl⟩

/-- Two segments at the front of the same tokens are the same. -/
theorem Segment.Fits.unique {s s' : Segment} {rest rest' : List Token} (h : s.Fits rest)
    (h' : s'.Fits rest') (head : ∀ t ∈ rest.head?, t.kind ≠ .semicolon)
    (head' : ∀ t ∈ rest'.head?, t.kind ≠ .semicolon)
    (same : s.tokens ++ rest = s'.tokens ++ rest') : s = s' ∧ rest = rest' := by
  obtain ⟨print?, body, value, semicolon?⟩ := s
  obtain ⟨print?', body', value', semicolon?'⟩ := s'
  obtain ⟨d, _, derives⟩ := h.derives
  obtain ⟨d', _, derives'⟩ := h'.derives
  simp only [tokens, List.append_assoc] at same
  obtain ⟨rfl, same⟩ := optional_append_unique h.print h'.print
    (derives.head_ne (by decide) _) (derives'.head_ne (by decide) _) same
  obtain ⟨rfl, same, rfl, _⟩ :=
    derives.unique derives' (stops_iff.2 h.ends) (stops_iff.2 h'.ends) same
  obtain ⟨rfl, rfl⟩ := optional_append_unique h.semicolon h'.semicolon head head' same
  exact ⟨rfl, rfl⟩

/-- Tokens are cut into segments in at most one way. -/
theorem Segmented.unique {ts ts' : List Token} {ss ss' : List Segment} (h : Segmented ts ss)
    (h' : Segmented ts' ss') (same : ts = ts') : ss = ss' := by
  induction h generalizing ts' ss' with
  | nil =>
    cases h' with
    | nil => rfl
    | cons fits' _ =>
      obtain ⟨t, us, tokens, _⟩ := fits'.head
      rw [tokens] at same
      cases same
  | cons fits more ih =>
    cases h' with
    | nil =>
      obtain ⟨t, us, tokens, _⟩ := fits.head
      rw [tokens] at same
      cases same
    | cons fits' more' =>
      obtain ⟨rfl, rfl⟩ := fits.unique fits' more.head_ne_semicolon more'.head_ne_semicolon same
      rw [ih more' rfl]

/-! ## Programs and single expressions -/

theorem Program.ofTokens_ok_iff {ts : List Token} {p : Program} :
    Program.ofTokens ts = .ok p ↔ ∃ ss, Segmented ts ss ∧ p = ⟨ss.map Segment.stmt⟩ := by
  constructor
  · intro h
    obtain ⟨statements, ok, rfl⟩ := Reply.result_map_ok h
    obtain ⟨ss, segmented, rfl⟩ := Parser.statements_ok _ _ ok
    exact ⟨ss, segmented, rfl⟩
  · rintro ⟨ss, segmented, rfl⟩
    have all := Parser.statements_of_segmented (Cursor.ofTokens ts).last segmented
    exact congrArg Reply.result (congrArg (Reply.map Program.mk) all)

theorem Cursor.finish_ok_iff {reply : Reply Expr} {a : Ast} :
    (finish reply).result = .ok a ↔ ∃ e, reply = ⟨.ok e, []⟩ ∧ a = ⟨some e⟩ := by
  constructor
  · intro h
    obtain ⟨result, left⟩ := reply
    match result, left with
    | .error err, _ => cases h
    | .ok e, [] => cases h; exact ⟨e, rfl, rfl⟩
    | .ok _, t :: ts => cases h
  · rintro ⟨e, rfl, rfl⟩
    rfl

theorem Ast.ofTokens_ok_iff {ts : List Token} {a : Ast} :
    Ast.ofTokens ts = .ok a ↔ ts = [] ∧ a = .empty ∨
      ∃ e, a = ⟨some e⟩ ∧ ∃ d ≤ maxNesting, Expression ts e d := by
  cases ts with
  | nil =>
    constructor
    · intro h
      cases h
      exact .inl ⟨rfl, rfl⟩
    · rintro (⟨_, rfl⟩ | ⟨e, _, d, _, derives⟩)
      · rfl
      · exact absurd rfl derives.ne_nil
  | cons t ts =>
    show (Cursor.finish ((Parser.expression (Cursor.ofTokens (t :: ts)).last).run
      (t :: ts))).result = .ok a ↔ _
    rw [Cursor.finish_ok_iff]
    constructor
    · rintro ⟨e, run, rfl⟩
      obtain ⟨us, d, split, derives, le, _⟩ := Parser.run_expression_iff.1 run
      rw [List.append_nil] at split
      exact .inr ⟨e, rfl, d, le, split ▸ derives⟩
    · rintro (⟨empty, _⟩ | ⟨e, rfl, d, le, derives⟩)
      · cases empty
      · exact ⟨e, Parser.run_expression_iff.2
          ⟨t :: ts, d, List.append_nil _, derives, le, stops_nil _⟩, rfl⟩

/-- Tokens are a program exactly if they are cut into segments, which can be done in at most one
way; they are a single expression exactly if there are none or all of them derive it. -/
theorem Program.ofTokens_iff_unique_segmentation (ts : List Token) :
    (∀ p, Program.ofTokens ts = .ok p ↔ ∃ ss, Segmented ts ss ∧ p = ⟨ss.map Segment.stmt⟩) ∧
    (∀ ss ss', Segmented ts ss → Segmented ts ss' → ss = ss') ∧
    (∀ a, Ast.ofTokens ts = .ok a ↔ ts = [] ∧ a = .empty ∨
      ∃ e, a = ⟨some e⟩ ∧ ∃ d ≤ 256, Expression ts e d) :=
  ⟨fun _ => ofTokens_ok_iff, fun _ _ h h' => h.unique h' rfl, fun _ => Ast.ofTokens_ok_iff⟩

/-- The tokens of `1 - 2` are one statement, and not `1` followed by `-2`. -/
theorem Program.difference_is_one_segment :
    ∃ ss, Segmented [⟨"1", .integer, ⟨1, 0⟩⟩, ⟨"-", .minus, ⟨1, 2⟩⟩, ⟨"2", .integer, ⟨1, 4⟩⟩] ss ∧
      ss.map Segment.stmt = [.expr (.binary .subtract (.literal (.int 1) ⟨1, 0⟩)
        (.literal (.int 2) ⟨1, 4⟩) ⟨1, 2⟩)] ∧
      ∀ ss', Segmented [⟨"1", .integer, ⟨1, 0⟩⟩, ⟨"-", .minus, ⟨1, 2⟩⟩,
        ⟨"2", .integer, ⟨1, 4⟩⟩] ss' → ss' = ss := by
  have one : Derives 2 [⟨"1", .integer, ⟨1, 0⟩⟩] (.literal (.int 1) ⟨1, 0⟩) 1 :=
    (Derives.integer rfl (by decide)).of_operand 2
  have two : Derives 1 [⟨"2", .integer, ⟨1, 4⟩⟩] (.literal (.int 2) ⟨1, 4⟩) 1 :=
    (Derives.integer rfl (by decide)).of_operand 1
  have minus : (TokenKind.minus, InfixOp.subtract) ∈ tierAt 1 := by decide
  have second := one.binary (t := ⟨"-", .minus, ⟨1, 2⟩⟩) minus two
  have difference := second.operand.operand.operand.operand
  have fits : (Segment.mk none _ _ none).Fits [] :=
    ⟨by rintro _ ⟨⟩, by rintro _ ⟨⟩, ⟨_, by decide, difference⟩, by rintro _ ⟨⟩⟩
  have segmented := Segmented.cons fits .nil
  exact ⟨_, segmented, rfl, fun ss' h =>
    (ofTokens_iff_unique_segmentation _).2.1 ss' _ h segmented⟩

end Ember
