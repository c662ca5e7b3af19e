import Mathlib.Data.List.Basic
import Ember.Proofs.SingleExpression

/-!
# Programs one after the other

A program whose last token is a semicolon ends there, whatever follows it. The tokens of such a
program and then other tokens are parsed as the program followed by what the other tokens are, or
with their error, at the same place.

No expression has a semicolon in it, so the last segment of the program has one of its own
(`Segment.Fits.closed`), and each segment fits in front of the other tokens as well
(`Segment.Fits.append`). The parser takes the segments off one by one and is left with the other
tokens alone (`statements_append`). What it could still see of the program is the place of the last
token, which belongs to the other tokens if there are any (`Cursor.last_append`).
-/

namespace Ember

/-- There are no tokens, or the last one is a semicolon. -/
def Closed (ts : List Token) : Prop := ∀ t ∈ ts.getLast?, t.kind = .semicolon

theorem Closed.of_append {ts us : List Token} (h : Closed (ts ++ us)) : Closed us := by
  intro t last
  refine h t ?_
  rw [List.getLast?_append, Option.mem_def.1 last]
  rfl

/-! ## Segments -/

namespace Segment

theorem Fits.closed {s : Segment} {rest : List Token} (h : s.Fits rest) (closed : Closed s.tokens) :
    s.semicolon? ≠ none := by
  intro none
  obtain ⟨d, _, derives⟩ := h.derives
  rw [tokens, none, Option.toList_none, List.append_nil] at closed
  -- the last token would be one of the expression
  obtain ⟨t, last⟩ : ∃ t, s.body.getLast? = some t :=
    ⟨_, List.getLast?_eq_some_getLast derives.ne_nil⟩
  exact derives.ne_semicolon t (List.mem_of_getLast? last) (closed.of_append t last)

/-- A segment fits in front of more tokens if something ends it already. -/
theorem Fits.append {s : Segment} {rest : List Token} (h : s.Fits rest)
    (ended : rest = [] → s.semicolon? ≠ none) (us : List Token) : s.Fits (rest ++ us) := by
  by_cases ne : rest = []
  · obtain ⟨t, semicolon⟩ := Option.ne_none_iff_exists'.1 (ended ne)
    refine ⟨h.print, h.semicolon, h.derives, fun u head => h.ends u ?_⟩
    rw [semicolon] at head ⊢
    exact head
  · refine h.of_head fun t head => ?_
    rwa [List.head?_append_of_ne_nil _ ne] at head

end Segment

/-! ## Statements -/

namespace Parser

/-- The segments of a closed list of tokens are taken off in front of any others. -/
theorem statements_append (last : Position) {ts : List Token} {ss : List Segment}
    (h : Segmented ts ss) (closed : Closed ts) (us : List Token) :
    statements last (ts ++ us) = (statements last us).map (ss.map Segment.stmt ++ ·) := by
  induction h with
  | nil => exact (statements last us).map_id.symm
  | @cons s rest ss fits more ih =>
    have ended : rest = [] → s.semicolon? ≠ none := by
      rintro rfl
      rw [List.append_nil] at closed
      exact fits.closed closed
    have head : s.semicolon? = none → ∀ t ∈ (rest ++ us).head?, t.kind ≠ .semicolon := by
      intro none t head
      have ne : rest ≠ [] := fun empty => ended empty none
      rw [List.head?_append_of_ne_nil _ ne] at head
      exact more.head_ne_semicolon t head
    rw [List.append_assoc, statements_of_run (run_statement_of_fits last (fits.append ended us)),
      skipSemicolon_append fits.semicolon head, ih closed.of_append, Reply.map_map]
    rfl

end Parser

/-! ## Programs -/

theorem Cursor.last_append {us : List Token} (ne : us ≠ []) (ts : List Token) :
    (ofTokens (ts ++ us)).last = (ofTokens us).last := by
  rw [ofTokens, ofTokens, List.getLast?_append_of_ne_nil _ ne]

namespace Program

theorem ofTokens_append {ts : List Token} {p : Program} (parsed : ofTokens ts = .ok p)
    (closed : Closed ts) (us : List Token) :
    ofTokens (ts ++ us) = (ofTokens us).map (p ++ ·) := by
  by_cases ne : us = []
  · -- the last token is one of the program, but nothing is left to report at its place
    subst ne
    have same : p ++ Program.empty = p := congrArg mk (List.append_nil p.statements)
    rw [List.append_nil, parsed, ofTokens_ok_iff.2 ⟨[], .nil, rfl⟩]
    exact congrArg Except.ok same.symm
  · obtain ⟨ss, segmented, rfl⟩ := ofTokens_ok_iff.1 parsed
    show ((Parser.statements (Cursor.ofTokens (ts ++ us)).last (ts ++ us)).map mk).result =
      ((Parser.statements (Cursor.ofTokens us).last us).map mk).result.map _
    rw [Cursor.last_append ne, Parser.statements_append _ segmented closed]
    generalize Parser.statements (Cursor.ofTokens us).last us = reply
    obtain ⟨result, left⟩ := reply
    cases result <;> rfl

/-- After a program that is closed by a semicolon, other tokens are parsed as they are alone: their
statements follow those of the program, or their error is the error. -/
theorem ofTokens_after_semicolon {ts : List Token} {p : Program} (parsed : ofTokens ts = .ok p)
    (closed : Closed ts) (us : List Token) :
    (∀ q, ofTokens us = .ok q →
      ofTokens (ts ++ us) = .ok ⟨p.statements ++ q.statements⟩) ∧
    ∀ e, ofTokens us = .error e → ofTokens (ts ++ us) = .error e := by
  have append := ofTokens_append parsed closed us
  refine ⟨fun q ok => ?_, fun e fails => ?_⟩
  · rw [append, ok]
    rfl
  · rw [append, fails]
    rfl

/-- After `1;` the tokens of `- 2` are a statement of their own and not a part of a difference, and
`print` alone ends as early as it does without `1;` before it. -/
theorem difference_cut_by_semicolon :
    ∃ ts us vs : List Token, ts.map Token.kind = [.integer, .semicolon] ∧
      us.map Token.kind = [.minus, .integer] ∧ vs.map Token.kind = [.keyword .print_] ∧
      (∃ d e, ofTokens (ts ++ us) = .ok ⟨[.expr d, .expr (.unary .negate e ⟨1, 2⟩)]⟩) ∧
      ofTokens (ts ++ vs) = .error ⟨.unexpectedEnd, ⟨1, 3⟩⟩ := by
  let ts : List Token := [⟨"1", .integer, ⟨1, 0⟩⟩, ⟨";", .semicolon, ⟨1, 1⟩⟩]
  let us : List Token := [⟨"-", .minus, ⟨1, 2⟩⟩, ⟨"2", .integer, ⟨1, 4⟩⟩]
  let vs : List Token := [⟨"print", .keyword .print_, ⟨1, 3⟩⟩]
  have parsed : ofTokens ts = .ok ⟨[.expr (.literal (.int 1) ⟨1, 0⟩)]⟩ := by decide +kernel
  have closed : Closed ts := by
    rintro _ ⟨⟩
    rfl
  have negated : ofTokens us =
      .ok ⟨[.expr (.unary .negate (.literal (.int 2) ⟨1, 4⟩) ⟨1, 2⟩)]⟩ := by decide +kernel
  have unfinished : ofTokens vs = .error ⟨.unexpectedEnd, ⟨1, 3⟩⟩ := by decide +kernel
  exact ⟨ts, us, vs, rfl, rfl, rfl,
    ⟨_, _, (ofTokens_after_semicolon parsed closed us).1 _ negated⟩,
    (ofTokens_after_semicolon parsed closed vs).2 _ unfinished⟩

end Program

end Ember
