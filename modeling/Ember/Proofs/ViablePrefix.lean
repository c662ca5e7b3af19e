import Mathlib.Control.Monad.Basic
import Ember.Proofs.Statement

/-!
# Errors at the earliest token

A parse error stands at the first token that no program can have there: the tokens before it can be
completed to a program, and together with it they cannot. An error at the end of the tokens says
that all of them can be completed. Nesting is refused one token later: it is the opening parenthesis
or the prefix operator before the reported token that no program can have there.

1. `Earliest`: what it is for an error to stand at the earliest token, for any notion of tokens that
   can be completed and of tokens that are refused. `Earliest.append` moves the statement to a
   longer list of tokens.
2. `reports_tiers`: the parser of each tier reports its errors so, by induction on the nesting that
   is left (`reports_operand`) and on the tiers (`reports_leftAssoc`).
3. `earliest_statements`: a statement that is complete is a segment of every completion, so the
   errors of a program are those of its first statement that fails.
-/

namespace Ember

open Grammar

/-! ## Earliest tokens -/

/-- The error is reported at the earliest of the tokens: those before it are viable, and with it
they are refused. -/
inductive Earliest (viable refused : List Token → Prop) (last : Position) :
    List Token → ParseError → Prop
  | token {us rest : List Token} {t : Token} {fault : ParseFault} (before : viable us)
      (here : refused (us ++ [t])) (shallow : fault ≠ .nestedTooDeeply) :
      Earliest viable refused last (us ++ t :: rest) ⟨fault, t.position⟩
  | ending {us : List Token} {fault : ParseFault} (before : viable us)
      (shallow : fault ≠ .nestedTooDeeply) : Earliest viable refused last us ⟨fault, last⟩
  | nesting {us rest : List Token} {t : Token} (before : viable us)
      (here : refused (us ++ [t])) : Earliest viable refused last (us ++ t :: rest)
        ⟨.nestedTooDeeply, Parser.nextPosition last rest⟩

/-- An error at the earliest of some tokens is at the earliest of a longer list, if beginnings that
are viable or refused stay so after the tokens in front. -/
theorem Earliest.append {viable refused viable' refused' : List Token → Prop} {last : Position}
    {ts : List Token} {e : ParseError} (h : Earliest viable refused last ts e) (pre : List Token)
    (before : ∀ us, us <+: ts → viable us → viable' (pre ++ us))
    (here : ∀ us, us <+: ts → us ≠ [] → refused us → refused' (pre ++ us)) :
    Earliest viable' refused' last (pre ++ ts) e := by
  have step {us rest : List Token} {t : Token} (same : us ++ t :: rest = ts)
      (refuses : refused (us ++ [t])) : refused' (pre ++ us ++ [t]) := by
    rw [List.append_assoc]
    refine here _ ⟨rest, ?_⟩ (List.append_ne_nil_of_right_ne_nil _ (List.cons_ne_nil _ _)) refuses
    rw [List.append_assoc, List.singleton_append, same]
  cases h with
  | token viable refuses shallow =>
    rw [← List.append_assoc]
    exact .token (before _ (List.prefix_append _ _) viable) (step rfl refuses) shallow
  | ending viable shallow => exact .ending (before _ List.prefix_rfl viable) shallow
  | nesting viable refuses =>
    rw [← List.append_assoc]
    exact .nesting (before _ (List.prefix_append _ _) viable) (step rfl refuses)

theorem Reply.result_map_error {α β : Type} {f : α → β} {r : Reply α} {e : ParseError}
    (h : (r.map f).result = .error e) : r.result = .error e := by
  unfold map at h
  cases result : r.result with
  | error _ =>
    rw [result] at h
    cases h
    rfl
  | ok a =>
    rw [result] at h
    cases h

namespace Parser

/-- Nothing that starts with the tokens has a result, wherever its last token stands. -/
def Refuses {α : Type} (run : Position → List Token → Reply α) (us : List Token) : Prop :=
  ∀ last vs a, (run last (us ++ vs)).result ≠ .ok a

/-- The tokens can be completed to an expression of tier `n`, nested at most `depth` deep. -/
def Completes (n depth : Nat) (us : List Token) : Prop :=
  ∃ vs e d, Derives n (us ++ vs) e d ∧ d ≤ depth

/-- Expressions of tier `n` over operands nested at most `depth` deep. -/
def runTier (depth n : Nat) (last : Position) (ts : List Token) : Reply Expr :=
  (tiers (operand last depth) n).run ts

/-- The parser of tier `n` reports its errors at the earliest token. -/
def Reports (last : Position) (depth n : Nat) : Prop :=
  ∀ ⦃ts e⦄, (runTier depth n last ts).result = .error e →
    Earliest (Completes n depth) (Refuses (runTier depth n)) last ts e

theorem completes_nil (n depth : Nat) : Completes n (depth + 1) [] := by
  have one : Derives 0 [⟨"1", .integer, .start⟩] (.literal (.int 1) .start) 1 :=
    .integer rfl (by decide)
  exact ⟨_, _, 1, one.of_operand n, by omega⟩

/-! ## Tiers of infix operators -/

theorem Refuses.error {α : Type} {run : Position → List Token → Reply α} {us : List Token}
    (h : Refuses run us) (last : Position) (vs : List Token) :
    ∃ e, (run last (us ++ vs)).result = .error e := by
  cases result : (run last (us ++ vs)).result with
  | error e => exact ⟨e, rfl⟩
  | ok a => exact absurd result (h last vs a)

theorem runTier_succ_error {depth n : Nat} {last : Position} {ts : List Token} {e : ParseError}
    (h : (runTier depth n last ts).result = .error e) :
    (runTier depth (n + 1) last ts).result = .error e :=
  run_leftAssoc_error h

/-- What is refused as an operand after an operator is refused together with all before it. -/
theorem Refuses.binary {depth n d : Nat} {ls us : List Token} {t : Token} {op : InfixOp} {l : Expr}
    (h : Refuses (runTier depth n) us) (left : Derives (n + 1) ls l d) (le : d ≤ depth)
    (sign : (t.kind, op) ∈ tierAt n) : Refuses (runTier depth (n + 1)) (ls ++ [t] ++ us) := by
  intro last vs a ok
  obtain ⟨e, fails⟩ := h.error last vs
  have stops : Stops n (t :: (us ++ vs)) := stops_of_mem_tierAt sign _
  rw [runTier, List.append_assoc, List.append_assoc, List.singleton_append,
    run_of_derives last left depth _ le stops, resume,
    chain_cons_error (ofKindInTier?_eq_some_iff.2 sign) fails] at ok
  cases ok

theorem Completes.binary {depth n d : Nat} {ls us : List Token} {t : Token} {op : InfixOp}
    {l : Expr} (h : Completes n depth us) (left : Derives (n + 1) ls l d) (le : d ≤ depth)
    (sign : (t.kind, op) ∈ tierAt n) : Completes (n + 1) depth (ls ++ [t] ++ us) := by
  obtain ⟨vs, r, dr, right, le'⟩ := h
  have both := Derives.binary left sign right
  rw [← List.singleton_append, ← List.append_assoc, ← List.append_assoc] at both
  exact ⟨vs, _, _, both, Nat.max_le.2 ⟨le, le'⟩⟩

theorem earliest_chain {last : Position} {depth n : Nat} (hn : Reports last depth n) (left : Expr)
    (us ts : List Token) (d : Nat) (e : ParseError) (hl : Derives (n + 1) us left d)
    (le : d ≤ depth)
    (h : (chain (InfixOp.ofKindInTier? n) (tiers (operand last depth) n) left ts).result =
      .error e) :
    Earliest (Completes (n + 1) depth) (Refuses (runTier depth (n + 1))) last (us ++ ts) e := by
  fun_induction chain (InfixOp.ofKindInTier? n) (tiers (operand last depth) n) left ts
    generalizing us d with
  | case1 left => cases h
  | case2 left t ts ends => cases h
  | case3 left t ts op sign reply err fails =>
    cases h
    have mem := ofKindInTier?_eq_some_iff.1 sign
    have right := (hn fails).append (us ++ [t]) (fun _ _ h => h.binary hl le mem)
      (fun _ _ _ h => h.binary hl le mem)
    rwa [List.append_assoc, List.singleton_append] at right
  | case4 left t ts op sign reply right ok _ ih =>
    -- one more operand is complete: the derivation so far becomes the left operand
    obtain ⟨rs, dr, split, hr, le', _⟩ := sound_tiers (sound_operand last depth) n ok
    have longer := Derives.binary hl (ofKindInTier?_eq_some_iff.1 sign) hr
    have rest := ih _ _ longer (Nat.max_le.2 ⟨le, le'⟩) h
    rwa [List.append_assoc, List.cons_append, split] at rest

theorem reports_leftAssoc {last : Position} {depth n : Nat} (hn : Reports last depth n) :
    Reports last depth (n + 1) := by
  intro ts e h
  cases first : (runTier depth n last ts).result with
  | error err =>
    rw [runTier_succ_error first] at h
    cases h
    refine (hn first).append [] ?_ ?_
    · rintro us _ ⟨vs, e, d, derives, le⟩
      exact ⟨vs, e, d, derives.operand, le⟩
    · intro us _ _ refuses last vs a ok
      obtain ⟨err, fails⟩ := refuses.error last vs
      rw [List.nil_append, runTier_succ_error fails] at ok
      cases ok
  | ok left =>
    obtain ⟨us, d, split, derives, le, _⟩ := sound_tiers (sound_operand last depth) n first
    have run : (tiers (operand last depth) n).run ts =
        ⟨.ok left, ((tiers (operand last depth) n).run ts).left⟩ := by rw [← first]; rfl
    rw [runTier, tiers, run_leftAssoc_ok run] at h
    have all := earliest_chain hn left us _ d e derives.operand le h
    rwa [split] at all

theorem reports_tiers {last : Position} {depth : Nat} (h : Reports last depth 0) (n : Nat) :
    Reports last depth n := by
  induction n with
  | zero => exact h
  | succ n ih => exact reports_leftAssoc ih

/-! ## Operands -/

theorem runTier_zero (n : Nat) (last : Position) (ts : List Token) :
    runTier 0 n last ts = ⟨.error ⟨.nestedTooDeeply, nextPosition last ts⟩, ts⟩ := by
  induction n with
  | zero => rfl
  | succ n ih =>
    unfold runTier at ih ⊢
    simp only [tiers, leftAssoc, ih]

/-- An operand starts with a token after which the parser of tier `n` takes over, with room for one
level less: if that fails, it reports its error at the earliest token. -/
theorem earliest_inside {last : Position} {depth n : Nat} {t : Token} {ts : List Token}
    {e : ParseError} (inner : depth ≠ 0 → Reports last depth n)
    (fails : (runTier depth n last ts).result = .error e)
    (completes : ∀ us, Completes n depth us → Completes 0 (depth + 1) (t :: us))
    (refuses : ∀ us, Refuses (runTier depth n) us → Refuses (runTier (depth + 1) 0) (t :: us)) :
    Earliest (Completes 0 (depth + 1)) (Refuses (runTier (depth + 1) 0)) last (t :: ts) e := by
  cases depth with
  | zero =>
    -- with no room left nothing may follow, and the token itself is one too many
    have nothing : Refuses (runTier 0 n) [] := by
      intro last vs a ok
      rw [runTier_zero] at ok
      cases ok
    rw [runTier_zero] at fails
    cases fails
    exact @Earliest.nesting _ _ last [] ts t (completes_nil 0 0) (refuses [] nothing)
  | succ depth =>
    exact (inner (Nat.succ_ne_zero depth) fails).append [t] (fun us _ => completes us)
      (fun us _ _ => refuses us)

theorem refuses_cons_iff {depth : Nat} {t : Token} {us : List Token} :
    Refuses (runTier (depth + 1) 0) (t :: us) ↔ ∀ last vs a,
      (operandFrom last (operand last depth) t (us ++ vs)).result ≠ .ok a :=
  Iff.rfl

theorem Completes.unary {depth : Nat} {us : List Token} {t : Token} {op : PrefixOp}
    (h : Completes 0 depth us) (sign : (t.kind, op) ∈ prefixes) :
    Completes 0 (depth + 1) (t :: us) := by
  obtain ⟨vs, e, d, derives, le⟩ := h
  exact ⟨vs, _, _, .unary sign derives, Nat.succ_le_succ le⟩

theorem Refuses.unary {depth : Nat} {us : List Token} {t : Token} {op : PrefixOp}
    (h : Refuses (runTier depth 0) us) (sign : (t.kind, op) ∈ prefixes) :
    Refuses (runTier (depth + 1) 0) (t :: us) := by
  refine refuses_cons_iff.2 fun last vs a ok => ?_
  rw [operandFrom_unary sign] at ok
  obtain ⟨e, ok', _⟩ := Reply.result_map_ok ok
  exact h last vs e ok'

theorem Completes.parens {depth : Nat} {us : List Token} {t : Token}
    (h : Completes infixTiers.length depth us) (opens : t.kind = .leftParen) :
    Completes 0 (depth + 1) (t :: us) := by
  obtain ⟨vs, e, d, derives, le⟩ := h
  have all := Derives.parens (r := ⟨")", .rightParen, .start⟩) opens rfl derives
  rw [← List.cons_append, List.append_assoc] at all
  exact ⟨_, _, _, all, Nat.succ_le_succ le⟩

theorem Refuses.parens {depth : Nat} {us : List Token} {t : Token}
    (h : Refuses (runTier depth infixTiers.length) us) (opens : t.kind = .leftParen) :
    Refuses (runTier (depth + 1) 0) (t :: us) := by
  refine refuses_cons_iff.2 fun last vs a ok => ?_
  rw [operandFrom_leftParen opens] at ok
  obtain ⟨r, _, ok', _⟩ := closeParen_ok ok
  exact h last vs a ok'

/-- An expression that is complete is no operand if some other token than the closing parenthesis
follows it. -/
theorem refuses_unclosed {depth d : Nat} {us : List Token} {t r : Token} {e : Expr}
    (opens : t.kind = .leftParen) (derives : Expression us e d) (le : d ≤ depth)
    (stops : Stops infixTiers.length [r]) (unclosed : r.kind ≠ .rightParen) :
    Refuses (runTier (depth + 1) 0) (t :: us ++ [r]) := by
  rw [List.cons_append, refuses_cons_iff]
  intro last vs a ok
  rw [List.append_assoc, List.singleton_append, operandFrom_leftParen opens,
    run_eq_ok_of_derives last derives le (stops_cons_iff.2 (stops_cons_iff.1 stops))] at ok
  obtain ⟨r', closes, _, left⟩ := closeParen_ok ok
  obtain ⟨rfl, _⟩ := List.cons.inj left
  exact unclosed closes

theorem closeParen_error_cases {last : Position} {reply : Reply Expr} {err : ParseError}
    (h : (closeParen last reply).result = .error err) : reply.result = .error err ∨
      ∃ e, reply.result = .ok e ∧ err.fault = .parenExpected ∧
        ((reply.left = [] ∧ err.position = last) ∨
          ∃ r rest, reply.left = r :: rest ∧ r.kind ≠ .rightParen ∧ err.position = r.position) := by
  unfold closeParen at h
  split at h
  · next fails => exact .inl (fails.trans h)
  · next e r rest ok left =>
    split at h
    · cases h
    · next unclosed =>
      cases h
      exact .inr ⟨e, ok, rfl, .inr ⟨r, rest, left, unclosed, rfl⟩⟩
  · next e ok left =>
    cases h
    exact .inr ⟨e, ok, rfl, .inl ⟨left, rfl⟩⟩

theorem literal_error {read? : List Char → Option Number} {fault : String → ParseFault} {t : Token}
    {ts : List Token} {e : ParseError} (h : (literal read? fault t ts).result = .error e) :
    read? t.lexeme.toList = none ∧ e = ⟨fault t.lexeme, t.position⟩ := by
  unfold literal at h
  split at h
  · cases h
  · next none =>
    cases h
    exact ⟨none, rfl⟩

/-- A token that starts no operand, whatever follows it, is the earliest at fault. -/
theorem earliest_here {last : Position} {depth : Nat} {t : Token} {ts : List Token}
    {f : ParseFault} (shallow : f ≠ .nestedTooDeeply)
    (never : ∀ last vs a, (operandFrom last (operand last depth) t vs).result ≠ .ok a) :
    Earliest (Completes 0 (depth + 1)) (Refuses (runTier (depth + 1) 0)) last (t :: ts)
      ⟨f, t.position⟩ :=
  @Earliest.token _ _ last [] ts t f (completes_nil 0 depth) (refuses_cons_iff.2 never) shallow

theorem earliest_literal {last : Position} {depth : Nat} {t : Token} {ts : List Token}
    {e : ParseError} {read? : List Char → Option Number} {fault : String → ParseFault}
    (shallow : ∀ l, fault l ≠ .nestedTooDeeply)
    (same : ∀ last vs, operandFrom last (operand last depth) t vs = literal read? fault t vs)
    (h : (operandFrom last (operand last depth) t ts).result = .error e) :
    Earliest (Completes 0 (depth + 1)) (Refuses (runTier (depth + 1) 0)) last (t :: ts) e := by
  rw [same] at h
  obtain ⟨none, rfl⟩ := literal_error h
  refine earliest_here (shallow _) fun last vs a ok => ?_
  rw [same] at ok
  obtain ⟨n, some, _⟩ := literal_ok ok
  rw [none] at some
  cases some

theorem earliest_parens {last : Position} {depth : Nat} {t : Token} {ts : List Token}
    {e : ParseError} (inner : depth ≠ 0 → Reports last depth infixTiers.length)
    (opens : t.kind = .leftParen)
    (h : (operandFrom last (operand last depth) t ts).result = .error e) :
    Earliest (Completes 0 (depth + 1)) (Refuses (runTier (depth + 1) 0)) last (t :: ts) e := by
  rw [operandFrom_leftParen opens] at h
  obtain ⟨fault, position⟩ := e
  rcases closeParen_error_cases h with fails | ⟨x, ok, rfl, place⟩
  · exact earliest_inside inner fails (fun us h => h.parens opens) (fun us h => h.parens opens)
  · obtain ⟨us, d, split, derives, le, stops⟩ := sound_tiers (sound_operand last depth) _ ok
    have completes : Completes 0 (depth + 1) (t :: us) :=
      Completes.parens ⟨[], x, d, by rwa [List.append_nil], le⟩ opens
    rcases place with ⟨left, rfl⟩ | ⟨r, rest, left, unclosed, rfl⟩
    · rw [left, List.append_nil] at split
      rw [← split]
      exact .ending completes ParseFault.noConfusion
    · rw [left] at split stops
      rw [← split]
      exact .token completes (refuses_unclosed opens derives le
        (stops_cons_iff.2 (stops_cons_iff.1 stops)) unclosed) ParseFault.noConfusion

theorem reports_operand {last : Position} {depth : Nat}
    (inner : ∀ n, depth ≠ 0 → Reports last depth n) : Reports last (depth + 1) 0 := by
  intro ts e h
  cases ts with
  | nil =>
    cases h
    exact .ending (completes_nil 0 depth) ParseFault.noConfusion
  | cons t ts =>
    change (operandFrom last (operand last depth) t ts).result = .error e at h
    by_cases start : t.kind ∈ starters
    · rcases starters_cases start with ⟨op, sign⟩ | kind | kind | kind
      · rw [operandFrom_unary sign] at h
        exact earliest_inside (inner 0) (Reply.result_map_error h) (fun us h => h.unary sign)
          (fun us h => h.unary sign)
      · exact earliest_literal (fun _ => ParseFault.noConfusion)
          (fun _ _ => operandFrom_integer kind) h
      · exact earliest_literal (fun _ => ParseFault.noConfusion)
          (fun _ _ => operandFrom_float kind) h
      · exact earliest_parens (inner _) kind h
    · rw [operandFrom_other start] at h
      cases h
      refine earliest_here ParseFault.noConfusion fun last vs a ok => ?_
      rw [operandFrom_other start] at ok
      cases ok

/-- With room for at least one level, the parser of every tier reports its errors at the earliest
token. -/
theorem reports (last : Position) (depth n : Nat) : Reports last (depth + 1) n := by
  induction depth generalizing n with
  | zero => exact reports_tiers (reports_operand fun _ none => absurd rfl none) n
  | succ depth ih => exact reports_tiers (reports_operand fun n _ => ih n) n

/-! ## Statements -/

/-- The tokens can be completed to segments. -/
def Begins (us : List Token) : Prop := ∃ vs ss, Segmented (us ++ vs) ss

theorem statements_of_error {last : Position} {ts : List Token} {e : ParseError} (ne : ts ≠ [])
    (h : ((statement last).run ts).result = .error e) : (statements last ts).result = .error e := by
  rw [statements, if_neg ne]
  dsimp only
  split
  · next err fails =>
    rw [h] at fails
    cases fails
    rfl
  · next st ok =>
    rw [h] at ok
    cases ok

theorem head?_isPrefix_append {us ts : List Token} (h : us <+: ts) (ne : us ≠ [])
    (vs : List Token) : (us ++ vs).head? = ts.head? := by
  obtain ⟨rest, rfl⟩ := h
  cases us with
  | nil => exact absurd rfl ne
  | cons u us => rfl

theorem begins_of_completes {p : Option Token} {us : List Token}
    (print : ∀ t ∈ p, t.kind = .keyword .print_)
    (h : Completes infixTiers.length maxNesting us) : Begins (p.toList ++ us) := by
  obtain ⟨vs, e, d, derives, le⟩ := h
  have fits : (Segment.mk p (us ++ vs) e none).Fits [] :=
    ⟨print, by rintro _ ⟨⟩, ⟨d, le, derives⟩, by rintro _ ⟨⟩⟩
  have segmented := Segmented.cons fits .nil
  simp only [Segment.tokens, Option.toList_none, List.append_nil, ← List.append_assoc] at segmented
  exact ⟨vs, _, segmented⟩

/-- The errors of a statement are those of the expression in it. -/
theorem earliest_statement {last : Position} {ts : List Token} {e : ParseError}
    (h : ((statement last).run ts).result = .error e) :
    Earliest Begins (Refuses statements) last ts e := by
  obtain ⟨p, us, rfl, print, head⟩ := optional_split (.keyword .print_) ts
  rw [run_statement_append print head] at h
  have inside : Earliest _ _ last us e :=
    reports last 255 infixTiers.length (Reply.result_map_error h)
  refine inside.append p.toList (fun vs _ h => begins_of_completes print h) ?_
  intro vs pre ne refuses last' ws a ok
  obtain ⟨err, fails⟩ := refuses.error last' ws
  have run : ((statement last').run (p.toList ++ vs ++ ws)).result = .error err := by
    rw [List.append_assoc, run_statement_append print
      (by rw [head?_isPrefix_append pre ne]; exact head), Reply.map]
    exact congrArg (Except.map _) fails
  have nonempty : p.toList ++ vs ++ ws ≠ [] :=
    List.append_ne_nil_of_left_ne_nil (List.append_ne_nil_of_right_ne_nil _ ne) _
  rw [statements_of_error nonempty run] at ok
  cases ok

/-- A segment before tokens that can be completed can be completed. -/
theorem Begins.segment {s : Segment} {rest us : List Token} (fits : s.Fits rest) (pre : us <+: rest)
    (h : Begins us) : Begins (s.tokens ++ us) := by
  by_cases ne : us = []
  · subst ne
    have alone : s.Fits [] := fits.of_head (by rintro _ ⟨⟩)
    refine ⟨[], [s], ?_⟩
    rw [List.append_nil]
    exact .cons alone .nil
  · obtain ⟨vs, ss, segmented⟩ := h
    have fits' : s.Fits (us ++ vs) := fits.of_head (by
      rw [head?_isPrefix_append pre ne]
      exact fun _ mem => mem)
    have all := Segmented.cons fits' segmented
    rw [← List.append_assoc] at all
    exact ⟨vs, _, all⟩

theorem Refuses.segment {s : Segment} {rest us : List Token} (fits : s.Fits rest)
    (head : s.semicolon? = none → ∀ t ∈ rest.head?, t.kind ≠ .semicolon) (pre : us <+: rest)
    (ne : us ≠ []) (h : Refuses statements us) : Refuses statements (s.tokens ++ us) := by
  intro last vs a ok
  have same := head?_isPrefix_append pre ne vs
  have fits' : s.Fits (us ++ vs) := fits.of_head (by rw [same]; exact fun _ mem => mem)
  rw [List.append_assoc, statements_of_run (run_statement_of_fits last fits'),
    skipSemicolon_append fits.semicolon (by rw [same]; exact head)] at ok
  obtain ⟨a', ok', _⟩ := Reply.result_map_ok ok
  exact h last vs a' ok'

theorem earliest_statements {last : Position} (ts : List Token) (e : ParseError)
    (h : (statements last ts).result = .error e) :
    Earliest Begins (Refuses statements) last ts e := by
  fun_induction statements last ts generalizing e with
  | case1 => cases h
  | case2 ts _ reply err fails =>
    cases h
    exact earliest_statement fails
  | case3 ts _ reply st ok _ ih =>
    have run : (statement last).run ts = ⟨.ok st, reply.left⟩ := by rw [← ok]
    obtain ⟨s, fits, split, _, head⟩ := segment_of_run run
    have rest := (ih e (Reply.result_map_error h)).append s.tokens
      (fun us pre h => h.segment fits pre) (fun us pre ne h => h.segment fits head pre ne)
    rwa [split] at rest

end Parser

/-! ## Programs -/

/-- The tokens can be completed to a program. -/
def BeginsProgram (us : List Token) : Prop := ∃ vs p, Program.ofTokens (us ++ vs) = .ok p

theorem beginsProgram_of_begins {us : List Token} (h : Parser.Begins us) : BeginsProgram us := by
  obtain ⟨vs, ss, segmented⟩ := h
  exact ⟨vs, _, Program.ofTokens_ok_iff.2 ⟨ss, segmented, rfl⟩⟩

theorem not_beginsProgram_of_refuses {us : List Token}
    (h : Parser.Refuses Parser.statements us) : ¬ BeginsProgram us := by
  rintro ⟨vs, p, ok⟩
  obtain ⟨statements, ok', _⟩ := Reply.result_map_ok ok
  exact h _ vs statements ok'

theorem Program.earliest_of_error {ts : List Token} {e : ParseError}
    (h : Program.ofTokens ts = .error e) :
    Earliest BeginsProgram (¬ BeginsProgram ·) (Cursor.ofTokens ts).last ts e :=
  (Parser.earliest_statements ts e (Reply.result_map_error h)).append []
    (fun _ _ h => beginsProgram_of_begins h) (fun _ _ _ h => not_beginsProgram_of_refuses h)

theorem Cursor.last_of_ne_nil {ts : List Token} (ne : ts ≠ []) :
    ∃ t, ts.getLast? = some t ∧ (ofTokens ts).last = t.position := by
  refine ⟨ts.getLast ne, List.getLast?_eq_some_getLast ne, ?_⟩
  rw [ofTokens, List.getLast?_eq_some_getLast ne]
  rfl

/-- The place is that of token `i`, or that of the last token if the tokens end before it. -/
def PlaceOf (ts : List Token) (i : Nat) (p : Position) : Prop :=
  (∃ t, ts[i]? = some t ∧ p = t.position) ∨
    (i = ts.length ∧ ∃ t, ts.getLast? = some t ∧ p = t.position)

theorem PlaceOf.mem {ts : List Token} {i : Nat} {p : Position} (h : PlaceOf ts i p) :
    ∃ t ∈ ts, p = t.position := by
  rcases h with ⟨t, get, place⟩ | ⟨_, t, get, place⟩
  · exact ⟨t, List.mem_of_getElem? get, place⟩
  · exact ⟨t, List.mem_of_getLast? get, place⟩

theorem placeOf_nextPosition {us rest : List Token} {final : Token}
    (h : (us ++ rest).getLast? = some final) :
    PlaceOf (us ++ rest) us.length (Parser.nextPosition final.position rest) := by
  cases rest with
  | nil => exact .inr ⟨by rw [List.append_nil], final, h, rfl⟩
  | cons t rest =>
    refine .inl ⟨t, ?_, rfl⟩
    rw [List.getElem?_append_right (Nat.le_refl _), Nat.sub_self, List.getElem?_cons_zero]

theorem take_length_succ (us rest : List Token) (t : Token) :
    (us ++ t :: rest).take (us.length + 1) = us ++ [t] := by
  rw [List.take_length_add_append, List.take_succ_cons, List.take_zero]

/-- An error of a program stands at the earliest token that no program can have there, or at the
last token if all of them can be completed; and nesting is refused at the token after the one that
is a level too deep. In any case the error stands at one of the tokens. -/
theorem Program.ofTokens_error_at_earliest_token {ts : List Token} {e : ParseError}
    (h : Program.ofTokens ts = .error e) :
    (e.fault ≠ .nestedTooDeeply → ∃ i, BeginsProgram (ts.take i) ∧ PlaceOf ts i e.position ∧
      (i < ts.length → ¬ BeginsProgram (ts.take (i + 1)))) ∧
    (e.fault = .nestedTooDeeply → ∃ i, 1 ≤ i ∧ BeginsProgram (ts.take (i - 1)) ∧
      ¬ BeginsProgram (ts.take i) ∧ PlaceOf ts i e.position) ∧
    ∃ t ∈ ts, e.position = t.position := by
  have ne : ts ≠ [] := by
    rintro rfl
    rw [ofTokens_ok_iff.2 ⟨[], .nil, rfl⟩] at h
    cases h
  obtain ⟨final, getLast, last⟩ := Cursor.last_of_ne_nil ne
  have earliest := earliest_of_error h
  rw [last] at earliest
  cases earliest with
  | @token us rest t fault before here shallow =>
    have place := placeOf_nextPosition getLast
    refine ⟨fun _ => ⟨us.length, ?_, place, fun _ => ?_⟩,
      fun deep => absurd deep shallow, place.mem⟩
    · rwa [List.take_left]
    · rwa [take_length_succ]
  | ending before shallow =>
    rw [← List.append_nil ts] at getLast
    have place := placeOf_nextPosition getLast
    rw [List.append_nil] at place
    refine ⟨fun _ => ⟨ts.length, ?_, place, fun lt => absurd lt (Nat.lt_irrefl _)⟩,
      fun deep => absurd deep shallow, place.mem⟩
    rwa [List.take_length]
  | @nesting us rest t before here =>
    rw [← List.singleton_append, ← List.append_assoc] at getLast
    have place := placeOf_nextPosition getLast
    rw [List.append_assoc, List.singleton_append, List.length_append,
      List.length_singleton] at place
    refine ⟨fun shallow => absurd rfl shallow,
      fun _ => ⟨us.length + 1, Nat.le_add_left .., ?_, ?_, place⟩, place.mem⟩
    · rwa [Nat.add_sub_cancel, List.take_left]
    · rwa [take_length_succ]

/-- In `(1; 2` the semicolon is the first token that no program can have there. -/
theorem Program.semicolon_in_parentheses_is_earliest :
    ∃ ts, ts.map Token.kind = [.leftParen, .integer, .semicolon, .integer] ∧
      Program.ofTokens ts = .error ⟨.parenExpected, ⟨1, 2⟩⟩ ∧
      ∃ i, BeginsProgram (ts.take i) ∧ PlaceOf ts i ⟨1, 2⟩ ∧
        (i < ts.length → ¬ BeginsProgram (ts.take (i + 1))) := by
  let ts : List Token := [⟨"(", .leftParen, ⟨1, 0⟩⟩, ⟨"1", .integer, ⟨1, 1⟩⟩,
    ⟨";", .semicolon, ⟨1, 2⟩⟩, ⟨"2", .integer, ⟨1, 4⟩⟩]
  have fails : Program.ofTokens ts = .error ⟨.parenExpected, ⟨1, 2⟩⟩ := by decide +kernel
  exact ⟨ts, rfl, fails, (ofTokens_error_at_earliest_token fails).1 ParseFault.noConfusion⟩

end Ember
