import Ember.Proofs.Rereading
import Ember.Proofs.Spacing
import Ember.Proofs.ViablePrefix

/-!
# Literals that cannot be read

When a parser reports that a literal cannot be read, one of the tokens it was given is that literal:
the error has its lexeme and its place. Tokens of a source have lexemes that the scanner has cut,
and of these every numeral with a point can be read and every numeral without one that is in range.

1. `Blames`: an error about a literal is that of one of the tokens. Each parser passes on what the
   parsers under it blame (`blames_tiers`, `blames_operand`, `blames_statements`).
2. `Lexeme.digits_of_integer`, `Lexeme.digits_of_float`: the shapes of the numerals in a source, and
   `Decimal.readBinary64?_of_point` what those with a point stand for.
3. `Program.literal_fault_of_source`: what is left of such errors for a program from a source.
-/

namespace Ember

open Lexical Grammar

/-! ## Who is to blame -/

/-- The fault is that a literal cannot be read. -/
def ParseFault.OfLiteral : ParseFault → Prop
  | integerOutOfRange _ | invalidFloat _ => True
  | _ => False

/-- The token is a literal that cannot be read, and the error says so. -/
inductive Token.Unread (t : Token) : ParseError → Prop
  | integer (kind : t.kind = .integer) (unread : readInt64? t.lexeme.toList = none) :
      Unread t ⟨.integerOutOfRange t.lexeme, t.position⟩
  | float (kind : t.kind = .float) (unread : Decimal.readBinary64? t.lexeme.toList = none) :
      Unread t ⟨.invalidFloat t.lexeme, t.position⟩

/-- An error about a literal is that of one of the tokens. -/
def Blames (ts : List Token) (e : ParseError) : Prop :=
  e.fault.OfLiteral → ∃ t ∈ ts, t.Unread e

theorem Blames.mono {ts us : List Token} {e : ParseError} (h : Blames ts e) (le : ts <:+ us) :
    Blames us e := by
  intro literal
  obtain ⟨t, mem, unread⟩ := h literal
  exact ⟨t, le.subset mem, unread⟩

namespace Parser

/-- Every error that the parser reports about a literal is that of a token it was given. -/
def BlamesTokens {α : Type} (run : List Token → Reply α) : Prop :=
  ∀ ⦃ts e⦄, (run ts).result = .error e → Blames ts e

theorem blames_chain {op? : TokenKind → Option InfixOp} {p : Parser Expr}
    (hp : BlamesTokens p.run) (left : Expr) : BlamesTokens (chain op? p left) := by
  intro ts e h
  fun_induction chain op? p left ts with
  | case1 => cases h
  | case2 => cases h
  | case3 left t ts op sign reply err fails =>
    cases h
    exact (hp fails).mono (List.suffix_cons t ts)
  | case4 left t ts op sign reply right ok _ ih =>
    exact (ih h).mono ((p.left_suffix ts).trans (List.suffix_cons t ts))

theorem blames_tiers {p : Parser Expr} (hp : BlamesTokens p.run) (n : Nat) :
    BlamesTokens (tiers p n).run := by
  induction n with
  | zero => exact hp
  | succ n ih =>
    intro ts e h
    simp only [tiers, leftAssoc] at h
    split at h
    · next fails =>
      cases h
      exact ih fails
    · exact (blames_chain ih _ h).mono ((tiers p n).left_suffix ts)

theorem blames_operandFrom {last : Position} {p : Parser Expr} (hp : BlamesTokens p.run)
    {t : Token} {ts : List Token} {e : ParseError}
    (h : (operandFrom last p t ts).result = .error e) : Blames (t :: ts) e := by
  have tail := List.suffix_cons t ts
  by_cases start : t.kind ∈ starters
  · rcases starters_cases start with ⟨op, sign⟩ | kind | kind | kind
    · rw [operandFrom_unary sign] at h
      exact (hp (Reply.result_map_error h)).mono tail
    · rw [operandFrom_integer kind] at h
      obtain ⟨none, rfl⟩ := literal_error h
      exact fun _ => ⟨t, List.mem_cons_self, .integer kind (Option.map_eq_none_iff.1 none)⟩
    · rw [operandFrom_float kind] at h
      obtain ⟨none, rfl⟩ := literal_error h
      exact fun _ => ⟨t, List.mem_cons_self, .float kind (Option.map_eq_none_iff.1 none)⟩
    · rw [operandFrom_leftParen kind] at h
      obtain fails | ⟨_, _, fault, _⟩ := closeParen_error_cases h
      · exact (blames_tiers hp _ fails).mono tail
      · rw [Blames, fault]
        exact False.elim
  · rw [operandFrom_other start] at h
    cases h
    exact False.elim

theorem blames_operand (last : Position) (depth : Nat) :
    BlamesTokens (operand last depth).run := by
  induction depth with
  | zero =>
    intro ts e h
    cases h
    exact False.elim
  | succ depth ih =>
    intro ts e h
    cases ts with
    | nil =>
      cases h
      exact False.elim
    | cons t ts => exact blames_operandFrom ih h

theorem blames_expression (last : Position) : BlamesTokens (expression last).run :=
  blames_tiers (blames_operand last maxNesting) InfixOp.tierCount

theorem blames_statement (last : Position) : BlamesTokens (statement last).run := by
  intro ts e h
  cases ts with
  | nil => exact blames_expression last (Reply.result_map_error h)
  | cons t ts =>
    simp only [statement] at h
    split at h
    · exact (blames_expression last (Reply.result_map_error h)).mono (List.suffix_cons t ts)
    · exact blames_expression last (Reply.result_map_error h)

theorem blames_statements (last : Position) : BlamesTokens (statements last) := by
  intro ts e h
  fun_induction statements last ts with
  | case1 => cases h
  | case2 ts ne reply err fails =>
    cases h
    exact blames_statement last fails
  | case3 ts ne reply st ok _ ih =>
    exact (ih (Reply.result_map_error h)).mono
      ((skipSemicolon_suffix reply.left).trans ((statement last).left_suffix ts))

end Parser

theorem Program.blames_of_ofTokens {ts : List Token} {e : ParseError}
    (fails : Program.ofTokens ts = .error e) : Blames ts e :=
  Parser.blames_statements (Cursor.ofTokens ts).last
    (Reply.result_map_error (r := Parser.statements (Cursor.ofTokens ts).last ts) fails)

/-! ## Numerals in a source -/

namespace Lexical

theorem Lexeme.digits_of_integer {next : Option Char} {l : List Char}
    (h : Lexeme next .integer l) : l ≠ [] ∧ ∀ c ∈ l, Digit c := by
  cases h with
  | integer ne digits _ => exact ⟨ne, digits⟩
  | mark mem _ =>
    exact absurd (by decide)
      (mark_no_literal .integer (List.mem_append_left _ (List.mem_map_of_mem mem)))
  | pair mem =>
    exact absurd (by decide)
      (mark_no_literal .integer (List.mem_append_right _ (List.mem_map_of_mem mem)))

theorem Lexeme.digits_of_float {next : Option Char} {l : List Char} (h : Lexeme next .float l) :
    ∃ ds fs, l = ds ++ '.' :: fs ∧ ds ≠ [] ∧ (∀ c ∈ ds, Digit c) ∧ fs ≠ [] ∧
      ∀ c ∈ fs, Digit c := by
  cases h with
  | @float ds fs ne digits ne' places _ => exact ⟨ds, fs, rfl, ne, digits, ne', places⟩
  | mark mem _ =>
    exact absurd (by decide)
      (mark_no_literal .float (List.mem_append_left _ (List.mem_map_of_mem mem)))
  | pair mem =>
    exact absurd (by decide)
      (mark_no_literal .float (List.mem_append_right _ (List.mem_map_of_mem mem)))

end Lexical

/-- Every numeral with a point and a digit before it stands for a number. -/
theorem Decimal.readBinary64?_of_point {ds fs : List Char} (ne : ds ≠ [])
    (digits : ∀ c ∈ ds, Digit c) (places : ∀ c ∈ fs, Digit c) : readBinary64? (ds ++ '.' :: fs) =
      some (toBinary64 false ⟨digitsValue (ds ++ fs), 0 - fs.length⟩) := by
  have read := read?_of_point digits ne places ends_nil
  rw [List.append_nil] at read
  obtain ⟨c, cs, rfl⟩ := List.exists_cons_of_ne_nil ne
  have number := Layout.readBinary64?_sign (digits c List.mem_cons_self) false (cs ++ '.' :: fs)
  rw [← List.cons_append, read] at number
  exact number

/-- The only error about a literal that a program from a source can have is that of an integer
token whose digits stand for more than the greatest integer. -/
theorem Program.literal_fault_of_source {s : String} {ts : List Token} {e : ParseError}
    (lexed : Token.ofSource s = .ok ts) (fails : Program.ofTokens ts = .error e)
    (literal : e.fault.OfLiteral) :
    ∃ t ∈ ts, t.kind = .integer ∧ e = ⟨.integerOutOfRange t.lexeme, t.position⟩ ∧
      t.lexeme ≠ "" ∧ (∀ c ∈ t.lexeme.toList, '0' ≤ c ∧ c ≤ '9') ∧
      Int64.maxValue.toInt < digitsValue t.lexeme.toList := by
  obtain ⟨t, mem, unread⟩ := Program.blames_of_ofTokens fails literal
  obtain ⟨_, next, lexeme⟩ := lexeme_of_ofSource lexed t mem
  cases unread with
  | integer kind unread =>
    rw [kind] at lexeme
    obtain ⟨ne, digits⟩ := lexeme.digits_of_integer
    rw [readInt64?_digits ne digits] at unread
    have beyond : ¬ (digitsValue t.lexeme.toList : Int) ≤ Int64.maxValue.toInt := by
      intro fits
      rw [if_pos fits] at unread
      cases unread
    exact ⟨t, mem, kind, rfl, mt String.toList_eq_nil_iff.2 ne, digits, Int.not_le.1 beyond⟩
  | float kind unread =>
    rw [kind] at lexeme
    obtain ⟨ds, fs, split, ne, digits, _, places⟩ := lexeme.digits_of_float
    rw [split, Decimal.readBinary64?_of_point ne digits places] at unread
    cases unread

end Ember
