import Ember.Outcome
import Ember.Proofs.Cut
import Ember.Proofs.NumberText
import Ember.Proofs.Statement

/-!
# Texts of numbers as sources

The text of a number can be evaluated as a source. What is written as digits, or as digits with a
point among them, is a literal, and a sign before it is the prefix operator; anything else has a
letter in it, which is a word to the scanner.

1. A literal with an optional sign is a source of one or two tokens (`ofSource_signed`). If the
   literal can be read, its value or the negated value is the result (`evaluate_signed`); the range
   of integers is that of the unsigned part (`evaluate_signed_of_fits`, `evaluate_signed_of_lt`).
2. A word is part of no expression, so that a source with a word in it is refused in parsing
   (`evaluate_of_word`). An exponent is a word for its letter (`cut_exponent`), and so are the names
   of the numbers without digits.

Main statement: `number_text_evaluates_to_itself_or_fails`.
-/

namespace Ember

open Lexical Grammar

/-! ## Literals with a sign -/

/-- The token of a sign, where there is one. -/
def signTokens (negative : Bool) : List Token :=
  if negative then [⟨"-", .minus, ⟨1, 0⟩⟩] else []

/-- The place after the sign. -/
def afterSign (negative : Bool) : Position := if negative then ⟨1, 1⟩ else ⟨1, 0⟩

theorem cut_sign {cs : List Char} {us : List (TokenKind × List Char)} (cut : Cut cs us)
    (negative : Bool) :
    Cut (Layout.sign negative cs) ((if negative then [(.minus, ['-'])] else []) ++ us) := by
  cases negative with
  | false => exact cut
  | true =>
    refine Cut.cons (.mark (by decide) fun d _ pair => ?_) cut
    simp [pairs] at pair

theorem cut_single {k : TokenKind} {l : List Char} (lexeme : Lexeme none k l) : Cut l [(k, l)] := by
  have cut := Cut.cons (show Lexeme ([] : List Char).head? k l from lexeme) .nil
  rwa [List.append_nil] at cut

theorem ofSource_signed {k : TokenKind} {l : List Char} (lexeme : Lexeme none k l)
    (token : k ≠ .insignificant) (negative : Bool) :
    Token.ofSource (String.ofList (Layout.sign negative l)) =
      .ok (signTokens negative ++ [⟨String.ofList l, k, afterSign negative⟩]) := by
  have cut := cut_sign (cut_single lexeme) negative
  rw [← String.toList_ofList (l := Layout.sign negative l)] at cut
  refine Token.ofSource_ok_iff.2 ⟨_, cut, ?_⟩
  cases negative with
  | false =>
    show _ = tokensFrom .start [(k, l)]
    rw [tokensFrom, if_neg token]
    rfl
  | true =>
    show _ = tokensFrom .start [(.minus, ['-']), (k, l)]
    rw [tokensFrom, if_neg (by decide), tokensFrom, if_neg token]
    rfl

theorem derives_signed {t : Token} {n : Number} (literal : Derives 0 [t] (.literal n t.position) 1)
    (negative : Bool) : ∃ e, Ast.ofTokens (signTokens negative ++ [t]) = .ok ⟨some e⟩ ∧
      e.evaluate = .ok (if negative then n.negate else n) := by
  cases negative with
  | false =>
    have whole := literal.of_operand infixTiers.length
    exact ⟨_, Ast.ofTokens_ok_iff.2 (.inr ⟨_, rfl, 1, by decide, whole⟩), rfl⟩
  | true =>
    have sign : Derives 0 (⟨"-", .minus, ⟨1, 0⟩⟩ :: [t])
        (.unary .negate (.literal n t.position) ⟨1, 0⟩) 2 := .unary (by decide) literal
    have whole := sign.of_operand infixTiers.length
    exact ⟨_, Ast.ofTokens_ok_iff.2 (.inr ⟨_, rfl, 2, by decide, whole⟩), rfl⟩

/-- A literal with an optional sign evaluates to its value, negated by the sign. -/
theorem evaluate_signed {k : TokenKind} {l : List Char} {n : Number} (lexeme : Lexeme none k l)
    (literal : ∀ p, Derives 0 [⟨String.ofList l, k, p⟩] (.literal n p) 1) (negative : Bool) :
    evaluate (String.ofList (Layout.sign negative l)) =
      .ok (if negative then n.negate else n) := by
  have token : k ≠ .insignificant := by
    rintro rfl
    have kind : .insignificant ∈ expressionKinds :=
      (literal .start).kind_mem _ (List.mem_singleton_self _)
    exact absurd kind (by decide)
  obtain ⟨e, parsed, value⟩ := derives_signed (literal (afterSign negative)) negative
  rw [evaluate_of_ast (ofSource_signed lexeme token negative) parsed]
  show e.evaluate.mapError _ = _
  rw [value]
  rfl

/-! ## Integer literals -/

theorem readInt64?_digits {ds : List Char} (ne : ds ≠ []) (digits : ∀ c ∈ ds, Digit c) :
    readInt64? ds = if (digitsValue ds : Int) ≤ Int64.maxValue.toInt then
      some (.ofInt (digitsValue ds)) else none := by
  have read : readInt? ds = some (digitsValue ds : Int) := by
    cases ds with
    | nil => exact absurd rfl ne
    | cons c cs =>
      rw [readInt?, splitSign_of_digit (digits c List.mem_cons_self)]
      exact if_pos (isNumeral_of_digits ne digits)
  have low : Int64.minValue.toInt ≤ (digitsValue ds : Int) := by
    rw [Int64.toInt_minValue]
    omega
  simp only [readInt64?, read, low, true_and]

theorem evaluate_signed_of_fits {ds : List Char} (ne : ds ≠ []) (digits : ∀ c ∈ ds, Digit c)
    (fits : (digitsValue ds : Int) ≤ Int64.maxValue.toInt) (negative : Bool) :
    evaluate (String.ofList (Layout.sign negative ds)) =
      .ok (.int (.ofInt (if negative then -digitsValue ds else digitsValue ds))) := by
  have read : readInt64? ds = some (.ofInt (digitsValue ds)) := by
    rw [readInt64?_digits ne digits, if_pos fits]
  rw [evaluate_signed (n := .int (.ofInt (digitsValue ds)))
    (.integer ne digits (by rintro _ ⟨⟩)) ?_ negative]
  · cases negative
    · rfl
    · show Except.ok (Number.int (-Int64.ofInt (digitsValue ds))) = _
      rw [← Int64.ofInt_neg]
      rfl
  · intro p
    refine .integer rfl ?_
    rw [String.toList_ofList, read]

/-- An operand that is refused is refused as an expression too. -/
theorem Parser.run_tiers_error {p : Parser Expr} {ts : List Token} {err : ParseError}
    (h : (p.run ts).result = .error err) (n : Nat) : ((tiers p n).run ts).result = .error err := by
  induction n with
  | zero => exact h
  | succ n ih => exact run_leftAssoc_error ih

theorem Ast.ofTokens_of_operand_error {t : Token} {ts : List Token} {err : ParseError}
    (h : ∀ last, ((Parser.operand last maxNesting).run (t :: ts)).result = .error err) :
    Ast.ofTokens (t :: ts) = .error err := by
  show (Cursor.finish ((Parser.expression (Cursor.ofTokens (t :: ts)).last).run
    (t :: ts))).result = .error err
  simp only [Cursor.finish, Parser.expression, Parser.run_tiers_error (h _)]

theorem Parser.run_operand_of_unread {t : Token} (kind : t.kind = .integer)
    (unread : readInt64? t.lexeme.toList = none) (last : Position) (depth : Nat)
    (ts : List Token) : ((operand last (depth + 1)).run (t :: ts)).result =
      .error ⟨.integerOutOfRange t.lexeme, t.position⟩ := by
  rw [run_operand_succ, operandFrom_integer kind, literal, unread]
  rfl

theorem Parser.run_operand_unary_error {t : Token} {op : PrefixOp}
    (sign : (t.kind, op) ∈ prefixes) {last : Position} {depth : Nat} {ts : List Token}
    {err : ParseError} (h : ((operand last depth).run ts).result = .error err) :
    ((operand last (depth + 1)).run (t :: ts)).result = .error err := by
  rw [run_operand_succ, operandFrom_unary sign]
  show ((operand last depth).run ts).result.map _ = _
  rw [h]
  rfl

/-- The range of the integers is that of the literal, also where a sign stands before it. -/
theorem evaluate_signed_of_lt {ds : List Char} (ne : ds ≠ []) (digits : ∀ c ∈ ds, Digit c)
    (beyond : Int64.maxValue.toInt < (digitsValue ds : Int)) (negative : Bool) :
    evaluate (String.ofList (Layout.sign negative ds)) =
      .error ⟨.parse, "integer literal '" ++ String.ofList ds ++ "' out of range",
        afterSign negative⟩ := by
  have read : readInt64? ds = none := by
    rw [readInt64?_digits ne digits, if_neg (Int.not_le.2 beyond)]
  have lexeme : Lexeme none .integer ds := .integer ne digits (by rintro _ ⟨⟩)
  have lexed := ofSource_signed lexeme (by decide) negative
  have parsed : Ast.ofTokens
      (signTokens negative ++ [⟨String.ofList ds, .integer, afterSign negative⟩]) =
        .error ⟨.integerOutOfRange (String.ofList ds), afterSign negative⟩ := by
    generalize afterSign negative = p
    have unread := Parser.run_operand_of_unread (t := ⟨String.ofList ds, .integer, p⟩) rfl
      (by rw [String.toList_ofList, read])
    cases negative with
    | false => exact Ast.ofTokens_of_operand_error fun last => unread last 255 []
    | true =>
      have minus : (TokenKind.minus, PrefixOp.negate) ∈ prefixes := by decide
      exact Ast.ofTokens_of_operand_error fun last =>
        Parser.run_operand_unary_error minus (unread last 254 [])
  exact evaluate_of_parseError lexed parsed

/-! ## Floating-point literals -/

/-- Digits with a point among them, after an optional sign. -/
def PlainNotation (cs : List Char) : Prop :=
  ∃ negative ds fs, cs = Layout.sign negative (ds ++ '.' :: fs) ∧ ds ≠ [] ∧ fs ≠ [] ∧
    (∀ c ∈ ds, Digit c) ∧ ∀ c ∈ fs, Digit c

theorem Decimal.neg_toBinary64 (d : Decimal) : (d.toBinary64 false).neg = d.toBinary64 true := by
  rw [toBinary64_eq, toBinary64_eq]
  unfold Binary64.ofRatio
  split <;> rfl

/-- A number in plain notation evaluates to the number that it is read as. -/
theorem evaluate_of_plainNotation {s : String} (plain : PlainNotation s.toList) {x : Binary64}
    (read : Decimal.readBinary64? s.toList = some x) : evaluate s = .ok (.float x) := by
  obtain ⟨negative, ds, fs, text, ne, ne', digits, places⟩ := plain
  obtain ⟨c, cs, rfl⟩ := List.exists_cons_of_ne_nil ne
  have digit := digits c List.mem_cons_self
  have point : (c :: cs) ++ '.' :: fs = c :: (cs ++ '.' :: fs) := rfl
  -- reading with and without the sign gives opposite numbers
  rw [text, point, Layout.readBinary64?_sign digit, Option.map_eq_some_iff] at read
  obtain ⟨d, unsigned, rfl⟩ := read
  have literal : Decimal.readBinary64? (c :: cs ++ '.' :: fs) = some (d.toBinary64 false) := by
    have read := Layout.readBinary64?_sign digit false (cs ++ '.' :: fs)
    rw [unsigned] at read
    exact read
  rw [← String.ofList_toList (s := s), text, evaluate_signed (n := .float (d.toBinary64 false))
    (.float ne digits ne' places (by rintro _ ⟨⟩)) ?_ negative]
  · cases negative with
    | false => rfl
    | true =>
      show Except.ok (Number.float (d.toBinary64 false).neg) = _
      rw [d.neg_toBinary64]
  · intro p
    refine .float rfl ?_
    rw [String.toList_ofList, literal]

/-! ## Words -/

/-- A source with a word in it that is no keyword is no expression. -/
theorem evaluate_of_word {s : String} {us : List (TokenKind × List Char)} (cut : Cut s.toList us)
    {l : List Char} (word : (.identifier, l) ∈ us) :
    ∃ e, evaluate s = .error e ∧ e.phase = .parse := by
  have lexed := Token.ofSource_ok_iff.2 ⟨us, cut, rfl⟩
  obtain ⟨t, mem, kind⟩ : ∃ t ∈ tokensFrom .start us, t.kind = .identifier := by
    have piece : (.identifier, l) ∈ (tokensFrom .start us).map pieceOf := by
      rw [map_pieceOf_tokensFrom]
      exact List.mem_filter.2 ⟨word, rfl⟩
    obtain ⟨t, mem, same⟩ := List.mem_map.1 piece
    exact ⟨t, mem, congrArg Prod.fst same⟩
  cases parsed : Ast.ofTokens (tokensFrom .start us) with
  | error err => exact ⟨_, evaluate_of_parseError lexed parsed, rfl⟩
  | ok a =>
    rcases Ast.ofTokens_ok_iff.1 parsed with ⟨empty, _⟩ | ⟨_, _, _, _, derives⟩
    · rw [empty] at mem
      cases mem
    · have expression := derives.kind_mem t mem
      rw [kind] at expression
      exact absurd expression (by decide)

/-- A word of letters that spells no keyword. -/
theorem lexeme_of_letters {w : List Char} (letters : w.all Token.isWordStart = true) (ne : w ≠ [])
    (free : TokenKind.ofWord (String.ofList w) = .identifier) : Lexeme none .identifier w := by
  obtain ⟨c, cs, rfl⟩ := List.exists_cons_of_ne_nil ne
  have start : ∀ d ∈ c :: cs, WordStart d := fun d mem =>
    isWordStart_iff.1 (List.all_eq_true.1 letters d mem)
  rw [List.forall_mem_cons] at start
  refine .identifier start.1 (fun d mem => .inl (start.2 d mem)) (by rintro _ ⟨⟩) fun k word => ?_
  rw [← word, String.ofList_toList, ofWord_eq_keyword rfl] at free
  cases free

/-- The letter of an exponent and the digits right after it are a word. -/
theorem lexeme_of_exponent {next : Option Char} {ds : List Char} (digits : ∀ c ∈ ds, Digit c)
    (ends : ∀ d ∈ next, ¬ WordPart d) : Lexeme next .identifier ('e' :: ds) := by
  refine .identifier (by decide) (fun d mem => .inr (digits d mem)) ends fun k word => ?_
  cases ds with
  | nil => cases k <;> exact absurd word (by decide)
  | cons d ds =>
    -- keywords are made of letters
    have letters := (keyword_letters k).2
    rw [word] at letters
    have letter := letters d (List.mem_cons_of_mem _ List.mem_cons_self)
    exact letter.not_digit (digits d List.mem_cons_self)

theorem cut_exponent (k : Int) :
    ∃ l us, Cut ('e' :: (Int.repr k).toList) ((.identifier, l) :: us) := by
  have digits : ∀ c ∈ Nat.toDigits 10 k.natAbs, Digit c := digit_of_mem_toDigits
  rw [toList_repr_int]
  by_cases negative : k < 0
  · have minus : ∀ d ∈ some '-', ¬ WordPart d := by
      rintro _ ⟨⟩
      simp [WordPart, WordStart, Digit]
    have letter : Lexeme (Layout.sign true (Nat.toDigits 10 k.natAbs)).head? .identifier ['e'] :=
      lexeme_of_exponent (by simp) minus
    have number : Lexeme none .integer (Nat.toDigits 10 k.natAbs) :=
      .integer Nat.toDigits_ne_nil digits (by rintro _ ⟨⟩)
    rw [decide_eq_true negative]
    exact ⟨_, _, .cons letter (cut_sign (cut_single number) true)⟩
  · rw [decide_eq_false negative]
    exact ⟨_, _, cut_single (lexeme_of_exponent digits (by rintro _ ⟨⟩))⟩

/-- A numeral with an exponent has a word in it, whichever way its first digits are written. -/
theorem cut_withExponent {ds : List Char} (ne : ds ≠ []) (digits : ∀ c ∈ ds, Digit c) (e : Int) :
    ∃ l us, Cut (Layout.withExponent ds e) us ∧ (.identifier, l) ∈ us := by
  obtain ⟨l, us, cut⟩ := cut_exponent (e - 1)
  have ends : ∀ c ∈ some 'e', ¬ Digit c ∧ c ≠ '.' := by
    rintro _ ⟨⟩
    decide
  obtain ⟨c, cs, rfl⟩ := List.exists_cons_of_ne_nil ne
  cases cs with
  | nil => exact ⟨l, _, .cons (.integer ne digits ends) cut, by simp⟩
  | cons d ds =>
    rw [List.forall_mem_cons] at digits
    have float : Lexeme (some 'e') .float ([c] ++ '.' :: (d :: ds)) :=
      .float (by simp) (by simpa using digits.1) (by simp) digits.2 fun c next => (ends c next).1
    exact ⟨l, _, .cons float cut, by simp⟩

/-! ## Texts of numbers -/

/-- Where a point is placed among digits, there are digits on both sides of it. -/
theorem plainNotation_placePoint {l : Layout} (point : l.pointZero = true) {ds : List Char}
    (ne : ds ≠ []) (digits : ∀ c ∈ ds, Digit c) (e : Int) (negative : Bool) :
    PlainNotation (Layout.sign negative (l.placePoint ds e)) := by
  unfold Layout.placePoint
  rw [point]
  by_cases below : e ≤ 0
  · rw [if_pos below]
    refine ⟨negative, ['0'], _, rfl, by simp, ?_, Decimal.digit_zero, ?_⟩
    · simp [ne]
    · exact List.forall_mem_append.2 ⟨digit_of_mem_zeros, digits⟩
  · rw [if_neg below]
    by_cases beyond : ds.length ≤ e.toNat
    · rw [if_pos beyond]
      refine ⟨negative, _, ['0'], rfl, ?_, by simp, ?_, Decimal.digit_zero⟩
      · simp [ne]
      · exact List.forall_mem_append.2 ⟨digits, digit_of_mem_zeros⟩
    · rw [if_neg beyond]
      refine ⟨negative, _, _, rfl, ?_, ?_, fun c mem => digits c (List.mem_of_mem_take mem),
        fun c mem => digits c (List.mem_of_mem_drop mem)⟩
      · simp only [ne_eq, List.take_eq_nil_iff, not_or]
        exact ⟨by omega, ne⟩
      · rw [ne_eq, List.drop_eq_nil_iff]
        omega

/-- A floating-point number is written in plain notation, or its text has a word in it. -/
theorem plainNotation_or_word (x : Binary64) : PlainNotation (Layout.value.text x).toList ∨
    ∃ l us, Cut (Layout.value.text x).toList us ∧ (.identifier, l) ∈ us := by
  cases x with
  | nan => exact .inr ⟨_, _, cut_single (lexeme_of_letters (by decide) (by decide) (by decide)),
      List.mem_singleton_self _⟩
  | infinite s =>
    have inf : Lexeme none .identifier ['i', 'n', 'f'] :=
      lexeme_of_letters (by decide) (by decide) (by decide)
    rw [Layout.text, String.toList_ofList]
    exact .inr ⟨_, _, cut_sign (cut_single inf) s,
      List.mem_append_right _ (List.mem_singleton_self _)⟩
  | finite s n fits =>
    rw [Layout.text, String.toList_ofList, Layout.unsigned]
    by_cases zero : n = 0
    · rw [if_pos zero]
      exact .inl ⟨s, ['0'], ['0'], rfl, by simp, by simp, Decimal.digit_zero, Decimal.digit_zero⟩
    · rw [if_neg zero, Layout.decimal]
      have digits : ∀ c ∈ Nat.toDigits 10 (Decimal.shortest n).digits, Digit c :=
        digit_of_mem_toDigits
      split
      · exact .inl (plainNotation_placePoint rfl Nat.toDigits_ne_nil digits _ s)
      · obtain ⟨l, us, cut, word⟩ := cut_withExponent Nat.toDigits_ne_nil digits
          (Decimal.shortest n).magnitude
        exact .inr ⟨l, _, cut_sign cut s, List.mem_append_right _ word⟩

theorem Number.text_int (i : Int64) : (Number.int i).text =
    String.ofList (Layout.sign (i.toInt < 0) (Nat.toDigits 10 i.toInt.natAbs)) := by
  rw [← toList_repr_int, String.ofList_toList]
  rfl

theorem evaluate_text_int {i : Int64} (least : i ≠ Int64.minValue) :
    evaluate (Number.int i).text = .ok (.int i) := by
  have above : i.toInt ≠ -2 ^ 63 := fun eq => least (Int64.toInt_inj.1 eq)
  have low := i.le_toInt
  have high := i.toInt_lt
  have fits : (digitsValue (Nat.toDigits 10 i.toInt.natAbs) : Int) ≤ Int64.maxValue.toInt := by
    rw [digitsValue_toDigits, Int64.toInt_maxValue]
    omega
  rw [Number.text_int,
    evaluate_signed_of_fits Nat.toDigits_ne_nil digit_of_mem_toDigits fits, digitsValue_toDigits]
  have value : (if decide (i.toInt < 0) = true then -(i.toInt.natAbs : Int) else i.toInt.natAbs) =
      i.toInt := by
    simp only [decide_eq_true_eq]
    split <;> omega
  rw [value, Int64.ofInt_toInt]

theorem evaluate_text_least :
    ∃ e, evaluate (Number.int Int64.minValue).text = .error e ∧ e.phase = .parse := by
  have beyond : Int64.maxValue.toInt <
      (digitsValue (Nat.toDigits 10 Int64.minValue.toInt.natAbs) : Int) := by
    rw [digitsValue_toDigits, Int64.toInt_maxValue, Int64.toInt_minValue]
    omega
  rw [Number.text_int]
  exact ⟨_, evaluate_signed_of_lt Nat.toDigits_ne_nil digit_of_mem_toDigits beyond _, rfl⟩

/-- The text of the number is a literal with an optional sign: the integer has an opposite, and the
floating-point number is written without an exponent. -/
def Number.HasPlainText : Number → Prop
  | .int i => i ≠ Int64.minValue
  | .float x => PlainNotation (Layout.value.text x).toList

/-- The text of a number evaluates to the same number, of the same kind, if it is that of an integer
other than the least one or of a floating-point number in plain notation; any other text is refused
in parsing. A run of digits evaluates to the integer that it stands for, if this is in range, and
otherwise fails for its range at the start of the source. -/
theorem number_text_evaluates_to_itself_or_fails :
    (∀ n : Number, (n.HasPlainText → evaluate n.text = .ok n) ∧
      (¬ n.HasPlainText → ∃ e, evaluate n.text = .error e ∧ e.phase = .parse)) ∧
    ∀ d : String, d.toList ≠ [] → (∀ c ∈ d.toList, '0' ≤ c ∧ c ≤ '9') →
      ((digitsValue d.toList : Int) ≤ Int64.maxValue.toInt →
        ∃ v : Int64, evaluate d = .ok (.int v) ∧ v.toInt = digitsValue d.toList) ∧
      (Int64.maxValue.toInt < digitsValue d.toList →
        evaluate d = .error ⟨.parse, "integer literal '" ++ d ++ "' out of range", ⟨1, 0⟩⟩) := by
  refine ⟨fun n => ?_, fun d ne digits => ?_⟩
  · cases n with
    | int i =>
      refine ⟨evaluate_text_int, fun least => ?_⟩
      rw [Classical.not_not.1 least]
      exact evaluate_text_least
    | float x =>
      refine ⟨fun plain => evaluate_of_plainNotation plain (Layout.value.readBinary64?_text x),
        fun other => ?_⟩
      obtain plain | ⟨l, us, cut, word⟩ := plainNotation_or_word x
      · exact absurd plain other
      · exact evaluate_of_word cut word
  · refine ⟨fun fits => ?_, fun beyond => ?_⟩
    · have value := evaluate_signed_of_fits ne digits fits false
      simp only [Layout.sign, Bool.false_eq_true, if_false, String.ofList_toList] at value
      refine ⟨_, value, Int64.toInt_ofInt_of_le ?_ ?_⟩
      · omega
      · rw [Int64.toInt_maxValue] at fits
        omega
    · have fails := evaluate_signed_of_lt ne digits beyond false
      rwa [Layout.sign, if_neg Bool.false_ne_true, String.ofList_toList] at fails

/-- The least and the greatest of what can be read back: minus zero keeps its sign, the opposite of
the greatest integer is read and the least integer is not. -/
theorem minus_zero_rereads_and_least_fails :
    evaluate "-0.0" = .ok (.float (.zero true)) ∧
    evaluate "-9223372036854775807" = .ok (.int (-9223372036854775807)) ∧
    (∃ e, evaluate "-9223372036854775808" = .error e ∧ e.phase = .parse) ∧
    (∃ v : Int64, evaluate "007" = .ok (.int v) ∧ v.toInt = 7) ∧
    evaluate "9223372036854775808" =
      .error ⟨.parse, "integer literal '9223372036854775808' out of range", ⟨1, 0⟩⟩ := by
  obtain ⟨number, literal⟩ := number_text_evaluates_to_itself_or_fails
  have zero : PlainNotation "-0.0".toList :=
    ⟨true, ['0'], ['0'], rfl, by simp, by simp, Decimal.digit_zero, Decimal.digit_zero⟩
  have opposite : (Number.int (-9223372036854775807)).HasPlainText := by
    show (-9223372036854775807 : Int64) ≠ Int64.minValue
    decide
  have least : ¬ (Number.int Int64.minValue).HasPlainText := fun other => other rfl
  have seven := (literal "007" (by decide) (forall_mem_of_all (by decide))).1 (by decide)
  have beyond := (literal "9223372036854775808" (by decide) (forall_mem_of_all (by decide))).2
  exact ⟨(number (.float (.zero true))).1 zero, (number (.int (-9223372036854775807))).1 opposite,
    (number (.int Int64.minValue)).2 least, seven, beyond (by decide)⟩

end Ember
