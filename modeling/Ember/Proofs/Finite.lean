import Mathlib.Control.Monad.Basic
import Ember.Proofs.Listing
import Ember.Proofs.Numeral
import Ember.Proofs.Overflow
import Ember.Proofs.SingleExpression

/-!
# Finite results

Zero divisors are refused, but results can still be infinite or `nan`: there is no check on literals
and operators that leave the range. These are the only ways. If no numeral of a source is out of
range and no operator overflows on the values of its operands, then every value in the program is
finite, and so is what is printed.

1. `Expr.finite_parts_iff`: the values of all parts of an expression are finite exactly if its
   literals are and no operator in it overflows, by induction with one case per node.
2. `Token.finite_iff_in_range`: a literal is finite exactly if its numeral, taken exactly, is in
   range.
3. `Program.finite_parts_iff`: both for all statements, since the literals of a program are its
   numerals (`Token.listed`).
4. `Number.Finite.text_ne`: infinities and `nan` are told by their texts.

Main statement: `results_finite_unless_out_of_range`.
-/

namespace Ember

open Lexical

/-! ## Expressions -/

namespace Expr

/-- The operands of the root have values on which its operator overflows. -/
def Overflows : Expr → Prop
  | binary op l r _ => ∃ m n, l.evaluate = .ok m ∧ r.evaluate = .ok n ∧ op.Overflows m n
  | _ => False

/-- The expression has no value or a finite one. -/
def Finite (e : Expr) : Prop := ∀ v, e.evaluate = .ok v → v.Finite

instance (e : Expr) : Decidable e.Finite :=
  match value : e.evaluate with
  | .ok v => decidable_of_iff v.Finite (by simp [Finite, value])
  | .error _ => isTrue (by simp [Finite, value])

/-- The root brings nothing that is not finite into the expression. -/
def Tame : Expr → Prop
  | literal n _ => n.Finite
  | e => ¬ e.Overflows

theorem mem_parts_self (e : Expr) : e ∈ e.parts := by
  cases e <;> exact List.mem_cons_self

theorem Finite.tame {e : Expr} (h : e.Finite) : e.Tame := by
  cases e with
  | literal n p => exact h n rfl
  | unary op e p => exact id
  | binary op l r p =>
    rintro ⟨m, n, left, right, overflow⟩
    obtain ⟨v, result, infinite⟩ := overflow.exists_result
    refine infinite (h v ?_)
    simp only [evaluate, left, right, result]
    rfl

theorem finite_of_tame (e : Expr) (h : ∀ d ∈ e.parts, d.Tame) : ∀ d ∈ e.parts, d.Finite := by
  induction e with
  | literal n p =>
    rw [parts, List.forall_mem_singleton] at h ⊢
    rintro _ ⟨⟩
    exact h
  | unary op e p ih =>
    rw [parts, List.forall_mem_cons] at h ⊢
    refine ⟨fun v value => ?_, ih h.2⟩
    obtain ⟨n, operand, result⟩ := evaluate_unary_ok value
    exact PrefixOp.finite_apply (ih h.2 e e.mem_parts_self n operand) result
  | binary op l r p ihl ihr =>
    rw [parts, List.forall_mem_cons, List.forall_mem_append] at h ⊢
    obtain ⟨tame, left, right⟩ := h
    refine ⟨fun v value => ?_, ihl left, ihr right⟩
    obtain ⟨m, n, first, second, result⟩ := evaluate_binary_ok value
    have finite := ihl left l l.mem_parts_self m first
    have finite' := ihr right r r.mem_parts_self n second
    refine (InfixOp.finite_apply_iff finite finite' result).2 fun overflow => ?_
    exact tame ⟨m, n, first, second, overflow⟩

/-- Nothing but a literal or an operator that overflows brings in a number that is not finite. -/
theorem finite_parts_iff (e : Expr) : (∀ d ∈ e.parts, d.Finite) ↔ ∀ d ∈ e.parts, d.Tame :=
  ⟨fun finite d mem => (finite d mem).tame, e.finite_of_tame⟩

theorem tame_iff {es : List Expr} : (∀ e ∈ es, e.Tame) ↔
    (∀ n p, literal n p ∈ es → n.Finite) ∧ ∀ e ∈ es, ¬ e.Overflows := by
  constructor
  · intro tame
    refine ⟨fun n p mem => tame _ mem, fun e mem => ?_⟩
    cases e with
    | literal n p => exact id
    | unary op e p => exact id
    | binary op l r p => exact tame _ mem
  · rintro ⟨literals, operators⟩ e mem
    cases e with
    | literal n p => exact literals n p mem
    | unary op e p => exact id
    | binary op l r p => exact operators _ mem

theorem number_mem_items_iff {e : Expr} {n : Number} {p : Position} :
    ⟨.number n, p⟩ ∈ e.items ↔ literal n p ∈ e.parts := by
  induction e with
  | literal m q => simp [items, parts]
  | unary op e q ih => simp [items, parts, ih]
  | binary op l r q ihl ihr => simp [items, parts, ihl, ihr]

end Expr

/-! ## Programs -/

namespace Program

/-- All expressions in the program. -/
def parts (p : Program) : List Expr := p.statements.flatMap (·.value.parts)

theorem finite_parts_iff (p : Program) : (∀ e ∈ p.parts, e.Finite) ↔
    (∀ n q, .literal n q ∈ p.parts → n.Finite) ∧ ∀ e ∈ p.parts, ¬ e.Overflows := by
  rw [← Expr.tame_iff, parts]
  simp only [List.forall_mem_flatMap, Expr.finite_parts_iff]

theorem number_mem_items_iff {p : Program} {n : Number} {q : Position} :
    ⟨.number n, q⟩ ∈ p.items ↔ .literal n q ∈ p.parts := by
  have stmt (s : Stmt) : ⟨.number n, q⟩ ∈ s.items ↔ .literal n q ∈ s.value.parts := by
    cases s <;> simp [Stmt.items, Stmt.value, Expr.number_mem_items_iff]
  simp only [items, parts, List.mem_flatMap, stmt]

end Program

/-! ## Numerals -/

/-- The token is a numeral with a point, and its exact value is out of range. -/
def Token.OutOfRange (t : Token) : Prop :=
  t.kind = .float ∧ ∃ whole places, t.lexeme.toList = whole ++ '.' :: places ∧
    (∀ c ∈ whole ++ places, Digit c) ∧
    overflowLimit ≤ (digitsValue (whole ++ places) : ℚ) / 10 ^ places.length

theorem Decimal.finite_toBinary64_iff (negative : Bool) (n k : Nat) :
    (toBinary64 negative ⟨n, 0 - k⟩).Finite ↔ (n / 10 ^ k : ℚ) < overflowLimit := by
  have num : num ⟨n, 0 - k⟩ = n := by
    show n * Nat.pow 10 (0 - (k : Int)).toNat = n
    rw [show (0 - (k : Int)).toNat = 0 by omega]
    exact Nat.mul_one n
  have den : den ⟨n, 0 - k⟩ = 10 ^ k := by
    show Nat.pow 10 (-(0 - (k : Int))).toNat = 10 ^ k
    rw [show (-(0 - (k : Int))).toNat = k by omega, Nat.pow_eq]
  have exact : ((n * unitsPerOne : Nat) / (10 ^ k : Nat) / unitsPerOne : ℚ) = n / 10 ^ k := by
    rw [Nat.cast_mul, Nat.cast_pow, Nat.cast_ofNat, div_right_comm,
      mul_div_cancel_right₀ _ (ne_of_gt Binary64.unitsPerOne_cast_pos)]
  rw [toBinary64_eq, num, den, Binary64.finite_ofRatio_iff (Nat.pow_pos (by decide)), exact]

/-- A literal from a source is finite exactly if its exact value is in range. -/
theorem Token.finite_iff_in_range {t : Token} {next : Option Char} {x : Binary64}
    (kind : t.kind = .float) (lexeme : Lexeme next .float t.lexeme.toList)
    (read : Decimal.readBinary64? t.lexeme.toList = some x) : x.Finite ↔ ¬ t.OutOfRange := by
  obtain ⟨ds, fs, split, ne, digits, _, places⟩ := lexeme.digits_of_float
  rw [split, Decimal.readBinary64?_of_point ne digits places] at read
  cases read
  rw [Decimal.finite_toBinary64_iff, ← not_le, not_iff_not]
  constructor
  · intro beyond
    exact ⟨kind, ds, fs, split, List.forall_mem_append.2 ⟨digits, places⟩, beyond⟩
  · rintro ⟨_, ds', fs', split', digits', beyond⟩
    have free {ds : List Char} (digits : ∀ c ∈ ds, Digit c) : '.' ∉ ds :=
      fun mem => absurd (digits _ mem) (by decide)
    obtain ⟨rfl, rfl⟩ := cut_inj (split.symm.trans split') (free digits)
      (free (List.forall_mem_append.1 digits').1)
    exact beyond

theorem Token.number_of_item? {t : Token} {n : Number} {p : Position}
    (h : t.item? = some ⟨.number n, p⟩) : (∃ i, n = .int i) ∨
      t.kind = .float ∧ ∃ x, n = .float x ∧ Decimal.readBinary64? t.lexeme.toList = some x := by
  unfold item? at h
  split at h
  · cases h
  · obtain ⟨i, _, item⟩ := Option.map_eq_some_iff.1 h
    cases item
    exact .inl ⟨i, rfl⟩
  · next kind =>
    obtain ⟨x, read, item⟩ := Option.map_eq_some_iff.1 h
    cases item
    exact .inr ⟨kind, x, rfl, read⟩
  · obtain ⟨s, _, item⟩ := Option.map_eq_some_iff.1 h
    cases item

/-- The literals of a program are finite exactly if no numeral of its source is out of range. -/
theorem Program.literals_finite_iff {s : String} {ts : List Token} {p : Program}
    (lexed : Token.ofSource s = .ok ts) (parsed : Program.ofTokens ts = .ok p) :
    (∀ n q, .literal n q ∈ p.parts → n.Finite) ↔ ∀ t ∈ ts, ¬ t.OutOfRange := by
  have lexemes := lexeme_of_ofSource lexed
  obtain ⟨ss, segmented, program⟩ := ofTokens_ok_iff.1 parsed
  have all := listed_of_segmented segmented
  rw [← program] at all
  constructor
  · intro finite t mem range
    have kind := range.1
    have listed : t.item? ∈ p.items.map some := by
      rw [← all]
      exact List.mem_map_of_mem (List.mem_filter.2 ⟨mem, by rw [Token.isListed, kind]; rfl⟩)
    obtain ⟨i, item, same⟩ := List.mem_map.1 listed
    have read : t.item? = (Decimal.readBinary64? t.lexeme.toList).map
        fun x => ⟨.number (.float x), t.position⟩ := by simp only [Token.item?, kind]
    obtain ⟨x, number, rfl⟩ := Option.map_eq_some_iff.1 (read.symm.trans same.symm)
    obtain ⟨_, next, lexeme⟩ := lexemes t mem
    rw [kind] at lexeme
    have value := finite _ _ (number_mem_items_iff.1 item)
    exact (Token.finite_iff_in_range kind lexeme number).1 value range
  · intro range n q mem
    have item : some ⟨.number n, q⟩ ∈ Token.listed ts := by
      rw [all]
      exact List.mem_map_of_mem (number_mem_items_iff.2 mem)
    obtain ⟨t, mem', item⟩ := Token.mem_of_mem_listed item
    obtain ⟨i, rfl⟩ | ⟨kind, x, rfl, read⟩ := Token.number_of_item? item
    · exact Number.finite_int i
    · obtain ⟨_, next, lexeme⟩ := lexemes t mem'
      rw [kind] at lexeme
      exact (Token.finite_iff_in_range kind lexeme read).2 (range t mem')

/-! ## Runs -/

theorem exists_of_mem_printed {value : Number} {ss : List Stmt} {line : String}
    (mem : line ∈ (executeFrom value ss).printed) :
    ∃ s ∈ ss, ∃ n, s.value.evaluate = .ok n ∧ line = n.text := by
  fun_induction executeFrom value ss with
  | case1 => cases mem
  | case2 => cases mem
  | case3 value e rest n ok ih =>
    obtain ⟨s, mem', found⟩ := ih mem
    exact ⟨s, List.mem_cons_of_mem _ mem', found⟩
  | case4 => cases mem
  | case5 value e p rest n ok x ih =>
    rcases List.mem_cons.1 mem with rfl | mem
    · exact ⟨_, List.mem_cons_self, n, ok, rfl⟩
    · obtain ⟨s, mem', found⟩ := ih mem
      exact ⟨s, List.mem_cons_of_mem _ mem', found⟩

theorem exists_of_result {value v : Number} {ss : List Stmt}
    (h : (executeFrom value ss).result = .ok v) :
    v = value ∨ ∃ s ∈ ss, s.value.evaluate = .ok v := by
  fun_induction executeFrom value ss with
  | case1 =>
    cases h
    exact .inl rfl
  | case2 => cases h
  | case3 value e rest n ok ih =>
    rcases ih h with rfl | ⟨s, mem, found⟩
    · exact .inr ⟨_, List.mem_cons_self, ok⟩
    · exact .inr ⟨s, List.mem_cons_of_mem _ mem, found⟩
  | case4 => cases h
  | case5 value e p rest n ok x ih =>
    rcases ih h with rfl | ⟨s, mem, found⟩
    · exact .inl rfl
    · exact .inr ⟨s, List.mem_cons_of_mem _ mem, found⟩

theorem Number.Finite.text_ne {n : Number} (h : n.Finite) : n.text ∉ ["inf", "-inf", "NaN"] := by
  have other {x : Binary64} (text : n.text = (float x).text) : x.Finite := by
    rw [text_inj text] at h
    exact h
  intro mem
  simp only [List.mem_cons, List.not_mem_nil, or_false] at mem
  rcases mem with text | text | text
  · obtain ⟨_, ⟨⟩⟩ := @other (.infinite false) text
  · obtain ⟨_, ⟨⟩⟩ := @other (.infinite true) text
  · obtain ⟨_, ⟨⟩⟩ := @other .nan text

theorem Program.finite_execute {p : Program} (h : ∀ e ∈ p.parts, e.Finite) :
    (∀ line ∈ p.execute.printed, line ∉ ["inf", "-inf", "NaN"]) ∧
      ∀ v, p.execute.result = .ok v → v.Finite := by
  have values : ∀ s ∈ p.statements, s.value.Finite :=
    fun s mem => h _ (List.mem_flatMap.2 ⟨s, mem, s.value.mem_parts_self⟩)
  constructor
  · intro line mem
    obtain ⟨s, mem', n, value, rfl⟩ := exists_of_mem_printed mem
    exact (values s mem' n value).text_ne
  · intro v result
    obtain rfl | ⟨s, mem, value⟩ := exists_of_result result
    · exact Number.finite_int 0
    · exact values s mem v value

theorem finite_run {source : String}
    (h : ∀ ts p, Token.ofSource source = .ok ts → Program.ofTokens ts = .ok p →
      ∀ e ∈ p.parts, e.Finite) (file : String) :
    (∀ line ∈ (run file source).printed, line ∉ ["inf", "-inf", "NaN"]) ∧
      ∀ v, (run file source).value = some v → v.Finite := by
  cases lexed : Token.ofSource source with
  | error e =>
    rw [run_of_lexError lexed]
    exact ⟨List.forall_mem_nil _, by rintro _ ⟨⟩⟩
  | ok ts =>
    cases parsed : Program.ofTokens ts with
    | error e =>
      rw [run_of_parseError lexed parsed]
      exact ⟨List.forall_mem_nil _, by rintro _ ⟨⟩⟩
    | ok p =>
      obtain ⟨lines, value⟩ := Program.finite_execute (h ts p lexed parsed)
      cases result : p.execute.result with
      | error e =>
        rw [run_of_runtimeError lexed parsed result]
        refine ⟨lines, ?_⟩
        rintro _ ⟨⟩
        exact Number.finite_int 0
      | ok v =>
        rw [run_of_value lexed parsed result]
        refine ⟨lines, ?_⟩
        rintro _ ⟨⟩
        exact value v result

/-- Some value in a program is infinite or `nan` exactly if a numeral of its source is out of range
or an operator in it overflows, each measured by exact arithmetic. If neither is the case, the value
of the source is finite, and no line that it prints and no value that it ends with is written as an
infinity or as `nan`. -/
theorem results_finite_unless_out_of_range (file source : String) :
    (∀ ts p, Token.ofSource source = .ok ts → Program.ofTokens ts = .ok p →
      ((∃ e ∈ p.parts, ∃ v, e.evaluate = .ok v ∧ ¬ v.Finite) ↔
        (∃ t ∈ ts, t.OutOfRange) ∨ ∃ e ∈ p.parts, e.Overflows)) ∧
    ((∀ ts p, Token.ofSource source = .ok ts → Program.ofTokens ts = .ok p →
      (∀ t ∈ ts, ¬ t.OutOfRange) ∧ ∀ e ∈ p.parts, ¬ e.Overflows) →
        (∀ x, evaluate source = .ok (.float x) → x.Finite) ∧
        (∀ line ∈ (run file source).printed, line ∉ ["inf", "-inf", "NaN"]) ∧
        ∀ v, (run file source).value = some v → v.text ∉ ["inf", "-inf", "NaN"]) := by
  have parts_iff {ts : List Token} {p : Program} (lexed : Token.ofSource source = .ok ts)
      (parsed : Program.ofTokens ts = .ok p) : (∀ e ∈ p.parts, e.Finite) ↔
        (∀ t ∈ ts, ¬ t.OutOfRange) ∧ ∀ e ∈ p.parts, ¬ e.Overflows := by
    rw [p.finite_parts_iff, Program.literals_finite_iff lexed parsed]
  constructor
  · intro ts p lexed parsed
    rw [← not_iff_not]
    simpa only [Expr.Finite, not_or, not_exists, not_and, not_not] using parts_iff lexed parsed
  · intro inside
    obtain ⟨lines, value⟩ :=
      finite_run (fun ts p lexed parsed => (parts_iff lexed parsed).2 (inside ts p lexed parsed))
        file
    refine ⟨fun x result => ?_, lines, fun v result => (value v result).text_ne⟩
    obtain ⟨ts, a, same⟩ := run_of_evaluate_ok result file
    rw [same] at value
    exact value (.float x) rfl

/-- The quotient in `print 7.5 / 2` stays in range, and so does what is printed. -/
theorem quotient_printed_in_range : ∃ ts p,
    Token.ofSource "print 7.5 / 2" = .ok ts ∧ Program.ofTokens ts = .ok p ∧
      (∀ t ∈ ts, ¬ t.OutOfRange) ∧ (∀ e ∈ p.parts, ¬ e.Overflows) ∧
      ∀ line ∈ (run inlineName "print 7.5 / 2").printed, line ∉ ["inf", "-inf", "NaN"] := by
  let ts : List Token := [⟨"print", .keyword .print_, ⟨1, 0⟩⟩, ⟨"7.5", .float, ⟨1, 6⟩⟩,
    ⟨"/", .slash, ⟨1, 10⟩⟩, ⟨"2", .integer, ⟨1, 12⟩⟩]
  let p : Program := ⟨[.print (.binary .divide
    (.literal (.float (Decimal.toBinary64 false ⟨75, -1⟩)) ⟨1, 6⟩) (.literal (.int 2) ⟨1, 12⟩)
    ⟨1, 10⟩) ⟨1, 0⟩]⟩
  have lexed : Token.ofSource "print 7.5 / 2" = .ok ts := by decide +kernel
  have parsed : Program.ofTokens ts = .ok p := by decide +kernel
  have finite : ∀ e ∈ p.parts, e.Finite := by decide +kernel
  obtain ⟨iff, inside⟩ := results_finite_unless_out_of_range inlineName "print 7.5 / 2"
  have range : (∀ t ∈ ts, ¬ t.OutOfRange) ∧ ∀ e ∈ p.parts, ¬ e.Overflows := by
    have none := mt (iff ts p lexed parsed).2 fun ⟨e, mem, v, value, infinite⟩ =>
      infinite (finite e mem v value)
    simpa only [not_or, not_exists, not_and] using none
  refine ⟨ts, p, lexed, parsed, range.1, range.2, (inside fun ts' p' lexed' parsed' => ?_).2.1⟩
  cases lexed.symm.trans lexed'
  cases parsed.symm.trans parsed'
  exact range

/-! ## Literals joined by a sign -/

/-- A numeral with a point is the same piece in front of anything but a digit. -/
theorem Lexical.Lexeme.float_before {next next' : Option Char} {l : List Char}
    (h : Lexeme next .float l) (ends : ∀ c ∈ next', ¬ Digit c) : Lexeme next' .float l := by
  obtain ⟨ds, fs, rfl, ne, digits, ne', places⟩ := h.digits_of_float
  exact .float ne digits ne' places ends

theorem Lexical.pair_ends_in_no_digit : ∀ p ∈ pairs, ¬ Digit p.1.2 := by decide

theorem Grammar.Derives.mono {m n d : Nat} {ts : List Token} {e : Expr} (h : Derives m ts e d)
    (le : m ≤ n) : Derives n ts e d := by
  induction le with
  | refl => exact h
  | step _ ih => exact ih.operand

section

variable {l r : List Char} {c : Char} {k : TokenKind} {op : InfixOp}

theorem cut_of_two_literals (left : Lexeme none .float l) (right : Lexeme none .float r)
    (mark : (c, k) ∈ marks) : Cut (l ++ c :: r) [(.float, l), (k, [c]), (.float, r)] := by
  have starts : ∀ d ∈ r.head?, Digit d := by
    obtain ⟨ds, fs, rfl, ne, digits, _⟩ := right.digits_of_float
    obtain ⟨d, ds, rfl⟩ := List.exists_cons_of_ne_nil ne
    exact forall_mem_head_cons (digits d List.mem_cons_self) _
  have between : Lexeme r.head? k [c] := by
    refine .mark mark fun d head pair => ?_
    obtain ⟨p, mem, same⟩ := List.mem_map.1 pair
    rw [← show p.1.2 = d from congrArg Prod.snd same] at head
    exact pair_ends_in_no_digit p mem (starts _ head)
  have first : Lexeme (c :: r).head? .float l :=
    left.float_before (forall_mem_head_cons (P := (¬ Digit ·)) (mark_starts_no_word _ mark).1 r)
  exact .cons first (.cons between (cut_single right))

theorem ast_of_two_literals {n : Nat} {x y : Binary64} (sign : (k, op) ∈ Grammar.tierAt n)
    (read : Decimal.readBinary64? l = some x) (read' : Decimal.readBinary64? r = some y)
    (s : String) (o p q : Position) :
    Ast.ofTokens [⟨String.ofList l, .float, o⟩, ⟨s, k, p⟩, ⟨String.ofList r, .float, q⟩] =
      .ok ⟨some (.binary op (.literal (.float x) o) (.literal (.float y) q) p)⟩ := by
  have lt : n < Grammar.infixTiers.length := by
    by_contra ge
    rw [Grammar.tierAt_of_le (Nat.not_lt.1 ge)] at sign
    cases sign
  have operand {l : List Char} {x : Binary64} (p : Position)
      (read : Decimal.readBinary64? l = some x) :
      Grammar.Derives 0 [⟨String.ofList l, .float, p⟩] (.literal (.float x) p) 1 :=
    .float rfl (by rw [String.toList_ofList, read])
  have both : Grammar.Derives (n + 1) _ _ 1 := .binary (t := ⟨s, k, p⟩)
    ((operand o read).of_operand (n + 1)) sign ((operand q read').of_operand n)
  exact Ast.ofTokens_ok_iff.2 (.inr ⟨_, rfl, 1, by decide, both.mono lt⟩)

/-- Two numerals with a point and a sign between them are an operator on two literals. -/
theorem evaluate_of_two_literals {n : Nat} {x y : Binary64} {v : Number}
    (left : Lexeme none .float l) (right : Lexeme none .float r) (mark : (c, k) ∈ marks)
    (sign : (k, op) ∈ Grammar.tierAt n) (read : Decimal.readBinary64? l = some x)
    (read' : Decimal.readBinary64? r = some y)
    (result : op.apply (.float x) (.float y) = .ok v) :
    evaluate (String.ofList (l ++ c :: r)) = .ok v := by
  have token : k ≠ .insignificant :=
    (mark_kinds k (List.mem_append_left _ (List.mem_map_of_mem mark))).1
  have cut := cut_of_two_literals left right mark
  rw [← String.toList_ofList (l := l ++ c :: r)] at cut
  have lexed := Token.ofSource_ok_iff.2 ⟨_, cut, rfl⟩
  rw [tokensFrom, if_neg (by decide), tokensFrom, if_neg token, tokensFrom, if_neg (by decide),
    tokensFrom] at lexed
  rw [evaluate_of_ast lexed (ast_of_two_literals sign read read' _ _ _ _)]
  simp only [Ast.evaluate, Expr.evaluate, result]
  rfl

end

/-- The numeral of a one and `n` zeros, with a zero after the point. -/
def powerOfTen (n : Nat) : List Char := '1' :: List.replicate n '0' ++ ['.', '0']

/-- The number that the numeral stands for. -/
def Binary64.powerOfTen (n : Nat) : Binary64 :=
  Decimal.toBinary64 false ⟨digitsValue ('1' :: List.replicate n '0' ++ ['0']), 0 - 1⟩

theorem powerOfTen_literal (n : Nat) : Lexeme none .float (powerOfTen n) ∧
    Decimal.readBinary64? (powerOfTen n) = some (.powerOfTen n) := by
  have ne : '1' :: List.replicate n '0' ≠ [] := List.cons_ne_nil _ _
  have digits : ∀ c ∈ '1' :: List.replicate n '0', Digit c :=
    List.forall_mem_cons.2 ⟨by decide, digit_of_mem_zeros⟩
  exact ⟨.float ne digits (List.cons_ne_nil _ _) Decimal.digit_zero (by rintro _ ⟨⟩),
    Decimal.readBinary64?_of_point ne digits Decimal.digit_zero⟩

/-- Literals and products leave the range without an error, and a difference of what is out of range
is no number: here a literal of 310 digits before the point, the product of two of 201 digits, and
the difference of the first from itself. What a run comes to is written as an infinity. -/
theorem large_literals_not_finite :
    evaluate (String.ofList (powerOfTen 309)) = .ok (.float (.infinite false)) ∧
      evaluate (String.ofList (powerOfTen 200 ++ '*' :: powerOfTen 200)) =
        .ok (.float (.infinite false)) ∧
      evaluate (String.ofList (powerOfTen 309 ++ '-' :: powerOfTen 309)) = .ok (.float .nan) ∧
      (run inlineName (String.ofList (powerOfTen 200 ++ '*' :: powerOfTen 200))).value.map
        Number.text = some "inf" := by
  obtain ⟨lexeme, read⟩ := powerOfTen_literal 200
  obtain ⟨lexeme', read'⟩ := powerOfTen_literal 309
  have literal : Binary64.powerOfTen 309 = .infinite false := by decide +kernel
  have product : InfixOp.apply .multiply (.float (.powerOfTen 200)) (.float (.powerOfTen 200)) =
      .ok (.float (.infinite false)) := by decide +kernel
  rw [literal] at read'
  have evaluated := evaluate_of_two_literals (c := '*') lexeme lexeme (by decide)
    (show (.star, .multiply) ∈ Grammar.tierAt 0 by decide) read read product
  refine ⟨?_, evaluated, ?_, ?_⟩
  · exact evaluate_signed (n := .float (.infinite false)) lexeme'
      (fun p => .float rfl (by rw [String.toList_ofList, read'])) false
  · exact evaluate_of_two_literals lexeme' lexeme' (by decide)
      (show (.minus, .subtract) ∈ Grammar.tierAt 1 by decide) read' read' rfl
  · obtain ⟨ts, a, same⟩ := run_of_evaluate_ok evaluated inlineName
    rw [same]
    rfl

end Ember
