import Ember.Proofs.NumberText
import Ember.Proofs.Placement
import Ember.Proofs.Quoting
import Ember.Report

/-!
# The dump can be read back

A dump determines the tokens, and the statements up to the places of their nodes. Each part of it
is read in front of whatever follows:

1. the text of an expression ends where its last parenthesis closes or its number stops, so that
   an expression and what follows it are determined together (`Expr.text_append_inj`). Whether
   `+` and `-` have one operand or two is seen after the first operand, and a minus that belongs to
   a number has no blank after it;
2. the line of a token is cut at its commas, which the quoted lexeme only has before its closing
   quote (`Token.dump_inj`);
3. no line has a line feed in it, so that the lines are determined (`joinLines_inj`), and no line
   of a token is a heading.

Main statement: `Outcome.dump_eq_iff`.
-/

namespace Ember

open Lexical

/-! ## Expressions -/

/-- What may follow an expression: nothing, a blank or a closing parenthesis. -/
def Closes (rest : List Char) : Prop := ∀ c ∈ rest.head?, c = ' ' ∨ c = ')'

theorem closes_nil : Closes [] := by
  intro c head
  cases head

theorem closes_blank (cs : List Char) : Closes (' ' :: cs) :=
  forall_mem_head_cons (.inl rfl) cs

theorem closes_paren (cs : List Char) : Closes (')' :: cs) :=
  forall_mem_head_cons (.inr rfl) cs

theorem Closes.not_mark {rest : List Char} (closes : Closes rest) :
    ∀ c ∈ rest.head?, ¬ Layout.Mark c := by
  intro c head
  rcases closes c head with rfl | rfl <;> decide

namespace Number

theorem text_append_inj {n n' : Number} {rest rest' : List Char} (closes : Closes rest)
    (closes' : Closes rest') (same : n.text.toList ++ rest = n'.text.toList ++ rest') :
    n = n' ∧ rest = rest' := by
  obtain ⟨text, eq⟩ :=
    run_append_inj same n.marks_text n'.marks_text closes.not_mark closes'.not_mark
  exact ⟨text_inj (String.toList_inj.1 text), eq⟩

theorem text_append_ne {n : Number} {rest cs : List Char} (closes : Closes rest) :
    n.text.toList ++ rest ≠ '(' :: cs := by
  intro same
  have paren : ∀ c ∈ ('(' :: cs).head?, ¬ Layout.Mark c :=
    forall_mem_head_cons (by decide) cs
  have empty : ∀ c ∈ ([] : List Char), Layout.Mark c := fun _ mem => nomatch mem
  obtain ⟨_, eq⟩ := run_append_inj same n.marks_text empty closes.not_mark paren
  rw [eq] at closes
  exact absurd (closes '(' rfl) (by decide)

end Number

/-- An opening parenthesis, a word and the blank after it. -/
def opening (word : String) (cs : List Char) : List Char := '(' :: (word.toList ++ ' ' :: cs)

theorem opening_inj {word word' : String} {cs cs' : List Char} (solid : ' ' ∉ word.toList)
    (solid' : ' ' ∉ word'.toList) (same : opening word cs = opening word' cs') :
    word = word' ∧ cs = cs' := by
  obtain ⟨words, eq⟩ := cut_inj (List.cons.inj same).2 solid solid'
  exact ⟨String.toList_inj.1 words, eq⟩

theorem PrefixOp.solid (op : PrefixOp) : ' ' ∉ op.symbol.toList := by
  cases op <;> decide

theorem InfixOp.solid (op : InfixOp) : ' ' ∉ op.symbol.toList := by
  cases op <;> decide

theorem PrefixOp.symbol_inj {op op' : PrefixOp} (same : op.symbol = op'.symbol) : op = op' := by
  have read (op : PrefixOp) : ofSymbol? op.symbol = some op := by
    cases op <;> rfl
  exact Option.some.inj (by rw [← read op, same, read])

theorem InfixOp.symbol_inj {op op' : InfixOp} (same : op.symbol = op'.symbol) : op = op' := by
  have read (op : InfixOp) : ofSymbol? op.symbol = some op := by
    cases op <;> rfl
  exact Option.some.inj (by rw [← read op, same, read])

namespace Expr

theorem toList_unary (op : PrefixOp) (e : Expr) (p : Position) (rest : List Char) :
    (unary op e p).text.toList ++ rest = opening op.symbol (e.text.toList ++ ')' :: rest) := by
  simp [text, opening]

theorem toList_binary (op : InfixOp) (l r : Expr) (p : Position) (rest : List Char) :
    (binary op l r p).text.toList ++ rest =
      opening op.symbol (l.text.toList ++ ' ' :: (r.text.toList ++ ')' :: rest)) := by
  simp [text, opening]

/-- An expression and what follows it are determined by their characters. -/
theorem text_append_inj {e e' : Expr} {rest rest' : List Char} (closes : Closes rest)
    (closes' : Closes rest') (same : e.text.toList ++ rest = e'.text.toList ++ rest') :
    e.unplaced = e'.unplaced ∧ rest = rest' := by
  induction e generalizing e' rest rest' with
  | literal n p =>
    cases e' with
    | literal n' p' =>
      obtain ⟨rfl, eq⟩ := Number.text_append_inj closes closes' same
      exact ⟨rfl, eq⟩
    | unary op' e' p' =>
      rw [toList_unary] at same
      exact absurd same (Number.text_append_ne closes)
    | binary op' l' r' p' =>
      rw [toList_binary] at same
      exact absurd same (Number.text_append_ne closes)
  | unary op e p ih =>
    rw [toList_unary] at same
    cases e' with
    | literal n' p' => exact absurd same.symm (Number.text_append_ne closes')
    | unary op' e' p' =>
      rw [toList_unary] at same
      obtain ⟨symbol, same⟩ := opening_inj op.solid op'.solid same
      obtain ⟨operand, eq⟩ := ih (closes_paren rest) (closes_paren rest') same
      rw [unplaced, unplaced, PrefixOp.symbol_inj symbol, operand]
      exact ⟨rfl, (List.cons.inj eq).2⟩
    | binary op' l' r' p' =>
      -- one operand against two: a parenthesis closes where a blank should stand
      rw [toList_binary] at same
      obtain ⟨_, same⟩ := opening_inj op.solid op'.solid same
      obtain ⟨_, eq⟩ := ih (closes_paren rest) (closes_blank _) same
      exact absurd (List.cons.inj eq).1 (by decide)
  | binary op l r p ihl ihr =>
    rw [toList_binary] at same
    cases e' with
    | literal n' p' => exact absurd same.symm (Number.text_append_ne closes')
    | unary op' e' p' =>
      rw [toList_unary] at same
      obtain ⟨_, same⟩ := opening_inj op.solid op'.solid same
      obtain ⟨_, eq⟩ := ihl (closes_blank _) (closes_paren rest') same
      exact absurd (List.cons.inj eq).1 (by decide)
    | binary op' l' r' p' =>
      rw [toList_binary] at same
      obtain ⟨symbol, same⟩ := opening_inj op.solid op'.solid same
      obtain ⟨left, same⟩ := ihl (closes_blank _) (closes_blank _) same
      obtain ⟨right, eq⟩ :=
        ihr (closes_paren rest) (closes_paren rest') (List.cons.inj same).2
      rw [unplaced, unplaced, InfixOp.symbol_inj symbol, left, right]
      exact ⟨rfl, (List.cons.inj eq).2⟩

theorem text_unplaced (e : Expr) : e.unplaced.text = e.text := by
  induction e with
  | literal n p => rfl
  | unary op e p ih => rw [unplaced, text, text, ih]
  | binary op l r p ihl ihr => rw [unplaced, text, text, ihl, ihr]

theorem lineFeed_not_mem_text (e : Expr) : '\n' ∉ e.text.toList := by
  induction e with
  | literal n p => exact fun mem => absurd (n.marks_text _ mem) (by decide)
  | unary op e p ih =>
    have symbol : '\n' ∉ op.symbol.toList := by
      cases op <;> decide
    simp [text, symbol, ih]
  | binary op l r p ihl ihr =>
    have symbol : '\n' ∉ op.symbol.toList := by
      cases op <;> decide
    simp [text, symbol, ihl, ihr]

end Expr

/-! ## Statements -/

namespace Stmt

theorem toList_print (e : Expr) (p : Position) :
    (print e p).text.toList = opening "print" (e.text.toList ++ [')']) := by
  simp [text, opening]

/-- No operator is written `print`. -/
theorem expr_ne_print (e e' : Expr) (p : Position) : e.text ≠ (print e' p).text := by
  intro same
  have eq : e.text.toList ++ [] = opening "print" (e'.text.toList ++ [')']) := by
    rw [List.append_nil, same, toList_print]
  cases e with
  | literal n q => exact Number.text_append_ne closes_nil eq
  | unary op e q =>
    rw [Expr.toList_unary] at eq
    have word := (opening_inj op.solid (by decide) eq).1
    cases op <;> exact absurd word (by decide)
  | binary op l r q =>
    rw [Expr.toList_binary] at eq
    have word := (opening_inj op.solid (by decide) eq).1
    cases op <;> exact absurd word (by decide)

theorem text_unplaced (s : Stmt) : s.unplaced.text = s.text := by
  cases s with
  | expr e => exact e.text_unplaced
  | print e p => rw [unplaced, text, text, e.text_unplaced]

theorem text_eq_iff {s s' : Stmt} : s.text = s'.text ↔ s.unplaced = s'.unplaced := by
  constructor
  · intro same
    cases s with
    | expr e =>
      cases s' with
      | expr e' =>
        have eq : e.text.toList ++ [] = e'.text.toList ++ [] := by
          rw [show e.text = e'.text from same]
        rw [unplaced, unplaced, (Expr.text_append_inj closes_nil closes_nil eq).1]
      | print e' p' => exact absurd same (expr_ne_print e e' p')
    | print e p =>
      cases s' with
      | expr e' => exact absurd same.symm (expr_ne_print e' e p)
      | print e' p' =>
        rw [← String.toList_inj, toList_print, toList_print] at same
        obtain ⟨_, same⟩ := opening_inj (by decide) (by decide) same
        rw [unplaced, unplaced, (Expr.text_append_inj (closes_paren _) (closes_paren _) same).1]
  · intro same
    rw [← s.text_unplaced, same, text_unplaced]

theorem lineFeed_not_mem_text (s : Stmt) : '\n' ∉ s.text.toList := by
  cases s with
  | expr e => exact e.lineFeed_not_mem_text
  | print e p => simp [text, e.lineFeed_not_mem_text]

end Stmt

/-! ## Tokens -/

theorem TokenKind.name_inj {k k' : TokenKind} (same : k.name = k'.name) : k = k' := by
  have read (k : TokenKind) : ofName? k.name = some k := by
    cases k with
    | keyword k => cases k <;> rfl
    | _ => rfl
  exact Option.some.inj (by rw [← read k, same, read])

theorem TokenKind.letters_name (k : TokenKind) : ',' ∉ k.name.toList ∧ '\n' ∉ k.name.toList := by
  cases k with
  | keyword k => cases k <;> decide
  | _ => decide

/-- A quoted text and what follows its closing quote are determined by their characters. -/
theorem Text.escapeChars_append_inj {cs cs' rest rest' : List Char}
    (same : escapeChars cs ++ '"' :: rest = escapeChars cs' ++ '"' :: rest') :
    cs = cs' ∧ rest = rest' := by
  have close := closeString?_of_body (stringBody_escapeChars cs) rest
  rw [same, closeString?_of_body (stringBody_escapeChars cs'), Option.some.injEq,
    Prod.mk.injEq, List.append_cancel_right_eq] at close
  refine ⟨?_, close.2.symm⟩
  rw [← unescapeChars_escapeChars cs, ← close.1, unescapeChars_escapeChars]

/-- A numeral and what follows it are determined by their characters, if no digit follows. -/
theorem toDigits_append_inj {n n' : Nat} {c : Char} {rest rest' : List Char} (ends : ¬ Digit c)
    (same : Nat.toDigits 10 n ++ c :: rest = Nat.toDigits 10 n' ++ c :: rest') :
    n = n' ∧ rest = rest' := by
  have stop (rest : List Char) : ∀ d ∈ (c :: rest).head?, ¬ Digit d :=
    forall_mem_head_cons (P := (¬ Digit ·)) ends rest
  obtain ⟨digits, eq⟩ :=
    run_append_inj same digit_of_mem_toDigits digit_of_mem_toDigits (stop rest) (stop rest')
  refine ⟨?_, (List.cons.inj eq).2⟩
  rw [← digitsValue_toDigits n, digits, digitsValue_toDigits]

namespace Token

theorem toList_dump (t : Token) :
    t.dump.toList = '(' :: (t.kind.name.toList ++ ',' :: ' ' :: '"' ::
      (Text.escapeChars t.lexeme.toList ++ '"' :: ',' :: ' ' ::
        (Nat.toDigits 10 t.position.line.toNat ++ ',' :: ' ' ::
          (Nat.toDigits 10 t.position.column.toNat ++ [')'])))) := by
  simp [dump, Text.toList_escape]

theorem dump_inj {t t' : Token} (same : t.dump = t'.dump) : t = t' := by
  rw [← String.toList_inj, toList_dump, toList_dump] at same
  obtain ⟨name, same⟩ :=
    cut_inj (List.cons.inj same).2 t.kind.letters_name.1 t'.kind.letters_name.1
  -- the lexeme may have commas of its own, but no quote that is not escaped
  obtain ⟨lexeme, same⟩ := Text.escapeChars_append_inj (List.cons.inj (List.cons.inj same).2).2
  obtain ⟨line, same⟩ :=
    toDigits_append_inj (by decide) (List.cons.inj (List.cons.inj same).2).2
  obtain ⟨column, _⟩ := toDigits_append_inj (by decide) (List.cons.inj same).2
  obtain ⟨l, k, i, j⟩ := t
  obtain ⟨l', k', i', j'⟩ := t'
  rw [mk.injEq, Position.mk.injEq]
  exact ⟨String.toList_inj.1 lexeme, TokenKind.name_inj (String.toList_inj.1 name),
    UInt32.toNat_inj.1 line, UInt32.toNat_inj.1 column⟩

theorem lineFeed_not_mem_dump (t : Token) : '\n' ∉ t.dump.toList := by
  have digits {n : Nat} : '\n' ∉ Nat.toDigits 10 n :=
    fun mem => absurd (digit_of_mem_toDigits _ mem) (by decide)
  have lexeme : '\n' ∉ Text.escapeChars t.lexeme.toList :=
    fun mem => Text.escapeChars_visible _ _ mem (by decide)
  rw [toList_dump]
  simp [t.kind.letters_name.2, digits, lexeme]

end Token

/-! ## Lines -/

theorem toList_joinLines_cons (l : String) (ls : List String) :
    (joinLines (l :: ls)).toList = l.toList ++ '\n' :: (joinLines ls).toList := by
  rw [joinLines_cons, String.toList_append, String.toList_append, List.append_assoc]
  rfl

theorem joinLines_inj {ls ls' : List String} (solid : ∀ l ∈ ls, '\n' ∉ l.toList)
    (solid' : ∀ l ∈ ls', '\n' ∉ l.toList) (same : joinLines ls = joinLines ls') : ls = ls' := by
  have ne (l : String) (ls : List String) : joinLines (l :: ls) ≠ "" := by
    rw [← String.toList_inj.ne, toList_joinLines_cons]
    simp
  induction ls generalizing ls' with
  | nil =>
    cases ls' with
    | nil => rfl
    | cons l' ls' => exact absurd same.symm (ne l' ls')
  | cons l ls ih =>
    cases ls' with
    | nil => exact absurd same (ne l ls)
    | cons l' ls' =>
      rw [List.forall_mem_cons] at solid solid'
      rw [← String.toList_inj, toList_joinLines_cons, toList_joinLines_cons] at same
      obtain ⟨head, tail⟩ := cut_inj same solid.1 solid'.1
      rw [String.toList_inj.1 head, ih solid.2 solid'.2 (String.toList_inj.1 tail)]

/-! ## Dumps -/

section Titled

variable {α β : Type} {heading : String} {f : α → String}

/-- A heading and a line for each item, or nothing if there are no items to be listed. -/
def titled (heading : String) (f : α → String) : Option (List α) → List String
  | some items => heading :: items.map f
  | none => []

theorem forall_mem_titled {P : String → Prop} (first : P heading) (each : ∀ a, P (f a))
    (items : Option (List α)) : ∀ l ∈ titled heading f items, P l := by
  cases items with
  | none => exact fun l mem => absurd mem List.not_mem_nil
  | some items => exact List.forall_mem_cons.2 ⟨first, List.forall_mem_map.2 fun a _ => each a⟩

theorem map_eq_of_map_eq {g : α → β} (reads : ∀ a a', f a = f a' → g a = g a') {as as' : List α}
    (same : as.map f = as'.map f) : as.map g = as'.map g := by
  induction as generalizing as' with
  | nil =>
    cases as' with
    | nil => rfl
    | cons a' as' => cases same
  | cons a as ih =>
    cases as' with
    | nil => cases same
    | cons a' as' =>
      obtain ⟨head, tail⟩ := List.cons.inj same
      rw [List.map_cons, List.map_cons, reads a a' head, ih tail]

/-- A list with a heading determines of its items what a line does. -/
theorem map_eq_of_titled_eq {g : α → β} (reads : ∀ a a', f a = f a' → g a = g a')
    {items items' : Option (List α)} (same : titled heading f items = titled heading f items') :
    items.map (List.map g) = items'.map (List.map g) := by
  cases items with
  | none =>
    cases items' with
    | none => rfl
    | some _ => cases same
  | some _ =>
    cases items' with
    | none => cases same
    | some _ => exact congrArg some (map_eq_of_map_eq reads (List.cons.inj same).2)

end Titled

namespace Outcome

/-- The lines of the dump after the source. -/
def dumpLines (o : Outcome) : List String :=
  titled "== tokens ==" Token.dump o.tokens ++
    titled "== ast ==" Stmt.text (o.program.map Program.statements)

theorem dump_eq (source : String) (o : Outcome) :
    o.dump source = "== source ==\n" ++ source
      ++ (if source.toList.getLast? = some '\n' then "" else "\n") ++ joinLines o.dumpLines := by
  obtain ⟨tokens, program, value, printed, diagnostics⟩ := o
  rw [dumpLines, joinLines_append, ← String.append_assoc]
  cases tokens with
  | none =>
    cases program with
    | none => rfl
    | some p =>
      rw [Option.map_some, titled, titled, joinLines_cons]
      rfl
  | some ts =>
    cases program with
    | none =>
      rw [titled, joinLines_cons]
      rfl
    | some p =>
      rw [Option.map_some, titled, titled, joinLines_cons, joinLines_cons]
      rfl

theorem solid_dumpLines (o : Outcome) : ∀ l ∈ o.dumpLines, '\n' ∉ l.toList :=
  List.forall_mem_append.2
    ⟨forall_mem_titled (by decide) Token.lineFeed_not_mem_dump _,
      forall_mem_titled (by decide) Stmt.lineFeed_not_mem_text _⟩

theorem dump_eq_iff_dumpLines {source : String} {o o' : Outcome} :
    o.dump source = o'.dump source ↔ o.dumpLines = o'.dumpLines := by
  rw [dump_eq, dump_eq, String.append_right_inj]
  exact ⟨joinLines_inj o.solid_dumpLines o'.solid_dumpLines, congrArg joinLines⟩

/-- The heading of the statements is no line of a token. -/
theorem titled_eq_of_dumpLines_eq {o o' : Outcome} (same : o.dumpLines = o'.dumpLines) :
    titled "== tokens ==" Token.dump o.tokens = titled "== tokens ==" Token.dump o'.tokens ∧
      titled "== ast ==" Stmt.text (o.program.map Program.statements) =
        titled "== ast ==" Stmt.text (o'.program.map Program.statements) := by
  have apart (t : Token) : t.dump ≠ "== ast ==" := by
    intro eq
    have first := t.toList_dump
    rw [eq] at first
    exact absurd (List.cons.inj first).1 (by decide)
  have ends (ss : Option (List Stmt)) :
      ∀ l ∈ (titled "== ast ==" Stmt.text ss).head?, ¬ l ≠ "== ast ==" := by
    cases ss with
    | none => exact fun l head => nomatch head
    | some ss => exact forall_mem_head_cons (fun ne => ne rfl) _
  exact run_append_inj (P := (· ≠ "== ast ==")) same (forall_mem_titled (by decide) apart _)
    (forall_mem_titled (by decide) apart _) (ends _) (ends _)

theorem titled_unplaced (o : Outcome) :
    titled "== ast ==" Stmt.text (o.program.map Program.statements) =
      titled "== ast ==" Stmt.text ((o.program.map Program.unplaced).map Program.statements) := by
  cases o.program with
  | none => rfl
  | some p =>
    have lines : (p.statements.map Stmt.unplaced).map Stmt.text = p.statements.map Stmt.text := by
      rw [List.map_map]
      exact List.map_congr_left fun s _ => s.text_unplaced
    exact congrArg ("== ast ==" :: ·) lines.symm

/-- Two outcomes of a source have the same dump just when they have the same tokens, and the same
statements but for the places of their nodes. -/
theorem dump_eq_iff (source : String) (o o' : Outcome) :
    o.dump source = o'.dump source ↔
      o.tokens = o'.tokens ∧
        o.program.map Program.unplaced = o'.program.map Program.unplaced := by
  have forget (o : Outcome) : o.program.map Program.unplaced =
      ((o.program.map Program.statements).map (List.map Stmt.unplaced)).map Program.mk := by
    cases o.program <;> rfl
  rw [dump_eq_iff_dumpLines]
  constructor
  · intro same
    obtain ⟨tokens, statements⟩ := titled_eq_of_dumpLines_eq same
    have tokens := map_eq_of_titled_eq (g := id) (fun t t' => Token.dump_inj) tokens
    have statements := map_eq_of_titled_eq (fun s s' => Stmt.text_eq_iff.1) statements
    rw [forget, forget, statements]
    simpa using tokens
  · rintro ⟨tokens, statements⟩
    rw [dumpLines, dumpLines, tokens, titled_unplaced, statements, ← titled_unplaced]

end Outcome

end Ember
