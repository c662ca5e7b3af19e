import Ember.Proofs.NumberText

/-!
# The grammar of JSON texts

The standard grammar of JSON as relations between values and the characters that they are written
with: any blanks around structural characters, numbers with a fraction and an exponent, and strings
with every escape, pairs of surrogates included. `Denotes` is the grammar of a whole text.

A text has at most one reading. The grammar leaves open to which side a blank belongs, so that
readings are compared up to the blanks that follow (`skip`):

1. a number goes on as long as its characters do, and its value is the one that `Decimal.read?`
   finds (`Numeral.unique`);
2. a character of a string is determined by its spelling, whatever follows (`Spelling.unique`);
3. the first character of a value shows what kind of value it is (`Written.opens`), and a comma or
   a closing bracket whether another item follows (`Written.unique`).

Main statement: `Denotes.unique`.
-/

namespace Ember.JsonText

open Lexical

/-! ## Values and terminals -/

/-- What a JSON text stands for. Numbers are exact, and the members of an object are kept in their
order. -/
inductive Value where
  | null
  | bool (b : Bool)
  | number (negative : Bool) (magnitude : Decimal)
  | string (s : String)
  | array (items : List Value)
  | object (members : List (String × Value))

/-- The characters that may stand between tokens. -/
def blanks : List Char := [' ', '\t', '\n', '\r']

def Blank (cs : List Char) : Prop := ∀ c ∈ cs, c ∈ blanks

/-- A structural character with blanks around it. -/
inductive Mark (m : Char) : List Char → Prop
  | mk {before after : List Char} (blank : Blank before) (blank' : Blank after) :
      Mark m (before ++ m :: after)

/-! ## Numbers -/

/-- At least one digit. -/
structure Digits (ds : List Char) : Prop where
  ne_nil : ds ≠ []
  digits : ∀ c ∈ ds, Digit c

/-- The fractional part, with its digits. -/
inductive Fraction : List Char → List Char → Prop
  | none : Fraction [] []
  | point {ds : List Char} (digits : Digits ds) : Fraction ds ('.' :: ds)

/-- The exponent part, with its value. -/
inductive Exponent : Int → List Char → Prop
  | none : Exponent 0 []
  | plain {m : Char} {ds : List Char} (mark : m = 'e' ∨ m = 'E') (digits : Digits ds) :
      Exponent (digitsValue ds) (m :: ds)
  | plus {m : Char} {ds : List Char} (mark : m = 'e' ∨ m = 'E') (digits : Digits ds) :
      Exponent (digitsValue ds) (m :: '+' :: ds)
  | minus {m : Char} {ds : List Char} (mark : m = 'e' ∨ m = 'E') (digits : Digits ds) :
      Exponent (-digitsValue ds) (m :: '-' :: ds)

/-- A number: a sign, a whole part that starts with a zero only if it is zero, a fraction and an
exponent. -/
inductive Numeral : Bool → Decimal → List Char → Prop
  | mk {negative : Bool} {whole places t u : List Char} {e : Int} (digits : Digits whole)
      (lead : whole.head? = some '0' → whole = ['0']) (fraction : Fraction places t)
      (exponent : Exponent e u) :
      Numeral negative ⟨digitsValue (whole ++ places), e - places.length⟩
        (Layout.sign negative (whole ++ (t ++ u)))

/-! ## Strings -/

/-- The characters with an escape of their own, and the letter of the escape. -/
def letters : List (Char × Char) :=
  [('"', '"'), ('\\', '\\'), ('/', '/'), ('\x08', 'b'), ('\x0c', 'f'), ('\n', 'n'), ('\r', 'r'),
    ('\t', 't')]

def HexDigit (c : Char) : Prop := Digit c ∨ ('a' ≤ c ∧ c ≤ 'f') ∨ ('A' ≤ c ∧ c ≤ 'F')

instance : DecidablePred HexDigit := fun _ => inferInstanceAs (Decidable (_ ∨ _ ∨ _))

def hexValue (c : Char) : Nat :=
  if Digit c then digitValue c
  else if 'a' ≤ c then c.toNat - 'a'.toNat + 10
  else c.toNat - 'A'.toNat + 10

/-- Four hexadecimal digits and the number that they are. -/
structure CodeUnit (n : Nat) (ds : List Char) : Prop where
  length : ds.length = 4
  digits : ∀ c ∈ ds, HexDigit c
  value : ds.foldl (fun n c => 16 * n + hexValue c) 0 = n

/-- How a character may be written in a string: as itself, by its letter, by its code, or by the
two surrogates of a code beyond four digits. -/
inductive Spelling : Char → List Char → Prop
  | plain {c : Char} (visible : ' ' ≤ c) (quote : c ≠ '"') (backslash : c ≠ '\\') : Spelling c [c]
  | letter {c l : Char} (mem : (c, l) ∈ letters) : Spelling c ['\\', l]
  | code {c : Char} {ds : List Char} (unit : CodeUnit c.toNat ds) : Spelling c ('\\' :: 'u' :: ds)
  | surrogates {c : Char} {ds es : List Char} (beyond : 0x10000 ≤ c.toNat)
      (high : CodeUnit (0xD800 + (c.toNat - 0x10000) / 0x400) ds)
      (low : CodeUnit (0xDC00 + (c.toNat - 0x10000) % 0x400) es) :
      Spelling c ('\\' :: 'u' :: (ds ++ '\\' :: 'u' :: es))

inductive Spelled : List Char → List Char → Prop
  | nil : Spelled [] []
  | cons {c : Char} {cs t u : List Char} (first : Spelling c t) (more : Spelled cs u) :
      Spelled (c :: cs) (t ++ u)

/-- A string in quotes. -/
inductive Quoted (s : String) : List Char → Prop
  | mk {body : List Char} (spelled : Spelled s.toList body) : Quoted s ('"' :: (body ++ ['"']))

/-! ## Phrases -/

inductive Phrase where
  | value (v : Value)
  /-- Values with a comma before each. -/
  | items (vs : List Value)
  | member (name : String) (v : Value)
  /-- Members with a comma before each. -/
  | members (ms : List (String × Value))

/-- The characters are the given phrase. -/
inductive Written : Phrase → List Char → Prop
  | null : Written (.value .null) ['n', 'u', 'l', 'l']
  | yes : Written (.value (.bool true)) ['t', 'r', 'u', 'e']
  | no : Written (.value (.bool false)) ['f', 'a', 'l', 's', 'e']
  | number {negative : Bool} {d : Decimal} {t : List Char} (numeral : Numeral negative d t) :
      Written (.value (.number negative d)) t
  | string {s : String} {t : List Char} (quoted : Quoted s t) : Written (.value (.string s)) t
  | emptyArray {a b : List Char} (opening : Mark '[' a) (closing : Mark ']' b) :
      Written (.value (.array [])) (a ++ b)
  | array {v : Value} {vs : List Value} {a b t u : List Char} (opening : Mark '[' a)
      (first : Written (.value v) t) (more : Written (.items vs) u) (closing : Mark ']' b) :
      Written (.value (.array (v :: vs))) (a ++ (t ++ (u ++ b)))
  | emptyObject {a b : List Char} (opening : Mark '\x7b' a) (closing : Mark '\x7d' b) :
      Written (.value (.object [])) (a ++ b)
  | object {name : String} {v : Value} {ms : List (String × Value)} {a b t u : List Char}
      (opening : Mark '\x7b' a) (first : Written (.member name v) t)
      (more : Written (.members ms) u) (closing : Mark '\x7d' b) :
      Written (.value (.object ((name, v) :: ms))) (a ++ (t ++ (u ++ b)))
  | noItem : Written (.items []) []
  | item {v : Value} {vs : List Value} {a t u : List Char} (comma : Mark ',' a)
      (first : Written (.value v) t) (more : Written (.items vs) u) :
      Written (.items (v :: vs)) (a ++ (t ++ u))
  | member {name : String} {v : Value} {a t u : List Char} (quoted : Quoted name t)
      (colon : Mark ':' a) (value : Written (.value v) u) :
      Written (.member name v) (t ++ (a ++ u))
  | noMember : Written (.members []) []
  | nextMember {name : String} {v : Value} {ms : List (String × Value)} {a t u : List Char}
      (comma : Mark ',' a) (first : Written (.member name v) t)
      (more : Written (.members ms) u) :
      Written (.members ((name, v) :: ms)) (a ++ (t ++ u))

/-- The text is a value with blanks around it. -/
inductive Denotes (text : String) (v : Value) : Prop
  | mk {before t after : List Char} (blank : Blank before) (written : Written (.value v) t)
      (blank' : Blank after) (eq : text.toList = before ++ (t ++ after))

/-! ## Blanks -/

/-- The characters from the first that is not blank. -/
def skip (cs : List Char) : List Char := cs.dropWhile fun c => decide (c ∈ blanks)

theorem skip_append {ws : List Char} (blank : Blank ws) (cs : List Char) :
    skip (ws ++ cs) = skip cs :=
  List.dropWhile_append_of_pos fun c mem => decide_eq_true (blank c mem)

theorem skip_cons {c : Char} (solid : c ∉ blanks) (cs : List Char) : skip (c :: cs) = c :: cs :=
  List.dropWhile_cons_of_neg fun blank => solid (of_decide_eq_true blank)

theorem Mark.skip_eq {m : Char} {a : List Char} (h : Mark m a) (solid : m ∉ blanks)
    (cs : List Char) : ∃ rest, skip (a ++ cs) = m :: rest ∧ skip rest = skip cs := by
  cases h with
  | @mk before after blank blank' =>
    refine ⟨after ++ cs, ?_, skip_append blank' cs⟩
    rw [List.append_assoc, skip_append blank, List.cons_append, skip_cons solid]

/-- Both texts go on in the same way after the same mark. -/
theorem Mark.unique {m : Char} {a a' cs cs' : List Char} (h : Mark m a) (h' : Mark m a')
    (solid : m ∉ blanks) (same : skip (a ++ cs) = skip (a' ++ cs')) : skip cs = skip cs' := by
  obtain ⟨rest, eq, after⟩ := h.skip_eq solid cs
  obtain ⟨rest', eq', after'⟩ := h'.skip_eq solid cs'
  rw [eq, eq'] at same
  rw [← after, (List.cons.inj same).2, after']

/-! ## Readings of numbers -/

/-- The characters that a number is made of. -/
def NumeralChar (c : Char) : Prop := Digit c ∨ c ∈ ['-', '+', '.', 'e', 'E']

instance : DecidablePred NumeralChar := fun _ => inferInstanceAs (Decidable (_ ∨ _))

theorem not_numeralChar_of_blank : ∀ c ∈ blanks, ¬ NumeralChar c :=
  forall_mem_of_all (by decide)

theorem Digits.numeralChars {ds : List Char} (h : Digits ds) : ∀ c ∈ ds, NumeralChar c :=
  fun c mem => .inl (h.digits c mem)

theorem Digits.eq_cons {ds : List Char} (h : Digits ds) : ∃ c cs, ds = c :: cs ∧ Digit c := by
  cases ds with
  | nil => exact absurd rfl h.ne_nil
  | cons c cs => exact ⟨c, cs, rfl, h.digits c List.mem_cons_self⟩

theorem Digits.isNumeral {ds : List Char} (h : Digits ds) : isNumeral ds = true :=
  isNumeral_of_digits h.ne_nil h.digits

theorem Fraction.numeralChars {ds t : List Char} (h : Fraction ds t) : ∀ c ∈ t, NumeralChar c := by
  cases h with
  | none => exact fun c mem => nomatch mem
  | point digits => exact List.forall_mem_cons.2 ⟨by decide, digits.numeralChars⟩

theorem Exponent.numeralChars {e : Int} {t : List Char} (h : Exponent e t) :
    ∀ c ∈ t, NumeralChar c := by
  have letter {m : Char} (mark : m = 'e' ∨ m = 'E') : NumeralChar m := by
    rcases mark with rfl | rfl <;> decide
  cases h with
  | none => exact fun c mem => nomatch mem
  | plain mark digits => exact List.forall_mem_cons.2 ⟨letter mark, digits.numeralChars⟩
  | plus mark digits | minus mark digits =>
    exact List.forall_mem_cons.2
      ⟨letter mark, List.forall_mem_cons.2 ⟨by decide, digits.numeralChars⟩⟩

theorem Exponent.ends {e : Int} {t : List Char} (h : Exponent e t) : Decimal.Ends t := by
  have letter {m : Char} (mark : m = 'e' ∨ m = 'E') : ¬ Digit m ∧ m ≠ '.' := by
    rcases mark with rfl | rfl <;> decide
  cases h with
  | none => exact Decimal.ends_nil
  | plain mark digits | plus mark digits | minus mark digits =>
    refine forall_mem_head_cons ?_ _
    exact letter mark

theorem Exponent.read {e : Int} {t : List Char} (h : Exponent e t) :
    Decimal.readExponent? t = some e := by
  cases h with
  | none => rfl
  | plain mark digits =>
    obtain ⟨c, cs, rfl, digit⟩ := digits.eq_cons
    rw [Decimal.readExponent?, if_pos mark, readInt?, splitSign_of_digit digit]
    exact if_pos digits.isNumeral
  | plus mark digits =>
    rw [Decimal.readExponent?, if_pos mark]
    exact if_pos digits.isNumeral
  | minus mark digits =>
    rw [Decimal.readExponent?, if_pos mark]
    exact if_pos digits.isNumeral

namespace Numeral

variable {negative negative' : Bool} {d d' : Decimal} {t t' : List Char}

theorem numeralChars (h : Numeral negative d t) : ∀ c ∈ t, NumeralChar c := by
  cases h with
  | mk digits lead fraction exponent =>
    have unsigned := List.forall_mem_append.2 ⟨digits.numeralChars,
      List.forall_mem_append.2 ⟨fraction.numeralChars, exponent.numeralChars⟩⟩
    cases negative with
    | false => exact unsigned
    | true => exact List.forall_mem_cons.2 ⟨by decide, unsigned⟩

/-- The sign and the value are those that the characters are read as. -/
theorem read (h : Numeral negative d t) :
    (splitSign t).1 = negative ∧ Decimal.read? (splitSign t).2 = some d := by
  cases h with
  | @mk whole places t u e digits lead fraction exponent =>
    obtain ⟨c, cs, eq, digit⟩ := digits.eq_cons
    have split : splitSign (Layout.sign negative (whole ++ (t ++ u))) =
        (negative, whole ++ (t ++ u)) := by
      rw [eq]
      exact splitSign_sign digit negative _
    rw [split]
    refine ⟨rfl, ?_⟩
    dsimp only
    cases fraction with
    | none =>
      rw [List.nil_append, Decimal.read?_of_whole digits.digits digits.ne_nil exponent.ends,
        exponent.read]
      simp
    | point digits' =>
      rw [List.cons_append,
        Decimal.read?_of_point digits.digits digits.ne_nil digits'.digits exponent.ends,
        exponent.read]
      rfl

/-- A number ends where its characters do. -/
theorem unique (h : Numeral negative d t) (h' : Numeral negative' d' t') {r r' : List Char}
    (ends : ∀ c ∈ r.head?, ¬ NumeralChar c) (ends' : ∀ c ∈ r'.head?, ¬ NumeralChar c)
    (same : t ++ r = t' ++ r') : negative = negative' ∧ d = d' ∧ r = r' := by
  obtain ⟨rfl, rest⟩ := run_append_inj same h.numeralChars h'.numeralChars ends ends'
  have value := h.read.2
  rw [h'.read.2, Option.some.injEq] at value
  exact ⟨h.read.1.symm.trans h'.read.1, value.symm, rest⟩

end Numeral

/-! ## Readings of strings -/

theorem CodeUnit.unique {n n' : Nat} {ds ds' r r' : List Char} (h : CodeUnit n ds)
    (h' : CodeUnit n' ds') (same : ds ++ r = ds' ++ r') : n = n' ∧ r = r' := by
  obtain ⟨rfl, rest⟩ := List.append_inj same (h.length.trans h'.length.symm)
  exact ⟨h.value.symm.trans h'.value, rest⟩

theorem letters_unique : ∀ p ∈ letters, ∀ q ∈ letters, p.2 = q.2 → p.1 = q.1 := by decide

theorem letters_ne : ∀ p ∈ letters, p.2 ≠ 'u' := by decide

/-- No character has the code of a surrogate. -/
theorem toNat_ne_surrogate (c : Char) {n : Nat} (lt : n < 0x400) : c.toNat ≠ 0xD800 + n := by
  have valid : c.toNat < 0xD800 ∨ 0xDFFF < c.toNat ∧ c.toNat < 0x110000 := c.valid
  omega

theorem high_lt (c : Char) : (c.toNat - 0x10000) / 0x400 < 0x400 := by
  have valid : c.toNat < 0xD800 ∨ 0xDFFF < c.toNat ∧ c.toNat < 0x110000 := c.valid
  omega

/-- A spelling starts with no quote, and with a backslash unless it is the character itself. -/
theorem Spelling.ne_quote {c : Char} {t cs r : List Char} (h : Spelling c t) :
    t ++ r ≠ '"' :: cs := by
  intro eq
  cases h with
  | plain visible quote backslash => exact quote (List.cons.inj eq).1
  | letter mem | code unit | surrogates beyond high low =>
    exact absurd (List.cons.inj eq).1 (by decide)

/-- A character and what follows its spelling are determined by the text. -/
theorem Spelling.unique {c c' : Char} {t t' r r' : List Char} (h : Spelling c t)
    (h' : Spelling c' t') (same : t ++ r = t' ++ r') : c = c' ∧ r = r' := by
  cases h with
  | plain visible quote backslash =>
    cases h' with
    | plain => exact ⟨(List.cons.inj same).1, (List.cons.inj same).2⟩
    | letter | code | surrogates => exact absurd (List.cons.inj same).1 backslash
  | letter mem =>
    cases h' with
    | plain visible quote backslash => exact absurd (List.cons.inj same).1.symm backslash
    | letter mem' =>
      obtain ⟨letter, rest⟩ := List.cons.inj (List.cons.inj same).2
      exact ⟨letters_unique _ mem _ mem' letter, rest⟩
    | code | surrogates =>
      exact absurd (List.cons.inj (List.cons.inj same).2).1 (letters_ne _ mem)
  | code unit =>
    cases h' with
    | plain visible quote backslash => exact absurd (List.cons.inj same).1.symm backslash
    | letter mem' =>
      exact absurd (List.cons.inj (List.cons.inj same).2).1.symm (letters_ne _ mem')
    | code unit' =>
      obtain ⟨code, rest⟩ := unit.unique unit' (List.cons.inj (List.cons.inj same).2).2
      exact ⟨Char.toNat_inj.1 code, rest⟩
    -- a code that stands for itself is no surrogate, so that the pair has no shorter reading
    | surrogates beyond high low =>
      simp only [List.cons_append, List.append_assoc, List.cons.injEq, true_and] at same
      exact absurd (unit.unique high same).1 (toNat_ne_surrogate c (high_lt c'))
  | surrogates beyond high low =>
    cases h' with
    | plain visible quote backslash => exact absurd (List.cons.inj same).1.symm backslash
    | letter mem' =>
      exact absurd (List.cons.inj (List.cons.inj same).2).1.symm (letters_ne _ mem')
    | code unit' =>
      simp only [List.cons_append, List.append_assoc, List.cons.injEq, true_and] at same
      exact absurd (high.unique unit' same).1.symm (toNat_ne_surrogate c' (high_lt c))
    | surrogates beyond' high' low' =>
      simp only [List.cons_append, List.append_assoc, List.cons.injEq, true_and] at same
      obtain ⟨first, same⟩ := high.unique high' same
      obtain ⟨second, rest⟩ := low.unique low' (List.cons.inj (List.cons.inj same).2).2
      exact ⟨Char.toNat_inj.1 (by omega), rest⟩

theorem Spelled.unique {cs cs' t t' r r' : List Char} (h : Spelled cs t) (h' : Spelled cs' t')
    (same : t ++ '"' :: r = t' ++ '"' :: r') : cs = cs' ∧ r = r' := by
  induction h generalizing cs' t' with
  | nil =>
    cases h' with
    | nil => exact ⟨rfl, (List.cons.inj same).2⟩
    | cons first more =>
      rw [List.append_assoc] at same
      exact absurd same.symm first.ne_quote
  | cons first more ih =>
    rw [List.append_assoc] at same
    cases h' with
    | nil => exact absurd same first.ne_quote
    | cons first' more' =>
      rw [List.append_assoc] at same
      obtain ⟨rfl, same⟩ := first.unique first' same
      obtain ⟨rfl, rest⟩ := ih more' same
      exact ⟨rfl, rest⟩

theorem Quoted.unique {s s' : String} {t t' r r' : List Char} (h : Quoted s t) (h' : Quoted s' t')
    (same : t ++ r = t' ++ r') : s = s' ∧ r = r' := by
  cases h with
  | mk spelled =>
    cases h' with
    | mk spelled' =>
      simp only [List.cons_append, List.append_assoc, List.cons.injEq, true_and] at same
      obtain ⟨chars, rest⟩ := spelled.unique spelled' same
      exact ⟨String.toList_inj.1 chars, rest⟩

/-! ## Readings of values -/

inductive Kind where
  | null
  | yes
  | no
  | number
  | string
  | array
  | object
deriving DecidableEq

def Value.kind : Value → Kind
  | null => .null
  | bool true => .yes
  | bool false => .no
  | number _ _ => .number
  | string _ => .string
  | array _ => .array
  | object _ => .object

/-- The kind of value that starts with a character. -/
def Kind.ofChar? (c : Char) : Option Kind :=
  if c = '-' ∨ Digit c then some .number
  else if c = 'n' then some .null
  else if c = 't' then some .yes
  else if c = 'f' then some .no
  else if c = '"' then some .string
  else if c = '[' then some .array
  else if c = '\x7b' then some .object
  else none

theorem Kind.ofChar?_closing : ∀ c ∈ [']', '\x7d'], c ∉ blanks ∧ ofChar? c = none :=
  forall_mem_of_all (by decide)

theorem Numeral.eq_cons {negative : Bool} {d : Decimal} {t : List Char}
    (h : Numeral negative d t) : ∃ c cs, t = c :: cs ∧ (c = '-' ∨ Digit c) := by
  cases h with
  | mk digits lead fraction exponent =>
    cases negative with
    | true => exact ⟨'-', _, rfl, .inl rfl⟩
    | false =>
      obtain ⟨c, cs, rfl, digit⟩ := digits.eq_cons
      exact ⟨c, _, rfl, .inr digit⟩

theorem Numeral.skip_eq {negative : Bool} {d : Decimal} {t : List Char}
    (h : Numeral negative d t) (r : List Char) : skip (t ++ r) = t ++ r := by
  obtain ⟨c, cs, rfl, first⟩ := h.eq_cons
  refine skip_cons (fun blank => ?_) _
  have other : ∀ c ∈ blanks, ¬ (c = '-' ∨ Digit c) := forall_mem_of_all (by decide)
  exact other c blank first

theorem Quoted.skip_eq {s : String} {t : List Char} (h : Quoted s t) (r : List Char) :
    skip (t ++ r) = t ++ r := by
  cases h with
  | mk spelled => exact skip_cons (by decide) _

namespace Written

theorem starts {v : Value} {t : List Char} (h : Written (.value v) t) (r : List Char) :
    ∃ c cs, skip (t ++ r) = c :: cs ∧ Kind.ofChar? c = some v.kind := by
  cases h with
  | null => exact ⟨'n', _, skip_cons (by decide) _, by decide⟩
  | yes => exact ⟨'t', _, skip_cons (by decide) _, by decide⟩
  | no => exact ⟨'f', _, skip_cons (by decide) _, by decide⟩
  | number numeral =>
    obtain ⟨c, cs, rfl, first⟩ := numeral.eq_cons
    exact ⟨c, _, numeral.skip_eq r, if_pos first⟩
  | string quoted =>
    cases quoted with
    | mk spelled => exact ⟨'"', _, skip_cons (by decide) _, rfl⟩
  | emptyArray opening closing =>
    rw [List.append_assoc]
    obtain ⟨rest, eq, _⟩ := opening.skip_eq (by decide) _
    exact ⟨'[', rest, eq, rfl⟩
  | array opening first more closing =>
    rw [List.append_assoc]
    obtain ⟨rest, eq, _⟩ := opening.skip_eq (by decide) _
    exact ⟨'[', rest, eq, rfl⟩
  | emptyObject opening closing =>
    rw [List.append_assoc]
    obtain ⟨rest, eq, _⟩ := opening.skip_eq (by decide) _
    exact ⟨'\x7b', rest, eq, rfl⟩
  | object opening first more closing =>
    rw [List.append_assoc]
    obtain ⟨rest, eq, _⟩ := opening.skip_eq (by decide) _
    exact ⟨'\x7b', rest, eq, rfl⟩

theorem kind_eq {v v' : Value} {t t' r r' : List Char} (h : Written (.value v) t)
    (h' : Written (.value v') t') (same : skip (t ++ r) = skip (t' ++ r')) : v.kind = v'.kind := by
  obtain ⟨c, cs, eq, kind⟩ := h.starts r
  obtain ⟨c', cs', eq', kind'⟩ := h'.starts r'
  rw [eq, eq', List.cons.injEq] at same
  rw [same.1, kind', Option.some.injEq] at kind
  exact kind.symm

/-- A value does not start with a closing bracket, -/
theorem ne_closing {v : Value} {m : Char} {t r a cs : List Char} (h : Written (.value v) t)
    (closing : Mark m a) (mem : m ∈ [']', '\x7d']) : skip (t ++ r) ≠ skip (a ++ cs) := by
  intro same
  obtain ⟨solid, none⟩ := Kind.ofChar?_closing m mem
  obtain ⟨c, ds, eq, kind⟩ := h.starts r
  obtain ⟨rest, eq', _⟩ := closing.skip_eq solid cs
  rw [eq, eq', List.cons.injEq] at same
  rw [same.1, none] at kind
  cases kind

end Written

/-- What follows does not go on with a number. -/
def Stops (r : List Char) : Prop := ∀ c ∈ r.head?, ¬ NumeralChar c

theorem stops_cons {c : Char} (other : ¬ NumeralChar c) (r : List Char) : Stops (c :: r) :=
  forall_mem_head_cons (P := (¬ NumeralChar ·)) other r

theorem stops_of_blank {ws r : List Char} (blank : Blank ws) (stops : Stops r) :
    Stops (ws ++ r) := by
  cases ws with
  | nil => exact stops
  | cons c ws => exact stops_cons (not_numeralChar_of_blank c (blank c List.mem_cons_self)) _

theorem Mark.stops {m : Char} {a : List Char} (h : Mark m a) (other : ¬ NumeralChar m)
    (r : List Char) : Stops (a ++ r) := by
  cases h with
  | mk blank blank' =>
    rw [List.append_assoc]
    exact stops_of_blank blank (stops_cons other _)

/-- What follows is a closing bracket, after blanks perhaps. -/
def Closed (m : Char) (r : List Char) : Prop := ∃ cs, skip r = m :: cs

theorem Mark.closed {m : Char} {a : List Char} (h : Mark m a) (solid : m ∉ blanks)
    (r : List Char) : Closed m (a ++ r) := by
  obtain ⟨rest, eq, _⟩ := h.skip_eq solid r
  exact ⟨rest, eq⟩

theorem Closed.ne_mark {m n : Char} {r a cs : List Char} (h : Closed m r) (mark : Mark n a)
    (solid : n ∉ blanks) (ne : m ≠ n) : skip r ≠ skip (a ++ cs) := by
  obtain ⟨rest, eq⟩ := h
  obtain ⟨rest', eq', _⟩ := mark.skip_eq solid cs
  rw [eq, eq']
  exact fun same => ne (List.cons.inj same).1

theorem Closed.stops {m : Char} {r : List Char} (h : Closed m r) (other : ¬ NumeralChar m) :
    Stops r := by
  obtain ⟨cs, eq⟩ := h
  cases r with
  | nil => cases eq
  | cons c r =>
    by_cases blank : c ∈ blanks
    · exact stops_cons (not_numeralChar_of_blank c blank) r
    · rw [skip_cons blank, List.cons.injEq] at eq
      exact stops_cons (eq.1 ▸ other) r

/-- nor does a member. -/
theorem Written.member_ne_closing {name : String} {v : Value} {m : Char} {t r a cs : List Char}
    (h : Written (.member name v) t) (closing : Mark m a) (mem : m ∈ [']', '\x7d']) :
    skip (t ++ r) ≠ skip (a ++ cs) := by
  cases h with
  | member quoted colon value =>
    rw [List.append_assoc]
    exact (Written.string quoted).ne_closing closing mem

theorem Written.stops_items {vs : List Value} {u r : List Char} (h : Written (.items vs) u)
    (stops : Stops r) : Stops (u ++ r) := by
  cases h with
  | noItem => exact stops
  | item comma first more =>
    rw [List.append_assoc]
    exact comma.stops (by decide) _

theorem Written.stops_members {ms : List (String × Value)} {u r : List Char}
    (h : Written (.members ms) u) (stops : Stops r) : Stops (u ++ r) := by
  cases h with
  | noMember => exact stops
  | nextMember comma first more =>
    rw [List.append_assoc]
    exact comma.stops (by decide) _

/-- The characters have no other reading as a phrase of this form, in front of whatever may
follow it. -/
def Phrase.Unique (t : List Char) : Phrase → Prop
  | .value v => ∀ {v' t' r r'}, Written (.value v') t' → Stops r → Stops r' →
      skip (t ++ r) = skip (t' ++ r') → v = v' ∧ skip r = skip r'
  | .items vs => ∀ {vs' t' r r'}, Written (.items vs') t' → Closed ']' r → Closed ']' r' →
      skip (t ++ r) = skip (t' ++ r') → vs = vs' ∧ skip r = skip r'
  | .member name v => ∀ {name' v' t' r r'}, Written (.member name' v') t' → Stops r → Stops r' →
      skip (t ++ r) = skip (t' ++ r') → name = name' ∧ v = v' ∧ skip r = skip r'
  | .members ms => ∀ {ms' t' r r'}, Written (.members ms') t' → Closed '\x7d' r →
      Closed '\x7d' r' → skip (t ++ r) = skip (t' ++ r') → ms = ms' ∧ skip r = skip r'

theorem skip_append_cancel {c : Char} {t r r' : List Char} (solid : c ∉ blanks)
    (same : skip (c :: t ++ r) = skip (c :: t ++ r')) : skip r = skip r' := by
  rw [List.cons_append, List.cons_append, skip_cons solid, skip_cons solid, List.cons.injEq,
    List.append_cancel_left_eq] at same
  rw [same.2]

theorem Written.unique {p : Phrase} {t : List Char} (h : Written p t) : p.Unique t := by
  -- The induction is on one reading. The other reading of a value starts with the same character
  -- and hence has the same kind, which leaves only its empty form to be told from the other one;
  -- in a row of items the next mark shows whether the row goes on.
  induction h with
  | null =>
    intro v' t' r r' h' stops stops' same
    have kind := Written.null.kind_eq h' same
    cases h' with
    | null => exact ⟨rfl, skip_append_cancel (by decide) same⟩
    | _ => cases kind
  | yes =>
    intro v' t' r r' h' stops stops' same
    have kind := Written.yes.kind_eq h' same
    cases h' with
    | yes => exact ⟨rfl, skip_append_cancel (by decide) same⟩
    | _ => cases kind
  | no =>
    intro v' t' r r' h' stops stops' same
    have kind := Written.no.kind_eq h' same
    cases h' with
    | no => exact ⟨rfl, skip_append_cancel (by decide) same⟩
    | _ => cases kind
  | number numeral =>
    intro v' t' r r' h' stops stops' same
    have kind := (Written.number numeral).kind_eq h' same
    cases h' with
    | number numeral' =>
      rw [numeral.skip_eq, numeral'.skip_eq] at same
      obtain ⟨rfl, rfl, rfl⟩ := numeral.unique numeral' stops stops' same
      exact ⟨rfl, rfl⟩
    | _ => cases kind
  | string quoted =>
    intro v' t' r r' h' stops stops' same
    have kind := (Written.string quoted).kind_eq h' same
    cases h' with
    | string quoted' =>
      rw [quoted.skip_eq, quoted'.skip_eq] at same
      obtain ⟨rfl, rfl⟩ := quoted.unique quoted' same
      exact ⟨rfl, rfl⟩
    | _ => cases kind
  | emptyArray opening closing =>
    intro v' t' r r' h' stops stops' same
    have kind := (Written.emptyArray opening closing).kind_eq h' same
    cases h' with
    | emptyArray opening' closing' =>
      rw [List.append_assoc, List.append_assoc] at same
      have same := opening.unique opening' (by decide) same
      exact ⟨rfl, closing.unique closing' (by decide) same⟩
    | array opening' first' more' closing' =>
      simp only [List.append_assoc] at same
      have same := opening.unique opening' (by decide) same
      exact absurd same.symm (first'.ne_closing closing (by decide))
    | _ => cases kind
  | array opening first more closing first_unique more_unique =>
    intro v' t' r r' h' stops stops' same
    have kind := (Written.array opening first more closing).kind_eq h' same
    cases h' with
    | emptyArray opening' closing' =>
      simp only [List.append_assoc] at same
      have same := opening.unique opening' (by decide) same
      exact absurd same (first.ne_closing closing' (by decide))
    | array opening' first' more' closing' =>
      simp only [List.append_assoc] at same
      have same := opening.unique opening' (by decide) same
      obtain ⟨rfl, same⟩ := first_unique first'
        (more.stops_items (closing.stops (by decide) _))
        (more'.stops_items (closing'.stops (by decide) _)) same
      obtain ⟨rfl, same⟩ := more_unique more' (closing.closed (by decide) _)
        (closing'.closed (by decide) _) same
      exact ⟨rfl, closing.unique closing' (by decide) same⟩
    | _ => cases kind
  | emptyObject opening closing =>
    intro v' t' r r' h' stops stops' same
    have kind := (Written.emptyObject opening closing).kind_eq h' same
    cases h' with
    | emptyObject opening' closing' =>
      rw [List.append_assoc, List.append_assoc] at same
      have same := opening.unique opening' (by decide) same
      exact ⟨rfl, closing.unique closing' (by decide) same⟩
    | object opening' first' more' closing' =>
      simp only [List.append_assoc] at same
      have same := opening.unique opening' (by decide) same
      exact absurd same.symm (first'.member_ne_closing closing (by decide))
    | _ => cases kind
  | object opening first more closing first_unique more_unique =>
    intro v' t' r r' h' stops stops' same
    have kind := (Written.object opening first more closing).kind_eq h' same
    cases h' with
    | emptyObject opening' closing' =>
      simp only [List.append_assoc] at same
      have same := opening.unique opening' (by decide) same
      exact absurd same (first.member_ne_closing closing' (by decide))
    | object opening' first' more' closing' =>
      simp only [List.append_assoc] at same
      have same := opening.unique opening' (by decide) same
      obtain ⟨rfl, rfl, same⟩ := first_unique first'
        (more.stops_members (closing.stops (by decide) _))
        (more'.stops_members (closing'.stops (by decide) _)) same
      obtain ⟨rfl, same⟩ := more_unique more' (closing.closed (by decide) _)
        (closing'.closed (by decide) _) same
      exact ⟨rfl, closing.unique closing' (by decide) same⟩
    | _ => cases kind
  | noItem =>
    intro vs' t' r r' h' closed closed' same
    cases h' with
    | noItem => exact ⟨rfl, same⟩
    | item comma' first' more' =>
      rw [List.append_assoc] at same
      exact absurd same (closed.ne_mark comma' (by decide) (by decide))
  | item comma first more first_unique more_unique =>
    intro vs' t' r r' h' closed closed' same
    cases h' with
    | noItem =>
      rw [List.append_assoc] at same
      exact absurd same.symm (closed'.ne_mark comma (by decide) (by decide))
    | item comma' first' more' =>
      simp only [List.append_assoc] at same
      have same := comma.unique comma' (by decide) same
      obtain ⟨rfl, same⟩ := first_unique first'
        (more.stops_items (closed.stops (by decide)))
        (more'.stops_items (closed'.stops (by decide))) same
      obtain ⟨rfl, same⟩ := more_unique more' closed closed' same
      exact ⟨rfl, same⟩
  | member quoted colon value value_unique =>
    intro name' v' t' r r' h' stops stops' same
    cases h' with
    | member quoted' colon' value' =>
      simp only [List.append_assoc] at same
      rw [quoted.skip_eq, quoted'.skip_eq] at same
      obtain ⟨rfl, same⟩ := quoted.unique quoted' same
      have same := colon.unique colon' (by decide) (congrArg skip same)
      obtain ⟨rfl, same⟩ := value_unique value' stops stops' same
      exact ⟨rfl, rfl, same⟩
  | noMember =>
    intro ms' t' r r' h' closed closed' same
    cases h' with
    | noMember => exact ⟨rfl, same⟩
    | nextMember comma' first' more' =>
      rw [List.append_assoc] at same
      exact absurd same (closed.ne_mark comma' (by decide) (by decide))
  | nextMember comma first more first_unique more_unique =>
    intro ms' t' r r' h' closed closed' same
    cases h' with
    | noMember =>
      rw [List.append_assoc] at same
      exact absurd same.symm (closed'.ne_mark comma (by decide) (by decide))
    | nextMember comma' first' more' =>
      simp only [List.append_assoc] at same
      have same := comma.unique comma' (by decide) same
      obtain ⟨rfl, rfl, same⟩ := first_unique first'
        (more.stops_members (closed.stops (by decide)))
        (more'.stops_members (closed'.stops (by decide))) same
      obtain ⟨rfl, same⟩ := more_unique more' closed closed' same
      exact ⟨rfl, same⟩

/-- A text stands for at most one value. -/
theorem Denotes.unique {text : String} {v v' : Value} (h : Denotes text v)
    (h' : Denotes text v') : v = v' := by
  have stops {ws : List Char} (blank : Blank ws) : Stops ws := by
    have nil : Stops [] := fun c head => nomatch head
    exact List.append_nil ws ▸ stops_of_blank blank nil
  obtain ⟨blank, written, after, eq⟩ := h
  obtain ⟨blank', written', after', eq'⟩ := h'
  have same := congrArg skip (eq.symm.trans eq')
  rw [skip_append blank, skip_append blank'] at same
  exact (written.unique written' (stops after) (stops after') same).1

end Ember.JsonText
