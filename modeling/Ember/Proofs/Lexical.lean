import Ember.Token.Scan

/-!
# The lexical grammar

`Lexeme next k l` says that the characters `l` are a piece of kind `k` when the character `next`
follows them: a blank or comment, a numeral, a word, a string literal or a mark. What may follow is
part of the rule, so that a piece is always as long as it can be.

Main statements: `lexeme_of_piece` and `piece_of_lexeme` (the scanner cuts off exactly these
pieces), and `Lexeme.unique` (at most one of them stands at the front of any characters).
-/

namespace Ember

namespace Lexical

/-! ## Characters -/

/-- The decimal digits. -/
def Digit (c : Char) : Prop := '0' ≤ c ∧ c ≤ '9'

/-- The letters of a word's first place. -/
def WordStart (c : Char) : Prop := ('A' ≤ c ∧ c ≤ 'Z') ∨ ('a' ≤ c ∧ c ≤ 'z') ∨ c = '_'

/-- The letters of a word's other places. -/
def WordPart (c : Char) : Prop := WordStart c ∨ Digit c

/-- The marks of one character. -/
def marks : List (Char × TokenKind) :=
  [('(', .leftParen), (')', .rightParen), ('\x7b', .leftBrace), ('\x7d', .rightBrace),
    ('[', .leftBracket), (']', .rightBracket), (',', .comma), ('.', .dot), (';', .semicolon),
    (':', .colon), ('+', .plus), ('-', .minus), ('*', .star), ('/', .slash), ('%', .percent),
    ('&', .ampersand), ('|', .pipe), ('^', .caret), ('~', .tilde), ('!', .bang), ('=', .equal),
    ('>', .greater), ('<', .less)]

/-- The marks of two characters. -/
def pairs : List ((Char × Char) × TokenKind) :=
  [(('!', '='), .bangEqual), (('=', '='), .equalEqual), (('>', '='), .greaterEqual),
    (('>', '>'), .greaterGreater), (('<', '='), .lessEqual), (('<', '<'), .lessLess)]

/-! ## Rules -/

/-- The inside of a string literal: any characters, with a backslash before each quote and before
each backslash. -/
inductive StringBody : List Char → Prop
  | nil : StringBody []
  | plain {c : Char} {cs : List Char} (quote : c ≠ '"') (backslash : c ≠ '\\')
      (more : StringBody cs) : StringBody (c :: cs)
  | escape {c : Char} {cs : List Char} (more : StringBody cs) : StringBody ('\\' :: c :: cs)

/-- The characters are a blank or a comment when `next` follows. -/
inductive Filler (next : Option Char) : List Char → Prop
  | blank {c : Char} (mem : c ∈ [' ', '\t', '\r', '\n']) : Filler next [c]
  | line {b : List Char} (inside : '\n' ∉ b) (bracket : b.head? ≠ some '[')
      (ends : next = none ∨ next = some '\n') : Filler next ('#' :: b)
  | block {b : List Char} (inside : ¬ [']', '#'] <:+: b) :
      Filler next ('#' :: '[' :: b ++ [']', '#'])

/-- The characters are a piece of the given kind when `next` follows. -/
inductive Lexeme (next : Option Char) : TokenKind → List Char → Prop
  | filler {l : List Char} (filler : Filler next l) : Lexeme next .insignificant l
  | integer {ds : List Char} (ne : ds ≠ []) (digits : ∀ c ∈ ds, Digit c)
      (ends : ∀ c ∈ next, ¬ Digit c ∧ c ≠ '.') : Lexeme next .integer ds
  | float {ds fs : List Char} (ne : ds ≠ []) (digits : ∀ c ∈ ds, Digit c) (ne' : fs ≠ [])
      (places : ∀ c ∈ fs, Digit c) (ends : ∀ c ∈ next, ¬ Digit c) :
      Lexeme next .float (ds ++ '.' :: fs)
  | keyword (k : Keyword) (ends : ∀ c ∈ next, ¬ WordPart c) :
      Lexeme next (.keyword k) k.word.toList
  | identifier {c : Char} {cs : List Char} (start : WordStart c) (parts : ∀ d ∈ cs, WordPart d)
      (ends : ∀ d ∈ next, ¬ WordPart d) (free : ∀ k : Keyword, k.word.toList ≠ c :: cs) :
      Lexeme next .identifier (c :: cs)
  | string {b : List Char} (body : StringBody b) : Lexeme next .string ('"' :: b ++ ['"'])
  | mark {c : Char} {k : TokenKind} (mem : (c, k) ∈ marks)
      (ends : ∀ d ∈ next, (c, d) ∉ pairs.map Prod.fst) : Lexeme next k [c]
  | pair {c d : Char} {k : TokenKind} (mem : ((c, d), k) ∈ pairs) : Lexeme next k [c, d]

/-! ## The scanner's classes -/

theorem isDigit_iff {c : Char} : c.isDigit = true ↔ Digit c := by
  simp [Char.isDigit, Digit, Char.le_def]

theorem isWordStart_iff {c : Char} : Token.isWordStart c = true ↔ WordStart c := by
  show (decide (c.val ≥ 'A'.val ∧ c.val ≤ 'Z'.val) ||
    (decide (c.val ≥ 'a'.val) && decide (c.val ≤ 'z'.val)) || decide (c = '_')) = true ↔ _
  simp only [Bool.or_eq_true, Bool.and_eq_true, decide_eq_true_eq, or_assoc]
  rfl

instance : DecidablePred Digit := fun _ => decidable_of_iff _ isDigit_iff

instance : DecidablePred WordStart := fun _ => decidable_of_iff _ isWordStart_iff

theorem isWordChar_iff {c : Char} : Token.isWordChar c = true ↔ WordPart c := by
  rw [WordPart, ← isWordStart_iff, ← isDigit_iff]
  simp only [Token.isWordChar, Token.isWordStart, Char.isAlphanum, Bool.or_eq_true]
  exact or_right_comm

theorem isBlank_iff {c : Char} : Token.isBlank c = true ↔ c ∈ [' ', '\t', '\r', '\n'] := by
  simp [Token.isBlank, or_assoc]

/-! ## Runs of characters -/

section Runs

variable {P : Char → Prop} {p : Char → Bool} (spec : ∀ {c}, p c = true ↔ P c)

include spec

/-- A run of characters of a class is taken whole if no character of the class follows it. -/
theorem takeWhile_of_run {l rest : List Char} (run : ∀ c ∈ l, P c)
    (ends : ∀ c ∈ rest.head?, ¬ P c) : (l ++ rest).takeWhile p = l := by
  rw [List.takeWhile_append_of_pos fun c mem => spec.2 (run c mem)]
  cases rest with
  | nil => exact List.append_nil l
  | cons c rest =>
    rw [List.takeWhile_cons_of_neg fun h => ends c rfl (spec.1 h), List.append_nil]

theorem dropWhile_of_run {l rest : List Char} (run : ∀ c ∈ l, P c)
    (ends : ∀ c ∈ rest.head?, ¬ P c) : (l ++ rest).dropWhile p = rest := by
  rw [List.dropWhile_append_of_pos fun c mem => spec.2 (run c mem)]
  cases rest with
  | nil => rfl
  | cons c rest => rw [List.dropWhile_cons_of_neg fun h => ends c rfl (spec.1 h)]

theorem of_mem_takeWhile {cs : List Char} : ∀ c ∈ cs.takeWhile p, P c :=
  fun c mem => spec.1 (List.all_eq_true.1 List.all_takeWhile c mem)

theorem not_of_head_dropWhile {cs : List Char} : ∀ c ∈ (cs.dropWhile p).head?, ¬ P c := by
  intro c head
  have stop := List.head?_dropWhile_not p cs
  rw [Option.mem_def.1 head] at stop
  rw [← spec, Bool.not_eq_true]
  exact stop

end Runs

/-- A decidable property of all members of a list is decided along the list. -/
theorem forall_mem_of_all {α : Type} {P : α → Prop} [DecidablePred P] {as : List α}
    (h : (as.all fun a => decide (P a)) = true) : ∀ a ∈ as, P a :=
  fun a mem => of_decide_eq_true (List.all_eq_true.1 h a mem)

/-- Two equal lists that start with a run of the same class have equal runs and equal rests. -/
theorem run_append_inj {α : Type} {P : α → Prop} {run run' rest rest' : List α}
    (same : run ++ rest = run' ++ rest') (inside : ∀ a ∈ run, P a) (inside' : ∀ a ∈ run', P a)
    (ends : ∀ a ∈ rest.head?, ¬ P a) (ends' : ∀ a ∈ rest'.head?, ¬ P a) :
    run = run' ∧ rest = rest' := by
  induction run generalizing run' with
  | nil =>
    cases run' with
    | nil => exact ⟨rfl, same⟩
    | cons b run' =>
      have eq : rest = b :: (run' ++ rest') := same
      exact absurd (inside' b List.mem_cons_self) (ends b (by rw [eq]; rfl))
  | cons a run ih =>
    cases run' with
    | nil =>
      have eq : a :: (run ++ rest) = rest' := same
      exact absurd (inside a List.mem_cons_self) (ends' a (by rw [← eq]; rfl))
    | cons b run' =>
      obtain ⟨rfl, tails⟩ := List.cons.inj same
      obtain ⟨rfl, eq⟩ :=
        ih tails (List.forall_mem_cons.1 inside).2 (List.forall_mem_cons.1 inside').2
      exact ⟨rfl, eq⟩

theorem forall_mem_head_cons {α : Type} {P : α → Prop} {a : α} (h : P a) (as : List α) :
    ∀ b ∈ (a :: as).head?, P b := by
  intro b head
  cases head
  exact h

/-- Two equal lists are cut the same way at the first place of a separator. -/
theorem cut_inj {α : Type} {a : α} {run run' rest rest' : List α}
    (same : run ++ a :: rest = run' ++ a :: rest') (free : a ∉ run) (free' : a ∉ run') :
    run = run' ∧ rest = rest' := by
  have ends (rest : List α) : ∀ b ∈ (a :: rest).head?, ¬ b ≠ a :=
    forall_mem_head_cons (fun ne => ne rfl) rest
  obtain ⟨eq, tails⟩ := run_append_inj (P := (· ≠ a)) same
    (fun b mem => ne_of_mem_of_not_mem mem free) (fun b mem => ne_of_mem_of_not_mem mem free')
    (ends rest) (ends rest')
  exact ⟨eq, (List.cons.inj tails).2⟩

/-! ## String literals -/

theorem closeString?_of_body {b : List Char} (h : StringBody b) (rest : List Char) :
    Token.closeString? (b ++ '"' :: rest) = some (b ++ ['"'], rest) := by
  induction h with
  | nil => rfl
  | @plain c cs quote backslash _ ih =>
    rw [List.cons_append, Token.closeString?.eq_4 _ _ quote fun _ _ e _ => backslash e, ih]
    rfl
  | @escape c cs _ ih =>
    rw [List.cons_append, List.cons_append, Token.closeString?, ih]
    rfl

theorem body_of_closeString? {cs l r : List Char} (h : Token.closeString? cs = some (l, r)) :
    ∃ b, StringBody b ∧ l = b ++ ['"'] := by
  fun_induction Token.closeString? cs generalizing l r with
  | case1 => cases h
  | case2 cs => cases h; exact ⟨[], .nil, rfl⟩
  | case3 c cs ih =>
    obtain ⟨⟨l', r'⟩, h', e⟩ := Option.map_eq_some_iff.1 h
    cases e
    obtain ⟨b, body, rfl⟩ := ih h'
    exact ⟨_, .escape body, rfl⟩
  | case4 c cs quote escape ih =>
    obtain ⟨⟨l', r'⟩, h', e⟩ := Option.map_eq_some_iff.1 h
    cases e
    obtain ⟨b, body, rfl⟩ := ih h'
    have backslash : c ≠ '\\' := by
      -- a backslash at the very end of the input would leave the literal open
      rintro rfl
      cases cs with
      | nil => cases h'
      | cons d ds => exact escape d ds rfl rfl
    exact ⟨_, .plain quote backslash body, rfl⟩

theorem lexeme_of_stringPiece {cs : List Char} {p : Token.Piece}
    (h : Token.stringPiece cs = .ok p) : Lexeme p.rest.head? p.kind p.lexeme := by
  unfold Token.stringPiece at h
  split at h
  · next l r closes =>
    cases h
    obtain ⟨b, body, rfl⟩ := body_of_closeString? closes
    exact .string body
  · cases h

/-! ## Comments -/

theorem closeComment?_of_body {b : List Char} (h : ¬ [']', '#'] <:+: b) (rest : List Char) :
    Token.closeComment? (b ++ ']' :: '#' :: rest) = some (b ++ [']', '#'], rest) := by
  induction b with
  | nil => rfl
  | cons c b ih =>
    have tail := ih fun inside => h (List.infix_cons_iff.2 (.inr inside))
    have open' : ∀ cs, c = ']' → b ++ ']' :: '#' :: rest = '#' :: cs → False := by
      rintro cs rfl next
      cases b with
      | nil => cases next
      | cons d b =>
        obtain ⟨rfl, _⟩ := List.cons.inj next
        exact h ⟨[], b, rfl⟩
    rw [List.cons_append, Token.closeComment?.eq_3 _ _ open', tail]
    rfl

theorem body_of_closeComment? {cs l r : List Char} (h : Token.closeComment? cs = some (l, r)) :
    ∃ b, ¬ [']', '#'] <:+: b ∧ l = b ++ [']', '#'] := by
  fun_induction Token.closeComment? cs generalizing l r with
  | case1 => cases h
  | case2 cs =>
    cases h
    exact ⟨[], by decide, rfl⟩
  | case3 c cs open' ih =>
    obtain ⟨⟨l', r'⟩, h', e⟩ := Option.map_eq_some_iff.1 h
    cases e
    obtain ⟨b, inside, rfl⟩ := ih h'
    refine ⟨c :: b, ?_, rfl⟩
    rw [List.infix_cons_iff, not_or]
    refine ⟨?_, inside⟩
    rintro ⟨b', closes⟩
    obtain ⟨rfl, rfl⟩ := List.cons.inj closes
    exact open' _ rfl (Token.closeComment?_append h').symm

theorem commentPiece_of_line {b rest : List Char} (inside : '\n' ∉ b)
    (bracket : b.head? ≠ some '[') (ends : rest.head? = none ∨ rest.head? = some '\n') :
    Token.commentPiece (b ++ rest) = .ok ⟨.insignificant, '#' :: b, rest⟩ := by
  have first : ∀ cs, b ++ rest = '[' :: cs → False := by
    intro cs e
    cases b with
    | nil =>
      rw [List.nil_append] at e
      rw [e] at ends
      simp at ends
    | cons c b =>
      obtain ⟨rfl, _⟩ := List.cons.inj e
      exact bracket rfl
  have run : ∀ c ∈ b, c ≠ '\n' := by
    rintro c mem rfl
    exact inside mem
  have stop : ∀ c ∈ rest.head?, ¬ c ≠ '\n' := by
    intro c mem
    rcases ends with none | some
    · rw [none] at mem
      cases mem
    · rw [some] at mem
      cases mem
      decide
  rw [Token.commentPiece.eq_2 _ first, takeWhile_of_run decide_eq_true_iff run stop,
    dropWhile_of_run decide_eq_true_iff run stop]

theorem lexeme_of_commentPiece {cs : List Char} {p : Token.Piece}
    (h : Token.commentPiece cs = .ok p) : Lexeme p.rest.head? p.kind p.lexeme := by
  unfold Token.commentPiece at h
  split at h
  · split at h
    · next l r closes =>
      cases h
      obtain ⟨b, inside, rfl⟩ := body_of_closeComment? closes
      exact .filler (.block inside)
    · cases h
  · next bracket =>
    cases h
    refine .filler (.line ?_ ?_ ?_)
    · intro mem
      exact of_mem_takeWhile decide_eq_true_iff _ mem rfl
    · intro first
      obtain ⟨b, e⟩ := List.head?_eq_some_iff.1 first
      have whole := cs.takeWhile_append_dropWhile (p := (· ≠ '\n'))
      rw [e] at whole
      exact bracket _ whole.symm
    · cases stop : (cs.dropWhile (· ≠ '\n')).head? with
      | none => exact .inl rfl
      | some c =>
        have newline := not_of_head_dropWhile decide_eq_true_iff c stop
        rw [Classical.not_not] at newline
        exact .inr (by rw [newline])

/-! ## Marks -/

theorem of_ite_eq_some {α : Type} {p : Prop} [Decidable p] {a b : α} {o : Option α}
    (h : (if p then some a else o) = some b) : (p ∧ a = b) ∨ o = some b := by
  split at h
  · next hp => exact .inl ⟨hp, Option.some.inj h⟩
  · exact .inr h

theorem single?_eq_some_iff {c : Char} {k : TokenKind} :
    Token.single? c = some k ↔ (c, k) ∈ marks := by
  constructor
  · intro h
    unfold Token.single? at h
    repeat
      rcases of_ite_eq_some h with ⟨rfl, rfl⟩ | h
      · decide
    cases h
  · intro h
    have table : ∀ m ∈ marks, Token.single? m.1 = some m.2 := by decide
    exact table _ h

theorem pair?_eq_some_iff {c d : Char} {k : TokenKind} :
    Token.pair? c d = some k ↔ ((c, d), k) ∈ pairs := by
  constructor
  · intro h
    unfold Token.pair? at h
    repeat
      rcases of_ite_eq_some h with ⟨⟨rfl, rfl⟩, rfl⟩ | h
      · decide
    cases h
  · intro h
    have table : ∀ p ∈ pairs, Token.pair? p.1.1 p.1.2 = some p.2 := by decide
    exact table _ h

theorem pair?_eq_none_iff {c d : Char} :
    Token.pair? c d = none ↔ (c, d) ∉ pairs.map Prod.fst := by
  simp only [Option.eq_none_iff_forall_ne_some, ne_eq, pair?_eq_some_iff, List.mem_map]
  constructor
  · rintro h ⟨⟨_, k⟩, mem, rfl⟩
    exact h k mem
  · intro h k mem
    exact h ⟨((c, d), k), mem, rfl⟩

theorem markPiece?_of_mark {c : Char} {k : TokenKind} {rest : List Char} (mem : (c, k) ∈ marks)
    (ends : ∀ d ∈ rest.head?, (c, d) ∉ pairs.map Prod.fst) :
    Token.markPiece? c rest = some ⟨k, [c], rest⟩ := by
  have single := single?_eq_some_iff.2 mem
  cases rest with
  | nil => rw [Token.markPiece?, single, Option.map_some]
  | cons d rest =>
    rw [Token.markPiece?, pair?_eq_none_iff.2 (ends d rfl), single, Option.map_some]

theorem markPiece?_of_pair {c d : Char} {k : TokenKind} (mem : ((c, d), k) ∈ pairs)
    (rest : List Char) : Token.markPiece? c (d :: rest) = some ⟨k, [c, d], rest⟩ := by
  rw [Token.markPiece?, pair?_eq_some_iff.2 mem]

theorem lexeme_of_markPiece? {c : Char} {cs : List Char} {p : Token.Piece}
    (h : Token.markPiece? c cs = some p) : Lexeme p.rest.head? p.kind p.lexeme := by
  unfold Token.markPiece? at h
  split at h
  · obtain ⟨k, single, rfl⟩ := Option.map_eq_some_iff.1 h
    exact .mark (single?_eq_some_iff.1 single) (by rintro _ ⟨⟩)
  · next d cs =>
    split at h
    · next k pair =>
      cases h
      exact .pair (pair?_eq_some_iff.1 pair)
    · next none =>
      obtain ⟨k, single, rfl⟩ := Option.map_eq_some_iff.1 h
      refine .mark (single?_eq_some_iff.1 single) ?_
      rintro _ ⟨⟩
      exact pair?_eq_none_iff.1 none

/-! ## Words -/

theorem ofWord?_eq_some_iff {w : String} {k : Keyword} :
    Keyword.ofWord? w = some k ↔ k.word = w := by
  constructor
  · intro h
    simpa using List.find?_some h
  · rintro rfl
    cases k <;> decide

theorem ofWord_eq_keyword {w : String} {k : Keyword} (h : k.word = w) :
    TokenKind.ofWord w = .keyword k := by
  rw [TokenKind.ofWord, ofWord?_eq_some_iff.2 h]

theorem ofWord_eq_identifier {w : String} (h : ∀ k : Keyword, k.word ≠ w) :
    TokenKind.ofWord w = .identifier := by
  have none : Keyword.ofWord? w = none := by
    rw [Option.eq_none_iff_forall_ne_some]
    exact fun k some => h k (ofWord?_eq_some_iff.1 some)
  rw [TokenKind.ofWord, none]

theorem keyword_letters (k : Keyword) :
    k.word.toList ≠ [] ∧ ∀ c ∈ k.word.toList, WordStart c := by
  have letters : k.word.toList ≠ [] ∧ k.word.toList.all Token.isWordStart = true := by
    cases k <;> decide
  exact ⟨letters.1, fun c mem => isWordStart_iff.1 (List.all_eq_true.1 letters.2 c mem)⟩

theorem wordPiece_of_run {c : Char} {cs rest : List Char} (parts : ∀ d ∈ cs, WordPart d)
    (ends : ∀ d ∈ rest.head?, ¬ WordPart d) : Token.wordPiece c (cs ++ rest) =
      ⟨.ofWord (String.ofList (c :: cs)), c :: cs, rest⟩ := by
  rw [Token.wordPiece, takeWhile_of_run isWordChar_iff parts ends,
    dropWhile_of_run isWordChar_iff parts ends]

theorem lexeme_of_wordPiece {c : Char} (cs : List Char) (start : WordStart c) :
    Lexeme (Token.wordPiece c cs).rest.head? (Token.wordPiece c cs).kind
      (Token.wordPiece c cs).lexeme := by
  have parts : ∀ d ∈ cs.takeWhile Token.isWordChar, WordPart d := of_mem_takeWhile isWordChar_iff
  have ends : ∀ d ∈ (cs.dropWhile Token.isWordChar).head?, ¬ WordPart d :=
    not_of_head_dropWhile isWordChar_iff
  rw [Token.wordPiece]
  by_cases free : ∀ k : Keyword, k.word.toList ≠ c :: cs.takeWhile Token.isWordChar
  · dsimp only
    rw [ofWord_eq_identifier fun k e => free k (by rw [e, String.toList_ofList])]
    exact .identifier start parts ends free
  · obtain ⟨k, word⟩ := Classical.not_forall.1 free
    rw [Classical.not_not] at word
    dsimp only
    rw [ofWord_eq_keyword (k := k) (by rw [← word, String.ofList_toList]), ← word]
    exact .keyword k ends

/-! ## Numerals -/

theorem numberPiece_of_integer {c : Char} {ds rest : List Char} (digits : ∀ d ∈ ds, Digit d)
    (ends : ∀ d ∈ rest.head?, ¬ Digit d ∧ d ≠ '.') :
    Token.numberPiece c (ds ++ rest) = .ok ⟨.integer, c :: ds, rest⟩ := by
  have stop : ∀ d ∈ rest.head?, ¬ Digit d := fun d mem => (ends d mem).1
  rw [Token.numberPiece, takeWhile_of_run isDigit_iff digits stop,
    dropWhile_of_run isDigit_iff digits stop]
  split
  · exact absurd rfl (ends '.' rfl).2
  · rfl

theorem numberPiece_of_float {c : Char} {ds fs rest : List Char} (digits : ∀ d ∈ ds, Digit d)
    (ne : fs ≠ []) (places : ∀ d ∈ fs, Digit d) (ends : ∀ d ∈ rest.head?, ¬ Digit d) :
    Token.numberPiece c (ds ++ '.' :: (fs ++ rest)) =
      .ok ⟨.float, c :: ds ++ '.' :: fs, rest⟩ := by
  have point : ∀ d ∈ ('.' :: (fs ++ rest)).head?, ¬ Digit d := by
    rintro _ ⟨⟩
    decide
  have first : (fs ++ rest).head?.any Char.isDigit = true := by
    cases fs with
    | nil => exact absurd rfl ne
    | cons f fs => exact isDigit_iff.2 (places f (List.mem_cons_self ..))
  rw [Token.numberPiece, takeWhile_of_run isDigit_iff digits point,
    dropWhile_of_run isDigit_iff digits point]
  refine (if_pos first).trans ?_
  rw [takeWhile_of_run isDigit_iff places ends, dropWhile_of_run isDigit_iff places ends]

theorem lexeme_of_numberPiece {c : Char} {cs : List Char} {p : Token.Piece} (digit : Digit c)
    (h : Token.numberPiece c cs = .ok p) : Lexeme p.rest.head? p.kind p.lexeme := by
  have run : ∀ d ∈ cs.takeWhile Char.isDigit, Digit d := of_mem_takeWhile isDigit_iff
  have digits := List.forall_mem_cons.2 ⟨digit, run⟩
  have stop : ∀ d ∈ (cs.dropWhile Char.isDigit).head?, ¬ Digit d :=
    not_of_head_dropWhile isDigit_iff
  unfold Token.numberPiece at h
  dsimp only at h
  split at h
  · next ds _ =>
    split at h
    · next first =>
      cases h
      have ne : ds.takeWhile Char.isDigit ≠ [] := by
        cases ds with
        | nil => cases first
        | cons d ds =>
          have digit : d.isDigit = true := first
          rw [List.takeWhile_cons_of_pos digit]
          exact List.cons_ne_nil _ _
      exact .float (List.cons_ne_nil _ _) digits ne (of_mem_takeWhile isDigit_iff)
        (not_of_head_dropWhile isDigit_iff)
    · cases h
  · next point =>
    cases h
    refine .integer (List.cons_ne_nil _ _) digits fun d mem => ⟨stop d mem, ?_⟩
    rintro rfl
    obtain ⟨ds, e⟩ := List.head?_eq_some_iff.1 mem
    exact point ds e

/-! ## Pieces -/

/-- A blank, a quote or the sign of a comment starts no numeral, word or mark. -/
theorem special_starts_nothing {c : Char} (h : c ∈ [' ', '\t', '\r', '\n', '"', '#']) :
    ¬ Digit c ∧ ¬ WordStart c ∧ c ∉ marks.map Prod.fst := by
  simp only [List.mem_cons, List.not_mem_nil, or_false] at h
  rcases h with rfl | rfl | rfl | rfl | rfl | rfl <;> decide

theorem WordStart.not_digit {c : Char} (h : WordStart c) : ¬ Digit c := by
  simp only [WordStart, Digit, Char.le_def, UInt32.le_iff_toNat_le] at h ⊢
  rcases h with ⟨low, _⟩ | ⟨low, _⟩ | rfl
  · have : 'A'.val.toNat = 65 := rfl
    have : '9'.val.toNat = 57 := rfl
    omega
  · have : 'a'.val.toNat = 97 := rfl
    have : '9'.val.toNat = 57 := rfl
    omega
  · decide

theorem mark_starts_no_word : ∀ m ∈ marks, ¬ Digit m.1 ∧ ¬ WordStart m.1 := by decide

/-- A character that is not special starts a numeral, a word, a mark or nothing. -/
theorem piece_of_not_special {c : Char} (h : c ∉ [' ', '\t', '\r', '\n', '"', '#'])
    (cs : List Char) : Token.piece c cs =
      if c.isDigit then Token.numberPiece c cs
      else if Token.isWordStart c then .ok (Token.wordPiece c cs)
      else
        match Token.markPiece? c cs with
        | some p => .ok p
        | none => .error (.unknownToken (String.ofList [c])) := by
  have blank : ¬ Token.isBlank c = true := by
    rw [isBlank_iff]
    exact fun mem => h (List.mem_append_left ['"', '#'] mem)
  have quote : c ≠ '"' := by
    rintro rfl
    exact h (by decide)
  have hash : c ≠ '#' := by
    rintro rfl
    exact h (by decide)
  rw [Token.piece, if_neg blank, if_neg quote]
  exact if_neg hash

theorem piece_quote (cs : List Char) : Token.piece '"' cs = Token.stringPiece cs := rfl

theorem piece_hash (cs : List Char) : Token.piece '#' cs = Token.commentPiece cs := rfl

theorem piece_digit {c : Char} (digit : Digit c) (cs : List Char) :
    Token.piece c cs = Token.numberPiece c cs := by
  rw [piece_of_not_special (fun mem => (special_starts_nothing mem).1 digit),
    if_pos (isDigit_iff.2 digit)]

theorem piece_word {c : Char} (start : WordStart c) (cs : List Char) :
    Token.piece c cs = .ok (Token.wordPiece c cs) := by
  rw [piece_of_not_special (fun mem => (special_starts_nothing mem).2.1 start),
    if_neg (fun digit => start.not_digit (isDigit_iff.1 digit)), if_pos (isWordStart_iff.2 start)]

theorem piece_mark {c : Char} (mem : c ∈ marks.map Prod.fst) {cs : List Char} {p : Token.Piece}
    (h : Token.markPiece? c cs = some p) : Token.piece c cs = .ok p := by
  obtain ⟨m, mem', rfl⟩ := List.mem_map.1 mem
  obtain ⟨digit, start⟩ := mark_starts_no_word m mem'
  rw [piece_of_not_special (fun special => (special_starts_nothing special).2.2 mem),
    if_neg (fun h => digit (isDigit_iff.1 h)), if_neg (fun h => start (isWordStart_iff.1 h)), h]

/-- What the scanner cuts off the front of its input is a piece of the grammar. -/
theorem lexeme_of_piece {c : Char} {cs : List Char} {p : Token.Piece}
    (h : Token.piece c cs = .ok p) : Lexeme p.rest.head? p.kind p.lexeme := by
  unfold Token.piece at h
  split at h
  · next blank =>
    cases h
    exact .filler (.blank (isBlank_iff.1 blank))
  split at h
  · exact lexeme_of_stringPiece h
  split at h
  · exact lexeme_of_commentPiece h
  split at h
  · next digit => exact lexeme_of_numberPiece (isDigit_iff.1 digit) h
  split at h
  · next start =>
    cases h
    exact lexeme_of_wordPiece cs (isWordStart_iff.1 start)
  split at h
  · next mark =>
    cases h
    exact lexeme_of_markPiece? mark
  · cases h

/-- The scanner cuts off every piece of the grammar that stands at the front of its input. -/
theorem piece_of_lexeme {rest l : List Char} {k : TokenKind} (h : Lexeme rest.head? k l) :
    ∃ c cs, l ++ rest = c :: cs ∧ Token.piece c cs = .ok ⟨k, l, rest⟩ := by
  cases h with
  | filler filler =>
    cases filler with
    | @blank c mem => exact ⟨c, rest, rfl, if_pos (isBlank_iff.2 mem)⟩
    | @line b inside bracket ends =>
      exact ⟨'#', b ++ rest, rfl, commentPiece_of_line inside bracket ends⟩
    | @block b inside =>
      refine ⟨'#', '[' :: (b ++ ']' :: '#' :: rest), by simp, ?_⟩
      rw [piece_hash, Token.commentPiece, closeComment?_of_body inside]
      rfl
  | integer ne digits ends =>
    cases l with
    | nil => exact absurd rfl ne
    | cons c ds =>
      rw [List.forall_mem_cons] at digits
      exact ⟨c, ds ++ rest, rfl,
        (piece_digit digits.1 _).trans (numberPiece_of_integer digits.2 ends)⟩
  | @float ds fs ne digits ne' places ends =>
    cases ds with
    | nil => exact absurd rfl ne
    | cons c ds =>
      rw [List.forall_mem_cons] at digits
      exact ⟨c, ds ++ '.' :: (fs ++ rest), by simp,
        (piece_digit digits.1 _).trans (numberPiece_of_float digits.2 ne' places ends)⟩
  | keyword k ends =>
    obtain ⟨ne, letters⟩ := keyword_letters k
    cases word : k.word.toList with
    | nil => exact absurd word ne
    | cons c cs =>
      rw [word, List.forall_mem_cons] at letters
      refine ⟨c, cs ++ rest, rfl, (piece_word letters.1 _).trans ?_⟩
      rw [wordPiece_of_run (fun d mem => .inl (letters.2 d mem)) ends, ofWord_eq_keyword]
      rw [← word, String.ofList_toList]
  | @identifier c cs start parts ends free =>
    refine ⟨c, cs ++ rest, rfl, (piece_word start _).trans ?_⟩
    rw [wordPiece_of_run parts ends, ofWord_eq_identifier]
    intro k e
    exact free k (by rw [e, String.toList_ofList])
  | @string b body =>
    refine ⟨'"', b ++ '"' :: rest, by simp, ?_⟩
    rw [piece_quote, Token.stringPiece, closeString?_of_body body]
    rfl
  | @mark c k mem ends =>
    exact ⟨c, rest, rfl, piece_mark (List.mem_map_of_mem mem) (markPiece?_of_mark mem ends)⟩
  | @pair c d k mem =>
    have first : ∀ p ∈ pairs, p.1.1 ∈ marks.map Prod.fst := by decide
    exact ⟨c, d :: rest, rfl, piece_mark (first _ mem) (markPiece?_of_pair mem rest)⟩

/-- At most one piece stands at the front of any characters. -/
theorem Lexeme.unique {l l' rest rest' : List Char} {k k' : TokenKind} (h : Lexeme rest.head? k l)
    (h' : Lexeme rest'.head? k' l') (same : l ++ rest = l' ++ rest') :
    k = k' ∧ l = l' ∧ rest = rest' := by
  obtain ⟨c, cs, e, piece⟩ := piece_of_lexeme h
  obtain ⟨c', cs', e', piece'⟩ := piece_of_lexeme h'
  rw [e, e'] at same
  obtain ⟨rfl, rfl⟩ := List.cons.inj same
  rw [piece, Except.ok.injEq, Token.Piece.mk.injEq] at piece'
  exact piece'

theorem Lexeme.ne_nil {next : Option Char} {k : TokenKind} {l : List Char} (h : Lexeme next k l) :
    l ≠ [] := by
  cases h with
  | filler filler => cases filler <;> exact List.cons_ne_nil _ _
  | integer ne _ _ => exact ne
  | float ne _ _ _ _ => exact List.append_ne_nil_of_left_ne_nil ne _
  | keyword k _ => exact (keyword_letters k).1
  | identifier => exact List.cons_ne_nil _ _
  | string => exact List.cons_ne_nil _ _
  | mark => exact List.cons_ne_nil _ _
  | pair => exact List.cons_ne_nil _ _

/-- No mark has the kind of a blank or the kind of no token. -/
theorem mark_kinds : ∀ k ∈ marks.map Prod.snd ++ pairs.map Prod.snd,
    k ≠ .insignificant ∧ k ≠ .unknown := by decide

/-- No mark has the kind of a literal. -/
theorem mark_no_literal : ∀ k ∈ marks.map Prod.snd ++ pairs.map Prod.snd,
    k ∉ [TokenKind.integer, .float, .string] := by decide

theorem Lexeme.kind_ne_unknown {next : Option Char} {k : TokenKind} {l : List Char}
    (h : Lexeme next k l) : k ≠ .unknown := by
  cases h with
  | mark mem _ => exact (mark_kinds k (List.mem_append_left _ (List.mem_map_of_mem mem))).2
  | pair mem => exact (mark_kinds k (List.mem_append_right _ (List.mem_map_of_mem mem))).2
  | _ => exact TokenKind.noConfusion

theorem Lexeme.filler_of_insignificant {next : Option Char} {l : List Char}
    (h : Lexeme next .insignificant l) : Filler next l := by
  cases h with
  | filler filler => exact filler
  | mark mem _ =>
    exact absurd rfl (mark_kinds _ (List.mem_append_left _ (List.mem_map_of_mem mem))).1
  | pair mem =>
    exact absurd rfl (mark_kinds _ (List.mem_append_right _ (List.mem_map_of_mem mem))).1

end Lexical

end Ember
