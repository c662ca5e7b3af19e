import Ember.Proofs.Tiling

/-!
# Sources that cannot be cut

A source has a lexical error exactly if some of its characters are cut into pieces and at the first
character after them stands a fault: a string literal or a block comment without an end, digits and
a point without a digit after it, or a character that no piece starts with. The error is that fault,
at the place that the pieces reach.

1. `piece_error_iff`: the scanner cuts no piece off its input exactly if the input is faulty.
2. `scan_error_iff`: the scanner stops at the first fault after whole pieces.
-/

namespace Ember

namespace Lexical

/-! ## Faults -/

/-- No piece can be cut off the front of the characters, for the given reason. -/
inductive Faulty : List Char → LexFault → Prop
  | string {cs : List Char} (unclosed : ∀ b rest, StringBody b → cs ≠ b ++ '"' :: rest) :
      Faulty ('"' :: cs) .unterminatedString
  | comment {cs : List Char} (unclosed : ¬ [']', '#'] <:+: cs) :
      Faulty ('#' :: '[' :: cs) .unterminatedComment
  | float {ds cs : List Char} (ne : ds ≠ []) (digits : ∀ c ∈ ds, Digit c)
      (ends : ∀ c ∈ cs.head?, ¬ Digit c) :
      Faulty (ds ++ '.' :: cs) (.invalidFloat (String.ofList (ds ++ ['.'])))
  | unknown {c : Char} {cs : List Char} (starts : ∀ next k l, ¬ Lexeme next k (c :: l)) :
      Faulty (c :: cs) (.unknownToken (String.ofList [c]))

/-- In front of `rest`, the characters are pieces one after the other. -/
inductive CutBefore (rest : List Char) : List Char → Prop
  | nil : CutBefore rest []
  | cons {k : TokenKind} {l cs : List Char} (lexeme : Lexeme (cs ++ rest).head? k l)
      (more : CutBefore rest cs) : CutBefore rest (l ++ cs)

/-! ## The scanner's reasons -/

theorem closeString?_eq_none_iff {cs : List Char} :
    Token.closeString? cs = none ↔ ∀ b rest, StringBody b → cs ≠ b ++ '"' :: rest := by
  constructor
  · rintro none b rest body rfl
    rw [closeString?_of_body body] at none
    cases none
  · intro unclosed
    rw [Option.eq_none_iff_forall_ne_some]
    rintro ⟨l, r⟩ closes
    obtain ⟨b, body, rfl⟩ := body_of_closeString? closes
    have whole := Token.closeString?_append closes
    rw [List.append_assoc, List.singleton_append] at whole
    exact unclosed b r body whole.symm

theorem closeComment?_of_infix {cs : List Char} (h : [']', '#'] <:+: cs) :
    Token.closeComment? cs ≠ none := by
  fun_induction Token.closeComment? cs with
  | case1 => exact absurd h (by decide)
  | case2 cs => exact Option.some_ne_none _
  | case3 c cs open' ih =>
    rw [ne_eq, Option.map_eq_none_iff]
    rcases List.infix_cons_iff.1 h with ⟨rest, here⟩ | later
    · obtain ⟨rfl, rfl⟩ := List.cons.inj here
      exact absurd rfl (open' rest rfl)
    · exact ih later

theorem closeComment?_eq_none_iff {cs : List Char} :
    Token.closeComment? cs = none ↔ ¬ [']', '#'] <:+: cs := by
  constructor
  · exact fun none inside => closeComment?_of_infix inside none
  · intro unclosed
    rw [Option.eq_none_iff_forall_ne_some]
    rintro ⟨l, r⟩ closes
    obtain ⟨b, _, rfl⟩ := body_of_closeComment? closes
    exact unclosed ⟨b, r, Token.closeComment?_append closes⟩

theorem numberPiece_of_point {c : Char} {ds cs : List Char} (digits : ∀ d ∈ ds, Digit d)
    (ends : ∀ d ∈ cs.head?, ¬ Digit d) : Token.numberPiece c (ds ++ '.' :: cs) =
      .error (.invalidFloat (String.ofList (c :: ds ++ ['.']))) := by
  have point : ∀ d ∈ ('.' :: cs).head?, ¬ Digit d := by
    rintro _ ⟨⟩
    decide
  have none : ¬ cs.head?.any Char.isDigit = true := by
    rw [Option.any_eq_true]
    rintro ⟨d, head, digit⟩
    exact ends d head (isDigit_iff.1 digit)
  rw [Token.numberPiece, takeWhile_of_run isDigit_iff digits point,
    dropWhile_of_run isDigit_iff digits point]
  exact if_neg none

theorem faulty_of_numberPiece {c : Char} {cs : List Char} {f : LexFault} (digit : Digit c)
    (h : Token.numberPiece c cs = .error f) : Faulty (c :: cs) f := by
  have run : ∀ d ∈ cs.takeWhile Char.isDigit, Digit d := of_mem_takeWhile isDigit_iff
  have whole := cs.takeWhile_append_dropWhile (p := Char.isDigit)
  unfold Token.numberPiece at h
  dsimp only at h
  split at h
  · next ds point =>
    split at h
    · cases h
    · next first =>
      cases h
      rw [point] at whole
      rw [Option.any_eq_true, not_exists] at first
      have ends : ∀ d ∈ ds.head?, ¬ Digit d :=
        fun d head digit => first d ⟨head, isDigit_iff.2 digit⟩
      have faulty := Faulty.float (List.cons_ne_nil c _) (List.forall_mem_cons.2 ⟨digit, run⟩) ends
      rwa [List.cons_append, whole] at faulty
  · cases h

/-- Whether some mark starts with a character does not depend on what follows it. -/
theorem markPiece?_eq_none_iff {c : Char} {cs : List Char} :
    Token.markPiece? c cs = none ↔ Token.single? c = none := by
  cases cs with
  | nil => rw [Token.markPiece?, Option.map_eq_none_iff]
  | cons d cs =>
    rw [Token.markPiece?]
    split
    · next k pair =>
      have first : ∀ p ∈ pairs, Token.single? p.1.1 ≠ none := by decide
      exact ⟨fun h => absurd h (Option.some_ne_none _),
        fun h => absurd h (first _ (pair?_eq_some_iff.1 pair))⟩
    · rw [Option.map_eq_none_iff]

theorem faulty_of_stringPiece {cs : List Char} {f : LexFault}
    (h : Token.stringPiece cs = .error f) : Faulty ('"' :: cs) f := by
  unfold Token.stringPiece at h
  split at h
  · cases h
  · next none =>
    cases h
    exact .string (closeString?_eq_none_iff.1 none)

theorem faulty_of_commentPiece {cs : List Char} {f : LexFault}
    (h : Token.commentPiece cs = .error f) : Faulty ('#' :: cs) f := by
  unfold Token.commentPiece at h
  split at h
  · split at h
    · cases h
    · next none =>
      cases h
      exact .comment (closeComment?_eq_none_iff.1 none)
  · cases h

/-! ## No piece -/

/-- A character of no class starts no piece, whatever follows it. -/
theorem no_lexeme_of_no_class {c : Char} (blank : ¬ Token.isBlank c = true) (quote : c ≠ '"')
    (hash : c ≠ '#') (digit : ¬ c.isDigit = true) (start : ¬ Token.isWordStart c = true)
    (mark : Token.single? c = none) (next : Option Char) (k : TokenKind) (l : List Char) :
    ¬ Lexeme next k (c :: l) := by
  intro lexeme
  have follows : next.toList.head? = next := by cases next <;> rfl
  rw [← follows] at lexeme
  obtain ⟨c', cs, same, piece⟩ := piece_of_lexeme lexeme
  obtain ⟨rfl, rfl⟩ := List.cons.inj same
  rw [Token.piece, if_neg blank, if_neg quote, if_neg hash, if_neg digit, if_neg start,
    markPiece?_eq_none_iff.2 mark] at piece
  cases piece

theorem faulty_of_piece {c : Char} {cs : List Char} {f : LexFault}
    (h : Token.piece c cs = .error f) : Faulty (c :: cs) f := by
  unfold Token.piece at h
  split at h
  · cases h
  next blank =>
  split at h
  · next quote => exact quote ▸ faulty_of_stringPiece h
  next quote =>
  split at h
  · next hash => exact hash ▸ faulty_of_commentPiece h
  next hash =>
  split at h
  · next digit => exact faulty_of_numberPiece (isDigit_iff.1 digit) h
  next digit =>
  split at h
  · cases h
  next start =>
  split at h
  · cases h
  · next none =>
    cases h
    exact .unknown (no_lexeme_of_no_class blank quote hash digit start
      (markPiece?_eq_none_iff.1 none))

/-- A character that starts no piece is no quote, sign of a comment or digit, which do start one. -/
theorem Faulty.eq_unknown {c : Char} {cs : List Char} {f : LexFault} (h : Faulty (c :: cs) f)
    (starts : ∀ next k l, ¬ Lexeme next k (c :: l)) : f = .unknownToken (String.ofList [c]) := by
  generalize same : c :: cs = input at h
  cases h with
  | string =>
    cases same
    exact absurd (.string .nil) (starts none .string ['"'])
  | comment =>
    cases same
    exact absurd (.filler (.line (by decide) (by decide) (.inl rfl)))
      (starts none .insignificant [])
  | @float ds _ ne digits _ =>
    cases ds with
    | nil => exact absurd rfl ne
    | cons d ds =>
      cases same
      exact absurd (.integer (List.cons_ne_nil _ _) digits (by rintro _ ⟨⟩))
        (starts none .integer ds)
  | unknown =>
    cases same
    rfl

theorem piece_of_faulty {c : Char} {cs : List Char} {f : LexFault} (h : Faulty (c :: cs) f) :
    Token.piece c cs = .error f := by
  generalize same : c :: cs = input at h
  cases h with
  | string unclosed =>
    cases same
    rw [piece_quote, Token.stringPiece, closeString?_eq_none_iff.2 unclosed]
  | comment unclosed =>
    cases same
    rw [piece_hash, Token.commentPiece, closeComment?_eq_none_iff.2 unclosed]
  | @float ds cs ne digits ends =>
    cases ds with
    | nil => exact absurd rfl ne
    | cons d ds =>
      cases same
      rw [List.forall_mem_cons] at digits
      exact (piece_digit digits.1 _).trans (numberPiece_of_point digits.2 ends)
  | unknown starts =>
    cases same
    cases piece : Token.piece c cs with
    | ok u =>
      -- a piece starts with the first character of the input
      obtain ⟨whole, ne⟩ := Token.piece_append piece
      have lexeme := lexeme_of_piece piece
      cases first : u.lexeme with
      | nil => exact absurd first ne
      | cons d l =>
        rw [first] at whole lexeme
        cases whole
        exact absurd lexeme (starts _ _ _)
    | error f => rw [(faulty_of_piece piece).eq_unknown starts]

/-- The scanner cuts no piece off its input exactly if the input is faulty. -/
theorem piece_error_iff {c : Char} {cs : List Char} {f : LexFault} :
    Token.piece c cs = .error f ↔ Faulty (c :: cs) f :=
  ⟨faulty_of_piece, piece_of_faulty⟩

theorem Faulty.ne_nil {cs : List Char} {f : LexFault} (h : Faulty cs f) : cs ≠ [] := by
  cases h with
  | float => exact List.append_ne_nil_of_right_ne_nil _ (List.cons_ne_nil _ _)
  | _ => exact List.cons_ne_nil _ _

/-! ## The first fault -/

theorem scan_of_fault (p : Position) {cs : List Char} {f : LexFault} (h : Faulty cs f) :
    Token.scan p cs = .error ⟨f, p⟩ := by
  cases cs with
  | nil => exact absurd rfl h.ne_nil
  | cons c cs =>
    have fault := piece_error_iff.2 h
    rw [Token.scan]
    split
    · next f' error =>
      rw [fault] at error
      cases error
      rfl
    · next u ok =>
      rw [fault] at ok
      cases ok

theorem scan_of_cutBefore {rest pre : List Char} {f : LexFault} (cut : CutBefore rest pre)
    (fault : Faulty rest f) (p : Position) :
    Token.scan p (pre ++ rest) = .error ⟨f, p.advanceAll pre⟩ := by
  induction cut generalizing p with
  | nil => exact scan_of_fault p fault
  | @cons k l cs lexeme more ih =>
    obtain ⟨c, cs', whole, piece⟩ := piece_of_lexeme lexeme
    rw [List.append_assoc, whole, scan_of_piece piece, ih, Position.advanceAll_append]
    rfl

theorem cutBefore_of_scan (p : Position) (cs : List Char) (e : LexError)
    (h : Token.scan p cs = .error e) : ∃ pre rest, cs = pre ++ rest ∧ CutBefore rest pre ∧
      Faulty rest e.fault ∧ e.position = p.advanceAll pre := by
  fun_induction Token.scan p cs generalizing e with
  | case1 p => cases h
  | case2 p c cs f fault =>
    cases h
    exact ⟨[], c :: cs, rfl, .nil, piece_error_iff.1 fault, rfl⟩
  | case3 p c cs u ok _ e fails ih =>
    cases h
    obtain ⟨pre, rest, split, cut, fault, place⟩ := ih e fails
    have lexeme := lexeme_of_piece ok
    rw [split] at lexeme
    refine ⟨u.lexeme ++ pre, rest, ?_, .cons lexeme cut, fault, ?_⟩
    · rw [List.append_assoc, ← split, (Token.piece_append ok).1]
    · rw [place, Position.advanceAll_append]
  | case4 p c cs u ok _ ts scans ih => cases h

/-- The scanner fails exactly at the first fault after whole pieces. -/
theorem scan_error_iff {p : Position} {cs : List Char} {e : LexError} :
    Token.scan p cs = .error e ↔ ∃ pre rest, cs = pre ++ rest ∧ CutBefore rest pre ∧
      Faulty rest e.fault ∧ e.position = p.advanceAll pre := by
  constructor
  · exact cutBefore_of_scan p cs e
  · rintro ⟨pre, rest, rfl, cut, fault, place⟩
    rw [scan_of_cutBefore cut fault, ← place]

end Lexical

open Lexical

/-- A source has a lexical error exactly if it is whole pieces and then a fault; the error is that
fault, at the place that counting over the pieces gives. -/
theorem Token.ofSource_error_iff_first_fault (s : String) (e : LexError) :
    Token.ofSource s = .error e ↔ ∃ pre rest, s.toList = pre ++ rest ∧ CutBefore rest pre ∧
      rest ≠ [] ∧ Faulty rest e.fault ∧ e.position = wrap (place pre) := by
  have start (pre : List Char) : Position.start.advanceAll pre = wrap (place pre) :=
    wrap_advanceAll (1, 0) pre
  rw [ofSource, scan_error_iff]
  constructor
  · rintro ⟨pre, rest, split, cut, fault, stands⟩
    exact ⟨pre, rest, split, cut, fault.ne_nil, fault, stands.trans (start pre)⟩
  · rintro ⟨pre, rest, split, cut, _, fault, stands⟩
    exact ⟨pre, rest, split, cut, fault, stands.trans (start pre).symm⟩

end Ember
