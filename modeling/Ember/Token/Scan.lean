import Ember.Token

/-!
# Scanning a source into tokens

A source is cut from the left into pieces: a blank, a comment, or the longest lexeme that the
following characters allow. `piece` finds the piece at the front of the input and `scan` repeats
it, keeping every piece that is a token together with the place where it starts.

Main statements: `piece_append` (a piece and what follows it are the input, and the piece is not
empty), which is also why scanning ends.
-/

namespace Ember

/-- Why no piece can be cut off the front of the input. -/
inductive LexFault where
  | unterminatedString
  | unterminatedComment
  /-- Digits and a point without a digit after it. -/
  | invalidFloat (lexeme : String)
  | unknownToken (lexeme : String)
deriving DecidableEq

namespace LexFault

/-- The fault in words. -/
def message : LexFault → String
  | unterminatedString => "unterminated string literal"
  | unterminatedComment => "unterminated multi-line comment, expected ']#'"
  | invalidFloat lexeme => "invalid floating point number '" ++ lexeme ++ "'"
  | unknownToken lexeme => "unknown token '" ++ lexeme ++ "'"

/-- The offending characters, where the message quotes them. -/
def lexeme? : LexFault → Option String
  | unterminatedString => none
  | unterminatedComment => none
  | invalidFloat lexeme => some lexeme
  | unknownToken lexeme => some lexeme

end LexFault

/-- A lexical fault and the place of the piece that has it. -/
structure LexError where
  fault : LexFault
  /-- Where the faulty piece starts. -/
  position : Position
deriving DecidableEq

/-- The error in words, with its place. -/
def LexError.text (e : LexError) : String := e.fault.message ++ " at " ++ e.position.text

namespace Token

/-! ## Character classes -/

/-- The four blanks. -/
def isBlank (c : Char) : Bool := c = ' ' || c = '\t' || c = '\r' || c = '\n'

/-- The letters, in ASCII, and the underscore. -/
def isWordStart (c : Char) : Bool := c.isAlpha || c = '_'

/-- The letters and digits, in ASCII, and the underscore. -/
def isWordChar (c : Char) : Bool := c.isAlphanum || c = '_'

/-- The kind of a punctuation mark or operator of one character. -/
def single? (c : Char) : Option TokenKind :=
  if c = '(' then some .leftParen
  else if c = ')' then some .rightParen
  else if c = '\x7b' then some .leftBrace
  else if c = '\x7d' then some .rightBrace
  else if c = '[' then some .leftBracket
  else if c = ']' then some .rightBracket
  else if c = ',' then some .comma
  else if c = '.' then some .dot
  else if c = ';' then some .semicolon
  else if c = ':' then some .colon
  else if c = '+' then some .plus
  else if c = '-' then some .minus
  else if c = '*' then some .star
  else if c = '/' then some .slash
  else if c = '%' then some .percent
  else if c = '&' then some .ampersand
  else if c = '|' then some .pipe
  else if c = '^' then some .caret
  else if c = '~' then some .tilde
  else if c = '!' then some .bang
  else if c = '=' then some .equal
  else if c = '>' then some .greater
  else if c = '<' then some .less
  else none

/-- The kind of an operator of two characters. -/
def pair? (c d : Char) : Option TokenKind :=
  if c = '!' ∧ d = '=' then some .bangEqual
  else if c = '=' ∧ d = '=' then some .equalEqual
  else if c = '>' ∧ d = '=' then some .greaterEqual
  else if c = '>' ∧ d = '>' then some .greaterGreater
  else if c = '<' ∧ d = '=' then some .lessEqual
  else if c = '<' ∧ d = '<' then some .lessLess
  else none

/-! ## One piece -/

/-- A piece at the front of the input, and the input after it. -/
structure Piece where
  /-- What the piece is; `insignificant` for a blank or a comment. -/
  kind : TokenKind
  lexeme : List Char
  rest : List Char
deriving DecidableEq

/-- The rest of a string literal up to and including the first quote without a backslash before
it, and what follows. -/
def closeString? : List Char → Option (List Char × List Char)
  | [] => none
  | '"' :: cs => some (['"'], cs)
  | '\\' :: c :: cs => (closeString? cs).map fun (l, r) => ('\\' :: c :: l, r)
  | c :: cs => (closeString? cs).map fun (l, r) => (c :: l, r)

/-- The rest of a block comment up to and including the first closing mark, and what follows. -/
def closeComment? : List Char → Option (List Char × List Char)
  | [] => none
  | ']' :: '#' :: cs => some ([']', '#'], cs)
  | c :: cs => (closeComment? cs).map fun (l, r) => (c :: l, r)

/-- The string literal whose opening quote stands before `cs`. -/
def stringPiece (cs : List Char) : Except LexFault Piece :=
  match closeString? cs with
  | some (l, r) => .ok ⟨.string, '"' :: l, r⟩
  | none => .error .unterminatedString

/-- The comment whose `#` stands before `cs`: up to the closing mark after an opening bracket, and
otherwise up to the end of the line. -/
def commentPiece : List Char → Except LexFault Piece
  | '[' :: cs =>
    match closeComment? cs with
    | some (l, r) => .ok ⟨.insignificant, '#' :: '[' :: l, r⟩
    | none => .error .unterminatedComment
  | cs => .ok ⟨.insignificant, '#' :: cs.takeWhile (· ≠ '\n'), cs.dropWhile (· ≠ '\n')⟩

/-- The number that starts with digit `c`: digits, and after a point more digits. -/
def numberPiece (c : Char) (cs : List Char) : Except LexFault Piece :=
  let whole := c :: cs.takeWhile Char.isDigit
  match cs.dropWhile Char.isDigit with
  | '.' :: ds =>
    if ds.head?.any Char.isDigit then
      .ok ⟨.float, whole ++ '.' :: ds.takeWhile Char.isDigit, ds.dropWhile Char.isDigit⟩
    else
      .error (.invalidFloat (String.ofList (whole ++ ['.'])))
  | ds => .ok ⟨.integer, whole, ds⟩

/-- The word that starts with `c`. -/
def wordPiece (c : Char) (cs : List Char) : Piece :=
  let word := c :: cs.takeWhile isWordChar
  ⟨.ofWord (String.ofList word), word, cs.dropWhile isWordChar⟩

/-- The mark or operator that starts with `c`, of two characters where there is one. -/
def markPiece? (c : Char) : List Char → Option Piece
  | [] => (single? c).map fun k => ⟨k, [c], []⟩
  | d :: cs =>
    match pair? c d with
    | some k => some ⟨k, [c, d], cs⟩
    | none => (single? c).map fun k => ⟨k, [c], d :: cs⟩

/-- The piece that starts with `c` when `cs` follows. -/
def piece (c : Char) (cs : List Char) : Except LexFault Piece :=
  if isBlank c then .ok ⟨.insignificant, [c], cs⟩
  else if c = '"' then stringPiece cs
  else if c = '#' then commentPiece cs
  else if c.isDigit then numberPiece c cs
  else if isWordStart c then .ok (wordPiece c cs)
  else
    match markPiece? c cs with
    | some p => .ok p
    | none => .error (.unknownToken (String.ofList [c]))

/-! ## A piece and what follows it are the input -/

theorem closeString?_append {cs l r : List Char} (h : closeString? cs = some (l, r)) :
    l ++ r = cs := by
  fun_induction closeString? cs generalizing l r with
  | case1 => simp at h
  | case2 cs => cases h; rfl
  | case3 c cs ih =>
    obtain ⟨⟨l', r'⟩, h', e⟩ := Option.map_eq_some_iff.1 h
    simp only [Prod.mk.injEq] at e
    simp [← e.1, ← e.2, ih h']
  | case4 c cs _ _ ih =>
    obtain ⟨⟨l', r'⟩, h', e⟩ := Option.map_eq_some_iff.1 h
    simp only [Prod.mk.injEq] at e
    simp [← e.1, ← e.2, ih h']

theorem closeComment?_append {cs l r : List Char} (h : closeComment? cs = some (l, r)) :
    l ++ r = cs := by
  fun_induction closeComment? cs generalizing l r with
  | case1 => simp at h
  | case2 cs => cases h; rfl
  | case3 c cs _ ih =>
    obtain ⟨⟨l', r'⟩, h', e⟩ := Option.map_eq_some_iff.1 h
    simp only [Prod.mk.injEq] at e
    simp [← e.1, ← e.2, ih h']

theorem stringPiece_append {cs : List Char} {p : Piece} (h : stringPiece cs = .ok p) :
    p.lexeme ++ p.rest = '"' :: cs ∧ p.lexeme ≠ [] := by
  unfold stringPiece at h
  split at h
  · next l r e => cases h; simp [closeString?_append e]
  · cases h

theorem commentPiece_append {cs : List Char} {p : Piece} (h : commentPiece cs = .ok p) :
    p.lexeme ++ p.rest = '#' :: cs ∧ p.lexeme ≠ [] := by
  unfold commentPiece at h
  split at h
  · split at h
    · next l r e => cases h; simp [closeComment?_append e]
    · cases h
  · cases h; simp

theorem numberPiece_append {c : Char} {cs : List Char} {p : Piece}
    (h : numberPiece c cs = .ok p) : p.lexeme ++ p.rest = c :: cs ∧ p.lexeme ≠ [] := by
  have split_cs := cs.takeWhile_append_dropWhile (p := Char.isDigit)
  unfold numberPiece at h
  dsimp only at h
  split at h
  · next ds e =>
    split at h
    · cases h
      rw [e] at split_cs
      simp [split_cs]
    · cases h
  · cases h; simp

theorem wordPiece_append (c : Char) (cs : List Char) :
    (wordPiece c cs).lexeme ++ (wordPiece c cs).rest = c :: cs
      ∧ (wordPiece c cs).lexeme ≠ [] := by
  simp [wordPiece]

theorem markPiece?_append {c : Char} {cs : List Char} {p : Piece}
    (h : markPiece? c cs = some p) : p.lexeme ++ p.rest = c :: cs ∧ p.lexeme ≠ [] := by
  unfold markPiece? at h
  split at h
  · obtain ⟨k, _, rfl⟩ := Option.map_eq_some_iff.1 h; simp
  · split at h
    · cases h; simp
    · obtain ⟨k, _, rfl⟩ := Option.map_eq_some_iff.1 h; simp

/-- A piece and what follows it are the input, and a piece has at least one character. -/
theorem piece_append {c : Char} {cs : List Char} {p : Piece} (h : piece c cs = .ok p) :
    p.lexeme ++ p.rest = c :: cs ∧ p.lexeme ≠ [] := by
  unfold piece at h
  split at h
  · cases h; simp
  split at h
  · next e => exact e ▸ stringPiece_append h
  split at h
  · next e => exact e ▸ commentPiece_append h
  split at h
  · exact numberPiece_append h
  split at h
  · cases h; exact wordPiece_append c cs
  split at h
  · next e => cases h; exact markPiece?_append e
  · cases h

/-- What follows a piece is shorter than the input. -/
theorem piece_rest_length {c : Char} {cs : List Char} {p : Piece} (h : piece c cs = .ok p) :
    p.rest.length < (c :: cs).length := by
  obtain ⟨e, ne⟩ := piece_append h
  have pos := List.length_pos_iff.2 ne
  rw [← e, List.length_append]
  omega

/-! ## All tokens -/

/-- The token that a piece is, if it is one, at place `p`. -/
def Piece.token? (u : Piece) (p : Position) : Option Token :=
  if u.kind = .insignificant then none else some ⟨String.ofList u.lexeme, u.kind, p⟩

/-- The tokens of the characters that follow place `p`. -/
def scan (p : Position) : List Char → Except LexError (List Token)
  | [] => .ok []
  | c :: cs =>
    match h : piece c cs with
    | .error f => .error ⟨f, p⟩
    | .ok u =>
      have := piece_rest_length h
      match scan (p.advanceAll u.lexeme) u.rest with
      | .error e => .error e
      | .ok ts => .ok ((u.token? p).toList ++ ts)
termination_by cs => cs.length
decreasing_by assumption

/-- The tokens of a source, or the first lexical error. -/
def ofSource (source : String) : Except LexError (List Token) := scan .start source.toList

end Token

end Ember
