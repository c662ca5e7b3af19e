import Mathlib.Control.Monad.Basic
import Ember.Proofs.Fault
import Ember.Proofs.Spacing

/-!
# Sources joined at a line end

A line feed ends every piece that the end of a source ends, without being a part of it, and what
follows it is scanned as a source of its own, further down.

1. `Lexeme.before_lineFeed`: a piece at the end of a source is the same piece in front of a line
   feed. `scan_append_lineFeed`: so the pieces of a source are cut off first.
2. `scan_down`: the scanner does the same on a later line, and all places are on later lines.
3. `CutBefore.append_lineFeed`, `Faulty.append_lineFeed`: a fault that is not an open string or
   comment stays what it is, whatever comes after the source.
-/

namespace Ember

/-! ## Later lines -/

/-- The same column some lines further down. -/
def Position.down (k : Nat) (p : Position) : Position := ⟨p.line + UInt32.ofNat k, p.column⟩

/-- The same token some lines further down. -/
def Token.down (k : Nat) (t : Token) : Token := { t with position := t.position.down k }

/-- The same error some lines further down. -/
def LexError.down (k : Nat) (e : LexError) : LexError := { e with position := e.position.down k }

namespace Position

theorem advance_down (k : Nat) (p : Position) (c : Char) :
    (p.down k).advance c = (p.advance c).down k := by
  unfold advance down
  by_cases feed : c = '\n'
  · simp [feed, UInt32.add_assoc, UInt32.add_comm 1]
  · by_cases ret : c = '\r'
    · simp [ret]
    · simp [feed, ret]

theorem advanceAll_down (k : Nat) (p : Position) (cs : List Char) :
    (p.down k).advanceAll cs = (p.advanceAll cs).down k := by
  induction cs generalizing p with
  | nil => rfl
  | cons c cs ih => rw [advanceAll_cons, advance_down, ih, advanceAll_cons]

theorem line_advance (p : Position) (c : Char) :
    (p.advance c).line = p.line + UInt32.ofNat ([c].count '\n') := by
  unfold advance
  by_cases feed : c = '\n'
  · simp [feed]
  · by_cases ret : c = '\r'
    · simp [ret]
    · simp [feed, ret]

/-- Only line feeds lead to later lines. -/
theorem line_advanceAll (p : Position) (cs : List Char) :
    (p.advanceAll cs).line = p.line + UInt32.ofNat (cs.count '\n') := by
  induction cs generalizing p with
  | nil => simp
  | cons c cs ih =>
    have split : (c :: cs).count '\n' = [c].count '\n' + cs.count '\n' := by
      rw [← List.count_append, List.singleton_append]
    rw [advanceAll_cons, ih, line_advance, split, UInt32.ofNat_add, UInt32.add_assoc]

/-- After a source and a line feed, a new line starts. -/
theorem advanceAll_lineFeed (cs : List Char) :
    start.advanceAll (cs ++ ['\n']) = start.down (cs.count '\n' + 1) := by
  have line := line_advanceAll start cs
  rw [advanceAll_append]
  show Position.mk ((start.advanceAll cs).line + 1) 0 = _
  rw [line, down, UInt32.ofNat_add, UInt32.add_assoc]
  rfl

end Position

namespace Lexical

/-- The scanner does the same further down, and everything it finds is as far down. -/
theorem scan_down (k : Nat) (p : Position) (cs : List Char) : Token.scan (p.down k) cs =
    ((Token.scan p cs).map (List.map (Token.down k))).mapError (LexError.down k) := by
  fun_induction Token.scan p cs with
  | case1 p => rw [scan_nil]; rfl
  | case2 p c cs f fault => rw [scan_of_fault _ (piece_error_iff.1 fault)]; rfl
  | case3 p c cs u ok _ e fails ih =>
    rw [scan_of_piece ok, Position.advanceAll_down, ih, fails]
    rfl
  | case4 p c cs u ok _ ts scans ih =>
    have token : (u.token? (p.down k)).toList = (u.token? p).toList.map (Token.down k) := by
      unfold Token.Piece.token?
      split <;> rfl
    rw [scan_of_piece ok, Position.advanceAll_down, ih, scans, token]
    simp [Except.map, Except.mapError]

/-! ## Pieces in front of a line feed -/

/-- A piece at the end of a source is the same piece in front of a line feed. -/
theorem Lexeme.before_lineFeed {k : TokenKind} {l rest : List Char} (h : Lexeme rest.head? k l)
    (more : List Char) : Lexeme (rest ++ '\n' :: more).head? k l := by
  cases rest with
  | cons c rest => exact h
  | nil =>
    show Lexeme (some '\n') k l
    by_cases kind : k = .insignificant
    · subst kind
      refine .filler ?_
      cases h.filler_of_insignificant with
      | blank mem => exact .blank mem
      | line inside bracket _ => exact .line inside bracket (.inr rfl)
      | block inside => exact .block inside
    · refine h.of_separated kind ?_
      rintro _ ⟨⟩
      decide

/-- In front of a line feed, a source that can be cut is cut first, and what follows the line feed
is scanned from the line after it. -/
theorem scan_append_lineFeed {cs : List Char} {us : List (TokenKind × List Char)} (h : Cut cs us)
    (p : Position) (ds : List Char) : Token.scan p (cs ++ '\n' :: ds) =
      (Token.scan (p.advanceAll (cs ++ ['\n'])) ds).map (tokensFrom p us ++ ·) := by
  induction h generalizing p with
  | nil =>
    have feed : Token.piece '\n' ds = .ok ⟨.insignificant, ['\n'], ds⟩ := rfl
    exact scan_of_piece feed
  | @cons k l rest us lexeme more ih =>
    obtain ⟨c, cs, whole, piece⟩ := piece_of_lexeme (lexeme.before_lineFeed ds)
    rw [List.append_assoc, whole, scan_of_piece piece, ih, List.append_assoc,
      Position.advanceAll_append p l, ← toList_token?_append ⟨k, l, rest⟩ p us]
    generalize Token.scan _ ds = result
    cases result with
    | error e => rfl
    | ok ts => exact congrArg Except.ok (List.append_assoc ..).symm

/-! ## Faults in front of a line feed -/

/-- The fault is an invalid number or an unknown token, and not a string or comment left open. -/
def Confined (f : LexFault) : Prop := ∃ l, f = .unknownToken l ∨ f = .invalidFloat l

theorem Faulty.append_lineFeed {cs : List Char} {f : LexFault} (h : Faulty cs f)
    (confined : Confined f) (more : List Char) : Faulty (cs ++ '\n' :: more) f := by
  obtain ⟨l, fault⟩ := confined
  cases h with
  | string | comment => simp at fault
  | @float ds cs ne digits ends =>
    rw [List.append_assoc]
    refine .float ne digits ?_
    cases cs with
    | nil =>
      rintro _ ⟨⟩
      decide
    | cons c cs => exact ends
  | unknown starts => exact .unknown starts

theorem CutBefore.append_lineFeed {rest pre : List Char} (h : CutBefore rest pre)
    (more : List Char) : CutBefore (rest ++ '\n' :: more) pre := by
  induction h with
  | nil => exact .nil
  | @cons k l cs lexeme _ ih =>
    have before := lexeme.before_lineFeed more
    rw [List.append_assoc] at before
    exact .cons before ih

theorem scan_error_append_lineFeed {p : Position} {cs : List Char} {e : LexError}
    (h : Token.scan p cs = .error e) (confined : Confined e.fault) (ds : List Char) :
    Token.scan p (cs ++ '\n' :: ds) = .error e := by
  obtain ⟨pre, rest, rfl, cut, fault, place⟩ := scan_error_iff.1 h
  exact scan_error_iff.2 ⟨pre, rest ++ '\n' :: ds, List.append_assoc .., cut.append_lineFeed ds,
    fault.append_lineFeed confined ds, place⟩

end Lexical

open Lexical

/-- Joined by a line feed, two sources are scanned one after the other. If the first has tokens,
they come first, and the tokens of the second follow, or its error, with all places as many lines
further down as the first source has; columns, kinds, lexemes and faults stay as they are. If the
first has an unknown token or an invalid number, that is the error of both together. -/
theorem Token.ofSource_joined_by_lineFeed (s t : String) :
    (∀ ts, ofSource s = .ok ts →
      (∀ us, ofSource t = .ok us →
        ofSource (s ++ "\n" ++ t) = .ok (ts ++ us.map (down (s.toList.count '\n' + 1)))) ∧
      ∀ e, ofSource t = .error e →
        ofSource (s ++ "\n" ++ t) = .error (e.down (s.toList.count '\n' + 1))) ∧
    ∀ e, ofSource s = .error e → (∃ l, e.fault = .unknownToken l ∨ e.fault = .invalidFloat l) →
      ofSource (s ++ "\n" ++ t) = .error e := by
  have chars : (s ++ "\n" ++ t).toList = s.toList ++ '\n' :: t.toList := by
    simp [String.toList_append]
  refine ⟨fun ts lexed => ?_, fun e fails confined => ?_⟩
  · obtain ⟨us, cut, rfl⟩ := ofSource_ok_iff.1 lexed
    rw [ofSource, ofSource, chars, scan_append_lineFeed cut, Position.advanceAll_lineFeed, scan_down]
    refine ⟨fun us lexed' => ?_, fun e fails => ?_⟩
    · rw [lexed']
      rfl
    · rw [fails]
      rfl
  · rw [ofSource, chars]
    exact scan_error_append_lineFeed fails confined t.toList

/-- The sign `>` at the end of a source and the sign `=` at the start of the next stay apart, a
comment ends with its line, an open string is reported two lines further down, and `1.` at the end
of a line is no number whatever the next line starts with. -/
theorem Token.signs_apart_across_lines :
    ofSource "1 #one\n>\n= 2" = .ok [⟨"1", .integer, ⟨1, 0⟩⟩, ⟨">", .greater, ⟨2, 0⟩⟩,
      ⟨"=", .equal, ⟨3, 0⟩⟩, ⟨"2", .integer, ⟨3, 2⟩⟩] ∧
    ofSource "1 #one\n>\n= \"" = .error ⟨.unterminatedString, ⟨3, 2⟩⟩ ∧
    ofSource "1.\n5" = .error ⟨.invalidFloat "1.", ⟨1, 0⟩⟩ := by
  have first : ofSource "1 #one\n>" =
      .ok [⟨"1", .integer, ⟨1, 0⟩⟩, ⟨">", .greater, ⟨2, 0⟩⟩] := by decide +kernel
  have second : ofSource "= 2" = .ok [⟨"=", .equal, ⟨1, 0⟩⟩, ⟨"2", .integer, ⟨1, 2⟩⟩] := by
    decide +kernel
  have unclosed : ofSource "= \"" = .error ⟨.unterminatedString, ⟨1, 2⟩⟩ := by decide +kernel
  have invalid : ofSource "1." = .error ⟨.invalidFloat "1.", ⟨1, 0⟩⟩ := by decide +kernel
  exact ⟨((ofSource_joined_by_lineFeed _ _).1 _ first).1 _ second,
    ((ofSource_joined_by_lineFeed _ _).1 _ first).2 _ unclosed,
    (ofSource_joined_by_lineFeed _ "5").2 _ invalid ⟨"1.", .inr rfl⟩⟩

end Ember
