import Ember.Proofs.Lexical

/-!
# Sources cut into pieces

`Cut cs us` says that the characters `cs` are the pieces `us`, one after the other, each a piece of
the lexical grammar in front of what follows it. A source has tokens exactly if it can be cut, its
tokens are the pieces that are not blanks or comments (`scan_ok_iff`), and it can be cut in at most
one way (`Cut.unique`).
-/

namespace Ember

namespace Lexical

/-- The characters are the pieces, one after the other. -/
inductive Cut : List Char → List (TokenKind × List Char) → Prop
  | nil : Cut [] []
  | cons {k : TokenKind} {l rest : List Char} {us : List (TokenKind × List Char)}
      (lexeme : Lexeme rest.head? k l) (more : Cut rest us) : Cut (l ++ rest) ((k, l) :: us)

/-- The pieces that are neither blanks nor comments. -/
def significant (us : List (TokenKind × List Char)) : List (TokenKind × List Char) :=
  us.filter (·.1 ≠ .insignificant)

/-- The tokens that the pieces are, the first piece standing at place `p`. -/
def tokensFrom (p : Position) : List (TokenKind × List Char) → List Token
  | [] => []
  | (k, l) :: us =>
    if k = .insignificant then tokensFrom (p.advanceAll l) us
    else ⟨String.ofList l, k, p⟩ :: tokensFrom (p.advanceAll l) us

/-- The piece that a token is. -/
def pieceOf (t : Token) : TokenKind × List Char := (t.kind, t.lexeme.toList)

theorem map_pieceOf_tokensFrom (p : Position) (us : List (TokenKind × List Char)) :
    (tokensFrom p us).map pieceOf = significant us := by
  induction us generalizing p with
  | nil => rfl
  | cons u us ih =>
    obtain ⟨k, l⟩ := u
    by_cases kind : k = .insignificant
    · rw [tokensFrom, if_pos kind, ih, significant, significant,
        List.filter_cons_of_neg (by simp [kind])]
    · rw [tokensFrom, if_neg kind, List.map_cons, ih, significant, significant,
        List.filter_cons_of_pos (by simp [kind]), pieceOf, String.toList_ofList]

/-! ## The scanner -/

theorem scan_nil (p : Position) : Token.scan p [] = .ok [] := by
  rw [Token.scan]

theorem scan_of_piece {p : Position} {c : Char} {cs : List Char} {u : Token.Piece}
    (h : Token.piece c cs = .ok u) : Token.scan p (c :: cs) =
      (Token.scan (p.advanceAll u.lexeme) u.rest).map ((u.token? p).toList ++ ·) := by
  rw [Token.scan]
  split
  · next f fault => rw [h] at fault; cases fault
  · next u' ok =>
    rw [h] at ok
    cases ok
    cases Token.scan (p.advanceAll u.lexeme) u.rest <;> rfl

theorem toList_token?_append (u : Token.Piece) (p : Position) (us : List (TokenKind × List Char)) :
    (u.token? p).toList ++ tokensFrom (p.advanceAll u.lexeme) us =
      tokensFrom p ((u.kind, u.lexeme) :: us) := by
  rw [Token.Piece.token?, tokensFrom]
  split <;> rfl

theorem scan_of_cut {cs : List Char} {us : List (TokenKind × List Char)} (h : Cut cs us)
    (p : Position) : Token.scan p cs = .ok (tokensFrom p us) := by
  induction h generalizing p with
  | nil => exact scan_nil p
  | @cons k l rest us lexeme more ih =>
    obtain ⟨c, cs, e, piece⟩ := piece_of_lexeme lexeme
    rw [e, scan_of_piece piece, ih, ← toList_token?_append ⟨k, l, rest⟩ p us]
    rfl

theorem cut_of_scan (p : Position) (cs : List Char) (ts : List Token)
    (h : Token.scan p cs = .ok ts) : ∃ us, Cut cs us ∧ ts = tokensFrom p us := by
  fun_induction Token.scan p cs generalizing ts with
  | case1 p =>
    cases h
    exact ⟨[], .nil, rfl⟩
  | case2 p c cs f fault => cases h
  | case3 p c cs u ok _ err fails _ => cases h
  | case4 p c cs u ok _ ts' scans ih =>
    cases h
    obtain ⟨us, cut, rfl⟩ := ih ts' scans
    have first := Cut.cons (lexeme_of_piece ok) cut
    rw [(Token.piece_append ok).1] at first
    exact ⟨_, first, toList_token?_append u p us⟩

theorem scan_ok_iff {p : Position} {cs : List Char} {ts : List Token} :
    Token.scan p cs = .ok ts ↔ ∃ us, Cut cs us ∧ ts = tokensFrom p us := by
  constructor
  · exact cut_of_scan p cs ts
  · rintro ⟨us, cut, rfl⟩
    exact scan_of_cut cut p

theorem Cut.unique {cs cs' : List Char} {us us' : List (TokenKind × List Char)} (h : Cut cs us)
    (h' : Cut cs' us') (same : cs = cs') : us = us' := by
  induction h generalizing cs' us' with
  | nil =>
    cases h' with
    | nil => rfl
    | cons lexeme' _ =>
      exact absurd (List.append_eq_nil_iff.1 same.symm).1 lexeme'.ne_nil
  | cons lexeme more ih =>
    cases h' with
    | nil => exact absurd (List.append_eq_nil_iff.1 same).1 lexeme.ne_nil
    | cons lexeme' more' =>
      obtain ⟨rfl, rfl, rfl⟩ := lexeme.unique lexeme' same
      rw [ih more' rfl]

end Lexical

open Lexical

theorem Token.ofSource_ok_iff {s : String} {ts : List Token} :
    Token.ofSource s = .ok ts ↔ ∃ us, Cut s.toList us ∧ ts = tokensFrom .start us :=
  scan_ok_iff

/-- A source has tokens exactly if it can be cut into pieces, its tokens are then those pieces that
are neither blanks nor comments, and there is at most one way to cut it. -/
theorem Token.ofSource_iff_unique_cut (s : String) :
    (∀ ps, (∃ ts, Token.ofSource s = .ok ts ∧ ts.map pieceOf = ps) ↔
      ∃ us, Cut s.toList us ∧ significant us = ps) ∧
    (∀ us us', Cut s.toList us → Cut s.toList us' → us = us') := by
  refine ⟨fun ps => ⟨?_, ?_⟩, fun us us' h h' => h.unique h' rfl⟩
  · rintro ⟨ts, ok, rfl⟩
    obtain ⟨us, cut, rfl⟩ := ofSource_ok_iff.1 ok
    exact ⟨us, cut, (map_pieceOf_tokensFrom .start us).symm⟩
  · rintro ⟨us, cut, rfl⟩
    exact ⟨_, ofSource_ok_iff.2 ⟨us, cut, rfl⟩, map_pieceOf_tokensFrom .start us⟩

/-- The only cut of `>>=1.2.3`. -/
theorem Token.shift_equal_float_cut :
    Cut ">>=1.2.3".toList [(.greaterGreater, ['>', '>']), (.equal, ['=']),
      (.float, ['1', '.', '2']), (.dot, ['.']), (.integer, ['3'])] ∧
    ∀ us, Cut ">>=1.2.3".toList us → us = [(.greaterGreater, ['>', '>']), (.equal, ['=']),
      (.float, ['1', '.', '2']), (.dot, ['.']), (.integer, ['3'])] := by
  have shift : Lexeme (some '=') .greaterGreater ['>', '>'] := .pair (by decide)
  have equal : Lexeme (some '1') .equal ['='] := .mark (by decide) (by rintro _ ⟨⟩; decide)
  have float : Lexeme (some '.') .float (['1'] ++ '.' :: ['2']) :=
    .float (by decide) (List.forall_mem_singleton.2 (by decide)) (by decide)
      (List.forall_mem_singleton.2 (by decide)) (by rintro _ ⟨⟩; decide)
  have dot : Lexeme (some '3') .dot ['.'] := .mark (by decide) (by rintro _ ⟨⟩; decide)
  have integer : Lexeme none .integer ['3'] :=
    .integer (by decide) (List.forall_mem_singleton.2 (by decide)) (by rintro _ ⟨⟩)
  have cut : Cut (['>', '>'] ++ (['='] ++ (['1', '.', '2'] ++ (['.'] ++ (['3'] ++ []))))) _ :=
    .cons shift (.cons equal (.cons float (.cons dot (.cons integer .nil))))
  exact ⟨cut, fun us h => (ofSource_iff_unique_cut _).2 us _ h cut⟩

end Ember
