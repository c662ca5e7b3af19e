import Mathlib.Control.Monad.Basic
import Mathlib.Data.List.Basic
import Ember.Proofs.Cut

/-!
# Tokens spaced anew

The lexemes of a source can be written down again with other blanks and comments between them, and
the source so written has the same tokens but for their places.

1. `Lexeme.of_separated`: a lexeme that is a piece in front of some character is the same piece in
   front of a blank, of a comment and of the end, since nothing of these could lengthen it.
2. `Separator.lexes_append`: a separator adds no token to what follows it.
3. `lexes_respaced`: the new source has the old tokens, by induction on them.
-/

namespace Ember

namespace Lexical

/-! ## Characters and their tokens -/

/-- The characters can be cut into pieces, of which `ps` are those that are tokens. -/
def Lexes (cs : List Char) (ps : List (TokenKind × List Char)) : Prop :=
  ∃ us, Cut cs us ∧ significant us = ps

theorem lexes_nil : Lexes [] [] := ⟨[], .nil, rfl⟩

theorem Lexes.filler {l rest : List Char} {ps : List (TokenKind × List Char)}
    (h : Lexes rest ps) (filler : Filler rest.head? l) : Lexes (l ++ rest) ps := by
  obtain ⟨us, cut, rfl⟩ := h
  exact ⟨_, .cons (.filler filler) cut, List.filter_cons_of_neg (by simp)⟩

theorem Lexes.token {k : TokenKind} {l rest : List Char} {ps : List (TokenKind × List Char)}
    (h : Lexes rest ps) (lexeme : Lexeme rest.head? k l) (kind : k ≠ .insignificant) :
    Lexes (l ++ rest) ((k, l) :: ps) := by
  obtain ⟨us, cut, rfl⟩ := h
  exact ⟨_, .cons lexeme cut, List.filter_cons_of_pos (by simp [kind])⟩

theorem ofSource_of_lexes {s : String} {ps : List (TokenKind × List Char)}
    (h : Lexes s.toList ps) : ∃ ts, Token.ofSource s = .ok ts ∧ ts.map pieceOf = ps := by
  obtain ⟨us, cut, rfl⟩ := h
  exact ⟨_, Token.ofSource_ok_iff.2 ⟨us, cut, rfl⟩, map_pieceOf_tokensFrom .start us⟩

theorem Cut.lexeme_of_mem {cs : List Char} {us : List (TokenKind × List Char)} (h : Cut cs us) :
    ∀ u ∈ us, ∃ next, Lexeme next u.1 u.2 := by
  induction h with
  | nil => exact List.forall_mem_nil _
  | cons lexeme _ ih => exact List.forall_mem_cons.2 ⟨⟨_, lexeme⟩, ih⟩

/-- The lexeme of a token is a piece in front of some character or of the end. -/
theorem lexeme_of_ofSource {s : String} {ts : List Token} (h : Token.ofSource s = .ok ts) :
    ∀ t ∈ ts, t.kind ≠ .insignificant ∧ ∃ next, Lexeme next t.kind t.lexeme.toList := by
  obtain ⟨us, cut, rfl⟩ := Token.ofSource_ok_iff.1 h
  intro t mem
  have piece : pieceOf t ∈ significant us := by
    rw [← map_pieceOf_tokensFrom .start]
    exact List.mem_map_of_mem mem
  obtain ⟨mem', kind⟩ := List.mem_filter.1 piece
  exact ⟨of_decide_eq_true kind, cut.lexeme_of_mem _ mem'⟩

/-! ## Separators -/

/-- Blanks, block comments, and line comments with the line feed that ends them. -/
inductive Separator : List Char → Prop
  | nil : Separator []
  | blank {c : Char} {w : List Char} (mem : c ∈ [' ', '\t', '\r', '\n']) (more : Separator w) :
      Separator (c :: w)
  | line {b w : List Char} (inside : '\n' ∉ b) (bracket : b.head? ≠ some '[')
      (more : Separator w) : Separator ('#' :: b ++ '\n' :: w)
  | block {b w : List Char} (inside : ¬ [']', '#'] <:+: b) (more : Separator w) :
      Separator ('#' :: '[' :: b ++ [']', '#'] ++ w)

/-- In front of other characters, a separator adds no token. -/
theorem Separator.lexes_append {w rest : List Char} {ps : List (TokenKind × List Char)}
    (h : Separator w) (more : Lexes rest ps) : Lexes (w ++ rest) ps := by
  induction h with
  | nil => exact more
  | blank mem _ ih => exact ih.filler (.blank mem)
  | @line b w inside bracket _ ih =>
    have newline : Lexes ('\n' :: (w ++ rest)) ps := ih.filler (.blank (by decide))
    rw [List.append_assoc]
    exact newline.filler (.line inside bracket (.inr rfl))
  | @block b w inside _ ih =>
    rw [List.append_assoc]
    exact ih.filler (.block inside)

/-- What a separator can start with. -/
def separatorStarts : List Char := [' ', '\t', '\r', '\n', '#']

theorem Separator.head {w : List Char} (h : Separator w) : ∀ c ∈ w.head?, c ∈ separatorStarts := by
  cases h with
  | nil => rintro _ ⟨⟩
  | blank mem _ =>
    rintro _ ⟨⟩
    exact List.mem_append_left ['#'] mem
  | line _ _ _ | block _ _ =>
    rintro _ ⟨⟩
    decide

/-- No numeral, word or mark goes on with the start of a separator. -/
theorem separatorStarts_end_lexemes {c : Char} (h : c ∈ separatorStarts) :
    ¬ Digit c ∧ ¬ WordStart c ∧ c ≠ '.' ∧ ∀ p ∈ pairs, p.1.2 ≠ c := by
  simp only [separatorStarts, List.mem_cons, List.not_mem_nil, or_false] at h
  rcases h with rfl | rfl | rfl | rfl | rfl <;> decide

/-- A lexeme is the same piece wherever a separator or the end follows it. -/
theorem Lexeme.of_separated {next next' : Option Char} {k : TokenKind} {l : List Char}
    (h : Lexeme next k l) (kind : k ≠ .insignificant) (starts : ∀ c ∈ next', c ∈ separatorStarts) :
    Lexeme next' k l := by
  have ends := fun c mem => separatorStarts_end_lexemes (starts c mem)
  have part : ∀ c ∈ next', ¬ WordPart c :=
    fun c mem => not_or_intro (ends c mem).2.1 (ends c mem).1
  cases h with
  | filler _ => exact absurd rfl kind
  | integer ne digits _ =>
    exact .integer ne digits fun c mem => ⟨(ends c mem).1, (ends c mem).2.2.1⟩
  | float ne digits ne' places _ =>
    exact .float ne digits ne' places fun c mem => (ends c mem).1
  | keyword k _ => exact .keyword k part
  | identifier start parts _ free => exact .identifier start parts part free
  | string body => exact .string body
  | mark mem _ =>
    refine .mark mem fun d follows pair => ?_
    obtain ⟨p, mem', e⟩ := List.mem_map.1 pair
    exact (ends d follows).2.2.2 p mem' (congrArg Prod.snd e)
  | pair mem => exact .pair mem

/-! ## Other separators -/

/-- The lexemes of the tokens, with a separator before the first of them and one after each. -/
def respaced (w : String) : List Token → List String → String
  | t :: ts, v :: vs => w ++ t.lexeme ++ respaced v ts vs
  | _, _ => w

/-- A source spaced anew starts with a separator, unless the first separator is empty and a token
follows it. -/
theorem respaced_starts {w : String} {ts : List Token} (separator : Separator w.toList)
    (apart : ts ≠ [] → w ≠ "") (ws : List String) :
    ∀ c ∈ (respaced w ts ws).toList.head?, c ∈ separatorStarts := by
  unfold respaced
  split
  · next t ts v vs =>
    have ne : w.toList ≠ [] := by
      rw [ne_eq, String.toList_eq_nil_iff]
      exact apart (List.cons_ne_nil t ts)
    rw [String.toList_append, String.toList_append, List.append_assoc,
      List.head?_append_of_ne_nil _ ne]
    exact separator.head
  · exact separator.head

theorem lexes_respaced {ts : List Token} {w : String} {ws : List String}
    (lexemes : ∀ t ∈ ts, t.kind ≠ .insignificant ∧ ∃ next, Lexeme next t.kind t.lexeme.toList)
    (length : ws.length = ts.length) (separators : ∀ v ∈ w :: ws, Separator v.toList)
    (apart : ∀ v ∈ ws.dropLast, v ≠ "") :
    Lexes (respaced w ts ws).toList (ts.map pieceOf) := by
  induction ts generalizing w ws with
  | nil =>
    have only := (separators w (List.mem_cons_self ..)).lexes_append lexes_nil
    rwa [List.append_nil] at only
  | cons t ts ih =>
    cases ws with
    | nil => cases length
    | cons v vs =>
      rw [List.forall_mem_cons] at lexemes separators
      obtain ⟨⟨kind, next, lexeme⟩, lexemes⟩ := lexemes
      have length' : vs.length = ts.length := Nat.succ.inj length
      -- the separator after the token is empty only if the token is the last one
      have apart' : (ts ≠ [] → v ≠ "") ∧ ∀ v ∈ vs.dropLast, v ≠ "" := by
        cases vs with
        | nil =>
          have last : ts = [] := List.length_eq_zero_iff.1 length'.symm
          exact ⟨fun more => absurd last more, List.forall_mem_nil _⟩
        | cons x xs =>
          rw [List.dropLast_cons_cons, List.forall_mem_cons] at apart
          exact ⟨fun _ => apart.1, apart.2⟩
      have starts := respaced_starts (separators.2 v (List.mem_cons_self ..)) apart'.1 vs
      have rest := ih lexemes length' separators.2 apart'.2
      have token := rest.token (lexeme.of_separated kind starts) kind
      have all := separators.1.lexes_append token
      rwa [← List.append_assoc, ← String.toList_append, ← String.toList_append] at all

end Lexical

open Lexical

/-- However the tokens of a source are spaced anew, with a separator between any two of them that is
not empty, the new source has as many tokens, with the same kinds and lexemes in the same order. -/
theorem Token.ofSource_respaced {s : String} {ts : List Token} (lexed : Token.ofSource s = .ok ts)
    (w : String) (ws : List String) (length : ws.length = ts.length)
    (separators : ∀ v ∈ w :: ws, Separator v.toList) (apart : ∀ v ∈ ws.dropLast, v ≠ "") :
    ∃ ts', Token.ofSource (respaced w ts ws) = .ok ts' ∧
      ts'.map Token.kind = ts.map Token.kind ∧ ts'.map Token.lexeme = ts.map Token.lexeme := by
  obtain ⟨ts', lexed', same⟩ := ofSource_of_lexes
    (lexes_respaced (lexeme_of_ofSource lexed) length separators apart)
  refine ⟨ts', lexed', ?_, ?_⟩
  · have kinds := congrArg (List.map Prod.fst) same
    rwa [List.map_map, List.map_map] at kinds
  · have lexemes := congrArg (List.map fun u => String.ofList u.2) same
    simpa only [List.map_map, Function.comp_def, pieceOf, String.ofList_toList] using lexemes

/-- The tokens of `1<<2` with a block comment before the sign and a line comment after it. -/
theorem Token.shift_between_comments :
    ∃ ts ts', Token.ofSource "1<<2" = .ok ts ∧ Token.ofSource "1#[+]#<<#<\n2" = .ok ts' ∧
      ts'.map Token.kind = ts.map Token.kind ∧ ts'.map Token.lexeme = ["1", "<<", "2"] := by
  let ts : List Token := [⟨"1", .integer, ⟨1, 0⟩⟩, ⟨"<<", .lessLess, ⟨1, 1⟩⟩,
    ⟨"2", .integer, ⟨1, 3⟩⟩]
  have lexed : Token.ofSource "1<<2" = .ok ts := by decide +kernel
  have block : Separator ('#' :: '[' :: ['+'] ++ [']', '#'] ++ []) := .block (by decide) .nil
  have line : Separator ('#' :: ['<'] ++ '\n' :: []) := .line (by decide) (by decide) .nil
  have separators : ∀ v ∈ ["", "#[+]#", "#<\n", ""], Separator v.toList := by
    simp only [List.forall_mem_cons]
    exact ⟨.nil, block, line, .nil, List.forall_mem_nil _⟩
  obtain ⟨ts', lexed', kinds, lexemes⟩ :=
    Token.ofSource_respaced lexed "" ["#[+]#", "#<\n", ""] rfl separators (by decide)
  exact ⟨ts, ts', lexed, lexed', kinds, lexemes⟩

end Ember
