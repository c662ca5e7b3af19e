import Ember.Proofs.Cut

/-!
# Tokens tile the source

Between the tokens of a source stand gaps of blanks and comments, and nothing else: the gaps and
the lexemes, in turn, are the source (`Tiled`). The position of a token is found by counting lines
and columns over all characters before its lexeme (`place`).

Positions are 32-bit words and wrap around; in a source of fewer than `2 ^ 32` characters they are
exact.
-/

namespace Ember

namespace Lexical

/-! ## Lines and columns -/

/-- Line and column after one more character. -/
def countChar (p : Nat × Nat) (c : Char) : Nat × Nat :=
  if c = '\n' then (p.1 + 1, 0)
  else if c = '\r' then (p.1, 0)
  else (p.1, p.2 + 1)

/-- Line and column after the characters, counted from line one and column zero. -/
def place (cs : List Char) : Nat × Nat := cs.foldl countChar (1, 0)

/-- The position whose words are the line and the column, modulo their range. -/
def wrap (p : Nat × Nat) : Position := ⟨.ofNat p.1, .ofNat p.2⟩

theorem wrap_advance (p : Nat × Nat) (c : Char) : (wrap p).advance c = wrap (countChar p c) := by
  unfold Position.advance countChar
  split
  · exact congrArg (Position.mk · 0) (UInt32.ofNat_add p.1 1).symm
  · split
    · rfl
    · exact congrArg (Position.mk _) (UInt32.ofNat_add p.2 1).symm

theorem wrap_advanceAll (p : Nat × Nat) (cs : List Char) :
    (wrap p).advanceAll cs = wrap (cs.foldl countChar p) := by
  induction cs generalizing p with
  | nil => rfl
  | cons c cs ih => rw [Position.advanceAll_cons, wrap_advance, ih, List.foldl_cons]

theorem countChar_le (p : Nat × Nat) (c : Char) :
    (countChar p c).1 ≤ p.1 + 1 ∧ (countChar p c).2 ≤ p.2 + 1 := by
  unfold countChar
  split
  · simp
  · split <;> simp

theorem foldl_countChar_le (cs : List Char) (p : Nat × Nat) :
    (cs.foldl countChar p).1 ≤ p.1 + cs.length ∧ (cs.foldl countChar p).2 ≤ p.2 + cs.length := by
  induction cs generalizing p with
  | nil => simp
  | cons c cs ih =>
    have step := countChar_le p c
    have rest := ih (countChar p c)
    rw [List.foldl_cons, List.length_cons]
    omega

/-- The words hold line and column exactly as long as few enough characters have been read. -/
theorem wrap_place_exact {cs : List Char} (h : cs.length + 1 < UInt32.size) :
    (wrap (place cs)).line.toNat = (place cs).1 ∧
      (wrap (place cs)).column.toNat = (place cs).2 := by
  have bound := foldl_countChar_le cs (1, 0)
  rw [wrap, place]
  exact ⟨UInt32.toNat_ofNat_of_lt' (by omega), UInt32.toNat_ofNat_of_lt' (by omega)⟩

/-! ## Gaps and tokens in turn -/

/-- The characters `g` in front of `rest` are blanks and comments. -/
inductive Gap (rest : List Char) : List Char → Prop
  | nil : Gap rest []
  | cons {l g : List Char} (filler : Filler (g ++ rest).head? l) (more : Gap rest g) :
      Gap rest (l ++ g)

/-- After the characters `before`, the characters are gaps and the lexemes of the tokens in turn,
and each token is placed after all characters before its lexeme. -/
inductive Tiled (placed : List Char → Position → Prop) :
    List Char → List Token → List Char → Prop
  | gap {before g : List Char} (gap : Gap [] g) : Tiled placed before [] g
  | token {before g rest : List Char} {t : Token} {ts : List Token}
      (gap : Gap (t.lexeme.toList ++ rest) g) (nonempty : t.lexeme ≠ "")
      (significant : t.kind ≠ .insignificant) (known : t.kind ≠ .unknown)
      (place : placed (before ++ g) t.position)
      (more : Tiled placed (before ++ g ++ t.lexeme.toList) ts rest) :
      Tiled placed before (t :: ts) (g ++ t.lexeme.toList ++ rest)

theorem Tiled.filler_append {placed : List Char → Position → Prop} {before l cs : List Char}
    {ts : List Token} (filler : Filler cs.head? l) (h : Tiled placed (before ++ l) ts cs) :
    Tiled placed before ts (l ++ cs) := by
  cases h with
  | gap gap => exact .gap (.cons (by rwa [List.append_nil]) gap)
  | @token _ g rest t ts gap nonempty significant known place more =>
    rw [List.append_assoc before] at place more
    have longer := Tiled.token (.cons (by rwa [← List.append_assoc]) gap) nonempty significant known
      place more
    rwa [List.append_assoc l, List.append_assoc l] at longer

theorem Tiled.lexeme_append {placed : List Char → Position → Prop} {before l cs : List Char}
    {ts : List Token} {k : TokenKind} {p : Position} (ne : l ≠ []) (kind : k ≠ .insignificant)
    (known : k ≠ .unknown) (place : placed before p) (h : Tiled placed (before ++ l) ts cs) :
    Tiled placed before (⟨String.ofList l, k, p⟩ :: ts) (l ++ cs) := by
  have text : (String.ofList l).toList = l := String.toList_ofList
  have nonempty : String.ofList l ≠ "" := by
    intro e
    rw [e] at text
    exact ne text.symm
  have tiled : Tiled placed before (⟨String.ofList l, k, p⟩ :: ts)
      ([] ++ (String.ofList l).toList ++ cs) :=
    .token .nil nonempty kind known (by rwa [List.append_nil]) (by rwa [List.append_nil, text])
  rwa [List.nil_append, text] at tiled

theorem tiled_of_cut {cs : List Char} {us : List (TokenKind × List Char)} (h : Cut cs us)
    (before : List Char) : Tiled (fun cs p => p = wrap (place cs)) before
      (tokensFrom (wrap (place before)) us) cs := by
  induction h generalizing before with
  | nil => exact .gap .nil
  | @cons k l rest us lexeme more ih =>
    have tail := ih (before ++ l)
    have moved : (wrap (place before)).advanceAll l = wrap (place (before ++ l)) := by
      rw [wrap_advanceAll, place, place, List.foldl_append]
    rw [tokensFrom, moved]
    split
    · next kind =>
      subst kind
      exact tail.filler_append lexeme.filler_of_insignificant
    · next kind => exact tail.lexeme_append lexeme.ne_nil kind lexeme.kind_ne_unknown rfl

/-- Places may be read in another way that agrees on the characters before any token. -/
theorem Tiled.imp {P Q : List Char → Position → Prop} {before cs : List Char} {ts : List Token}
    (h : Tiled P before ts cs)
    (imp : ∀ pre p, pre.length < before.length + cs.length → P pre p → Q pre p) :
    Tiled Q before ts cs := by
  induction h with
  | gap gap => exact .gap gap
  | @token before g rest t ts gap nonempty significant known place more ih =>
    have pos : 0 < t.lexeme.toList.length := by
      rw [List.length_pos_iff, ne_eq, String.toList_eq_nil_iff]
      exact nonempty
    simp only [List.length_append] at imp ih
    refine .token gap nonempty significant known (imp _ _ ?_ place)
      (ih fun pre p lt => imp pre p ?_)
    · rw [List.length_append]
      omega
    · omega

end Lexical

open Lexical

/-- Gaps of blanks and comments and the lexemes of the tokens, in turn, are the source. Each token
stands at the place that counting over the characters before it gives, exactly so in a source of
fewer than `2 ^ 32` characters. -/
theorem Token.ofSource_tiles {s : String} {ts : List Token} (h : Token.ofSource s = .ok ts) :
    Tiled (fun before p => p = wrap (place before)) [] ts s.toList ∧
    (s.length < UInt32.size → Tiled (fun before p =>
      p.line.toNat = (place before).1 ∧ p.column.toNat = (place before).2) [] ts s.toList) := by
  obtain ⟨us, cut, rfl⟩ := ofSource_ok_iff.1 h
  have tiled := tiled_of_cut cut []
  refine ⟨tiled, fun short => tiled.imp ?_⟩
  rintro pre p lt rfl
  rw [List.length_nil, Nat.zero_add, String.length_toList] at lt
  exact wrap_place_exact (by omega)

/-- The tokens of a source with a comment between them. -/
theorem Token.ofSource_tiles_comment :
    Token.ofSource "1 #c\n2" = .ok [⟨"1", .integer, ⟨1, 0⟩⟩, ⟨"2", .integer, ⟨2, 0⟩⟩] ∧
    Tiled (fun before p => p.line.toNat = (place before).1 ∧ p.column.toNat = (place before).2) []
      [⟨"1", .integer, ⟨1, 0⟩⟩, ⟨"2", .integer, ⟨2, 0⟩⟩] "1 #c\n2".toList := by
  have one : Lexeme (some ' ') .integer ['1'] :=
    .integer (by decide) (List.forall_mem_singleton.2 (by decide)) (by rintro _ ⟨⟩; decide)
  have space : Lexeme (some '#') .insignificant [' '] := .filler (.blank (by decide))
  have comment : Lexeme (some '\n') .insignificant ['#', 'c'] :=
    .filler (.line (by decide) (by decide) (.inr rfl))
  have newline : Lexeme (some '2') .insignificant ['\n'] := .filler (.blank (by decide))
  have two : Lexeme none .integer ['2'] :=
    .integer (by decide) (List.forall_mem_singleton.2 (by decide)) (by rintro _ ⟨⟩)
  have cut : Cut (['1'] ++ ([' '] ++ (['#', 'c'] ++ (['\n'] ++ (['2'] ++ []))))) _ :=
    .cons one (.cons space (.cons comment (.cons newline (.cons two .nil))))
  have ok : Token.ofSource "1 #c\n2" =
      .ok [⟨"1", .integer, ⟨1, 0⟩⟩, ⟨"2", .integer, ⟨2, 0⟩⟩] :=
    ofSource_ok_iff.2 ⟨_, cut, by decide⟩
  exact ⟨ok, (ofSource_tiles ok).2 (by decide)⟩

end Ember
