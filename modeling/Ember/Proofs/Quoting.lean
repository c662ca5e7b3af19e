import Ember.Proofs.Cut

/-!
# String literals

Every string can be written as a literal, and reading the literal gives the string back. Three
scans have to agree on where a backslash belongs to the character after it: writing (`escapeChars`),
cutting the literal out of a source (`StringBody`) and reading (`unescapeChars`). Writing goes
character by character, so for each of the other two it is enough to know what it makes of one
written character in front of anything (`unescapeChars_escapeChar`, `stringBody_escapeChar`).
-/

namespace Ember

open Lexical

namespace Text

/-! ## One character -/

/-- The characters that are written with a backslash, and the letter after it. -/
def escapes : List (Char × Char) :=
  [('"', '"'), ('\\', '\\'), ('\n', 'n'), ('\r', 'r'), ('\t', 't'), ('\x00', '0')]

theorem escapeLetter?_eq_some_iff {c l : Char} : escapeLetter? c = some l ↔ (c, l) ∈ escapes := by
  constructor
  · intro h
    unfold escapeLetter? at h
    repeat
      rcases of_ite_eq_some h with ⟨rfl, rfl⟩ | h
      · decide
    cases h
  · intro h
    have table : ∀ p ∈ escapes, escapeLetter? p.1 = some p.2 := by decide
    exact table _ h

theorem isSome_escapeLetter?_iff {c : Char} :
    (escapeLetter? c).isSome = true ↔ c ∈ escapes.map Prod.fst := by
  rw [Option.isSome_iff_exists, List.mem_map]
  constructor
  · rintro ⟨l, letter⟩
    exact ⟨(c, l), escapeLetter?_eq_some_iff.1 letter, rfl⟩
  · rintro ⟨p, mem, rfl⟩
    exact ⟨p.2, escapeLetter?_eq_some_iff.2 mem⟩

/-- A character is written as a backslash and its letter, or as itself. -/
theorem escapeChar_cases (c : Char) :
    (∃ l, (c, l) ∈ escapes ∧ escapeChar c = ['\\', l]) ∨
      (c ∉ escapes.map Prod.fst ∧ escapeChar c = [c]) := by
  unfold escapeChar
  cases letter : escapeLetter? c with
  | some l => exact .inl ⟨l, escapeLetter?_eq_some_iff.1 letter, rfl⟩
  | none =>
    refine .inr ⟨fun mem => ?_, rfl⟩
    rw [← isSome_escapeLetter?_iff, letter] at mem
    cases mem

theorem unescapeChars_plain {c : Char} (plain : c ≠ '\\') (cs : List Char) :
    unescapeChars (c :: cs) = c :: unescapeChars cs :=
  unescapeChars.eq_4 c cs (fun e _ => plain e) fun _ _ e _ => plain e

theorem unescapeChars_escapeChar (c : Char) (cs : List Char) :
    unescapeChars (escapeChar c ++ cs) = c :: unescapeChars cs := by
  rcases escapeChar_cases c with ⟨l, mem, written⟩ | ⟨plain, written⟩
  · have value : ∀ p ∈ escapes, escapeValue p.2 = p.1 := by decide
    rw [written]
    exact congrArg (· :: unescapeChars cs) (value _ mem)
  · have backslash : c ≠ '\\' := by
      rintro rfl
      exact plain (by decide)
    rw [written, List.singleton_append, unescapeChars_plain backslash]

theorem stringBody_escapeChar (c : Char) {b : List Char} (h : StringBody b) :
    StringBody (escapeChar c ++ b) := by
  rcases escapeChar_cases c with ⟨l, _, written⟩ | ⟨plain, written⟩
  · rw [written]
    exact .escape h
  · rw [written]
    refine .plain ?_ ?_ h
    · rintro rfl
      exact plain (by decide)
    · rintro rfl
      exact plain (by decide)

theorem escapeChar_visible (c : Char) : ∀ d ∈ escapeChar c, d ∉ ['\n', '\r', '\t', '\x00'] := by
  rcases escapeChar_cases c with ⟨l, mem, written⟩ | ⟨plain, written⟩
  · have letters : ∀ p ∈ escapes, p.2 ∉ ['\n', '\r', '\t', '\x00'] := by decide
    rw [written, List.forall_mem_cons, List.forall_mem_singleton]
    exact ⟨by decide, letters _ mem⟩
  · rw [written, List.forall_mem_singleton]
    exact fun control => plain (List.mem_append_right ['"', '\\'] control)

/-! ## All characters -/

theorem unescapeChars_escapeChars (cs : List Char) : unescapeChars (escapeChars cs) = cs := by
  induction cs with
  | nil => rfl
  | cons c cs ih =>
    rw [escapeChars, List.flatMap_cons, unescapeChars_escapeChar]
    exact congrArg (c :: ·) ih

theorem stringBody_escapeChars (cs : List Char) : StringBody (escapeChars cs) := by
  induction cs with
  | nil => exact .nil
  | cons c cs ih =>
    rw [escapeChars, List.flatMap_cons]
    exact stringBody_escapeChar c ih

theorem escapeChars_visible (cs : List Char) :
    ∀ d ∈ escapeChars cs, d ∉ ['\n', '\r', '\t', '\x00'] := by
  intro d mem
  obtain ⟨c, _, mem⟩ := List.mem_flatMap.1 mem
  exact escapeChar_visible c d mem

theorem escapeChars_of_plain {cs : List Char} (plain : ∀ c ∈ cs, c ∉ escapes.map Prod.fst) :
    escapeChars cs = cs := by
  induction cs with
  | nil => rfl
  | cons c cs ih =>
    rw [List.forall_mem_cons] at plain
    rcases escapeChar_cases c with ⟨l, mem, _⟩ | ⟨_, written⟩
    · exact absurd (List.mem_map_of_mem mem) plain.1
    · rw [escapeChars, List.flatMap_cons, written]
      exact congrArg (c :: ·) (ih plain.2)

theorem unescapeChars_of_plain {cs : List Char} (plain : '\\' ∉ cs) : unescapeChars cs = cs := by
  induction cs with
  | nil => rfl
  | cons c cs ih =>
    rw [List.mem_cons, not_or] at plain
    rw [unescapeChars_plain (Ne.symm plain.1), ih plain.2]

/-! ## Texts -/

theorem any_escapeLetter?_iff {s : String} :
    s.toList.any (fun c => (escapeLetter? c).isSome) = true ↔
      ¬ ∀ c ∈ s.toList, c ∉ escapes.map Prod.fst := by
  simp only [List.any_eq_true, isSome_escapeLetter?_iff, Classical.not_forall, Classical.not_not,
    exists_prop]

theorem escape_of_plain {s : String} (plain : ∀ c ∈ s.toList, c ∉ escapes.map Prod.fst) :
    escape s = .borrowed s := by
  rw [escape, if_neg fun some => any_escapeLetter?_iff.1 some plain]

theorem escape_of_special {s : String} (special : ¬ ∀ c ∈ s.toList, c ∉ escapes.map Prod.fst) :
    escape s = .owned (String.ofList (escapeChars s.toList)) := by
  rw [escape, if_pos (any_escapeLetter?_iff.2 special)]

theorem toList_escape (s : String) : (escape s).content.toList = escapeChars s.toList := by
  by_cases plain : ∀ c ∈ s.toList, c ∉ escapes.map Prod.fst
  · rw [escape_of_plain plain, escapeChars_of_plain plain]
    rfl
  · rw [escape_of_special plain]
    exact String.toList_ofList

theorem storage_escape_iff {s : String} :
    (escape s).storage = .borrowed ↔ ∀ c ∈ s.toList, c ∉ escapes.map Prod.fst := by
  by_cases plain : ∀ c ∈ s.toList, c ∉ escapes.map Prod.fst
  · rw [escape_of_plain plain]
    exact iff_of_true rfl plain
  · rw [escape_of_special plain]
    exact iff_of_false (by rintro ⟨⟩) plain

theorem toList_unescape (s : String) : (unescape s).content.toList = unescapeChars s.toList := by
  rw [unescape]
  split
  · exact String.toList_ofList
  · next plain =>
    rw [List.contains_iff_mem] at plain
    exact (unescapeChars_of_plain plain).symm

theorem storage_unescape_iff {s : String} :
    (unescape s).storage = .borrowed ↔ '\\' ∉ s.toList := by
  rw [unescape]
  split
  · next backslash =>
    rw [List.contains_iff_mem] at backslash
    exact iff_of_false (by rintro ⟨⟩) (not_not_intro backslash)
  · next plain =>
    rw [List.contains_iff_mem] at plain
    exact iff_of_true rfl plain

/-- A string written as a literal. -/
def quote (s : String) : String := "\"" ++ (escape s).content ++ "\""

theorem toList_quote (s : String) :
    (quote s).toList = '"' :: (escape s).content.toList ++ ['"'] := by
  rw [quote, String.toList_append, String.toList_append]
  rfl

end Text

/-! ## Literals -/

namespace Token

open Text

theorem unquote?_quoted (b : List Char) : unquote? ('"' :: b ++ ['"']) = some b := by
  rw [List.cons_append, unquote?, if_pos List.getLast?_concat, List.dropLast_concat]

/-- What a literal stands for is read from between its quotes. -/
theorem stringValue_quoted {l b : String} (quoted : l.toList = '"' :: b.toList ++ ['"'])
    (p : Position) : stringValue ⟨l, .string, p⟩ = some (unescape b) := by
  rw [stringValue, if_pos rfl]
  dsimp only
  rw [quoted, unquote?_quoted, Option.map_some, Option.getD_some, String.ofList_toList]

/-- A literal alone is a source of one token. -/
theorem ofSource_quoted {s : String} {b : List Char} (body : StringBody b)
    (quoted : s.toList = '"' :: b ++ ['"']) : ofSource s = .ok [⟨s, .string, .start⟩] := by
  have lexeme : Lexeme ([] : List Char).head? .string s.toList := by
    rw [quoted]
    exact .string body
  have cut := Cut.cons lexeme .nil
  rw [List.append_nil] at cut
  refine ofSource_ok_iff.2 ⟨_, cut, ?_⟩
  rw [tokensFrom, if_neg TokenKind.noConfusion, String.ofList_toList]
  rfl

/-- The literal of a string is a source of one token, which stands for that string. It has no line
feed, carriage return, tab or null in it. What is between its quotes is the string itself, borrowed,
exactly if the string has no character to escape, and what it stands for is borrowed exactly if
there is no backslash between its quotes. -/
theorem string_literal_round_trip (s : String) :
    ofSource (quote s) = .ok [⟨quote s, .string, ⟨1, 0⟩⟩] ∧
    (∃ v, stringValue ⟨quote s, .string, ⟨1, 0⟩⟩ = some v ∧ v.content = s ∧
      (v.storage = .borrowed ↔ '\\' ∉ (escape s).content.toList)) ∧
    (∀ c ∈ (escape s).content.toList, c ∉ ['\n', '\r', '\t', '\x00']) ∧
    (escape s = .borrowed s ↔ ∀ c ∈ s.toList, c ∉ ['"', '\\', '\n', '\r', '\t', '\x00']) ∧
    ((escape s).storage = .borrowed ↔
      ∀ c ∈ s.toList, c ∉ ['"', '\\', '\n', '\r', '\t', '\x00']) := by
  have body : StringBody (escape s).content.toList := by
    rw [toList_escape]
    exact stringBody_escapeChars s.toList
  have read : (unescape (escape s).content).content = s := by
    rw [← String.toList_inj, toList_unescape, toList_escape, unescapeChars_escapeChars]
  refine ⟨ofSource_quoted body (toList_quote s),
    ⟨_, stringValue_quoted (toList_quote s) ⟨1, 0⟩, read, storage_unescape_iff⟩, ?_, ?_,
    storage_escape_iff⟩
  · rw [toList_escape]
    exact escapeChars_visible s.toList
  · constructor
    · intro borrowed
      exact storage_escape_iff.1 (congrArg Text.storage borrowed)
    · exact escape_of_plain

end Token

end Ember
