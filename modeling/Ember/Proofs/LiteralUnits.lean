import Ember.Proofs.Quoting
import Ember.Proofs.Spacing

/-!
# The units of a string literal

The inside of a string literal is a row of units: a character that stands for itself, or a backslash
with the character after it. The scanner pairs backslashes with characters to find the closing
quote, and `unescapeChars` pairs them again, from the text between the first and the last quote
alone. The two never get out of step.

1. `exists_spell`, `spell_injective`: the inside of a literal is spelled by exactly one list of
   units.
2. `Reads`: the states of the reader, what it has read and what is left. From the inside of a
   literal it comes to the ends of units and to nothing else (`reads_spell_iff`), so it never meets
   a backslash with nothing after it.
3. `Token.string_decoded_by_units`: what this says about the string tokens of a source.
-/

namespace Ember

namespace Lexical

/-! ## Units -/

/-- One unit of the inside of a string literal. -/
inductive LiteralUnit where
  /-- A character that stands for itself. -/
  | plain (c : Char) (quote : c ≠ '"') (backslash : c ≠ '\\')
  /-- A backslash and a character. -/
  | escape (c : Char)
deriving DecidableEq

namespace LiteralUnit

/-- The characters of a unit. -/
def chars : LiteralUnit → List Char
  | plain c _ _ => [c]
  | escape c => ['\\', c]

/-- The character that a unit stands for. -/
def value : LiteralUnit → Char
  | plain c _ _ => c
  | escape 'n' => '\n'
  | escape 't' => '\t'
  | escape 'r' => '\r'
  | escape '0' => '\x00'
  | escape c => c

theorem value_escape (c : Char) : (escape c).value = Text.escapeValue c := by
  unfold Text.escapeValue
  split_ifs with n t r zero
  · rw [n, value]
  · rw [t, value]
  · rw [r, value]
  · rw [zero, value]
  · exact value.eq_6 c n t r zero

end LiteralUnit

open LiteralUnit

/-- The characters of the units, one unit after the other. -/
def spell (us : List LiteralUnit) : List Char := us.flatMap chars

theorem spell_plain {c : Char} (quote : c ≠ '"') (backslash : c ≠ '\\') (us : List LiteralUnit) :
    spell (.plain c quote backslash :: us) = c :: spell us := rfl

theorem spell_escape (c : Char) (us : List LiteralUnit) :
    spell (.escape c :: us) = '\\' :: c :: spell us := rfl

/-- Units that start with a plain character start with the unit of that character. -/
theorem spell_eq_cons {us : List LiteralUnit} {c : Char} {cs : List Char} (h : spell us = c :: cs)
    (backslash : c ≠ '\\') : ∃ quote vs, us = .plain c quote backslash :: vs ∧ cs = spell vs := by
  cases us with
  | nil => cases h
  | cons u vs =>
    cases u with
    | plain d quote _ =>
      obtain ⟨rfl, rfl⟩ := List.cons.inj h
      exact ⟨quote, vs, rfl, rfl⟩
    | escape d =>
      obtain ⟨rfl, _⟩ := List.cons.inj h
      exact absurd rfl backslash

/-- Units that start with a backslash start with the unit of the character after it. -/
theorem spell_eq_backslash_cons {us : List LiteralUnit} {cs : List Char}
    (h : spell us = '\\' :: cs) : ∃ c vs, us = .escape c :: vs ∧ cs = c :: spell vs := by
  cases us with
  | nil => cases h
  | cons u vs =>
    cases u with
    | plain d _ backslash =>
      obtain ⟨rfl, _⟩ := List.cons.inj h
      exact absurd rfl backslash
    | escape d =>
      obtain ⟨_, rfl⟩ := List.cons.inj h
      exact ⟨d, vs, rfl, rfl⟩

theorem spell_ne_backslash (us : List LiteralUnit) : spell us ≠ ['\\'] := by
  intro h
  obtain ⟨c, vs, _, nothing⟩ := spell_eq_backslash_cons h
  cases nothing

theorem exists_spell {b : List Char} (h : StringBody b) : ∃ us, spell us = b := by
  induction h with
  | nil => exact ⟨[], rfl⟩
  | @plain c cs quote backslash _ ih =>
    obtain ⟨us, rfl⟩ := ih
    exact ⟨.plain c quote backslash :: us, spell_plain quote backslash us⟩
  | @escape c cs _ ih =>
    obtain ⟨us, rfl⟩ := ih
    exact ⟨.escape c :: us, spell_escape c us⟩

theorem spell_injective {us vs : List LiteralUnit} (h : spell us = spell vs) : us = vs := by
  induction us generalizing vs with
  | nil =>
    cases vs with
    | nil => rfl
    | cons v vs => cases v <;> cases h
  | cons u us ih =>
    cases u with
    | plain c quote backslash =>
      obtain ⟨_, ws, rfl, rest⟩ := spell_eq_cons h.symm backslash
      rw [ih rest]
    | escape c =>
      obtain ⟨d, ws, rfl, rest⟩ := spell_eq_backslash_cons h.symm
      obtain ⟨rfl, tails⟩ := List.cons.inj rest
      rw [ih tails]

/-! ## The reader -/

/-- In the course of `unescapeChars cs`, `out` has been read and `rest` is left. -/
inductive Reads (cs : List Char) : List Char → List Char → Prop
  | start : Reads cs [] cs
  | plain {out rest : List Char} {c : Char} (sofar : Reads cs out (c :: rest))
      (backslash : c ≠ '\\') : Reads cs (out ++ [c]) rest
  | escape {out rest : List Char} {c : Char} (sofar : Reads cs out ('\\' :: c :: rest)) :
      Reads cs (out ++ [Text.escapeValue c]) rest

/-- At every state of the reader, its result is what has been read and the result for what is
left. -/
theorem Reads.unescapeChars_eq {cs out rest : List Char} (h : Reads cs out rest) :
    Text.unescapeChars cs = out ++ Text.unescapeChars rest := by
  induction h with
  | start => rfl
  | plain _ backslash ih =>
    rw [ih, Text.unescapeChars_plain backslash, List.append_assoc, List.singleton_append]
  | escape _ ih => rw [ih, Text.unescapeChars, List.append_assoc, List.singleton_append]

/-- The reader takes a unit in one step. -/
theorem Reads.unit {cs out : List Char} {u : LiteralUnit} {us : List LiteralUnit}
    (h : Reads cs out (spell (u :: us))) : Reads cs (out ++ [u.value]) (spell us) := by
  cases u with
  | plain c quote backslash => exact h.plain backslash
  | escape c =>
    rw [value_escape]
    exact h.escape

theorem Reads.units {cs out : List Char} {us vs : List LiteralUnit}
    (h : Reads cs out (spell (us ++ vs))) : Reads cs (out ++ us.map value) (spell vs) := by
  induction us generalizing out with
  | nil => rwa [List.map_nil, List.append_nil]
  | cons u us ih =>
    have after := ih h.unit
    rwa [List.append_assoc, List.singleton_append] at after

/-- The reader stops where a unit ends and nowhere else, and has then read what the units before
stand for. -/
theorem reads_spell_iff {us : List LiteralUnit} {out rest : List Char} :
    Reads (spell us) out rest ↔
      ∃ vs ws, us = vs ++ ws ∧ out = vs.map value ∧ rest = spell ws := by
  constructor
  · intro h
    induction h with
    | start => exact ⟨[], us, rfl, rfl, rfl⟩
    | @plain out rest c _ backslash ih =>
      obtain ⟨vs, ws, rfl, rfl, left⟩ := ih
      obtain ⟨quote, ws, rfl, rfl⟩ := spell_eq_cons left.symm backslash
      exact ⟨vs ++ [.plain c quote backslash], ws, by simp, by simp [value], rfl⟩
    | @escape out rest c _ ih =>
      obtain ⟨vs, ws, rfl, rfl, left⟩ := ih
      obtain ⟨_, ws, rfl, next⟩ := spell_eq_backslash_cons left.symm
      obtain ⟨rfl, rfl⟩ := List.cons.inj next
      exact ⟨vs ++ [.escape c], ws, by simp, by simp [value_escape], rfl⟩
  · rintro ⟨vs, ws, rfl, rfl, rfl⟩
    exact Reads.start.units

theorem unescapeChars_spell (us : List LiteralUnit) :
    Text.unescapeChars (spell us) = us.map value := by
  have done : Reads (spell us) (us.map value) (spell []) :=
    reads_spell_iff.2 ⟨us, [], (List.append_nil us).symm, rfl, rfl⟩
  rw [done.unescapeChars_eq]
  exact List.append_nil _

/-! ## String tokens -/

theorem Lexeme.body_of_string {next : Option Char} {l : List Char} (h : Lexeme next .string l) :
    ∃ b, StringBody b ∧ l = '"' :: b ++ ['"'] := by
  cases h with
  | @string b body => exact ⟨b, body, rfl⟩
  | mark mem _ =>
    exact absurd (by decide)
      (mark_no_literal .string (List.mem_append_left _ (List.mem_map_of_mem mem)))
  | pair mem =>
    exact absurd (by decide)
      (mark_no_literal .string (List.mem_append_right _ (List.mem_map_of_mem mem)))

end Lexical

open Lexical

/-- A string token of a source is a row of units between two quotes, in one way only. Its quotes are
found, and it stands for what its units stand for, borrowed exactly if there is no backslash among
them. The reader comes to the end of each unit and to no other place, so never to a backslash with
nothing after it. -/
theorem Token.string_decoded_by_units {s : String} {ts : List Token} (lexed : ofSource s = .ok ts)
    {t : Token} (mem : t ∈ ts) (kind : t.kind = .string) :
    ∃ b us, t.lexeme.toList = '"' :: b ++ ['"'] ∧
      spell us = b ∧ (∀ us', spell us' = b → us' = us) ∧
      unquote? t.lexeme.toList = some b ∧
      (∃ v, t.stringValue = some v ∧ v.content.toList = us.map LiteralUnit.value ∧
        (v.storage = .borrowed ↔ '\\' ∉ b)) ∧
      (∀ out rest, Reads b out rest ↔
        ∃ vs ws, us = vs ++ ws ∧ out = vs.map LiteralUnit.value ∧ rest = spell ws) ∧
      ∀ out, ¬ Reads b out ['\\'] := by
  obtain ⟨_, next, lexeme⟩ := lexeme_of_ofSource lexed t mem
  rw [kind] at lexeme
  obtain ⟨b, body, quoted⟩ := lexeme.body_of_string
  obtain ⟨us, rfl⟩ := exists_spell body
  have inside : (String.ofList (spell us)).toList = spell us := String.toList_ofList
  have value : t.stringValue = some (Text.unescape (String.ofList (spell us))) := by
    obtain ⟨l, k, p⟩ := t
    obtain rfl : k = .string := kind
    exact stringValue_quoted (by rw [inside]; exact quoted) p
  refine ⟨spell us, us, quoted, rfl, fun _ => spell_injective, ?_, ⟨_, value, ?_, ?_⟩,
    fun _ _ => reads_spell_iff, fun out reads => ?_⟩
  · rw [quoted, unquote?_quoted]
  · rw [Text.toList_unescape, inside, unescapeChars_spell]
  · rw [Text.storage_unescape_iff, inside]
  · obtain ⟨_, ws, _, _, dangling⟩ := reads_spell_iff.1 reads
    exact spell_ne_backslash ws dangling.symm

/-- A literal whose last quote but one is escaped, and whose closing quote comes after a backslash
that is escaped itself. -/
theorem Token.escaped_backslash_before_closing_quote :
    ofSource "+\"q\\\"\\\\\"" =
      .ok [⟨"+", .plus, ⟨1, 0⟩⟩, ⟨"\"q\\\"\\\\\"", .string, ⟨1, 1⟩⟩] ∧
    ∃ v, stringValue ⟨"\"q\\\"\\\\\"", .string, ⟨1, 1⟩⟩ = some v ∧
      v.content.toList = ['q', '"', '\\'] ∧ v.storage ≠ .borrowed := by
  have lexed : ofSource "+\"q\\\"\\\\\"" =
      .ok [⟨"+", .plus, ⟨1, 0⟩⟩, ⟨"\"q\\\"\\\\\"", .string, ⟨1, 1⟩⟩] := by decide +kernel
  obtain ⟨b, us, _, rfl, unique, unquoted, ⟨v, value, content, storage⟩, _⟩ :=
    string_decoded_by_units lexed (t := ⟨"\"q\\\"\\\\\"", .string, ⟨1, 1⟩⟩) (by decide) rfl
  have inside : spell [.plain 'q' (by decide) (by decide), .escape '"', .escape '\\'] =
      spell us := by
    rw [← Option.some.injEq, ← unquoted]
    decide
  obtain rfl := unique _ inside
  exact ⟨lexed, v, value, content, fun borrowed => storage.1 borrowed (by decide)⟩

end Ember
