import Ember.Text

/-!
# Escapes

Inside double quotes a quote, a backslash and four control characters are written as a backslash
and one letter. `escape` writes a text so, and `unescape` reads it back: after a backslash every
character without a meaning of its own stands for itself.
-/

namespace Ember.Text

/-- The letter that stands for `c` after a backslash, if `c` has to be escaped. -/
def escapeLetter? (c : Char) : Option Char :=
  if c = '"' then some '"'
  else if c = '\\' then some '\\'
  else if c = '\n' then some 'n'
  else if c = '\r' then some 'r'
  else if c = '\t' then some 't'
  else if c = '\x00' then some '0'
  else none

/-- The character that a letter stands for after a backslash. -/
def escapeValue (c : Char) : Char :=
  if c = 'n' then '\n'
  else if c = 't' then '\t'
  else if c = 'r' then '\r'
  else if c = '0' then '\x00'
  else c

/-- How one character is written between quotes. -/
def escapeChar (c : Char) : List Char :=
  match escapeLetter? c with
  | some l => ['\\', l]
  | none => [c]

/-- How a run of characters is written between quotes. -/
def escapeChars (cs : List Char) : List Char := cs.flatMap escapeChar

/-- What a run of characters between quotes stands for; a backslash at the very end is kept. -/
def unescapeChars : List Char → List Char
  | [] => []
  | ['\\'] => ['\\']
  | '\\' :: c :: cs => escapeValue c :: unescapeChars cs
  | c :: cs => c :: unescapeChars cs

/-- A string as it is written between quotes; it is borrowed when nothing has to be escaped. -/
def escape (s : String) : Text :=
  if s.toList.any (fun c => (escapeLetter? c).isSome) then
    owned (String.ofList (escapeChars s.toList))
  else
    borrowed s

/-- What is written between quotes; it is borrowed when there is no backslash. -/
def unescape (s : String) : Text :=
  if s.toList.contains '\\' then
    owned (String.ofList (unescapeChars s.toList))
  else
    borrowed s

end Ember.Text
