/-!
# JSON

The JSON values that reports are made of, and their text: no blanks, fields in the order given,
and in strings only quotes, backslashes and control characters are escaped.
-/

namespace Ember

/-- A JSON value. -/
inductive Json where
  | number (n : Nat)
  | string (s : String)
  | array (items : List Json)
  | object (fields : List (String × Json))

namespace Json

/-- A hexadecimal digit in lower case. -/
def hexDigit (n : Nat) : Char := Nat.digitChar (n % 16)

/-- How a character is written in a string: some control characters have a letter of their own,
the others below a blank are written in hexadecimal, and the rest stand for themselves. -/
def escapeChar (c : Char) : List Char :=
  if c = '"' then ['\\', '"']
  else if c = '\\' then ['\\', '\\']
  else if c = '\x08' then ['\\', 'b']
  else if c = '\t' then ['\\', 't']
  else if c = '\n' then ['\\', 'n']
  else if c = '\x0c' then ['\\', 'f']
  else if c = '\r' then ['\\', 'r']
  else if c.toNat < 32 then
    ['\\', 'u', '0', '0', hexDigit (c.toNat / 16), hexDigit c.toNat]
  else [c]

/-- A string in quotes. -/
def quote (s : String) : List Char := '"' :: s.toList.flatMap escapeChar ++ ['"']

mutual

/-- The characters of a value. -/
def chars : Json → List Char
  | number n => Nat.toDigits 10 n
  | string s => quote s
  | array items => '[' :: itemChars items ++ [']']
  | object fields => '\x7b' :: fieldChars fields ++ ['\x7d']

/-- The characters of values with commas between them. -/
def itemChars : List Json → List Char
  | [] => []
  | [v] => v.chars
  | v :: w :: vs => v.chars ++ ',' :: itemChars (w :: vs)

/-- The characters of named values with commas between them. -/
def fieldChars : List (String × Json) → List Char
  | [] => []
  | [(k, v)] => quote k ++ ':' :: v.chars
  | (k, v) :: f :: fs => quote k ++ ':' :: v.chars ++ ',' :: fieldChars (f :: fs)

end

/-- The text of a value. -/
def text (v : Json) : String := String.ofList v.chars

end Json

end Ember
