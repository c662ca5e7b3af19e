/-!
# Positions in a source

A position is a line and a column. Lines count from one; the column counts the characters that
stand before the position on its line. `Position.advance` is the only way a position moves, so the
position of any character is the fold of `advance` over the characters before it.
-/

namespace Ember

/-- A place in a source: a line, counted from one, and a column, counted from zero. -/
structure Position where
  /-- The line, the first being one. -/
  line : UInt32
  /-- How many characters stand before this place on its line. -/
  column : UInt32
deriving DecidableEq

namespace Position

/-- The place of the first character. -/
def start : Position := ⟨1, 0⟩

instance : Inhabited Position := ⟨start⟩

/-- The place after one more character: a line feed opens a line, a carriage return goes back to
column zero, and any other character takes one column. -/
def advance (p : Position) (c : Char) : Position :=
  if c = '\n' then ⟨p.line + 1, 0⟩
  else if c = '\r' then ⟨p.line, 0⟩
  else ⟨p.line, p.column + 1⟩

/-- The place after a run of characters. -/
def advanceAll (p : Position) (cs : List Char) : Position := cs.foldl advance p

@[simp]
theorem advanceAll_nil (p : Position) : p.advanceAll [] = p := rfl

@[simp]
theorem advanceAll_cons (p : Position) (c : Char) (cs : List Char) :
    p.advanceAll (c :: cs) = (p.advance c).advanceAll cs := rfl

theorem advanceAll_append (p : Position) (cs ds : List Char) :
    p.advanceAll (cs ++ ds) = (p.advanceAll cs).advanceAll ds :=
  List.foldl_append

/-- Reading order: by line, then by column. -/
protected def compare (p q : Position) : Ordering :=
  (Ord.compare p.line q.line).then (Ord.compare p.column q.column)

instance : Ord Position := ⟨Position.compare⟩

/-- A position is written `line:column`. -/
def text (p : Position) : String :=
  Nat.repr p.line.toNat ++ ":" ++ Nat.repr p.column.toNat

end Position

end Ember
