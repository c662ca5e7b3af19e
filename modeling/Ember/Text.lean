/-!
# Texts

A text is a string together with the way it is held: it owns its characters or borrows them from
the source it was cut from. Nothing but `isOwned` depends on how a text is held: size, bytes,
equality, order and hash are those of the content.
-/

namespace Ember

/-- How a text is held. -/
inductive Storage where
  /-- The text has its own copy of its characters. -/
  | owned
  /-- The text is a part of a longer-lived source. -/
  | borrowed
deriving DecidableEq

/-- A string and the way it is held. -/
structure Text where
  content : String
  storage : Storage

namespace Text

/-- A text with its own copy of `s`. -/
def owned (s : String) : Text := ⟨s, .owned⟩

/-- A text that borrows `s`. -/
def borrowed (s : String) : Text := ⟨s, .borrowed⟩

/-- Whether the text has its own copy of its characters. -/
def isOwned (t : Text) : Bool := t.storage = .owned

/-- The UTF-8 bytes of the content. -/
def bytes (t : Text) : List UInt8 := t.content.toUTF8.data.toList

/-- The number of UTF-8 bytes. -/
def size (t : Text) : Nat := t.bytes.length

/-- Whether there is no character at all. -/
def isEmpty (t : Text) : Bool := t.bytes.isEmpty

/-- The byte at index `i`, if there is one. -/
def byte? (t : Text) (i : Nat) : Option UInt8 := t.bytes[i]?

/-- What is reported when the byte at index `i` is asked for and there is none. -/
def outOfBounds (t : Text) (i : Nat) : String :=
  "string index " ++ Nat.repr i ++ " out of bounds for length " ++ Nat.repr t.size

/-- Both contents in a row, in a copy of their own. -/
def concat (t u : Text) : Text := owned (t.content ++ u.content)

/-- The same content in a copy of its own. -/
def detach (t : Text) : Text := owned t.content

/-- Two texts are equal when their contents are. -/
instance : BEq Text := ⟨fun t u => t.content == u.content⟩

/-- Equal contents have equal hashes, however they are held. -/
instance : Hashable Text := ⟨fun t => hash t.content⟩

/-- The order of texts is that of their bytes, the first difference deciding. -/
protected def compare (t u : Text) : Ordering := List.compareLex Ord.compare t.bytes u.bytes

instance : Ord Text := ⟨Text.compare⟩

/-- Whether `t` is not after `u`. -/
def le (t u : Text) : Bool := (t.compare u).isLE

end Text

end Ember
