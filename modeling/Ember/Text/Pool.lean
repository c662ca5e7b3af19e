import Ember.Text

/-!
# Pools of texts

A pool is a list of texts numbered from zero. A `Construction` names one more text, made from
scratch or from texts that are in the pool already.
-/

namespace Ember.Text

/-- The texts made so far, the first one at index zero. -/
abbrev Pool := List Text

/-- One way to make a text; numbers are indices into the pool. -/
inductive Construction where
  | owned (s : String)
  | borrowed (s : String)
  | concat (a b : Nat)
  /-- A text as it is, held the same way. -/
  | clone (a : Nat)
  /-- A text in a copy of its own. -/
  | detach (a : Nat)
deriving DecidableEq

namespace Pool

/-- The text that a construction makes, if the pool has all that it names. -/
def make? (pool : Pool) : Construction → Option Text
  | .owned s => some (.owned s)
  | .borrowed s => some (.borrowed s)
  | .concat a b => do return (← pool[a]?).concat (← pool[b]?)
  | .clone a => pool[a]?
  | .detach a => pool[a]?.map Text.detach

/-- The pool after a construction. -/
def grow (pool : Pool) (c : Construction) : Pool := pool ++ (pool.make? c).toList

/-- The pool that a list of constructions makes from nothing. -/
def build (cs : List Construction) : Pool := cs.foldl grow []

/-- How many different texts there are. -/
def distinct (pool : Pool) : Nat := pool.eraseDups.length

/-- The contents in order. -/
def sorted (pool : Pool) : List String := (pool.mergeSort Text.le).map Text.content

end Pool

end Ember.Text
