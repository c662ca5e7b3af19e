import Ember.CommandLine

/-!
# A working directory

A `FileTree` has the files and directories below a working directory. Paths are followed one name
at a time: a step leads on from a directory only, `.` and an empty name stay, and `..` goes up.
What lies above the working directory can be passed through, but nothing is found there.
-/

namespace Ember

/-- What a path leads to. -/
inductive Entry where
  | file (bytes : ByteArray)
  | directory

/-- The entries below a working directory, each with the names that lead to it. -/
structure FileTree where
  /-- Files and directories; the directories on the way to them are there too. -/
  entries : List (List String × Entry)

namespace FileTree

/-- A place on the way along a path. -/
inductive Place where
  /-- Below the working directory, or the working directory itself. -/
  | inside (names : List String)
  /-- Somewhere above it. -/
  | above

/-- The entry that names lead to from the working directory. -/
def entry? (t : FileTree) (names : List String) : Option Entry :=
  match t.entries.find? (fun e => e.1 = names) with
  | some e => some e.2
  | none =>
    if names = [] ∨ t.entries.any (fun e => names.isPrefixOf e.1) then some .directory else none

/-- What a place holds. -/
def at? (t : FileTree) : Place → Option Entry
  | .inside names => t.entry? names
  | .above => some .directory

/-- One name further along a path. -/
def step? (t : FileTree) (p : Place) (name : String) : Option Place :=
  match t.at? p with
  | some .directory =>
    if name = "" ∨ name = "." then some p
    else
      match p with
      | .above => if name = ".." then some .above else none
      | .inside names =>
        if name = ".." then (if names = [] then some .above else some (.inside names.dropLast))
        else some (.inside (names ++ [name]))
  | _ => none

/-- The names of a path. -/
def names (path : String) : List String := path.splitOn "/"

/-- The entry that a path leads to. -/
def find? (t : FileTree) (path : String) : Option Entry := do
  let start := if path.toList.head? = some '/' then .above else .inside []
  let place ← (names path).foldlM t.step? start
  t.at? place

/-- The bytes of the file that a path leads to. -/
def read (t : FileTree) (path : String) : Except ReadFault ByteArray :=
  match t.find? path with
  | none => .error .absent
  | some .directory => .error (.unreadable "Is a directory (os error 21)")
  | some (.file bytes) => .ok bytes

/-- The environment with these files and a given standard input. -/
def environment (t : FileTree) (standardInput : ByteArray) : Environment :=
  ⟨t.read, .ok standardInput⟩

end FileTree

end Ember
