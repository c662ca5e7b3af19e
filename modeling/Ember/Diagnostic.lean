import Ember.Position

/-!
# Diagnostics

A failure belongs to one of three phases. `Diagnostics` collects failures for one file in three
slots, one for each phase, which is found by the phase's index. Within a slot they stand in the order
in which they were recorded, and they are listed slot by slot.
-/

namespace Ember

/-- A phase of running a source. -/
inductive Phase where
  | lex
  | parse
  | interpret
deriving DecidableEq

namespace Phase

/-- The phases in the order in which they run. -/
def all : List Phase := [.lex, .parse, .interpret]

/-- The name of the phase in diagnostics. -/
def label : Phase → String
  | lex => "LEXER"
  | parse => "PARSER"
  | interpret => "INTERPRETER"

/-- The label in lower case. -/
def lowerLabel (p : Phase) : String := p.label.toLower

/-- The phase with a given label. -/
def ofLabel? (l : String) : Option Phase := all.find? (fun p => p.label = l)

/-- The exit code of a run that fails in this phase. -/
def exitCode : Phase → UInt8
  | lex => 255
  | parse => 254
  | interpret => 253

/-- The slot of the phase among the slots of a collector. -/
def index : Phase → Fin 3
  | lex => 0
  | parse => 1
  | interpret => 2

end Phase

/-- A failure in some phase, in words. -/
structure Failure where
  phase : Phase
  message : String
  position : Position
deriving DecidableEq

namespace Failure

/-- The name of the kind of failure. -/
def kind (e : Failure) : String :=
  match e.phase with
  | .lex => "LexError"
  | .parse => "ParseError"
  | .interpret => "RuntimeError"

/-- The failure on one line. -/
def text (e : Failure) : String :=
  e.kind ++ " at " ++ e.position.text ++ ": " ++ e.message

end Failure

/-- A failure in a file. -/
structure Diagnostic where
  phase : Phase
  file : String
  position : Position
  message : String
deriving DecidableEq

/-- The diagnostic on one line. -/
def Diagnostic.text (d : Diagnostic) : String :=
  "[" ++ d.phase.label ++ " ERROR]: " ++ d.file ++ " (" ++ d.position.text ++ "): " ++ d.message

/-- The failures recorded for one file, by phase. -/
structure Diagnostics where
  file : String
  /-- The failures of each phase, in the slot at its index. -/
  phases : Vector (List Diagnostic) 3
deriving DecidableEq

namespace Diagnostics

/-- Nothing recorded for a file yet. -/
def new (file : String) : Diagnostics := ⟨file, .replicate 3 []⟩

instance : Inhabited Diagnostics := ⟨new ""⟩

/-- The failures of one phase, the oldest first. -/
def forPhase (ds : Diagnostics) (phase : Phase) : List Diagnostic := ds.phases[phase.index]

/-- Records a failure. -/
def push (ds : Diagnostics) (phase : Phase) (position : Position) (message : String) :
    Diagnostics :=
  let d : Diagnostic := ⟨phase, ds.file, position, message⟩
  { ds with phases := ds.phases.set phase.index (ds.phases[phase.index] ++ [d]) }

/-- Records a failure that is given as an error. -/
def record (ds : Diagnostics) (e : Failure) : Diagnostics :=
  ds.push e.phase e.position e.message

/-- Whether a phase has failures. -/
def hasErrors (ds : Diagnostics) (phase : Phase) : Bool := !ds.phases[phase.index].isEmpty

/-- The first phase with failures. -/
def firstFailed? (ds : Diagnostics) : Option Phase := Phase.all.find? ds.hasErrors

/-- All failures, slot by slot. -/
def toList (ds : Diagnostics) : List Diagnostic := ds.phases.toList.flatten

/-- How many failures there are in all slots. -/
def size (ds : Diagnostics) : Nat := ds.phases.foldl (fun n slot => n + slot.length) 0

/-- Whether there is no failure. -/
def isEmpty (ds : Diagnostics) : Bool := ds.size = 0

@[simp]
theorem firstFailed?_new (file : String) : (new file).firstFailed? = none := rfl

@[simp]
theorem isEmpty_new (file : String) : (new file).isEmpty = true := rfl

@[simp]
theorem toList_record_new (file : String) (e : Failure) :
    ((new file).record e).toList = [⟨e.phase, file, e.position, e.message⟩] := by
  obtain ⟨phase, message, position⟩ := e
  cases phase <;> rfl

@[simp]
theorem firstFailed?_record_new (file : String) (e : Failure) :
    ((new file).record e).firstFailed? = some e.phase := by
  obtain ⟨phase, message, position⟩ := e
  cases phase <;> rfl

end Diagnostics

end Ember
