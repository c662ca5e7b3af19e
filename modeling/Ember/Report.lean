import Ember.Json
import Ember.Outcome

/-!
# Reports on an outcome

An outcome is reported as text, for people, or as one JSON object. The dump shows the source, and
the tokens and statements that were reached.
-/

namespace Ember

/-- How an outcome is reported. -/
inductive OutputMode where
  /-- Printed lines and the value, and failures apart in red. -/
  | text
  /-- One JSON object. -/
  | json
deriving DecidableEq

namespace OutputMode

/-- The name of the mode. -/
def name : OutputMode → String
  | text => "text"
  | json => "json"

/-- What is said of a format that there is not. -/
def invalidFormat (format : String) : String :=
  "Invalid output format: '" ++ format ++ "'. Use: text, json"

/-- The mode of a given name, text if none is given. -/
def parse : Option String → Except String OutputMode
  | none => .ok .text
  | some s =>
    if s = "text" then .ok .text
    else if s = "json" then .ok .json
    else .error (invalidFormat s)

end OutputMode

/-- A diagnostic in red. -/
def Diagnostic.red (d : Diagnostic) : String := "\x1b[31m" ++ d.text ++ "\x1b[0m"

/-- A diagnostic as a JSON object. -/
def Diagnostic.json (d : Diagnostic) : Json :=
  .object [
    ("phase", .string d.phase.lowerLabel),
    ("file", .string d.file),
    ("line", .number d.position.line.toNat),
    ("column", .number d.position.column.toNat),
    ("message", .string d.message)]

/-- Lines, each with a line feed after it. -/
def joinLines (lines : List String) : String := String.join (lines.map (· ++ "\n"))

@[simp]
theorem joinLines_nil : joinLines [] = "" := rfl

theorem joinLines_cons (l : String) (ls : List String) :
    joinLines (l :: ls) = l ++ "\n" ++ joinLines ls := by
  rw [joinLines, List.map_cons, String.join_cons]
  rfl

theorem joinLines_append (ls ms : List String) :
    joinLines (ls ++ ms) = joinLines ls ++ joinLines ms := by
  induction ls with
  | nil => rw [List.nil_append, joinLines_nil, String.empty_append]
  | cons l ls ih => rw [List.cons_append, joinLines_cons, joinLines_cons, ih, ← String.append_assoc]

namespace Outcome

/-- A successful outcome as a JSON object. -/
def resultJson (o : Outcome) : Json :=
  .object [
    ("type", .string "result"),
    ("value", .string (o.value.getD default).text),
    ("printed", .array (o.printed.map .string))]

/-- A failed outcome as a JSON object. -/
def errorJson (o : Outcome) : Json :=
  .object [
    ("type", .string "error"),
    ("phase", .string ((o.failedPhase?.map Phase.lowerLabel).getD "")),
    ("exit_code", .number o.exitCode.toNat),
    ("printed", .array (o.printed.map .string)),
    ("diagnostics", .array (o.diagnostics.toList.map Diagnostic.json))]

/-- The outcome as a JSON object. -/
def json (o : Outcome) : Json := if o.isSuccess then o.resultJson else o.errorJson

/-- The lines of the text report: what was printed, and the value if nothing failed. -/
def lines (o : Outcome) : List String :=
  o.printed ++ if o.isSuccess then (o.value.map Number.text).toList else []

/-- The source, the tokens and the statements under a heading each, as far as they were
reached. -/
def dump (source : String) (o : Outcome) : String :=
  "== source ==\n" ++ source ++ (if source.toList.getLast? = some '\n' then "" else "\n")
    ++ (match o.tokens with
      | some ts => "== tokens ==\n" ++ joinLines (ts.map Token.dump)
      | none => "")
    ++ (match o.program with
      | some p => "== ast ==\n" ++ joinLines (p.statements.map Stmt.text)
      | none => "")

end Outcome

end Ember
