import Ember.CommandLine

/-!
# The program

Reads what the plan asks for, writes the response, and exits with its code.
-/

namespace Ember

/-- The system's words for a fault, whose number may come negated; a path through something that is
not a directory leads nowhere. -/
def systemFault (code : UInt32) (details : String) : ReadFault :=
  let number := min code (0 - code)
  if number = 20 then .absent
  else .unreadable (details.capitalize ++ " (os error " ++ Nat.repr number.toNat ++ ")")

/-- The reason why reading fails. -/
def readFault : IO.Error → ReadFault
  | .noFileOrDirectory .. => .absent
  | .inappropriateType _ code details => systemFault code details
  | .permissionDenied _ code details => systemFault code details
  | .resourceExhausted _ code details => systemFault code details
  | .interrupted _ code details => systemFault code details
  | .invalidArgument _ code details => systemFault code details
  | .hardwareFault code details => systemFault code details
  | .otherError code details => systemFault code details
  | e => .unreadable (toString e)

/-- The bytes of a file. -/
def readFile (path : String) : IO (Except ReadFault ByteArray) := do
  try
    return .ok (← IO.FS.readBinFile path)
  catch e =>
    return .error (readFault e)

/-- The bytes of the standard input, which has to come from a file or another program. -/
def readStandardInput : IO (Except ReadFault ByteArray) := do
  let stdin ← IO.getStdin
  if ← stdin.isTty then
    return .error .absent
  try
    return .ok (← stdin.readBinToEnd)
  catch e =>
    return .error (readFault e)

/-- The source of a request. -/
def readSource : Origin → IO (Except ReadFault String)
  | .inline code => return .ok code
  | .file path => return (← readFile path).bind decodeSource
  | .standardInput => return (← readStandardInput).bind decodeSource

/-- Writes both streams. -/
def Response.write (r : Response) : IO UInt32 := do
  IO.print r.stdout
  IO.eprint r.stderr
  return r.code.toUInt32

end Ember

/-- Runs the program with its arguments. -/
def main (args : List String) : IO UInt32 := do
  match Ember.Options.ofArgs args with
  | .error e =>
    IO.eprintln ("error: " ++ e.message)
    return 2
  | .ok options =>
    match options.plan with
    | .answer r => r.write
    | .run r => (r.respond (← Ember.readSource r.origin)).write
