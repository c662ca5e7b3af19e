import Ember.Report

/-!
# The command line

`Options.ofArgs` reads the arguments, and `Options.plan` says what they ask for: an answer that is
known at once, or a run of some source. `Request.respond` runs the source and gives what is
written to both streams and the exit code. `invoke` puts these together for an `Environment` that
says what can be read.
-/

namespace Ember

/-! ## Options -/

/-- An option without a value. -/
inductive Flag where
  | version
  | help
  | dump
deriving DecidableEq

namespace Flag

/-- The flag with a given letter. -/
def ofLetter? (c : Char) : Option Flag :=
  if c = 'v' then some .version
  else if c = 'h' then some .help
  else if c = 'd' then some .dump
  else none

/-- The flag with a given long name. -/
def ofName? (s : String) : Option Flag :=
  if s = "version" then some .version
  else if s = "help" then some .help
  else if s = "dump" then some .dump
  else none

end Flag

/-- An option with a value. -/
inductive Setting where
  | eval
  | output
deriving DecidableEq

namespace Setting

/-- The setting with a given letter. -/
def ofLetter? (c : Char) : Option Setting :=
  if c = 'e' then some .eval else if c = 'o' then some .output else none

/-- The setting with a given long name. -/
def ofName? (s : String) : Option Setting :=
  if s = "eval" then some .eval else if s = "output" then some .output else none

/-- The long name. -/
def name : Setting → String
  | eval => "eval"
  | output => "output"

end Setting

/-- What is wrong with the arguments. -/
inductive UsageError where
  | unknownOption (option : String)
  | missingValue (setting : Setting)
  /-- A flag is given a value. -/
  | unexpectedValue (option : String)
  | repeated (option : String)
  /-- A second script is given. -/
  | unexpectedArgument (arg : String)
  | emptyScript
deriving DecidableEq

/-- The error in words. -/
def UsageError.message : UsageError → String
  | unknownOption s => "unexpected argument '" ++ s ++ "'"
  | missingValue s => "a value is required for '--" ++ s.name ++ "'"
  | unexpectedValue s => "no value is expected for '--" ++ s ++ "'"
  | repeated s => "'--" ++ s ++ "' cannot be used multiple times"
  | unexpectedArgument s => "unexpected argument '" ++ s ++ "'"
  | emptyScript => "a script name is required"

/-- What the arguments say. -/
structure Options where
  version : Bool
  help : Bool
  dump : Bool
  eval? : Option String
  output? : Option String
  script? : Option String
deriving DecidableEq

namespace Options

/-- Nothing asked for. -/
def blank : Options := ⟨false, false, false, none, none, none⟩

/-- One more flag. -/
def setFlag (o : Options) : Flag → Except UsageError Options
  | .version => if o.version then .error (.repeated "version") else .ok { o with version := true }
  | .help => if o.help then .error (.repeated "help") else .ok { o with help := true }
  | .dump => if o.dump then .error (.repeated "dump") else .ok { o with dump := true }

/-- One more setting. -/
def setValue (o : Options) (s : Setting) (v : String) : Except UsageError Options :=
  match s with
  | .eval => if o.eval?.isSome then .error (.repeated s.name) else .ok { o with eval? := some v }
  | .output =>
    if o.output?.isSome then .error (.repeated s.name) else .ok { o with output? := some v }

/-- The script. -/
def setScript (o : Options) (path : String) : Except UsageError Options :=
  if path.isEmpty then .error .emptyScript
  else if o.script?.isSome then .error (.unexpectedArgument path)
  else .ok { o with script? := some path }

/-- What one option argument comes to. -/
inductive Progress where
  /-- It is complete. -/
  | done (options : Options)
  /-- It ends in a setting whose value is the next argument. -/
  | needsValue (setting : Setting) (options : Options)

/-- The letters after a single dash: flags, and at the end perhaps a setting with its value, after
an equals sign or directly. -/
def readLetters (o : Options) : List Char → Except UsageError Progress
  | [] => .ok (.done o)
  | c :: cs =>
    match Flag.ofLetter? c with
    | some f => do readLetters (← o.setFlag f) cs
    | none =>
      match Setting.ofLetter? c, cs with
      | none, _ => .error (.unknownOption (String.ofList ['-', c]))
      | some s, [] => .ok (.needsValue s o)
      | some s, '=' :: v => return .done (← o.setValue s (String.ofList v))
      | some s, v => return .done (← o.setValue s (String.ofList v))

/-- A long option: a name, and perhaps an equals sign and a value. -/
def readLong (o : Options) (cs : List Char) : Except UsageError Progress :=
  let name := String.ofList (cs.takeWhile (· ≠ '='))
  match Flag.ofName? name, Setting.ofName? name, cs.dropWhile (· ≠ '=') with
  | some f, _, [] => return .done (← o.setFlag f)
  | some _, _, _ :: _ => .error (.unexpectedValue name)
  | none, some s, [] => .ok (.needsValue s o)
  | none, some s, _ :: v => return .done (← o.setValue s (String.ofList v))
  | none, none, _ => .error (.unknownOption ("--" ++ name))

/-- Arguments none of which is an option. -/
def readScripts (o : Options) (args : List String) : Except UsageError Options :=
  args.foldlM setScript o

/-- Whether an argument is an option or the mark after which there are none. -/
def isOption (arg : String) : Bool :=
  match arg.toList with
  | '-' :: _ :: _ => true
  | _ => false

/-- One more argument that is an option. -/
def readOption (o : Options) (arg : String) : Except UsageError Progress :=
  match arg.toList with
  | '-' :: '-' :: cs => o.readLong cs
  | cs => o.readLetters cs.tail

/-- The arguments that follow, when `o` is what those before them say. -/
def readArgs (o : Options) : List String → Except UsageError Options
  | [] => .ok o
  | arg :: args =>
    if arg = "--" then o.readScripts args
    else if isOption arg then
      match o.readOption arg with
      | .error e => .error e
      | .ok (.done o') => readArgs o' args
      | .ok (.needsValue s o') =>
        match args with
        | [] => .error (.missingValue s)
        | v :: args' =>
          if isOption v then .error (.missingValue s)
          else
            match o'.setValue s v with
            | .error e => .error e
            | .ok o'' => readArgs o'' args'
    else
      match o.setScript arg with
      | .error e => .error e
      | .ok o' => readArgs o' args

/-- What the arguments say. -/
def ofArgs (args : List String) : Except UsageError Options := readArgs blank args

end Options

/-! ## Plans -/

/-- What is written to both streams, and the exit code. -/
structure Response where
  code : UInt8
  stdout : String
  stderr : String
deriving DecidableEq

/-- Where the source comes from. -/
inductive Origin where
  | inline (code : String)
  | file (path : String)
  | standardInput
deriving DecidableEq

/-- The name of the source in diagnostics. -/
def Origin.name : Origin → String
  | inline _ => inlineName
  | file path => path
  | standardInput => "<stdin>"

/-- A source to run, and how to report on it. -/
structure Request where
  origin : Origin
  dump : Bool
  mode : OutputMode
deriving DecidableEq

/-- What the arguments ask for. -/
inductive Plan where
  | answer (response : Response)
  | run (request : Request)
deriving DecidableEq

/-- The version of the program. -/
def versionNumber : String := "0.1.0"

/-- The help text. -/
def helpText : String := joinLines [
  "Ember " ++ versionNumber,
  "",
  "USAGE:",
  "    ember <SCRIPT>              Run a script file",
  "    ember -e <CODE>             Evaluate inline code",
  "    ember -d <SCRIPT>           Dump source, tokens and AST",
  "    ember -o <FORMAT>           Output format (text, json)",
  "    ember -h                    Show this help",
  "    cat file | ember            Read from stdin",
  "",
  "OPTIONS:",
  "    -e, --eval <CODE>       Evaluate inline code",
  "    -d, --dump              Print the source, token and AST dumps",
  "    -o, --output <FORMAT>   Output format: text (default), json",
  "    -h, --help              Show this help message",
  "    -v, --version           Display version information",
  "",
  "OUTPUT:",
  "    Text mode prints each `print` line, then the program value, on stdout.",
  "    Diagnostics go to stderr. The source, token and AST dumps are only",
  "    shown with -d/--dump.",
  "",
  "ENVIRONMENT:",
  "    EMBER_LOG               Log filter, e.g. debug or ember_lang=trace (default: warn)",
  "",
  "EXIT CODES:",
  "    0 success, 255 lexer error, 254 parser error, 253 interpreter error,",
  "    1 usage or I/O error"]

/-- The version on one line. -/
def versionText : String := joinLines ["ember " ++ versionNumber]

/-- Where the source comes from: code in the arguments goes before a script, and a script before
the standard input. -/
def Options.origin (o : Options) : Origin :=
  match o.eval?, o.script? with
  | some code, _ => .inline code
  | none, some path => .file path
  | none, none => .standardInput

/-- What the arguments ask for: help goes before the version, and the version before a run. -/
def Options.plan (o : Options) : Plan :=
  if o.help then .answer ⟨0, helpText, ""⟩
  else if o.version then .answer ⟨0, versionText, ""⟩
  else
    match OutputMode.parse o.output? with
    | .error m => .answer ⟨1, "", joinLines [m]⟩
    | .ok mode => .run ⟨o.origin, o.dump, mode⟩

/-! ## Runs -/

/-- Why there is no source. -/
inductive ReadFault where
  | absent
  | unreadable (reason : String)
deriving DecidableEq

/-- The fault in words. -/
def ReadFault.message : Origin → ReadFault → String
  | .file path, absent => "File not found: " ++ path
  | .file path, unreadable reason => "Error reading file " ++ path ++ ": " ++ reason
  | _, absent => "No input provided. Use: ember <SCRIPT>, ember -e <CODE>, or pipe to stdin"
  | _, unreadable reason => "Error reading from stdin: " ++ reason

/-- The text that bytes encode. -/
def decodeSource (bytes : ByteArray) : Except ReadFault String :=
  match String.fromUTF8? bytes with
  | some s => .ok s
  | none => .error (.unreadable "stream did not contain valid UTF-8")

/-- The text report on an outcome, after the dump. -/
def Outcome.textResponse (o : Outcome) (dump : String) : Response :=
  ⟨o.exitCode, dump ++ joinLines o.lines, joinLines (o.diagnostics.toList.map Diagnostic.red)⟩

/-- The JSON report on an outcome, after the dump. -/
def Outcome.jsonResponse (o : Outcome) (dump : String) : Response :=
  ⟨o.exitCode, dump ++ joinLines [o.json.text], ""⟩

/-- Runs a source and reports on it. -/
def Request.report (r : Request) (source : String) : Response :=
  let outcome := run r.origin.name source
  let dump := if r.dump then outcome.dump source else ""
  match r.mode with
  | .text => outcome.textResponse dump
  | .json => outcome.jsonResponse dump

/-- Runs the source, if it could be read, and reports on it. -/
def Request.respond (r : Request) (source : Except ReadFault String) : Response :=
  match source with
  | .error f => ⟨1, "", joinLines [f.message r.origin]⟩
  | .ok s => r.report s

/-! ## Invocations -/

/-- What can be read. -/
structure Environment where
  file : String → Except ReadFault ByteArray
  standardInput : Except ReadFault ByteArray

/-- The source of a request. -/
def Environment.source (env : Environment) : Origin → Except ReadFault String
  | .inline code => .ok code
  | .file path => (env.file path).bind decodeSource
  | .standardInput => env.standardInput.bind decodeSource

/-- The response to a list of arguments. -/
def invoke (env : Environment) (args : List String) : Except UsageError Response :=
  (Options.ofArgs args).map fun o =>
    match o.plan with
    | .answer r => r
    | .run r => r.respond (env.source r.origin)

end Ember
