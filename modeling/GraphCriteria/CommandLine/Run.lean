import GraphCriteria.CommandLine.Arguments
import GraphCriteria.CommandLine.Files
import GraphCriteria.Request.Reader
import GraphCriteria.Text.ControlSequence

/-!
# Runs of the command line

A run compiles one request, given as a text or by the path of a file, and prints the
fragment or writes it to a file.  Nothing is written unless the request compiles.  How
much is logged changes nothing else.
-/

namespace GraphCriteria.CommandLine

/-! ## Reports -/

/-- What a run leaves behind besides files. -/
structure Report where
  exitCode : Nat
  stdout : String := ""
  stderr : String := ""
deriving DecidableEq, Repr

/-- The name and the version of the program. -/
def versionText : String := "sparql-condition 0.1\n"

/-- How the program is called. -/
def helpText : String :=
  "Compiles entity field conditions into SPARQL WHERE fragments\n\n" ++
  "Usage: sparql-condition [OPTIONS] --request <REQUEST>\n\n" ++
  "Options:\n" ++
  "  -r, --request <REQUEST>  JSON compile request or path to a .json file\n" ++
  "  -o, --output <FILE>      Write the result to FILE instead of stdout\n" ++
  "      --json               " ++
  "Print the fragment together with the resolved field mappings as JSON\n" ++
  "  -v, --verbose...         Increase logging verbosity\n" ++
  "  -q, --quiet...           Decrease logging verbosity\n" ++
  "  -h, --help               Print help\n" ++
  "  -V, --version            Print version\n"

/-- The report of a run that compiles nothing. -/
def Halt.report : Halt → Report
  | usage => { exitCode := 2 }
  | help => { exitCode := 0, stdout := helpText }
  | version => { exitCode := 0, stdout := versionText }

/-! ## Logging -/

/-- The least important level that is logged.  Warnings are, and each count moves the
level by one. -/
def Arguments.level (args : Arguments) : Level :=
  match 1 + args.verbose - args.quiet with
  | 0 => .error
  | 1 => .warn
  | 2 => .info
  | 3 => .debug
  | _ => .trace

/-- The name of a level, filled up to the width of the longest. -/
def levelName (level : Level) : String :=
  level.name ++ String.ofList (List.replicate (5 - level.name.length) ' ')

/-- A message with its further lines indented. -/
def indented (message : String) : List Char :=
  message.toList.flatMap fun c => if c = '\n' then "\n    ".toList else [c]

/-- The printed form of a log line, which is plain text. -/
def printed (line : LogLine) : String :=
  let header := "[" ++ levelName line.level ++ "] "
  String.ofList
    (Text.ControlSequence.plain (header.toList ++ indented line.message ++ ['\n']))

/-- The printed form of the lines that are important enough. -/
def printedLog (level : Level) (log : List LogLine) : String :=
  String.join ((log.filter fun line => line.level.rank ≤ level.rank).map printed)

/-! ## Runs -/

/-- The report of a run that fails with an error, shown in its diagnostic form. -/
def failure (level : Level) (log : List LogLine) (diagnostic : String) : Report where
  exitCode := 1
  stderr := printedLog level log ++ "Error: " ++ diagnostic ++ "\n"

/-- The answer to a request: its fragment, or all of its output. -/
def Arguments.answer (args : Arguments) (output : CompileOutput) : String :=
  if args.asJson then output.json.pretty else output.fragment

/-- The line that reports a compiled request. -/
def compiledLine (output : CompileOutput) : LogLine :=
  ⟨.info, "Compiled conditions for entity type '" ++ output.entityType ++ "' (" ++
    toString output.fieldMappings.size ++ " fields mapped)"⟩

/-- The line that reports a written file. -/
def wroteLine (path : String) : LogLine :=
  ⟨.info, "Wrote " ++ path⟩

section

variable {m : Type → Type} [Monad m]

/-- The text of a request: the contents of the file that it names, or else itself. -/
def requestText (access : FileAccess m) (request : String) : m (Except FileError String) := do
  if ← access.pathExists request then access.readFile request
  else pure (.ok request)

/-- Deliver an answer on standard output or in a file. -/
def deliver (access : FileAccess m) (args : Arguments) (log : List LogLine) (answer : String) :
    m Report := do
  match args.output with
  | none =>
    pure { exitCode := 0, stdout := answer ++ "\n", stderr := printedLog args.level log }
  | some path =>
    match ← access.writeFile path answer with
    | .error e => pure (failure args.level log e.diagnostic)
    | .ok () =>
      pure { exitCode := 0, stderr := printedLog args.level (log ++ [wroteLine path]) }

/-- Compile the request of some arguments and deliver the answer. -/
def Arguments.run (access : FileAccess m) (args : Arguments) : m Report := do
  match ← requestText access args.request with
  | .error e => pure (failure args.level [] e.diagnostic)
  | .ok text =>
    match compileText text [] with
    | (.error e, trace) => pure (failure args.level trace.log e.diagnostic)
    | (.ok output, trace) =>
      deliver access args (trace.log ++ [compiledLine output]) (args.answer output)

/-- Run the program on its arguments. -/
def run (access : FileAccess m) (args : List String) : m Report := do
  match Arguments.read args with
  | .error halt => pure halt.report
  | .ok args => args.run access

end

end GraphCriteria.CommandLine
