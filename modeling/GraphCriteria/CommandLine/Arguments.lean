/-!
# Command line arguments

The arguments name a request, and optionally an output path, the form of the answer and
how much is logged.  Options have long names, and letters that may be bundled; a value
follows its option, or is attached to it.  An option that is still waiting for its value
when the arguments end, or when another option comes, is a mistake.
-/

namespace GraphCriteria.CommandLine

/-- What the arguments ask for. -/
structure Arguments where
  request : String
  output : Option String := none
  asJson : Bool := false
  verbose : Nat := 0
  quiet : Nat := 0
deriving DecidableEq, Repr, Inhabited

/-- Why no request is compiled. -/
inductive Halt where
  /-- The arguments do not make sense. -/
  | usage
  | help
  | version
deriving DecidableEq, Repr

/-- The options that take a value. -/
inductive ValueOption where
  | request
  | output
deriving DecidableEq, Repr

/-- An option. -/
inductive Switch where
  | value (option : ValueOption)
  | json
  | verbose
  | quiet
  | help
  | version
deriving DecidableEq, Repr

/-- The option of a long name. -/
def Switch.ofName? : String → Option Switch
  | "request" => some (.value .request)
  | "output" => some (.value .output)
  | "json" => some .json
  | "verbose" => some .verbose
  | "quiet" => some .quiet
  | "help" => some .help
  | "version" => some .version
  | _ => none

/-- The option of a letter. -/
def Switch.ofLetter? : Char → Option Switch
  | 'r' => some (.value .request)
  | 'o' => some (.value .output)
  | 'v' => some .verbose
  | 'q' => some .quiet
  | 'h' => some .help
  | 'V' => some .version
  | _ => none

/-- What has been read of the arguments.  An option whose value has not come yet is
pending. -/
structure Progress where
  request : Option String := none
  output : Option String := none
  asJson : Bool := false
  verbose : Nat := 0
  quiet : Nat := 0
  pending : Option ValueOption := none
deriving DecidableEq, Repr, Inhabited

namespace Progress

/-- The greatest count of a repeated option. -/
def countLimit : Nat := 255

/-- Give an option its value.  No option takes two. -/
def setValue (progress : Progress) (option : ValueOption) (value : String) :
    Except Halt Progress :=
  match option with
  | .request =>
    if progress.request.isSome then .error .usage
    else .ok { progress with request := some value, pending := none }
  | .output =>
    if progress.output.isSome then .error .usage
    else .ok { progress with output := some value, pending := none }

/-- Apply an option without a value.  One that is pending does not get its value then. -/
def apply (progress : Progress) (switch : Switch) : Except Halt Progress :=
  if progress.pending.isSome then .error .usage
  else
    match switch with
    | .value option => .ok { progress with pending := some option }
    | .json => if progress.asJson then .error .usage else .ok { progress with asJson := true }
    | .verbose => .ok { progress with verbose := min countLimit (progress.verbose + 1) }
    | .quiet => .ok { progress with quiet := min countLimit (progress.quiet + 1) }
    | .help => .error .help
    | .version => .error .version

/-- Apply an option with an attached value. -/
def attach (progress : Progress) (switch : Switch) (value : String) : Except Halt Progress :=
  match progress.pending, switch with
  | none, .value option => progress.setValue option value
  | _, _ => .error .usage

/-- Read a long option after its two hyphens. -/
def readLong (progress : Progress) (cs : List Char) : Except Halt Progress :=
  let name := String.ofList (cs.takeWhile (· != '='))
  match Switch.ofName? name, cs.dropWhile (· != '=') with
  | none, _ => .error .usage
  | some switch, [] => progress.apply switch
  | some switch, _ :: value => progress.attach switch (String.ofList value)

/-- Read letters after one hyphen.  What follows the letter of an option with a value is
its value, after an equals sign or not. -/
def readLetters (progress : Progress) : List Char → Except Halt Progress
  | [] => .ok progress
  | c :: cs =>
    match Switch.ofLetter? c with
    | none => .error .usage
    | some (.value option) =>
      match cs with
      | [] => progress.apply (.value option)
      | '=' :: value => progress.attach (.value option) (String.ofList value)
      | value => progress.attach (.value option) (String.ofList value)
    | some switch =>
      match progress.apply switch with
      | .ok progress => progress.readLetters cs
      | .error halt => .error halt

/-- The arguments that have been read, if nothing is missing. -/
def finish (progress : Progress) : Except Halt Arguments :=
  match progress.pending, progress.request with
  | none, some request =>
    .ok { request, output := progress.output, asJson := progress.asJson,
          verbose := progress.verbose, quiet := progress.quiet }
  | _, _ => .error .usage

/-- Read one argument that is not the end of the options. -/
def readOne (progress : Progress) (arg : String) : Except Halt Progress :=
  match arg.toList with
  | '-' :: '-' :: name => progress.readLong name
  | '-' :: c :: letters => progress.readLetters (c :: letters)
  | _ =>
    match progress.pending with
    | some option => progress.setValue option arg
    | none => .error .usage

/-- Read arguments in order.  Two hyphens end the options, and nothing may follow. -/
def readAll (progress : Progress) : List String → Except Halt Arguments
  | [] => progress.finish
  | arg :: args =>
    if arg = "--" then
      if args = [] then progress.finish else .error .usage
    else
      match progress.readOne arg with
      | .ok progress => progress.readAll args
      | .error halt => .error halt

end Progress

/-- Read the arguments of a run. -/
def Arguments.read (args : List String) : Except Halt Arguments :=
  Progress.readAll {} args

end GraphCriteria.CommandLine
