import GraphCriteria.CommandLine.Run

/-!
# The program

The outer layer of the command line: it gives a run access to the files of the system,
prints what the run reports and exits with its code.
-/

namespace GraphCriteria.CommandLine

/-- The error of the system as an error of a run. -/
def FileError.ofSystem : IO.Error → FileError
  | .noFileOrDirectory .. => .notFound
  | .alreadyExists .. => .alreadyExists
  | .inappropriateType _ code _ => if code = 20 then .notADirectory else .isADirectory
  | e => .other 0 "Other" (toString e)

/-- An action of the system, its error being an outcome. -/
def attempt {α : Type} (action : IO α) : IO (Except FileError α) := do
  match ← action.toBaseIO with
  | .ok a => pure (.ok a)
  | .error e => pure (.error (.ofSystem e))

/-- Access to the files of the system. -/
def systemAccess : FileAccess IO where
  pathExists path := do
    if path = "" then pure false
    else
      let place ← IO.FS.realPath path
      place.pathExists
  readFile path := attempt (IO.FS.readFile path)
  writeFile path contents := attempt do
    let place ← IO.FS.realPath path
    match place.parent with
    | some parent => if path = "" then pure () else IO.FS.createDirAll parent
    | none => pure ()
    IO.FS.writeFile path contents

end GraphCriteria.CommandLine

open GraphCriteria.CommandLine in
/-- Run the program. -/
def main (args : List String) : IO UInt32 := do
  let report ← run systemAccess args
  IO.print report.stdout
  IO.eprint report.stderr
  pure report.exitCode.toUInt32
