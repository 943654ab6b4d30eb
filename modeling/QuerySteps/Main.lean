import QuerySteps.CommandLine.Run

/-!
# The command

Reads the environment and the source of the query, runs the command line and prints the outcome.
-/

namespace QuerySteps

open CommandLine

/-- The environment variables that the command looks at, with their values. -/
def readEnvironment : IO Settings.Environment := do
  let names := ["NLPLAN_CASE_SENSITIVE", "NLPLAN_QUOTE_IDENTIFIERS", "NLPLAN_SIMPLIFY",
    "NLPLAN_DIALECT", "NLPLAN_OUTPUT_SINK", "NLPLAN_INTERSPERSE", "NLPLAN_OFFSET", "NLPLAN_PREFIX"]
  let mut pairs : List (String × String) := []
  for key in names do
    if let some value ← IO.getEnv key then
      pairs := (key, value) :: pairs
  pure fun key => pairs.lookup key

def sourceError : IO.Error → SourceError
  | .noFileOrDirectory .. => .missing
  | .permissionDenied _ code details | .inappropriateType _ code details =>
    .other (details ++ " (os error " ++ toString code.toNat ++ ")")
  | e => .other (toString e)

/-- What an action reads, or why it fails. -/
def reading (action : IO String) : IO (Except SourceError String) := do
  match ← action.toBaseIO with
  | .ok text => pure (.ok text)
  | .error e => pure (.error (sourceError e))

/-- Standard input up to its end. -/
partial def readInput (input : IO.FS.Stream) (before : String) : IO String := do
  let line ← input.getLine
  if line.isEmpty then pure before else readInput input (before ++ line)

/-- What surrounds the run; the source of the query is read only if the run needs it. -/
def readWorld (arguments : List String) : IO World := do
  let env ← readEnvironment
  let unread : Except SourceError String := .error .missing
  let world : World := { env, file := fun _ => unread, input := unread }
  match Request.ofArguments env arguments, Settings.ofEnvironment env with
  | .ok (.plan a _ _), .ok _ =>
    match a.source with
    | .given _ => pure world
    | .file path =>
      let content ← reading (IO.FS.readFile path)
      pure { world with file := fun _ => content }
    | .input =>
      let content ← reading (do readInput (← IO.getStdin) "")
      pure { world with input := content }
  | _, _ => pure world

end QuerySteps

def main (arguments : List String) : IO UInt32 := do
  let world ← QuerySteps.readWorld arguments
  let outcome := QuerySteps.CommandLine.run world arguments
  IO.print outcome.output
  IO.eprint outcome.errors
  pure outcome.code.toUInt32
