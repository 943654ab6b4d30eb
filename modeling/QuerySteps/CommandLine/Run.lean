import QuerySteps.CommandLine.Arguments
import QuerySteps.Plan.Render
import QuerySteps.Planner

/-!
# Runs

What the command prints and how it ends, as a function of its arguments and of what surrounds it.
Faults are looked for in the order arguments, environment, source of the query, planning. The exit
code is 1 for a bad environment or an unreadable source and 2 for bad arguments or an impossible
plan.
-/

namespace QuerySteps.CommandLine

/-- Why the source of a query cannot be read. -/
inductive SourceError where
  | missing
  | other (reason : String)
  deriving Repr, DecidableEq

def SourceError.message : SourceError → String
  | missing => "Failed to read query: No such file or directory (os error 2)"
  | other reason => "Failed to read query: " ++ reason

/-- What surrounds a run. -/
structure World where
  env : Settings.Environment
  file : String → Except SourceError String
  /-- What stands on standard input. -/
  input : Except SourceError String

/-- How a run ends: its exit code and what it prints. -/
structure Outcome where
  code : UInt8 := 0
  output : String := ""
  errors : String := ""
  deriving Repr, DecidableEq

namespace Outcome

def failure (code : UInt8) (message : String) : Outcome :=
  { code, errors := "ERROR: " ++ message ++ "\n" }

def success (text : String) : Outcome :=
  { output := text ++ "\n" }

end Outcome

inductive Source where
  | given (text : String)
  | file (path : String)
  | input
  deriving Repr, DecidableEq

def Source.read (world : World) : Source → Except SourceError String
  | given text => pure text
  | file path => world.file path
  | input => world.input

namespace Arguments

/-- Where the arguments say that the query comes from. -/
def source (a : Arguments) : Source :=
  match a.query, a.file with
  | some text, _ => .given text
  | none, some path => .file path
  | none, none => .input

/-- The settings that the arguments make of those of the environment. -/
def apply (a : Arguments) (s : Settings) : Settings where
  caseSensitive := a.caseSensitive.getD s.caseSensitive
  quoteNames := a.quoteNames || s.quoteNames
  dialect := a.dialect.getD s.dialect
  simplify := !a.keepChecks && s.simplify
  sink := a.sink.getD s.sink
  prologue := s.prologue ++ a.prologue
  interlude := a.interlude <|> s.interlude

end Arguments

def versionText : String :=
  "nlplan 0.1.0"

def usage : String :=
  "\n".intercalate
    ["Translate a SQL query into numbered natural-language steps",
      "",
      "Usage: nlplan [OPTIONS] [QUERY]",
      "",
      "Without QUERY and --file the query is read from standard input.",
      "",
      "Options:",
      "  -f, --file PATH            Read the query from a file",
      "      --case-sensitive BOOL  Preserve identifier case (true) or fold to lowercase (false)",
      "      --quote-identifiers    Single-quote every identifier",
      "      --dialect DIALECT      SQL dialect: generic, sqlite, mysql, postgres",
      "      --no-simplify          Keep single-use checks as separate steps",
      "      --sink SINK            Destination named in the final step",
      "      --prologue STEP        Step placed before the query steps (repeatable)",
      "      --intersperse STEP     Instruction inserted after every step",
      "      --offset N             Number the first step N + 1",
      "      --prefix TEXT          Text before every output line",
      "  -h, --help                 Print help",
      "  -V, --version              Print version"]

/-- The plan for the text of a query, as it is printed. -/
def planText (settings : Settings) (text : String) (offset : Nat) (marker : String) :
    Except PlanError String := do
  let planner : Planner := { settings }
  let sheet ← planner.plan text
  sheet.plan.format marker offset

def runPlan (world : World) (a : Arguments) (offset : Nat) (marker : String) : Outcome :=
  match Settings.ofEnvironment world.env with
  | .error e => .failure 1 e.message
  | .ok settings =>
    match a.source.read world with
    | .error e => .failure 1 e.message
    | .ok text =>
      match planText (a.apply settings) text offset marker with
      | .error e => .failure 2 e.message
      | .ok lines => .success lines

/-- Runs the command. -/
def run (world : World) (arguments : List String) : Outcome :=
  match Request.ofArguments world.env arguments with
  | .error e => { code := 2, errors := e.message ++ "\n" }
  | .ok .version => .success versionText
  | .ok .help => .success usage
  | .ok (.plan a offset marker) => runPlan world a offset marker

end QuerySteps.CommandLine
