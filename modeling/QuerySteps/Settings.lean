import QuerySteps.Sql.Dialect
import QuerySteps.Text.Blank

/-!
# Settings

What a planner can be told: how names are shown, which dialect to read, whether to simplify, and
which texts surround the steps. Settings can be taken from environment variables; a variable that
is unset leaves the default, and the first invalid one is an error.
-/

namespace QuerySteps

structure Settings where
  /-- Keep the case of names, or else fold them to lower case. -/
  caseSensitive : Bool := true
  /-- Show every name between quotes, not only those quoted in the query. -/
  quoteNames : Bool := false
  dialect : Sql.Dialect := .generic
  /-- Simplify finished plans. -/
  simplify : Bool := true
  /-- The destination named by the last step. -/
  sink : String := "'result.csv'"
  /-- Steps before those of the query. -/
  prologue : List String := []
  /-- A step after every other one. -/
  interlude : Option String := none
  deriving Repr, DecidableEq

/-- An environment variable with a value that is not allowed. -/
structure SettingsError where
  variableName : String
  value : String
  expected : String
  deriving Repr, DecidableEq

def SettingsError.message (e : SettingsError) : String :=
  "Invalid value '" ++ e.value ++ "' for " ++ e.variableName ++ ": expected " ++ e.expected

namespace Settings

/-- The values of environment variables; an unset variable has none. -/
abbrev Environment := String → Option String

/-- The truth value that a word stands for, whatever its case and the blanks around it. -/
def truthValue? (word : String) : Option Bool :=
  let word := (String.ofList (Text.trim word.toList)).toLower
  if ["1", "true", "yes", "on"].contains word then some true
  else if ["0", "false", "no", "off"].contains word then some false
  else none

/-- The truth value of a variable, or `default` if it is unset. -/
def readFlag (env : Environment) (variableName : String) (default : Bool) :
    Except SettingsError Bool :=
  match env variableName with
  | none => pure default
  | some value =>
    match truthValue? value with
    | some b => pure b
    | none => throw ⟨variableName, value, "a boolean"⟩

def readDialect (env : Environment) (variableName : String) (default : Sql.Dialect) :
    Except SettingsError Sql.Dialect :=
  match env variableName with
  | none => pure default
  | some value =>
    match Sql.Dialect.ofName value with
    | .ok d => pure d
    | .error _ => throw ⟨variableName, value, "one of generic, sqlite, mysql, postgres"⟩

def unlessBlank (value : String) : Option String :=
  if (Text.trim value.toList).isEmpty then none else some value

/-- The settings that the environment asks for. -/
def ofEnvironment (env : Environment) : Except SettingsError Settings := do
  let defaults : Settings := {}
  let caseSensitive ← readFlag env "NLPLAN_CASE_SENSITIVE" defaults.caseSensitive
  let quoteNames ← readFlag env "NLPLAN_QUOTE_IDENTIFIERS" defaults.quoteNames
  let simplify ← readFlag env "NLPLAN_SIMPLIFY" defaults.simplify
  let dialect ← readDialect env "NLPLAN_DIALECT" defaults.dialect
  let sink := (env "NLPLAN_OUTPUT_SINK").getD defaults.sink
  let interlude := (env "NLPLAN_INTERSPERSE").bind unlessBlank
  pure { defaults with caseSensitive, quoteNames, simplify, dialect, sink, interlude }

end Settings

end QuerySteps
