import QuerySteps.Settings

/-!
# Arguments

What the command line asks for. Arguments are taken from left to right, and the first faulty one
decides the error; a request for the version or for help ends the reading. The offset and the line
marker may also come from the environment, which counts only where their options are absent.
-/

namespace QuerySteps.CommandLine

/-- What the options and the query on the command line say. -/
structure Arguments where
  query : Option String := none
  file : Option String := none
  caseSensitive : Option Bool := none
  quoteNames : Bool := false
  dialect : Option Sql.Dialect := none
  /-- Do not simplify the plan. -/
  keepChecks : Bool := false
  sink : Option String := none
  prologue : List String := []
  interlude : Option String := none
  offset : Option Nat := none
  /-- What stands before every line. -/
  marker : Option String := none
  deriving Repr, DecidableEq

inductive ArgumentError where
  | unknown (argument : String)
  | missingValue (option : String)
  | strayValue (option : String)
  | invalidValue (option value : String)
  | repeated (option : String)
  /-- A second query. -/
  | surplus (argument : String)
  /-- Both a file and a query. -/
  | conflict
  deriving Repr, DecidableEq

def ArgumentError.message : ArgumentError → String
  | unknown argument => "error: unknown argument '" ++ argument ++ "'"
  | missingValue option => "error: option '" ++ option ++ "' needs a value"
  | strayValue option => "error: option '" ++ option ++ "' takes no value"
  | invalidValue option value => "error: invalid value '" ++ value ++ "' for '" ++ option ++ "'"
  | repeated option => "error: option '" ++ option ++ "' given more than once"
  | surplus argument => "error: unexpected argument '" ++ argument ++ "'"
  | conflict => "error: a file and a query exclude each other"

/-- What the command line asks for. -/
inductive Request where
  | version
  | help
  /-- Plan a query, number the steps from one above the offset, and put the marker before every
  line. -/
  | plan (arguments : Arguments) (offset : Nat) (marker : String)
  deriving Repr, DecidableEq

/-- Options with a value. -/
inductive Setting where
  | file | caseSensitive | dialect | sink | prologue | interlude | offset | marker
  deriving Repr, DecidableEq

namespace Setting

def spelling : Setting → String
  | file => "--file"
  | caseSensitive => "--case-sensitive"
  | dialect => "--dialect"
  | sink => "--sink"
  | prologue => "--prologue"
  | interlude => "--intersperse"
  | offset => "--offset"
  | marker => "--prefix"

def all : List Setting :=
  [file, caseSensitive, dialect, sink, prologue, interlude, offset, marker]

def ofSpelling? (text : String) : Option Setting :=
  all.find? (·.spelling == text)

end Setting

/-- The number below 2^64 that a text of digits, perhaps after a plus sign, stands for. -/
def readOffset? (text : String) : Option Nat :=
  let digits :=
    match text.toList with
    | '+' :: digits => digits
    | digits => digits
  if digits.isEmpty || !digits.all Char.isDigit then none
  else
    let n := digits.foldl (fun n c => 10 * n + (c.toNat - '0'.toNat)) 0
    if n < UInt64.size then some n else none

namespace Arguments

def once {α : Type} (s : Setting) (before : Option α) (value : Option α) (text : String) :
    Except ArgumentError (Option α) :=
  match before, value with
  | some _, _ => .error (.repeated s.spelling)
  | none, none => .error (.invalidValue s.spelling text)
  | none, some a => pure (some a)

def assign (a : Arguments) (s : Setting) (text : String) : Except ArgumentError Arguments :=
  match s with
  | .file => do
    let file ← once s a.file (if text.isEmpty then none else some text) text
    pure { a with file }
  | .caseSensitive => do
    let value := [("true", true), ("false", false)].lookup text
    let caseSensitive ← once s a.caseSensitive value text
    pure { a with caseSensitive }
  | .dialect => do
    let dialect ← once s a.dialect (Sql.Dialect.ofName text).toOption text
    pure { a with dialect }
  | .sink => do
    let sink ← once s a.sink (some text) text
    pure { a with sink }
  | .prologue => pure { a with prologue := a.prologue ++ [text] }
  | .interlude => do
    let interlude ← once s a.interlude (some text) text
    pure { a with interlude }
  | .offset => do
    let offset ← once s a.offset (readOffset? text) text
    pure { a with offset }
  | .marker => do
    let marker ← once s a.marker (some text) text
    pure { a with marker }

def takeQuery (a : Arguments) (text : String) : Except ArgumentError Arguments :=
  match a.query with
  | some _ => .error (.surplus text)
  | none => pure { a with query := some text }

/-- Takes all arguments as queries, of which there may be one. -/
def takeQueries (a : Arguments) : List String → Except ArgumentError Arguments
  | [] => pure a
  | text :: rest => do
    let a ← a.takeQuery text
    a.takeQueries rest

/-- The request once all arguments are taken. An offset or a marker that no option gives comes from
the environment. -/
def complete (a : Arguments) (env : Settings.Environment) : Except ArgumentError Request := do
  let a ←
    match a.offset, env "NLPLAN_OFFSET" with
    | none, some text => a.assign .offset text
    | _, _ => pure a
  let marker := a.marker <|> env "NLPLAN_PREFIX"
  if a.file.isSome && a.query.isSome then .error .conflict
  else pure (.plan a (a.offset.getD 0) (marker.getD ""))

end Arguments

/-- The forms of an argument. -/
inductive Shape where
  /-- Two dashes: all that follow are queries. -/
  | separator
  /-- A long option with the value attached to it. -/
  | long (option : String) (value : Option String)
  /-- A letter after a dash and what is attached to it. -/
  | short (letter : Char) (attached : List Char)
  | word
  deriving Repr, DecidableEq

def Shape.of (argument : String) : Shape :=
  match argument.toList with
  | ['-', '-'] => separator
  | '-' :: '-' :: text =>
    match text.span (· != '=') with
    | (name, '=' :: value) => long (String.ofList ('-' :: '-' :: name)) (some (String.ofList value))
    | _ => long argument none
  | '-' :: letter :: attached => short letter attached
  | _ => word

namespace Request

/-- Reads the arguments after those that are taken already. -/
def readFrom (env : Settings.Environment) (a : Arguments) : List String →
    Except ArgumentError Request
  | [] => a.complete env
  | argument :: rest =>
    /- An option takes the argument behind it, unless that looks like an option itself. -/
    let assignNext (s : Setting) : Except ArgumentError Request :=
      match rest with
      | text :: rest =>
        if Shape.of text == .word then
          match a.assign s text with
          | .ok a => readFrom env a rest
          | .error e => .error e
        else .error (.missingValue s.spelling)
      | [] => .error (.missingValue s.spelling)
    let goOn (a : Except ArgumentError Arguments) : Except ArgumentError Request :=
      match a with
      | .ok a => readFrom env a rest
      | .error e => .error e
    match Shape.of argument with
    | .separator =>
      match a.takeQueries rest with
      | .ok a => a.complete env
      | .error e => .error e
    | .word => goOn (a.takeQuery argument)
    | .short 'V' _ => pure version
    | .short 'h' _ => pure help
    | .short 'f' [] => assignNext .file
    | .short 'f' ('=' :: text) | .short 'f' text => goOn (a.assign .file (String.ofList text))
    | .short _ _ => .error (.unknown argument)
    | .long option value =>
      match Setting.ofSpelling? option, value with
      | some s, some text => goOn (a.assign s text)
      | some s, none => assignNext s
      | none, some _ =>
        if ["--version", "--help", "--quote-identifiers", "--no-simplify"].contains option then
          .error (.strayValue option)
        else .error (.unknown argument)
      | none, none =>
        match option with
        | "--version" => pure version
        | "--help" => pure help
        | "--quote-identifiers" =>
          if a.quoteNames then .error (.repeated option)
          else readFrom env { a with quoteNames := true } rest
        | "--no-simplify" =>
          if a.keepChecks then .error (.repeated option)
          else readFrom env { a with keepChecks := true } rest
        | _ => .error (.unknown argument)

/-- What the arguments ask for. -/
def ofArguments (env : Settings.Environment) (arguments : List String) :
    Except ArgumentError Request :=
  readFrom env {} arguments

end Request

end QuerySteps.CommandLine
