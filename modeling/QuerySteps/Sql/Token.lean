/-!
# Tokens

The words, constants and signs of a query text. A lexeme is a token with what the grammar needs to
know about its surroundings and its spelling.
-/

namespace QuerySteps.Sql

/-- How a constant between quotes is marked. -/
inductive QuotedForm where
  | single | double | national | escaped
  /-- A form whose constants have no counterpart, by its name. -/
  | foreign (name : String)
  deriving Repr, DecidableEq

inductive Token where
  /-- A name or a keyword; a quoted name keeps its opening quote. -/
  | word (text : String) (quote : Option Char)
  | number (text : String)
  | quoted (form : QuotedForm) (value : String)
  /-- A mark for a value that is given later. -/
  | placeholder
  | sign (text : String)
  /-- An operator made up from operator characters. -/
  | operator (text : String)
  deriving Repr, DecidableEq

namespace Token

def isWord : Token → Bool
  | word .. => true
  | _ => false

/-- The text with ASCII letters, and the few other letters whose capitals are ASCII, in capitals. -/
def capitals (text : String) : String :=
  String.join (text.toList.map fun c =>
    match c with
    | 'ı' => "I"
    | 'ſ' => "S"
    | 'ß' => "SS"
    | 'ﬀ' => "FF"
    | 'ﬁ' => "FI"
    | 'ﬂ' => "FL"
    | 'ﬃ' => "FFI"
    | 'ﬄ' => "FFL"
    | 'ﬅ' | 'ﬆ' => "ST"
    | c => c.toUpper.toString)

/-- The keyword that the token may be read as: an unquoted word in capitals. -/
def keyword : Token → String
  | word text none => capitals text
  | _ => ""

end Token

/-- A token in its place. -/
structure Lexeme where
  token : Token
  /-- The token as a keyword; empty if it can be none. -/
  keyword : String
  /-- Whether a blank or a comment stands before the token. -/
  afterBlank : Bool
  deriving Repr, DecidableEq

end QuerySteps.Sql
