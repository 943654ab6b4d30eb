import QuerySteps.Sql.Dialect
import QuerySteps.Text.Blank
import QuerySteps.Text.Letter

/-!
# Characters of words and operators

Which characters may open and continue an unquoted word, in each dialect, and which operators the
dialects know. Operators are listed with the longer ones first.
-/

namespace QuerySteps.Sql.Dialect

open QuerySteps.Text (isLetter isAscii)

def opensWord : Dialect → Char → Bool
  | generic, c => isLetter c || c == '_' || c == '#' || c == '@'
  | sqlite, c => c.isAlpha || c == '_' || (0x7F ≤ c.toNat && c.toNat ≤ 0xFFFF)
  | mysql, c => isLetter c || c == '_' || c == '$' || c == '@' || !isAscii c
  | postgres, c => isLetter c || c == '_' || !isAscii c

def continuesWord (d : Dialect) (c : Char) : Bool :=
  d.opensWord c || c.isDigit ||
    match d with
    | generic => c == '$'
    | postgres => c == '$'
    | _ => false

/-- The closing quote of a name that is opened by the character, if it opens one. -/
def closingQuote? (d : Dialect) (c : Char) : Option Char :=
  match c with
  | '"' => if d == mysql then none else some '"'
  | '\x60' => if d == postgres then none else some '\x60'
  | '[' => if d == sqlite then some ']' else none
  | _ => none

def hasBackslashEscapes (d : Dialect) : Bool :=
  d == mysql

/-- Whether there are strings with the mark `E`. -/
def hasEscapeStrings (d : Dialect) : Bool :=
  d == generic || d == postgres

/-- Whether there are strings with the mark `U&`. -/
def hasUnicodeStrings (d : Dialect) : Bool :=
  d == generic || d == postgres

/-- Whether there are strings with the mark `B`. -/
def hasByteStrings (d : Dialect) : Bool :=
  d != sqlite

def hasNestedComments (d : Dialect) : Bool :=
  d == generic || d == postgres

def hasDigitSeparators (d : Dialect) : Bool :=
  d == postgres

def hasNumericWords (d : Dialect) : Bool :=
  d == mysql

/-- Whether dollar signs mark strings, rather than values given later. -/
def hasDollarStrings (d : Dialect) : Bool :=
  d != sqlite

/-- Whether operators may be made up from operator characters. -/
def hasCustomOperators (d : Dialect) : Bool :=
  d == postgres

/-- Whether a made-up operator may hold the character. -/
def isOperatorChar (c : Char) : Bool :=
  c ∈ ['+', '-', '*', '/', '<', '>', '=', '~', '!', '@', '#', '%', '^', '&', '|', '\x60', '?']

/-- Operators that other operator characters may extend. -/
def openOperators : List String :=
  ["->>", "||/", "<=>", "~~*", "#>>", "->", "||", "|/", "<=", "<>", "<<", "<@", ">=", ">>", "&&",
    "~~", "~*", "#>", "#-", "-", "%", "|", "<", ">", "&", "~", "#"]

/-- Operators and other signs that end where they end. -/
def closedOperators (d : Dialect) : List String :=
  ["!~~*", "!~~", "!~*", "=>", "==", "!=", "!!", "!~", "::", ":=", "^@", "@>", "@?", "@@"] ++
    (if d == generic then ["//"] else []) ++
    (if d == postgres then ["?|", "?&"] else []) ++
    ["+", "*", "/", "=", "!", ":", "^", "@", "(", ")", ",", ";", "\\", "[", "]", "\x7b", "\x7d"] ++
    (if d == postgres then ["?"] else [])

end QuerySteps.Sql.Dialect
