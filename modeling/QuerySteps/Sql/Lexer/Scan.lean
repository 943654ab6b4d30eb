import QuerySteps.Sql.Lexer.Number
import QuerySteps.Sql.Lexer.Quoted

/-!
# Lexing

A query text as its lexemes. Every step takes one token, one blank or one comment off the input; a
constant, a quoted name or a comment that is never closed makes the whole text unreadable.
-/

namespace QuerySteps.Sql

open QuerySteps.Text (isBlank isLetter)

namespace Lexeme

/-- A step of lexing: the token taken, if it is not a blank or a comment, and the rest. -/
abbrev Scanned := Option (Option Token × List Char)

def found (token : Token) (rest : List Char) : Scanned :=
  some (some token, rest)

def scanWord (d : Dialect) (start : List Char) (input : List Char) : Scanned :=
  let (more, rest) := input.span d.continuesWord
  found (.word (String.ofList (start ++ more)) none) rest

def scanQuoted (form : QuotedForm) (q : Char) (backslash : Bool) (input : List Char) : Scanned :=
  match Quoted.read q backslash input with
  | some (text, rest) => found (.quoted form (String.ofList text)) rest
  | none => none

def skipLine (d : Dialect) (input : List Char) : List Char :=
  (input.dropWhile fun c => c != '\n' && !(d == .postgres && c == '\r')).drop 1

def scanComment (d : Dialect) (input : List Char) : Scanned :=
  (Quoted.skipComment d.hasNestedComments 0 input).map (none, ·)

/-- Whether two dashes before the input open a comment. -/
def dashesComment (d : Dialect) (input : List Char) : Bool :=
  if d == .mysql then (input.head?.map isBlank).getD false else true

/-- What a dollar sign before the input introduces: a string between dollar signs with an optional
tag, or a value given later. -/
def scanDollar (d : Dialect) (input : List Char) : Scanned :=
  let isTagChar (c : Char) : Bool :=
    isLetter c || c.isDigit || c == '_' || (c == '$' && !d.hasDollarStrings)
  match d.hasDollarStrings, input.span isTagChar with
  | true, (tag, '$' :: rest) =>
    match Quoted.readUntil ('$' :: tag ++ ['$']) rest with
    | some (text, rest) =>
      found (.quoted (.foreign "DollarQuotedString") (String.ofList text)) rest
    | none => none
  | _, (_, rest) => found .placeholder rest

/-- The operator or other sign at the start of the input, if it begins with one. -/
def scanSign (d : Dialect) (input : List Char) : Scanned :=
  let fits (text : String) : Bool := text.toList.isPrefixOf input
  match Dialect.openOperators.find? fits with
  | some text =>
    let rest := input.drop text.length
    if d.hasCustomOperators then
      match rest.span Dialect.isOperatorChar with
      | ([], _) => found (.sign text) rest
      | (more, rest) => found (.operator (text ++ String.ofList more)) rest
    else found (.sign text) rest
  | none =>
    match d.closedOperators.find? fits with
    | some text => found (.sign text) (input.drop text.length)
    | none => none

def scanSharp (d : Dialect) (input : List Char) : Scanned :=
  if d == .mysql then some (none, skipLine d input)
  else
    match input with
    | [] | ' ' :: _ | '-' :: _ | '>' :: _ => scanSign d ('#' :: input)
    | c :: rest =>
      if d.opensWord '#' then scanWord d ['#', c] rest else scanSign d ('#' :: input)

def scanAt (d : Dialect) (input : List Char) : Scanned :=
  match input with
  | '@' :: c :: rest =>
    if c != ' ' && d.opensWord '@' then scanWord d ['@', '@', c] rest
    else found (.sign "@@") (c :: rest)
  | [] | '@' :: _ | '>' :: _ | '?' :: _ => scanSign d ('@' :: input)
  | c :: rest =>
    if d.opensWord '@' && !(c ∈ [' ', '\'', '"', '\x60']) then scanWord d ['@', c] rest
    else found (.sign "@") (c :: rest)

/-- The string with a letter as its mark, or the word that begins with this letter. -/
def scanMarked (d : Dialect) (letter : Char) (input : List Char) : Scanned :=
  match letter.toUpper, input with
  | 'N', '\'' :: rest => scanQuoted .national '\'' d.hasBackslashEscapes rest
  | 'X', '\'' :: rest => scanQuoted (.foreign "HexStringLiteral") '\'' true rest
  | 'B', '\'' :: rest =>
    if d.hasByteStrings then
      scanQuoted (.foreign "SingleQuotedByteStringLiteral") '\'' false rest
    else scanWord d [letter] input
  | 'B', '"' :: rest =>
    if d.hasByteStrings then
      scanQuoted (.foreign "DoubleQuotedByteStringLiteral") '"' false rest
    else scanWord d [letter] input
  | 'R', '\'' :: rest =>
    if d == .generic then scanQuoted (.foreign "SingleQuotedRawStringLiteral") '\'' false rest
    else scanWord d [letter] input
  | 'R', '"' :: rest =>
    if d == .generic then scanQuoted (.foreign "DoubleQuotedRawStringLiteral") '"' false rest
    else scanWord d [letter] input
  | 'E', '\'' :: rest =>
    if d.hasEscapeStrings then
      match Quoted.readEscapes (rest.length + 1) rest with
      | some (text, rest) => found (.quoted .escaped (String.ofList text)) rest
      | none => none
    else scanWord d [letter] input
  | 'U', '&' :: '\'' :: rest =>
    if d.hasUnicodeStrings then
      scanQuoted (.foreign "UnicodeStringLiteral") '\'' false rest
    else scanWord d [letter] input
  | _, _ => scanWord d [letter] input

/-- Takes the first token, blank or comment off an input that is not empty. -/
def scan (d : Dialect) (previous : Option Token) (c : Char) (rest : List Char) : Scanned :=
  if c ∈ [' ', '\t', '\n', '\r'] then some (none, rest)
  else if c ∈ ['b', 'B', 'r', 'R', 'n', 'N', 'e', 'E', 'u', 'U', 'x', 'X'] then
    scanMarked d c rest
  else if c == '\'' then scanQuoted .single '\'' d.hasBackslashEscapes rest
  else if c == '"' && (d.closingQuote? c).isNone then
    scanQuoted .double '"' d.hasBackslashEscapes rest
  else
    match d.closingQuote? c with
    | some q =>
      match Quoted.read q false rest with
      | some (text, rest) => found (.word (String.ofList text) (some c)) rest
      | none => none
    | none =>
      if c.isDigit || c == '.' then
        (Number.scan d previous (c :: rest)).map fun (t, rest) => (some t, rest)
      else
        match c, rest with
        | '-', '-' :: after =>
          if dashesComment d after then some (none, skipLine d after) else scanSign d (c :: rest)
        | '/', '*' :: after => scanComment d after
        | '#', _ => scanSharp d rest
        | '@', _ => scanAt d rest
        | '?', _ =>
          if d == .postgres then scanSign d (c :: rest)
          else found .placeholder (rest.dropWhile Char.isDigit)
        | _, _ =>
          match scanSign d (c :: rest) with
          | some r => some r
          | none =>
            if d.opensWord c then scanWord d [c] rest
            else if c == '$' then scanDollar d rest
            else if isBlank c then some (none, rest)
            else found (.sign (String.singleton c)) rest

/-- The lexemes of an input; `previous` stands right before it and `afterBlank` tells whether a
blank does. The bound has to exceed the length of the input. -/
def scanAll (d : Dialect) : Nat → Option Token → Bool → List Char → Option (List Lexeme)
  | 0, _, _, _ => none
  | _ + 1, _, _, [] => some []
  | bound + 1, previous, afterBlank, c :: rest =>
    match scan d previous c rest with
    | none => none
    | some (none, rest) => scanAll d bound none true rest
    | some (some token, rest) =>
      (scanAll d bound (some token) false rest).map (⟨token, token.keyword, afterBlank⟩ :: ·)

def ofText (d : Dialect) (text : String) : Option (List Lexeme) :=
  let input := text.toList
  scanAll d (input.length + 1) none true input

end Lexeme

end QuerySteps.Sql
