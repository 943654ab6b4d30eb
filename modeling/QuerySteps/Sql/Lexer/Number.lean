import QuerySteps.Sql.Lexer.Chars
import QuerySteps.Sql.Token

/-!
# Numbers

A number is digits with an optional point and an optional exponent, and it keeps its text. Right
after a word a point belongs to a qualified name where words may begin with digits; there, too,
digits that run on into word characters are a word.
-/

namespace QuerySteps.Sql.Number

open QuerySteps.Sql

def isHexDigit (c : Char) : Bool :=
  c.isDigit || ('a' ≤ c && c ≤ 'f') || ('A' ≤ c && c ≤ 'F')

/-- The digits at the start of the input, with separators where the dialect has them. A separator
stands before a further digit. -/
def spanDigits (d : Dialect) (isDigit : Char → Bool) : List Char → List Char × List Char
  | [] => ([], [])
  | ['_'] => ([], ['_'])
  | '_' :: c :: rest =>
    if d.hasDigitSeparators && isHexDigit c then
      let (digits, rest) := spanDigits d isDigit (c :: rest)
      ('_' :: digits, rest)
    else ([], '_' :: c :: rest)
  | c :: rest =>
    if isDigit c then
      let (digits, rest) := spanDigits d isDigit rest
      (c :: digits, rest)
    else ([], c :: rest)

/-- The exponent at the start of the input; empty if no digit follows its mark. -/
def spanExponent : List Char → List Char × List Char
  | e :: c :: rest =>
    if e == 'e' || e == 'E' then
      if c.isDigit then
        let (digits, after) := (c :: rest).span Char.isDigit
        (e :: digits, after)
      else if c == '+' || c == '-' then
        match rest.span Char.isDigit with
        | ([], _) => ([], e :: c :: rest)
        | (digits, after) => (e :: c :: digits, after)
      else ([], e :: c :: rest)
    else ([], e :: c :: rest)
  | rest => ([], rest)

def dropLongMark : List Char → List Char
  | 'L' :: rest => rest
  | rest => rest

/-- The number that a text and an exponent make up, or the word that they begin. The mark of an
exponent keeps digits from beginning a word, even if the exponent is not one. -/
def finish (d : Dialect) (previous : Option Token) (mantissa : List Char) (rest : List Char) :
    Token × List Char :=
  let hasMark := rest.head? == some 'e' || rest.head? == some 'E'
  let (exponent, rest) := spanExponent rest
  let text := mantissa ++ exponent
  let number := (Token.number (String.ofList text), dropLongMark rest)
  if d.hasNumericWords then
    if !hasMark then
      match rest.span d.continuesWord with
      | ([], _) => number
      | (more, after) => (.word (String.ofList (text ++ more)) none, after)
    else if previous == some (.sign ".") then (.word (String.ofList text) none, rest)
    else number
  else number

def scan (d : Dialect) (previous : Option Token) (input : List Char) :
    Option (Token × List Char) :=
  let afterWord := (previous.map Token.isWord).getD false
  match input with
  | '.' :: '_' :: rest => if afterWord then some (.sign ".", '_' :: rest) else none
  | _ =>
    let (whole, rest) := spanDigits d Char.isDigit input
    match whole, rest with
    | ['0'], 'x' :: rest =>
      let (digits, rest) := spanDigits d isHexDigit rest
      some (.quoted (.foreign "HexStringLiteral") (String.ofList digits), rest)
    | [], '.' :: rest =>
      if d.hasNumericWords && afterWord then some (.sign ".", rest)
      else
        match spanDigits d Char.isDigit rest with
        | ([], rest) => some (.sign ".", rest)
        | (fraction, rest) => some (finish d previous ('.' :: fraction) rest)
    | whole, '.' :: rest =>
      let (fraction, rest) := spanDigits d Char.isDigit rest
      some (finish d previous (whole ++ '.' :: fraction) rest)
    | whole, rest => some (finish d previous whole rest)

end QuerySteps.Sql.Number
