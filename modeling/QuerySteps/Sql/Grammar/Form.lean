import QuerySteps.Sql.Grammar.Call

/-!
# Special forms

Expressions that a keyword opens and that have a shape of their own. Each parser starts behind the
keyword. Where such a form has no counterpart among queries, it is read for where it ends.
-/

namespace QuerySteps.Sql.Grammar

open QuerySteps.Sql.Parser

def dateParts : List String :=
  ["YEAR", "YEARS", "MONTH", "MONTHS", "WEEK", "WEEKS", "DAY", "DAYS", "DAYOFWEEK", "DAYOFYEAR",
    "DATE", "DATETIME", "HOUR", "HOURS", "MINUTE", "MINUTES", "SECOND", "SECONDS", "CENTURY",
    "DECADE", "DOW", "DOY", "EPOCH", "ISODOW", "ISOWEEK", "ISOYEAR", "JULIAN", "MICROSECOND",
    "MICROSECONDS", "MILLENIUM", "MILLENNIUM", "MILLISECOND", "MILLISECONDS", "NANOSECOND",
    "NANOSECONDS", "QUARTER", "TIME", "TIMEZONE", "TIMEZONE_ABBR", "TIMEZONE_HOUR",
    "TIMEZONE_MINUTE", "TIMEZONE_REGION"]

/-- Parts of a date or a time that are no unit of an interval. -/
def datePartsOnly : List String :=
  ["DAYOFWEEK", "DAYOFYEAR", "DATE", "DATETIME", "ISOWEEK", "TIME", "TIMEZONE_ABBR",
    "TIMEZONE_REGION"]

/-- A part of a date or a time, as a keyword. Where the dialect takes other words, any word will do;
where it takes strings, so does a string. -/
def datePart : Parser String := do
  let t ← next
  let isOpen := (← dialect) == .generic || (← dialect) == .postgres
  match t.token with
  | .word .. => if isOpen || dateParts.contains t.keyword then pure t.keyword else mismatch
  | .quoted .single _ => if isOpen then pure "" else mismatch
  | _ => mismatch

def existsForm (g : Grammar) (negated : Bool) : Parser Surface.Expr := do
  let query ← parenthesized g.query
  pure (.existsQuery query negated)

/-- NOT with its operand; a negated EXISTS is a form of its own. -/
def notForm (g : Grammar) : Parser Surface.Expr := do
  if ← keyword? "EXISTS" then g.existsForm true
  else
    let operand ← g.expr (← dialect).levels.not
    pure (.unary .not operand)

def caseBranch (g : Grammar) : Parser Unit := do
  discard g.anyExpr
  keyword "THEN"
  discard g.anyExpr

def caseForm (g : Grammar) : Parser Surface.Expr := do
  if ← keyword? "WHEN" then pure ()
  else
    discard g.anyExpr
    keyword "WHEN"
  g.caseBranch
  discard (collect (after? "WHEN" g.caseBranch))
  discard (after? "ELSE" g.anyExpr)
  keyword "END"
  pure (.foreign "Case")

def castForm (g : Grammar) : Parser Surface.Expr :=
  parenthesized do
    discard g.anyExpr
    keyword "AS"
    discard DataType.read
    if ← keyword? "FORMAT" then
      discard constant
      if ← keywords? ["AT", "TIME", "ZONE"] then discard constant
    pure (.foreign "Cast")

def convertForm (g : Grammar) : Parser Surface.Expr :=
  parenthesized do
    discard g.anyExpr
    if ← keyword? "USING" then discard path
    else
      sign ","
      discard DataType.read
      if ← keywords? ["CHARACTER", "SET"] then discard path
    pure (.foreign "Convert")

def extractForm (g : Grammar) : Parser Surface.Expr :=
  parenthesized do
    discard datePart
    if ← keyword? "FROM" then pure ()
    else if (← dialect) == .generic then sign ","
    else mismatch
    discard g.anyExpr
    pure (.foreign "Extract")

/-- CEIL or FLOOR, to a part of a date or to a number of places. -/
def roundingForm (g : Grammar) (construct : String) : Parser Surface.Expr :=
  parenthesized do
    discard g.anyExpr
    if ← keyword? "TO" then discard datePart
    else if ← sign? "," then
      match ← constant with
      | .literal (.number _) => pure ()
      | _ => mismatch
    pure (.foreign construct)

/-- POSITION: the special form, or else a call. -/
def positionForm (g : Grammar) (function : Name) : Parser Surface.Expr := do
  let special : Parser Surface.Expr := parenthesized do
    discard (g.expr (← dialect).levels.between)
    keyword "IN"
    discard g.anyExpr
    pure (.foreign "Position")
  orElse special (g.call [function])

def substringForm (g : Grammar) : Parser Surface.Expr :=
  parenthesized do
    discard g.anyExpr
    if ← sign? "," then discard g.anyExpr
    else discard (after? "FROM" g.anyExpr)
    if ← keyword? "FOR" then discard g.anyExpr
    else if ← sign? "," then discard g.anyExpr
    pure (.foreign "Substring")

def overlayForm (g : Grammar) : Parser Surface.Expr :=
  parenthesized do
    discard g.anyExpr
    keyword "PLACING"
    discard g.anyExpr
    keyword "FROM"
    discard g.anyExpr
    discard (after? "FOR" g.anyExpr)
    pure (.foreign "Overlay")

/-- TRIM, with the side and the characters to remove. -/
def trimForm (g : Grammar) : Parser Surface.Expr :=
  parenthesized do
    discard (keywordOf? ["BOTH", "LEADING", "TRAILING"])
    discard g.anyExpr
    if ← keyword? "FROM" then discard g.anyExpr
    else
      match ← dialect with
      | .generic | .sqlite => if ← sign? "," then discard g.exprList
      | _ => pure ()
    pure (.foreign "Trim")

/-- INTERVAL. MySQL takes any expression and needs a unit; elsewhere the unit may be missing. -/
def intervalForm (g : Grammar) : Parser Surface.Expr := do
  let needsUnit := (← dialect) == .mysql
  discard (if needsUnit then g.anyExpr else g.operand)
  let hasUnit ← ahead fun input =>
    input.head?.any fun t => dateParts.contains t.keyword && !datePartsOnly.contains t.keyword
  if hasUnit then
    let unit ← datePart
    if unit == "SECOND" then DataType.scale?
    else
      DataType.precision?
      if ← keyword? "TO" then
        let last ← datePart
        if last == "SECOND" then DataType.precision?
  else if needsUnit then mismatch
  else
    DataType.precision?
    discard (after? "TO" datePart)
  pure (.foreign "Interval")

def arrayForm (g : Grammar) : Parser Surface.Expr := do
  if ← sign? "]" then pure ()
  else
    discard g.exprList
    sign "]"
  pure (.foreign "Array")

def matchForm : Parser Surface.Expr := do
  discard (parenthesized (commaList path))
  keyword "AGAINST"
  parenthesized do
    discard constant
    if ← keywords? ["IN", "NATURAL", "LANGUAGE", "MODE"] then pure ()
    else discard (keywords? ["IN", "BOOLEAN", "MODE"])
    discard (keywords? ["WITH", "QUERY", "EXPANSION"])
  pure (.foreign "MatchAgainst")

def structForm (g : Grammar) : Parser Surface.Expr := do
  discard (parenthesized (commaList do
    discard g.anyExpr
    discard (after? "AS" name)))
  pure (.foreign "Struct")

/-- A function that needs no parentheses; `listed` tells whether it may have some. -/
def bareCall (g : Grammar) (function : Name) (listed : Bool) : Parser Surface.Expr := do
  let opened ← if listed then sign? "(" else pure false
  if opened then
    let (args, _) ← g.arguments
    pure (.call [.name function] false false args)
  else pure (.call [.name function] false false .absent)

/-- The form that a keyword opens in the dialect, if it opens one before the lexemes to come. -/
def form? (g : Grammar) (d : Dialect) (word : String) (function : Name) (following : List Lexeme) :
    Option (Parser Surface.Expr) :=
  let before (s : String) : Bool := following.head?.any (·.token == .sign s)
  let isOpen := d == .generic || d == .postgres
  match word with
  | "TRUE" => some (pure (.literal (.boolean true)))
  | "FALSE" => some (pure (.literal (.boolean false)))
  | "NULL" => some (pure (.literal .null))
  | "CURRENT_CATALOG" | "CURRENT_USER" | "SESSION_USER" | "USER" =>
    if isOpen then some (g.bareCall function false) else none
  | "CURRENT_TIMESTAMP" | "CURRENT_TIME" | "CURRENT_DATE" | "LOCALTIME" | "LOCALTIMESTAMP" =>
    some (g.bareCall function true)
  | "CASE" => some g.caseForm
  | "CONVERT" => some g.convertForm
  | "TRY_CONVERT" => if d == .generic then some g.convertForm else none
  | "CAST" | "TRY_CAST" | "SAFE_CAST" => some g.castForm
  | "EXISTS" => some (g.existsForm false)
  | "EXTRACT" => some g.extractForm
  | "CEIL" => some (g.roundingForm "Ceil")
  | "FLOOR" => some (g.roundingForm "Floor")
  | "POSITION" => if before "(" then some (g.positionForm function) else none
  | "SUBSTR" | "SUBSTRING" => some g.substringForm
  | "OVERLAY" => some g.overlayForm
  | "TRIM" => some g.trimForm
  | "INTERVAL" => some g.intervalForm
  | "ARRAY" =>
    if before "[" then some (do sign "["; g.arrayForm)
    else if before "(" then some do
      discard (parenthesized g.query)
      pure (.call [.name function] false false .subquery)
    else none
  | "NOT" => some g.notForm
  | "MATCH" => if d == .generic || d == .mysql then some matchForm else none
  | "STRUCT" => if d == .generic then some g.structForm else none
  | "BOX" | "CIRCLE" | "LINE" | "LSEG" | "PATH" | "POINT" | "POLYGON" =>
    if d == .postgres then some do
      discard constant
      pure (.foreign "TypedString")
    else none
  | _ => none

end QuerySteps.Sql.Grammar
