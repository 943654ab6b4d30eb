import QuerySteps.Sql.Grammar.Constant
import QuerySteps.Sql.Grammar.DataType

/-!
# Calls

The arguments of a function and the clauses around them. Of the clauses the tree keeps only whether
a filter or a window belongs to the call; the others are read for where they end.
-/

namespace QuerySteps.Sql.Grammar

open QuerySteps.Sql.Parser

/-- The mark between the name and the value of a named argument. -/
def argumentMark : Parser Unit := do
  if ← keyword? "VALUE" then pure ()
  else if ← sign? "=>" then pure ()
  else
    match ← dialect with
    | .generic => sign ":="
    | .postgres => if ← sign? ":=" then pure () else sign ":"
    | _ => mismatch

/-- An argument with a name; PostgreSQL takes any expression for the name. -/
def namedArgument (g : Grammar) : Parser Surface.Argument := do
  let kind ←
    match ← dialect with
    | .postgres => do
      discard g.anyExpr
      pure "ExprNamed"
    | _ => do
      discard name
      pure "Named"
  argumentMark
  discard g.starred
  pure (.foreign kind)

def argument (g : Grammar) : Parser Surface.Argument :=
  orElse g.namedArgument do
    match ← g.starred with
    | .expr e => pure (.expr e)
    | .all => pure .wildcard
    | .allOf _ => pure (.foreign "Unnamed")

/-- Whether NULLs count, which may be missing. -/
def nullTreatment? : Parser Bool := do
  match ← keywordOf? ["RESPECT", "IGNORE"] with
  | some _ =>
    keyword "NULLS"
    pure true
  | none => pure false

/-- What a function of JSON values does with NULLs and what it returns, which may be missing. -/
def jsonClauses? : Parser Unit := do
  if ← keywords? ["ABSENT", "ON", "NULL"] then pure ()
  else discard (keywords? ["NULL", "ON", "NULL"])
  if ← keyword? "RETURNING" then discard DataType.read

/-- The clauses behind the arguments of a call, and whether one of them says if NULLs count. -/
def argumentClauses (g : Grammar) : Parser Bool := do
  let d ← dialect
  let treatment ← if d == .generic then nullTreatment? else pure false
  discard g.orderBy
  if ← keyword? "LIMIT" then discard g.anyExpr
  if d == .generic then
    if ← keyword? "HAVING" then
      discard (keywordOf ["MIN", "MAX"])
      discard g.anyExpr
  if d == .generic || d == .mysql then
    if ← keyword? "SEPARATOR" then discard constant
  jsonClauses?
  pure treatment

/-- The arguments of a call after the opening parenthesis, and whether a clause among them says if
NULLs count. -/
def arguments (g : Grammar) : Parser (Surface.Arguments × Bool) := do
  jsonClauses?
  if ← sign? ")" then pure (.list false [], false)
  else
    let all ← keyword? "ALL"
    let distinct ← keyword? "DISTINCT"
    if all && distinct then mismatch
    let items ← commaList g.argument
    let treatment ← g.argumentClauses
    sign ")"
    pure (.list distinct items, treatment)

def frameBound (g : Grammar) : Parser Unit := do
  if ← keywords? ["CURRENT", "ROW"] then pure ()
  else
    if ← keyword? "UNBOUNDED" then pure () else discard g.anyExpr
    discard (keywordOf ["PRECEDING", "FOLLOWING"])

def frame (g : Grammar) : Parser Unit := do
  discard (keywordOf ["ROWS", "RANGE", "GROUPS"])
  if ← keyword? "BETWEEN" then
    g.frameBound
    keyword "AND"
    g.frameBound
  else g.frameBound

/-- The description of a window after the opening parenthesis. -/
def window (g : Grammar) : Parser Unit := do
  let named ← ahead fun input => input.head?.any fun t =>
    t.token.isWord && !(["PARTITION", "ORDER", "ROWS", "RANGE", "GROUPS"].contains t.keyword)
  if named then discard name
  if ← keywords? ["PARTITION", "BY"] then discard g.exprList
  discard g.orderBy
  if ← sign? ")" then pure ()
  else
    g.frame
    sign ")"

/-- Whether a filter follows; its keyword and its parenthesis are taken even if the rest of it is
missing. -/
def filter? (g : Grammar) : Parser Bool := do
  if (← dialect) == .mysql then pure false
  else if ← keyword? "FILTER" then
    if ← sign? "(" then
      if ← keyword? "WHERE" then
        discard g.anyExpr
        sign ")"
        pure true
      else pure false
    else pure false
  else pure false

def window? (g : Grammar) : Parser Bool := do
  if ← keyword? "OVER" then
    if ← sign? "(" then g.window else discard name
    pure true
  else pure false

/-- The call of a function from the opening parenthesis on. In the generic dialect a second list of
arguments takes the place of the first. -/
def call (g : Grammar) (function : List Name) : Parser Surface.Expr := do
  sign "("
  let first ← g.arguments
  let parameters ← if (← dialect) == .generic then sign? "(" else pure false
  let (args, treatment) ← if parameters then g.arguments else pure first
  if ← keywords? ["WITHIN", "GROUP"] then
    parenthesized do
      keywords ["ORDER", "BY"]
      discard (commaList g.orderItem)
  let filter ← g.filter?
  if !treatment then discard nullTreatment?
  let window ← g.window?
  pure (.call (function.map .name) window filter args)

end QuerySteps.Sql.Grammar
