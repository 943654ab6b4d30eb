import QuerySteps.Sql.Grammar.Select

/-!
# Queries

Blocks combined by set operators, with the clauses that order and limit the rows. INTERSECT binds
more tightly than the other set operators; all of them group to the left.
-/

namespace QuerySteps.Sql.Grammar

open QuerySteps.Sql.Parser

/-- What a set operator combines. -/
def bodyOperand (g : Grammar) : Parser Surface.Body := do
  if ← sign? "(" then
    let query ← g.query
    sign ")"
    pure (.query query)
  else if ← keyword? "VALUES" then
    g.valueRows
    pure (.foreign "Values")
  else if ← keyword? "TABLE" then
    discard path
    pure (.foreign "Table")
  else
    let block ← g.select
    pure (.select block)

/-- What a set operator does with duplicates. -/
def quantifier : Parser Surface.Quantifier := do
  if ← keywords? ["DISTINCT", "BY", "NAME"] then pure (.foreign "DistinctByName")
  else if ← keywords? ["BY", "NAME"] then pure (.foreign "ByName")
  else if ← keywords? ["ALL", "BY", "NAME"] then pure (.foreign "AllByName")
  else if ← keyword? "ALL" then pure .all
  else if ← keyword? "DISTINCT" then pure .distinct
  else pure .none

/-- Operands combined by set operators that the keywords name, grouped to the left. -/
def setOperations (operand : Parser Surface.Body) (operators : List (String × SetOperator)) :
    Parser Surface.Body := do
  let first ← operand
  iterate (fun left => do
    match operators.lookup ((← keywordOf? (operators.map (·.1))).getD "") with
    | some op =>
      let quantifier ← quantifier
      let right ← operand
      pure (some (.setOperation op quantifier left right))
    | none => pure none) first

def body (g : Grammar) : Parser Surface.Body :=
  setOperations (setOperations g.bodyOperand [("INTERSECT", .intersect)])
    [("UNION", .union), ("EXCEPT", .except), ("MINUS", .except)]

def commonTable (g : Grammar) : Parser Unit := do
  discard name
  discard columnNames
  keyword "AS"
  if (← dialect) == .postgres then
    if ← keyword? "MATERIALIZED" then pure ()
    else discard (keywords? ["NOT", "MATERIALIZED"])
  discard (parenthesized g.query)
  discard (after? "FROM" name)

def withClause (g : Grammar) : Parser Bool := do
  if ← keyword? "WITH" then
    discard (keyword? "RECURSIVE")
    discard (commaList g.commonTable)
    pure true
  else pure false

def offset (g : Grammar) : Parser Surface.Expr := do
  let e ← g.anyExpr
  discard (keywordOf? ["ROW", "ROWS"])
  pure e

/-- LIMIT and OFFSET, in either order, or a limit after an offset and a comma. `LIMIT ALL` sets no
limit. -/
def limits (g : Grammar) : Parser (Option Surface.LimitClause) := do
  let d ← dialect
  let early ← after? "OFFSET" g.offset
  if ← keyword? "LIMIT" then
    let limit ← if ← keyword? "ALL" then pure none else some <$> g.anyExpr
    match limit, early with
    | some offset, none =>
      if d != .postgres && (← sign? ",") then
        let limit ← g.anyExpr
        return some (.offsetComma offset limit)
    | _, _ => pure ()
    let perGroup ← if d == .generic then keyword? "BY" else pure false
    if perGroup then discard g.exprList
    let late ← if early.isNone then after? "OFFSET" g.offset else pure none
    let offset := early <|> late
    if limit.isNone && offset.isNone && !perGroup then pure none
    else pure (some (.limitOffset limit offset perGroup))
  else
    match early with
    | some offset => pure (some (.limitOffset none (some offset) false))
    | none => pure none

def fetch : Parser Bool := do
  if ← keyword? "FETCH" then
    discard (keywordOf? ["FIRST", "NEXT"])
    match ← keywordOf? ["ROW", "ROWS"] with
    | some _ => pure ()
    | none =>
      discard constant
      discard (keyword? "PERCENT")
      discard (keywordOf? ["ROW", "ROWS"])
    if ← keyword? "ONLY" then pure () else keywords ["WITH", "TIES"]
    pure true
  else pure false

def lock? : Parser (Option Unit) := do
  if ← keyword? "FOR" then
    discard (keywordOf ["UPDATE", "SHARE"])
    discard (after? "OF" path)
    if ← keyword? "NOWAIT" then pure () else discard (keywords? ["SKIP", "LOCKED"])
    pure (some ())
  else pure none

/-- A query. After WITH it may also change rows. -/
def readQuery (g : Grammar) : Parser Surface.Query := do
  let withClause ← g.withClause
  if ← peekKeywordOf ["INSERT", "UPDATE", "DELETE"] then
    match ← g.statement with
    | .foreign name => pure { withClause, body := .foreign name, orderBy := .keys [] }
    | .query _ => mismatch
  else
    let body ← g.body
    let orderBy ← g.orderBy
    let limits ← g.limits
    let fetch ← fetch
    discard (collect lock?)
    pure { withClause, body, orderBy := .keys orderBy, limits, fetch }

end QuerySteps.Sql.Grammar
