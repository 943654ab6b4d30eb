import QuerySteps.Sql.Grammar.Relation

/-!
# SELECT blocks

The clauses from SELECT to HAVING, and those around them that queries have no place for.
-/

namespace QuerySteps.Sql.Grammar

open QuerySteps.Sql.Parser

def namesOrName : Parser Unit := do
  if ← peekSign "(" then discard (parenthesized (commaList name)) else discard name

/-- What the generic dialect allows behind a star: columns to keep, leave out, replace or rename. -/
def starOptions (g : Grammar) : Parser Unit := do
  if (← dialect) == .generic then
    let renamed : Parser Unit := do
      discard name
      keyword "AS"
      discard name
    if ← keyword? "ILIKE" then
      match (← next).token with
      | .quoted .single _ => pure ()
      | _ => mismatch
    else if ← keyword? "EXCLUDE" then namesOrName
    if ← keyword? "EXCEPT" then namesOrName
    if ← keyword? "REPLACE" then
      discard (parenthesized (commaList do
        discard g.anyExpr
        discard (keyword? "AS")
        discard name))
    if ← keyword? "RENAME" then
      if ← peekSign "(" then discard (parenthesized (commaList renamed)) else renamed

/-- An item of a SELECT list. The unquoted name FROM alone is no item. -/
def selectItem (g : Grammar) : Parser Surface.SelectItem := do
  match ← g.starred with
  | .all =>
    g.starOptions
    pure .all
  | .allOf path =>
    g.starOptions
    pure (.allOf (path.map .name))
  | .expr e =>
    let isFrom :=
      match e with
      | .identifier n => !n.quoted && n.value.toLower == "from"
      | _ => false
    if isFrom then mismatch
    let aliasName ← alias? Dialect.reservedForColumn
    pure (.expr e aliasName)

def listEndAhead : Parser Bool :=
  ahead fun
    | [] => true
    | t :: _ =>
      Dialect.reservedForColumn.contains t.keyword ||
        [.sign ")", .sign ";", .sign "]", .sign "\x7d"].contains t.token

/-- The items of a SELECT list; in the generic dialect a comma may end it. -/
def selectList (g : Grammar) : Parser (List Surface.SelectItem) := do
  let d ← dialect
  let first ← g.selectItem
  let others ← collect do
    if ← sign? "," then
      if d == .generic && (← listEndAhead) then pure none
      else
        let item ← g.selectItem
        pure (some item)
    else pure none
  pure (first :: others)

/-- ALL or DISTINCT before a SELECT list, not both. -/
def distinct (g : Grammar) : Parser Surface.Distinct := do
  let all ← keyword? "ALL"
  if ← keyword? "DISTINCT" then
    if all then mismatch
    else if ← keyword? "ON" then
      parenthesized do
        if ← peekSign ")" then pure () else discard g.exprList
      pure .on
    else pure .rows
  else pure .absent

def top (g : Grammar) : Parser Bool := do
  if ← keyword? "TOP" then
    if ← peekSign "(" then discard (parenthesized g.anyExpr) else DataType.count
    discard (keyword? "PERCENT")
    discard (keywords? ["WITH", "TIES"])
    pure true
  else pure false

def into? : Parser Unit := do
  if ← keyword? "INTO" then
    discard (keywordOf? ["TEMP", "TEMPORARY"])
    discard (keyword? "UNLOGGED")
    discard (keyword? "TABLE")
    discard path

def exprTuple (g : Grammar) : Parser Unit :=
  parenthesized do
    if ← peekSign ")" then pure () else discard g.exprList

def tupleOrExpr (g : Grammar) : Parser Unit := do
  if ← peekSign "(" then g.exprTuple else discard g.anyExpr

/-- A key of GROUP BY. Sets of keys are read in the generic dialect and in PostgreSQL. -/
def groupKey (g : Grammar) : Parser Surface.Expr := do
  let d ← dialect
  let emptyAhead ← ahead fun
    | t :: u :: _ => t.token == .sign "(" && u.token == .sign ")"
    | _ => false
  if d != .generic && d != .postgres then g.anyExpr
  else if ← keywords? ["GROUPING", "SETS"] then
    discard (parenthesized (commaList g.exprTuple))
    pure (.foreign "GroupingSets")
  else if ← keyword? "CUBE" then
    discard (parenthesized (commaList g.tupleOrExpr))
    pure (.foreign "Cube")
  else if ← keyword? "ROLLUP" then
    discard (parenthesized (commaList g.tupleOrExpr))
    pure (.foreign "Rollup")
  else if emptyAhead then
    g.exprTuple
    pure (.foreign "Tuple")
  else g.anyExpr

def groupModifiers (g : Grammar) : Parser Bool := do
  let d ← dialect
  let modifiers ← collect do
    if (d == .generic || d == .mysql) && (← keyword? "WITH") then
      let modifier ← keywordOf ["ROLLUP", "CUBE", "TOTALS"]
      pure (some modifier)
    else pure none
  if ← keywords? ["GROUPING", "SETS"] then
    discard (parenthesized (commaList g.tupleOrExpr))
    pure true
  else pure !modifiers.isEmpty

def groupBy (g : Grammar) : Parser Surface.GroupBy := do
  if ← keywords? ["GROUP", "BY"] then
    if ← keyword? "ALL" then
      discard g.groupModifiers
      pure .all
    else
      let items ← commaList g.groupKey
      let modifiers ← g.groupModifiers
      pure (.keys items modifiers)
  else pure (.keys [] false)

/-- Named windows and the condition on them, which may be missing; either may come first. -/
def windows? (g : Grammar) : Parser Unit := do
  let named : Parser Unit := do
    discard name
    keyword "AS"
    if ← sign? "(" then g.window
    else if (← dialect) == .generic then discard name
    else mismatch
  if ← keyword? "WINDOW" then
    discard (commaList named)
    discard (after? "QUALIFY" g.anyExpr)
  else if ← keyword? "QUALIFY" then
    discard g.anyExpr
    discard (after? "WINDOW" (commaList named))

/-- A block after the keyword SELECT; the sources are given if they stood before it. -/
def selectBlock (g : Grammar) (given : Option (List Surface.FromItem)) :
    Parser Surface.Select := do
  let d ← dialect
  let distinct ← g.distinct
  let top ← g.top
  let isEmpty ←
    if d == .generic || d == .postgres then peekKeywordOf ["FROM"] else pure false
  let projection ← if isEmpty then pure [] else g.selectList
  into?
  let sources ←
    match given with
    | some sources => pure sources
    | none => do
      let sources ← after? "FROM" (commaList g.fromItem)
      pure (sources.getD [])
  let condition ← after? "WHERE" g.anyExpr
  let groupBy ← g.groupBy
  let having ← after? "HAVING" g.anyExpr
  g.windows?
  pure { distinct, top, projection, sources, condition, groupBy, having }

/-- A SELECT block. In the generic dialect its sources may come first, and then stand alone. -/
def select (g : Grammar) : Parser Surface.Select := do
  if (← dialect) == .generic && (← keyword? "FROM") then
    let sources ← commaList g.fromItem
    if ← keyword? "SELECT" then g.selectBlock (some sources)
    else pure { sources, groupBy := .keys [] false }
  else
    keyword "SELECT"
    g.selectBlock none

end QuerySteps.Sql.Grammar
