import QuerySteps.Sql.Grammar.Call

/-!
# Relations and joins

What stands in a FROM clause. A parenthesis opens a query or a group of joined relations; the query
is tried first.
-/

namespace QuerySteps.Sql.Grammar

open QuerySteps.Sql.Parser

/-- An alias, which may be missing: any word after AS, else a word that is not reserved, or a
string. -/
def alias? (reserved : List String) : Parser (Option Name) := do
  let explicit ← keyword? "AS"
  let found ← ahead fun
    | t :: _ =>
      match t.token with
      | .word .. => explicit || !reserved.contains t.keyword
      | token => (nameOf? token).isSome
    | [] => false
  if found then
    let n ← name
    pure (some n)
  else if explicit then mismatch
  else pure none

/-- The name of a column, with a data type that is not kept. -/
def columnName : Parser Name := do
  let n ← name
  discard (maybe DataType.read)
  pure n

/-- Names of columns between parentheses; none without parentheses. -/
def columnNames : Parser (List Name) := do
  if ← peekSign "(" then parenthesized (commaList columnName) else pure []

def relationAlias? : Parser (Option Surface.Alias) := do
  match ← alias? (← dialect).reservedForTable with
  | some name =>
    let columns ← columnNames
    pure (some { name, columns })
  | none => pure none

/-- Rows of a VALUES list after its keyword; MySQL has empty rows. -/
def valueRows (g : Grammar) : Parser Unit := do
  let row : Parser Unit := do
    discard (keyword? "ROW")
    parenthesized do
      if (← dialect) == .mysql && (← peekSign ")") then pure () else discard g.exprList
  discard (commaList row)

/-- The arguments of a call after the opening parenthesis, in a FROM clause. -/
def sourceArguments (g : Grammar) : Parser Unit := do
  if ← sign? ")" then pure ()
  else
    discard (commaList g.argument)
    sign ")"

/-- A query after its opening parenthesis, with the alias behind it. -/
def derived (g : Grammar) : Parser Surface.Relation := do
  let query ← g.query
  sign ")"
  let aliasName ← relationAlias?
  pure (.derived query aliasName)

def indexHint? : Parser (Option Unit) := do
  match ← keywordOf? ["USE", "IGNORE", "FORCE"] with
  | none => pure none
  | some _ =>
    discard (keywordOf ["INDEX", "KEY"])
    if ← keyword? "FOR" then
      if ← keyword? "JOIN" then pure ()
      else
        discard (keywordOf ["ORDER", "GROUP"])
        keyword "BY"
    parenthesized do
      if ← peekSign ")" then pure () else discard (commaList name)
    pure (some ())

/-- Hints between parentheses after WITH, which may be missing. -/
def hints? (g : Grammar) : Parser Unit := do
  let found ← ahead fun
    | t :: u :: _ => t.keyword == "WITH" && u.token == .sign "("
    | _ => false
  if found then
    discard next
    discard (parenthesized g.exprList)

/-- A table or a function by its name, with what may stand around its alias. -/
def table (g : Grammar) : Parser Surface.Relation := do
  let d ← dialect
  let path ← path
  if d == .mysql || d == .generic then
    if ← keyword? "PARTITION" then discard (parenthesized (commaList name))
  let args ← sign? "("
  if args then g.sourceArguments
  discard (keywords? ["WITH", "ORDINALITY"])
  let aliasName ← relationAlias?
  if d == .mysql then discard (maybe (collect indexHint?))
  g.hints?
  pure (.table (path.map .name) aliasName args)

def unnest (g : Grammar) : Parser Surface.Relation := do
  discard (parenthesized g.exprList)
  discard (keywords? ["WITH", "ORDINALITY"])
  discard relationAlias?
  if ← keywords? ["WITH", "OFFSET"] then discard (alias? Dialect.reservedForColumn)
  pure (.foreign "UNNEST")

def joinConstraint (g : Grammar) : Parser Surface.JoinConstraint := do
  if ← keyword? "ON" then
    let condition ← g.anyExpr
    pure (.on condition)
  else if ← keyword? "USING" then
    let columns ← parenthesized (commaList path)
    pure (.shared (columns.map (·.map .name)))
  else pure .unconstrained

/-- The operator of a join up to JOIN, if one comes next. -/
def joinOperator? : Parser (Option Surface.JoinOperator) := do
  let sided (kind : JoinKind) (side : String) : Parser (Option Surface.JoinOperator) := do
    let word ← keywordOf ["OUTER", "SEMI", "ANTI", "JOIN"]
    if word != "JOIN" then keyword "JOIN"
    match word with
    | "SEMI" => pure (some (.foreign (side ++ "Semi")))
    | "ANTI" => pure (some (.foreign (side ++ "Anti")))
    | _ => pure (some (.kind kind))
  let words := ["JOIN", "INNER", "LEFT", "RIGHT", "FULL", "SEMI", "ANTI", "STRAIGHT_JOIN"]
  match ← keywordOf? words with
  | some "JOIN" => pure (some (.kind .inner))
  | some "INNER" =>
    keyword "JOIN"
    pure (some (.kind .inner))
  | some "LEFT" => sided .left "Left"
  | some "RIGHT" => sided .right "Right"
  | some "FULL" =>
    discard (keyword? "OUTER")
    keyword "JOIN"
    pure (some (.kind .full))
  | some "SEMI" =>
    keyword "JOIN"
    pure (some (.foreign "Semi"))
  | some "ANTI" =>
    keyword "JOIN"
    pure (some (.foreign "Anti"))
  | some _ => pure (some (.foreign "StraightJoin"))
  | none => pure none

/-- A join after CROSS. Only MySQL gives it a condition. -/
def crossJoin (g : Grammar) : Parser Surface.Join := do
  if ← keyword? "JOIN" then
    let relation ← g.relation
    let constraint ← if (← dialect) == .mysql then g.joinConstraint else pure .unconstrained
    pure { relation, operator := .kind .cross, constraint }
  else
    keyword "APPLY"
    let relation ← g.relation
    pure { relation, operator := .foreign "CrossApply", constraint := .unconstrained }

def asOfJoin (g : Grammar) : Parser Surface.Join := do
  keyword "JOIN"
  let relation ← g.relation
  keyword "MATCH_CONDITION"
  discard (parenthesized g.anyExpr)
  let constraint ← g.joinConstraint
  pure { relation, operator := .foreign "AsOf", constraint }

def join? (g : Grammar) : Parser (Option Surface.Join) := do
  discard (keyword? "GLOBAL")
  if ← keyword? "CROSS" then
    let join ← g.crossJoin
    pure (some join)
  else if ← keyword? "OUTER" then
    keyword "APPLY"
    let relation ← g.relation
    pure (some { relation, operator := .foreign "OuterApply", constraint := .unconstrained })
  else if ← keyword? "ASOF" then
    let join ← g.asOfJoin
    pure (some join)
  else
    let natural ← keyword? "NATURAL"
    match ← joinOperator? with
    | some operator =>
      let relation ← g.relation
      let constraint ← if natural then pure .natural else g.joinConstraint
      pure (some { relation, operator, constraint })
    | none => if natural then mismatch else pure none

def fromItem (g : Grammar) : Parser Surface.FromItem := do
  let relation ← g.relation
  let joins ← collect g.join?
  pure { relation, joins }

/-- A relation under an alias from outside its parentheses; it may have one alias only. -/
def aliased (relation : Surface.Relation) (aliasName : Option Surface.Alias) :
    Parser Surface.Relation :=
  match relation, aliasName with
  | _, none => pure relation
  | .table path none args, some a => pure (.table path (some a) args)
  | .derived query none, some a => pure (.derived query (some a))
  | .foreign name, some _ => pure (.foreign name)
  | _, some _ => mismatch

/-- What stands in parentheses after the opening one: a query, joined relations, or in the generic
dialect a relation alone. -/
def grouped (g : Grammar) : Parser Surface.Relation :=
  orElse g.derived do
    let item ← g.fromItem
    let isJoined :=
      match item.joins, item.relation with
      | _ :: _, _ | _, .foreign "NestedJoin" => true
      | _, _ => false
    if isJoined then
      sign ")"
      discard relationAlias?
      pure (.foreign "NestedJoin")
    else if (← dialect) == .generic then
      sign ")"
      let aliasName ← relationAlias?
      aliased item.relation aliasName
    else mismatch

def readRelation (g : Grammar) : Parser Surface.Relation := do
  let d ← dialect
  let valuesAhead ← ahead fun
    | t :: u :: _ => t.keyword == "VALUES" && u.token == .sign "("
    | _ => false
  if ← keyword? "LATERAL" then
    if ← sign? "(" then g.derived
    else
      discard path
      sign "("
      g.sourceArguments
      discard relationAlias?
      pure (.foreign "Function")
  else if ← keyword? "TABLE" then
    discard (parenthesized g.anyExpr)
    discard relationAlias?
    pure (.foreign "TableFunction")
  else if ← sign? "(" then g.grouped
  else if d == .generic && valuesAhead then
    discard next
    g.valueRows
    let aliasName ← relationAlias?
    pure (.derived { body := .foreign "Values", orderBy := .keys [] } aliasName)
  else if (d == .generic || d == .postgres) && (← keyword? "UNNEST") then g.unnest
  else g.table

end QuerySteps.Sql.Grammar
