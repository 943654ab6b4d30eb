import QuerySteps.Sql.Grammar.Query

/-!
# Statements

A statement is a query, or it changes or describes data. The statements of the second kind are read
to tell well-formed texts from others; of each the tree keeps its name.
-/

namespace QuerySteps.Sql.Grammar

open QuerySteps.Sql.Parser

def ifNotExists? : Parser Unit :=
  discard (keywords? ["IF", "NOT", "EXISTS"])

def ifExists? : Parser Unit :=
  discard (keywords? ["IF", "EXISTS"])

def assignment (g : Grammar) : Parser Unit := do
  if ← peekSign "(" then discard (parenthesized (commaList path)) else discard path
  sign "="
  discard g.anyExpr

def returning? (g : Grammar) : Parser Unit :=
  discard (after? "RETURNING" (commaList g.selectItem))

/-- What INSERT does with a row that is there already, which may be missing. -/
def onConflict? (g : Grammar) : Parser Unit := do
  if ← keyword? "ON" then
    if ← keyword? "CONFLICT" then
      if ← keywords? ["ON", "CONSTRAINT"] then discard path
      else if ← peekSign "(" then discard (parenthesized (commaList name))
      keyword "DO"
      if ← keyword? "NOTHING" then pure ()
      else
        keywords ["UPDATE", "SET"]
        discard (commaList g.assignment)
        discard (after? "WHERE" g.anyExpr)
    else
      keywords ["DUPLICATE", "KEY", "UPDATE"]
      discard (commaList g.assignment)

def insert (g : Grammar) : Parser Surface.Statement := do
  let d ← dialect
  if d == .mysql || d == .generic then discard (keyword? "IGNORE")
  discard (keyword? "INTO")
  discard (keyword? "TABLE")
  discard path
  if d == .postgres then discard (after? "AS" name)
  if ← keywords? ["DEFAULT", "VALUES"] then pure ()
  else
    let queryBehind ← ahead fun
      | t :: u :: _ => t.token == .sign "(" && ["SELECT", "WITH"].contains u.keyword
      | _ => false
    if !queryBehind && (← peekSign "(") then
      parenthesized do
        if d == .mysql && (← peekSign ")") then pure () else discard (commaList name)
    if (d == .mysql || d == .generic) && (← keyword? "SET") then discard (commaList g.assignment)
    else discard g.query
  g.onConflict?
  g.returning?
  pure (.foreign "Insert")

def update (g : Grammar) : Parser Surface.Statement := do
  discard g.fromItem
  keyword "SET"
  discard (commaList g.assignment)
  discard (after? "FROM" (commaList g.fromItem))
  discard (after? "WHERE" g.anyExpr)
  g.returning?
  discard (after? "LIMIT" g.anyExpr)
  pure (.foreign "Update")

/-- DELETE. In the generic dialect FROM may be missing. -/
def delete (g : Grammar) : Parser Surface.Statement := do
  if ← keyword? "FROM" then pure ()
  else if (← dialect) != .generic then
    discard (commaList path)
    keyword "FROM"
  discard (commaList g.fromItem)
  discard (after? "USING" (commaList g.fromItem))
  discard (after? "WHERE" g.anyExpr)
  g.returning?
  discard g.orderBy
  discard (after? "LIMIT" g.anyExpr)
  pure (.foreign "Delete")

def columnPaths : Parser Unit :=
  discard (parenthesized (commaList path))

/-- What a foreign key refers to, and what happens to it on changes. -/
def references : Parser Unit := do
  discard path
  if ← peekSign "(" then columnPaths
  discard (collect do
    if ← keyword? "ON" then
      discard (keywordOf ["DELETE", "UPDATE"])
      if ← keywords? ["SET", "NULL"] then pure (some ())
      else if ← keywords? ["SET", "DEFAULT"] then pure (some ())
      else if ← keywords? ["NO", "ACTION"] then pure (some ())
      else
        discard (keywordOf ["CASCADE", "RESTRICT"])
        pure (some ())
    else pure none)

/-- The next option of a column, if there is one. -/
def columnOption? (g : Grammar) : Parser (Option Unit) := do
  discard (after? "CONSTRAINT" name)
  if ← keywords? ["NOT", "NULL"] then pure (some ())
  else if ← keywords? ["PRIMARY", "KEY"] then
    discard (keywordOf? ["ASC", "DESC", "AUTOINCREMENT"])
    pure (some ())
  else
    match ← keywordOf? ["NULL", "UNIQUE", "AUTO_INCREMENT", "AUTOINCREMENT", "DEFAULT", "CHECK",
      "REFERENCES", "COLLATE", "COMMENT"] with
    | some "DEFAULT" =>
      discard g.anyExpr
      pure (some ())
    | some "CHECK" =>
      discard (parenthesized g.anyExpr)
      pure (some ())
    | some "REFERENCES" =>
      references
      pure (some ())
    | some "COLLATE" =>
      discard path
      pure (some ())
    | some "COMMENT" =>
      discard constant
      pure (some ())
    | some _ => pure (some ())
    | none => pure none

/-- A column with its type and its options. In SQLite the type may be missing. -/
def column (g : Grammar) : Parser Unit := do
  discard name
  if (← dialect) == .sqlite then discard (maybe DataType.read) else discard DataType.read
  discard (collect g.columnOption?)

def tableConstraint? (g : Grammar) : Parser Bool := do
  if ← keywords? ["PRIMARY", "KEY"] then
    columnPaths
    pure true
  else if ← keywords? ["FOREIGN", "KEY"] then
    columnPaths
    keyword "REFERENCES"
    references
    pure true
  else if ← keyword? "UNIQUE" then
    columnPaths
    pure true
  else if ← keyword? "CHECK" then
    discard (parenthesized g.anyExpr)
    pure true
  else pure false

def tableElement (g : Grammar) : Parser Unit := do
  if ← keyword? "CONSTRAINT" then
    discard name
    if ← g.tableConstraint? then pure () else mismatch
  else if ← g.tableConstraint? then pure ()
  else g.column

def create (g : Grammar) : Parser Surface.Statement := do
  discard (keywords? ["OR", "REPLACE"])
  discard (keywordOf? ["TEMP", "TEMPORARY"])
  if ← keyword? "TABLE" then
    ifNotExists?
    discard path
    if ← peekSign "(" then discard (parenthesized (commaList g.tableElement))
    discard (after? "AS" g.query)
    pure (.foreign "CreateTable")
  else if (← keywords? ["MATERIALIZED", "VIEW"]) || (← keyword? "VIEW") then
    ifNotExists?
    discard path
    if ← peekSign "(" then columnPaths
    keyword "AS"
    discard g.query
    pure (.foreign "CreateView")
  else
    discard (keyword? "UNIQUE")
    keyword "INDEX"
    discard (keyword? "CONCURRENTLY")
    ifNotExists?
    if !(← peekKeywordOf ["ON"]) then discard path
    keyword "ON"
    discard path
    discard (after? "USING" name)
    discard (parenthesized (commaList g.orderItem))
    discard (after? "WHERE" g.anyExpr)
    pure (.foreign "CreateIndex")

def drop : Parser Surface.Statement := do
  discard (keyword? "TEMPORARY")
  if ← keywords? ["MATERIALIZED", "VIEW"] then pure ()
  else discard (keywordOf ["TABLE", "VIEW", "INDEX", "SCHEMA", "DATABASE", "SEQUENCE", "ROLE"])
  ifExists?
  discard (commaList path)
  discard (keywordOf? ["CASCADE", "RESTRICT"])
  discard (keyword? "PURGE")
  pure (.foreign "Drop")

def columnChange (g : Grammar) : Parser Unit := do
  if ← keywords? ["SET", "NOT", "NULL"] then pure ()
  else if ← keywords? ["DROP", "NOT", "NULL"] then pure ()
  else if ← keywords? ["SET", "DEFAULT"] then discard g.anyExpr
  else if ← keywords? ["DROP", "DEFAULT"] then pure ()
  else
    discard (keywords? ["SET", "DATA"])
    keyword "TYPE"
    discard DataType.read

def tableChange (g : Grammar) : Parser Unit := do
  match ← keywordOf ["ADD", "DROP", "RENAME", "ALTER"] with
  | "ADD" =>
    if ← peekKeywordOf ["CONSTRAINT", "PRIMARY", "FOREIGN", "UNIQUE", "CHECK"] then g.tableElement
    else
      discard (keyword? "COLUMN")
      ifNotExists?
      g.column
  | "DROP" =>
    discard (keywordOf? ["COLUMN", "CONSTRAINT"])
    ifExists?
    discard (commaList name)
    discard (keywordOf? ["CASCADE", "RESTRICT"])
  | "RENAME" =>
    if ← keyword? "TO" then discard path
    else
      discard (keyword? "COLUMN")
      discard name
      keyword "TO"
      discard name
  | _ =>
    discard (keyword? "COLUMN")
    discard name
    g.columnChange

def alter (g : Grammar) : Parser Surface.Statement := do
  keyword "TABLE"
  ifExists?
  discard (keyword? "ONLY")
  discard path
  discard (commaList g.tableChange)
  pure (.foreign "AlterTable")

def truncate : Parser Surface.Statement := do
  discard (keyword? "TABLE")
  discard (keyword? "ONLY")
  discard (commaList path)
  match ← dialect with
  | .generic | .postgres =>
    discard (keywordOf? ["RESTART", "CONTINUE"] >>= fun
      | some _ => keyword "IDENTITY"
      | none => pure ())
    discard (keywordOf? ["CASCADE", "RESTRICT"])
  | _ => pure ()
  pure (.foreign "Truncate")

def transactionMode? : Parser (Option Unit) := do
  if ← keywords? ["ISOLATION", "LEVEL"] then
    if ← keywords? ["READ", "UNCOMMITTED"] then pure (some ())
    else if ← keywords? ["READ", "COMMITTED"] then pure (some ())
    else if ← keywords? ["REPEATABLE", "READ"] then pure (some ())
    else
      discard (keywordOf ["SERIALIZABLE", "SNAPSHOT"])
      pure (some ())
  else if (← keywords? ["READ", "ONLY"]) || (← keywords? ["READ", "WRITE"]) then pure (some ())
  else pure none

/-- The modes of a transaction; commas between them may be missing. -/
def transactionModes : Parser Unit := do
  if (← transactionMode?).isSome then
    discard (collect do
      if ← sign? "," then
        match ← transactionMode? with
        | some _ => pure (some ())
        | none => mismatch
      else transactionMode?)

/-- Whether the end of a transaction begins another, which may be left open. -/
def chain? : Parser Unit := do
  discard (keywordOf? ["TRANSACTION", "WORK", "TRAN"])
  if ← keyword? "AND" then
    discard (keyword? "NO")
    keyword "CHAIN"

def beginTransaction : Parser Surface.Statement := do
  match ← dialect with
  | .generic | .sqlite => discard (keywordOf? ["DEFERRED", "IMMEDIATE", "EXCLUSIVE"])
  | _ => pure ()
  discard (keywordOf? ["TRANSACTION", "WORK", "TRAN"])
  transactionModes
  pure (.foreign "StartTransaction")

def settingValues (g : Grammar) : Parser Unit := do
  if ← sign? "=" then pure () else keyword "TO"
  discard g.exprList

def set (g : Grammar) : Parser Surface.Statement := do
  let d ← dialect
  discard (keywordOf? ["SESSION", "LOCAL", "GLOBAL"])
  let zone ← keywords? ["TIME", "ZONE"]
  if zone || (← keyword? "TIMEZONE") then
    if (← peekSign "=") || (← peekKeywordOf ["TO"]) then g.settingValues else discard g.anyExpr
  else if (d == .mysql || d == .generic) && (← keyword? "NAMES") then
    discard name
    discard (after? "COLLATE" constant)
  else if ← keywords? ["CHARACTERISTICS", "AS", "TRANSACTION"] then transactionModes
  else if ← keyword? "TRANSACTION" then transactionModes
  else if d == .mysql || d == .generic then
    discard (commaList do
      discard path
      if ← sign? "=" then pure () else keyword "TO"
      discard g.anyExpr)
  else
    discard path
    g.settingValues
  pure (.foreign "Set")

/-- EXPLAIN of a statement, or of a table. -/
def explain (g : Grammar) : Parser Surface.Statement := do
  if ← keywords? ["QUERY", "PLAN"] then pure ()
  else
    discard (keyword? "ANALYZE")
    discard (keyword? "VERBOSE")
    if ← keyword? "FORMAT" then
      discard (sign? "=")
      discard (keywordOf ["TEXT", "JSON", "XML", "YAML", "TREE", "TRADITIONAL", "GRAPHVIZ"])
  match ← maybe g.statement with
  | some (.foreign "Explain") | some (.foreign "ExplainTable") => mismatch
  | some _ => pure (.foreign "Explain")
  | none =>
    discard path
    pure (.foreign "ExplainTable")

def readStatement (g : Grammar) : Parser Surface.Statement := do
  let opensQuery ← peekKeywordOf ["SELECT", "WITH", "VALUES", "FROM"]
  if opensQuery || (← peekSign "(") then
    let query ← g.query
    pure (.query query)
  else
    match (← next).keyword with
    | "INSERT" => g.insert
    | "UPDATE" => g.update
    | "DELETE" => g.delete
    | "CREATE" => g.create
    | "DROP" => drop
    | "ALTER" => g.alter
    | "TRUNCATE" => truncate
    | "BEGIN" => beginTransaction
    | "START" =>
      keyword "TRANSACTION"
      transactionModes
      pure (.foreign "StartTransaction")
    | "COMMIT" | "END" =>
      chain?
      pure (.foreign "Commit")
    | "ROLLBACK" =>
      chain?
      if ← keyword? "TO" then
        discard (keyword? "SAVEPOINT")
        discard name
      pure (.foreign "Rollback")
    | "EXPLAIN" | "DESCRIBE" | "DESC" => g.explain
    | "SET" => g.set
    | "USE" =>
      discard path
      pure (.foreign "Use")
    | _ => mismatch

end QuerySteps.Sql.Grammar
