import QuerySteps.Plan.Error
import QuerySteps.Sql.Surface

/-!
# Reducing surface trees to queries

A surface tree stands for a query unless a construct in it has no counterpart; the first of these is
the error. Parentheses around a query disappear, and the modifiers of the one level that has any
become those of the query: two levels with modifiers have no counterpart. The escape character of
LIKE, the place of NULLs and column lists after an alias are not looked at.
-/

namespace QuerySteps.Sql

/-- The result of reducing a part of a surface tree. -/
abbrev Reduced := Except ReadError

/-- The failure at a construct without a counterpart. -/
def noCounterpart {α : Type} (construct : String) : Reduced α :=
  .error (.unsupported construct)

/-- The column under a name of several parts. -/
def Column.ofPath (parts : List Name) : Reduced Column :=
  match parts with
  | [] => .error (.malformed (some "empty column reference"))
  | [name] => pure { name }
  | [table, name] => pure { table := some table, name }
  | [schema, table, name] => pure { schema := some schema, table := some table, name }
  | _ => noCounterpart "column reference with more than three parts"

def Surface.PathPart.reduce : Surface.PathPart → Reduced Name
  | .name n => pure n
  | .call => noCounterpart "object name part Function"

/-- A qualified name, which has at least one part. -/
def reducePath (path : List Surface.PathPart) : Reduced (List Name) := do
  let names ← path.mapM Surface.PathPart.reduce
  match names with
  | [] => .error (.malformed (some "object name must not be empty"))
  | names => pure names

def pathText (path : List Name) : String :=
  ".".intercalate (path.map (·.value))

/-- The query that a parenthesised query and the modifiers around it stand for: the modifiers of
one level at most. -/
def Query.modify (inner : Query) (orderBy : List OrderItem) (limit offset : Option Expr) :
    Reduced Query :=
  if orderBy.isEmpty && limit.isNone && offset.isNone then pure inner
  else if inner.hasRowModifiers then noCounterpart "nested ORDER BY / LIMIT"
  else pure { body := inner.body, orderBy, limit, offset }

/-- Whether a quantifier keeps duplicates. -/
def Surface.Quantifier.reduce : Surface.Quantifier → Reduced Bool
  | .all => pure true
  | .distinct | .none => pure false
  | .foreign name => noCounterpart ("set quantifier " ++ name)

/-- Whether a SELECT keeps distinct rows only. -/
def Surface.Distinct.reduce : Surface.Distinct → Reduced Bool
  | .absent => pure false
  | .rows => pure true
  | .on => noCounterpart "DISTINCT ON"

def Surface.JoinOperator.reduce : Surface.JoinOperator → Reduced JoinKind
  | .kind k => pure k
  | .foreign name => noCounterpart ("join " ++ name)

namespace Surface

/-- Fails at a construct that is present. -/
def refuse (isPresent : Bool) (construct : String) : Reduced Unit :=
  if isPresent then noCounterpart construct else pure ()

mutual

def Expr.reduce : Expr → Reduced Sql.Expr
  | .identifier name => pure (.column { name })
  | .path parts => do
    let column ← Column.ofPath parts
    pure (.column column)
  | .literal value => pure (.literal value)
  | .constant name => noCounterpart ("value " ++ name)
  | .binary left op right => do
    let left ← left.reduce
    let right ← right.reduce
    pure (.binary left op right)
  | .unary op operand => do
    let operand ← operand.reduce
    pure (.unary op operand)
  | .isValue operand value negated => do
    let operand ← operand.reduce
    pure (.isValue operand value negated)
  | .between operand low high negated => do
    let operand ← operand.reduce
    let low ← low.reduce
    let high ← high.reduce
    pure (.between operand low high negated)
  | .inList operand items negated => do
    let operand ← operand.reduce
    let items ← reduceExprs items
    pure (.inList operand items negated)
  | .inQuery operand query negated => do
    let operand ← operand.reduce
    let query ← query.reduce
    pure (.inQuery operand query negated)
  | .existsQuery query negated => do
    let query ← query.reduce
    pure (.existsQuery query negated)
  | .subquery query => do
    let query ← query.reduce
    pure (.subquery query)
  | .like any operand pattern negated ignoreCase _ => do
    refuse any "LIKE ANY"
    let operand ← operand.reduce
    let pattern ← pattern.reduce
    pure (.like operand pattern negated ignoreCase)
  | .call function window filter args => do
    let path ← reducePath function
    let name := pathText path
    refuse window ("window function " ++ name)
    refuse filter ("FILTER clause on " ++ name)
    let (args, distinct) ← args.reduce name
    pure (.call name args distinct)
  | .nested inner => do
    let inner ← inner.reduce
    pure (.nested inner)
  | .member => noCounterpart "CompoundFieldAccess"
  | .wildcard => pure .wildcard
  | .foreign construct => noCounterpart construct
termination_by structural e => e

def reduceExprs : List Expr → Reduced (List Sql.Expr)
  | [] => pure []
  | e :: es => do
    let e ← e.reduce
    let es ← reduceExprs es
    pure (e :: es)
termination_by structural es => es

def reduceOption : Option Expr → Reduced (Option Sql.Expr)
  | none => pure none
  | some e => do
    let e ← e.reduce
    pure (some e)
termination_by structural e => e

/-- Reduces the arguments of the function `name`, with the mark for distinct values. -/
def Arguments.reduce (name : String) : Arguments → Reduced (List Sql.Expr × Bool)
  | .absent => pure ([], false)
  | .list distinct items => do
    let items ← reduceArguments name items
    pure (items, distinct)
  | .subquery => noCounterpart ("subquery argument of " ++ name)
termination_by structural a => a

def Argument.reduce (name : String) : Argument → Reduced Sql.Expr
  | .expr value => value.reduce
  | .wildcard => pure .wildcard
  | .foreign kind => noCounterpart ("argument " ++ kind ++ " of " ++ name)
termination_by structural a => a

def reduceArguments (name : String) : List Argument → Reduced (List Sql.Expr)
  | [] => pure []
  | a :: as => do
    let a ← a.reduce name
    let as ← reduceArguments name as
    pure (a :: as)
termination_by structural as => as

def Query.reduce : Query → Reduced Sql.Query
  | ⟨withClause, body, orderBy, limits, fetch⟩ => do
    refuse withClause "WITH"
    refuse fetch "FETCH"
    let inner ← body.reduce
    let orderBy ← orderBy.reduce
    let (limit, offset) ← reduceLimits limits
    inner.modify orderBy limit offset
termination_by structural q => q

def Body.reduce : Body → Reduced Sql.Query
  | .select block => do
    let block ← block.reduce
    pure (.ofSelect block)
  | .query query => query.reduce
  | .setOperation op quantifier left right => do
    let all ← quantifier.reduce
    let left ← left.reduce
    let right ← right.reduce
    pure { body := .setOperation op all left right }
  | .foreign name => noCounterpart name
termination_by structural b => b

/-- Reduces the limit clause, to the limit and the offset. -/
def LimitClause.reduce : LimitClause → Reduced (Option Sql.Expr × Option Sql.Expr)
  | .limitOffset limit offset perGroup => do
    refuse perGroup "LIMIT BY"
    let limit ← reduceOption limit
    let offset ← reduceOption offset
    pure (limit, offset)
  | .offsetComma offset limit => do
    let limit ← limit.reduce
    let offset ← offset.reduce
    pure (some limit, some offset)
termination_by structural l => l

def reduceLimits : Option LimitClause → Reduced (Option Sql.Expr × Option Sql.Expr)
  | none => pure (none, none)
  | some l => l.reduce
termination_by structural l => l

def OrderItem.reduce : OrderItem → Reduced Sql.OrderItem
  | ⟨key, descending, _⟩ => do
    let key ← key.reduce
    pure ⟨key, descending⟩
termination_by structural i => i

def OrderBy.reduce : OrderBy → Reduced (List Sql.OrderItem)
  | .keys items => reduceOrder items
  | .all => noCounterpart "ORDER BY All"
termination_by structural o => o

def reduceOrder : List OrderItem → Reduced (List Sql.OrderItem)
  | [] => pure []
  | i :: is => do
    let i ← i.reduce
    let is ← reduceOrder is
    pure (i :: is)
termination_by structural is => is

def GroupBy.reduce : GroupBy → Reduced (List Sql.Expr)
  | .keys items modifiers => do
    refuse modifiers "GROUP BY modifiers"
    reduceExprs items
  | .all => noCounterpart "GROUP BY ALL"
termination_by structural g => g

def Select.reduce : Select → Reduced Sql.Select
  | ⟨distinct, top, projection, sources, condition, groupBy, having⟩ => do
    let distinct ← distinct.reduce
    refuse top "TOP"
    let projection ← reduceItems projection
    let sources ← reduceFrom sources
    let condition ← reduceOption condition
    let groupBy ← groupBy.reduce
    let having ← reduceOption having
    pure { distinct, projection, sources, condition, groupBy, having }
termination_by structural s => s

def SelectItem.reduce : SelectItem → Reduced Sql.SelectItem
  | .expr value aliasName => do
    let value ← value.reduce
    pure (.expr value aliasName)
  | .all => pure .all
  | .allOf path => do
    let path ← reducePath path
    match path.getLast? with
    | some table => pure (.allOf table)
    | none => noCounterpart "qualified wildcard"
  | .allOfValue => noCounterpart "qualified wildcard Expr"
termination_by structural i => i

def reduceItems : List SelectItem → Reduced (List Sql.SelectItem)
  | [] => pure []
  | i :: is => do
    let i ← i.reduce
    let is ← reduceItems is
    pure (i :: is)
termination_by structural is => is

def Relation.reduce : Relation → Reduced Sql.Relation
  | .table path aliasName args => do
    refuse args "table function"
    let path ← reducePath path
    pure (.table path (aliasName.map (·.name)))
  | .derived query aliasName => do
    let query ← query.reduce
    pure (.derived query (aliasName.map (·.name)))
  | .foreign name => noCounterpart name
termination_by structural r => r

/-- Reduces the constraint of a join; of a qualified column the last part is kept. -/
def JoinConstraint.reduce : JoinConstraint → Reduced Sql.JoinConstraint
  | .on condition => do
    let condition ← condition.reduce
    pure (.on condition)
  | .shared columns => do
    let columns ← columns.mapM reducePath
    pure (.shared (columns.filterMap (·.getLast?)))
  | .natural => pure .natural
  | .unconstrained => pure .unconstrained
termination_by structural c => c

def Join.reduce : Join → Reduced Sql.Join
  | ⟨relation, operator, constraint⟩ => do
    let kind ← operator.reduce
    let constraint ← constraint.reduce
    let relation ← relation.reduce
    pure ⟨relation, kind, constraint⟩
termination_by structural j => j

def reduceJoins : List Join → Reduced (List Sql.Join)
  | [] => pure []
  | j :: js => do
    let j ← j.reduce
    let js ← reduceJoins js
    pure (j :: js)
termination_by structural js => js

def FromItem.reduce : FromItem → Reduced Sql.FromItem
  | ⟨relation, joins⟩ => do
    let relation ← relation.reduce
    let joins ← reduceJoins joins
    pure ⟨relation, joins⟩
termination_by structural i => i

def reduceFrom : List FromItem → Reduced (List Sql.FromItem)
  | [] => pure []
  | i :: is => do
    let i ← i.reduce
    let is ← reduceFrom is
    pure (i :: is)
termination_by structural is => is

end

/-- Reduces a statement, which has to be a query. -/
def Statement.reduce : Statement → Reduced Sql.Query
  | .query q => q.reduce
  | .foreign name => noCounterpart ("statement " ++ name)

end Surface

end QuerySteps.Sql
