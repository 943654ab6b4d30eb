import QuerySteps.Sql.Name

/-!
# Queries

The query language that can be put into words: expressions, SELECT blocks over joined relations,
set operations, ordering and row limits. Expressions and queries contain one another, so they are
declared together. A query outside this language is refused while it is read.
-/

namespace QuerySteps.Sql

/-- A constant. Numbers keep the text they were written with; strings are unescaped. -/
inductive Literal where
  | null
  | boolean (value : Bool)
  | number (text : String)
  | string (value : String)
  deriving Repr, DecidableEq

inductive BinaryOp where
  | plus | minus | times | divide | modulo | concat
  | eq | notEq | lt | ltEq | gt | gtEq
  | and | or
  deriving Repr, DecidableEq

namespace BinaryOp

/-- Whether the operator computes a value rather than a truth value. -/
def isArithmetic : BinaryOp → Bool
  | plus | minus | times | divide | modulo | concat => true
  | _ => false

/-- Whether the operator yields a truth value. -/
def isPredicate (op : BinaryOp) : Bool :=
  !op.isArithmetic

end BinaryOp

inductive UnaryOp where
  | not | neg | plus
  deriving Repr, DecidableEq

inductive JoinKind where
  | inner | left | right | full | cross
  deriving Repr, DecidableEq

inductive SetOperator where
  | union | intersect | except
  deriving Repr, DecidableEq

mutual

inductive Expr where
  | column (column : Column)
  | literal (value : Literal)
  | binary (left : Expr) (op : BinaryOp) (right : Expr)
  | unary (op : UnaryOp) (operand : Expr)
  /-- `operand IS [NOT] value`, where the value is NULL or a truth value. -/
  | isValue (operand : Expr) (value : Literal) (negated : Bool)
  | between (operand low high : Expr) (negated : Bool)
  | inList (operand : Expr) (items : List Expr) (negated : Bool)
  | inQuery (operand : Expr) (query : Query) (negated : Bool)
  | existsQuery (query : Query) (negated : Bool)
  | subquery (query : Query)
  | like (operand pattern : Expr) (negated ignoreCase : Bool)
  /-- A call, with the function's name as written. -/
  | call (function : String) (args : List Expr) (distinct : Bool)
  /-- An expression between parentheses. -/
  | nested (inner : Expr)
  /-- The `*` of `COUNT(*)`. -/
  | wildcard

/-- A query with its ordering and row limits. -/
structure Query where
  body : QueryBody
  orderBy : List OrderItem := []
  limit : Option Expr := none
  offset : Option Expr := none

/-- What a query selects from. -/
inductive QueryBody where
  | select (block : Select)
  /-- Two queries combined; `all` keeps duplicates. -/
  | setOperation (op : SetOperator) (all : Bool) (left right : Query)

structure Select where
  distinct : Bool := false
  projection : List SelectItem
  sources : List FromItem := []
  condition : Option Expr := none
  groupBy : List Expr := []
  having : Option Expr := none

/-- One column, or a set of columns, of a SELECT list. -/
inductive SelectItem where
  | expr (value : Expr) (aliasName : Option Name)
  /-- All columns of all relations. -/
  | all
  /-- All columns of one relation. -/
  | allOf (table : Name)

/-- A relation of FROM with the relations joined to it. -/
structure FromItem where
  relation : Relation
  joins : List Join := []

structure Join where
  relation : Relation
  kind : JoinKind
  constraint : JoinConstraint

inductive JoinConstraint where
  | on (condition : Expr)
  /-- Equality of the columns shared by these names. -/
  | shared (columns : List Name)
  | natural
  | unconstrained

inductive Relation where
  /-- A table by its qualified name, the table's own name last. -/
  | table (path : List Name) (aliasName : Option Name)
  /-- A query used as a table. -/
  | derived (query : Query) (aliasName : Option Name)

structure OrderItem where
  key : Expr
  descending : Bool := false

end

namespace Expr

/-- The word for an expression's outermost form, used in messages. -/
def form : Expr → String
  | column _ => "Column"
  | literal _ => "Literal"
  | binary .. => "Binary"
  | unary .. => "Unary"
  | isValue .. => "Is"
  | between .. => "Between"
  | inList .. => "InList"
  | inQuery .. => "InSubquery"
  | existsQuery .. => "Exists"
  | subquery _ => "Subquery"
  | like .. => "Like"
  | call .. => "Function"
  | nested _ => "Nested"
  | wildcard => "Wildcard"

def isArithmetic : Expr → Bool
  | binary _ op _ => op.isArithmetic
  | _ => false

end Expr

namespace Relation

def alias? : Relation → Option Name
  | table _ aliasName => aliasName
  | derived _ aliasName => aliasName

def tableName? : Relation → Option Name
  | table path _ => path.getLast?
  | derived .. => none

/-- The name under which the other clauses know the relation: the alias before the table's name. -/
def exposedName? (r : Relation) : Option Name :=
  r.alias? <|> r.tableName?

end Relation

namespace FromItem

/-- The relation followed by those joined to it. -/
def relations (item : FromItem) : List Relation :=
  item.relation :: item.joins.map (·.relation)

end FromItem

namespace Select

def relations (s : Select) : List Relation :=
  s.sources.flatMap (·.relations)

def hasGrouping (s : Select) : Bool :=
  !s.groupBy.isEmpty || s.having.isSome

end Select

namespace Query

/-- The query that is no more than a SELECT block. -/
def ofSelect (block : Select) : Query :=
  { body := .select block }

/-- Whether the query orders or limits its rows. -/
def hasRowModifiers (q : Query) : Bool :=
  !q.orderBy.isEmpty || q.limit.isSome || q.offset.isSome

end Query

end QuerySteps.Sql
