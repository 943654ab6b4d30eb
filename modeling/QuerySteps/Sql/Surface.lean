import QuerySteps.Sql.Query.Basic

/-!
# Surface trees

What a grammar finds in a text, as far as reducing the tree looks at it. Three kinds of constructs
have no place in queries.

- Parenthesised queries inside one another, the escape character of LIKE, the place of NULLs in an
  order, and column lists after a table's alias are recorded in full.
- Of a construct that reducing refuses the tree keeps a mark or the name, which is what the error
  tells.
- Whatever else the grammar takes is read and discarded, and the text stands for the query that it
  would stand for without it. Among these are QUALIFY and WINDOW clauses, INTO, the options of a
  star, locks after FOR, LATERAL before a query, partitions, ordinality and hints of a table, ROWS
  after an offset, WITHIN GROUP, and the clauses and the treatment of NULLs that may follow the
  arguments of a call.
-/

namespace QuerySteps.Sql.Surface

/-- Whether a set operation keeps duplicates. -/
inductive Quantifier where
  | none | all | distinct
  /-- A quantifier without a counterpart, by its name. -/
  | foreign (name : String)
  deriving Repr, DecidableEq

inductive Distinct where
  | absent | rows
  /-- Distinct values of chosen expressions. -/
  | on
  deriving Repr, DecidableEq

inductive PathPart where
  | name (name : Name)
  /-- A part that a call computes. -/
  | call
  deriving Repr, DecidableEq

/-- The alias of a relation, with names for its columns. -/
structure Alias where
  name : Name
  columns : List Name := []
  deriving Repr, DecidableEq

/-- How a relation joins those before it. -/
inductive JoinOperator where
  | kind (kind : JoinKind)
  /-- A join without a counterpart, by its name. -/
  | foreign (name : String)
  deriving Repr, DecidableEq

mutual

inductive Expr where
  | identifier (name : Name)
  /-- A name of several parts. -/
  | path (parts : List Name)
  | literal (value : Literal)
  /-- A constant without a counterpart, by its name. -/
  | constant (name : String)
  | binary (left : Expr) (op : BinaryOp) (right : Expr)
  | unary (op : UnaryOp) (operand : Expr)
  | isValue (operand : Expr) (value : Literal) (negated : Bool)
  | between (operand low high : Expr) (negated : Bool)
  | inList (operand : Expr) (items : List Expr) (negated : Bool)
  | inQuery (operand : Expr) (query : Query) (negated : Bool)
  | existsQuery (query : Query) (negated : Bool)
  | subquery (query : Query)
  /-- LIKE or ILIKE; `any` compares with any of several patterns. -/
  | like (any : Bool) (operand pattern : Expr) (negated ignoreCase : Bool)
      (escape : Option Expr)
  /-- A call, with marks for a window and for a FILTER clause. -/
  | call (function : List PathPart) (window filter : Bool) (args : Arguments)
  | nested (inner : Expr)
  /-- A field or an element of a value. -/
  | member
  | wildcard
  /-- An expression without a counterpart, by its name. -/
  | foreign (construct : String)

/-- What stands between the parentheses of a call. -/
inductive Arguments where
  /-- A call without parentheses. -/
  | absent
  | list (distinct : Bool) (items : List Argument)
  | subquery

inductive Argument where
  | expr (value : Expr)
  | wildcard
  /-- An argument without a counterpart, by its name. -/
  | foreign (name : String)

structure Query where
  /-- Whether a WITH clause stands before the query. -/
  withClause : Bool := false
  body : Body
  orderBy : OrderBy
  limits : Option LimitClause := none
  /-- Whether a FETCH clause stands after the query. -/
  fetch : Bool := false

/-- What a query selects from. -/
inductive Body where
  | select (block : Select)
  /-- A query between parentheses. -/
  | query (query : Query)
  | setOperation (op : SetOperator) (quantifier : Quantifier) (left right : Body)
  /-- A body without a counterpart, by its name. -/
  | foreign (name : String)

inductive OrderBy where
  /-- Sort keys; no keys stand for no clause. -/
  | keys (items : List OrderItem)
  /-- All columns of the result. -/
  | all

/-- LIMIT and OFFSET in either spelling. -/
inductive LimitClause where
  /-- `LIMIT limit OFFSET offset`, and whether the limit counts per group of rows. -/
  | limitOffset (limit offset : Option Expr) (perGroup : Bool)
  /-- `LIMIT offset, limit`. -/
  | offsetComma (offset limit : Expr)

structure Select where
  distinct : Distinct := .absent
  /-- Whether TOP limits the rows. -/
  top : Bool := false
  projection : List SelectItem := []
  sources : List FromItem := []
  condition : Option Expr := none
  groupBy : GroupBy
  having : Option Expr := none

inductive GroupBy where
  /-- Keys, and whether modifiers follow them; no keys stand for no clause. -/
  | keys (items : List Expr) (modifiers : Bool)
  | all

inductive SelectItem where
  | expr (value : Expr) (aliasName : Option Name)
  | all
  | allOf (path : List PathPart)
  /-- All fields of a value. -/
  | allOfValue

structure FromItem where
  relation : Relation
  joins : List Join := []

structure Join where
  relation : Relation
  operator : JoinOperator
  constraint : JoinConstraint

/-- Which rows of a joined relation match. -/
inductive JoinConstraint where
  | on (condition : Expr)
  | shared (columns : List (List PathPart))
  | natural
  | unconstrained

inductive Relation where
  /-- A table by its qualified name; `args` marks a call. -/
  | table (path : List PathPart) (aliasName : Option Alias) (args : Bool)
  | derived (query : Query) (aliasName : Option Alias)
  /-- A source without a counterpart, by its name. -/
  | foreign (name : String)

/-- A sort key, and the place of NULLs if the text gives it. -/
structure OrderItem where
  key : Expr
  descending : Bool := false
  nullsFirst : Option Bool := none

end

inductive Statement where
  | query (query : Query)
  /-- A statement that is no query, by its name. -/
  | foreign (name : String)

end QuerySteps.Sql.Surface
