import QuerySteps.Sql.Grammar.Lexicon
import QuerySteps.Sql.Grammar.Parser
import QuerySteps.Sql.Surface

/-!
# Grammars

Expressions, queries, relations and statements hold one another. The parser of each is written over
a `Grammar`, which reads the parts one level further down; nesting is thus bounded by the number of
levels.
-/

namespace QuerySteps.Sql

/-- Parsers for the parts that nest. -/
structure Grammar where
  /-- An expression of the operators that bind more tightly than a number. -/
  expr : Nat → Parser Surface.Expr
  /-- An expression without infix operators. -/
  operand : Parser Surface.Expr
  query : Parser Surface.Query
  relation : Parser Surface.Relation
  statement : Parser Surface.Statement

namespace Grammar

open QuerySteps.Sql.Parser

/-- The grammar at the lowest level, where nothing is read any more. -/
def spent : Grammar where
  expr _ := fail .tooDeep
  operand := fail .tooDeep
  query := fail .tooDeep
  relation := fail .tooDeep
  statement := fail .tooDeep

def anyExpr (g : Grammar) : Parser Surface.Expr :=
  g.expr 0

def exprList (g : Grammar) : Parser (List Surface.Expr) :=
  commaList g.anyExpr

/-- Whether a query opens with one of the lexemes to come. -/
def queryAhead : Parser Bool :=
  peekKeywordOf ["SELECT", "WITH"]

def orderItem (g : Grammar) : Parser Surface.OrderItem := do
  let key ← g.anyExpr
  let direction ← keywordOf? ["ASC", "DESC"]
  let nullsFirst ←
    if ← keywords? ["NULLS", "FIRST"] then pure (some true)
    else if ← keywords? ["NULLS", "LAST"] then pure (some false)
    else pure none
  pure { key, descending := direction == some "DESC", nullsFirst }

/-- The sort keys after ORDER BY; none without this clause. -/
def orderBy (g : Grammar) : Parser (List Surface.OrderItem) := do
  if ← keywords? ["ORDER", "BY"] then commaList g.orderItem else pure []

/-- An expression, or a star in the place of one. -/
inductive Starred where
  | expr (value : Surface.Expr)
  | all
  | allOf (path : List Name)

/-- The part of a qualified name before a star that a token stands for: any word, or a string
between single quotes. -/
def partOf? : Token → Option Name
  | .quoted .double _ => none
  | token => nameOf? token

/-- The qualified name that leads to a star, after its first part. There is none if the name ends
without a star; a dot has to have a part or a star behind it. -/
def pathToStar (first : Name) : List Lexeme → Except Stop (Option (List Name × List Lexeme))
  | dot :: part :: rest =>
    if dot.token == .sign "." then
      if part.token == .sign "*" then .ok (some ([first], rest))
      else
        match partOf? part.token with
        | some n => do
          let more ← pathToStar n rest
          pure (more.map fun (path, rest) => (first :: path, rest))
        | none => .error .mismatch
    else .ok none
  | [dot] => if dot.token == .sign "." then .error .mismatch else .ok none
  | [] => .ok none

def starred (g : Grammar) : Parser Starred := fun d input =>
  let expr : Parser Starred := do
    let e ← g.anyExpr
    pure (.expr e)
  match input with
  | t :: rest =>
    if t.token == .sign "*" then .ok (.all, rest)
    else
      match (partOf? t.token).map (pathToStar · rest) with
      | some (.error stop) => .error stop
      | some (.ok (some (path, rest))) => .ok (.allOf path, rest)
      | _ => expr d input
  | [] => .error .mismatch

end Grammar

end QuerySteps.Sql
