import QuerySteps.Sql.Grammar.Expr
import QuerySteps.Sql.Grammar.Statement

/-!
# Depth

The grammar at each depth, and the statements of a text. A text may nest fifty levels deep.
-/

namespace QuerySteps.Sql

namespace Grammar

/-- The grammar that reads one level more. -/
def deeper (g : Grammar) : Grammar where
  expr := g.readExpr
  operand := g.readOperand
  query := g.readQuery
  relation := g.readRelation
  statement := g.readStatement

/-- The grammar that reads a number of levels. -/
def ofDepth : Nat → Grammar
  | 0 => spent
  | n + 1 => (ofDepth n).deeper

def maxDepth : Nat := 50

def whole : Grammar :=
  ofDepth maxDepth

open QuerySteps.Sql.Parser

/-- The next statement of a text, if there is one. A semicolon or the end of the text has to follow
the statement before it; the word END in that place ends the text. -/
def statement? (g : Grammar) (afterStatement : Bool) : Parser (Option Surface.Statement) := do
  let semicolons ← collect (do
    if ← sign? ";" then pure (some ()) else pure none)
  let needsEnd := afterStatement && semicolons.isEmpty
  if (← rest).isEmpty then pure none
  else if needsEnd then
    if ← peekKeywordOf ["END"] then pure none else mismatch
  else
    let s ← g.statement
    pure (some s)

def statements (g : Grammar) : Parser (List Surface.Statement) := do
  let found ← iterate (fun found => do
    match ← g.statement? !found.isEmpty with
    | some s => pure (some (s :: found))
    | none => pure none) []
  pure found.reverse

end Grammar

end QuerySteps.Sql
