import QuerySteps.Sql.Grammar.Depth
import QuerySteps.Sql.Lexer.Scan
import QuerySteps.Sql.Reduce

/-!
# Reading queries

A text is read in three stages: its lexemes, their surface tree, and the query that the tree stands
for. The text has to hold one statement, and whether it does is decided before the statement is
reduced.
-/

namespace QuerySteps.Sql

/-- The statements of a text, if it can be read. -/
def Surface.Statement.ofText? (d : Dialect) (text : String) : Option (List Surface.Statement) := do
  let lexemes ← Lexeme.ofText d text
  match Grammar.whole.statements d lexemes with
  | .ok (statements, _) => some statements
  | .error _ => none

def Surface.Statement.only : List Surface.Statement → Reduced Surface.Statement
  | [] => .error .noStatement
  | [s] => pure s
  | _ => .error .severalStatements

def Query.ofText (d : Dialect) (text : String) : Except ReadError Query := do
  match Surface.Statement.ofText? d text with
  | none => .error .ungrammatical
  | some statements =>
    let s ← Surface.Statement.only statements
    s.reduce

end QuerySteps.Sql
