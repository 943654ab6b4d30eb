import QuerySteps.Plan.Step

/-!
# Errors

Why a query text cannot be read, and why a query cannot be turned into a plan.
-/

namespace QuerySteps

/-- Why a text cannot be read as a query. -/
inductive ReadError where
  /-- The text breaks the grammar, or does not hold exactly one statement. -/
  | malformed (detail : Option String)
  /-- The text is well formed, but a construct in it has no counterpart among queries. -/
  | unsupported (construct : String)
  deriving Repr, DecidableEq

namespace ReadError

def ungrammatical : ReadError :=
  malformed none

def noStatement : ReadError :=
  malformed (some "Empty SQL statement")

def severalStatements : ReadError :=
  malformed (some "Multiple statements not supported")

/-- The wording of the failure to parse. -/
def parseMessage : Option String → String
  | none => "Parse error"
  | some detail => "Parse error: " ++ detail

def message : ReadError → String
  | malformed detail => parseMessage detail
  | unsupported construct => "Unsupported: " ++ construct

end ReadError

/-- Why a query cannot be planned. -/
inductive PlanError where
  /-- The query text did not parse. -/
  | malformedQuery (detail : Option String)
  /-- A construct cannot be put into words. -/
  | unsupported (construct : String)
  /-- A step refers to a step that is missing or not strictly earlier. -/
  | unresolved (step : StepId)
  /-- A join condition is no equality or chain of equalities. -/
  | malformedJoin (reason : String)
  /-- A plan has an impossible shape. -/
  | invalidPlan (reason : String)
  deriving Repr, DecidableEq

namespace PlanError

def ofRead : ReadError → PlanError
  | .malformed detail => malformedQuery detail
  | .unsupported construct => unsupported construct

def message : PlanError → String
  | malformedQuery detail => ReadError.parseMessage detail
  | unsupported construct => "Unsupported construct: " ++ construct
  | unresolved step => "Unresolved reference to step #" ++ step.repr
  | malformedJoin reason => "Malformed join condition: " ++ reason
  | invalidPlan reason => "Invalid plan: " ++ reason

end PlanError

end QuerySteps
