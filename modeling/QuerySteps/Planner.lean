import QuerySteps.Plan.Sheet
import QuerySteps.Plan.Validity
import QuerySteps.Sql.Read
import QuerySteps.Translate.Query

/-!
# Planners

A planner turns a query into a plan: the steps of the query, a last step that writes its results,
then simplification, the prologue and the interlude, and a check that all references are to earlier
steps.
-/

namespace QuerySteps

open Sql

/-- Settings and the rules for simplifying. -/
structure Planner where
  settings : Settings := {}
  simplifier : Simplifier := {}

namespace Planner

/-- Writes the results of a query to the destination. -/
def write (s : Settings) (rows : Label) : Draft Label :=
  Draft.step (Label.text ("Write to " ++ s.sink ++ " the") ++ rows)

def draft (s : Settings) (query : Query) : Draft Label := do
  let rows ← query.draft s
  write s rows

/-- The steps of a query and of writing its results, in a session of their own. -/
def steps (s : Settings) (query : Query) : Except PlanError Sheet :=
  match draft s query 0 with
  | .error e => .error e
  | .ok written => .ok ⟨written.next, written.steps⟩

/-- Simplifies the plan and surrounds it with the prologue and the interlude. -/
def finish (p : Planner) (sheet : Sheet) : Sheet :=
  let sheet := if p.settings.simplify then sheet.simplify p.simplifier else sheet
  let sheet := sheet.prependAll p.settings.prologue
  match p.settings.interlude with
  | none => sheet
  | some words => sheet.intersperse words

def planQuery (p : Planner) (query : Query) : Except PlanError Sheet := do
  let sheet ← steps p.settings query
  let sheet := p.finish sheet
  sheet.plan.validate
  pure sheet

def plan (p : Planner) (text : String) : Except PlanError Sheet :=
  match Query.ofText p.settings.dialect text with
  | .error e => .error (.ofRead e)
  | .ok query => p.planQuery query

end Planner

end QuerySteps
