import QuerySteps.Plan.Basic
import QuerySteps.Plan.Error

/-!
# Valid plans

In a valid plan every reference is to a step shown strictly before.
-/

namespace QuerySteps.Plan

/-- The first of the references that is not to a step placed before `place`. -/
def badRef? (plan : Plan) (place : Nat) (refs : List StepId) : Option StepId :=
  refs.find? fun id =>
    match plan.position? id with
    | some p => !(p < place)
    | none => true

def validateFrom (plan : Plan) (place : Nat) : List Step → Except PlanError Unit
  | [] => pure ()
  | s :: rest =>
    match plan.badRef? place s.refs with
    | some id => throw (.unresolved id)
    | none => plan.validateFrom (place + 1) rest

/-- Fails with the first reference, in display order, that is not to an earlier step. -/
def validate (plan : Plan) : Except PlanError Unit :=
  plan.validateFrom 1 plan

end QuerySteps.Plan
