import QuerySteps.Plan.Step

/-!
# Plans

A plan is its steps in the order in which they are shown. Identifiers come from the session that
owns the plan, so a plan alone does not promise that they differ: where an identifier occurs more
than once, `step?`, `eraseStep` and `setParts` mean its first step and `position?` its last.
-/

namespace QuerySteps

/-- Steps in display order. -/
abbrev Plan := List Step

namespace Plan

def ids (plan : Plan) : List StepId :=
  plan.map (·.id)

def refs (plan : Plan) : List StepId :=
  plan.flatMap (·.refs)

/-- The first step with the identifier. -/
def step? (plan : Plan) (id : StepId) : Option Step :=
  plan.find? (·.id == id)

/-- The plan without the first step of that identifier. -/
def eraseStep (plan : Plan) (id : StepId) : Plan :=
  plan.eraseP (·.id == id)

/-- The plan with new fragments for the first step of that identifier. -/
def setParts (id : StepId) (parts : List Part) : Plan → Plan
  | [] => []
  | s :: rest => if s.id == id then { s with parts } :: rest else s :: setParts id parts rest

/-- The first step that refers to `id`. -/
def userOf? (plan : Plan) (id : StepId) : Option Step :=
  plan.find? (·.refs.contains id)

def refCount (plan : Plan) (id : StepId) : Nat :=
  plan.refs.count id

/-- Every identifier that is held or referred to, ascending, with the number of references. -/
def refCounts (plan : Plan) : List (StepId × Nat) :=
  ((plan.ids ++ plan.refs).mergeSort.eraseReps).map fun id => (id, plan.refCount id)

/-- The place of the last step with the identifier, counted from 1. -/
def position? (id : StepId) : Plan → Option Nat
  | [] => none
  | s :: rest =>
    match position? id rest with
    | some place => some (place + 1)
    | none => if s.id == id then some 1 else none

@[simp] theorem length_setParts (id : StepId) (parts : List Part) (plan : Plan) :
    (setParts id parts plan).length = plan.length := by
  induction plan with
  | nil => rfl
  | cons s rest ih => simp only [setParts]; split <;> simp [ih]

@[simp] theorem ids_setParts (id : StepId) (parts : List Part) (plan : Plan) :
    ids (setParts id parts plan) = ids plan := by
  induction plan with
  | nil => rfl
  | cons s rest ih =>
    simp only [ids] at ih
    simp only [setParts]; split <;> simp [ids, ih]

theorem length_eraseStep_of_step? {plan : Plan} {id : StepId} {s : Step}
    (h : plan.step? id = some s) : (plan.eraseStep id).length + 1 = plan.length := by
  have hm := List.mem_of_find?_eq_some h
  have hp := List.find?_some h
  have hl : (plan.eraseP (·.id == id)).length = plan.length - 1 :=
    List.length_eraseP_of_mem hm hp
  have hpos := List.length_pos_of_mem hm
  unfold eraseStep
  omega

end Plan

end QuerySteps
