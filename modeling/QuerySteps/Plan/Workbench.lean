import QuerySteps.Plan.Sheet

/-!
# Workbenches

A workbench holds numbered plans. Every plan belongs to a session, and the plans of one session
take their identifiers from the same count.
-/

namespace QuerySteps

/-- Plans, and the identifiers handed out in each session. -/
structure Workbench where
  /-- For each session the number of identifiers handed out. -/
  issued : List Nat := [0]
  /-- For each plan its session and its steps. -/
  plans : List (Nat × Plan) := [(0, [])]
  deriving Repr, DecidableEq

namespace Workbench

/-- The plan of the given number as a sheet. -/
def sheet? (w : Workbench) (number : Nat) : Option Sheet := do
  let (session, plan) ← w.plans[number]?
  let issued ← w.issued[session]?
  pure ⟨issued, plan⟩

def modify (w : Workbench) (number : Nat) (change : Sheet → Sheet) : Workbench :=
  match w.plans[number]? with
  | none => w
  | some (session, plan) =>
    match w.issued[session]? with
    | none => w
    | some issued =>
      let sheet := change ⟨issued, plan⟩
      ⟨w.issued.set session sheet.issued, w.plans.set number (session, sheet.plan)⟩

/-- Opens an empty plan in the session of another one. -/
def child (w : Workbench) (number : Nat) : Workbench :=
  match w.plans[number]? with
  | none => w
  | some (session, _) => { w with plans := w.plans ++ [(session, [])] }

/-- Opens an empty plan in a session of its own. -/
def newSession (w : Workbench) : Workbench :=
  ⟨w.issued ++ [0], w.plans ++ [(w.issued.length, [])]⟩

/-- Adds a copy of the plan `source` to the end of the plan `number`. -/
def copyInto (w : Workbench) (number source : Nat) : Workbench :=
  match w.plans[source]? with
  | none => w
  | some (_, plan) => w.modify number (·.append plan)

/-- Moves the steps of the plan `source` to the end of the plan `number`. -/
def moveInto (w : Workbench) (number source : Nat) : Workbench :=
  match w.plans[source]? with
  | none => w
  | some (session, plan) =>
    let emptied : Workbench := { w with plans := w.plans.set source (session, []) }
    emptied.modify number (·.append plan)

end Workbench

end QuerySteps
