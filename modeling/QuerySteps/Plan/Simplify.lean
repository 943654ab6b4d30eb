import QuerySteps.Plan.Basic

/-!
# Simplifying plans

A rule makes a plan shorter and counts the steps it folds away. The only rule of the library
moves the condition of a check that is used once into the step that uses it: `Check if a equals 1`
and `Filter t using condition: <ref>` become `Filter t using condition: a equals 1`. Surviving
steps keep their identifiers and their order.
-/

namespace QuerySteps

/-- A shorter plan and the number of changes that led to it. -/
structure Shortened where
  plan : Plan
  count : Nat
  deriving Repr, DecidableEq

/-- A way to shorten plans: every application removes a step. -/
structure Rule where
  name : String
  apply : Plan → Shortened
  length_le : ∀ plan, (apply plan).plan.length + (apply plan).count ≤ plan.length

namespace Part

/-- Whether the fragments chain conditions. -/
def haveConnective (parts : List Part) : Bool :=
  parts.any fun p => p == .text "and" || p == .text "or"

/-- Whether the fragments hold an enumeration. -/
def haveList (parts : List Part) : Bool :=
  parts.any fun p => p == .text "," || p == .text "and"

/-- The fragments with `body` in the place of the first reference to `id`. -/
def splice (id : StepId) (body : List Part) : List Part → List Part
  | [] => []
  | p :: parts => if p == .ref id then body ++ parts else p :: splice id body parts

end Part

namespace Plan

def singleUseChecks (plan : Plan) : List StepId :=
  ids (plan.filter fun s => s.isCheck && plan.refCount s.id == 1)

/-- The condition of a check as it is written into the fragments `parts` of its user: in
parentheses where it would run into the words around it. -/
def inlineBody (check : Step) (intoCheck : Bool) (parts : List Part) : List Part :=
  let body := check.parts.tail
  if (if intoCheck then Part.haveConnective body else Part.haveList parts) then
    .text "(" :: body ++ [.text ")"]
  else body

/-- Moves the condition of the check `target` into the first step that refers to it. A check
whose user is gone once the check is removed disappears without being counted. -/
def inlineCheck (plan : Plan) (target : StepId) : Shortened :=
  match plan.userOf? target, plan.step? target with
  | some user, some check =>
    let rest := plan.eraseStep target
    match rest.step? user.id with
    | some step =>
      if step.parts.contains (.ref target) then
        let body := inlineBody check user.isCheck step.parts
        ⟨rest.setParts user.id (Part.splice target body step.parts), 1⟩
      else ⟨rest, 0⟩
    | none => ⟨rest, 0⟩
  | _, _ => ⟨plan, 0⟩

def inlineEach (plan : Plan) : List StepId → Shortened
  | [] => ⟨plan, 0⟩
  | target :: targets =>
    let first := plan.inlineCheck target
    let others := inlineEach first.plan targets
    ⟨others.plan, first.count + others.count⟩

/-- Inlines every check that is used exactly once when the pass begins. -/
def inlineChecks (plan : Plan) : Shortened :=
  plan.inlineEach plan.singleUseChecks

theorem length_inlineCheck_le (plan : Plan) (target : StepId) :
    (plan.inlineCheck target).plan.length + (plan.inlineCheck target).count ≤ plan.length := by
  unfold inlineCheck
  split
  · rename_i user check _ hc
    have := length_eraseStep_of_step? hc
    simp only
    split
    · split
      · simp; omega
      · simp; omega
    · simp; omega
  · simp

theorem length_inlineEach_le (targets : List StepId) (plan : Plan) :
    (plan.inlineEach targets).plan.length + (plan.inlineEach targets).count ≤ plan.length := by
  induction targets generalizing plan with
  | nil => simp [inlineEach]
  | cons target targets ih =>
    have h1 := length_inlineCheck_le plan target
    have h2 := ih (plan.inlineCheck target).plan
    simp only [inlineEach]
    omega

end Plan

def Rule.inlineChecks : Rule where
  name := "inline_checks"
  apply := Plan.inlineChecks
  length_le plan := Plan.length_inlineEach_le _ plan

/-- Rules that are applied together until none of them changes anything. -/
structure Simplifier where
  rules : List Rule := [.inlineChecks]

namespace Simplifier

/-- The names of the rules in the order in which they are applied. -/
def ruleNames (s : Simplifier) : List String :=
  s.rules.map (·.name)

def applyEach (plan : Plan) : List Rule → Shortened
  | [] => ⟨plan, 0⟩
  | rule :: rules =>
    let first := rule.apply plan
    let others := applyEach first.plan rules
    ⟨others.plan, first.count + others.count⟩

theorem length_applyEach_le (rules : List Rule) (plan : Plan) :
    (applyEach plan rules).plan.length + (applyEach plan rules).count ≤ plan.length := by
  induction rules generalizing plan with
  | nil => simp [applyEach]
  | cons rule rules ih =>
    have h1 := rule.length_le plan
    have h2 := ih (rule.apply plan).plan
    simp only [applyEach]
    omega

/-- One round of all rules. -/
def round (s : Simplifier) (plan : Plan) : Shortened :=
  applyEach plan s.rules

/-- Rounds of all rules until a round counts no change. It ends because every counted change
leaves one step fewer. -/
def simplify (s : Simplifier) (plan : Plan) : Plan :=
  match _h : s.round plan with
  | ⟨next, 0⟩ => next
  | ⟨next, _ + 1⟩ => s.simplify next
termination_by plan.length
decreasing_by
  have := length_applyEach_le s.rules plan
  simp only [round] at _h
  simp only [_h] at this
  omega

end Simplifier

end QuerySteps
