/-!
# Steps

A step is one instruction: text and references to other steps, in reading order. Its identifier is
handed out when the step is made and says nothing about the place where the step is shown.
Identifiers are taken as never running out, so their count has no upper bound and does not wrap.
-/

namespace QuerySteps

/-- The identifier of a step, unique within a planning session. -/
abbrev StepId := Nat

inductive Part where
  | text (words : String)
  /-- The results of another step. -/
  | ref (step : StepId)
  deriving Repr, DecidableEq

namespace Part

def ref? : Part → Option StepId
  | text _ => none
  | ref id => some id

@[simp] theorem filterMap_ref?_text (words : String) (parts : List Part) :
    (text words :: parts).filterMap ref? = parts.filterMap ref? := rfl

@[simp] theorem filterMap_ref?_ref (id : StepId) (parts : List Part) :
    (ref id :: parts).filterMap ref? = id :: parts.filterMap ref? := rfl

end Part

/-- The phrase that opens every step which tests a condition. -/
def checkPhrase : String :=
  "Check if"

/-- One instruction of a plan. -/
structure Step where
  id : StepId
  parts : List Part
  deriving Repr, DecidableEq

namespace Step

def refs (s : Step) : List StepId :=
  s.parts.filterMap Part.ref?

/-- Whether the step's first fragment is exactly the text `phrase`. -/
def opensWith (s : Step) (phrase : String) : Bool :=
  s.parts.head? == some (.text phrase)

/-- Whether the step tests a condition. -/
def isCheck (s : Step) : Bool :=
  s.opensWith checkPhrase

end Step

end QuerySteps
