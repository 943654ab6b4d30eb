import QuerySteps.Plan.Basic
import QuerySteps.Plan.Error
import QuerySteps.Text.Blank

/-!
# Plans as text

A step is shown as its number and a sentence. Fragments are separated by one space, except after
an opening parenthesis and before closing punctuation; a point followed by a digit opens a number
and is no punctuation. A sentence ends with exactly the periods it has, or with one.
-/

namespace QuerySteps

namespace Sentence

/-- Whether a fragment is written right after the one before it. -/
def attaches : List Char → Bool
  | ',' :: _ | ':' :: _ | ';' :: _ | ')' :: _ => true
  | '.' :: c :: _ => !c.isDigit
  | ['.'] => true
  | _ => false

def push (sentence fragment : List Char) : List Char :=
  if fragment.isEmpty then sentence
  else if sentence.isEmpty || attaches fragment || sentence.getLast? == some '(' then
    sentence ++ fragment
  else sentence ++ ' ' :: fragment

/-- The sentence without blanks at its end and with a final period. -/
def close (sentence : List Char) : List Char :=
  let words := Text.trimEnd sentence
  if words.getLast? == some '.' then words else words ++ ['.']

end Sentence

/-- The text of a fragment in a step shown as `number`: a reference has to resolve to a
smaller number. -/
def Part.render (number : Nat) (numberOf : StepId → Option Nat) : Part → Except PlanError String
  | .text words => pure words
  | .ref id =>
    match numberOf id with
    | some n => if n < number then pure s!"results of Step {n}" else throw (.unresolved id)
    | none => throw (.unresolved id)

namespace Step

/-- The sentence over the fragments, added to what stands before them. -/
def renderParts (number : Nat) (numberOf : StepId → Option Nat) (sentence : List Char) :
    List Part → Except PlanError (List Char)
  | [] => pure sentence
  | part :: parts => do
    let fragment ← part.render number numberOf
    renderParts number numberOf (Sentence.push sentence fragment.toList) parts

def render (number : Nat) (numberOf : StepId → Option Nat) (s : Step) :
    Except PlanError String := do
  let sentence ← renderParts number numberOf [] s.parts
  pure (number.repr ++ ". " ++ String.ofList (Sentence.close sentence))

end Step

namespace Plan

/-- The number under which a step is shown when the first one is `offset + 1`. -/
def numberOf (plan : Plan) (offset : Nat) (id : StepId) : Option Nat :=
  (plan.position? id).map (offset + ·)

/-- The lines of the steps, the first of them numbered `number`. -/
def renderFrom (numberOf : StepId → Option Nat) (number : Nat) :
    List Step → Except PlanError (List String)
  | [] => pure []
  | s :: rest => do
    let line ← s.render number numberOf
    let lines ← renderFrom numberOf (number + 1) rest
    pure (line :: lines)

def lines (plan : Plan) (offset : Nat) : Except PlanError (List String) :=
  renderFrom (plan.numberOf offset) (offset + 1) plan

/-- The plan as one text, every line after `marker` and a space if there is a marker. -/
def format (plan : Plan) (marker : String) (offset : Nat) : Except PlanError String := do
  let lines ← plan.lines offset
  let lines := if marker.isEmpty then lines else lines.map (marker ++ " " ++ ·)
  pure ("\n".intercalate lines)

end Plan

end QuerySteps
