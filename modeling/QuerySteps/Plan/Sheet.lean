import QuerySteps.Plan.Label
import QuerySteps.Plan.Simplify

/-!
# Sheets

A sheet is a plan together with the count of identifiers that its session has handed out. Whatever
writes a step takes the next identifier, so steps never share one. The count is a natural number:
sessions in which identifiers run out are left out.
-/

namespace QuerySteps

/-- A plan and the number of identifiers handed out in its session. -/
structure Sheet where
  issued : Nat := 0
  plan : Plan := []
  deriving Repr, DecidableEq, Inhabited

namespace Sheet

/-- Hands out an identifier that no step holds. -/
def issue (s : Sheet) : Sheet :=
  { s with issued := s.issued + 1 }

def add (s : Sheet) (parts : List Part) : Sheet :=
  ⟨s.issued + 1, s.plan ++ [⟨s.issued, parts⟩]⟩

/-- Adds a step of text in front of all others. -/
def prepend (s : Sheet) (words : String) : Sheet :=
  ⟨s.issued + 1, ⟨s.issued, [.text words]⟩ :: s.plan⟩

/-- Adds steps of text in front of all others; the last text is added first. -/
def prependAll (s : Sheet) (texts : List String) : Sheet :=
  texts.foldr (fun words sheet => sheet.prepend words) s

/-- The steps, each followed by a new one with the given text, the first of them numbered
`next`. -/
def interleave (words : String) (next : StepId) : List Step → List Step
  | [] => []
  | step :: rest => step :: ⟨next, [.text words]⟩ :: interleave words (next + 1) rest

/-- Adds a step with the given text after every step. -/
def intersperse (s : Sheet) (words : String) : Sheet :=
  ⟨s.issued + s.plan.length, interleave words s.issued s.plan⟩

def append (s : Sheet) (other : Plan) : Sheet :=
  { s with plan := s.plan ++ other }

def simplify (s : Sheet) (simplifier : Simplifier) : Sheet :=
  { s with plan := simplifier.simplify s.plan }

end Sheet

end QuerySteps
