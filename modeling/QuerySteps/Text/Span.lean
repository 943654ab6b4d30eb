/-!
# Sets of characters as spans of code points

Character properties of the Unicode standard are stored as lists of `Span`s. Every property
answers for ASCII by a rule of its own and reads its table beyond ASCII only.
-/

namespace QuerySteps.Text

/-- The code points `first, first + step, …` up to `last`. -/
structure Span where
  first : Nat
  last : Nat
  step : Nat
  deriving Repr, DecidableEq

namespace Span

def contains (s : Span) (n : Nat) : Bool :=
  s.first ≤ n && n ≤ s.last && (n - s.first) % s.step == 0

/-- Spans without gaps, from the pairs of their first and last code points. -/
def unbroken (ends : List (Nat × Nat)) : List Span :=
  ends.map fun (first, last) => ⟨first, last, 1⟩

end Span

/-- Whether some span of the table holds `c`. -/
def covers (table : List Span) (c : Char) : Bool :=
  table.any (·.contains c.toNat)

def isAscii (c : Char) : Bool :=
  c.toNat < 128

end QuerySteps.Text
