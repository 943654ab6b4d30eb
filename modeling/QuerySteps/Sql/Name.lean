/-!
# Names

A name as the query text spells it. Whether the text put it between quotes is kept, because quoted
names are shown between quotes and compare with regard to case.
-/

namespace QuerySteps.Sql

structure Name where
  value : String
  quoted : Bool := false
  deriving Repr, DecidableEq, Inhabited

namespace Name

/-- Whether the name reads `other`; without regard to case, ASCII letters alone are folded. -/
def reads (n : Name) (other : String) (caseSensitive : Bool) : Bool :=
  if caseSensitive then n.value == other else n.value.toLower == other.toLower

/-- Whether two names denote the same thing: case counts as soon as one of them is quoted. -/
def denotes (a b : Name) : Bool :=
  a.reads b.value (a.quoted || b.quoted)

end Name

/-- A column, with the table and the schema that qualify it. -/
structure Column where
  schema : Option Name := none
  table : Option Name := none
  name : Name
  deriving Repr, DecidableEq

namespace Column

def bare (c : Column) : Column :=
  { name := c.name }

@[simp] theorem name_bare (c : Column) : c.bare.name = c.name := rfl

@[simp] theorem bare_bare (c : Column) : c.bare.bare = c.bare := rfl

end Column

end QuerySteps.Sql
