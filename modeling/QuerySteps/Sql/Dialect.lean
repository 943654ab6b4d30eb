/-!
# Dialects

The flavour of SQL in which a query text is written.
-/

namespace QuerySteps.Sql

inductive Dialect where
  | generic | sqlite | mysql | postgres
  deriving Repr, DecidableEq, Inhabited

namespace Dialect

def name : Dialect → String
  | generic => "generic"
  | sqlite => "sqlite"
  | mysql => "mysql"
  | postgres => "postgres"

/-- A word that names no dialect, in lower case. -/
structure Unknown where
  word : String
  deriving Repr, DecidableEq

def Unknown.message (u : Unknown) : String :=
  "unknown SQL dialect '" ++ u.word ++ "'"

/-- The dialect that a word names; the case of ASCII letters does not count. -/
def ofName (word : String) : Except Unknown Dialect :=
  match word.toLower with
  | "generic" | "ansi" => pure generic
  | "sqlite" => pure sqlite
  | "mysql" => pure mysql
  | "postgres" | "postgresql" => pure postgres
  | other => throw ⟨other⟩

end Dialect

end QuerySteps.Sql
