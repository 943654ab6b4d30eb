import QuerySteps.Plan.Label
import QuerySteps.Settings
import QuerySteps.Sql.Query.Basic
import QuerySteps.Text.Letter
import QuerySteps.Text.Lowercase

/-!
# Words for names, constants and operators

What a query says without computing anything. A string constant is shown between quotes, with a
remark when it has letters and none of them is a capital, so that a reader does not change its case.
-/

namespace QuerySteps

open Sql

namespace Settings

def nameText (s : Settings) (n : Name) : String :=
  let value := if s.caseSensitive then n.value else Text.lowercase n.value
  if s.quoteNames || n.quoted then "'" ++ value ++ "'" else value

/-- A qualifier with the word that introduces it, or nothing. -/
def qualifierText (s : Settings) (lead : String) : Option Name → String
  | none => ""
  | some n => lead ++ s.nameText n

/-- A column: `c`, `c in t`, or `c in t in schema s`. -/
def columnText (s : Settings) (c : Column) : String :=
  s.nameText c.name ++ s.qualifierText " in " c.table ++ s.qualifierText " in schema " c.schema

/-- A table by its qualified name: `t`, or `t in schema a.b`. -/
def tableText (s : Settings) (path : List Name) : String :=
  match path.getLast? with
  | none => ""
  | some table =>
    match path.dropLast with
    | [] => s.nameText table
    | qualifiers =>
      s.nameText table ++ " in schema " ++ ".".intercalate (qualifiers.map s.nameText)

/-- The remark that gives a value its alias. -/
def aliasText (s : Settings) (aliasName : Name) : String :=
  "(aka. " ++ s.nameText aliasName ++ ")"

def withAlias (s : Settings) (label : Label) : Option Name → Label
  | none => label
  | some aliasName => label.before (s.aliasText aliasName)

@[simp] theorem refs_withAlias (s : Settings) (label : Label) (aliasName : Option Name) :
    (s.withAlias label aliasName).refs = label.refs := by
  cases aliasName <;> simp [withAlias]

end Settings

namespace Sql

def Literal.text : Literal → String
  | null => "unknown"
  | boolean true => "true"
  | boolean false => "false"
  | number text => text
  | string value =>
    let quoted := "'" ++ value ++ "'"
    if value.toList.any Text.isLetter && !value.toList.any Text.isCapital then
      quoted ++ " (all lowercase)"
    else quoted

def BinaryOp.words : BinaryOp → String
  | plus => "plus"
  | minus => "minus"
  | times => "times"
  | divide => "divided by"
  | modulo => "modulo"
  | concat => "concatenated with"
  | eq => "equals"
  | notEq => "is not equal to"
  | lt => "is less than"
  | ltEq => "is less than or equal to"
  | gt => "is greater than"
  | gtEq => "is greater or equal to"
  | and => "and"
  | or => "or"

def likeWords (negated ignoreCase : Bool) : String :=
  match negated, ignoreCase with
  | false, false => "matches"
  | true, false => "does not match"
  | false, true => "matches (ignoring case)"
  | true, true => "does not match (ignoring case)"

def JoinKind.words : JoinKind → String
  | inner | cross => "Join"
  | left => "Left outer join"
  | right => "Right outer join"
  | full => "Full outer join"

theorem append_ne {lead words : String} (h : ¬ lead.toList <+: words.toList) (rest : String) :
    lead ++ rest ≠ words := by
  intro heq
  exact h ⟨rest.toList, by rw [← String.toList_append, heq]⟩

end Sql

end QuerySteps
