import QuerySteps.Sql.Grammar.Basic

/-!
# Constants

Numbers, strings, truth values, NULL, and marks for values that are given later. A constant is one
lexeme, except that MySQL joins strings next to each other, and that a colon or an at sign makes a
mark together with the word right behind it.
-/

namespace QuerySteps.Sql.Grammar

open QuerySteps.Sql.Parser

def quotedConstant (form : QuotedForm) (value : String) : Surface.Expr :=
  match form with
  | .foreign name => .constant name
  | _ => .literal (.string value)

/-- The string that comes next, if plain quotes enclose it. -/
def plainString? : Parser (Option String) := fun _ input =>
  match input with
  | ⟨.quoted .single text, _, _⟩ :: rest | ⟨.quoted .double text, _, _⟩ :: rest =>
    .ok (some text, rest)
  | _ => .ok (none, input)

/-- A plain string together with those right behind it, where the dialect joins them. -/
def joinedString (text : String) : Parser Surface.Expr := do
  match ← dialect with
  | .mysql =>
    let others ← collect plainString?
    pure (.literal (.string (String.join (text :: others))))
  | _ => pure (.literal (.string text))

/-- The word or the number right behind a colon or an at sign, with no blank between. -/
def mark : Parser Surface.Expr := do
  let t ← next
  match t.afterBlank, t.token with
  | false, .word .. | false, .number _ => pure (.constant "Placeholder")
  | _, _ => mismatch

/-- A constant. A name between double quotes counts as a string. -/
def constant : Parser Surface.Expr := do
  let t ← next
  match t.token with
  | .number text => pure (.literal (.number text))
  | .quoted .single text | .quoted .double text => joinedString text
  | .quoted form text => pure (quotedConstant form text)
  | .placeholder => pure (.constant "Placeholder")
  | .sign ":" | .sign "@" => mark
  | .word text (some '"') => pure (.literal (.string text))
  | .word _ (some _) => mismatch
  | _ =>
    match t.keyword with
    | "TRUE" => pure (.literal (.boolean true))
    | "FALSE" => pure (.literal (.boolean false))
    | "NULL" => pure (.literal .null)
    | _ => mismatch

end QuerySteps.Sql.Grammar
