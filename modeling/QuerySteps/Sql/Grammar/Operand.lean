import QuerySteps.Sql.Grammar.Form

/-!
# Operands

Expressions without infix operators: constants, names, calls, special forms, prefix operators and
parentheses, with the members and the collation behind them. A word is first read as the special
form that it opens; where that fails, it is a name after all.
-/

namespace QuerySteps.Sql.Grammar

open QuerySteps.Sql.Parser

/-- The constant of a data type; MySQL reads BINARY as a cast. -/
def typedConstant (g : Grammar) : Parser Surface.Expr := do
  let typed : Parser Surface.Expr := do
    discard constant
    pure (.foreign "TypedString")
  match ← DataType.read with
  | .interval => g.intervalForm
  | .custom => mismatch
  | .known => typed
  | .binary =>
    if (← dialect) == .mysql then
      discard g.anyExpr
      pure (.foreign "Cast")
    else typed

/-- Whether a string comes next that may carry the name of its character set. -/
def introducedAhead : Parser Bool :=
  ahead fun
    | ⟨.quoted .single _, _, _⟩ :: _ | ⟨.quoted .double _, _, _⟩ :: _
    | ⟨.quoted (.foreign "HexStringLiteral") _, _, _⟩ :: _ => true
    | _ => false

/-- What a name stands for: a function before a parenthesis, else a column. -/
def named (g : Grammar) (n : Name) : Parser Surface.Expr := do
  if ← peekSign "(" then g.call [n]
  else if n.value.toList.head? == some '_' && (← introducedAhead) then
    discard constant
    pure (.foreign "Prefixed")
  else pure (.identifier n)

/-- What a word stands for: the special form that it opens, or else a name. -/
def word (g : Grammar) (keyword : String) (n : Name) : Parser Surface.Expr := do
  let d ← dialect
  match g.form? d keyword n (← rest) with
  | none => g.named n
  | some special =>
    match ← attempt special with
    | .ok e => pure e
    | .error reason =>
      if d.reservedForName.contains keyword then fail reason
      else
        match ← attempt (g.named n) with
        | .ok e => pure e
        | .error _ => fail reason

/-- What stands between parentheses after the opening one: a query, an expression or a tuple. -/
def enclosed (g : Grammar) : Parser Surface.Expr := do
  let e ←
    if ← queryAhead then do
      let query ← g.query
      pure (.subquery query)
    else do
      match ← g.exprList with
      | [e] => pure (.nested e)
      | _ => pure (.foreign "Tuple")
  sign ")"
  pure e

def signed (g : Grammar) (text : String) : Parser Surface.Expr := do
  let d ← dialect
  let tight (op : UnaryOp) : Parser Surface.Expr := do
    let operand ← g.expr d.levels.times
    pure (.unary op operand)
  let foreign : Parser Surface.Expr := do
    discard (g.expr d.levels.plus)
    pure (.foreign ("operator " ++ text))
  match text with
  | "(" => g.enclosed
  | "[" => g.arrayForm
  | "-" => tight .neg
  | "+" => tight .plus
  | "~" => foreign
  | "@" | "!!" | "|/" | "||/" => if d == .postgres then foreign else mismatch
  | _ => mismatch

def readOperand (g : Grammar) : Parser Surface.Expr :=
  orElse g.typedConstant do
    let d ← dialect
    match (← rest).head? with
    | none => mismatch
    | some t =>
      match t.token with
      | .word text quote =>
        discard next
        g.word t.keyword { value := text, quoted := quote.isSome }
      | .sign text =>
        if text == ":" || (text == "@" && d != .postgres) then constant
        else
          discard next
          g.signed text
      | .operator _ => mismatch
      | _ => constant

/-- One step from a value to a member of it. -/
inductive Member where
  | name (n : Name)
  | call (function : List Surface.PathPart) (window filter : Bool) (args : Surface.Arguments)
  /-- An element, or a member that no name or call gives. -/
  | other

namespace Member

/-- The steps that an expression behind a dot stands for, if it may stand there. -/
def ofExpr : Surface.Expr → Option (List Member)
  | .identifier n => some [.name n]
  | .path ns => some (ns.map .name)
  | .call function window filter args => some [.call function window filter args]
  | .member | .literal _ | .constant _ => some [.other]
  | _ => none

def names : List Member → Option (List Name)
  | [] => some []
  | .name n :: rest => (names rest).map (n :: ·)
  | _ => none

/-- The value at the end of the steps: names make a qualified name, a call behind names a call of
the function that they qualify. -/
def build (root : Surface.Expr) (steps : List Member) : Surface.Expr :=
  match root, steps with
  | _, [] => root
  | .identifier n, _ =>
    match names steps with
    | some ns => .path (n :: ns)
    | none =>
      match steps.getLast?, names steps.dropLast with
      | some (.call function window filter args), some ns =>
        .call ((n :: ns).map .name ++ function) window filter args
      | _, _ => .member
  | _, _ => .member

end Member

/-- The bounds of an element after the opening bracket: one index, or a slice with its step. -/
def subscript (g : Grammar) : Parser Unit := do
  let bound : Parser Bool := do
    if ← sign? "]" then pure false
    else
      discard g.anyExpr
      pure true
  let slice : Parser Unit := do
    if ← bound then
      if ← sign? "]" then pure ()
      else
        sign ":"
        if ← bound then sign "]"
  if ← sign? ":" then slice
  else
    discard g.anyExpr
    if ← sign? "]" then pure ()
    else
      sign ":"
      slice

def afterDot (g : Grammar) : Parser (List Member) := do
  match ← rest with
  | ⟨.quoted .single text, _, _⟩ :: _ =>
    discard next
    pure [.name { value := text, quoted := true }]
  | _ =>
    let inner ← maybe do
      match Member.ofExpr (← g.expr (← dialect).levels.period) with
      | some steps => pure steps
      | none => mismatch
    match inner with
    | some steps => pure steps
    | none =>
      let n ← name
      pure [.name n]

/-- The next steps to a member, if there are any; a star ends them. -/
def steps? (g : Grammar) : Parser (Option (List Member)) := do
  let star ← ahead fun
    | _ :: t :: _ => t.token == .sign "*"
    | _ => false
  if (← peekSign ".") && !star then
    discard next
    let steps ← g.afterDot
    pure (some steps)
  else if ← sign? "[" then
    g.subscript
    pure (some [.other])
  else pure none

/-- The members behind a value; in PostgreSQL a star may end a qualified name. -/
def members (g : Grammar) (root : Surface.Expr) : Parser Surface.Expr := do
  let steps := (← collect g.steps?).flatten
  if (← dialect) == .postgres && (← sign? ".") then
    sign "*"
    match Member.build root steps with
    | .identifier _ | .path _ => pure (.foreign "QualifiedWildcard")
    | _ => mismatch
  else pure (Member.build root steps)

def term (g : Grammar) : Parser Surface.Expr := do
  let root ← g.readOperand
  let e ← g.members root
  if ← keyword? "COLLATE" then
    discard path
    pure (.foreign "Collate")
  else pure e

end QuerySteps.Sql.Grammar
