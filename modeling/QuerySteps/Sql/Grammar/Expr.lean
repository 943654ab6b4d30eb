import QuerySteps.Sql.Grammar.Operand

/-!
# Expressions

Operands joined by infix operators. An expression at a level takes operators as long as they bind
more tightly than the level; the right operand is read at the level of its operator, so operators of
one level group to the left.
-/

namespace QuerySteps.Sql.Grammar

open QuerySteps.Sql.Parser

inductive InfixOp where
  | core (op : BinaryOp)
  /-- An operator without a counterpart, by its spelling. -/
  | foreign (text : String)

namespace InfixOp

/-- The operator that a sign stands for in the dialect. -/
def ofSign (d : Dialect) (text : String) : Option InfixOp :=
  match text with
  | "+" => some (core .plus)
  | "-" => some (core .minus)
  | "*" => some (core .times)
  | "/" => some (core .divide)
  | "%" => some (core .modulo)
  | "||" => some (core .concat)
  | "=" | "==" => some (core .eq)
  | "<>" | "!=" => some (core .notEq)
  | "<" => some (core .lt)
  | "<=" => some (core .ltEq)
  | ">" => some (core .gt)
  | ">=" => some (core .gtEq)
  | "&&" =>
    match d with
    | .mysql => some (core .and)
    | .sqlite => none
    | _ => some (foreign text)
  | "//" => if d == .generic then some (foreign text) else none
  | "#" => if d == .postgres then some (foreign text) else none
  | "^@" => if d == .generic || d == .postgres then some (foreign text) else none
  | "!" | ":" | "::" => none
  | _ => some (foreign text)

/-- Whether the operator compares with all or any of several values. -/
def isQuantifiable : InfixOp → Bool
  | core op => [.eq, .notEq, .lt, .ltEq, .gt, .gtEq].contains op
  | foreign text => ["~", "~*", "!~", "!~*", "~~", "~~*", "!~~", "!~~*"].contains text

def apply (left right : Surface.Expr) : InfixOp → Surface.Expr
  | core op => .binary left op right
  | foreign text => .foreign ("operator " ++ text)

end InfixOp

/-- How tightly the first lexeme binds as an infix operator; zero if it is none. -/
def infixLevel (d : Dialect) : List Lexeme → Nat
  | [] => 0
  | t :: rest =>
    match t.token with
    | .sign text => d.signLevel text
    | .operator _ => d.levels.other
    | .word .. => d.keywordLevel t.keyword ((rest.take 2).map (·.keyword))
    | _ => 0

/-- The right operand of an operator: one expression, or all or any of several values. -/
def rightOperand (g : Grammar) (left : Surface.Expr) (op : InfixOp) (level : Nat) :
    Parser Surface.Expr := do
  match ← keywordOf? ["ALL", "ANY", "SOME"] with
  | none =>
    let right ← g.expr level
    pure (op.apply left right)
  | some quantifier =>
    let isQuery ← ahead fun
      | t :: u :: _ => t.token == .sign "(" && ["SELECT", "WITH"].contains u.keyword
      | _ => false
    if isQuery then discard (g.expr level) else discard (parenthesized (g.expr level))
    if op.isQuantifiable then
      pure (.foreign (if quantifier == "ALL" then "AllOp" else "AnyOp"))
    else mismatch

def inForm (g : Grammar) (left : Surface.Expr) (negated : Bool) : Parser Surface.Expr := do
  if ← keyword? "UNNEST" then
    discard (parenthesized g.anyExpr)
    pure (.foreign "InUnnest")
  else
    parenthesized do
      match ← maybe g.query with
      | some query => pure (.inQuery left query negated)
      | none =>
        if (← dialect) == .sqlite && (← peekSign ")") then pure (.inList left [] negated)
        else
          let items ← g.exprList
          pure (.inList left items negated)

def betweenForm (g : Grammar) (left : Surface.Expr) (negated : Bool) : Parser Surface.Expr := do
  let level := (← dialect).levels.between
  let low ← g.expr level
  keyword "AND"
  let high ← g.expr level
  pure (.between left low high negated)

def likeForm (g : Grammar) (left : Surface.Expr) (negated ignoreCase : Bool) :
    Parser Surface.Expr := do
  let any ← keyword? "ANY"
  let pattern ← g.expr (← dialect).levels.like
  let escape ← after? "ESCAPE" constant
  pure (.like any left pattern negated ignoreCase escape)

/-- What follows an operand and the keyword of a test, which NOT may negate. -/
def testForm (g : Grammar) (left : Surface.Expr) (negated : Bool) (word : String) :
    Parser Surface.Expr := do
  match word with
  | "IN" => g.inForm left negated
  | "BETWEEN" => g.betweenForm left negated
  | "LIKE" => g.likeForm left negated false
  | "ILIKE" => g.likeForm left negated true
  | "REGEXP" | "RLIKE" =>
    discard (g.expr (← dialect).levels.like)
    pure (.foreign "RLike")
  | "SIMILAR" =>
    keyword "TO"
    discard (g.expr (← dialect).levels.like)
    discard (after? "ESCAPE" constant)
    pure (.foreign "SimilarTo")
  | "NULL" => if negated then pure (.isValue left .null true) else mismatch
  | _ => mismatch

def isForm (g : Grammar) (left : Surface.Expr) : Parser Surface.Expr := do
  let negated ← keyword? "NOT"
  let foreign (plain opposite : String) : Parser Surface.Expr :=
    pure (.foreign (if negated then opposite else plain))
  match (← next).keyword with
  | "NULL" => pure (.isValue left .null negated)
  | "TRUE" => pure (.isValue left (.boolean true) negated)
  | "FALSE" => pure (.isValue left (.boolean false) negated)
  | "UNKNOWN" => foreign "IsUnknown" "IsNotUnknown"
  | "DISTINCT" =>
    keyword "FROM"
    discard g.anyExpr
    foreign "IsDistinctFrom" "IsNotDistinctFrom"
  | "NFC" | "NFD" | "NFKC" | "NFKD" =>
    keyword "NORMALIZED"
    pure (.foreign "IsNormalized")
  | "NORMALIZED" => pure (.foreign "IsNormalized")
  | _ => mismatch

def jsonKey : Parser Unit := do
  match (← next).token with
  | .word _ none | .word _ (some '"') | .quoted .double _ => pure ()
  | _ => mismatch

/-- The path into a JSON value after the colon. -/
def jsonPath (g : Grammar) : Parser Surface.Expr := do
  jsonKey
  discard (collect do
    if ← sign? "." then
      jsonKey
      pure (some ())
    else if ← sign? "[" then
      discard g.anyExpr
      sign "]"
      pure (some ())
    else pure none)
  pure (.foreign "JsonAccess")

/-- The qualified operator between the parentheses of OPERATOR, as written. -/
def qualifiedOperator : Parser String := do
  let part : Parser String := do
    match (← next).token with
    | .word text none | .sign text | .operator text => pure text
    | _ => mismatch
  let first ← part
  let others ← collect (do
    if ← sign? "." then
      let text ← part
      pure (some text)
    else pure none)
  pure (".".intercalate (first :: others))

/-- What follows an operand and an infix keyword, which binds at the level. -/
def wordInfix (g : Grammar) (left : Surface.Expr) (word : String) (level : Nat) :
    Parser Surface.Expr := do
  let d ← dialect
  let whole (text : String) : Parser Surface.Expr := do
    discard g.anyExpr
    pure (.foreign ("operator " ++ text))
  match word with
  | "AND" => g.rightOperand left (.core .and) level
  | "OR" => g.rightOperand left (.core .or) level
  | "XOR" | "OVERLAPS" => g.rightOperand left (.foreign word) level
  | "OPERATOR" =>
    if d == .generic || d == .postgres then
      let text ← parenthesized qualifiedOperator
      g.rightOperand left (.foreign ("OPERATOR(" ++ text ++ ")")) level
    else mismatch
  | "DIV" => if d == .mysql then whole word else mismatch
  | "MATCH" => if d == .sqlite then whole word else mismatch
  | "IS" => g.isForm left
  | "NOTNULL" => pure (.isValue left .null true)
  | "AT" =>
    keywords ["TIME", "ZONE"]
    discard (g.expr level)
    pure (.foreign "AtTimeZone")
  | "MEMBER" =>
    keyword "OF"
    discard (parenthesized g.anyExpr)
    pure (.foreign "MemberOf")
  | "NOT" => g.testForm left true (← next).keyword
  | "REGEXP" => if d == .sqlite then whole word else g.testForm left false word
  | _ => g.testForm left false word

/-- An operand followed by an infix operator, which binds at the level, and what belongs to it. -/
def applyInfix (g : Grammar) (left : Surface.Expr) (level : Nat) : Parser Surface.Expr := do
  let d ← dialect
  let t ← next
  match t.token with
  | .sign "::" =>
    discard DataType.read
    pure (.foreign "Cast")
  | .sign ":" => g.jsonPath
  | .sign "!" => if d == .postgres then pure (.foreign "operator !") else mismatch
  | .sign text =>
    match InfixOp.ofSign d text with
    | some op => g.rightOperand left op level
    | none => mismatch
  | .operator text => g.rightOperand left (.foreign text) level
  | _ => g.wordInfix left t.keyword level

def readExpr (g : Grammar) (level : Nat) : Parser Surface.Expr := do
  let first ← g.term
  iterate (fun left => do
    let reached := infixLevel (← dialect) (← rest)
    if level < reached then
      let e ← g.applyInfix left reached
      pure (some e)
    else pure none) first

end QuerySteps.Sql.Grammar
