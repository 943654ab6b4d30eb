import QuerySteps.Sql.Dialect

/-!
# Keywords and precedences

Which words cannot be taken for an alias or a column, and how tightly operators bind. A number for
an operator means: it is taken by an expression that is read at a lower number.
-/

namespace QuerySteps.Sql.Dialect

/-- Keywords that are no alias of a column unless `AS` stands before them. -/
def reservedForColumn : List String :=
  ["WITH", "EXPLAIN", "ANALYZE", "SELECT", "WHERE", "GROUP", "SORT", "HAVING", "ORDER", "TOP",
    "LATERAL", "VIEW", "LIMIT", "OFFSET", "FETCH", "UNION", "EXCEPT", "EXCLUDE", "INTERSECT",
    "MINUS", "CLUSTER", "DISTRIBUTE", "RETURNING", "FROM", "INTO", "END"]

def reservedForTable (d : Dialect) : List String :=
  ["WITH", "EXPLAIN", "ANALYZE", "SELECT", "WHERE", "GROUP", "SORT", "HAVING", "ORDER", "PIVOT",
    "UNPIVOT", "TOP", "LATERAL", "VIEW", "LIMIT", "OFFSET", "FETCH", "UNION", "EXCEPT",
    "INTERSECT", "MINUS", "ON", "JOIN", "INNER", "CROSS", "FULL", "LEFT", "RIGHT", "NATURAL",
    "USING", "CLUSTER", "DISTRIBUTE", "GLOBAL", "ANTI", "SEMI", "RETURNING", "OUTPUT", "ASOF",
    "MATCH_CONDITION", "OUTER", "SET", "QUALIFY", "WINDOW", "END", "FOR", "PARTITION",
    "PREWHERE", "SETTINGS", "FORMAT", "START", "CONNECT", "MATCH_RECOGNIZE", "SAMPLE",
    "TABLESAMPLE", "FROM", "OPEN"] ++
    if d == mysql then ["USE", "IGNORE", "FORCE", "STRAIGHT_JOIN"] else []

/-- Keywords that are no column where their special reading fails. -/
def reservedForName (d : Dialect) : List String :=
  ["EXISTS", "STRUCT", "TRIM"] ++ if d == postgres then [] else ["INTERVAL"]

/-- How tightly the groups of operators bind. -/
structure Levels where
  period : Nat
  doubleColon : Nat
  timeZone : Nat
  times : Nat
  plus : Nat
  xor : Nat
  ampersand : Nat
  caret : Nat
  pipe : Nat
  colon : Nat
  between : Nat
  comparison : Nat
  like : Nat
  is : Nat
  other : Nat
  not : Nat
  and : Nat
  or : Nat
  concat : Nat
  /-- Bit shifts and the sharp sign. -/
  shift : Nat
  /-- The exclamation mark, `&&` and `^@`. -/
  mark : Nat

def levels : Dialect → Levels
  | postgres =>
    { period := 200, doubleColon := 140, timeZone := 110, times := 90, plus := 80, xor := 75,
      ampersand := 70, caret := 100, pipe := 70, colon := 0, between := 60, comparison := 50,
      like := 60, is := 40, other := 70, not := 30, and := 20, or := 10, concat := 70,
      shift := 70, mark := 70 }
  | _ =>
    { period := 100, doubleColon := 50, timeZone := 41, times := 40, plus := 30, xor := 24,
      ampersand := 23, caret := 22, pipe := 21, colon := 21, between := 20, comparison := 20,
      like := 19, is := 17, other := 16, not := 15, and := 10, or := 5, concat := 40,
      shift := 22, mark := 50 }

/-- How tightly a sign binds as an operator; zero if it is none. -/
def signLevel (d : Dialect) (text : String) : Nat :=
  let l := d.levels
  if ["=", "==", "<", "<=", "<>", "!=", ">", ">=", "<=>", ":=", "~", "~*", "!~", "!~*", "~~",
    "~~*", "!~~", "!~~*"].contains text then l.comparison
  else if ["+", "-"].contains text then l.plus
  else if ["*", "/", "//", "%"].contains text then l.times
  else if ["->", "->>", "#>", "#>>", "@>", "<@", "#-", "@?", "@@", "?", "?&", "?|"].contains text
  then l.other
  else if ["<<", ">>", "#"].contains text then l.shift
  else if ["!", "&&", "^@"].contains text then l.mark
  else
    match text with
    | "||" => l.concat
    | "|" => l.pipe
    | "&" => l.ampersand
    | "^" => l.caret
    | ":" => l.colon
    | "::" => l.doubleColon
    | _ => 0

def hasNotNullWord (d : Dialect) : Bool :=
  d == postgres || d == sqlite

/-- How tightly a keyword binds after an operand, given the keywords that follow it; zero if it is
no operator. -/
def keywordLevel (d : Dialect) (word : String) (following : List String) : Nat :=
  let l := d.levels
  match word, following with
  | "OR", _ => l.or
  | "AND", _ => l.and
  | "XOR", _ => l.xor
  | "AT", "TIME" :: "ZONE" :: _ => l.timeZone
  | "NOT", k :: _ =>
    if ["IN", "BETWEEN"].contains k then l.between
    else if ["LIKE", "ILIKE", "RLIKE", "REGEXP", "MATCH", "SIMILAR", "MEMBER"].contains k then
      l.like
    else if k == "NULL" then l.is
    else 0
  | "NOTNULL", _ => if d.hasNotNullWord then l.is else 0
  | "IS", _ => l.is
  | "IN", _ | "BETWEEN", _ | "OVERLAPS", _ | "OPERATOR", _ => l.between
  | "LIKE", _ | "ILIKE", _ | "RLIKE", _ | "REGEXP", _ | "MATCH", _ | "SIMILAR", _
  | "MEMBER", _ => l.like
  | "DIV", _ => l.times
  | _, _ => 0

end QuerySteps.Sql.Dialect
