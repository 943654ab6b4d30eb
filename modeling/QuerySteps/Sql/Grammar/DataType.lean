import QuerySteps.Sql.Grammar.Basic

/-!
# Data types

The spellings of data types. Queries have no data types, so a type is read to find where it ends
and what kind it is of; that decides whether a constant behind it belongs to it.
-/

namespace QuerySteps.Sql

/-- The kinds of data types that the grammar tells apart. -/
inductive DataType where
  | interval | binary | known
  /-- A name that is no known type. -/
  | custom
  deriving Repr, DecidableEq

namespace DataType

open QuerySteps.Sql.Parser

def plain : List String :=
  ["BOOLEAN", "BOOL", "REAL", "FLOAT4", "FLOAT8", "FLOAT32", "FLOAT64", "DATE", "DATE32", "UUID",
    "JSON", "JSONB", "REGCLASS", "TEXT", "TINYTEXT", "MEDIUMTEXT", "LONGTEXT", "BYTEA",
    "TINYBLOB", "MEDIUMBLOB", "LONGBLOB", "INT16", "INT32", "INT64", "INT128", "INT256", "UINT8",
    "UINT16", "UINT32", "UINT64", "UINT128", "UINT256", "HUGEINT", "UHUGEINT", "UBIGINT",
    "USMALLINT", "UTINYINT"]

/-- Types with an optional length. -/
def sized : List String :=
  ["DATETIME", "CLOB", "BLOB", "STRING", "TIMETZ", "TIMESTAMPTZ", "BYTES", "VARCHAR", "NVARCHAR",
    "VARBINARY", "VARBIT"]

def integers : List String :=
  ["TINYINT", "INT2", "SMALLINT", "MEDIUMINT", "INT", "INT4", "INT8", "INTEGER", "BIGINT"]

def decimals : List String :=
  ["FLOAT", "NUMERIC", "DECIMAL", "DEC", "BIGNUMERIC", "BIGDECIMAL"]

/-- Parts of a date or a time that an interval counts. -/
def intervalParts : List String :=
  ["YEAR", "MONTH", "DAY", "HOUR", "MINUTE", "SECOND"]

def count : Parser Unit := do
  let t ← next
  match t.token with
  | .number text => if text.all Char.isDigit then pure () else mismatch
  | _ => mismatch

/-- Something between parentheses, if a parenthesis opens. -/
def parameters? (p : Parser Unit) : Parser Unit := do
  if ← sign? "(" then
    p
    sign ")"

def precision? : Parser Unit :=
  parameters? count

def length? : Parser Unit :=
  parameters? do
    if ← keyword? "MAX" then pure ()
    else
      count
      discard (keywordOf? ["CHARACTERS", "OCTETS"])

def scale? : Parser Unit :=
  parameters? do
    count
    if ← sign? "," then
      discard (sign? "-")
      count

def signedness? : Parser Unit := do
  match ← dialect with
  | .generic | .mysql => discard (keywordOf? ["UNSIGNED", "SIGNED"])
  | _ => discard (keyword? "UNSIGNED")

def zone? : Parser Unit := do
  if ← keywords? ["WITH", "TIME", "ZONE"] then pure ()
  else discard (keywords? ["WITHOUT", "TIME", "ZONE"])

def intervalParts? : Parser Unit := do
  match ← dialect with
  | .generic | .postgres =>
    match ← keywordOf? intervalParts with
    | some _ => if ← keyword? "TO" then discard (keywordOf intervalParts)
    | none => pure ()
    precision?
  | _ => pure ()

/-- The parameters of a type that is no known one: words, numbers and strings. -/
def modifiers? : Parser Unit :=
  parameters? do
    discard (collect do
      if ← peekSign ")" then pure none
      else
        let t ← next
        match t.token with
        | .word .. | .number _ | .quoted .single _ | .sign "," => pure (some ())
        | _ => mismatch)

/-- A type without the brackets of an array. -/
def element : Parser DataType := do
  let first := (← rest).head?
  let word := (first.map (·.keyword)).getD ""
  let known (p : Parser Unit) : Parser DataType := do
    discard next
    p
    pure .known
  if plain.contains word then known (discard (keyword? "UNSIGNED"))
  else if sized.contains word then known length?
  else if integers.contains word then known (do precision?; signedness?)
  else if decimals.contains word then known (do scale?; discard (keyword? "UNSIGNED"))
  else
    match word with
    | "INTERVAL" =>
      discard next
      intervalParts?
      pure .interval
    | "BINARY" =>
      discard next
      length?
      pure .binary
    | "CHAR" | "CHARACTER" =>
      known (do
        discard (keyword? "VARYING")
        discard (keywords? ["LARGE", "OBJECT"])
        length?)
    | "BIT" => known (do discard (keyword? "VARYING"); length?)
    | "DOUBLE" =>
      known (do
        discard (keyword? "PRECISION")
        scale?
        discard (keyword? "UNSIGNED"))
    | "TIME" | "TIMESTAMP" => known (do precision?; zone?)
    | "SIGNED" | "UNSIGNED" => known (discard (keyword? "INTEGER"))
    | _ =>
      if first.any (·.token.isWord) then
        discard path
        modifiers?
        pure .custom
      else mismatch

/-- The brackets of an array with an optional size, if one opens. -/
def brackets? : Parser (Option Unit) := do
  if ← sign? "[" then
    discard (maybe count)
    sign "]"
    pure (some ())
  else pure none

/-- A data type; an array is a known type. -/
def read : Parser DataType := do
  let t ← element
  match ← dialect with
  | .generic | .postgres =>
    let dimensions ← collect brackets?
    pure (if dimensions.isEmpty then t else .known)
  | _ => pure t

end DataType

end QuerySteps.Sql
