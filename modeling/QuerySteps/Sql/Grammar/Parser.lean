import QuerySteps.Sql.Dialect
import QuerySteps.Sql.Name
import QuerySteps.Sql.Token

/-!
# Parsers over lexemes

A parser takes lexemes off its input and yields a value, or stops. It stops because the input does
not fit or because it nests too deeply; an attempt at one reading that does not fit leaves room for
another, one that nests too deeply does not. Repetition is bounded by the length of the input, which
every round shortens.
-/

namespace QuerySteps.Sql

/-- Why a parser stops. -/
inductive Stop where
  | mismatch | tooDeep
  deriving Repr, DecidableEq

/-- A parser over the lexemes of a text in some dialect. -/
def Parser (α : Type) : Type :=
  Dialect → List Lexeme → Except Stop (α × List Lexeme)

namespace Parser

instance : Monad Parser where
  pure a := fun _ input => .ok (a, input)
  bind p f := fun d input =>
    match p d input with
    | .error e => .error e
    | .ok (a, rest) => f a d rest

def fail {α : Type} (reason : Stop) : Parser α :=
  fun _ _ => .error reason

def mismatch {α : Type} : Parser α :=
  fail .mismatch

def dialect : Parser Dialect :=
  fun d input => .ok (d, input)

/-- The lexemes to come. -/
def rest : Parser (List Lexeme) :=
  fun _ input => .ok (input, input)

/-- Whether the lexemes to come are as the test demands. -/
def ahead (test : List Lexeme → Bool) : Parser Bool :=
  fun _ input => .ok (test input, input)

/-- The outcome of a parser; the input is kept if it stops. -/
def attempt {α : Type} (p : Parser α) : Parser (Except Stop α) := fun d input =>
  match p d input with
  | .error e => .ok (.error e, input)
  | .ok (a, rest) => .ok (.ok a, rest)

def maybe {α : Type} (p : Parser α) : Parser (Option α) := fun d input =>
  match p d input with
  | .error .mismatch => .ok (none, input)
  | .error .tooDeep => .error .tooDeep
  | .ok (a, rest) => .ok (some a, rest)

/-- The first of two readings, or else the second. -/
def orElse {α : Type} (p q : Parser α) : Parser α := do
  match ← maybe p with
  | some a => pure a
  | none => q

def next : Parser Lexeme := fun _ input =>
  match input with
  | [] => .error .mismatch
  | t :: rest => .ok (t, rest)

def peekKeywordOf (ks : List String) : Parser Bool :=
  ahead fun input => (input.head?.map fun t => ks.contains t.keyword).getD false

def keyword? (k : String) : Parser Bool := fun _ input =>
  match input with
  | t :: rest => if t.keyword == k then .ok (true, rest) else .ok (false, input)
  | [] => .ok (false, input)

/-- The rest of the input after the given keywords. -/
def dropKeywords : List String → List Lexeme → Option (List Lexeme)
  | [], input => some input
  | _ :: _, [] => none
  | k :: ks, t :: rest => if t.keyword == k then dropKeywords ks rest else none

/-- Takes the given keywords, if all of them come next. -/
def keywords? (ks : List String) : Parser Bool := fun _ input =>
  match dropKeywords ks input with
  | some rest => .ok (true, rest)
  | none => .ok (false, input)

/-- Takes one of the given keywords, if one of them comes next. -/
def keywordOf? (ks : List String) : Parser (Option String) := fun _ input =>
  match input with
  | t :: rest => if ks.contains t.keyword then .ok (some t.keyword, rest) else .ok (none, input)
  | [] => .ok (none, input)

def keyword (k : String) : Parser Unit := do
  if ← keyword? k then pure () else mismatch

def keywords (ks : List String) : Parser Unit := do
  if ← keywords? ks then pure () else mismatch

def keywordOf (ks : List String) : Parser String := do
  match ← keywordOf? ks with
  | some k => pure k
  | none => mismatch

def peekSign (s : String) : Parser Bool :=
  ahead fun input => (input.head?.map (·.token == .sign s)).getD false

def sign? (s : String) : Parser Bool := fun _ input =>
  match input with
  | t :: rest => if t.token == .sign s then .ok (true, rest) else .ok (false, input)
  | [] => .ok (false, input)

def sign (s : String) : Parser Unit := do
  if ← sign? s then pure () else mismatch

/-- What follows a keyword, if the keyword comes next. -/
def after? {α : Type} (k : String) (p : Parser α) : Parser (Option α) := do
  if ← keyword? k then
    let a ← p
    pure (some a)
  else pure none

/-- Rounds of a step that goes on as long as it yields a value, at most as many as the bound. -/
def iterateWithin {α : Type} (step : α → Parser (Option α)) : Nat → α → Parser α
  | 0, a => pure a
  | bound + 1, a => do
    match ← step a with
    | none => pure a
    | some a => iterateWithin step bound a

/-- Rounds of a step that takes input each time it yields a value. -/
def iterate {α : Type} (step : α → Parser (Option α)) (a : α) : Parser α := do
  let input ← rest
  iterateWithin step (input.length + 1) a

/-- Values as long as the parser yields some. -/
def collect {α : Type} (p : Parser (Option α)) : Parser (List α) := do
  let values ← iterate (fun values => do
    match ← p with
    | none => pure none
    | some a => pure (some (a :: values))) []
  pure values.reverse

def commaList {α : Type} (p : Parser α) : Parser (List α) := do
  let first ← p
  let others ← collect (do
    if ← sign? "," then
      let a ← p
      pure (some a)
    else pure none)
  pure (first :: others)

def parenthesized {α : Type} (p : Parser α) : Parser α := do
  sign "("
  let a ← p
  sign ")"
  pure a

/-- The name that a token stands for: any word, or a string. -/
def nameOf? : Token → Option Name
  | .word text quote => some { value := text, quoted := quote.isSome }
  | .quoted .single text | .quoted .double text => some { value := text, quoted := true }
  | _ => none

def name : Parser Name := do
  let t ← next
  match nameOf? t.token with
  | some n => pure n
  | none => mismatch

def path : Parser (List Name) := do
  let first ← name
  let others ← collect (do
    if ← sign? "." then
      let n ← name
      pure (some n)
    else pure none)
  pure (first :: others)

end Parser

end QuerySteps.Sql
