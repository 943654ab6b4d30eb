import QuerySteps.Translate.Draft
import QuerySteps.Translate.Source
import QuerySteps.Translate.Wording

/-!
# Clauses as steps

How the clauses of a SELECT follow one another once each part of them has a draft. Over one
relation they form a line:

    FROM, WHERE, GROUP BY, HAVING, ORDER BY, OFFSET, LIMIT, columns, DISTINCT

where every clause that is present adds one step on the result of the step before. Over several
relations all of them are loaded first, filtered one by one where that is sound, joined from left
to right, filtered as a whole, grouped, ordered and limited; then every column is retrieved in a
step of its own.
-/

namespace QuerySteps

open Sql

/-- Adds the step that tests a condition. -/
def Draft.check (condition : Label) : Draft Label :=
  Draft.step (Label.text checkPhrase ++ condition)

structure GroupClauses where
  keys : List (Draft Label)
  having : Option (Draft Label)

structure RowClauses where
  keys : List (Draft Label)
  offset : Option (Draft Label)
  limit : Option (Draft Label)

/-- How a relation enters a chain of joins. -/
structure Stage where
  /-- Loads the relation and stores it under a name. -/
  store : Name → Draft Label
  /-- Words the condition that ends the relation's join step. -/
  matching : Draft Label

namespace GroupClauses

def present (c : GroupClauses) : Bool :=
  !c.keys.isEmpty || c.having.isSome

/-- The step of GROUP BY on an input, if there are keys. -/
def group (keys : List (Draft Label)) (input : Label) : Draft Label :=
  if keys.isEmpty then pure input
  else do
    let keys ← Draft.sequence keys
    Draft.step
      ((Label.text "Group rows from" ++ input).before "using" ++ Label.enumeration keys)

def filter (having : Option (Draft Label)) (input : Label) : Draft Label :=
  match having with
  | none => pure input
  | some condition => do
    let condition ← condition
    Draft.step ((Label.text "Filter groups from" ++ input).before "using condition:" ++ condition)

def apply (c : GroupClauses) (input : Label) : Draft Label := do
  let input ← group c.keys input
  filter c.having input

end GroupClauses

namespace RowClauses

def present (c : RowClauses) : Bool :=
  !c.keys.isEmpty || c.limit.isSome || c.offset.isSome

/-- The step of ORDER BY on an input, if there are keys. -/
def order (keys : List (Draft Label)) (input : Label) : Draft Label :=
  if keys.isEmpty then pure input
  else do
    let keys ← Draft.sequence keys
    Draft.step
      ((Label.text "Order rows from" ++ input).before "using" ++ Label.enumeration keys)

/-- The step that skips or keeps a number of rows of an input, if the clause is present. -/
def cut (words : String) (count : Option (Draft Label)) (input : Label) : Draft Label :=
  match count with
  | none => pure input
  | some count => do
    let count ← count
    Draft.step ((Label.text words ++ count).before "rows from" ++ input)

def apply (c : RowClauses) (input : Label) : Draft Label := do
  let input ← order c.keys input
  let input ← cut "Skip the first" c.offset input
  cut "Keep only" c.limit input

end RowClauses

namespace Draft

/-- The step that removes duplicate rows, if DISTINCT is present. -/
def unique (distinct : Bool) (input : Label) : Draft Label :=
  if distinct then step (Label.text "Only keep unique rows from" ++ input) else pure input

/-- What clauses of a SELECT without FROM work on. -/
def inputOr : Option Label → Label
  | some input => input
  | none => Label.text "a single row"

def filterSingle (condition : Option (Draft Label)) (input : Option Label) :
    Draft (Option Label) :=
  match condition with
  | none => pure input
  | some condition => do
    let condition ← condition
    let result ←
      step ((Label.text "Filter" ++ inputOr input).before "using condition:" ++ condition)
    pure (some result)

/-- The steps of grouping, ordering and limits over at most one relation. -/
def arrangeSingle (groups : GroupClauses) (rows : RowClauses) (input : Option Label) :
    Draft (Option Label) :=
  if groups.present || rows.present then do
    let input ← groups.apply (inputOr input)
    let input ← rows.apply input
    pure (some input)
  else pure input

def createTable (columns : List Label) (input : Option Label) : Draft Label :=
  let table := Label.text "Create table with columns" ++ Label.enumeration columns
  match input with
  | none => step table
  | some input => step (table.before "from" ++ input)

def selectSingle (load : Option (Draft Label)) (condition : Option (Draft Label))
    (groups : GroupClauses) (rows : RowClauses) (items : List (Draft Label)) (distinct : Bool) :
    Draft Label := do
  let input ← optional load
  let input ← filterSingle condition input
  let input ← arrangeSingle groups rows input
  let columns ← sequence items
  let result ← createTable columns input
  unique distinct result

def filterJoined (condition : Draft Label) (input : Label) : Draft Label := do
  let condition ← condition
  step ((Label.text "Filter" ++ input).before ":" ++ condition)

/-- Filters single sources by the conjuncts that concern them alone. Yields the latest result of
each source and the drafts of the other conjuncts. -/
def filterSources (sources : List Source) (results : List Label) :
    List (Expr × Draft Label) → Draft (List Label × List (Draft Label))
  | [] => pure (results, [])
  | (conjunct, condition) :: rest =>
    match Source.pushTarget? sources conjunct with
    | some i => do
      let filtered ← filterJoined condition (results[i]?.getD {})
      filterSources sources (results.set i filtered) rest
    | none => do
      let (results, others) ← filterSources sources results rest
      pure (results, condition :: others)

/-- Stores the sources and filters single ones, before they are joined. -/
def joinInputs (sources : List Source) (stages : List Stage)
    (conjuncts : List (Expr × Draft Label)) : Draft (List Label × List (Draft Label)) := do
  let loaded ← sequence (sources.zipWith (fun source stage => stage.store source.name) stages)
  filterSources sources loaded conjuncts

def filterAll (input : Label) : List (Draft Label) → Draft Label
  | [] => pure input
  | condition :: rest => do
    let filtered ← filterJoined condition input
    filterAll filtered rest

/-- Joins relations, given with their kinds of join, results and matchings, to an input. -/
def joinAll (input : Label) : List (JoinKind × Label × Draft Label) → Draft Label
  | [] => pure input
  | (kind, right, matching) :: rest => do
    let condition ← matching
    let joined ←
      step ((Label.text kind.words ++ input).before "with" ++ right ++ condition)
    joinAll joined rest

/-- The chain of joins over the sources with their latest results. -/
def joinChain (sources : List Source) (stages : List Stage) (results : List Label) :
    Draft Label :=
  match results with
  | [] => fail (.invalidPlan "join without relations")
  | first :: others =>
    joinAll first
      ((sources.tail.map (·.kind)).zip (others.zip (stages.tail.map (·.matching))))

/-- Retrieves each output column from the same input. -/
def retrieveAll (input : Label) : List (Draft Label) → Draft (List Label)
  | [] => pure []
  | item :: items => do
    let column ← item
    let retrieved ← step ((Label.text "Retrieve" ++ column).before "from" ++ input)
    let rest ← retrieveAll input items
    pure (retrieved :: rest)

def selectJoin (items : List FromItem) (stages : List Stage)
    (conjuncts : List (Expr × Draft Label)) (groups : GroupClauses) (rows : RowClauses)
    (columns : List (Draft Label)) (distinct : Bool) : Draft Label := do
  let sources ← ofExcept (Source.ofItems items)
  let (results, others) ← joinInputs sources stages conjuncts
  let joined ← joinChain sources stages results
  let filtered ← filterAll joined others
  let grouped ← groups.apply filtered
  let arranged ← rows.apply grouped
  let retrieved ← retrieveAll arranged columns
  let result ← step (Label.text "Create table with columns for" ++ Label.enumeration retrieved)
  unique distinct result

def combine (op : SetOperator) (all : Bool) (left right : Label) : Draft Label :=
  let duplicates := if all then "(keep duplicates)" else "(remove duplicates)"
  let sentence := match op with
    | .union => (Label.text "Combine rows from" ++ left).before "and" ++ right
    | .intersect => (Label.text "Intersect rows from" ++ left).before "with" ++ right
    | .except => (Label.text "Remove from" ++ left).before "all rows that appear in" ++ right
  step (sentence.before duplicates)

end Draft

end QuerySteps
