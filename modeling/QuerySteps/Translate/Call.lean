import QuerySteps.Translate.Wording

/-!
# Words for function calls

The supported functions, by name and number of arguments. A name is looked up without regard to the
case of ASCII letters. Calls are shown inline and add no step of their own.
-/

namespace QuerySteps

open Sql

/-- How a call is put into words around its arguments. -/
inductive CallPhrase where
  /-- The words, then the argument. -/
  | lead (words : String)
  /-- The argument, then the remark that it is rounded. -/
  | toInteger
  /-- The first argument, rounded to as many places as the second says. -/
  | toPlaces
  deriving Repr, DecidableEq

namespace CallPhrase

/-- The phrase for a function, by its name in lower case and its number of arguments. Only
aggregates say that they skip duplicates. -/
def ofFunction? (name : String) (arity : Nat) (distinct : Bool) : Option CallPhrase :=
  let mark := if distinct then " distinct" else ""
  match name, arity with
  | "count", 1 => some (lead ("number of" ++ mark ++ " non-null values in"))
  | "sum", 1 => some (lead ("sum of" ++ mark))
  | "avg", 1 => some (lead ("average of" ++ mark))
  | "min", 1 => some (lead ("minimum of" ++ mark))
  | "max", 1 => some (lead ("maximum of" ++ mark))
  | "lower", 1 => some (lead "lowercase version of")
  | "upper", 1 => some (lead "uppercase version of")
  | "length", 1 | "char_length", 1 | "len", 1 => some (lead "length of")
  | "abs", 1 => some (lead "absolute value of")
  | "round", 1 => some toInteger
  | "round", 2 => some toPlaces
  | _, _ => none

def label : CallPhrase → List Label → Label
  | lead words, args => ⟨.text words :: args.flatMap (·.parts)⟩
  | toInteger, args => ⟨args.flatMap (·.parts) ++ [.text "rounded to an integer"]⟩
  | toPlaces, args =>
    ⟨(args.take 1).flatMap (·.parts) ++ .text "rounded to" :: (args.drop 1).flatMap (·.parts) ++
      [.text "decimal places"]⟩

@[simp] theorem refs_label (phrase : CallPhrase) (args : List Label) :
    (phrase.label args).refs = args.flatMap Label.refs := by
  have parts (labels : List Label) :
      (labels.flatMap (·.parts)).filterMap Part.ref? = labels.flatMap Label.refs := by
    rw [List.filterMap_flatMap]
    rfl
  cases phrase with
  | lead words => simp [label, Label.refs, parts]
  | toInteger => simp [label, Label.refs, parts]
  | toPlaces =>
    simp only [label, Label.refs, List.filterMap_append, parts, Part.filterMap_ref?_text,
      List.filterMap_nil, List.append_nil]
    rw [← List.flatMap_append, List.take_append_drop]

end CallPhrase

namespace Sql

/-- Whether a call counts rows: `count` with `*` as its only argument. -/
def countsRows (function : String) (args : List Expr) : Bool :=
  match args with
  | [.wildcard] => function.toLower == "count"
  | _ => false

theorem countsRows_map {g : Expr → Expr} (h : ∀ e, g e = .wildcard ↔ e = .wildcard)
    (function : String) (args : List Expr) :
    countsRows function (args.map g) = countsRows function args := by
  unfold countsRows
  match args with
  | [] => rfl
  | a :: b :: rest => simp
  | [a] =>
    by_cases ha : a = .wildcard
    · rw [ha, List.map_singleton, (h .wildcard).mpr rfl]
    · have hg : g a ≠ .wildcard := mt (h a).mp ha
      simp [ha, hg]

end Sql

end QuerySteps
