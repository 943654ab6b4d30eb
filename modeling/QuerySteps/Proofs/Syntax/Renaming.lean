import Mathlib.Data.List.Basic
import QuerySteps.Proofs.Syntax.Conjuncts

/-!
# Renaming

A query under other names: a function is applied to every name of tables, schemas, columns and
aliases, and nothing else changes. A renamed expression splits into the same conjuncts and mentions
the renamed columns, and the relations of a renamed FROM clause go by their renamed names.
-/

namespace QuerySteps.Sql

/-- The column under other names. -/
def Column.rename (f : Name → Name) (c : Column) : Column :=
  { schema := c.schema.map f
    table := c.table.map f
    name := f c.name }

mutual

/-- The expression under other names. -/
def Expr.rename (f : Name → Name) : Expr → Expr
  | .column c => .column (c.rename f)
  | .literal v => .literal v
  | .binary l op r => .binary (l.rename f) op (r.rename f)
  | .unary op e => .unary op (e.rename f)
  | .isValue e v n => .isValue (e.rename f) v n
  | .between e low high n => .between (e.rename f) (low.rename f) (high.rename f) n
  | .inList e items n => .inList (e.rename f) (renameExprs f items) n
  | .inQuery e query n => .inQuery (e.rename f) (query.rename f) n
  | .existsQuery query n => .existsQuery (query.rename f) n
  | .subquery query => .subquery (query.rename f)
  | .like e pattern n i => .like (e.rename f) (pattern.rename f) n i
  | .call function args d => .call function (renameExprs f args) d
  | .nested inner => .nested (inner.rename f)
  | .wildcard => .wildcard
termination_by structural e => e

def renameExprs (f : Name → Name) : List Expr → List Expr
  | [] => []
  | e :: es => e.rename f :: renameExprs f es
termination_by structural es => es

def renameOption (f : Name → Name) : Option Expr → Option Expr
  | none => none
  | some e => some (e.rename f)
termination_by structural e => e

def JoinConstraint.rename (f : Name → Name) : JoinConstraint → JoinConstraint
  | .on condition => .on (condition.rename f)
  | .shared columns => .shared (columns.map f)
  | .natural => .natural
  | .unconstrained => .unconstrained
termination_by structural c => c

def Relation.rename (f : Name → Name) : Relation → Relation
  | .table path aliasName => .table (path.map f) (aliasName.map f)
  | .derived query aliasName => .derived (query.rename f) (aliasName.map f)
termination_by structural r => r

def Join.rename (f : Name → Name) : Join → Join
  | ⟨relation, kind, constraint⟩ => ⟨relation.rename f, kind, constraint.rename f⟩
termination_by structural j => j

def renameJoins (f : Name → Name) : List Join → List Join
  | [] => []
  | j :: js => j.rename f :: renameJoins f js
termination_by structural js => js

def FromItem.rename (f : Name → Name) : FromItem → FromItem
  | ⟨relation, joins⟩ => ⟨relation.rename f, renameJoins f joins⟩
termination_by structural i => i

def renameSources (f : Name → Name) : List FromItem → List FromItem
  | [] => []
  | i :: is => i.rename f :: renameSources f is
termination_by structural is => is

def SelectItem.rename (f : Name → Name) : SelectItem → SelectItem
  | .expr value aliasName => .expr (value.rename f) (aliasName.map f)
  | .all => .all
  | .allOf table => .allOf (f table)
termination_by structural i => i

def renameItems (f : Name → Name) : List SelectItem → List SelectItem
  | [] => []
  | i :: is => i.rename f :: renameItems f is
termination_by structural is => is

def OrderItem.rename (f : Name → Name) : OrderItem → OrderItem
  | ⟨key, descending⟩ => ⟨key.rename f, descending⟩
termination_by structural i => i

def renameOrder (f : Name → Name) : List OrderItem → List OrderItem
  | [] => []
  | i :: is => i.rename f :: renameOrder f is
termination_by structural is => is

def Select.rename (f : Name → Name) : Select → Select
  | ⟨distinct, projection, sources, condition, groupBy, having⟩ =>
    { distinct
      projection := renameItems f projection
      sources := renameSources f sources
      condition := renameOption f condition
      groupBy := renameExprs f groupBy
      having := renameOption f having }
termination_by structural b => b

def QueryBody.rename (f : Name → Name) : QueryBody → QueryBody
  | .select block => .select (block.rename f)
  | .setOperation op all left right => .setOperation op all (left.rename f) (right.rename f)
termination_by structural b => b

/-- The query under other names. -/
def Query.rename (f : Name → Name) : Query → Query
  | ⟨body, orderBy, limit, offset⟩ =>
    ⟨body.rename f, renameOrder f orderBy, renameOption f limit, renameOption f offset⟩
termination_by structural q => q

end

variable {f : Name → Name}

/-! ## Lists and options -/

theorem renameExprs_eq_map (es : List Expr) : renameExprs f es = es.map (Expr.rename f) := by
  induction es with
  | nil => rfl
  | cons e es ih => simp [renameExprs, ih]

theorem renameItems_eq_map (items : List SelectItem) :
    renameItems f items = items.map (SelectItem.rename f) := by
  induction items with
  | nil => rfl
  | cons i is ih => simp [renameItems, ih]

theorem renameOrder_eq_map (items : List OrderItem) :
    renameOrder f items = items.map (OrderItem.rename f) := by
  induction items with
  | nil => rfl
  | cons i is ih => simp [renameOrder, ih]

theorem renameJoins_eq_map (joins : List Join) :
    renameJoins f joins = joins.map (Join.rename f) := by
  induction joins with
  | nil => rfl
  | cons j js ih => simp [renameJoins, ih]

theorem links_renameSources (items : List FromItem) :
    Source.links (renameSources f items) =
      (Source.links items).map fun link => (link.1.rename f, link.2.1, link.2.2.rename f) := by
  induction items with
  | nil => rfl
  | cons item items ih =>
    obtain ⟨relation, joins⟩ := item
    simp only [renameSources, FromItem.rename, renameJoins_eq_map, Source.links, List.flatMap_cons,
      Source.linksOfItem, List.map_append, List.map_cons, List.map_map] at ih ⊢
    rw [ih]
    congr 2
    exact List.map_congr_left fun j _ => by cases j; rfl

theorem length_relations_renameSources (items : List FromItem) :
    ((renameSources f items).flatMap (·.relations)).length =
      (items.flatMap (·.relations)).length := by
  rw [← Source.map_links_fst, ← Source.map_links_fst, links_renameSources]
  simp only [List.length_map]

theorem Select.rename_eq (b : Select) : b.rename f =
    { distinct := b.distinct
      projection := renameItems f b.projection
      sources := renameSources f b.sources
      condition := renameOption f b.condition
      groupBy := renameExprs f b.groupBy
      having := renameOption f b.having } := by
  cases b
  rfl

theorem Select.length_relations_rename (b : Select) :
    (b.rename f).relations.length = b.relations.length := by
  cases b
  exact length_relations_renameSources _

theorem Relation.exposedName?_rename (r : Relation) :
    (r.rename f).exposedName? = r.exposedName?.map f := by
  cases r with
  | table path aliasName =>
    cases aliasName with
    | none => exact List.getLast?_map
    | some name => rfl
  | derived query aliasName => cases aliasName <;> rfl

/-! ## The shape of an expression -/

namespace Expr

theorem isArithmetic_rename (e : Expr) : (e.rename f).isArithmetic = e.isArithmetic := by
  cases e <;> rfl

theorem rename_eq_wildcard {e : Expr} : e.rename f = .wildcard ↔ e = .wildcard := by
  cases e <;> simp [rename]

theorem countsRows_rename (function : String) (args : List Expr) :
    countsRows function (args.map (rename f)) = countsRows function args :=
  countsRows_map (fun _ => rename_eq_wildcard) function args

theorem form_rename (e : Expr) : (e.rename f).form = e.form := by
  cases e <;> rfl

theorem conjuncts_rename (e : Expr) : (e.rename f).conjuncts = e.conjuncts.map (rename f) :=
  conjuncts_map form_rename (fun _ _ _ => rfl) (fun _ => rfl) e

theorem conjuncts_renameOption (e : Option Expr) :
    (renameOption f e).elim [] conjuncts = (e.elim [] conjuncts).map (rename f) := by
  cases e with
  | none => rfl
  | some e => exact e.conjuncts_rename

theorem withoutParens_rename (e : Expr) :
    (e.rename f).withoutParens = e.withoutParens.rename f := by
  fun_induction withoutParens e with
  | case1 e ih => exact ih
  | case2 e h =>
    cases e with
    | nested inner => exact absurd rfl (h inner)
    | _ => rfl

theorem columnsOfList_rename {es : List Expr}
    (h : ∀ e ∈ es, (e.rename f).columns = e.columns.map (Column.rename f)) :
    columnsOfList (renameExprs f es) = (columnsOfList es).map (Column.rename f) := by
  rw [renameExprs_eq_map]
  exact columnsOfList_map h

/-- Renaming the parts of an expression renames the columns that it mentions, constructor by
constructor. -/
theorem hereditary_columns_rename :
    Hereditary (fun e => (e.rename f).columns = e.columns.map (Column.rename f)) fun _ => True where
  column _ := rfl
  literal _ := rfl
  binary l op r hl hr := by simp only [rename, columns, hl, hr, List.map_append]
  unary _ _ he := he
  isValue _ _ _ he := he
  between e low high n he hlow hhigh := by
    simp only [rename, columns, he, hlow, hhigh, List.map_append]
  inList e items n he hitems := by
    simp only [rename, columns, he, columnsOfList_rename hitems, List.map_append]
  inQuery _ _ _ he _ := he
  existsQuery _ _ _ := rfl
  subquery _ _ := rfl
  like e pattern n i he hpattern := by simp only [rename, columns, he, hpattern, List.map_append]
  call _ _ _ hargs := columnsOfList_rename hargs
  nested _ he := he
  wildcard := rfl
  select _ _ _ _ _ _ := trivial
  setOperation _ _ _ _ _ _ _ _ _ _ := trivial

theorem columns_rename (e : Expr) : (e.rename f).columns = e.columns.map (Column.rename f) :=
  hereditary_columns_rename.expr e

end Expr

end QuerySteps.Sql
