import Mathlib.Data.List.Basic
import QuerySteps.Proofs.Syntax.Conjuncts
import QuerySteps.Proofs.Syntax.References

/-!
# Expressions without qualifiers

`columns` collects the columns outside subqueries and `withoutQualifiers` rebuilds the expression
around them, each by a recursion of its own. Both go to the same places in the same order: the
columns of the rebuilt expression are the bare columns, so nothing changes exactly if all columns
were bare already. Its form, its subqueries and its splitting at AND stay.
-/

namespace QuerySteps.Sql

theorem Column.bare_eq_self_iff {c : Column} :
    c.bare = c ↔ c.schema = none ∧ c.table = none := by
  obtain ⟨schema, table, name⟩ := c
  simp [bare, eq_comm]

theorem subqueriesOfExprs_eq_flatMap (es : List Expr) :
    subqueriesOfExprs es = es.flatMap Expr.subqueries := by
  induction es with
  | nil => rfl
  | cons e es ih => simp [subqueriesOfExprs, ih]

namespace Expr

/-! ## Columns -/

theorem columnsOfList_withoutQualifiers {es : List Expr}
    (h : ∀ e ∈ es, e.withoutQualifiers.columns = e.columns.map Column.bare) :
    columnsOfList (listWithoutQualifiers es) = (columnsOfList es).map Column.bare := by
  rw [listWithoutQualifiers_eq_map]
  exact columnsOfList_map h

theorem hereditary_columns_withoutQualifiers :
    Hereditary (fun e => e.withoutQualifiers.columns = e.columns.map Column.bare)
      fun _ => True where
  column _ := rfl
  literal _ := rfl
  binary l op r hl hr := by simp only [withoutQualifiers, columns, hl, hr, List.map_append]
  unary _ _ he := he
  isValue _ _ _ he := he
  between e low high n he hlow hhigh := by
    simp only [withoutQualifiers, columns, he, hlow, hhigh, List.map_append]
  inList e items n he hitems := by
    simp only [withoutQualifiers, columns, he, columnsOfList_withoutQualifiers hitems,
      List.map_append]
  inQuery _ _ _ he _ := he
  existsQuery _ _ _ := rfl
  subquery _ _ := rfl
  like e pattern n i he hpattern := by
    simp only [withoutQualifiers, columns, he, hpattern, List.map_append]
  call _ _ _ hargs := columnsOfList_withoutQualifiers hargs
  nested _ he := he
  wildcard := rfl
  select _ _ _ _ _ _ := trivial
  setOperation _ _ _ _ _ _ _ _ _ _ := trivial

theorem columns_withoutQualifiers (e : Expr) :
    e.withoutQualifiers.columns = e.columns.map Column.bare :=
  hereditary_columns_withoutQualifiers.expr e

/-! ## What does not change -/

theorem listWithoutQualifiers_eq_self {es : List Expr}
    (h : ∀ e ∈ es, (∀ c ∈ e.columns, c.bare = c) → e.withoutQualifiers = e)
    (hbare : ∀ c ∈ columnsOfList es, c.bare = c) : listWithoutQualifiers es = es := by
  rw [columnsOfList_eq_flatMap, List.forall_mem_flatMap] at hbare
  rw [listWithoutQualifiers_eq_map]
  exact (List.map_congr_left fun e he => h e he (hbare e he)).trans (List.map_id es)

/-- Nothing else than the columns is touched. -/
theorem hereditary_withoutQualifiers_eq_self :
    Hereditary (fun e => (∀ c ∈ e.columns, c.bare = c) → e.withoutQualifiers = e)
      fun _ => True where
  column c h := by rw [withoutQualifiers, h c (List.mem_singleton_self c)]
  literal _ _ := rfl
  binary l op r hl hr h := by
    obtain ⟨h1, h2⟩ := List.forall_mem_append.mp h
    rw [withoutQualifiers, hl h1, hr h2]
  unary op e he h := by rw [withoutQualifiers, he h]
  isValue e v n he h := by rw [withoutQualifiers, he h]
  between e low high n he hlow hhigh h := by
    obtain ⟨h12, h3⟩ := List.forall_mem_append.mp h
    obtain ⟨h1, h2⟩ := List.forall_mem_append.mp h12
    rw [withoutQualifiers, he h1, hlow h2, hhigh h3]
  inList e items n he hitems h := by
    obtain ⟨h1, h2⟩ := List.forall_mem_append.mp h
    rw [withoutQualifiers, he h1, listWithoutQualifiers_eq_self hitems h2]
  inQuery e q n he _ h := by rw [withoutQualifiers, he h]
  existsQuery _ _ _ _ := rfl
  subquery _ _ _ := rfl
  like e pattern n i he hpattern h := by
    obtain ⟨h1, h2⟩ := List.forall_mem_append.mp h
    rw [withoutQualifiers, he h1, hpattern h2]
  call f args d hargs h := by rw [withoutQualifiers, listWithoutQualifiers_eq_self hargs h]
  nested e he h := by rw [withoutQualifiers, he h]
  wildcard _ := rfl
  select _ _ _ _ _ _ := trivial
  setOperation _ _ _ _ _ _ _ _ _ _ := trivial

/-- An expression over bare columns is rebuilt as it is, and no other one is. -/
theorem withoutQualifiers_eq_self_iff (e : Expr) :
    e.withoutQualifiers = e ↔ ∀ c ∈ e.columns, c.schema = none ∧ c.table = none := by
  simp only [← Column.bare_eq_self_iff]
  constructor
  · intro h
    have hcolumns := e.columns_withoutQualifiers
    rw [h] at hcolumns
    exact List.map_inj_left.mp (hcolumns.symm.trans (List.map_id _).symm)
  · exact hereditary_withoutQualifiers_eq_self.expr e

theorem withoutQualifiers_withoutQualifiers (e : Expr) :
    e.withoutQualifiers.withoutQualifiers = e.withoutQualifiers := by
  rw [withoutQualifiers_eq_self_iff, columns_withoutQualifiers, List.forall_mem_map]
  exact fun c _ => Column.bare_eq_self_iff.mp c.bare_bare

theorem conjuncts_withoutQualifiers (e : Expr) :
    e.withoutQualifiers.conjuncts = e.conjuncts.map withoutQualifiers :=
  conjuncts_map form_withoutQualifiers (fun _ _ _ => rfl) (fun _ => rfl) e

theorem countsRows_withoutQualifiers (function : String) (args : List Expr) :
    countsRows function (args.map withoutQualifiers) = countsRows function args :=
  countsRows_map (fun _ => withoutQualifiers_eq_wildcard) function args

theorem subqueriesOfExprs_withoutQualifiers {es : List Expr}
    (h : ∀ e ∈ es, e.withoutQualifiers.subqueries = e.subqueries) :
    subqueriesOfExprs (listWithoutQualifiers es) = subqueriesOfExprs es := by
  rw [subqueriesOfExprs_eq_flatMap, subqueriesOfExprs_eq_flatMap, listWithoutQualifiers_eq_map,
    List.flatMap_map]
  exact List.flatMap_congr h

theorem hereditary_subqueries_withoutQualifiers :
    Hereditary (fun e => e.withoutQualifiers.subqueries = e.subqueries) fun _ => True where
  column _ := rfl
  literal _ := rfl
  binary l op r hl hr := by simp only [withoutQualifiers, subqueries, hl, hr]
  unary _ _ he := he
  isValue _ _ _ he := he
  between e low high n he hlow hhigh := by
    simp only [withoutQualifiers, subqueries, he, hlow, hhigh]
  inList e items n he hitems := by
    simp only [withoutQualifiers, subqueries, he, subqueriesOfExprs_withoutQualifiers hitems]
  inQuery e q n he _ := by simp only [withoutQualifiers, subqueries, he]
  existsQuery _ _ _ := rfl
  subquery _ _ := rfl
  like e pattern n i he hpattern := by simp only [withoutQualifiers, subqueries, he, hpattern]
  call _ _ _ hargs := subqueriesOfExprs_withoutQualifiers hargs
  nested _ he := he
  wildcard := rfl
  select _ _ _ _ _ _ := trivial
  setOperation _ _ _ _ _ _ _ _ _ _ := trivial

theorem subqueries_withoutQualifiers (e : Expr) :
    e.withoutQualifiers.subqueries = e.subqueries :=
  hereditary_subqueries_withoutQualifiers.expr e

end Expr

end QuerySteps.Sql
