import Mathlib.Data.List.Basic
import QuerySteps.Proofs.Syntax.References
import QuerySteps.Translate.Query

/-!
# Filters before the joins

A conjunct of WHERE is filtered before the joins if all columns outside its subqueries belong to one
source, and that source may be filtered early. The subqueries are not looked at. The filter
therefore concerns its source alone exactly if the subqueries pass on no reference to another
source, and no column that names a schema belongs to another source than its table's name does
(`early_onlyTo_iff`).
-/

namespace QuerySteps

open Sql

namespace Sql.Select

def conjuncts (b : Select) : List Expr :=
  b.condition.elim [] Expr.conjuncts

end Sql.Select

namespace Source

/-- The conjuncts that are filters on single sources before the joins, each with the place of its
source. -/
def early (sources : List Source) (conjuncts : List Expr) : List (Nat × Expr) :=
  conjuncts.filterMap fun c => (pushTarget? sources c).map fun place => (place, c)

theorem mem_early {sources : List Source} {conjuncts : List Expr} {place : Nat} {e : Expr} :
    (place, e) ∈ early sources conjuncts ↔ e ∈ conjuncts ∧ pushTarget? sources e = some place := by
  simp only [early, List.mem_filterMap, Option.map_eq_some_iff, Prod.mk.injEq]
  constructor
  · rintro ⟨_, he, _, hp, rfl, rfl⟩
    exact ⟨he, hp⟩
  · rintro ⟨he, hp⟩
    exact ⟨e, he, place, hp, rfl, rfl⟩

/-- The conjuncts that are filters on the joined rows. -/
def late (sources : List Source) (conjuncts : List Expr) : List Expr :=
  conjuncts.filter fun c => (pushTarget? sources c).isNone

/-- The place of the first source that a reference is to. -/
def ofReference? (catalog : Catalog) (sources : List Source) (r : Reference) : Option Nat :=
  sources.findIdx? (·.relation.answers catalog r)

/-- No reference is to a source at another place. -/
def OnlyTo (catalog : Catalog) (sources : List Source) (place : Nat)
    (references : List Reference) : Prop :=
  ∀ r ∈ references, ∀ other, ofReference? catalog sources r = some other → other = place

end Source

namespace Draft

def filterEach (results : List Label) : List (Nat × Draft Label) → Draft (List Label)
  | [] => pure results
  | (place, condition) :: rest => do
    let filtered ← filterJoined condition (results[place]?.getD {})
    filterEach (results.set place filtered) rest

/-- A SELECT over several sources: they are stored, filtered each by conditions of its own, joined,
filtered as a whole, grouped and arranged; then the columns are retrieved. -/
def selectFiltered (sources : List Source) (stages : List Stage)
    (early : List (Nat × Draft Label)) (late : List (Draft Label)) (groups : GroupClauses)
    (rows : RowClauses) (columns : List (Draft Label)) (distinct : Bool) : Draft Label := do
  let loaded ← sequence (sources.zipWith (fun source stage => stage.store source.name) stages)
  let filtered ← filterEach loaded early
  let joined ← joinChain sources stages filtered
  let kept ← filterAll joined late
  let grouped ← groups.apply kept
  let arranged ← rows.apply grouped
  let retrieved ← retrieveAll arranged columns
  let result ← step (Label.text "Create table with columns for" ++ Label.enumeration retrieved)
  unique distinct result

theorem filterSources_eq (sources : List Source) (conjuncts : List Expr)
    (draft : Expr → Draft Label) (results : List Label) :
    filterSources sources results (conjuncts.map fun c => (c, draft c)) = (do
      let filtered ← filterEach results ((Source.early sources conjuncts).map (Prod.map id draft))
      pure (filtered, (Source.late sources conjuncts).map draft)) := by
  induction conjuncts generalizing results with
  | nil => rfl
  | cons c rest ih =>
    rw [List.map_cons, filterSources]
    cases ht : Source.pushTarget? sources c with
    | some place => simp [Source.early, Source.late, ht, filterEach, ih]
    | none => simp [Source.early, Source.late, ht, ih]

end Draft

namespace Source

variable {items : List FromItem} {sources : List Source}

theorem ofColumn?_of_ofColumns? {columns : List Column} {place : Nat}
    (h : ofColumns? sources columns = some place) :
    ∀ c ∈ columns, ofColumn? sources c = some place := by
  fun_induction ofColumns? sources columns with
  | case1 => cases h
  | case2 c => simpa using h
  | case3 c cs _ i hcs hc ih =>
    cases h
    exact List.forall_mem_cons.mpr ⟨hc, ih hcs⟩
  | case4 => cases h
  | case5 => cases h

/-- A condition on one column is filtered early on the source of the column, if that may be. -/
theorem pushTarget?_of_column {e : Expr} {c : Column} {place : Nat} (hcolumns : e.columns = [c])
    (hplace : ofColumn? sources c = some place)
    (hpushable : (sources[place]?.map (·.pushable)).getD false = true) :
    pushTarget? sources e = some place := by
  have hsource : ofColumns? sources e.columns = some place := by rw [hcolumns, ofColumns?, hplace]
  exact Option.filter_eq_some_iff.mpr ⟨hsource, hpushable⟩

theorem indexOf?_eq_findIdx? (h : ofItems items = .ok sources) (qualifier : Name) :
    indexOf? sources qualifier =
      sources.findIdx? (·.relation.exposedName?.any (·.denotes qualifier)) := by
  have hmap : sources.map (·.relation.exposedName?) = sources.map fun source => some source.name :=
    List.map_congr_left (exposedName?_of_mem_ofItems h)
  calc indexOf? sources qualifier
    _ = (sources.map fun source => some source.name).findIdx? (·.any (·.denotes qualifier)) := by
        rw [List.findIdx?_map]
        rfl
    _ = sources.findIdx? (·.relation.exposedName?.any (·.denotes qualifier)) := by
        rw [← hmap, List.findIdx?_map]
        rfl

theorem ofReference?_column {catalog : Catalog} (hitems : ofItems items = .ok sources) {c : Column}
    {place : Nat} (hschema : c.schema = none) (h : ofColumn? sources c = some place) :
    ofReference? catalog sources (.column c) = some place := by
  obtain ⟨schema, table, name⟩ := c
  cases hschema
  cases table with
  | none => cases h
  | some qualifier => exact (indexOf?_eq_findIdx? hitems qualifier).symm.trans h

/-- Outside its subqueries, a conjunct that is filtered early mentions no column of another source,
unless by naming a schema. -/
theorem ofReference?_of_pushTarget? {catalog : Catalog} (h : ofItems items = .ok sources) {e : Expr}
    {place : Nat} (hp : pushTarget? sources e = some place) {c : Column} (hc : c ∈ e.columns)
    (hschema : c.schema = none) : ofReference? catalog sources (.column c) = some place := by
  have hcolumns : ofColumns? sources e.columns = some place := (Option.filter_eq_some_iff.mp hp).1
  exact ofReference?_column h hschema (ofColumn?_of_ofColumns? hcolumns c hc)

/-- A conjunct that is filtered early refers to its source alone, exactly if its columns that name a
schema and the references that its subqueries pass on do. -/
theorem onlyTo_iff_of_pushTarget? {catalog : Catalog} (h : ofItems items = .ok sources) {e : Expr}
    {place : Nat} (hp : pushTarget? sources e = some place) :
    OnlyTo catalog sources place (e.references catalog) ↔
      OnlyTo catalog sources place
        ((e.columns.filter (·.schema.isSome)).map .column ++ e.correlated catalog) := by
  constructor
  · intro honly r hr
    refine honly r ((e.mem_references catalog r).mpr ?_)
    refine (List.mem_append.mp hr).imp_left fun hr => ?_
    obtain ⟨c, hc, rfl⟩ := List.mem_map.mp hr
    exact List.mem_map_of_mem (List.mem_filter.mp hc).1
  · intro honly r hr other hother
    obtain hr | hr := (e.mem_references catalog r).mp hr
    · obtain ⟨c, hc, rfl⟩ := List.mem_map.mp hr
      cases hschema : c.schema with
      | some schema =>
        refine honly _ (List.mem_append_left _ (List.mem_map_of_mem ?_)) other hother
        exact List.mem_filter.mpr ⟨hc, by rw [hschema]; rfl⟩
      | none =>
        rw [ofReference?_of_pushTarget? h hp hc hschema] at hother
        exact (Option.some.inj hother).symm
    · exact honly r (List.mem_append_right _ hr) other hother

end Source

open Draft Source

/-- A SELECT over several relations stores its sources, filters some of them by the early conjuncts
and joins them; the late conjuncts are filters on the joined rows. -/
theorem Sql.Select.draft_eq_of_join {b : Select} {sources : List Source} (s : Settings)
    (rows : Qualifiers → RowClauses) (hjoin : 1 < b.relations.length)
    (h : ofItems b.sources = .ok sources) :
    b.draft s rows = selectFiltered sources (stagesOfItems s b.sources)
      ((early sources b.conjuncts).map (Prod.map id (Expr.draft s .kept)))
      ((late sources b.conjuncts).map (Expr.draft s .kept))
      ⟨draftsOfExprs s .dropped b.groupBy, draftOfOption s .dropped b.having⟩ (rows .dropped)
      (b.projection.map (SelectItem.draft s)) b.distinct := by
  have hsources : ofExcept (ofItems b.sources) = pure sources := by
    rw [h]
    rfl
  rw [Select.draft_eq, if_pos hjoin, selectJoin, hsources, pure_bind, joinInputs,
    ← stagesOfItems_eq_map]
  simp only [filterSources_eq, bind_assoc, pure_bind]
  rfl

/-- In a SELECT over several relations the conjuncts that are filtered before the joins are the
early ones. Outside its subqueries such a conjunct mentions columns of its source, as long as they
name no schema. It refers to its source alone, exactly if the columns that name a schema and the
references that its subqueries pass on do. -/
theorem early_onlyTo_iff {b : Select} {sources : List Source} (s : Settings)
    (rows : Qualifiers → RowClauses) (catalog : Catalog) (hjoin : 1 < b.relations.length)
    (h : ofItems b.sources = .ok sources) :
    b.draft s rows = selectFiltered sources (stagesOfItems s b.sources)
      ((early sources b.conjuncts).map (Prod.map id (Expr.draft s .kept)))
      ((late sources b.conjuncts).map (Expr.draft s .kept))
      ⟨draftsOfExprs s .dropped b.groupBy, draftOfOption s .dropped b.having⟩ (rows .dropped)
      (b.projection.map (SelectItem.draft s)) b.distinct ∧
    ∀ place e, (place, e) ∈ early sources b.conjuncts →
      (∀ c ∈ e.columns, c.schema = none →
        ofReference? catalog sources (.column c) = some place) ∧
      (OnlyTo catalog sources place (e.references catalog) ↔
        OnlyTo catalog sources place
          ((e.columns.filter (·.schema.isSome)).map .column ++ e.correlated catalog)) := by
  refine ⟨b.draft_eq_of_join s rows hjoin h, fun place e hearly => ?_⟩
  have hp := (mem_early.mp hearly).2
  exact ⟨fun c hc hschema => ofReference?_of_pushTarget? h hp hc hschema,
    onlyTo_iff_of_pushTarget? h hp⟩

def columnOf (table name : String) : Expr :=
  .column { table := some ⟨table, false⟩, name := ⟨name, false⟩ }

/-- `a.x IN (SELECT c.y FROM c WHERE c.z = other)`. -/
def membership (other : Expr) : Expr :=
  .inQuery (columnOf "a" "x") (.ofSelect
    { projection := [.expr (columnOf "c" "y") none]
      sources := [{ relation := .table [⟨"c", false⟩] none }]
      condition := some (.binary (columnOf "c" "z") .eq other) }) false

/-- `SELECT a.x FROM a, b WHERE a.x IN (SELECT c.y FROM c WHERE c.z = other)`. -/
def memberOf (other : Expr) : Select where
  projection := [.expr (columnOf "a" "x") none]
  sources := [{ relation := .table [⟨"a", false⟩] none },
    { relation := .table [⟨"b", false⟩] none }]
  condition := some (membership other)

def memberSources : List Source :=
  ["a", "b"].map fun name =>
    ⟨⟨name, false⟩, .table [⟨name, false⟩] none, .cross, .unconstrained, true⟩

theorem early_membership (other : Expr) :
    (0, membership other) ∈ early memberSources (memberOf other).conjuncts := by
  have hindex : indexOf? memberSources ⟨"a", false⟩ = some 0 := by decide +kernel
  exact mem_early.mpr ⟨List.mem_singleton_self _, pushTarget?_of_column rfl hindex rfl⟩

/-- The subquery passes on what its condition compares with, as far as `c` does not answer it. -/
theorem correlated_membership (catalog : Catalog) (other : Expr) :
    (membership other).correlated catalog = (other.references catalog).filter fun r =>
      !(Relation.table [⟨"c", false⟩] none).answers catalog r := by
  have hown (name : Name) : (Relation.table [⟨"c", false⟩] none).answers catalog
      (.column { table := some ⟨"c", false⟩, name }) = true := by
    show Name.denotes ⟨"c", false⟩ ⟨"c", false⟩ = true
    decide +kernel
  simp [membership, columnOf, Query.ofSelect, Expr.correlated, Expr.subqueries, Query.references,
    QueryBody.references, Select.references, referencesOfSources, FromItem.references,
    referencesOfJoins, Relation.references, referencesOfItems, SelectItem.references,
    referencesOfOption, Expr.references, referencesOfExprs, referencesOfOrder,
    FromItem.relations, hown]

theorem early_onlyTo_iff_constant :
    let one : Expr := .literal (.number "1")
    let rows : Qualifiers → RowClauses := fun _ => ⟨[], none, none⟩
    1 < (memberOf one).relations.length ∧ ofItems (memberOf one).sources = .ok memberSources ∧
    (0, membership one) ∈ early memberSources (memberOf one).conjuncts ∧
    ∀ catalog,
      (memberOf one).draft {} rows = selectFiltered memberSources
        (stagesOfItems {} (memberOf one).sources)
        ((early memberSources (memberOf one).conjuncts).map (Prod.map id (Expr.draft {} .kept)))
        ((late memberSources (memberOf one).conjuncts).map (Expr.draft {} .kept)) ⟨[], none⟩
        ⟨[], none, none⟩ ((memberOf one).projection.map (SelectItem.draft {})) false ∧
      OnlyTo catalog memberSources 0 ((membership one).references catalog) := by
  intro one rows
  have hjoin : 1 < (memberOf one).relations.length := by decide
  have h : ofItems (memberOf one).sources = .ok memberSources := rfl
  refine ⟨hjoin, h, early_membership one, fun catalog => ?_⟩
  obtain ⟨hdraft, hearly⟩ := early_onlyTo_iff {} rows catalog hjoin h
  refine ⟨hdraft, (hearly 0 (membership one) (early_membership one)).2.mpr ?_⟩
  have hnone : ((membership one).columns.filter (·.schema.isSome)).map Reference.column ++
      (membership one).correlated catalog = [] := by
    rw [correlated_membership]
    rfl
  rw [hnone]
  exact fun _ hr => nomatch hr

/-- The steps of `SELECT a.x FROM a, b WHERE a.x IN (SELECT c.y FROM c WHERE c.z = b.z)`. -/
def correlatedSteps : List Step :=
  [⟨0, [.text "Load table a and store as alias a"]⟩,
    ⟨1, [.text "Load table b and store as alias b"]⟩,
    ⟨2, [.text "Load data for table c"]⟩,
    ⟨3, [.text "Check if", .text "z in c", .text "equals", .text "z in b"]⟩,
    ⟨4, [.text "Filter", .ref 2, .text "using condition:", .ref 3]⟩,
    ⟨5, [.text "Create table with columns", .text "y in c", .text "from", .ref 4]⟩,
    ⟨6, [.text "Check if", .text "x in a", .text "appears in", .ref 5]⟩,
    ⟨7, [.text "Filter", .ref 0, .text ":", .ref 6]⟩,
    ⟨8, [.text "Join", .ref 7, .text "with", .ref 1,
      .text "- condition: none (all combinations of rows)"]⟩,
    ⟨9, [.text "Retrieve", .text "x in a", .text "from", .ref 8]⟩,
    ⟨10, [.text "Create table with columns for", .ref 9]⟩]

/-- The filter on `a` is emitted before the join with `b`, and it refers to `b`. -/
theorem early_correlated_not_onlyTo :
    let other := columnOf "b" "z"
    (0, membership other) ∈ early memberSources (memberOf other).conjuncts ∧
    (∀ catalog, ∃ r ∈ (membership other).references catalog,
      ofReference? catalog memberSources r = some 1) ∧
    (Query.ofSelect (memberOf other)).draft {} 0 = .ok ⟨.step 10, correlatedSteps, 11⟩ := by
  intro other
  refine ⟨early_membership other, fun catalog => ?_, by decide +kernel⟩
  let compared : Reference := .column { table := some ⟨"b", false⟩, name := ⟨"z", false⟩ }
  have hnotOwn : (Relation.table [⟨"c", false⟩] none).answers catalog compared = false := by
    show Name.denotes ⟨"c", false⟩ ⟨"b", false⟩ = false
    decide +kernel
  have hcorrelated : compared ∈ (membership other).correlated catalog := by
    rw [correlated_membership]
    exact List.mem_filter.mpr ⟨List.mem_singleton_self _, by rw [hnotOwn]; rfl⟩
  refine ⟨compared, (Expr.mem_references ..).mpr (.inr hcorrelated), ?_⟩
  show memberSources.findIdx? (fun source =>
    source.relation.exposedName?.any (·.denotes ⟨"b", false⟩)) = some 1
  decide +kernel

end QuerySteps
