import QuerySteps.Proofs.Join.EarlyFilters

/-!
# Where early filters go

A column may name the schema of its table, and FROM may have tables of the same name in different
schemas. The place of an early filter is looked up by the name of the table alone, so it is the
place of the first relation that goes by this name. The columns of the filter denote that relation
exactly if it stands in the schema that they name, where they name one (`early_denoted_iff`).
-/

namespace QuerySteps

open Sql

namespace Sql.Relation

/-- The schema of a table that is known by its own name. -/
def schema? : Relation → Option Name
  | .table path none => path.dropLast.getLast?
  | _ => none

/-- Whether the relation is known by the qualifier of the column. -/
def goesBy (r : Relation) (c : Column) : Bool :=
  c.table.any fun qualifier => r.exposedName?.any (·.denotes qualifier)

/-- Whether the schemas of the relation and of the column are the same, if both have one. -/
def isIn (r : Relation) (c : Column) : Bool :=
  r.schema?.all fun schema => c.schema.all (schema.denotes ·)

def denotedBy (r : Relation) (c : Column) : Bool :=
  r.goesBy c && r.isIn c

/-- Columns can tell the relations apart, by their names or by their schemas. -/
def Distinguishable (r other : Relation) : Prop :=
  (∀ name ∈ r.exposedName?, ∀ name' ∈ other.exposedName?, name.denotes name' = false) ∨
    ∃ schema ∈ r.schema?, ∃ schema' ∈ other.schema?, schema.denotes schema' = false

end Sql.Relation

namespace Source

/-- The place of the first source that a column denotes. -/
def denoted? (sources : List Source) (c : Column) : Option Nat :=
  sources.findIdx? (·.relation.denotedBy c)

variable {items : List FromItem} {sources : List Source}

theorem ofColumn?_eq_findIdx? (h : ofItems items = .ok sources) {c : Column} {place : Nat}
    (hc : ofColumn? sources c = some place) :
    sources.findIdx? (·.relation.goesBy c) = some place := by
  cases htable : c.table with
  | none => simp [ofColumn?, htable] at hc
  | some qualifier =>
    rw [ofColumn?, htable, Option.bind_some, indexOf?_eq_findIdx? h] at hc
    simpa only [Relation.goesBy, htable, Option.any_some] using hc

/-- The first place of one property is that of two, exactly if the second holds there. -/
theorem findIdx?_and_iff {α : Type} {p q : α → Bool} {l : List α} {place : Nat} {a : α}
    (h : l.findIdx? p = some place) (ha : l[place]? = some a) :
    l.findIdx? (fun a => p a && q a) = some place ↔ q a = true := by
  obtain ⟨hlt, hp, hbefore⟩ := List.findIdx?_eq_some_iff_getElem.mp h
  obtain rfl : l[place] = a := by simpa [List.getElem?_eq_getElem hlt] using ha
  rw [List.findIdx?_eq_some_iff_getElem]
  constructor
  · rintro ⟨_, hboth, -⟩
    exact (Bool.and_eq_true_iff.mp hboth).2
  · intro hq
    exact ⟨hlt, by simp [hp, hq], fun j hj => by simp [hbefore j hj]⟩

theorem find?_of_findIdx? {α : Type} {p : α → Bool} {l : List α} {place : Nat} {a : α}
    (h : l.findIdx? p = some place) (ha : l[place]? = some a) : l.find? p = some a := by
  rw [List.find?_eq_bind_findIdx?_getElem?, h, Option.bind_some, ha]

/-- All columns of a conjunct that is filtered early go by the relation at its place, and they
denote it if it stands in the schemas that they name. -/
theorem exists_target (h : ofItems items = .ok sources) {e : Expr} {place : Nat}
    (hp : pushTarget? sources e = some place) :
    ∃ target, sources[place]? = some target ∧
      (∀ c ∈ e.columns, sources.find? (·.relation.goesBy c) = some target) ∧
      ∀ c ∈ e.columns, denoted? sources c = some place ↔ target.relation.isIn c = true := by
  obtain ⟨hcolumns, hpushable⟩ := Option.filter_eq_some_iff.mp hp
  obtain ⟨target, htarget⟩ : ∃ target, sources[place]? = some target := by
    cases hget : sources[place]? with
    | none => simp [hget] at hpushable
    | some target => exact ⟨target, rfl⟩
  have hfind : ∀ c ∈ e.columns, sources.findIdx? (·.relation.goesBy c) = some place :=
    fun c hc => ofColumn?_eq_findIdx? h (ofColumn?_of_ofColumns? hcolumns c hc)
  exact ⟨target, htarget, fun c hc => find?_of_findIdx? (hfind c hc) htarget,
    fun c hc => findIdx?_and_iff (hfind c hc) htarget⟩

end Source

open Draft Source

/-- In a SELECT over several relations the conjuncts that are filtered before the joins are the
early ones. Such a conjunct is filtered on the first relation that goes by the table of its columns,
and this is the one that all its columns denote, exactly if it stands in the schemas that they
name. -/
theorem early_denoted_iff {b : Select} {sources : List Source} (s : Settings)
    (rows : Qualifiers → RowClauses) (hjoin : 1 < b.relations.length)
    (h : ofItems b.sources = .ok sources) :
    b.draft s rows = selectFiltered sources (stagesOfItems s b.sources)
      ((early sources b.conjuncts).map (Prod.map id (Expr.draft s .kept)))
      ((late sources b.conjuncts).map (Expr.draft s .kept))
      ⟨draftsOfExprs s .dropped b.groupBy, draftOfOption s .dropped b.having⟩ (rows .dropped)
      (b.projection.map (SelectItem.draft s)) b.distinct ∧
    ∀ place e, (place, e) ∈ early sources b.conjuncts → ∃ target, sources[place]? = some target ∧
      (∀ c ∈ e.columns, sources.find? (·.relation.goesBy c) = some target) ∧
      ((∀ c ∈ e.columns, denoted? sources c = some place) ↔
        ∀ c ∈ e.columns, target.relation.isIn c = true) := by
  refine ⟨b.draft_eq_of_join s rows hjoin h, fun place e hearly => ?_⟩
  obtain ⟨target, htarget, hfirst, hdenoted⟩ := exists_target h (mem_early.mp hearly).2
  exact ⟨target, htarget, hfirst, forall₂_congr hdenoted⟩

def columnIn (schema : String) : Column where
  schema := some ⟨schema, false⟩
  table := some ⟨"t", false⟩
  name := ⟨"x", false⟩

/-- `schema.t.x = 1`. -/
def isOneIn (schema : String) : Expr :=
  .binary (.column (columnIn schema)) .eq (.literal (.number "1"))

/-- `SELECT x FROM s1.t, s2.t WHERE schema.t.x = 1`. -/
def filteredSchema (schema : String) : Select where
  projection := [.expr (.column { name := ⟨"x", false⟩ }) none]
  sources := [{ relation := .table [⟨"s1", false⟩, ⟨"t", false⟩] none },
    { relation := .table [⟨"s2", false⟩, ⟨"t", false⟩] none }]
  condition := some (isOneIn schema)

def schemaSources : List Source :=
  ["s1", "s2"].map fun schema =>
    ⟨⟨"t", false⟩, .table [⟨schema, false⟩, ⟨"t", false⟩] none, .cross, .unconstrained, true⟩

theorem early_isOneIn (schema : String) :
    (0, isOneIn schema) ∈ early schemaSources (filteredSchema schema).conjuncts := by
  have hindex : indexOf? schemaSources ⟨"t", false⟩ = some 0 := by decide +kernel
  exact mem_early.mpr ⟨List.mem_singleton_self _, pushTarget?_of_column rfl hindex rfl⟩

theorem early_denoted_iff_firstSchema :
    let rows : Qualifiers → RowClauses := fun _ => ⟨[], none, none⟩
    1 < (filteredSchema "s1").relations.length ∧
    ofItems (filteredSchema "s1").sources = .ok schemaSources ∧
    (0, isOneIn "s1") ∈ early schemaSources (filteredSchema "s1").conjuncts ∧
    (filteredSchema "s1").draft {} rows = selectFiltered schemaSources
      (stagesOfItems {} (filteredSchema "s1").sources)
      ((early schemaSources (filteredSchema "s1").conjuncts).map
        (Prod.map id (Expr.draft {} .kept)))
      ((late schemaSources (filteredSchema "s1").conjuncts).map (Expr.draft {} .kept)) ⟨[], none⟩
      ⟨[], none, none⟩ ((filteredSchema "s1").projection.map (SelectItem.draft {})) false ∧
    denoted? schemaSources (columnIn "s1") = some 0 := by
  intro rows
  have hjoin : 1 < (filteredSchema "s1").relations.length := by decide
  have h : ofItems (filteredSchema "s1").sources = .ok schemaSources := rfl
  obtain ⟨hdraft, hearly⟩ := early_denoted_iff {} rows hjoin h
  obtain ⟨target, htarget, -, hdenoted⟩ := hearly 0 (isOneIn "s1") (early_isOneIn "s1")
  refine ⟨hjoin, h, early_isOneIn "s1", hdraft, hdenoted.mpr ?_ _ (List.mem_singleton_self _)⟩
  cases htarget
  intro c hc
  obtain rfl := List.mem_singleton.mp hc
  decide +kernel

/-- The steps of `SELECT x FROM s1.t, s2.t WHERE s2.t.x = 1`. -/
def secondSchemaSteps : List Step :=
  [⟨0, [.text "Load table t in schema s1 and store as alias t"]⟩,
    ⟨1, [.text "Load table t in schema s2 and store as alias t"]⟩,
    ⟨2, [.text "Check if", .text "x in t in schema s2", .text "equals", .text "1"]⟩,
    ⟨3, [.text "Filter", .ref 0, .text ":", .ref 2]⟩,
    ⟨4, [.text "Join", .ref 3, .text "with", .ref 1,
      .text "- condition: none (all combinations of rows)"]⟩,
    ⟨5, [.text "Retrieve", .text "x", .text "from", .ref 4]⟩,
    ⟨6, [.text "Create table with columns for", .ref 5]⟩]

/-- The filter on `t` of the schema `s2` is applied to `t` of the schema `s1`. -/
theorem early_secondSchema_not_denoted :
    (filteredSchema "s2").relations.Pairwise Relation.Distinguishable ∧
    (0, isOneIn "s2") ∈ early schemaSources (filteredSchema "s2").conjuncts ∧
    (isOneIn "s2").columns = [columnIn "s2"] ∧
    denoted? schemaSources (columnIn "s2") = some 1 ∧
    (Query.ofSelect (filteredSchema "s2")).draft {} 0 = .ok ⟨.step 6, secondSchemaSteps, 7⟩ := by
  have hdistinct : Relation.Distinguishable (.table [⟨"s1", false⟩, ⟨"t", false⟩] none)
      (.table [⟨"s2", false⟩, ⟨"t", false⟩] none) :=
    .inr ⟨⟨"s1", false⟩, rfl, ⟨"s2", false⟩, rfl, by decide +kernel⟩
  exact ⟨List.pairwise_pair.mpr hdistinct, early_isOneIn "s2", rfl, by decide +kernel,
    by decide +kernel⟩

end QuerySteps
