import QuerySteps.Proofs.Syntax.Hereditary

/-!
# References

What a query refers to outside itself. The relations of a SELECT block answer references from its
clauses, and what they do not answer is passed on to the query around it. The references of an
expression are therefore its own columns and whatever is passed on by its subqueries
(`Expr.mem_references`).

A derived table does not see the relations beside it. Sort keys see the columns of the result before
anything else. What the text leaves open, such as the columns of a table, is up to a `Catalog`.
-/

namespace QuerySteps.Sql

/-- What queries do not tell about tables. -/
structure Catalog where
  /-- Whether the relation has a column of the name. -/
  hasColumn : Relation → Name → Bool
  /-- Whether the table of the path stands in the schema. -/
  inSchema : List Name → Name → Bool

/-- A mention of one column or of all columns of a relation. -/
inductive Reference where
  | column (column : Column)
  | allOf (table : Name)
  deriving Repr, DecidableEq

/-- The name in a reference to a column without a qualifier. -/
def Reference.bare? : Reference → Option Name
  | column ⟨_, none, name⟩ => some name
  | _ => none

/-- Whether the reference is to the relation. An alias hides the table with its schema. -/
def Relation.answers (catalog : Catalog) (relation : Relation) : Reference → Bool
  | .column ⟨_, none, name⟩ => catalog.hasColumn relation name
  | .column ⟨some schema, some qualifier, _⟩ =>
    match relation with
    | .table path none => path.getLast?.any (·.denotes qualifier) && catalog.inSchema path schema
    | _ => false
  | .column ⟨none, some qualifier, _⟩ | .allOf qualifier =>
    relation.exposedName?.any (·.denotes qualifier)

/-- Whether the item of a SELECT list yields a column of the name. -/
def SelectItem.yields (catalog : Catalog) (relations : List Relation) (name : Name) :
    SelectItem → Bool
  | .expr _ (some aliasName) => aliasName.denotes name
  | .expr (.column c) none => c.name.denotes name
  | .expr _ none => false
  | .all => relations.any (catalog.hasColumn · name)
  | .allOf table =>
    relations.any fun r => r.answers catalog (.allOf table) && catalog.hasColumn r name

mutual

/-- Whether the result has a column of the name. A set operation takes the names from its left
side. -/
def QueryBody.yields (catalog : Catalog) (name : Name) : QueryBody → Bool
  | .select block => block.projection.any (·.yields catalog block.relations name)
  | .setOperation _ _ left _ => left.yields catalog name
termination_by structural b => b

def Query.yields (catalog : Catalog) (name : Name) : Query → Bool
  | ⟨body, _, _, _⟩ => body.yields catalog name
termination_by structural q => q

end

mutual

/-- What an expression refers to around it. -/
def Expr.references (catalog : Catalog) : Expr → List Reference
  | .column c => [.column c]
  | .literal _ | .wildcard => []
  | .binary l _ r => l.references catalog ++ r.references catalog
  | .unary _ e | .nested e | .isValue e _ _ => e.references catalog
  | .between e low high _ =>
    e.references catalog ++ low.references catalog ++ high.references catalog
  | .inList e items _ => e.references catalog ++ referencesOfExprs catalog items
  | .inQuery e q _ => e.references catalog ++ q.references catalog
  | .existsQuery q _ | .subquery q => q.references catalog
  | .like e pattern _ _ => e.references catalog ++ pattern.references catalog
  | .call _ args _ => referencesOfExprs catalog args
termination_by structural e => e

def referencesOfExprs (catalog : Catalog) : List Expr → List Reference
  | [] => []
  | e :: es => e.references catalog ++ referencesOfExprs catalog es
termination_by structural es => es

def referencesOfOption (catalog : Catalog) : Option Expr → List Reference
  | none => []
  | some e => e.references catalog
termination_by structural e => e

def SelectItem.references (catalog : Catalog) : SelectItem → List Reference
  | .expr value _ => value.references catalog
  | .all => []
  | .allOf table => [.allOf table]
termination_by structural i => i

def referencesOfItems (catalog : Catalog) : List SelectItem → List Reference
  | [] => []
  | i :: is => i.references catalog ++ referencesOfItems catalog is
termination_by structural is => is

/-- What a relation refers to around the query that it stands in. -/
def Relation.references (catalog : Catalog) : Relation → List Reference
  | .table _ _ => []
  | .derived query _ => query.references catalog
termination_by structural r => r

def JoinConstraint.references (catalog : Catalog) : JoinConstraint → List Reference
  | .on condition => condition.references catalog
  | .shared _ | .natural | .unconstrained => []
termination_by structural c => c

/-- The references of a join, where its condition sees the relations that answer `bound`. -/
def Join.references (catalog : Catalog) (bound : Reference → Bool) : Join → List Reference
  | ⟨relation, _, constraint⟩ =>
    relation.references catalog ++ (constraint.references catalog).filter (!bound ·)
termination_by structural j => j

def referencesOfJoins (catalog : Catalog) (bound : Reference → Bool) : List Join → List Reference
  | [] => []
  | j :: js => j.references catalog bound ++ referencesOfJoins catalog bound js
termination_by structural js => js

/-- The references of a FROM item, where its conditions see the relations that answer `bound`. -/
def FromItem.references (catalog : Catalog) (bound : Reference → Bool) : FromItem → List Reference
  | ⟨relation, joins⟩ => relation.references catalog ++ referencesOfJoins catalog bound joins
termination_by structural i => i

def referencesOfSources (catalog : Catalog) (bound : Reference → Bool) :
    List FromItem → List Reference
  | [] => []
  | i :: is => i.references catalog bound ++ referencesOfSources catalog bound is
termination_by structural is => is

def OrderItem.references (catalog : Catalog) : OrderItem → List Reference
  | ⟨key, _⟩ => key.references catalog
termination_by structural i => i

def referencesOfOrder (catalog : Catalog) : List OrderItem → List Reference
  | [] => []
  | i :: is => i.references catalog ++ referencesOfOrder catalog is
termination_by structural is => is

/-- What a SELECT block passes on, together with the references of the row clauses around it. -/
def Select.references (catalog : Catalog) (rows : List Reference) : Select → List Reference
  | ⟨_, projection, sources, condition, groupBy, having⟩ =>
    let bound (r : Reference) : Bool :=
      (sources.flatMap (·.relations)).any (·.answers catalog r)
    referencesOfSources catalog bound sources ++
      (referencesOfItems catalog projection ++ referencesOfOption catalog condition ++
        referencesOfExprs catalog groupBy ++ referencesOfOption catalog having ++ rows).filter
          (!bound ·)
termination_by structural b => b

def QueryBody.references (catalog : Catalog) (rows : List Reference) :
    QueryBody → List Reference
  | .select block => block.references catalog rows
  | .setOperation _ _ left right => left.references catalog ++ right.references catalog ++ rows
termination_by structural b => b

/-- What a query refers to around it. -/
def Query.references (catalog : Catalog) : Query → List Reference
  | ⟨body, orderBy, limit, offset⟩ =>
    body.references catalog
      ((referencesOfOrder catalog orderBy).filter (!·.bare?.any (body.yields catalog ·)) ++
        referencesOfOption catalog limit ++ referencesOfOption catalog offset)
termination_by structural q => q

end

mutual

/-- The subqueries of an expression, without those inside them. -/
def Expr.subqueries : Expr → List Query
  | .column _ | .literal _ | .wildcard => []
  | .binary l _ r => l.subqueries ++ r.subqueries
  | .unary _ e | .nested e | .isValue e _ _ => e.subqueries
  | .between e low high _ => e.subqueries ++ low.subqueries ++ high.subqueries
  | .inList e items _ => e.subqueries ++ subqueriesOfExprs items
  | .inQuery e q _ => e.subqueries ++ [q]
  | .existsQuery q _ | .subquery q => [q]
  | .like e pattern _ _ => e.subqueries ++ pattern.subqueries
  | .call _ args _ => subqueriesOfExprs args
termination_by structural e => e

def subqueriesOfExprs : List Expr → List Query
  | [] => []
  | e :: es => e.subqueries ++ subqueriesOfExprs es
termination_by structural es => es

end

/-- The references that the subqueries of an expression pass on. -/
def Expr.correlated (catalog : Catalog) (e : Expr) : List Reference :=
  e.subqueries.flatMap (Query.references catalog)

/-! ## Columns and subqueries -/

section

variable {catalog : Catalog} {r : Reference}

/-- Whether the reference is to be found is told by the columns and by the subqueries. -/
def ToldBy (catalog : Catalog) (r : Reference) (references : List Reference)
    (columns : List Column) (subqueries : List Query) : Prop :=
  r ∈ references ↔
    r ∈ columns.map .column ∨ r ∈ subqueries.flatMap (Query.references catalog)

theorem ToldBy.nil : ToldBy catalog r [] [] [] := by
  simp [ToldBy]

theorem ToldBy.append {a b : List Reference} {c d : List Column} {p q : List Query}
    (h : ToldBy catalog r a c p) (h' : ToldBy catalog r b d q) :
    ToldBy catalog r (a ++ b) (c ++ d) (p ++ q) := by
  rw [ToldBy] at *
  simp only [List.map_append, List.flatMap_append, List.mem_append, h, h']
  exact or_or_or_comm ..

theorem toldBy_column (c : Column) : ToldBy catalog r [.column c] [c] [] := by
  simp [ToldBy]

theorem toldBy_subquery (q : Query) : ToldBy catalog r (q.references catalog) [] [q] := by
  simp [ToldBy]

theorem toldBy_exprs {es : List Expr}
    (h : ∀ e ∈ es, ToldBy catalog r (e.references catalog) e.columns e.subqueries) :
    ToldBy catalog r (referencesOfExprs catalog es) (Expr.columnsOfList es)
      (subqueriesOfExprs es) := by
  induction es with
  | nil => exact .nil
  | cons e es ih =>
    obtain ⟨he, hes⟩ := List.forall_mem_cons.mp h
    exact he.append (ih hes)

theorem hereditary_toldBy (catalog : Catalog) (r : Reference) :
    Hereditary (fun e => ToldBy catalog r (e.references catalog) e.columns e.subqueries)
      fun _ => True where
  column c := toldBy_column c
  literal v := .nil
  binary l op r hl hr := hl.append hr
  unary op e he := he
  isValue e v n he := he
  between e low high n he hlow hhigh := (he.append hlow).append hhigh
  inList e items n he hi := he.append (toldBy_exprs hi)
  inQuery e q n he _ := by
    have h := he.append (toldBy_subquery q)
    rwa [List.append_nil] at h
  existsQuery q n _ := toldBy_subquery q
  subquery q _ := toldBy_subquery q
  like e pattern n i he hp := he.append hp
  call f args d ha := toldBy_exprs ha
  nested e he := he
  wildcard := .nil
  select _ _ _ _ _ _ := trivial
  setOperation _ _ _ _ _ _ _ _ _ _ := trivial

end

/-- An expression refers to its own columns and to what its subqueries pass on. -/
theorem Expr.mem_references (catalog : Catalog) (r : Reference) (e : Expr) :
    r ∈ e.references catalog ↔ r ∈ e.columns.map .column ∨ r ∈ e.correlated catalog :=
  (hereditary_toldBy catalog r).expr e

end QuerySteps.Sql
