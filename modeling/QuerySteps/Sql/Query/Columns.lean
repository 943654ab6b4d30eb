import QuerySteps.Sql.Query.Basic

/-!
# Columns, conjuncts and qualifiers of an expression

Subqueries are opaque here: their columns belong to a scope of their own. `columns` lists what an
expression mentions, `withoutQualifiers` rebuilds it over bare columns, and `conjuncts` splits its
outermost chain of AND.
-/

namespace QuerySteps.Sql.Expr

mutual

/-- The columns mentioned outside subqueries, in the order of the text. -/
def columns : Expr → List Column
  | column c => [c]
  | literal _ | wildcard | existsQuery .. | subquery _ => []
  | binary l _ r => l.columns ++ r.columns
  | unary _ e | nested e | isValue e _ _ | inQuery e _ _ => e.columns
  | between e low high _ => e.columns ++ low.columns ++ high.columns
  | inList e items _ => e.columns ++ columnsOfList items
  | like e pattern _ _ => e.columns ++ pattern.columns
  | call _ args _ => columnsOfList args
termination_by structural e => e

def columnsOfList : List Expr → List Column
  | [] => []
  | e :: es => e.columns ++ columnsOfList es
termination_by structural es => es

end

mutual

/-- The expression with every column outside subqueries made bare. -/
def withoutQualifiers : Expr → Expr
  | column c => column c.bare
  | literal v => literal v
  | wildcard => wildcard
  | existsQuery q n => existsQuery q n
  | subquery q => subquery q
  | binary l op r => binary l.withoutQualifiers op r.withoutQualifiers
  | unary op e => unary op e.withoutQualifiers
  | isValue e v n => isValue e.withoutQualifiers v n
  | between e low high n =>
    between e.withoutQualifiers low.withoutQualifiers high.withoutQualifiers n
  | inList e items n => inList e.withoutQualifiers (listWithoutQualifiers items) n
  | inQuery e q n => inQuery e.withoutQualifiers q n
  | like e pattern n i => like e.withoutQualifiers pattern.withoutQualifiers n i
  | call f args d => call f (listWithoutQualifiers args) d
  | nested e => nested e.withoutQualifiers
termination_by structural e => e

def listWithoutQualifiers : List Expr → List Expr
  | [] => []
  | e :: es => e.withoutQualifiers :: listWithoutQualifiers es
termination_by structural es => es

end

/-- The parts of the outermost chain of AND. Parentheses right around a chain are seen through;
doubled ones, and chains under other operators, are left alone. -/
def conjuncts : Expr → List Expr
  | binary l .and r => l.conjuncts ++ r.conjuncts
  | nested (binary l .and r) => l.conjuncts ++ r.conjuncts
  | e => [e]

/-- The expression inside all parentheses around it. -/
def withoutParens : Expr → Expr
  | nested e => e.withoutParens
  | e => e

theorem columnsOfList_eq_flatMap (es : List Expr) : columnsOfList es = es.flatMap columns := by
  induction es with
  | nil => rfl
  | cons e es ih => simp [columnsOfList, ih]

theorem columnsOfList_map {g : Expr → Expr} {k : Column → Column} {es : List Expr}
    (h : ∀ e ∈ es, (g e).columns = e.columns.map k) :
    columnsOfList (es.map g) = (columnsOfList es).map k := by
  induction es with
  | nil => rfl
  | cons e es ih =>
    obtain ⟨he, hes⟩ := List.forall_mem_cons.mp h
    simp only [List.map_cons, columnsOfList, he, ih hes, List.map_append]

theorem listWithoutQualifiers_eq_map (es : List Expr) :
    listWithoutQualifiers es = es.map withoutQualifiers := by
  induction es with
  | nil => rfl
  | cons e es ih => simp [listWithoutQualifiers, ih]

theorem form_withoutQualifiers (e : Expr) : e.withoutQualifiers.form = e.form := by
  cases e <;> rfl

theorem isArithmetic_withoutQualifiers (e : Expr) :
    e.withoutQualifiers.isArithmetic = e.isArithmetic := by
  cases e <;> rfl

theorem withoutQualifiers_eq_wildcard {e : Expr} :
    e.withoutQualifiers = .wildcard ↔ e = .wildcard := by
  cases e <;> simp [withoutQualifiers]

end QuerySteps.Sql.Expr
