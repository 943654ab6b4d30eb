import QuerySteps.Proofs.Syntax.Hereditary

/-!
# Redundant parentheses

Parentheses mean something around arithmetic, where steps show them, and around the `*` of
`COUNT(*)`. Everywhere else they are redundant, with one exception: WHERE over several relations and
the condition of a join are split at AND, and the splitting sees through a single pair of
parentheses around a chain but not through two.

`plain` takes the redundant parentheses away and leaves two pairs around such a chain.
-/

namespace QuerySteps.Sql

/-! ## Plain forms -/

namespace Expr

/-- The expression between parentheses, or without them if they are redundant. -/
def wrapped : Expr → Expr
  | .wildcard => .nested .wildcard
  | e => if e.isArithmetic then .nested e else e

/-- The expression as a conjunct that is not split any further. -/
def kept : Expr → Expr
  | .binary l .and r => .nested (.nested (.binary l .and r))
  | e => e

end Expr

mutual

/-- The expression without redundant parentheses. -/
def Expr.plain : Expr → Expr
  | .column c => .column c
  | .literal v => .literal v
  | .binary l op r => .binary l.plain op r.plain
  | .unary op e => .unary op e.plain
  | .isValue e v n => .isValue e.plain v n
  | .between e low high n => .between e.plain low.plain high.plain n
  | .inList e items n => .inList e.plain (plainExprs items) n
  | .inQuery e query n => .inQuery e.plain query.plain n
  | .existsQuery query n => .existsQuery query.plain n
  | .subquery query => .subquery query.plain
  | .like e pattern n i => .like e.plain pattern.plain n i
  | .call f args d => .call f (plainExprs args) d
  | .nested inner => inner.plain.wrapped
  | .wildcard => .wildcard
termination_by structural e => e

def plainExprs : List Expr → List Expr
  | [] => []
  | e :: es => e.plain :: plainExprs es
termination_by structural es => es

def plainOption : Option Expr → Option Expr
  | none => none
  | some e => some e.plain
termination_by structural e => e

/-- A chain of conjuncts, each without redundant parentheses, where `whole` is the plain form of the
expression itself. -/
def Expr.plainChain (whole : Expr) : Expr → Expr
  | .binary l .and r => .binary (Expr.plainChain l.plain l) .and (Expr.plainChain r.plain r)
  | .nested (.binary l .and r) =>
    .binary (Expr.plainChain l.plain l) .and (Expr.plainChain r.plain r)
  | _ => whole.kept
termination_by structural e => e

def plainChainOption : Option Expr → Option Expr
  | none => none
  | some e => some (Expr.plainChain e.plain e)
termination_by structural e => e

def JoinConstraint.plain : JoinConstraint → JoinConstraint
  | .on condition => .on (Expr.plainChain condition.plain condition)
  | .shared columns => .shared columns
  | .natural => .natural
  | .unconstrained => .unconstrained
termination_by structural c => c

def Relation.plain : Relation → Relation
  | .table path aliasName => .table path aliasName
  | .derived query aliasName => .derived query.plain aliasName
termination_by structural r => r

def Join.plain : Join → Join
  | ⟨relation, kind, constraint⟩ => ⟨relation.plain, kind, constraint.plain⟩
termination_by structural j => j

def plainJoins : List Join → List Join
  | [] => []
  | j :: js => j.plain :: plainJoins js
termination_by structural js => js

def FromItem.plain : FromItem → FromItem
  | ⟨relation, joins⟩ => ⟨relation.plain, plainJoins joins⟩
termination_by structural i => i

def plainSources : List FromItem → List FromItem
  | [] => []
  | i :: is => i.plain :: plainSources is
termination_by structural is => is

def SelectItem.plain : SelectItem → SelectItem
  | .expr value aliasName => .expr value.plain aliasName
  | .all => .all
  | .allOf table => .allOf table
termination_by structural i => i

def plainItems : List SelectItem → List SelectItem
  | [] => []
  | i :: is => i.plain :: plainItems is
termination_by structural is => is

def OrderItem.plain : OrderItem → OrderItem
  | ⟨key, descending⟩ => ⟨key.plain, descending⟩
termination_by structural i => i

def plainOrder : List OrderItem → List OrderItem
  | [] => []
  | i :: is => i.plain :: plainOrder is
termination_by structural is => is

/-- A SELECT block; its WHERE is a chain of conjuncts if there are several relations. -/
def Select.plain : Select → Select
  | ⟨distinct, projection, sources, condition, groupBy, having⟩ =>
    { distinct
      projection := plainItems projection
      sources := plainSources sources
      condition :=
        if 1 < (sources.flatMap (·.relations)).length then plainChainOption condition
        else plainOption condition
      groupBy := plainExprs groupBy
      having := plainOption having }
termination_by structural b => b

def QueryBody.plain : QueryBody → QueryBody
  | .select block => .select block.plain
  | .setOperation op all left right => .setOperation op all left.plain right.plain
termination_by structural b => b

/-- The query without redundant parentheses. -/
def Query.plain : Query → Query
  | ⟨body, orderBy, limit, offset⟩ =>
    ⟨body.plain, plainOrder orderBy, plainOption limit, plainOption offset⟩
termination_by structural q => q

end

/-! ## Lists and options -/

theorem plainExprs_eq_map (es : List Expr) : plainExprs es = es.map Expr.plain := by
  induction es with
  | nil => rfl
  | cons e es ih => simp [plainExprs, ih]

theorem plainItems_eq_map (items : List SelectItem) :
    plainItems items = items.map SelectItem.plain := by
  induction items with
  | nil => rfl
  | cons i is ih => simp [plainItems, ih]

theorem plainOrder_eq_map (items : List OrderItem) :
    plainOrder items = items.map OrderItem.plain := by
  induction items with
  | nil => rfl
  | cons i is ih => simp [plainOrder, ih]

theorem plainJoins_eq_map (joins : List Join) : plainJoins joins = joins.map Join.plain := by
  induction joins with
  | nil => rfl
  | cons j js ih => simp [plainJoins, ih]

theorem links_plainSources (items : List FromItem) :
    Source.links (plainSources items) =
      (Source.links items).map fun link => (link.1.plain, link.2.1, link.2.2.plain) := by
  induction items with
  | nil => rfl
  | cons item items ih =>
    obtain ⟨relation, joins⟩ := item
    simp only [plainSources, FromItem.plain, plainJoins_eq_map, Source.links, List.flatMap_cons,
      Source.linksOfItem, List.map_append, List.map_cons, List.map_map] at ih ⊢
    rw [ih]
    congr 2
    exact List.map_congr_left fun j _ => by cases j; rfl

theorem length_relations_plainSources (items : List FromItem) :
    ((plainSources items).flatMap (·.relations)).length =
      (items.flatMap (·.relations)).length := by
  rw [← Source.map_links_fst, ← Source.map_links_fst, links_plainSources]
  simp only [List.length_map]

@[simp] theorem Relation.exposedName?_plain (r : Relation) :
    r.plain.exposedName? = r.exposedName? := by
  cases r <;> rfl

/-! ## The shape of an expression -/

namespace Expr

@[simp] theorem isArithmetic_wrapped (e : Expr) : e.wrapped.isArithmetic = false := by
  fun_cases wrapped e with
  | case1 => rfl
  | case2 e _ harith => simp [isArithmetic]
  | case3 e _ harith => simpa using harith

@[simp] theorem isArithmetic_plain (e : Expr) : e.plain.isArithmetic = e.isArithmetic := by
  cases e with
  | nested inner => exact isArithmetic_wrapped _
  | _ => rfl

@[simp] theorem columns_wrapped (e : Expr) : e.wrapped.columns = e.columns := by
  fun_cases wrapped e <;> rfl

@[simp] theorem columns_kept (e : Expr) : e.kept.columns = e.columns := by
  fun_cases kept e <;> rfl

@[simp] theorem withoutParens_wrapped (e : Expr) : e.wrapped.withoutParens = e.withoutParens := by
  fun_cases wrapped e <;> rfl

@[simp] theorem withoutParens_kept (e : Expr) : e.kept.withoutParens = e.withoutParens := by
  fun_cases kept e <;> rfl

theorem wrapped_ne_wildcard (e : Expr) : e.wrapped ≠ .wildcard := by
  fun_cases wrapped e with
  | case1 => simp
  | case2 e _ _ => simp
  | case3 e h _ => exact h

theorem plain_eq_wildcard {e : Expr} : e.plain = .wildcard ↔ e = .wildcard := by
  cases e with
  | nested inner => simp [plain, wrapped_ne_wildcard]
  | _ => simp [plain]

theorem wrapped_eq_self {e : Expr} (harithmetic : e.isArithmetic = false) (hw : e ≠ .wildcard) :
    e.wrapped = e := by
  fun_cases wrapped e with
  | case1 => exact absurd rfl hw
  | case2 e _ harith =>
    rw [harithmetic] at harith
    cases harith
  | case3 e _ _ => rfl

/-- Parentheses around anything but arithmetic and `*` are redundant. -/
theorem plain_nested {e : Expr} (harithmetic : e.isArithmetic = false) (hw : e ≠ .wildcard) :
    (nested e).plain = e.plain := by
  refine wrapped_eq_self ?_ ?_
  · rw [isArithmetic_plain, harithmetic]
  · rwa [Ne, plain_eq_wildcard]

/-- Around a conjunct they are redundant, too, unless it is a chain in parentheses already. -/
theorem plainChain_nested {e : Expr} (harithmetic : e.isArithmetic = false) (hw : e ≠ .wildcard)
    (hchain : ∀ l r, e ≠ .nested (.binary l .and r)) :
    plainChain (nested e).plain (nested e) = plainChain e.plain e := by
  by_cases hand : ∃ l r, e = .binary l .and r
  · obtain ⟨l, r, rfl⟩ := hand
    rw [plainChain, plainChain]
  · have hne : ∀ l r, e ≠ .binary l .and r := fun l r h => hand ⟨l, r, h⟩
    rw [plainChain.eq_3 _ e hne hchain, plainChain.eq_3 _ (nested e) (by simp) (by simpa using hne),
      plain_nested harithmetic hw]

theorem countsRows_plain (f : String) (args : List Expr) :
    countsRows f (args.map plain) = countsRows f args :=
  countsRows_map (fun _ => plain_eq_wildcard) f args

theorem withoutParens_plain (e : Expr) : e.plain.withoutParens = e.withoutParens.plain := by
  induction e using withoutParens.induct with
  | case1 e ih => rw [plain, withoutParens_wrapped, ih, withoutParens]
  | case2 e h =>
    cases e with
    | nested inner => exact absurd rfl (h inner)
    | _ => rfl

theorem withoutParens_ne_nested (e inner : Expr) : e.withoutParens ≠ .nested inner := by
  induction e using withoutParens.induct with
  | case1 e ih => exact ih
  | case2 e h =>
    rw [withoutParens.eq_2 e h]
    exact fun heq => h inner heq

theorem conjuncts_kept {e : Expr} (h : ∀ l r, e ≠ .nested (.binary l .and r)) :
    e.kept.conjuncts = [e.kept] := by
  fun_cases kept e with
  | case1 l r => rfl
  | case2 e hand =>
    rw [conjuncts.eq_3]
    · exact hand
    · exact h

theorem wrapped_ne_nested_and (e l r : Expr) (h : ∀ l r, e ≠ .nested (.binary l .and r)) :
    e.wrapped ≠ .nested (.binary l .and r) := by
  fun_cases wrapped e with
  | case1 => simp
  | case2 e _ harith =>
    rintro ⟨⟩
    simp [isArithmetic, BinaryOp.isArithmetic] at harith
  | case3 e _ _ => exact h l r

theorem plain_ne_nested_and (e l r : Expr) : e.plain ≠ .nested (.binary l .and r) := by
  induction e using withoutParens.induct generalizing l r with
  | case1 e ih => exact wrapped_ne_nested_and _ l r ih
  | case2 e h =>
    cases e with
    | nested inner => exact absurd rfl (h inner)
    | _ => simp [plain]

/-- The conjuncts of the plain chain are those of the chain, each kept in its plain form. -/
theorem conjuncts_plainChain (e : Expr) :
    (plainChain e.plain e).conjuncts = e.conjuncts.map fun c => c.plain.kept := by
  fun_induction conjuncts e with
  | case1 l r ihl ihr => rw [plainChain, conjuncts, ihl, ihr, List.map_append]
  | case2 l r ihl ihr => rw [plainChain, conjuncts, ihl, ihr, List.map_append]
  | case3 e h1 h2 =>
    rw [plainChain.eq_3 _ _ h1 h2, conjuncts_kept (plain_ne_nested_and e), List.map_singleton]

end Expr

end QuerySteps.Sql
