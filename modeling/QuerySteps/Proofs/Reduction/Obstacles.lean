import QuerySteps.Proofs.Reduction.Levels

/-!
# What keeps surface trees from being reduced

The constructs of a surface tree that have no counterpart among queries, at any depth and in the
order in which they are met. Reducing succeeds if there are none and fails with the first one
otherwise (`Surface.Query.meets`). `Meets` is that relation between obstacles and a part of the
reduction, with one rule for each way to build a reduction.

The escape character of LIKE, the place of NULLs and the names of columns after an alias are no
obstacles: reducing passes over them.
-/

namespace QuerySteps.Sql

/-- What keeps a surface tree from standing for a query. -/
inductive Obstacle where
  /-- A construct without a counterpart among queries. -/
  | foreign (construct : String)
  /-- A name without parts, which no text has, and what is said about it. -/
  | nameless (complaint : String)
  deriving Repr, DecidableEq

namespace Obstacle

def error : Obstacle → ReadError
  | foreign construct => .unsupported construct
  | nameless complaint => .malformed (some complaint)

/-- The obstacle that a construct is if it is present. -/
def mark (isPresent : Bool) (construct : String) : List Obstacle :=
  if isPresent then [foreign construct] else []

end Obstacle

open Obstacle (mark)

namespace Surface

/-! ## Obstacles -/

def PathPart.name? : PathPart → Option Name
  | .name n => some n
  | .call => none

def PathPart.obstacles : PathPart → List Obstacle
  | .name _ => []
  | .call => [.foreign "object name part Function"]

def pathObstacles : List PathPart → List Obstacle
  | [] => [.nameless "object name must not be empty"]
  | parts => parts.flatMap PathPart.obstacles

/-- The obstacles of a column under a name of several parts. -/
def columnObstacles (parts : List Name) : List Obstacle :=
  if parts.isEmpty then [.nameless "empty column reference"]
  else mark (3 < parts.length) "column reference with more than three parts"

def Quantifier.obstacles : Quantifier → List Obstacle
  | .foreign name => [.foreign ("set quantifier " ++ name)]
  | _ => []

def Distinct.obstacles : Distinct → List Obstacle
  | .on => [.foreign "DISTINCT ON"]
  | _ => []

def JoinOperator.obstacles : JoinOperator → List Obstacle
  | .foreign name => [.foreign ("join " ++ name)]
  | .kind _ => []

def OrderBy.isPresent : OrderBy → Bool
  | .keys items => !items.isEmpty
  | .all => true

def LimitClause.isPresent : LimitClause → Bool
  | .limitOffset limit offset _ => limit.isSome || offset.isSome
  | .offsetComma .. => true

mutual

/-- Whether a query, or one that it consists of between parentheses, orders or limits rows. -/
def Query.modifiesRows : Query → Bool
  | ⟨_, body, orderBy, limits, _⟩ =>
    orderBy.isPresent || limits.any LimitClause.isPresent || body.modifiesRows
termination_by structural q => q

def Body.modifiesRows : Body → Bool
  | .query q => q.modifiesRows
  | _ => false
termination_by structural b => b

end

mutual

/-- The obstacles of an expression. -/
def Expr.obstacles : Expr → List Obstacle
  | .identifier _ => []
  | .path parts => columnObstacles parts
  | .literal _ => []
  | .constant name => [.foreign ("value " ++ name)]
  | .binary left _ right => left.obstacles ++ right.obstacles
  | .unary _ operand => operand.obstacles
  | .isValue operand _ _ => operand.obstacles
  | .between operand low high _ => operand.obstacles ++ low.obstacles ++ high.obstacles
  | .inList operand items _ => operand.obstacles ++ obstaclesOfExprs items
  | .inQuery operand query _ => operand.obstacles ++ query.obstacles
  | .existsQuery query _ => query.obstacles
  | .subquery query => query.obstacles
  | .like any operand pattern _ _ _ =>
    mark any "LIKE ANY" ++ operand.obstacles ++ pattern.obstacles
  | .call function window filter args =>
    let name := pathText (function.filterMap PathPart.name?)
    pathObstacles function ++ mark window ("window function " ++ name) ++
      mark filter ("FILTER clause on " ++ name) ++ args.obstacles name
  | .nested inner => inner.obstacles
  | .member => [.foreign "CompoundFieldAccess"]
  | .wildcard => []
  | .foreign construct => [.foreign construct]
termination_by structural e => e

def obstaclesOfExprs : List Expr → List Obstacle
  | [] => []
  | e :: es => e.obstacles ++ obstaclesOfExprs es
termination_by structural es => es

def obstaclesOfOption : Option Expr → List Obstacle
  | none => []
  | some e => e.obstacles
termination_by structural e => e

def Arguments.obstacles (name : String) : Arguments → List Obstacle
  | .absent => []
  | .list _ items => obstaclesOfArguments name items
  | .subquery => [.foreign ("subquery argument of " ++ name)]
termination_by structural a => a

def Argument.obstacles (name : String) : Argument → List Obstacle
  | .expr value => value.obstacles
  | .wildcard => []
  | .foreign kind => [.foreign ("argument " ++ kind ++ " of " ++ name)]
termination_by structural a => a

def obstaclesOfArguments (name : String) : List Argument → List Obstacle
  | [] => []
  | a :: as => a.obstacles name ++ obstaclesOfArguments name as
termination_by structural as => as

/-- The obstacles of a query. Modifiers of two levels are one. -/
def Query.obstacles : Query → List Obstacle
  | ⟨withClause, body, orderBy, limits, fetch⟩ =>
    mark withClause "WITH" ++ mark fetch "FETCH" ++ body.obstacles ++ orderBy.obstacles ++
      obstaclesOfLimits limits ++
      mark ((orderBy.isPresent || limits.any LimitClause.isPresent) && body.modifiesRows)
        "nested ORDER BY / LIMIT"
termination_by structural q => q

def Body.obstacles : Body → List Obstacle
  | .select block => block.obstacles
  | .query query => query.obstacles
  | .setOperation _ quantifier left right =>
    quantifier.obstacles ++ left.obstacles ++ right.obstacles
  | .foreign name => [.foreign name]
termination_by structural b => b

def LimitClause.obstacles : LimitClause → List Obstacle
  | .limitOffset limit offset perGroup =>
    mark perGroup "LIMIT BY" ++ obstaclesOfOption limit ++ obstaclesOfOption offset
  | .offsetComma offset limit => limit.obstacles ++ offset.obstacles
termination_by structural l => l

def obstaclesOfLimits : Option LimitClause → List Obstacle
  | none => []
  | some l => l.obstacles
termination_by structural l => l

/-- The obstacles of a sort key; the place of NULLs is none. -/
def OrderItem.obstacles : OrderItem → List Obstacle
  | ⟨key, _, _⟩ => key.obstacles
termination_by structural i => i

def OrderBy.obstacles : OrderBy → List Obstacle
  | .keys items => obstaclesOfOrder items
  | .all => [.foreign "ORDER BY All"]
termination_by structural o => o

def obstaclesOfOrder : List OrderItem → List Obstacle
  | [] => []
  | i :: is => i.obstacles ++ obstaclesOfOrder is
termination_by structural is => is

def GroupBy.obstacles : GroupBy → List Obstacle
  | .keys items modifiers => mark modifiers "GROUP BY modifiers" ++ obstaclesOfExprs items
  | .all => [.foreign "GROUP BY ALL"]
termination_by structural g => g

def Select.obstacles : Select → List Obstacle
  | ⟨distinct, top, projection, sources, condition, groupBy, having⟩ =>
    distinct.obstacles ++ mark top "TOP" ++ obstaclesOfItems projection ++
      obstaclesOfFrom sources ++ obstaclesOfOption condition ++ groupBy.obstacles ++
      obstaclesOfOption having
termination_by structural s => s

def SelectItem.obstacles : SelectItem → List Obstacle
  | .expr value _ => value.obstacles
  | .all => []
  | .allOf path => pathObstacles path
  | .allOfValue => [.foreign "qualified wildcard Expr"]
termination_by structural i => i

def obstaclesOfItems : List SelectItem → List Obstacle
  | [] => []
  | i :: is => i.obstacles ++ obstaclesOfItems is
termination_by structural is => is

/-- The obstacles of a source of rows; column names after an alias are none. -/
def Relation.obstacles : Relation → List Obstacle
  | .table path _ args => mark args "table function" ++ pathObstacles path
  | .derived query _ => query.obstacles
  | .foreign name => [.foreign name]
termination_by structural r => r

def JoinConstraint.obstacles : JoinConstraint → List Obstacle
  | .on condition => condition.obstacles
  | .shared columns => columns.flatMap pathObstacles
  | .natural => []
  | .unconstrained => []
termination_by structural c => c

def Join.obstacles : Join → List Obstacle
  | ⟨relation, operator, constraint⟩ =>
    operator.obstacles ++ constraint.obstacles ++ relation.obstacles
termination_by structural j => j

def obstaclesOfJoins : List Join → List Obstacle
  | [] => []
  | j :: js => j.obstacles ++ obstaclesOfJoins js
termination_by structural js => js

def FromItem.obstacles : FromItem → List Obstacle
  | ⟨relation, joins⟩ => relation.obstacles ++ obstaclesOfJoins joins
termination_by structural i => i

def obstaclesOfFrom : List FromItem → List Obstacle
  | [] => []
  | i :: is => i.obstacles ++ obstaclesOfFrom is
termination_by structural is => is

end

/-! ## Meeting obstacles -/

/-- A part of a reduction succeeds without obstacles, and fails with the first one otherwise. -/
def Meets {α : Type} (x : Reduced α) : List Obstacle → Prop
  | [] => ∃ a, x = .ok a
  | o :: _ => x = .error o.error

namespace Meets

variable {α β : Type} {x : Reduced α} {f : α → Reduced β} {fs gs : List Obstacle}

theorem pure (a : α) : Meets (Pure.pure a) [] := ⟨a, rfl⟩

theorem foreign {construct : String} :
    Meets (noCounterpart construct : Reduced α) [.foreign construct] := rfl

theorem refuse {isPresent : Bool} {construct : String} :
    Meets (Surface.refuse isPresent construct) (mark isPresent construct) := by
  cases isPresent
  · exact ⟨(), rfl⟩
  · rfl

/-- The obstacles of a later part count if the earlier part has none. -/
theorem bind (hx : Meets x fs) (hf : ∀ a, x = .ok a → Meets (f a) gs) :
    Meets (x >>= f) (fs ++ gs) := by
  cases fs with
  | nil =>
    obtain ⟨a, rfl⟩ := hx
    exact hf a rfl
  | cons o rest =>
    obtain rfl : x = .error o.error := hx
    rfl

theorem andThen (hx : Meets x fs) (hf : ∀ a, x = .ok a → Meets (f a) []) :
    Meets (x >>= f) fs := by
  have h := hx.bind hf
  rwa [List.append_nil] at h

theorem map {g : α → β} (hx : Meets x fs) : Meets (x >>= fun a => Pure.pure (g a)) fs :=
  hx.andThen fun a _ => .pure (g a)

theorem mapM {g : α → Reduced β} {obstacles : α → List Obstacle}
    (hg : ∀ a, Meets (g a) (obstacles a)) (as : List α) :
    Meets (as.mapM g) (as.flatMap obstacles) := by
  induction as with
  | nil => exact .pure []
  | cons a as ih =>
    rw [List.mapM_cons]
    exact (hg a).bind fun _ _ => ih.map

end Meets

/-! ## Names and marks -/

theorem PathPart.meets (part : PathPart) : Meets part.reduce part.obstacles := by
  cases part with
  | name n => exact .pure n
  | call => exact .foreign

theorem names_eq {path : List PathPart} {names : List Name}
    (h : path.mapM PathPart.reduce = .ok names) : names = path.filterMap PathPart.name? := by
  induction path generalizing names with
  | nil =>
    cases h
    rfl
  | cons part path ih =>
    rw [List.mapM_cons] at h
    obtain ⟨n, hn, h⟩ := Reduced.bind_eq_ok.mp h
    obtain ⟨rest, hrest, h⟩ := Reduced.bind_eq_ok.mp h
    cases h
    cases part with
    | name m =>
      cases hn
      rw [ih hrest]
      rfl
    | call => cases hn

theorem meets_path (path : List PathPart) : Meets (reducePath path) (pathObstacles path) := by
  cases path with
  | nil => rfl
  | cons part path =>
    refine (Meets.mapM PathPart.meets (part :: path)).andThen fun names hnames => ?_
    cases part with
    | name n =>
      rw [names_eq hnames]
      exact .pure _
    | call => cases hnames

theorem reducePath_eq_ok {path : List PathPart} {names : List Name}
    (h : reducePath path = .ok names) : names = path.filterMap PathPart.name? ∧ names ≠ [] := by
  obtain ⟨found, hfound, h⟩ := Reduced.bind_eq_ok.mp h
  cases found with
  | nil => cases h
  | cons n rest =>
    cases h
    exact ⟨names_eq hfound, nofun⟩

theorem meets_column (parts : List Name) : Meets (Column.ofPath parts) (columnObstacles parts) := by
  match parts with
  | [] => rfl
  | [_] | [_, _] | [_, _, _] => exact ⟨_, rfl⟩
  | _ :: _ :: _ :: _ :: _ => rfl

theorem Quantifier.meets (q : Quantifier) : Meets q.reduce q.obstacles := by
  cases q with
  | foreign name => exact .foreign
  | none | all | distinct => exact .pure _

theorem Distinct.meets (d : Distinct) : Meets d.reduce d.obstacles := by
  cases d with
  | on => exact .foreign
  | absent | rows => exact .pure _

theorem JoinOperator.meets (o : JoinOperator) : Meets o.reduce o.obstacles := by
  cases o with
  | kind k => exact .pure k
  | foreign name => exact .foreign

/-! ## Modifiers on two levels -/

theorem isEmpty_reduceOrder {items : List OrderItem} {reduced : List Sql.OrderItem}
    (h : reduceOrder items = .ok reduced) : reduced.isEmpty = items.isEmpty := by
  cases items with
  | nil =>
    cases h
    rfl
  | cons i is =>
    obtain ⟨_, -, h⟩ := Reduced.bind_eq_ok.mp h
    obtain ⟨_, -, h⟩ := Reduced.bind_eq_ok.mp h
    cases h
    rfl

theorem OrderBy.isPresent_eq {o : OrderBy} {items : List Sql.OrderItem}
    (h : o.reduce = .ok items) : o.isPresent = !items.isEmpty := by
  cases o with
  | keys keys => rw [isEmpty_reduceOrder h]; rfl
  | all => cases h

theorem isSome_reduceOption {e : Option Expr} {reduced : Option Sql.Expr}
    (h : reduceOption e = .ok reduced) : reduced.isSome = e.isSome := by
  cases e with
  | none =>
    cases h
    rfl
  | some e =>
    obtain ⟨_, -, h⟩ := Reduced.bind_eq_ok.mp h
    cases h
    rfl

theorem isPresent_limits {limits : Option LimitClause} {limit offset : Option Sql.Expr}
    (h : reduceLimits limits = .ok (limit, offset)) :
    limits.any LimitClause.isPresent = (limit.isSome || offset.isSome) := by
  match limits with
  | none =>
    cases h
    rfl
  | some (.limitOffset limit' offset' perGroup) =>
    obtain ⟨-, -, h⟩ := Reduced.bind_eq_ok.mp h
    obtain ⟨l, hl, h⟩ := Reduced.bind_eq_ok.mp h
    obtain ⟨o, ho, h⟩ := Reduced.bind_eq_ok.mp h
    cases h
    rw [isSome_reduceOption hl, isSome_reduceOption ho]
    rfl
  | some (.offsetComma offset' limit') =>
    obtain ⟨l, hl, h⟩ := Reduced.bind_eq_ok.mp h
    obtain ⟨o, ho, h⟩ := Reduced.bind_eq_ok.mp h
    cases h
    rfl

theorem hasRowModifiers_modify {inner r : Sql.Query} {m : RowModifiers}
    (h : inner.modify m.orderBy m.limit m.offset = .ok r) :
    r.hasRowModifiers = (m.isPresent || inner.hasRowModifiers) := by
  rw [RowModifiers.modify_eq] at h
  cases hm : m.isPresent with
  | false =>
    rw [hm] at h
    cases h
    rfl
  | true =>
    cases hinner : inner.hasRowModifiers with
    | true =>
      rw [hm, hinner] at h
      cases h
    | false =>
      rw [hm, hinner] at h
      cases h
      exact hm

/-- Modifying meets an obstacle if there are modifiers already. -/
theorem meets_modify (inner : Sql.Query) (m : RowModifiers) :
    Meets (inner.modify m.orderBy m.limit m.offset)
      (mark (m.isPresent && inner.hasRowModifiers) "nested ORDER BY / LIMIT") := by
  rw [RowModifiers.modify_eq]
  cases m.isPresent with
  | false => exact .pure inner
  | true =>
    cases inner.hasRowModifiers with
    | false => exact .pure _
    | true => exact .foreign

theorem isPresent_eq {orderBy : OrderBy} {limits : Option LimitClause} {m : RowModifiers}
    (horder : orderBy.reduce = .ok m.orderBy)
    (hlimits : reduceLimits limits = .ok (m.limit, m.offset)) :
    (orderBy.isPresent || limits.any LimitClause.isPresent) = m.isPresent := by
  rw [OrderBy.isPresent_eq horder, isPresent_limits hlimits, RowModifiers.isPresent, Bool.or_assoc]

mutual

/-- A reduced query has row modifiers if the query or one inside its parentheses has. -/
theorem Query.hasRowModifiers_eq : ∀ (q : Query) {r : Sql.Query}, q.reduce = .ok r →
    r.hasRowModifiers = q.modifiesRows
  | ⟨withClause, body, orderBy, limits, fetch⟩, r, h => by
    obtain ⟨-, -, h⟩ := Reduced.bind_eq_ok.mp h
    obtain ⟨-, -, h⟩ := Reduced.bind_eq_ok.mp h
    obtain ⟨inner, hinner, h⟩ := Reduced.bind_eq_ok.mp h
    obtain ⟨items, horder, h⟩ := Reduced.bind_eq_ok.mp h
    obtain ⟨⟨limit, offset⟩, hlimits, h⟩ := Reduced.bind_eq_ok.mp h
    rw [hasRowModifiers_modify (m := ⟨items, limit, offset⟩) h, Query.modifiesRows,
      isPresent_eq (m := ⟨items, limit, offset⟩) horder hlimits,
      Body.hasRowModifiers_eq body hinner]
termination_by structural q => q

theorem Body.hasRowModifiers_eq : ∀ (b : Body) {r : Sql.Query}, b.reduce = .ok r →
    r.hasRowModifiers = b.modifiesRows
  | .query q, _, h => Query.hasRowModifiers_eq q h
  | .select _, _, h => by
    rw [(Body.reduce_innermost rfl h).1]
    rfl
  | .setOperation .., _, h => by
    rw [(Body.reduce_innermost rfl h).1]
    rfl
  | .foreign _, _, h => nomatch h
termination_by structural b => b

end

/-! ## Whole trees -/

mutual

theorem Expr.meets : ∀ e : Expr, Meets e.reduce e.obstacles
  | .identifier _ => .pure _
  | .path parts => (meets_column parts).map
  | .literal _ => .pure _
  | .constant _ => .foreign
  | .binary left _ right => left.meets.bind fun _ _ => right.meets.map
  | .unary _ operand => operand.meets.map
  | .isValue operand _ _ => operand.meets.map
  | .between operand low high _ => by
    rw [Expr.obstacles, List.append_assoc]
    exact operand.meets.bind fun _ _ => low.meets.bind fun _ _ => high.meets.map
  | .inList operand items _ => operand.meets.bind fun _ _ => (meets_exprs items).map
  | .inQuery operand query _ => operand.meets.bind fun _ _ => query.meets.map
  | .existsQuery query _ => query.meets.map
  | .subquery query => query.meets.map
  | .like any operand pattern _ _ _ => by
    rw [Expr.obstacles, List.append_assoc]
    exact Meets.refuse.bind fun _ _ => operand.meets.bind fun _ _ => pattern.meets.map
  | .call function window filter args => by
    simp only [Expr.obstacles, List.append_assoc]
    refine (meets_path function).bind fun names hnames => ?_
    rw [(reducePath_eq_ok hnames).1]
    exact Meets.refuse.bind fun _ _ => Meets.refuse.bind fun _ _ => (args.meets _).map
  | .nested inner => inner.meets.map
  | .member => .foreign
  | .wildcard => .pure _
  | .foreign _ => .foreign
termination_by structural e => e

theorem meets_exprs : ∀ es : List Expr, Meets (reduceExprs es) (obstaclesOfExprs es)
  | [] => .pure _
  | e :: es => e.meets.bind fun _ _ => (meets_exprs es).map
termination_by structural es => es

theorem meets_option : ∀ e : Option Expr, Meets (reduceOption e) (obstaclesOfOption e)
  | none => .pure _
  | some e => e.meets.map
termination_by structural e => e

theorem Arguments.meets (name : String) :
    ∀ a : Arguments, Meets (a.reduce name) (a.obstacles name)
  | .absent => .pure _
  | .list _ items => (meets_arguments name items).map
  | .subquery => .foreign
termination_by structural a => a

theorem Argument.meets (name : String) : ∀ a : Argument, Meets (a.reduce name) (a.obstacles name)
  | .expr value => value.meets
  | .wildcard => .pure _
  | .foreign _ => .foreign
termination_by structural a => a

theorem meets_arguments (name : String) :
    ∀ as : List Argument, Meets (reduceArguments name as) (obstaclesOfArguments name as)
  | [] => .pure _
  | a :: as => (a.meets name).bind fun _ _ => (meets_arguments name as).map
termination_by structural as => as

/-- A query can be reduced unless there are obstacles, and the first one is the error. -/
theorem Query.meets : ∀ q : Query, Meets q.reduce q.obstacles
  | ⟨withClause, body, orderBy, limits, fetch⟩ => by
    simp only [Query.obstacles, List.append_assoc]
    refine Meets.refuse.bind fun _ _ => Meets.refuse.bind fun _ _ =>
      body.meets.bind fun inner hinner => orderBy.meets.bind fun items horder =>
        (meets_limits limits).bind fun ⟨limit, offset⟩ hlimits => ?_
    rw [isPresent_eq (m := ⟨items, limit, offset⟩) horder hlimits,
      ← body.hasRowModifiers_eq hinner]
    exact meets_modify inner ⟨items, limit, offset⟩
termination_by structural q => q

theorem Body.meets : ∀ b : Body, Meets b.reduce b.obstacles
  | .select block => block.meets.map
  | .query query => query.meets
  | .setOperation _ quantifier left right => by
    rw [Body.obstacles, List.append_assoc]
    exact quantifier.meets.bind fun _ _ => left.meets.bind fun _ _ => right.meets.map
  | .foreign _ => .foreign
termination_by structural b => b

theorem LimitClause.meets : ∀ l : LimitClause, Meets l.reduce l.obstacles
  | .limitOffset limit offset _ => by
    rw [LimitClause.obstacles, List.append_assoc]
    exact Meets.refuse.bind fun _ _ => (meets_option limit).bind fun _ _ =>
      (meets_option offset).map
  | .offsetComma offset limit => limit.meets.bind fun _ _ => offset.meets.map
termination_by structural l => l

theorem meets_limits : ∀ l : Option LimitClause, Meets (reduceLimits l) (obstaclesOfLimits l)
  | none => .pure _
  | some l => l.meets
termination_by structural l => l

theorem OrderItem.meets : ∀ i : OrderItem, Meets i.reduce i.obstacles
  | ⟨key, _, _⟩ => key.meets.map
termination_by structural i => i

theorem OrderBy.meets : ∀ o : OrderBy, Meets o.reduce o.obstacles
  | .keys items => meets_order items
  | .all => .foreign
termination_by structural o => o

theorem meets_order : ∀ is : List OrderItem, Meets (reduceOrder is) (obstaclesOfOrder is)
  | [] => .pure _
  | i :: is => i.meets.bind fun _ _ => (meets_order is).map
termination_by structural is => is

theorem GroupBy.meets : ∀ g : GroupBy, Meets g.reduce g.obstacles
  | .keys items _ => Meets.refuse.bind fun _ _ => meets_exprs items
  | .all => .foreign
termination_by structural g => g

theorem Select.meets : ∀ s : Select, Meets s.reduce s.obstacles
  | ⟨distinct, _, projection, sources, condition, groupBy, having⟩ => by
    simp only [Select.obstacles, List.append_assoc]
    exact distinct.meets.bind fun _ _ => Meets.refuse.bind fun _ _ =>
      (meets_items projection).bind fun _ _ => (meets_from sources).bind fun _ _ =>
      (meets_option condition).bind fun _ _ => groupBy.meets.bind fun _ _ =>
      (meets_option having).map
termination_by structural s => s

theorem SelectItem.meets : ∀ i : SelectItem, Meets i.reduce i.obstacles
  | .expr value _ => value.meets.map
  | .all => .pure _
  | .allOf path => by
    refine (meets_path path).andThen fun names hnames => ?_
    rw [List.getLast?_eq_some_getLast (reducePath_eq_ok hnames).2]
    exact .pure _
  | .allOfValue => .foreign
termination_by structural i => i

theorem meets_items : ∀ is : List SelectItem, Meets (reduceItems is) (obstaclesOfItems is)
  | [] => .pure _
  | i :: is => i.meets.bind fun _ _ => (meets_items is).map
termination_by structural is => is

theorem Relation.meets : ∀ r : Relation, Meets r.reduce r.obstacles
  | .table path _ _ => Meets.refuse.bind fun _ _ => (meets_path path).map
  | .derived query _ => query.meets.map
  | .foreign _ => .foreign
termination_by structural r => r

theorem JoinConstraint.meets : ∀ c : JoinConstraint, Meets c.reduce c.obstacles
  | .on condition => condition.meets.map
  | .shared columns => (Meets.mapM meets_path columns).map
  | .natural => .pure _
  | .unconstrained => .pure _
termination_by structural c => c

theorem Join.meets : ∀ j : Join, Meets j.reduce j.obstacles
  | ⟨relation, operator, constraint⟩ => by
    rw [Join.obstacles, List.append_assoc]
    exact operator.meets.bind fun _ _ => constraint.meets.bind fun _ _ => relation.meets.map
termination_by structural j => j

theorem meets_joins : ∀ js : List Join, Meets (reduceJoins js) (obstaclesOfJoins js)
  | [] => .pure _
  | j :: js => j.meets.bind fun _ _ => (meets_joins js).map
termination_by structural js => js

theorem FromItem.meets : ∀ i : FromItem, Meets i.reduce i.obstacles
  | ⟨relation, joins⟩ => relation.meets.bind fun _ _ => (meets_joins joins).map
termination_by structural i => i

theorem meets_from : ∀ is : List FromItem, Meets (reduceFrom is) (obstaclesOfFrom is)
  | [] => .pure _
  | i :: is => i.meets.bind fun _ _ => (meets_from is).map
termination_by structural is => is

end

end Surface

end QuerySteps.Sql
