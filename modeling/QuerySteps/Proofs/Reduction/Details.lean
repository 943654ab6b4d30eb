import QuerySteps.Proofs.Reduction.Obstacles

/-!
# Details that reducing passes over

The escape character of LIKE, the place of NULLs in an order and the names of columns after an
alias are recorded in surface trees and have no place in queries. `plain` takes them out everywhere
in a tree. Reducing does not look at them (`Query.reduce_plain`), so two trees that differ in
nothing else stand for the same query or are refused for the same reason.
-/

namespace QuerySteps.Sql.Surface

/-- The alias without names for columns. -/
def Alias.plain (a : Alias) : Alias :=
  { name := a.name }

mutual

/-- The expression without the details. -/
def Expr.plain : Expr → Expr
  | .identifier name => .identifier name
  | .path parts => .path parts
  | .literal value => .literal value
  | .constant name => .constant name
  | .binary left op right => .binary left.plain op right.plain
  | .unary op operand => .unary op operand.plain
  | .isValue operand value negated => .isValue operand.plain value negated
  | .between operand low high negated => .between operand.plain low.plain high.plain negated
  | .inList operand items negated => .inList operand.plain (plainExprs items) negated
  | .inQuery operand query negated => .inQuery operand.plain query.plain negated
  | .existsQuery query negated => .existsQuery query.plain negated
  | .subquery query => .subquery query.plain
  | .like any operand pattern negated ignoreCase _ =>
    .like any operand.plain pattern.plain negated ignoreCase none
  | .call function window filter args => .call function window filter args.plain
  | .nested inner => .nested inner.plain
  | .member => .member
  | .wildcard => .wildcard
  | .foreign construct => .foreign construct
termination_by structural e => e

def plainExprs : List Expr → List Expr
  | [] => []
  | e :: es => e.plain :: plainExprs es
termination_by structural es => es

def plainOption : Option Expr → Option Expr
  | none => none
  | some e => some e.plain
termination_by structural e => e

def Arguments.plain : Arguments → Arguments
  | .absent => .absent
  | .list distinct items => .list distinct (plainArguments items)
  | .subquery => .subquery
termination_by structural a => a

def Argument.plain : Argument → Argument
  | .expr value => .expr value.plain
  | .wildcard => .wildcard
  | .foreign name => .foreign name
termination_by structural a => a

def plainArguments : List Argument → List Argument
  | [] => []
  | a :: as => a.plain :: plainArguments as
termination_by structural as => as

def Query.plain : Query → Query
  | ⟨withClause, body, orderBy, limits, fetch⟩ =>
    ⟨withClause, body.plain, orderBy.plain, plainLimits limits, fetch⟩
termination_by structural q => q

def Body.plain : Body → Body
  | .select block => .select block.plain
  | .query query => .query query.plain
  | .setOperation op quantifier left right => .setOperation op quantifier left.plain right.plain
  | .foreign name => .foreign name
termination_by structural b => b

def LimitClause.plain : LimitClause → LimitClause
  | .limitOffset limit offset perGroup =>
    .limitOffset (plainOption limit) (plainOption offset) perGroup
  | .offsetComma offset limit => .offsetComma offset.plain limit.plain
termination_by structural l => l

def plainLimits : Option LimitClause → Option LimitClause
  | none => none
  | some l => some l.plain
termination_by structural l => l

def OrderItem.plain : OrderItem → OrderItem
  | ⟨key, descending, _⟩ => ⟨key.plain, descending, none⟩
termination_by structural i => i

def OrderBy.plain : OrderBy → OrderBy
  | .keys items => .keys (plainOrder items)
  | .all => .all
termination_by structural o => o

def plainOrder : List OrderItem → List OrderItem
  | [] => []
  | i :: is => i.plain :: plainOrder is
termination_by structural is => is

def GroupBy.plain : GroupBy → GroupBy
  | .keys items modifiers => .keys (plainExprs items) modifiers
  | .all => .all
termination_by structural g => g

def Select.plain : Select → Select
  | ⟨distinct, top, projection, sources, condition, groupBy, having⟩ =>
    ⟨distinct, top, plainItems projection, plainFrom sources, plainOption condition,
      groupBy.plain, plainOption having⟩
termination_by structural s => s

def SelectItem.plain : SelectItem → SelectItem
  | .expr value aliasName => .expr value.plain aliasName
  | .all => .all
  | .allOf path => .allOf path
  | .allOfValue => .allOfValue
termination_by structural i => i

def plainItems : List SelectItem → List SelectItem
  | [] => []
  | i :: is => i.plain :: plainItems is
termination_by structural is => is

def Relation.plain : Relation → Relation
  | .table path aliasName args => .table path (aliasName.map Alias.plain) args
  | .derived query aliasName => .derived query.plain (aliasName.map Alias.plain)
  | .foreign name => .foreign name
termination_by structural r => r

def JoinConstraint.plain : JoinConstraint → JoinConstraint
  | .on condition => .on condition.plain
  | .shared columns => .shared columns
  | .natural => .natural
  | .unconstrained => .unconstrained
termination_by structural c => c

def Join.plain : Join → Join
  | ⟨relation, operator, constraint⟩ => ⟨relation.plain, operator, constraint.plain⟩
termination_by structural j => j

def plainJoins : List Join → List Join
  | [] => []
  | j :: js => j.plain :: plainJoins js
termination_by structural js => js

def FromItem.plain : FromItem → FromItem
  | ⟨relation, joins⟩ => ⟨relation.plain, plainJoins joins⟩
termination_by structural i => i

def plainFrom : List FromItem → List FromItem
  | [] => []
  | i :: is => i.plain :: plainFrom is
termination_by structural is => is

end

theorem name_plain (aliasName : Option Alias) :
    (aliasName.map Alias.plain).map (·.name) = aliasName.map (·.name) := by
  cases aliasName <;> rfl

mutual

/-- The details of an expression do not matter for reducing it. -/
theorem Expr.reduce_plain : ∀ e : Expr, e.plain.reduce = e.reduce
  | .identifier _ => rfl
  | .path _ => rfl
  | .literal _ => rfl
  | .constant _ => rfl
  | .binary left _ right => by
    simp only [Expr.plain, Expr.reduce, left.reduce_plain, right.reduce_plain]
  | .unary _ operand => by simp only [Expr.plain, Expr.reduce, operand.reduce_plain]
  | .isValue operand _ _ => by simp only [Expr.plain, Expr.reduce, operand.reduce_plain]
  | .between operand low high _ => by
    simp only [Expr.plain, Expr.reduce, operand.reduce_plain, low.reduce_plain, high.reduce_plain]
  | .inList operand items _ => by
    simp only [Expr.plain, Expr.reduce, operand.reduce_plain, reduceExprs_plain items]
  | .inQuery operand query _ => by
    simp only [Expr.plain, Expr.reduce, operand.reduce_plain, query.reduce_plain]
  | .existsQuery query _ => by simp only [Expr.plain, Expr.reduce, query.reduce_plain]
  | .subquery query => by simp only [Expr.plain, Expr.reduce, query.reduce_plain]
  | .like _ operand pattern _ _ _ => by
    simp only [Expr.plain, Expr.reduce, operand.reduce_plain, pattern.reduce_plain]
  | .call _ _ _ args => by simp only [Expr.plain, Expr.reduce, args.reduce_plain]
  | .nested inner => by simp only [Expr.plain, Expr.reduce, inner.reduce_plain]
  | .member => rfl
  | .wildcard => rfl
  | .foreign _ => rfl
termination_by structural e => e

theorem reduceExprs_plain : ∀ es : List Expr, reduceExprs (plainExprs es) = reduceExprs es
  | [] => rfl
  | e :: es => by simp only [plainExprs, reduceExprs, e.reduce_plain, reduceExprs_plain es]
termination_by structural es => es

theorem reduceOption_plain : ∀ e : Option Expr, reduceOption (plainOption e) = reduceOption e
  | none => rfl
  | some e => by simp only [plainOption, reduceOption, e.reduce_plain]
termination_by structural e => e

theorem Arguments.reduce_plain : ∀ (a : Arguments) (name : String),
    a.plain.reduce name = a.reduce name
  | .absent, _ => rfl
  | .list _ items, name => by
    simp only [Arguments.plain, Arguments.reduce, reduceArguments_plain items name]
  | .subquery, _ => rfl
termination_by structural a => a

theorem Argument.reduce_plain : ∀ (a : Argument) (name : String),
    a.plain.reduce name = a.reduce name
  | .expr value, _ => value.reduce_plain
  | .wildcard, _ => rfl
  | .foreign _, _ => rfl
termination_by structural a => a

theorem reduceArguments_plain : ∀ (as : List Argument) (name : String),
    reduceArguments name (plainArguments as) = reduceArguments name as
  | [], _ => rfl
  | a :: as, name => by
    simp only [plainArguments, reduceArguments, a.reduce_plain name, reduceArguments_plain as name]
termination_by structural as => as

theorem Query.reduce_plain : ∀ q : Query, q.plain.reduce = q.reduce
  | ⟨_, body, orderBy, limits, _⟩ => by
    simp only [Query.plain, Query.reduce, body.reduce_plain, orderBy.reduce_plain,
      reduceLimits_plain limits]
termination_by structural q => q

theorem Body.reduce_plain : ∀ b : Body, b.plain.reduce = b.reduce
  | .select block => by simp only [Body.plain, Body.reduce, block.reduce_plain]
  | .query query => query.reduce_plain
  | .setOperation _ _ left right => by
    simp only [Body.plain, Body.reduce, left.reduce_plain, right.reduce_plain]
  | .foreign _ => rfl
termination_by structural b => b

theorem LimitClause.reduce_plain : ∀ l : LimitClause, l.plain.reduce = l.reduce
  | .limitOffset limit offset _ => by
    simp only [LimitClause.plain, LimitClause.reduce, reduceOption_plain limit,
      reduceOption_plain offset]
  | .offsetComma offset limit => by
    simp only [LimitClause.plain, LimitClause.reduce, limit.reduce_plain, offset.reduce_plain]
termination_by structural l => l

theorem reduceLimits_plain : ∀ l : Option LimitClause, reduceLimits (plainLimits l) = reduceLimits l
  | none => rfl
  | some l => l.reduce_plain
termination_by structural l => l

theorem OrderItem.reduce_plain : ∀ i : OrderItem, i.plain.reduce = i.reduce
  | ⟨key, _, _⟩ => by simp only [OrderItem.plain, OrderItem.reduce, key.reduce_plain]
termination_by structural i => i

theorem OrderBy.reduce_plain : ∀ o : OrderBy, o.plain.reduce = o.reduce
  | .keys items => reduceOrder_plain items
  | .all => rfl
termination_by structural o => o

theorem reduceOrder_plain : ∀ is : List OrderItem, reduceOrder (plainOrder is) = reduceOrder is
  | [] => rfl
  | i :: is => by simp only [plainOrder, reduceOrder, i.reduce_plain, reduceOrder_plain is]
termination_by structural is => is

theorem GroupBy.reduce_plain : ∀ g : GroupBy, g.plain.reduce = g.reduce
  | .keys items _ => by simp only [GroupBy.plain, GroupBy.reduce, reduceExprs_plain items]
  | .all => rfl
termination_by structural g => g

theorem Select.reduce_plain : ∀ s : Select, s.plain.reduce = s.reduce
  | ⟨_, _, projection, sources, condition, groupBy, having⟩ => by
    simp only [Select.plain, Select.reduce, reduceItems_plain projection,
      reduceFrom_plain sources, reduceOption_plain condition, groupBy.reduce_plain,
      reduceOption_plain having]
termination_by structural s => s

theorem SelectItem.reduce_plain : ∀ i : SelectItem, i.plain.reduce = i.reduce
  | .expr value _ => by simp only [SelectItem.plain, SelectItem.reduce, value.reduce_plain]
  | .all => rfl
  | .allOf _ => rfl
  | .allOfValue => rfl
termination_by structural i => i

theorem reduceItems_plain : ∀ is : List SelectItem, reduceItems (plainItems is) = reduceItems is
  | [] => rfl
  | i :: is => by simp only [plainItems, reduceItems, i.reduce_plain, reduceItems_plain is]
termination_by structural is => is

theorem Relation.reduce_plain : ∀ r : Relation, r.plain.reduce = r.reduce
  | .table _ aliasName _ => by simp only [Relation.plain, Relation.reduce, name_plain aliasName]
  | .derived query aliasName => by
    simp only [Relation.plain, Relation.reduce, query.reduce_plain, name_plain aliasName]
  | .foreign _ => rfl
termination_by structural r => r

theorem JoinConstraint.reduce_plain : ∀ c : JoinConstraint, c.plain.reduce = c.reduce
  | .on condition => by
    simp only [JoinConstraint.plain, JoinConstraint.reduce, condition.reduce_plain]
  | .shared _ => rfl
  | .natural => rfl
  | .unconstrained => rfl
termination_by structural c => c

theorem Join.reduce_plain : ∀ j : Join, j.plain.reduce = j.reduce
  | ⟨relation, _, constraint⟩ => by
    simp only [Join.plain, Join.reduce, relation.reduce_plain, constraint.reduce_plain]
termination_by structural j => j

theorem reduceJoins_plain : ∀ js : List Join, reduceJoins (plainJoins js) = reduceJoins js
  | [] => rfl
  | j :: js => by simp only [plainJoins, reduceJoins, j.reduce_plain, reduceJoins_plain js]
termination_by structural js => js

theorem FromItem.reduce_plain : ∀ i : FromItem, i.plain.reduce = i.reduce
  | ⟨relation, joins⟩ => by
    simp only [FromItem.plain, FromItem.reduce, relation.reduce_plain, reduceJoins_plain joins]
termination_by structural i => i

theorem reduceFrom_plain : ∀ is : List FromItem, reduceFrom (plainFrom is) = reduceFrom is
  | [] => rfl
  | i :: is => by simp only [plainFrom, reduceFrom, i.reduce_plain, reduceFrom_plain is]
termination_by structural is => is

end

/-! ## Trees that differ in details -/

/-- The reductions of two trees, both of which meet the given obstacles: both lead to one value
unless there are obstacles, and otherwise fail at the first of them. Where all names have parts,
that is a construct without a counterpart. -/
structure Coincide {α : Type} (x y : Reduced α) (obstacles : List Obstacle) : Prop where
  apart_iff : (¬ ∃ r, x = .ok r ∧ y = .ok r) ↔ obstacles ≠ []
  refused : ∀ o rest, obstacles = o :: rest → x = .error o.error ∧ y = .error o.error
  unsupported : obstacles ≠ [] → (∀ complaint, .nameless complaint ∉ obstacles) →
    ∃ construct, .foreign construct ∈ obstacles ∧
      x = .error (.unsupported construct) ∧ y = .error (.unsupported construct)

theorem Meets.coincide {α : Type} {x y : Reduced α} {obstacles : List Obstacle}
    (h : Meets x obstacles) (hxy : x = y) : Coincide x y obstacles := by
  subst hxy
  cases obstacles with
  | nil =>
    obtain ⟨r, rfl⟩ := h
    exact ⟨iff_of_false (fun hn => hn ⟨r, rfl, rfl⟩) (· rfl), nofun, fun hn => absurd rfl hn⟩
  | cons o rest =>
    obtain rfl : x = .error o.error := h
    refine ⟨iff_of_true nofun nofun, ?_, fun _ hnamed => ?_⟩
    · rintro _ _ ⟨⟩
      exact ⟨rfl, rfl⟩
    · cases o with
      | foreign construct => exact ⟨construct, List.mem_cons_self .., rfl, rfl⟩
      | nameless complaint => exact absurd (List.mem_cons_self ..) (hnamed complaint)

/-- Reducing does not tell trees apart that differ in escape characters, places of NULLs and names
of columns after aliases alone, however deep these stand. Two such expressions, and two such
queries, both stand for the same unless they have obstacles. With obstacles both are refused at the
first of them, which is a construct without a counterpart if all names have parts. -/
theorem reduce_of_plain_eq {e e' : Expr} {q q' : Query} (he : e.plain = e'.plain)
    (hq : q.plain = q'.plain) :
    Coincide e.reduce e'.reduce e.obstacles ∧ Coincide q.reduce q'.reduce q.obstacles := by
  have hsame : e.reduce = e'.reduce := by rw [← e.reduce_plain, he, e'.reduce_plain]
  have hsame' : q.reduce = q'.reduce := by rw [← q.reduce_plain, hq, q'.reduce_plain]
  exact ⟨e.meets.coincide hsame, q.meets.coincide hsame'⟩

/-- `a LIKE 'x!%'`, perhaps with an escape character. -/
def likePattern (escape : Option Expr) : Expr :=
  .like false (.identifier ⟨"a", false⟩) (.literal (.string "x!%")) false false escape

/-- `SELECT * FROM (SELECT * FROM t AS u ORDER BY a) AS v WHERE a LIKE 'x!%'`, perhaps with an
escape character, with NULLs first or last and with names for the columns of `u`. -/
def detailed (escape : Option Expr) (nullsFirst : Option Bool) (columns : List Name) : Query :=
  let select (relation : Relation) (condition : Option Expr) : Body :=
    .select
      { projection := [.all], sources := [{ relation }], condition, groupBy := .keys [] false }
  let renamed : Alias := { name := ⟨"u", false⟩, columns }
  let inner : Query :=
    { body := select (.table [.name ⟨"t", false⟩] (some renamed) false) none
      orderBy := .keys [{ key := .identifier ⟨"a", false⟩, nullsFirst }] }
  { body := select (.derived inner (some { name := ⟨"v", false⟩ })) (some (likePattern escape))
    orderBy := .keys [] }

theorem reduce_of_plain_eq_detailed :
    let escape : Option Expr := some (.literal (.string "!"))
    let casting (escape : Option Expr) : Expr := .binary (likePattern escape) .and (.foreign "Cast")
    let full := detailed escape (some true) [⟨"b", false⟩]
    let bare := detailed none none []
    (casting escape).plain = (casting none).plain ∧ full.plain = bare.plain ∧
    (casting escape).reduce = .error (.unsupported "Cast") ∧
    (casting none).reduce = .error (.unsupported "Cast") ∧
    ∃ r, full.reduce = .ok r ∧ bare.reduce = .ok r := by
  intro escape casting full bare
  have hplain : (casting escape).plain = (casting none).plain := rfl
  have hplain' : full.plain = bare.plain := rfl
  obtain ⟨hcasting, hfull⟩ := reduce_of_plain_eq hplain hplain'
  obtain ⟨hrefused, hrefused'⟩ := hcasting.refused _ _ rfl
  exact ⟨hplain, hplain', hrefused, hrefused',
    not_not.mp (mt hfull.apart_iff.mp (not_not_intro rfl))⟩

/-- Each of the details alone is passed over in a query that is accepted. -/
theorem reduce_detailed_eq :
    let escaped := detailed (some (.literal (.string "!"))) none []
    let placed := detailed none (some true) []
    let renamed := detailed none none [⟨"b", false⟩]
    let bare := detailed none none []
    (escaped ≠ bare ∧ placed ≠ bare ∧ renamed ≠ bare) ∧
    (escaped.plain = bare.plain ∧ placed.plain = bare.plain ∧ renamed.plain = bare.plain) ∧
    ∃ r, bare.reduce = .ok r ∧ escaped.reduce = .ok r ∧ placed.reduce = .ok r ∧
      renamed.reduce = .ok r := by
  refine ⟨⟨?_, ?_, ?_⟩, ⟨rfl, rfl, rfl⟩, _, rfl, rfl, rfl, rfl⟩ <;> simp [detailed, likePattern]

end QuerySteps.Sql.Surface
