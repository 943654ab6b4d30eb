import QuerySteps.Proofs.Syntax.Hereditary

/-!
# Supported queries

Which queries can be put into words, said on the query alone. Every construct is supported but
three: calls of functions that have no words, `*` anywhere but in `COUNT(*)`, and joins of a
relation without a name or under a condition that is no chain of equalities.
-/

namespace QuerySteps.Sql

/-- The functions that have words, each with its number of arguments. -/
def supportedCalls : List (String × Nat) :=
  [("count", 1), ("sum", 1), ("avg", 1), ("min", 1), ("max", 1), ("lower", 1), ("upper", 1),
    ("length", 1), ("char_length", 1), ("len", 1), ("abs", 1), ("round", 1), ("round", 2)]

theorem isSome_ofFunction? (name : String) (arity : Nat) (distinct : Bool) :
    (CallPhrase.ofFunction? name arity distinct).isSome =
      supportedCalls.contains (name, arity) := by
  rw [Bool.eq_iff_iff, List.contains_iff_mem]
  unfold CallPhrase.ofFunction?
  generalize (if distinct then " distinct" else "") = mark
  dsimp only
  split <;> simp_all [supportedCalls]

/-- Whether the other clauses of a SELECT can name the relation. -/
def Relation.isNamed (r : Relation) : Bool :=
  r.alias?.isSome || r.tableName?.isSome

mutual

/-- Whether an expression can be put into words. -/
def Expr.supported : Expr → Bool
  | .column _ | .literal _ => true
  | .binary l _ r => l.supported && r.supported
  | .unary _ e | .isValue e _ _ | .nested e => e.supported
  | .between e low high _ => e.supported && low.supported && high.supported
  | .inList e items _ => e.supported && exprsSupported items
  | .inQuery e q _ => e.supported && q.supported
  | .existsQuery q _ | .subquery q => q.supported
  | .like e pattern _ _ => e.supported && pattern.supported
  | .call f args _ =>
    countsRows f args || (supportedCalls.contains (f.toLower, args.length) && exprsSupported args)
  | .wildcard => false
termination_by structural e => e

def exprsSupported : List Expr → Bool
  | [] => true
  | e :: es => e.supported && exprsSupported es
termination_by structural es => es

def optionSupported : Option Expr → Bool
  | none => true
  | some e => e.supported
termination_by structural e => e

/-- Whether an expression, without the parentheses around it, equates supported sides. -/
def Expr.equates : Expr → Bool
  | .nested e => e.equates
  | .binary l .eq r => l.supported && r.supported
  | _ => false
termination_by structural e => e

/-- Whether every conjunct of an expression equates supported sides. -/
def Expr.equatesAll : Expr → Bool
  | .binary l .and r => l.equatesAll && r.equatesAll
  | .nested (.binary l .and r) => l.equatesAll && r.equatesAll
  | .nested e => e.equates
  | .binary l .eq r => l.supported && r.supported
  | _ => false
termination_by structural e => e

/-- Whether a join can be put into words: it has no condition or a chain of equalities. -/
def JoinConstraint.supported : JoinConstraint → Bool
  | .on e => e.equatesAll
  | .unconstrained => true
  | .shared _ | .natural => false
termination_by structural c => c

/-- Whether the query of a derived table is supported. -/
def Relation.supported : Relation → Bool
  | .table .. => true
  | .derived q _ => q.supported
termination_by structural r => r

def Join.supported : Join → Bool
  | ⟨relation, _, constraint⟩ => relation.supported && constraint.supported
termination_by structural j => j

def joinsSupported : List Join → Bool
  | [] => true
  | j :: js => j.supported && joinsSupported js
termination_by structural js => js

def FromItem.supported : FromItem → Bool
  | ⟨relation, joins⟩ => relation.supported && joinsSupported joins
termination_by structural i => i

def itemsSupported : List FromItem → Bool
  | [] => true
  | i :: is => i.supported && itemsSupported is
termination_by structural is => is

def SelectItem.supported : SelectItem → Bool
  | .expr value _ => value.supported
  | .all | .allOf _ => true
termination_by structural i => i

def projectionSupported : List SelectItem → Bool
  | [] => true
  | i :: is => i.supported && projectionSupported is
termination_by structural is => is

def OrderItem.supported : OrderItem → Bool
  | ⟨key, _⟩ => key.supported
termination_by structural i => i

def orderSupported : List OrderItem → Bool
  | [] => true
  | i :: is => i.supported && orderSupported is
termination_by structural is => is

/-- Whether every part of a SELECT block is supported and, when there are several relations, each of
them has a name. -/
def Select.supported : Select → Bool
  | ⟨_, projection, sources, condition, groupBy, having⟩ =>
    projectionSupported projection && itemsSupported sources && optionSupported condition &&
      exprsSupported groupBy && optionSupported having &&
      (decide ((sources.flatMap (·.relations)).length ≤ 1) ||
        (sources.flatMap (·.relations)).all (·.isNamed))
termination_by structural b => b

def QueryBody.supported : QueryBody → Bool
  | .select block => block.supported
  | .setOperation _ _ l r => l.supported && r.supported
termination_by structural b => b

/-- Whether a query can be put into words. -/
def Query.supported : Query → Bool
  | ⟨body, orderBy, limit, offset⟩ =>
    body.supported && orderSupported orderBy && optionSupported limit && optionSupported offset
termination_by structural q => q

end

/-! ## Supported parts -/

theorem exprsSupported_iff {es : List Expr} :
    exprsSupported es = true ↔ ∀ e ∈ es, e.supported = true := by
  induction es with
  | nil => simp [exprsSupported]
  | cons e es ih => simp [exprsSupported, ih]

theorem optionSupported_iff {e : Option Expr} :
    optionSupported e = true ↔ ∀ x ∈ e, x.supported = true := by
  cases e <;> simp [optionSupported]

theorem orderSupported_iff {items : List OrderItem} :
    orderSupported items = true ↔ ∀ i ∈ items, i.key.supported = true := by
  induction items with
  | nil => simp [orderSupported]
  | cons i is ih =>
    obtain ⟨key, descending⟩ := i
    simp [orderSupported, OrderItem.supported, ih]

theorem projectionSupported_iff {items : List SelectItem} :
    projectionSupported items = true ↔ ∀ i ∈ items, i.supported = true := by
  induction items with
  | nil => simp [projectionSupported]
  | cons i is ih => simp [projectionSupported, ih]

theorem joinsSupported_iff {joins : List Join} : joinsSupported joins = true ↔
    ∀ j ∈ joins, j.relation.supported = true ∧ j.constraint.supported = true := by
  induction joins with
  | nil => simp [joinsSupported]
  | cons j js ih =>
    obtain ⟨relation, kind, constraint⟩ := j
    simp [joinsSupported, Join.supported, ih]

theorem itemsSupported_iff {items : List FromItem} : itemsSupported items = true ↔
    ∀ link ∈ Source.links items, link.1.supported = true ∧ link.2.2.supported = true := by
  induction items with
  | nil => simp [itemsSupported, Source.links]
  | cons item items ih =>
    obtain ⟨relation, joins⟩ := item
    simp only [itemsSupported, FromItem.supported, Bool.and_eq_true, ih, Source.links_cons,
      List.forall_mem_append, Source.linksOfItem, List.forall_mem_cons, List.forall_mem_map,
      joinsSupported_iff, JoinConstraint.supported, and_true]

theorem Expr.exists_sides_iff {l r : Expr} :
    (∃ l' r', binary l .eq r = .binary l' .eq r' ∧ l'.supported = true ∧ r'.supported = true) ↔
      l.supported = true ∧ r.supported = true := by
  constructor
  · rintro ⟨_, _, ⟨⟩, hs⟩
    exact hs
  · intro hs
    exact ⟨l, r, rfl, hs⟩

theorem Expr.equates_iff {e : Expr} : e.equates = true ↔
    ∃ l r, e.withoutParens = .binary l .eq r ∧ l.supported = true ∧ r.supported = true := by
  fun_induction withoutParens e with
  | case1 e ih => rw [equates, ih]
  | case2 e h =>
    cases e with
    | nested e => exact absurd rfl (h e)
    | binary l op r =>
      cases op with
      | eq => rw [equates, Bool.and_eq_true, exists_sides_iff]
      | _ => simp [equates]
    | _ => simp [equates]

/-- A join condition is supported if its conjuncts, without the parentheses around them, equate
supported sides. -/
theorem Expr.equatesAll_iff {e : Expr} : e.equatesAll = true ↔
    ∀ c ∈ e.conjuncts, ∃ l r, c.withoutParens = .binary l .eq r ∧
      l.supported = true ∧ r.supported = true := by
  simp only [← equates_iff]
  fun_induction conjuncts e with
  | case1 l r ihl ihr =>
    simp only [equatesAll, Bool.and_eq_true, ihl, ihr, List.forall_mem_append]
  | case2 l r ihl ihr =>
    simp only [equatesAll, Bool.and_eq_true, ihl, ihr, List.forall_mem_append]
  | case3 e h1 h2 =>
    unfold equatesAll
    split <;> simp_all [equates]

theorem Relation.isNamed_eq (r : Relation) : r.isNamed = r.exposedName?.isSome := by
  unfold isNamed exposedName?
  cases r.alias? <;> simp

/-- A SELECT block is supported if its clauses are and, unless there is at most one relation, every
relation has a name. -/
theorem Select.supported_iff {b : Select} : b.supported = true ↔
    (∀ i ∈ b.projection, i.supported = true) ∧
    (∀ link ∈ Source.links b.sources, link.1.supported = true ∧ link.2.2.supported = true) ∧
    (∀ e ∈ b.condition, e.supported = true) ∧ (∀ e ∈ b.groupBy, e.supported = true) ∧
    (∀ e ∈ b.having, e.supported = true) ∧
    (b.relations.length ≤ 1 ∨
      ∀ link ∈ Source.links b.sources, link.1.exposedName?.isSome = true) := by
  obtain ⟨distinct, projection, sources, condition, groupBy, having⟩ := b
  simp only [supported, Bool.and_eq_true, Bool.or_eq_true, decide_eq_true_iff,
    projectionSupported_iff, itemsSupported_iff, optionSupported_iff, exprsSupported_iff, relations,
    ← Source.map_links_fst, List.all_map, List.all_eq_true, Function.comp_apply,
    Relation.isNamed_eq, and_assoc]

/-- The first relation is joined to nothing, so only the constraints of the others matter. -/
theorem links_supported_iff (items : List FromItem) :
    (∀ link ∈ Source.links items, link.1.supported = true ∧ link.2.2.supported = true) ↔
      (∀ link ∈ Source.links items, link.1.supported = true) ∧
        ∀ link ∈ (Source.links items).tail, link.2.2.supported = true := by
  rcases Source.links_cases items with h | ⟨relation, rest, h⟩
  · simp [h]
  · simp only [h, List.forall_mem_cons, List.tail_cons, JoinConstraint.supported, true_and,
      forall_and, and_assoc]

theorem Expr.supported_iff_conjuncts {e : Expr} :
    (∀ c ∈ e.conjuncts, c.supported = true) ↔ e.supported = true := by
  fun_induction conjuncts e with
  | case1 l r ihl ihr => simp only [supported, Bool.and_eq_true, ihl, ihr, List.forall_mem_append]
  | case2 l r ihl ihr => simp only [supported, Bool.and_eq_true, ihl, ihr, List.forall_mem_append]
  | case3 e _ _ => simp

theorem conjunctsSupported_iff {condition : Option Expr} :
    (∀ e ∈ condition.elim [] Expr.conjuncts, e.supported = true) ↔
      ∀ e ∈ condition, e.supported = true := by
  cases condition <;> simp [Expr.supported_iff_conjuncts]

end QuerySteps.Sql
