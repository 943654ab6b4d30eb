import QuerySteps.Translate.Query

/-!
# Induction on queries

Expressions and queries contain one another through lists, options and the clauses of a SELECT. The
two properties `P` of expressions and `Q` of queries are hereditary if they pass from the direct
parts to the whole; then they hold everywhere (`Hereditary.expr`, `Hereditary.query`).

Two clauses are read in pieces: WHERE by its conjuncts when there are several relations, and the
condition of a join by the two sides of each equality. `Select.Parts` therefore offers the property
of these pieces besides that of the whole.
-/

namespace QuerySteps.Sql

open Source

namespace Expr

theorem sizeOf_le_of_mem_conjuncts {e c : Expr} (h : c ∈ e.conjuncts) : sizeOf c ≤ sizeOf e := by
  fun_induction conjuncts e with
  | case1 l r ihl ihr =>
    rcases List.mem_append.mp h with h | h
    · have := ihl h
      simp only [binary.sizeOf_spec]
      omega
    · have := ihr h
      simp only [binary.sizeOf_spec]
      omega
  | case2 l r ihl ihr =>
    rcases List.mem_append.mp h with h | h
    · have := ihl h
      simp only [nested.sizeOf_spec, binary.sizeOf_spec]
      omega
    · have := ihr h
      simp only [nested.sizeOf_spec, binary.sizeOf_spec]
      omega
  | case3 e _ _ => exact Nat.le_of_eq (by rw [List.mem_singleton.mp h])

theorem sizeOf_withoutParens_le (e : Expr) : sizeOf e.withoutParens ≤ sizeOf e := by
  fun_induction withoutParens e with
  | case1 e ih =>
    simp only [nested.sizeOf_spec]
    omega
  | case2 e _ => exact Nat.le_refl _

/-- The sides of an operator that stands inside parentheses in a conjunct. -/
theorem sizeOf_sides_lt {e c l r : Expr} {op : BinaryOp} (hc : c ∈ e.conjuncts)
    (h : c.withoutParens = .binary l op r) : sizeOf l < sizeOf e ∧ sizeOf r < sizeOf e := by
  have h1 := sizeOf_le_of_mem_conjuncts hc
  have h2 := sizeOf_withoutParens_le c
  rw [h] at h2
  simp only [binary.sizeOf_spec] at h2
  omega

end Expr

theorem sizeOf_link_lt {items : List FromItem} {link : Link} (h : link ∈ links items) :
    sizeOf link.1 < sizeOf items ∧
      (sizeOf link.2.2 < sizeOf items ∨ link.2.2 = .unconstrained) := by
  obtain ⟨item, hi, hl⟩ := List.mem_flatMap.mp h
  have hs := List.sizeOf_lt_of_mem hi
  obtain ⟨relation, joins⟩ := item
  simp only [FromItem.mk.sizeOf_spec] at hs
  rcases List.mem_cons.mp hl with rfl | hl
  · exact ⟨by simp only; omega, .inr rfl⟩
  · obtain ⟨⟨r, kind, constraint⟩, hj, rfl⟩ := List.mem_map.mp hl
    have ht := List.sizeOf_lt_of_mem hj
    simp only [Join.mk.sizeOf_spec] at ht
    exact ⟨by simp only; omega, .inl (by simp only; omega)⟩

/-- What holds of the expressions and queries that stand right inside a SELECT block. -/
structure Select.Parts (P : Expr → Prop) (Q : Query → Prop) (b : Select) : Prop where
  items : ∀ value aliasName, .expr value aliasName ∈ b.projection → P value
  derived : ∀ link ∈ links b.sources, ∀ query aliasName, link.1 = .derived query aliasName → Q query
  matching : ∀ link ∈ links b.sources, ∀ e, link.2.2 = .on e → ∀ c ∈ e.conjuncts, ∀ l op r,
    c.withoutParens = .binary l op r → P l ∧ P r
  condition : ∀ e ∈ b.condition, P e ∧ ∀ c ∈ e.conjuncts, P c
  keys : ∀ e ∈ b.groupBy, P e
  having : ∀ e ∈ b.having, P e

/-- What holds of the expressions that order and limit the rows of a query. -/
structure Query.RowParts (P : Expr → Prop) (q : Query) : Prop where
  order : ∀ item ∈ q.orderBy, P item.key
  limit : ∀ e ∈ q.limit, P e
  offset : ∀ e ∈ q.offset, P e

theorem Select.Parts.imp {P P' : Expr → Prop} {Q Q' : Query → Prop} {b : Select}
    (h : b.Parts P Q) (hP : ∀ e, P e → P' e) (hQ : ∀ q, Q q → Q' q) : b.Parts P' Q' where
  items value aliasName hv := hP _ (h.items value aliasName hv)
  derived link hl query aliasName hr := hQ _ (h.derived link hl query aliasName hr)
  matching link hl e he c hc l op r hb :=
    (h.matching link hl e he c hc l op r hb).imp (hP _) (hP _)
  condition e he := ⟨hP _ (h.condition e he).1, fun c hc => hP _ ((h.condition e he).2 c hc)⟩
  keys e he := hP _ (h.keys e he)
  having e he := hP _ (h.having e he)

theorem Select.Parts.conjuncts {P : Expr → Prop} {Q : Query → Prop} {b : Select}
    (h : b.Parts P Q) : ∀ e ∈ b.condition.elim [] Expr.conjuncts, P e := by
  intro e he
  cases hb : b.condition with
  | none => simp [hb] at he
  | some condition =>
    rw [hb] at he
    exact (h.condition condition hb).2 e he

theorem Query.RowParts.imp {P P' : Expr → Prop} {q : Query} (h : q.RowParts P)
    (hP : ∀ e, P e → P' e) : q.RowParts P' where
  order item hi := hP _ (h.order item hi)
  limit e he := hP _ (h.limit e he)
  offset e he := hP _ (h.offset e he)

theorem Select.sizeOf_parts (b : Select) :
    b.Parts (fun e => sizeOf e < sizeOf b) fun q => sizeOf q < sizeOf b := by
  obtain ⟨distinct, projection, sources, condition, groupBy, having⟩ := b
  constructor <;> simp only [Select.mk.sizeOf_spec]
  · intro value aliasName h
    have := List.sizeOf_lt_of_mem h
    simp only [SelectItem.expr.sizeOf_spec] at this
    omega
  · intro link h query aliasName hr
    have := (sizeOf_link_lt h).1
    simp only [hr, Relation.derived.sizeOf_spec] at this
    omega
  · intro link h e he c hc l op r hb
    have hs := Expr.sizeOf_sides_lt hc hb
    have := (sizeOf_link_lt h).2
    simp only [he, JoinConstraint.on.sizeOf_spec, reduceCtorEq, or_false] at this
    omega
  · rintro e rfl
    simp only [Option.some.sizeOf_spec]
    refine ⟨by omega, fun c hc => ?_⟩
    have := Expr.sizeOf_le_of_mem_conjuncts hc
    omega
  · intro e h
    have := List.sizeOf_lt_of_mem h
    omega
  · rintro e rfl
    simp only [Option.some.sizeOf_spec]
    omega

theorem Query.sizeOf_rowParts (q : Query) : q.RowParts fun e => sizeOf e < sizeOf q := by
  obtain ⟨body, orderBy, limit, offset⟩ := q
  constructor <;> simp only [Query.mk.sizeOf_spec]
  · intro item h
    have := List.sizeOf_lt_of_mem h
    obtain ⟨key, descending⟩ := item
    simp only [OrderItem.mk.sizeOf_spec] at this ⊢
    omega
  · rintro e rfl
    simp only [Option.some.sizeOf_spec]
    omega
  · rintro e rfl
    simp only [Option.some.sizeOf_spec]
    omega

/-- Properties that pass from the parts of an expression or a query to the whole. -/
structure Hereditary (P : Expr → Prop) (Q : Query → Prop) : Prop where
  column : ∀ c, P (.column c)
  literal : ∀ v, P (.literal v)
  binary : ∀ l op r, P l → P r → P (.binary l op r)
  unary : ∀ op e, P e → P (.unary op e)
  isValue : ∀ e v n, P e → P (.isValue e v n)
  between : ∀ e low high n, P e → P low → P high → P (.between e low high n)
  inList : ∀ e items n, P e → (∀ i ∈ items, P i) → P (.inList e items n)
  inQuery : ∀ e q n, P e → Q q → P (.inQuery e q n)
  existsQuery : ∀ q n, Q q → P (.existsQuery q n)
  subquery : ∀ q, Q q → P (.subquery q)
  like : ∀ e pattern n i, P e → P pattern → P (.like e pattern n i)
  call : ∀ f args d, (∀ a ∈ args, P a) → P (.call f args d)
  nested : ∀ e, P e → P (.nested e)
  wildcard : P .wildcard
  select : ∀ block orderBy limit offset, block.Parts P Q →
    Query.RowParts P ⟨.select block, orderBy, limit, offset⟩ →
    Q ⟨.select block, orderBy, limit, offset⟩
  setOperation : ∀ op all l r orderBy limit offset, Q l → Q r →
    Query.RowParts P ⟨.setOperation op all l r, orderBy, limit, offset⟩ →
    Q ⟨.setOperation op all l r, orderBy, limit, offset⟩

namespace Hereditary

variable {P : Expr → Prop} {Q : Query → Prop}

mutual

theorem expr (h : Hereditary P Q) : ∀ e, P e
  | .column c => h.column c
  | .literal v => h.literal v
  | .binary l op r => h.binary l op r (h.expr l) (h.expr r)
  | .unary op e => h.unary op e (h.expr e)
  | .isValue e v n => h.isValue e v n (h.expr e)
  | .between e low high n => h.between e low high n (h.expr e) (h.expr low) (h.expr high)
  | .inList e items n => h.inList e items n (h.expr e) fun i _ => h.expr i
  | .inQuery e q n => h.inQuery e q n (h.expr e) (h.query q)
  | .existsQuery q n => h.existsQuery q n (h.query q)
  | .subquery q => h.subquery q (h.query q)
  | .like e pattern n i => h.like e pattern n i (h.expr e) (h.expr pattern)
  | .call f args d => h.call f args d fun a _ => h.expr a
  | .nested e => h.nested e (h.expr e)
  | .wildcard => h.wildcard
termination_by e => sizeOf e
decreasing_by
  all_goals simp_wf
  all_goals try have := List.sizeOf_lt_of_mem ‹_ ∈ _›
  all_goals omega

theorem query (h : Hereditary P Q) : ∀ q, Q q
  | ⟨.select block, orderBy, limit, offset⟩ =>
    h.select block orderBy limit offset
      (block.sizeOf_parts.imp (fun e _he => h.expr e) fun q _hq => h.query q)
      ((Query.sizeOf_rowParts _).imp fun e _he => h.expr e)
  | ⟨.setOperation op all l r, orderBy, limit, offset⟩ =>
    h.setOperation op all l r orderBy limit offset (h.query l) (h.query r)
      ((Query.sizeOf_rowParts _).imp fun e _he => h.expr e)
termination_by q => sizeOf q
decreasing_by
  · simp_wf
    omega
  · simp_wf
    omega
  · exact _he
  · simp_wf
    omega
  · simp_wf
    omega
  · exact _he

end

end Hereditary

end QuerySteps.Sql
