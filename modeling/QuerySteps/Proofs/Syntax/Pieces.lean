import QuerySteps.Proofs.Syntax.Hereditary

/-!
# The pieces of a query

The names, the constants and the SELECT blocks that stand anywhere in a query, also inside its
subqueries. A condition on whole queries, such as that no text in them has a line break, is a
condition on each piece.

Every part of a block or of the row clauses of a query is made of pieces of the whole
(`Select.parts_pieces`, `Query.rowParts_pieces`), so such a condition passes down to the parts.
-/

namespace QuerySteps.Sql

open Source

/-- A name, a constant or a SELECT block. -/
inductive Piece where
  | name (name : Name)
  | constant (value : Literal)
  | block (block : Select)

/-- The name and the qualifiers of a column. -/
def Column.pieces (c : Column) : List Piece :=
  .name c.name :: (c.table.toList ++ c.schema.toList).map .name

def piecesOfAlias (aliasName : Option Name) : List Piece :=
  aliasName.toList.map .name

mutual

/-- The pieces of an expression. -/
def Expr.pieces : Expr → List Piece
  | .column c => c.pieces
  | .literal v => [.constant v]
  | .binary l _ r => l.pieces ++ r.pieces
  | .unary _ e | .nested e => e.pieces
  | .isValue e v _ => .constant v :: e.pieces
  | .between e low high _ => e.pieces ++ (low.pieces ++ high.pieces)
  | .inList e items _ => e.pieces ++ piecesOfExprs items
  | .inQuery e q _ => e.pieces ++ q.pieces
  | .existsQuery q _ | .subquery q => q.pieces
  | .like e pattern _ _ => e.pieces ++ pattern.pieces
  | .call _ args _ => piecesOfExprs args
  | .wildcard => []
termination_by structural e => e

def piecesOfExprs : List Expr → List Piece
  | [] => []
  | e :: es => e.pieces ++ piecesOfExprs es
termination_by structural es => es

def piecesOfOption : Option Expr → List Piece
  | none => []
  | some e => e.pieces
termination_by structural e => e

def SelectItem.pieces : SelectItem → List Piece
  | .expr value aliasName => value.pieces ++ piecesOfAlias aliasName
  | .all => []
  | .allOf table => [.name table]
termination_by structural i => i

def piecesOfItems : List SelectItem → List Piece
  | [] => []
  | i :: is => i.pieces ++ piecesOfItems is
termination_by structural is => is

def Relation.pieces : Relation → List Piece
  | .table path aliasName => path.map .name ++ piecesOfAlias aliasName
  | .derived query aliasName => query.pieces ++ piecesOfAlias aliasName
termination_by structural r => r

def JoinConstraint.pieces : JoinConstraint → List Piece
  | .on condition => condition.pieces
  | .shared columns => columns.map .name
  | .natural | .unconstrained => []
termination_by structural c => c

def Join.pieces : Join → List Piece
  | ⟨relation, _, constraint⟩ => relation.pieces ++ constraint.pieces
termination_by structural j => j

def piecesOfJoins : List Join → List Piece
  | [] => []
  | j :: js => j.pieces ++ piecesOfJoins js
termination_by structural js => js

def FromItem.pieces : FromItem → List Piece
  | ⟨relation, joins⟩ => relation.pieces ++ piecesOfJoins joins
termination_by structural i => i

def piecesOfSources : List FromItem → List Piece
  | [] => []
  | i :: is => i.pieces ++ piecesOfSources is
termination_by structural is => is

def OrderItem.pieces : OrderItem → List Piece
  | ⟨key, _⟩ => key.pieces
termination_by structural i => i

def piecesOfOrder : List OrderItem → List Piece
  | [] => []
  | i :: is => i.pieces ++ piecesOfOrder is
termination_by structural is => is

/-- The block itself and its pieces. -/
def Select.pieces : Select → List Piece
  | ⟨distinct, projection, sources, condition, groupBy, having⟩ =>
    .block ⟨distinct, projection, sources, condition, groupBy, having⟩ ::
      (piecesOfItems projection ++ (piecesOfSources sources ++ (piecesOfOption condition ++
        (piecesOfExprs groupBy ++ piecesOfOption having))))
termination_by structural b => b

def QueryBody.pieces : QueryBody → List Piece
  | .select block => block.pieces
  | .setOperation _ _ left right => left.pieces ++ right.pieces
termination_by structural b => b

/-- The pieces of a query. -/
def Query.pieces : Query → List Piece
  | ⟨body, orderBy, limit, offset⟩ =>
    body.pieces ++ (piecesOfOrder orderBy ++ (piecesOfOption limit ++ piecesOfOption offset))
termination_by structural q => q

end

/-! ## Parts -/

theorem piecesOfExprs_eq (es : List Expr) : piecesOfExprs es = es.flatMap Expr.pieces := by
  induction es with
  | nil => rfl
  | cons e es ih => simp [piecesOfExprs, ih]

theorem piecesOfOption_eq (e : Option Expr) : piecesOfOption e = e.elim [] Expr.pieces := by
  cases e <;> rfl

theorem piecesOfItems_eq (items : List SelectItem) :
    piecesOfItems items = items.flatMap SelectItem.pieces := by
  induction items with
  | nil => rfl
  | cons i is ih => simp [piecesOfItems, ih]

theorem piecesOfOrder_eq (items : List OrderItem) :
    piecesOfOrder items = items.flatMap OrderItem.pieces := by
  induction items with
  | nil => rfl
  | cons i is ih => simp [piecesOfOrder, ih]

theorem piecesOfJoins_eq (joins : List Join) : piecesOfJoins joins = joins.flatMap Join.pieces := by
  induction joins with
  | nil => rfl
  | cons j js ih => simp [piecesOfJoins, ih]

theorem mem_piecesOfSources {items : List FromItem} {piece : Piece} :
    piece ∈ piecesOfSources items ↔
      ∃ link ∈ links items, piece ∈ link.1.pieces ∨ piece ∈ link.2.2.pieces := by
  induction items with
  | nil => simp [piecesOfSources, links]
  | cons item items ih =>
    obtain ⟨relation, joins⟩ := item
    simp only [piecesOfSources, FromItem.pieces, piecesOfJoins_eq, links_cons, linksOfItem,
      List.mem_append, List.mem_flatMap, List.mem_cons, List.mem_map, ih]
    constructor
    · rintro ((h | ⟨⟨r, kind, constraint⟩, hj, h⟩) | ⟨link, hl, h⟩)
      · exact ⟨_, .inl (.inl rfl), .inl h⟩
      · exact ⟨_, .inl (.inr ⟨_, hj, rfl⟩), by simpa [Join.pieces] using h⟩
      · exact ⟨link, .inr hl, h⟩
    · rintro ⟨link, (rfl | ⟨⟨r, kind, constraint⟩, hj, rfl⟩) | hl, h⟩
      · exact .inl (.inl (by simpa [JoinConstraint.pieces] using h))
      · exact .inl (.inr ⟨_, hj, by simpa [Join.pieces] using h⟩)
      · exact .inr ⟨link, hl, h⟩

theorem Relation.name_mem_pieces {r : Relation} {name : Name} (h : r.exposedName? = some name) :
    .name name ∈ r.pieces := by
  cases r with
  | table path aliasName =>
    cases aliasName with
    | some a => simp_all [Relation.exposedName?, Relation.alias?, Relation.pieces, piecesOfAlias]
    | none =>
      refine List.mem_append_left _ (List.mem_map_of_mem (List.mem_of_getLast? ?_))
      simpa [Relation.exposedName?, Relation.alias?, Relation.tableName?] using h
  | derived query aliasName =>
    cases aliasName with
    | some a => simp_all [Relation.exposedName?, Relation.alias?, Relation.pieces, piecesOfAlias]
    | none => simp [Relation.exposedName?, Relation.alias?, Relation.tableName?] at h

theorem Expr.pieces_subset_of_mem_conjuncts {e c : Expr} (h : c ∈ e.conjuncts) :
    c.pieces ⊆ e.pieces := by
  fun_induction conjuncts e with
  | case1 l r ihl ihr =>
    rcases List.mem_append.mp h with h | h
    · exact List.subset_append_of_subset_left _ (ihl h)
    · exact List.subset_append_of_subset_right _ (ihr h)
  | case2 l r ihl ihr =>
    rcases List.mem_append.mp h with h | h
    · exact List.subset_append_of_subset_left _ (ihl h)
    · exact List.subset_append_of_subset_right _ (ihr h)
  | case3 e _ _ => rw [List.mem_singleton.mp h]; exact List.Subset.refl _

theorem Expr.pieces_withoutParens (e : Expr) : e.withoutParens.pieces = e.pieces := by
  fun_induction withoutParens e with
  | case1 e ih => exact ih
  | case2 e _ => rfl

theorem Select.mem_pieces (b : Select) : .block b ∈ b.pieces := by
  cases b
  exact List.mem_cons_self ..

theorem Select.pieces_of_item {b : Select} {item : SelectItem} (h : item ∈ b.projection) :
    item.pieces ⊆ b.pieces := by
  obtain ⟨distinct, projection, sources, condition, groupBy, having⟩ := b
  intro piece hp
  have hitem : piece ∈ piecesOfItems projection := by
    rw [piecesOfItems_eq]
    exact List.mem_flatMap.mpr ⟨item, h, hp⟩
  simp [Select.pieces, hitem]

theorem Select.pieces_of_link {b : Select} {link : Link} (h : link ∈ links b.sources) :
    link.1.pieces ⊆ b.pieces ∧ link.2.2.pieces ⊆ b.pieces := by
  obtain ⟨distinct, projection, sources, condition, groupBy, having⟩ := b
  have hsources (piece : Piece) (hp : piece ∈ link.1.pieces ∨ piece ∈ link.2.2.pieces) :
      piece ∈ piecesOfSources sources := mem_piecesOfSources.mpr ⟨link, h, hp⟩
  exact ⟨fun piece hp => by simp [Select.pieces, hsources piece (.inl hp)],
    fun piece hp => by simp [Select.pieces, hsources piece (.inr hp)]⟩

/-- The parts of a block are made of its pieces. -/
theorem Select.parts_pieces (b : Select) :
    b.Parts (fun e => e.pieces ⊆ b.pieces) fun q => q.pieces ⊆ b.pieces where
  items value aliasName h :=
    List.Subset.trans (List.subset_append_left _ _) (Select.pieces_of_item h)
  derived link h query aliasName hr := by
    refine List.Subset.trans ?_ (Select.pieces_of_link h).1
    rw [hr]
    exact List.subset_append_left _ _
  matching link h e he c hc l op r hb := by
    have hsides : l.pieces ++ r.pieces ⊆ b.pieces := by
      have hbinary := c.pieces_withoutParens
      rw [hb] at hbinary
      refine List.Subset.trans (fun p hp => ?_) (Select.pieces_of_link h).2
      rw [he]
      exact Expr.pieces_subset_of_mem_conjuncts hc (hbinary ▸ hp)
    exact ⟨List.Subset.trans (List.subset_append_left _ _) hsides,
      List.Subset.trans (List.subset_append_right _ _) hsides⟩
  condition e he := by
    obtain ⟨distinct, projection, sources, condition, groupBy, having⟩ := b
    obtain rfl : condition = some e := he
    refine ⟨fun p hp => ?_, fun c hc p hp => ?_⟩
    · simp [Select.pieces, piecesOfOption_eq, hp]
    · simp [Select.pieces, piecesOfOption_eq, Expr.pieces_subset_of_mem_conjuncts hc hp]
  keys e h := by
    obtain ⟨distinct, projection, sources, condition, groupBy, having⟩ := b
    intro piece hp
    have hkeys : piece ∈ piecesOfExprs groupBy := by
      rw [piecesOfExprs_eq]
      exact List.mem_flatMap.mpr ⟨e, h, hp⟩
    simp [Select.pieces, hkeys]
  having e he := by
    obtain ⟨distinct, projection, sources, condition, groupBy, having⟩ := b
    obtain rfl : having = some e := he
    intro piece hp
    simp [Select.pieces, piecesOfOption_eq, hp]

theorem Query.rowParts_pieces (q : Query) : q.RowParts fun e => e.pieces ⊆ q.pieces := by
  obtain ⟨body, orderBy, limit, offset⟩ := q
  constructor <;> simp only [Query.pieces, piecesOfOrder_eq, piecesOfOption_eq]
  · intro ⟨key, descending⟩ h piece hp
    have hi : piece ∈ orderBy.flatMap OrderItem.pieces := List.mem_flatMap.mpr ⟨_, h, hp⟩
    simp [hi]
  · rintro e rfl piece hp
    simp [hp]
  · rintro e rfl piece hp
    simp [hp]

/-! ## Columns -/

namespace Expr

theorem columnPieces_append {columns columns' : List Column} {pieces pieces' : List Piece}
    (h : columns.flatMap Column.pieces ⊆ pieces) (h' : columns'.flatMap Column.pieces ⊆ pieces') :
    (columns ++ columns').flatMap Column.pieces ⊆ pieces ++ pieces' := by
  rw [List.flatMap_append]
  exact List.append_subset.mpr ⟨List.subset_append_of_subset_left _ h,
    List.subset_append_of_subset_right _ h'⟩

theorem columnPieces_list {es : List Expr}
    (h : ∀ e ∈ es, e.columns.flatMap Column.pieces ⊆ e.pieces) :
    (columnsOfList es).flatMap Column.pieces ⊆ piecesOfExprs es := by
  induction es with
  | nil => exact List.nil_subset _
  | cons e es ih =>
    obtain ⟨he, hes⟩ := List.forall_mem_cons.mp h
    exact columnPieces_append he (ih hes)

/-- The columns that an expression mentions are made of its pieces, constructor by constructor. -/
theorem hereditary_columnPieces :
    Hereditary (fun e => e.columns.flatMap Column.pieces ⊆ e.pieces) fun _ => True where
  column c := by simp [columns, pieces]
  literal _ := List.nil_subset _
  binary _ _ _ hl hr := columnPieces_append hl hr
  unary _ _ he := he
  isValue _ _ _ he := List.subset_cons_of_subset _ he
  between e low high n he hlow hhigh := by
    simp only [columns, List.append_assoc]
    exact columnPieces_append he (columnPieces_append hlow hhigh)
  inList _ _ _ he hitems := columnPieces_append he (columnPieces_list hitems)
  inQuery _ _ _ he _ := List.subset_append_of_subset_left _ he
  existsQuery _ _ _ := List.nil_subset _
  subquery _ _ := List.nil_subset _
  like _ _ _ _ he hpattern := columnPieces_append he hpattern
  call _ _ _ hargs := columnPieces_list hargs
  nested _ he := he
  wildcard := List.nil_subset _
  select _ _ _ _ _ _ := trivial
  setOperation _ _ _ _ _ _ _ _ _ _ := trivial

theorem pieces_subset_of_mem_columns {e : Expr} {c : Column} (h : c ∈ e.columns) :
    c.pieces ⊆ e.pieces :=
  fun _ hp => hereditary_columnPieces.expr e (List.mem_flatMap.mpr ⟨c, h, hp⟩)

end Expr

/-! ## Conditions on pieces -/

section

variable {ok : Piece → Prop} {P : Expr → Prop} {Q : Query → Prop}

theorem Select.Parts.mp {P' : Expr → Prop} {Q' : Query → Prop} {b : Select}
    (h : b.Parts (fun e => P e → P' e) fun q => Q q → Q' q) (hb : b.Parts P Q) : b.Parts P' Q' where
  items value aliasName hv := h.items value aliasName hv (hb.items value aliasName hv)
  derived link hl query aliasName hr :=
    h.derived link hl query aliasName hr (hb.derived link hl query aliasName hr)
  matching link hl e he c hc l op r ho :=
    (h.matching link hl e he c hc l op r ho).imp (· (hb.matching link hl e he c hc l op r ho).1)
      (· (hb.matching link hl e he c hc l op r ho).2)
  condition e he := ⟨(h.condition e he).1 (hb.condition e he).1,
    fun c hc => (h.condition e he).2 c hc ((hb.condition e he).2 c hc)⟩
  keys e he := h.keys e he (hb.keys e he)
  having e he := h.having e he (hb.having e he)

theorem Query.RowParts.mp {P' : Expr → Prop} {q : Query} (h : q.RowParts fun e => P e → P' e)
    (hq : q.RowParts P) : q.RowParts P' where
  order item hi := h.order item hi (hq.order item hi)
  limit e he := h.limit e he (hq.limit e he)
  offset e he := h.offset e he (hq.offset e he)

/-- What follows for the parts from a condition on their pieces holds if the block satisfies it. -/
theorem Select.Parts.of_pieces {b : Select}
    (h : b.Parts (fun e => (∀ p ∈ e.pieces, ok p) → P e) fun q => (∀ p ∈ q.pieces, ok p) → Q q)
    (hb : ∀ p ∈ b.pieces, ok p) : b.Parts P Q :=
  h.mp (b.parts_pieces.imp (fun _ hsub p hp => hb p (hsub hp)) fun _ hsub p hp => hb p (hsub hp))

theorem Query.RowParts.of_pieces {q : Query}
    (h : q.RowParts fun e => (∀ p ∈ e.pieces, ok p) → P e) (hq : ∀ p ∈ q.pieces, ok p) :
    q.RowParts P :=
  h.mp (q.rowParts_pieces.imp fun _ hsub p hp => hq p (hsub hp))

end

end QuerySteps.Sql
