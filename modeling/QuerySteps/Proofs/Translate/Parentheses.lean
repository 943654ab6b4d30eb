import QuerySteps.Proofs.Planning
import QuerySteps.Proofs.Syntax.Parentheses
import QuerySteps.Proofs.Translate.Sources

/-!
# Planning without redundant parentheses

A query and its plain form have the same draft, clause by clause, so queries with the same plain
form have the same plan or the same error. The chains that are split at AND need the plain form of
every conjunct to mention the same columns, since these decide where the conjunct is filtered.
-/

namespace QuerySteps

namespace Sql

section

variable {s : Settings} {q : Qualifiers}

namespace Expr

theorem draft_wrapped (e : Expr) : e.wrapped.draft s q = (nested e).draft s q := by
  fun_cases wrapped e with
  | case1 => rfl
  | case2 e _ harith => rfl
  | case3 e _ harith => rw [draft_nested (by simpa using harith)]

theorem draft_kept (e : Expr) : e.kept.draft s q = e.draft s q := by
  fun_cases kept e with
  | case1 l r =>
    rw [draft_nested rfl, draft_nested rfl]
  | case2 => rfl

end Expr

end

/-- Taking redundant parentheses away does not change what an expression mentions or how it is
translated. -/
structure Expr.Unchanged (e : Expr) : Prop where
  columns : e.plain.columns = e.columns
  draft : ∀ s q, e.plain.draft s q = e.draft s q

/-- Taking redundant parentheses away does not change how a query is translated. -/
def Query.Unchanged (query : Query) : Prop :=
  ∀ s, query.plain.draft s = query.draft s

section

variable {s : Settings} {q : Qualifiers}

theorem draftsOfExprs_plain {es : List Expr} (h : ∀ e ∈ es, e.Unchanged) :
    draftsOfExprs s q (plainExprs es) = draftsOfExprs s q es := by
  rw [plainExprs_eq_map]
  exact draftsOfExprs_map fun e he => (h e he).draft s q

theorem columnsOfList_plain {es : List Expr} (h : ∀ e ∈ es, e.Unchanged) :
    Expr.columnsOfList (plainExprs es) = Expr.columnsOfList es := by
  have hcolumns : ∀ e ∈ es, e.plain.columns = e.columns.map id := fun e he =>
    (h e he).columns.trans (List.map_id _).symm
  rw [plainExprs_eq_map, Expr.columnsOfList_map hcolumns, List.map_id]

theorem draftOfOption_plain {e : Option Expr} (h : ∀ x ∈ e, x.Unchanged) :
    draftOfOption s q (plainOption e) = draftOfOption s q e := by
  cases e with
  | none => rfl
  | some x => exact congrArg some ((h x rfl).draft s q)

theorem draftsOfOrder_plain {items : List OrderItem} (h : ∀ item ∈ items, item.key.Unchanged) :
    draftsOfOrder s q (plainOrder items) = draftsOfOrder s q items := by
  rw [draftsOfOrder_eq_map, draftsOfOrder_eq_map, plainOrder_eq_map, List.map_map]
  refine List.map_congr_left fun item hi => ?_
  obtain ⟨key, descending⟩ := item
  have hkey := (h _ hi).draft s q
  show (do let key ← key.plain.draft s q; pure _) = (do let key ← key.draft s q; pure _)
  rw [hkey]

theorem draftsOfItems_plain {items : List SelectItem}
    (h : ∀ value aliasName, .expr value aliasName ∈ items → value.Unchanged) :
    (plainItems items).map (SelectItem.draft s) = items.map (SelectItem.draft s) := by
  rw [plainItems_eq_map, List.map_map]
  refine List.map_congr_left fun item hi => ?_
  cases item with
  | expr value aliasName =>
    have hvalue := (h value aliasName hi).draft s .kept
    show (do let label ← value.plain.draft s .kept; pure _) =
      (do let label ← value.draft s .kept; pure _)
    rw [hvalue]
  | all => rfl
  | allOf table => rfl

theorem load_plain {relation : Relation}
    (h : ∀ query aliasName, relation = .derived query aliasName → query.Unchanged) :
    relation.plain.load s = relation.load s := by
  cases relation with
  | table path aliasName => rfl
  | derived query aliasName =>
    have hquery := h query aliasName rfl s
    show (do let rows ← query.plain.draft s; pure _) = (do let rows ← query.draft s; pure _)
    rw [hquery]

theorem store_plain {relation : Relation}
    (h : ∀ query aliasName, relation = .derived query aliasName → query.Unchanged) :
    relation.plain.store s = relation.store s := by
  funext name
  cases relation with
  | table path aliasName => rfl
  | derived query aliasName =>
    have hquery := h query aliasName rfl s
    show (do let rows ← query.plain.draft s; _) = (do let rows ← query.draft s; _)
    rw [hquery]

theorem equalityDraft_plain {c : Expr}
    (h : ∀ l op r, c.withoutParens = .binary l op r → l.Unchanged ∧ r.Unchanged) :
    c.plain.kept.equalityDraft s = c.equalityDraft s := by
  rw [Expr.equalityDraft_eq, Expr.equalityDraft_eq, Expr.withoutParens_kept,
    Expr.withoutParens_plain]
  have hbare := c.withoutParens_ne_nested
  generalize c.withoutParens = e at h hbare
  cases e with
  | nested inner => exact absurd rfl (hbare inner)
  | binary l op r =>
    obtain ⟨hl, hr⟩ := h l op r rfl
    cases op with
    | eq =>
      show equalityLabel (l.plain.draft s .kept) (r.plain.draft s .kept) = _
      rw [hl.draft, hr.draft]
    | _ => rfl
  | _ => rfl

theorem constraint_plain {constraint : JoinConstraint}
    (h : ∀ e, constraint = .on e → ∀ c ∈ e.conjuncts, ∀ l op r,
      c.withoutParens = .binary l op r → l.Unchanged ∧ r.Unchanged) :
    constraint.plain.draft s = constraint.draft s := by
  cases constraint with
  | on e =>
    have hsame : (Expr.plainChain e.plain e).equalityDrafts s = e.equalityDrafts s := by
      rw [Expr.equalityDrafts_eq_map, Expr.equalityDrafts_eq_map, Expr.conjuncts_plainChain,
        List.map_map]
      exact List.map_congr_left fun c hc => equalityDraft_plain (h e rfl c hc)
    show (do let equalities ← Draft.sequence ((Expr.plainChain e.plain e).equalityDrafts s); _) = _
    rw [hsame]
    rfl
  | shared columns => rfl
  | natural => rfl
  | unconstrained => rfl

end

end Sql

open Sql

/-! ## Sources -/

namespace Source

def plain (source : Source) : Source :=
  { source with relation := source.relation.plain, constraint := source.constraint.plain }

theorem ofItems_plainSources (items : List FromItem) :
    ofItems (plainSources items) = (ofItems items).map (List.map plain) := by
  refine ofItems_map (links_plainSources items) (fun _ => rfl) fun link pushable => ?_
  unfold ofLink
  rw [Relation.exposedName?_plain]
  cases link.1.exposedName? <;> rfl

theorem pushTarget?_plain (sources : List Source) {c c' : Expr} (h : c'.columns = c.columns) :
    pushTarget? (sources.map plain) c' = pushTarget? sources c := by
  refine pushTarget?_map plain (g := id) (fun _ => rfl) (by rw [h, List.map_id]) fun column _ => ?_
  cases htable : column.table with
  | none => simp [ofColumn?, htable]
  | some qualifier =>
    simp only [ofColumn?, id_eq, htable, Option.bind_some]
    exact indexOf?_map plain fun _ _ => rfl

end Source

/-! ## Clauses -/

namespace Sql

theorem Select.plain_eq (b : Select) : b.plain =
    { distinct := b.distinct
      projection := plainItems b.projection
      sources := plainSources b.sources
      condition :=
        if 1 < b.relations.length then plainChainOption b.condition else plainOption b.condition
      groupBy := plainExprs b.groupBy
      having := plainOption b.having } := by
  cases b
  rfl

theorem length_relations_plain (b : Select) : b.plain.relations.length = b.relations.length := by
  cases b
  exact length_relations_plainSources _

theorem unchanged_select {s : Settings} {b : Select} (h : b.Parts Expr.Unchanged Query.Unchanged)
    (rows : Qualifiers → RowClauses) : b.plain.draft s rows = b.draft s rows := by
  have hitems := draftsOfItems_plain (s := s) h.items
  have hkeys (q : Qualifiers) := draftsOfExprs_plain (s := s) (q := q) h.keys
  have hhaving (q : Qualifiers) := draftOfOption_plain (s := s) (q := q) h.having
  by_cases hjoin : 1 < b.relations.length
  · have hstages : ((Source.links (plainSources b.sources)).map fun link =>
          (⟨link.1.store s, link.2.2.draft s⟩ : Stage)) =
        (Source.links b.sources).map fun link => ⟨link.1.store s, link.2.2.draft s⟩ := by
      rw [links_plainSources, List.map_map]
      exact List.map_congr_left fun link hl =>
        congrArg₂ Stage.mk (store_plain (h.derived link hl)) (constraint_plain (h.matching link hl))
    have hchain : (plainChainOption b.condition).elim [] Expr.conjuncts =
        (b.condition.elim [] Expr.conjuncts).map fun c => c.plain.kept := by
      cases b.condition with
      | none => rfl
      | some e => exact e.conjuncts_plainChain
    have hjoinPlain : 1 < b.plain.relations.length := by rwa [length_relations_plain]
    rw [Select.draft_eq, if_pos hjoinPlain, Select.draft_eq, if_pos hjoin, Select.plain_eq,
      if_pos hjoin]
    simp only [hitems, hkeys, hhaving, hstages, hchain, List.map_map]
    refine Draft.selectJoin_map Source.plain (fun _ => rfl) (Source.ofItems_plainSources b.sources)
      (fun sources _ => ?_) rfl (fun sources _ c hc => ?_) (fun c hc => ?_) _ _ _ _
    · rw [List.zipWith_map_left]
      rfl
    · exact Source.pushTarget?_plain sources (by rw [Expr.columns_kept, (h.conjuncts c hc).columns])
    · rw [Expr.draft_kept, (h.conjuncts c hc).draft]
  · have hfirst : ((Source.links (plainSources b.sources)).head?.map fun link => link.1.load s) =
        (Source.links b.sources).head?.map fun link => link.1.load s := by
      rw [links_plainSources]
      cases hlinks : Source.links b.sources with
      | nil => rfl
      | cons link rest =>
        exact congrArg some (load_plain (h.derived link (hlinks ▸ List.mem_cons_self ..)))
    have hwhere : (plainOption b.condition).map (Expr.draft s .kept) =
        b.condition.map (Expr.draft s .kept) := by
      cases hb : b.condition with
      | none => rfl
      | some e => exact congrArg some ((h.condition e hb).1.draft s .kept)
    have hjoinPlain : ¬1 < b.plain.relations.length := by rwa [length_relations_plain]
    rw [Select.draft_eq, if_neg hjoinPlain, Select.draft_eq, if_neg hjoin, Select.plain_eq,
      if_neg hjoin]
    simp only [hitems, hkeys, hhaving, hfirst, hwhere]

/-- Taking redundant parentheses away from its parts changes nothing for an expression or a query,
constructor by constructor. -/
theorem hereditary_unchanged : Hereditary Expr.Unchanged Query.Unchanged where
  column c := ⟨rfl, fun _ _ => rfl⟩
  literal v := ⟨rfl, fun _ _ => rfl⟩
  binary l op r hl hr := by
    refine ⟨?_, fun s q => ?_⟩
    · simp only [Expr.plain, Expr.columns, hl.columns, hr.columns]
    · simp only [Expr.plain, Expr.draft, hl.draft, hr.draft]
  unary op e he := by
    refine ⟨?_, fun s q => ?_⟩
    · simp only [Expr.plain, Expr.columns, he.columns]
    · simp only [Expr.plain, Expr.draft, he.draft]
  isValue e v n he := by
    refine ⟨?_, fun s q => ?_⟩
    · simp only [Expr.plain, Expr.columns, he.columns]
    · simp only [Expr.plain, Expr.draft, he.draft]
  between e low high n he hlow hhigh := by
    refine ⟨?_, fun s q => ?_⟩
    · simp only [Expr.plain, Expr.columns, he.columns, hlow.columns, hhigh.columns]
    · simp only [Expr.plain, Expr.draft, he.draft, hlow.draft, hhigh.draft]
  inList e items n he hitems := by
    refine ⟨?_, fun s q => ?_⟩
    · simp only [Expr.plain, Expr.columns, he.columns, columnsOfList_plain hitems]
    · simp only [Expr.plain, Expr.draft, he.draft, draftsOfExprs_plain hitems]
  inQuery e query n he hquery := by
    refine ⟨?_, fun s q => ?_⟩
    · simp only [Expr.plain, Expr.columns, he.columns]
    · simp only [Expr.plain, Expr.draft, he.draft, hquery s]
  existsQuery query n hquery := by
    refine ⟨rfl, fun s q => ?_⟩
    simp only [Expr.plain, Expr.draft, hquery s]
  subquery query hquery := ⟨rfl, fun s q => hquery s⟩
  like e pattern n i he hpattern := by
    refine ⟨?_, fun s q => ?_⟩
    · simp only [Expr.plain, Expr.columns, he.columns, hpattern.columns]
    · simp only [Expr.plain, Expr.draft, he.draft, hpattern.draft]
  call f args d hargs := by
    refine ⟨?_, fun s q => ?_⟩
    · simp only [Expr.plain, Expr.columns, columnsOfList_plain hargs]
    · have hcounts : countsRows f (plainExprs args) = countsRows f args := by
        rw [plainExprs_eq_map, Expr.countsRows_plain]
      have hlength : (plainExprs args).length = args.length := by
        rw [plainExprs_eq_map, List.length_map]
      simp only [Expr.plain, Expr.draft, hcounts, hlength, draftsOfExprs_plain hargs]
  nested e he := by
    refine ⟨?_, fun s q => ?_⟩
    · simp only [Expr.plain, Expr.columns_wrapped, Expr.columns, he.columns]
    · rw [Expr.plain, Expr.draft_wrapped]
      simp only [Expr.draft, he.draft, Expr.isArithmetic_plain]
  wildcard := ⟨rfl, fun _ _ => rfl⟩
  select block orderBy limit offset hblock hrows := by
    intro s
    simp only [Query.plain, Query.draft, QueryBody.plain, QueryBody.draft,
      draftsOfOrder_plain hrows.order, draftOfOption_plain hrows.offset,
      draftOfOption_plain hrows.limit]
    exact unchanged_select hblock _
  setOperation op all l r orderBy limit offset hl hr hrows := by
    intro s
    simp only [Query.plain, Query.draft, QueryBody.plain, QueryBody.draft, hl s, hr s,
      draftsOfOrder_plain hrows.order, draftOfOption_plain hrows.offset,
      draftOfOption_plain hrows.limit]

end Sql

/-- Redundant parentheses do not matter: queries with the same plain form have the same plan, or
fail with the same error. -/
theorem Planner.planQuery_eq_of_plain_eq (p : Planner) {q q' : Query} (h : q.plain = q'.plain) :
    p.planQuery q = p.planQuery q' := by
  have hdraft : q.draft p.settings = q'.draft p.settings := by
    rw [← hereditary_unchanged.query q, h, hereditary_unchanged.query q']
  unfold planQuery steps draft
  rw [hdraft]

/-- `SELECT a.x FROM a JOIN b ON condition`. -/
def matchedOn (condition : Expr) : Query :=
  .ofSelect
    { projection := [.expr (.column { table := some ⟨"a", false⟩, name := ⟨"x", false⟩ }) none]
      sources := [
        { relation := .table [⟨"a", false⟩] none
          joins := [
            { relation := .table [⟨"b", false⟩] none
              kind := .inner
              constraint := .on condition }] }] }

def sameIn (name : String) : Expr :=
  .binary (.column { table := some ⟨"a", false⟩, name := ⟨name, false⟩ }) .eq
    (.column { table := some ⟨"b", false⟩, name := ⟨name, false⟩ })

/-- `ON (a.id = b.id AND a.k = b.k)` means the same as `ON ((a.id = b.id)) AND a.k = b.k`. -/
theorem Planner.planQuery_eq_of_plain_eq_matchedOn :
    (matchedOn (.nested (.binary (sameIn "id") .and (sameIn "k")))).plain =
      (matchedOn (.binary (.nested (.nested (sameIn "id"))) .and (sameIn "k"))).plain ∧
    Planner.planQuery {} (matchedOn (.nested (.binary (sameIn "id") .and (sameIn "k")))) =
      Planner.planQuery {}
        (matchedOn (.binary (.nested (.nested (sameIn "id"))) .and (sameIn "k"))) :=
  ⟨rfl, Planner.planQuery_eq_of_plain_eq {} rfl⟩

/-- With a second pair of parentheses the condition is one conjunct, which is no equality. -/
theorem Planner.planQuery_sealed_ne :
    Planner.planQuery {} (matchedOn (.nested (.nested (.binary (sameIn "id") .and (sameIn "k"))))) ≠
      Planner.planQuery {} (matchedOn (.nested (.binary (sameIn "id") .and (sameIn "k")))) := by
  intro heq
  have hsingle : ∃ sheet, Planner.planQuery {}
      (matchedOn (.nested (.binary (sameIn "id") .and (sameIn "k")))) = .ok sheet :=
    exists_plan_iff.mpr (by decide)
  rw [← heq] at hsingle
  exact absurd (exists_plan_iff.mp hsingle) (by decide)

end QuerySteps
