import QuerySteps.Translate.Call
import QuerySteps.Translate.Clause

/-!
# Translating queries

Every expression and every query has a draft: it adds the steps that compute the value and yields
the label by which later steps name it. Operands come first and in the order of the text, so a step
refers to earlier ones only. After a join the qualifiers of columns no longer mean anything and are
dropped by the clauses that follow it; inside a subquery they are kept.
-/

namespace QuerySteps

open Sql

/-- Whether columns are named with their qualifiers. -/
inductive Qualifiers where
  | kept | dropped
  deriving Repr, DecidableEq

/-- The column under the qualifiers that are shown. -/
def Qualifiers.column : Qualifiers → Column → Column
  | kept, c => c
  | dropped, c => c.bare

namespace Sql

/-- The words for a condition over two operands that have labels. -/
def equalityLabel (left right : Draft Label) : Draft Label := do
  let left ← left
  let right ← right
  pure (left.before "equals" ++ right)

/-- The failure of a join condition that is no equality. -/
def notAnEquality (found : Expr) : Draft Label :=
  Draft.fail (.malformedJoin ("expected an equality, found " ++ found.form))

mutual

def Expr.draft (s : Settings) (q : Qualifiers) : Expr → Draft Label
  | .column c => pure (.text (s.columnText (q.column c)))
  | .literal v => pure (.text v.text)
  | .binary left op right => do
    let left ← left.draft s q
    let right ← right.draft s q
    let phrase := left.before op.words ++ right
    if op.isArithmetic then pure phrase else Draft.check phrase
  | .unary op operand => do
    let operand ← operand.draft s q
    match op with
    | .not => Draft.check (operand.before "is false")
    | .neg => pure (operand.signed "-")
    | .plus => pure operand
  | .isValue operand value negated => do
    let operand ← operand.draft s q
    Draft.check ((operand.before (if negated then "is not" else "is")).before value.text)
  | .between operand low high negated => do
    let operand ← operand.draft s q
    let low ← low.draft s q
    let high ← high.draft s q
    let verb := if negated then "is not between" else "is between"
    Draft.check ((operand.before verb ++ low).before "and" ++ high)
  | .inList operand items negated => do
    let operand ← operand.draft s q
    let items ← Draft.sequence (draftsOfExprs s q items)
    let verb := if negated then "is not one of" else "is one of"
    Draft.check (operand.before verb ++ Label.commaList items)
  | .inQuery operand query negated => do
    let operand ← operand.draft s q
    let rows ← query.draft s
    let verb := if negated then "does not appear in" else "appears in"
    Draft.check (operand.before verb ++ rows)
  | .existsQuery query negated => do
    let rows ← query.draft s
    Draft.check (rows.before (if negated then "contains no rows" else "contains at least one row"))
  | .subquery query => query.draft s
  | .like operand pattern negated ignoreCase => do
    let operand ← operand.draft s q
    let pattern ← pattern.draft s q
    Draft.check (operand.before (likeWords negated ignoreCase) ++ pattern)
  | .call function args distinct =>
    if countsRows function args then pure (.text "number of rows")
    else match CallPhrase.ofFunction? function.toLower args.length distinct with
      | none => Draft.fail (.unsupported ("function " ++ function))
      | some phrase => do
        let args ← Draft.sequence (draftsOfExprs s q args)
        pure (phrase.label args)
  | .nested inner => do
    let label ← inner.draft s q
    pure (if inner.isArithmetic then label.parenthesized else label)
  | .wildcard => Draft.fail (.unsupported Expr.wildcard.form)
termination_by structural e => e

def draftsOfExprs (s : Settings) (q : Qualifiers) : List Expr → List (Draft Label)
  | [] => []
  | e :: es => e.draft s q :: draftsOfExprs s q es
termination_by structural es => es

def draftOfOption (s : Settings) (q : Qualifiers) : Option Expr → Option (Draft Label)
  | none => none
  | some e => some (e.draft s q)
termination_by structural e => e

/-- Translates the conjuncts of an expression whose own draft is `whole`. -/
def Expr.conjunctDrafts (s : Settings) (whole : Draft Label) : Expr → List (Expr × Draft Label)
  | .binary l .and r =>
    l.conjunctDrafts s (l.draft s .kept) ++ r.conjunctDrafts s (r.draft s .kept)
  | .nested (.binary l .and r) =>
    l.conjunctDrafts s (l.draft s .kept) ++ r.conjunctDrafts s (r.draft s .kept)
  | e => [(e, whole)]
termination_by structural e => e

def conjunctDraftsOfOption (s : Settings) : Option Expr → List (Expr × Draft Label)
  | none => []
  | some e => e.conjunctDrafts s (e.draft s .kept)
termination_by structural e => e

/-- Translates an equality, with any parentheses around it. -/
def Expr.equalityDraft (s : Settings) : Expr → Draft Label
  | .nested inner => inner.equalityDraft s
  | .binary l .eq r => equalityLabel (l.draft s .kept) (r.draft s .kept)
  | e => notAnEquality e
termination_by structural e => e

/-- Translates the conjuncts of a join condition, each of them an equality. -/
def Expr.equalityDrafts (s : Settings) : Expr → List (Draft Label)
  | .binary l .and r => l.equalityDrafts s ++ r.equalityDrafts s
  | .nested (.binary l .and r) => l.equalityDrafts s ++ r.equalityDrafts s
  | .nested inner => [inner.equalityDraft s]
  | .binary l .eq r => [equalityLabel (l.draft s .kept) (r.draft s .kept)]
  | e => [notAnEquality e]
termination_by structural e => e

/-- Words which rows a join matches. -/
def JoinConstraint.draft (s : Settings) : JoinConstraint → Draft Label
  | .on condition => do
    let equalities ← Draft.sequence (condition.equalityDrafts s)
    pure (Label.text "- condition:" ++ Label.enumeration equalities)
  | .unconstrained => pure (.text "- condition: none (all combinations of rows)")
  | .shared _ => Draft.fail (.malformedJoin "USING instead of an equality")
  | .natural => Draft.fail (.malformedJoin "NATURAL instead of an equality")
termination_by structural c => c

def Relation.load (s : Settings) : Relation → Draft Label
  | .table path aliasName =>
    Draft.step (s.withAlias (.text ("Load data for table " ++ s.tableText path)) aliasName)
  | .derived query aliasName => do
    let rows ← query.draft s
    pure (s.withAlias rows aliasName)
termination_by structural r => r

/-- Loads a relation of a join and stores it under a name. -/
def Relation.store (s : Settings) : Relation → Name → Draft Label
  | .table path _, name =>
    Draft.step
      (.text ("Load table " ++ s.tableText path ++ " and store as alias " ++ s.nameText name))
  | .derived query _, name => do
    let rows ← query.draft s
    Draft.step ((Label.text "Store" ++ rows).before ("as alias " ++ s.nameText name))
termination_by structural r => r

/-- How a joined relation enters the chain of joins. -/
def Join.stage (s : Settings) : Join → Stage
  | ⟨relation, _, constraint⟩ => ⟨relation.store s, constraint.draft s⟩
termination_by structural j => j

def stagesOfJoins (s : Settings) : List Join → List Stage
  | [] => []
  | j :: js => j.stage s :: stagesOfJoins s js
termination_by structural js => js

def FromItem.stages (s : Settings) : FromItem → List Stage
  | ⟨relation, joins⟩ =>
    ⟨relation.store s, pure (.text "- condition: none (all combinations of rows)")⟩ ::
      stagesOfJoins s joins
termination_by structural i => i

def stagesOfItems (s : Settings) : List FromItem → List Stage
  | [] => []
  | i :: is => i.stages s ++ stagesOfItems s is
termination_by structural is => is

def FromItem.load (s : Settings) : FromItem → Draft Label
  | ⟨relation, _⟩ => relation.load s
termination_by structural i => i

def loadFirst (s : Settings) : List FromItem → Option (Draft Label)
  | [] => none
  | i :: _ => some (i.load s)
termination_by structural is => is

def SelectItem.draft (s : Settings) : SelectItem → Draft Label
  | .expr value aliasName => do
    let label ← value.draft s .kept
    pure (s.withAlias label aliasName)
  | .all => pure (.text "all columns")
  | .allOf table => pure (.text ("all columns of " ++ s.nameText table))
termination_by structural i => i

def draftsOfItems (s : Settings) : List SelectItem → List (Draft Label)
  | [] => []
  | i :: is => i.draft s :: draftsOfItems s is
termination_by structural is => is

def OrderItem.draft (s : Settings) (q : Qualifiers) : OrderItem → Draft Label
  | ⟨key, descending⟩ => do
    let key ← key.draft s q
    pure (key.before (if descending then "(descending)" else "(ascending)"))
termination_by structural i => i

def draftsOfOrder (s : Settings) (q : Qualifiers) : List OrderItem → List (Draft Label)
  | [] => []
  | i :: is => i.draft s q :: draftsOfOrder s q is
termination_by structural is => is

/-- Translates a SELECT block, arranged by the row clauses of its query. -/
def Select.draft (s : Settings) (rows : Qualifiers → RowClauses) : Select → Draft Label
  | ⟨distinct, projection, sources, condition, groupBy, having⟩ =>
    if 1 < (sources.flatMap (·.relations)).length then
      Draft.selectJoin sources (stagesOfItems s sources) (conjunctDraftsOfOption s condition)
        ⟨draftsOfExprs s .dropped groupBy, draftOfOption s .dropped having⟩ (rows .dropped)
        (draftsOfItems s projection) distinct
    else
      Draft.selectSingle (loadFirst s sources) (draftOfOption s .kept condition)
        ⟨draftsOfExprs s .kept groupBy, draftOfOption s .kept having⟩ (rows .kept)
        (draftsOfItems s projection) distinct
termination_by structural b => b

/-- Translates what a query selects from; row clauses that follow a join drop qualifiers. -/
def QueryBody.draft (s : Settings) (rows : Qualifiers → RowClauses) : QueryBody → Draft Label
  | .select block => block.draft s rows
  | .setOperation op all left right => do
    let left ← left.draft s
    let right ← right.draft s
    let combined ← Draft.combine op all left right
    (rows .kept).apply combined
termination_by structural b => b

def Query.draft (s : Settings) : Query → Draft Label
  | ⟨body, orderBy, limit, offset⟩ =>
    body.draft s fun q =>
      ⟨draftsOfOrder s q orderBy, draftOfOption s q offset, draftOfOption s q limit⟩
termination_by structural q => q

end

/-- Parentheses are shown around arithmetic only. -/
theorem Expr.draft_nested {s : Settings} {q : Qualifiers} {e : Expr} (h : e.isArithmetic = false) :
    (nested e).draft s q = e.draft s q := by
  show (do
    let label ← e.draft s q
    pure (if e.isArithmetic then label.parenthesized else label)) = _
  simp [h]

/-! ## Drafts of lists -/

section

variable (s : Settings)

theorem draftsOfExprs_eq_map (q : Qualifiers) (es : List Expr) :
    draftsOfExprs s q es = es.map (Expr.draft s q) := by
  induction es with
  | nil => rfl
  | cons e es ih => simp [draftsOfExprs, ih]

theorem draftsOfExprs_map {s s' : Settings} {q q' : Qualifiers} {g : Expr → Expr}
    {es : List Expr} (h : ∀ e ∈ es, (g e).draft s q = e.draft s' q') :
    draftsOfExprs s q (es.map g) = draftsOfExprs s' q' es := by
  rw [draftsOfExprs_eq_map, draftsOfExprs_eq_map, List.map_map]
  exact List.map_congr_left h

theorem draftOfOption_eq_map (q : Qualifiers) (e : Option Expr) :
    draftOfOption s q e = e.map (Expr.draft s q) := by
  cases e <;> rfl

theorem forall_draftsOfExprs {q : Qualifiers} {es : List Expr} {p : Draft Label → Prop}
    (h : ∀ e ∈ es, p (e.draft s q)) : ∀ d ∈ draftsOfExprs s q es, p d := by
  intro d hd
  rw [draftsOfExprs_eq_map] at hd
  obtain ⟨e, he, rfl⟩ := List.mem_map.mp hd
  exact h e he

theorem forall_draftOfOption {q : Qualifiers} {e : Option Expr} {p : Draft Label → Prop}
    (h : ∀ x ∈ e, p (x.draft s q)) : ∀ d ∈ draftOfOption s q e, p d := by
  intro d hd
  cases e with
  | none => cases hd
  | some x =>
    cases hd
    exact h x rfl

theorem draftsOfItems_eq_map (items : List SelectItem) :
    draftsOfItems s items = items.map (SelectItem.draft s) := by
  induction items with
  | nil => rfl
  | cons i is ih => simp [draftsOfItems, ih]

theorem draftsOfOrder_eq_map (q : Qualifiers) (items : List OrderItem) :
    draftsOfOrder s q items = items.map (OrderItem.draft s q) := by
  induction items with
  | nil => rfl
  | cons i is ih => simp [draftsOfOrder, ih]

/-- Every conjunct is translated as it would be on its own. -/
theorem Expr.conjunctDrafts_eq_map (e : Expr) :
    e.conjunctDrafts s (e.draft s .kept) = e.conjuncts.map fun c => (c, c.draft s .kept) := by
  fun_induction conjuncts e with
  | case1 l r ihl ihr => simp only [conjunctDrafts, ihl, ihr, List.map_append]
  | case2 l r ihl ihr => simp only [conjunctDrafts, ihl, ihr, List.map_append]
  | case3 e h1 h2 =>
    rw [conjunctDrafts.eq_3]
    · rfl
    · exact h1
    · exact h2

theorem conjunctDraftsOfOption_eq (e : Option Expr) :
    conjunctDraftsOfOption s e =
      (e.elim [] Expr.conjuncts).map fun c => (c, c.draft s .kept) := by
  cases e with
  | none => rfl
  | some e => exact e.conjunctDrafts_eq_map s

theorem Expr.equalityDraft_eq (e : Expr) :
    e.equalityDraft s = match e.withoutParens with
      | .binary l .eq r => equalityLabel (l.draft s .kept) (r.draft s .kept)
      | e => notAnEquality e := by
  fun_induction withoutParens e with
  | case1 e ih => rw [equalityDraft, ih]
  | case2 e h =>
    unfold equalityDraft
    split <;> simp_all

theorem Expr.equalityDrafts_eq_map (e : Expr) :
    e.equalityDrafts s = e.conjuncts.map (equalityDraft s) := by
  fun_induction conjuncts e with
  | case1 l r ihl ihr => simp only [equalityDrafts, ihl, ihr, List.map_append]
  | case2 l r ihl ihr => simp only [equalityDrafts, ihl, ihr, List.map_append]
  | case3 e h1 h2 =>
    unfold equalityDrafts
    split <;> simp_all [equalityDraft]

/-- What holds of equalities of the sides in a join condition, and of its failures, holds of all
drafts of the condition. -/
theorem Expr.forall_equalityDrafts {e : Expr} {p : Draft Label → Prop}
    (h : ∀ c ∈ e.conjuncts, ∀ l r, c.withoutParens = .binary l .eq r →
      p (equalityLabel (l.draft s .kept) (r.draft s .kept)))
    (hfail : ∀ found, p (notAnEquality found)) : ∀ d ∈ e.equalityDrafts s, p d := by
  intro d hd
  rw [Expr.equalityDrafts_eq_map] at hd
  obtain ⟨c, hc, rfl⟩ := List.mem_map.mp hd
  rw [Expr.equalityDraft_eq]
  split
  · rename_i l r hb
    exact h c hc l r hb
  · exact hfail _

theorem stagesOfJoins_eq_map (joins : List Join) :
    stagesOfJoins s joins = joins.map (Join.stage s) := by
  induction joins with
  | nil => rfl
  | cons j js ih => simp [stagesOfJoins, ih]

/-- A stage is made of the relation and the constraint of its link: to word a comma is to word a
join without a constraint. -/
theorem stagesOfItems_eq_map (items : List FromItem) :
    stagesOfItems s items =
      (Source.links items).map fun link => ⟨link.1.store s, link.2.2.draft s⟩ := by
  induction items with
  | nil => rfl
  | cons item items ih =>
    obtain ⟨relation, joins⟩ := item
    simp only [stagesOfItems, FromItem.stages, stagesOfJoins_eq_map, ih, Source.links,
      Source.linksOfItem, List.flatMap_cons, List.map_append, List.map_cons, List.map_map,
      JoinConstraint.draft]
    congr 2
    exact List.map_congr_left fun j _ => by cases j; rfl

theorem loadFirst_eq_map (items : List FromItem) :
    loadFirst s items = (Source.links items).head?.map fun link => link.1.load s := by
  cases items with
  | nil => rfl
  | cons i is => cases i; rfl

theorem Select.draft_eq (rows : Qualifiers → RowClauses) (b : Select) :
    b.draft s rows =
      if 1 < b.relations.length then
        Draft.selectJoin b.sources
          ((Source.links b.sources).map fun link => ⟨link.1.store s, link.2.2.draft s⟩)
          ((b.condition.elim [] Expr.conjuncts).map fun c => (c, c.draft s .kept))
          ⟨draftsOfExprs s .dropped b.groupBy, draftOfOption s .dropped b.having⟩ (rows .dropped)
          (b.projection.map (SelectItem.draft s)) b.distinct
      else
        Draft.selectSingle ((Source.links b.sources).head?.map fun link => link.1.load s)
          (b.condition.map (Expr.draft s .kept))
          ⟨draftsOfExprs s .kept b.groupBy, draftOfOption s .kept b.having⟩ (rows .kept)
          (b.projection.map (SelectItem.draft s)) b.distinct := by
  cases b
  simp only [Select.draft, Select.relations, stagesOfItems_eq_map, conjunctDraftsOfOption_eq,
    draftsOfItems_eq_map, loadFirst_eq_map, draftOfOption_eq_map]

end

end Sql

end QuerySteps
