import QuerySteps.Planner
import QuerySteps.Proofs.Text.AsciiCase
import QuerySteps.Proofs.Translate.Renaming

/-!
# Folding the case of names

Without regard to case, a plan depends on unquoted names only up to the case of ASCII letters. Names
are worded in the full Unicode lower case and compared in the ASCII one. The two agree, since the
lower case of a text is that of its ASCII lower case, also next to a capital sigma
(`Text.lowercase_toLower`).
-/

namespace QuerySteps

open Sql

/-! ## Names -/

namespace Sql

def Name.folded (n : Name) : Name :=
  { n with value := n.value.toLower }

/-- The query with the ASCII letters of all names in lower case. -/
def Query.folded (query : Query) : Query :=
  query.rename Name.folded

/-- No name of the query is quoted. -/
def Query.Unquoted (query : Query) : Prop :=
  ∀ piece ∈ query.pieces, piece.Names fun n => n.quoted = false

end Sql

/-- Without regard to case, unquoted names are worded and compared as their folded forms are. -/
theorem rewording_folded {s : Settings} (hcase : s.caseSensitive = false) :
    Rewording (fun n => n.quoted = false) Name.folded s s where
  nameText n _ := by
    simp only [Settings.nameText, hcase, Name.folded, Text.lowercase_toLower, Bool.false_eq_true,
      if_false]
  denotes m n hm hn := by
    simp only [Name.denotes, Name.reads, Name.folded, hm, hn, Text.toLower_idem, Bool.or_self,
      Bool.false_eq_true, if_false]

/-- Without regard to case, queries whose names are unquoted and differ in the case of ASCII letters
only have the same plan, or fail with the same error. -/
theorem Planner.planQuery_eq_of_folded_eq (p : Planner) (hcase : p.settings.caseSensitive = false)
    {query query' : Query} (hquery : query.Unquoted) (hquery' : query'.Unquoted)
    (h : query.folded = query'.folded) : p.planQuery query = p.planQuery query' := by
  have hfold := rewording_folded hcase
  have hdraft : query.draft p.settings = query'.draft p.settings := by
    rw [← hfold.draft_rename hquery, ← hfold.draft_rename hquery']
    exact congrArg (Query.draft p.settings) h
  unfold planQuery steps draft
  rw [hdraft]

/-- `SELECT x FROM a, b WHERE table.column = 1`. -/
def filteredIn (table column : String) : Query :=
  .ofSelect
    { projection := [.expr (.column { name := ⟨"x", false⟩ }) none]
      sources := [{ relation := .table [⟨"a", false⟩] none },
        { relation := .table [⟨"b", false⟩] none }]
      condition := some (.binary (.column { table := some ⟨table, false⟩, name := ⟨column, false⟩ })
        .eq (.literal (.number "1"))) }

theorem Planner.planQuery_eq_of_folded_eq_filteredIn :
    (filteredIn "B" "Y").Unquoted ∧ (filteredIn "b" "y").Unquoted ∧
    (filteredIn "B" "Y").folded = (filteredIn "b" "y").folded ∧
    Planner.planQuery { settings := { caseSensitive := false } } (filteredIn "B" "Y") =
      Planner.planQuery { settings := { caseSensitive := false } } (filteredIn "b" "y") := by
  have hunquoted (table column : String) : (filteredIn table column).Unquoted := by
    simp [Query.Unquoted, filteredIn, Query.ofSelect, Query.pieces, QueryBody.pieces, Select.pieces,
      piecesOfItems, SelectItem.pieces, piecesOfSources, FromItem.pieces, piecesOfJoins,
      Relation.pieces, piecesOfOption, piecesOfExprs, piecesOfOrder, piecesOfAlias, Expr.pieces,
      Column.pieces, Piece.Names]
  have hfolded : (filteredIn "B" "Y").folded = (filteredIn "b" "y").folded := by
    have htable : "B".toLower = "b".toLower := Text.toLower_eq_toLower_iff.mpr (by decide)
    have hcolumn : "Y".toLower = "y".toLower := Text.toLower_eq_toLower_iff.mpr (by decide)
    simp only [Query.folded, filteredIn, Query.ofSelect, Query.rename, QueryBody.rename,
      Select.rename, renameOption, Expr.rename, Column.rename, Option.map_some, Name.folded, htable,
      hcolumn]
  exact ⟨hunquoted _ _, hunquoted _ _, hfolded,
    Planner.planQuery_eq_of_folded_eq _ rfl (hunquoted _ _) (hunquoted _ _) hfolded⟩

end QuerySteps
