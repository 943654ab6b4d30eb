import QuerySteps.Proofs.Syntax.Pieces
import QuerySteps.Proofs.Syntax.Renaming
import QuerySteps.Proofs.Translate.Sources

/-!
# Translating a renamed query

The steps of a query depend on its names in two ways only: on how a name is worded, and on whether
two names denote the same thing, which decides where a condition is filtered. If the renamed names
are worded under some settings as the names themselves are under others, and denote one another as
before, the renamed query is translated to the same steps (`Rewording.draft_rename`).
-/

namespace QuerySteps

open Sql

/-- The condition on the names among the pieces of a query. -/
def Sql.Piece.Names (ok : Name → Prop) : Piece → Prop
  | .name n => ok n
  | _ => True

/-- Names under `f` are worded by `s` as the names themselves are by `s'`, and they denote one
another as those do. -/
structure Rewording (ok : Name → Prop) (f : Name → Name) (s s' : Settings) : Prop where
  nameText : ∀ n, ok n → s.nameText (f n) = s'.nameText n
  denotes : ∀ m n, ok m → ok n → (f m).denotes (f n) = m.denotes n

namespace Rewording

variable {ok : Name → Prop} {f : Name → Name} {s s' : Settings}

/-! ## Names -/

theorem qualifierText (h : Rewording ok f s s') (lead : String) {n : Option Name}
    (hn : ∀ x ∈ n, ok x) : s.qualifierText lead (n.map f) = s'.qualifierText lead n := by
  cases n with
  | none => rfl
  | some x => exact congrArg (lead ++ ·) (h.nameText x (hn x rfl))

theorem columnText (h : Rewording ok f s s') {c : Column} (hc : ∀ p ∈ c.pieces, p.Names ok) :
    s.columnText (c.rename f) = s'.columnText c := by
  have hname : ok c.name := hc (.name c.name) (List.mem_cons_self ..)
  have htable : ∀ x ∈ c.table, ok x := fun x hx =>
    hc (.name x) (by simp [Column.pieces, Option.mem_def.mp hx])
  have hschema : ∀ x ∈ c.schema, ok x := fun x hx =>
    hc (.name x) (by simp [Column.pieces, Option.mem_def.mp hx])
  show s.nameText (f c.name) ++ s.qualifierText " in " (c.table.map f) ++
    s.qualifierText " in schema " (c.schema.map f) = _
  rw [h.nameText c.name hname, h.qualifierText _ htable, h.qualifierText _ hschema]
  rfl

theorem shownText (h : Rewording ok f s s') (q : Qualifiers) {c : Column}
    (hc : ∀ p ∈ c.pieces, p.Names ok) :
    s.columnText (q.column (c.rename f)) = s'.columnText (q.column c) := by
  cases q with
  | kept => exact h.columnText hc
  | dropped =>
    refine h.columnText (c := c.bare) fun p hp => hc p ?_
    obtain rfl : p = .name c.name := by simpa [Column.pieces, Column.bare] using hp
    exact List.mem_cons_self ..

theorem tableText (h : Rewording ok f s s') {path : List Name} (hpath : ∀ n ∈ path, ok n) :
    s.tableText (path.map f) = s'.tableText path := by
  have hqualifiers : ((path.dropLast).map f).map s.nameText = path.dropLast.map s'.nameText := by
    rw [List.map_map]
    exact List.map_congr_left fun n hn =>
      h.nameText n (hpath n ((List.dropLast_sublist path).subset hn))
  unfold Settings.tableText
  rw [List.getLast?_map, ← List.map_dropLast]
  cases hlast : path.getLast? with
  | none => rfl
  | some table =>
    have htable := h.nameText table (hpath table (List.mem_of_getLast? hlast))
    cases hdrop : path.dropLast with
    | nil => exact htable
    | cons n rest =>
      rw [hdrop] at hqualifiers
      simp only [Option.map_some, htable, List.map_cons] at hqualifiers ⊢
      rw [hqualifiers]

theorem withAlias (h : Rewording ok f s s') (label : Label) {aliasName : Option Name}
    (hn : ∀ x ∈ aliasName, ok x) :
    s.withAlias label (aliasName.map f) = s'.withAlias label aliasName := by
  cases aliasName with
  | none => rfl
  | some x =>
    show label.before ("(aka. " ++ s.nameText (f x) ++ ")") = _
    rw [h.nameText x (hn x rfl)]
    rfl

end Rewording

/-! ## Parts of a query -/

/-- The renamed expression is translated under `s` as the expression is under `s'`. -/
def Sql.Expr.Follows (f : Name → Name) (s s' : Settings) (e : Expr) : Prop :=
  ∀ q, (e.rename f).draft s q = e.draft s' q

/-- The renamed query is translated under `s` as the query is under `s'`. -/
def Sql.Query.Follows (f : Name → Name) (s s' : Settings) (query : Query) : Prop :=
  (query.rename f).draft s = query.draft s'

section

variable {f : Name → Name} {s s' : Settings} {q : Qualifiers}

theorem draftsOfExprs_rename {es : List Expr} (h : ∀ e ∈ es, e.Follows f s s') :
    draftsOfExprs s q (renameExprs f es) = draftsOfExprs s' q es := by
  rw [renameExprs_eq_map]
  exact draftsOfExprs_map fun e he => h e he q

theorem draftOfOption_rename {e : Option Expr} (h : ∀ x ∈ e, x.Follows f s s') :
    draftOfOption s q (renameOption f e) = draftOfOption s' q e := by
  cases e with
  | none => rfl
  | some x => exact congrArg some (h x rfl q)

theorem draftsOfOrder_rename {items : List OrderItem}
    (h : ∀ item ∈ items, item.key.Follows f s s') :
    draftsOfOrder s q (renameOrder f items) = draftsOfOrder s' q items := by
  rw [draftsOfOrder_eq_map, draftsOfOrder_eq_map, renameOrder_eq_map, List.map_map]
  refine List.map_congr_left fun item hi => ?_
  obtain ⟨key, descending⟩ := item
  have hkey := h _ hi q
  show (do let key ← (key.rename f).draft s q; pure _) = (do let key ← key.draft s' q; pure _)
  rw [hkey]

theorem equalityDraft_rename {c : Expr}
    (h : ∀ l op r, c.withoutParens = .binary l op r → l.Follows f s s' ∧ r.Follows f s s') :
    (c.rename f).equalityDraft s = c.equalityDraft s' := by
  rw [Expr.equalityDraft_eq, Expr.equalityDraft_eq, Expr.withoutParens_rename]
  generalize c.withoutParens = e at h
  cases e with
  | binary l op r =>
    obtain ⟨hl, hr⟩ := h l op r rfl
    cases op with
    | eq =>
      show equalityLabel ((l.rename f).draft s .kept) ((r.rename f).draft s .kept) = _
      rw [hl, hr]
    | _ => rfl
  | _ => rfl

theorem constraint_rename {constraint : JoinConstraint}
    (h : ∀ e, constraint = .on e → ∀ c ∈ e.conjuncts, ∀ l op r,
      c.withoutParens = .binary l op r → l.Follows f s s' ∧ r.Follows f s s') :
    (constraint.rename f).draft s = constraint.draft s' := by
  cases constraint with
  | on e =>
    have hsame : (e.rename f).equalityDrafts s = e.equalityDrafts s' := by
      rw [Expr.equalityDrafts_eq_map, Expr.equalityDrafts_eq_map, Expr.conjuncts_rename,
        List.map_map]
      exact List.map_congr_left fun c hc => equalityDraft_rename (h e rfl c hc)
    show (do let equalities ← Draft.sequence ((e.rename f).equalityDrafts s); _) = _
    rw [hsame]
    rfl
  | shared columns => rfl
  | natural => rfl
  | unconstrained => rfl

end

def Source.rename (f : Name → Name) (source : Source) : Source :=
  { source with
    name := f source.name
    relation := source.relation.rename f
    constraint := source.constraint.rename f }

theorem Source.ofItems_renameSources {f : Name → Name} (items : List FromItem) :
    ofItems (renameSources f items) = (ofItems items).map (List.map (rename f)) := by
  refine ofItems_map (links_renameSources items) (fun _ => rfl) fun l pushable => ?_
  unfold ofLink
  rw [Relation.exposedName?_rename]
  cases l.1.exposedName? <;> rfl

namespace Rewording

open Source

variable {ok : Name → Prop} {f : Name → Name} {s s' : Settings}

theorem draftsOfItems_rename (h : Rewording ok f s s') {items : List SelectItem}
    (hnames : ∀ item ∈ items, ∀ p ∈ item.pieces, p.Names ok)
    (hvalues : ∀ value aliasName, .expr value aliasName ∈ items → value.Follows f s s') :
    (renameItems f items).map (SelectItem.draft s) = items.map (SelectItem.draft s') := by
  rw [renameItems_eq_map, List.map_map]
  refine List.map_congr_left fun item hi => ?_
  cases item with
  | expr value aliasName =>
    have halias : ∀ x ∈ aliasName, ok x := fun x hx => hnames _ hi (.name x) (by
      simp [SelectItem.pieces, piecesOfAlias, Option.mem_def.mp hx])
    have hvalue := hvalues value aliasName hi .kept
    show (do let label ← (value.rename f).draft s .kept; pure (s.withAlias label _)) =
      (do let label ← value.draft s' .kept; pure (s'.withAlias label aliasName))
    simp only [hvalue, h.withAlias _ halias]
  | all => rfl
  | allOf table =>
    have htable : ok table := hnames _ hi (.name table) (List.mem_singleton.mpr rfl)
    show pure (Label.text ("all columns of " ++ s.nameText (f table))) = _
    rw [h.nameText table htable]
    rfl

theorem names_table {path : List Name} {aliasName : Option Name}
    (hr : ∀ p ∈ (Relation.table path aliasName).pieces, p.Names ok) :
    (∀ n ∈ path, ok n) ∧ ∀ x ∈ aliasName, ok x :=
  ⟨fun n hn => hr (.name n) (List.mem_append_left _ (List.mem_map_of_mem hn)),
    fun x hx => hr (.name x) (by simp [Relation.pieces, piecesOfAlias, Option.mem_def.mp hx])⟩

theorem load_rename (h : Rewording ok f s s') {relation : Relation}
    (hr : ∀ p ∈ relation.pieces, p.Names ok)
    (hquery : ∀ query aliasName, relation = .derived query aliasName → query.Follows f s s') :
    (relation.rename f).load s = relation.load s' := by
  cases relation with
  | table path aliasName =>
    obtain ⟨hpath, halias⟩ := names_table hr
    show Draft.step (s.withAlias (.text ("Load data for table " ++ s.tableText (path.map f))) _) = _
    rw [h.tableText hpath, h.withAlias _ halias]
    rfl
  | derived query aliasName =>
    have halias : ∀ x ∈ aliasName, ok x := fun x hx => hr (.name x) (by
      simp [Relation.pieces, piecesOfAlias, Option.mem_def.mp hx])
    have hrows : (query.rename f).draft s = query.draft s' := hquery query aliasName rfl
    show (do let rows ← (query.rename f).draft s; pure (s.withAlias rows _)) =
      (do let rows ← query.draft s'; pure (s'.withAlias rows aliasName))
    simp only [hrows, h.withAlias _ halias]

theorem store_rename (h : Rewording ok f s s') {relation : Relation}
    (hr : ∀ p ∈ relation.pieces, p.Names ok)
    (hquery : ∀ query aliasName, relation = .derived query aliasName → query.Follows f s s')
    {name : Name} (hname : ok name) :
    (relation.rename f).store s (f name) = relation.store s' name := by
  cases relation with
  | table path aliasName =>
    obtain ⟨hpath, -⟩ := names_table hr
    show Draft.step (.text ("Load table " ++ s.tableText (path.map f) ++ " and store as alias " ++
      s.nameText (f name))) = _
    rw [h.tableText hpath, h.nameText name hname]
    rfl
  | derived query aliasName =>
    have hrows : (query.rename f).draft s = query.draft s' := hquery query aliasName rfl
    show (do
      let rows ← (query.rename f).draft s
      Draft.step ((Label.text "Store" ++ rows).before ("as alias " ++ s.nameText (f name)))) = _
    rw [hrows, h.nameText name hname]
    rfl

/-- A condition is pushed to the place that it is pushed to under the other names. -/
theorem pushTarget?_rename (h : Rewording ok f s s') {sources : List Source} {c : Expr}
    (hsources : ∀ source ∈ sources, ok source.name) (hc : ∀ p ∈ c.pieces, p.Names ok) :
    pushTarget? (sources.map (rename f)) (c.rename f) = pushTarget? sources c := by
  refine pushTarget?_map (rename f) (fun _ => rfl) c.columns_rename fun column hcolumn => ?_
  have hpieces := Expr.pieces_subset_of_mem_columns hcolumn
  cases htable : column.table with
  | none => simp [ofColumn?, Column.rename, htable]
  | some qualifier =>
    have hqualifier : ok qualifier :=
      hc (.name qualifier) (hpieces (by simp [Column.pieces, htable]))
    simp only [ofColumn?, Column.rename, htable, Option.map_some, Option.bind_some]
    exact indexOf?_map (rename f) fun source hs => h.denotes _ _ (hsources source hs) hqualifier

/-! ## Blocks and queries -/

theorem stores_rename (h : Rewording ok f s s') {ls : List Link} {sources : List Source}
    (hlinks : sources.map link = ls)
    (hexposed : ∀ source ∈ sources, source.relation.exposedName? = some source.name)
    (hnames : ∀ l ∈ ls, ∀ p ∈ l.1.pieces, p.Names ok)
    (hqueries : ∀ l ∈ ls, ∀ query aliasName, l.1 = .derived query aliasName →
      query.Follows f s s') :
    (sources.map (rename f)).zipWith (fun source stage => stage.store source.name)
        (ls.map fun l => (⟨(l.1.rename f).store s, (l.2.2.rename f).draft s⟩ : Stage)) =
      sources.zipWith (fun source stage => stage.store source.name)
        (ls.map fun l => (⟨l.1.store s', l.2.2.draft s'⟩ : Stage)) := by
  subst hlinks
  rw [List.map_map, List.map_map, List.zipWith_map, List.zipWith_map_right, List.zipWith_self,
    List.zipWith_self]
  refine List.map_congr_left fun source hs => ?_
  have hl : source.link ∈ sources.map link := List.mem_map_of_mem hs
  have hname : ok source.name :=
    hnames _ hl _ (Relation.name_mem_pieces (hexposed source hs))
  exact h.store_rename (hnames _ hl) (hqueries _ hl) hname

theorem firstLoad_rename (h : Rewording ok f s s') {items : List FromItem}
    (hnames : ∀ l ∈ links items, ∀ p ∈ l.1.pieces, p.Names ok)
    (hqueries : ∀ l ∈ links items, ∀ query aliasName, l.1 = .derived query aliasName →
      query.Follows f s s') :
    ((links (renameSources f items)).head?.map fun l => l.1.load s) =
      (links items).head?.map fun l => l.1.load s' := by
  rw [links_renameSources]
  cases hlinks : links items with
  | nil => rfl
  | cons l rest =>
    have hl : l ∈ links items := hlinks ▸ List.mem_cons_self ..
    exact congrArg some (h.load_rename (hnames l hl) (hqueries l hl))

theorem select_rename (h : Rewording ok f s s') {b : Select}
    (hnames : ∀ p ∈ b.pieces, p.Names ok)
    (hparts : b.Parts (Expr.Follows f s s') (Query.Follows f s s'))
    (rows : Qualifiers → RowClauses) : (b.rename f).draft s rows = b.draft s' rows := by
  have hlink {l : Link} (hl : l ∈ links b.sources) : ∀ p ∈ l.1.pieces, p.Names ok :=
    fun p hp => hnames p ((Select.pieces_of_link hl).1 hp)
  have hitems : (renameItems f b.projection).map (SelectItem.draft s) =
      b.projection.map (SelectItem.draft s') :=
    h.draftsOfItems_rename (fun item hi p hp => hnames p (Select.pieces_of_item hi hp)) hparts.items
  have hkeys (q : Qualifiers) := draftsOfExprs_rename (q := q) hparts.keys
  have hhaving (q : Qualifiers) := draftOfOption_rename (q := q) hparts.having
  have hlength : (b.rename f).relations.length = b.relations.length := b.length_relations_rename
  rw [Select.draft_eq, Select.draft_eq, hlength, Select.rename_eq]
  simp only [hitems, hkeys, hhaving]
  by_cases hjoin : 1 < b.relations.length
  · rw [if_pos hjoin, if_pos hjoin]
    have hmatchings :
        ((links b.sources).map fun l =>
          (⟨(l.1.rename f).store s, (l.2.2.rename f).draft s⟩ : Stage)).map (·.matching) =
        ((links b.sources).map fun l =>
          (⟨l.1.store s', l.2.2.draft s'⟩ : Stage)).map (·.matching) := by
      rw [List.map_map, List.map_map]
      exact List.map_congr_left fun l hl => constraint_rename (hparts.matching l hl)
    rw [Expr.conjuncts_renameOption, links_renameSources, List.map_map, List.map_map]
    refine Draft.selectJoin_map (rename f) (fun _ => rfl) (ofItems_renameSources _) ?_
      hmatchings ?_ (fun c hc => hparts.conjuncts c hc .kept) _ _ _ _
    · intro sources hsources
      exact h.stores_rename (map_ofItems hsources).1 (exposedName?_of_mem_ofItems hsources)
        (fun l hl => hlink hl) hparts.derived
    · intro sources hsources c hc
      refine h.pushTarget?_rename (fun source hs => ?_) fun p hp =>
        hnames p (b.parts_pieces.conjuncts c hc hp)
      have hl : source.link ∈ links b.sources :=
        (map_ofItems hsources).1 ▸ List.mem_map_of_mem hs
      exact hlink hl _ (Relation.name_mem_pieces (exposedName?_of_mem_ofItems hsources source hs))
  · rw [if_neg hjoin, if_neg hjoin]
    have hwhere : (renameOption f b.condition).map (Expr.draft s .kept) =
        b.condition.map (Expr.draft s' .kept) := by
      cases hb : b.condition with
      | none => rfl
      | some e => exact congrArg some ((hparts.condition e hb).1 .kept)
    rw [h.firstLoad_rename (fun l hl => hlink hl) hparts.derived, hwhere]

/-- To rename the parts of an expression or a query is to word the parts differently, constructor by
constructor. -/
theorem hereditary_follows (h : Rewording ok f s s') :
    Hereditary (fun e => (∀ p ∈ e.pieces, p.Names ok) → e.Follows f s s')
      fun query => (∀ p ∈ query.pieces, p.Names ok) → query.Follows f s s' where
  column c hc q := by
    show pure (Label.text (s.columnText (q.column (c.rename f)))) = _
    rw [h.shownText q hc]
    rfl
  literal v _ q := rfl
  binary l op r hl hr hp q := by
    obtain ⟨hpl, hpr⟩ := List.forall_mem_append.mp hp
    simp only [Expr.rename, Expr.draft, hl hpl q, hr hpr q]
  unary op e he hp q := by simp only [Expr.rename, Expr.draft, he hp q]
  isValue e v n he hp q := by
    simp only [Expr.rename, Expr.draft, he (List.forall_mem_cons.mp hp).2 q]
  between e low high n he hlow hhigh hp q := by
    obtain ⟨hpe, hp⟩ := List.forall_mem_append.mp hp
    obtain ⟨hplow, hphigh⟩ := List.forall_mem_append.mp hp
    simp only [Expr.rename, Expr.draft, he hpe q, hlow hplow q, hhigh hphigh q]
  inList e items n he hitems hp q := by
    obtain ⟨hpe, hpitems⟩ := List.forall_mem_append.mp hp
    have hdrafts := draftsOfExprs_rename (q := q) fun i hi => hitems i hi fun p hpi =>
      hpitems p (by rw [piecesOfExprs_eq]; exact List.mem_flatMap.mpr ⟨i, hi, hpi⟩)
    simp only [Expr.rename, Expr.draft, he hpe q, hdrafts]
  inQuery e query n he hquery hp q := by
    obtain ⟨hpe, hpquery⟩ := List.forall_mem_append.mp hp
    have hrows : (query.rename f).draft s = query.draft s' := hquery hpquery
    simp only [Expr.rename, Expr.draft, he hpe q, hrows]
  existsQuery query n hquery hp q := by
    have hrows : (query.rename f).draft s = query.draft s' := hquery hp
    simp only [Expr.rename, Expr.draft, hrows]
  subquery query hquery hp q := hquery hp
  like e pattern n i he hpattern hp q := by
    obtain ⟨hpe, hppattern⟩ := List.forall_mem_append.mp hp
    simp only [Expr.rename, Expr.draft, he hpe q, hpattern hppattern q]
  call function args d hargs hp q := by
    have hdrafts := draftsOfExprs_rename (q := q) fun a ha => hargs a ha fun p hpa =>
      hp p (by rw [Expr.pieces, piecesOfExprs_eq]; exact List.mem_flatMap.mpr ⟨a, ha, hpa⟩)
    have hcounts : countsRows function (renameExprs f args) = countsRows function args := by
      rw [renameExprs_eq_map, Expr.countsRows_rename]
    have hlength : (renameExprs f args).length = args.length := by
      rw [renameExprs_eq_map, List.length_map]
    simp only [Expr.rename, Expr.draft, hcounts, hlength, hdrafts]
  nested e he hp q := by
    simp only [Expr.rename, Expr.draft, he hp q, Expr.isArithmetic_rename]
  wildcard _ _ := rfl
  select block orderBy limit offset hblock hrows hp := by
    have hrows := hrows.of_pieces hp
    have hpblock := (List.forall_mem_append.mp hp).1
    simp only [Query.Follows, Query.rename, Query.draft, QueryBody.rename, QueryBody.draft,
      draftsOfOrder_rename hrows.order, draftOfOption_rename hrows.offset,
      draftOfOption_rename hrows.limit]
    exact h.select_rename hpblock (hblock.of_pieces hpblock) _
  setOperation op all l r orderBy limit offset hl hr hrows hp := by
    have hrows := hrows.of_pieces hp
    obtain ⟨hpl, hpr⟩ := List.forall_mem_append.mp (List.forall_mem_append.mp hp).1
    have hleft : (l.rename f).draft s = l.draft s' := hl hpl
    have hright : (r.rename f).draft s = r.draft s' := hr hpr
    simp only [Query.Follows, Query.rename, Query.draft, QueryBody.rename, QueryBody.draft, hleft,
      hright, draftsOfOrder_rename hrows.order, draftOfOption_rename hrows.offset,
      draftOfOption_rename hrows.limit]

/-- A renamed query is translated to the steps of the query, worded as its names are. -/
theorem draft_rename (h : Rewording ok f s s') {query : Query}
    (hp : ∀ p ∈ query.pieces, p.Names ok) : (query.rename f).draft s = query.draft s' :=
  h.hereditary_follows.query query hp

end Rewording

end QuerySteps
