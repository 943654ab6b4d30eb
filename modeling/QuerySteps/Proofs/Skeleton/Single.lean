import QuerySteps.Proofs.DataFlow
import QuerySteps.Proofs.Readability.Filter
import QuerySteps.Proofs.Skeleton.Steps

/-!
# SELECTs over one relation step by step

Over at most one relation every step of the SELECT itself is an operation on the step before it. The
first one works on the relation of FROM, or on a single row where there is none. So the draft of the
SELECT is that of FROM, followed by a run of `Skeleton.lay` over the clauses
(`Skeleton.draft_single_lay`), and the laws of such runs are laws of the SELECT
(`Sql.Query.Pipeline`).
-/

namespace QuerySteps

open Sql

namespace Sql.Query

/-- The clauses after FROM that are present, and the output columns. -/
def clauses (q : Query) (b : Select) : List Operation :=
  b.condition.toList.map .filter ++ Operation.arrangement q b ++ [.columns b.projection] ++
    if b.distinct then [.unique] else []

end Sql.Query

namespace Skeleton

variable {s : Settings} {q : Query} {b : Select} {origin : Option Label} {done : Skeleton}

theorem input?_of_apply {ops : List Operation} (hne : ops ≠ []) {new : Skeleton}
    (hnew : new.roles = ops.map .apply) :
    (done ++ new).input? origin = some ((done ++ new).rows origin) := by
  obtain rfl | ⟨front, last, rfl⟩ := List.eq_nil_or_concat new
  · exact absurd (List.map_eq_nil_iff.mp hnew.symm) hne
  · obtain ⟨op, -, hop⟩ := exists_of_roles (e := last) hnew (by simp)
    rw [List.concat_eq_append, ← List.append_assoc, rows_concat, input?_concat, hop]
    rfl

theorem some_rows_lay {ops : List Operation} (hne : ops ≠ []) :
    some <$> rows origin <$> done.lay s .kept origin (ops.map .apply) =
      input? origin <$> done.lay s .kept origin (ops.map .apply) := by
  rw [← comp_map]
  exact map_lay_congr fun new hnew => (input?_of_apply hne hnew).symm

theorem filterSingle_lay (condition : Option Expr) :
    Draft.filterSingle (condition.map (Expr.draft s .kept)) (done.input? origin) =
      input? origin <$> done.lay s .kept origin ((condition.toList.map .filter).map .apply) := by
  cases condition with
  | none => simp [Draft.filterSingle, lay]
  | some e =>
    have hne : [Operation.filter e] ≠ [] := List.cons_ne_nil _ _
    calc Draft.filterSingle (some (e.draft s .kept)) (done.input? origin)
      _ = some <$> (do
            let condition ← e.draft s .kept
            Draft.step ((Label.text "Filter" ++ Draft.inputOr (done.input? origin)).before
              "using condition:" ++ condition)) := by simp [Draft.filterSingle]
      _ = some <$> rows origin <$> done.lay s .kept origin [.apply (.filter e)] :=
          congrArg (some <$> ·) (rows_lay (.filter e))
      _ = input? origin <$> done.lay s .kept origin [.apply (.filter e)] := some_rows_lay hne

theorem present_iff : ((⟨draftsOfExprs s .kept b.groupBy, draftOfOption s .kept b.having⟩ :
      GroupClauses).present || (q.rowClauses s).present) = true ↔
    Operation.arrangement q b ≠ [] := by
  simp only [GroupClauses.present, RowClauses.present, Query.rowClauses, draftsOfExprs_eq_map,
    draftsOfOrder_eq_map, draftOfOption_eq_map, List.isEmpty_map, Option.isSome_map,
    Operation.arrangement]
  cases b.groupBy <;> cases b.having <;> cases q.orderBy <;> cases q.offset <;> cases q.limit <;>
    simp

theorem arrangeSingle_lay :
    Draft.arrangeSingle ⟨draftsOfExprs s .kept b.groupBy, draftOfOption s .kept b.having⟩
      (q.rowClauses s) (done.input? origin) =
      input? origin <$> done.lay s .kept origin ((Operation.arrangement q b).map .apply) := by
  unfold Draft.arrangeSingle
  split
  · rename_i hpresent
    rw [← some_rows_lay (present_iff.mp hpresent), ← arrangement_lay]
    simp only [map_eq_pure_bind, bind_assoc]
    rfl
  · rename_i habsent
    have hnil : Operation.arrangement q b = [] := by
      by_contra hne
      exact habsent (present_iff.mpr hne)
    rw [hnil]
    simp [lay]

theorem columns_lay : (do
      let columns ← Draft.sequence (b.projection.map (SelectItem.draft s))
      let result ← Draft.createTable columns (done.input? origin)
      Draft.unique b.distinct result) = rows origin <$> done.lay s .kept origin
    (([Operation.columns b.projection] ++
      if b.distinct then [Operation.unique] else []).map .apply) := by
  have hcreate : (do
      let columns ← Draft.sequence (b.projection.map (SelectItem.draft s))
      Draft.createTable columns (done.input? origin)) =
      rows origin <$> done.lay s .kept origin [.apply (.columns b.projection)] := by
    refine .trans ?_ (rows_lay (.columns b.projection))
    simp only [Operation.part, Operation.sentence, bind_map_left]
    cases done.input? origin <;> rfl
  rw [← bind_assoc, hcreate, bind_map_left, List.map_append, lay_append, map_bind]
  exact bind_congr fun created => unique_lay

/-- A SELECT over at most one relation lays its clauses on the relation. -/
theorem draft_single_lay (hb : q.body = .select b) (hone : b.relations.length ≤ 1) :
    q.draft s = (do
      let input ← q.load s
      rows input <$> lay s .kept input [] ((q.clauses b).map .apply)) := by
  rw [Query.draft_single s hb hone]
  refine bind_congr fun input => ?_
  have hfilter : Draft.filterSingle (b.condition.map (Expr.draft s .kept)) (input? input []) =
      input? input <$> lay s .kept input [] ((b.condition.toList.map .filter).map .apply) :=
    filterSingle_lay b.condition
  have hnothing : input? input [] = input := rfl
  rw [hnothing] at hfilter
  rw [hfilter, bind_map_left]
  simp only [arrangeSingle_lay, columns_lay, Query.clauses, List.append_assoc, List.map_append,
    lay_append, bind_map_left, map_bind]

end Skeleton

/-- What the relations of FROM, at most one, give to the first clause: the step that loads a table,
or the last step of a derived table. -/
inductive Loaded (s : Settings) (first : StepId) :
    List Relation → Drafted (Option Label) → Prop where
  | nothing : Loaded s first [] ⟨none, [], first⟩
  | table (path : List Name) (aliasName : Option Name) : Loaded s first [.table path aliasName]
      ⟨some (.step first), [⟨first,
        (s.withAlias (.text ("Load data for table " ++ s.tableText path)) aliasName).parts⟩],
        first + 1⟩
  | derived {query : Query} (aliasName : Option Name) {init : List Step} {last : Step}
      {next : StepId} (h : query.draft s first = .ok ⟨.step last.id, init ++ [last], next⟩) :
      Loaded s first [.derived query aliasName]
        ⟨some (s.withAlias (.step last.id) aliasName), init ++ [last], next⟩

theorem Loaded.value_eq_none {s : Settings} {first : StepId} {relations : List Relation}
    {loaded : Drafted (Option Label)} (h : Loaded s first relations loaded)
    (hnone : relations = []) : loaded.value = none := by
  cases h with
  | nothing => rfl
  | _ => cases hnone

namespace Operation

variable {op : Operation} {part : Label}

theorem refs_subset_sentence (op : Operation) (input part : Label) :
    input.refs ⊆ (op.sentence (some input) part).refs := by
  cases op <;> simp [sentence, Draft.inputOr, List.subset_def] <;> tauto

theorem sentence_none (h : ∀ items, op ≠ .columns items) :
    op.sentence none part = op.sentence (some (.text "a single row")) part := by
  cases op with
  | columns items => exact absurd rfl (h items)
  | _ => rfl

end Operation

theorem Entry.WorksOn.refs_subset {e : Entry} {input : Label} (h : e.WorksOn (some input)) :
    input.refs ⊆ e.own.refs := by
  obtain ⟨op, -, hparts⟩ := h
  rw [Step.refs, hparts]
  exact op.refs_subset_sentence input e.label

namespace Sql.Query

variable {s : Settings} {q : Query} {b : Select} {first : StepId} {r : Drafted Label}

theorem loaded_load (hb : q.body = .select b) (hone : b.relations.length ≤ 1)
    {loaded : Drafted (Option Label)} (h : q.load s first = .ok loaded) :
    Loaded s first b.relations loaded := by
  have hrelations : b.relations = (Source.links b.sources).map (·.1) :=
    (Source.map_links_fst b.sources).symm
  simp only [Query.load, hb] at h
  rw [hrelations] at hone ⊢
  cases hlinks : Source.links b.sources with
  | nil =>
    rw [hlinks] at h
    cases h
    exact .nothing
  | cons link rest =>
    obtain rfl : rest = [] := by simpa [hlinks] using hone
    obtain ⟨relation, kind, constraint⟩ := link
    rw [hlinks] at h
    obtain ⟨rows, hrows, a, ha, rfl⟩ := Draft.bind_eq_ok.mp h
    cases ha
    cases relation with
    | table path aliasName =>
      cases hrows
      exact .table path aliasName
    | derived query aliasName =>
      obtain ⟨inner, hinner, c, hc, rfl⟩ := Draft.bind_eq_ok.mp hrows
      cases hc
      obtain ⟨init, last, hsteps, hvalue, -⟩ := concludes_query s query first inner hinner
      obtain ⟨value, steps, next⟩ := inner
      obtain rfl : steps = init ++ [last] := hsteps
      obtain rfl : value = .step last.id := hvalue
      simpa using Loaded.derived aliasName hinner

/-- The steps of a SELECT over at most one relation: those of FROM and a skeleton. -/
structure Pipeline (s : Settings) (q : Query) (b : Select) (first : StepId) (plan : Plan)
    (loaded : Drafted (Option Label)) (skeleton : Skeleton) : Prop where
  source : Loaded s first b.relations loaded
  plan_eq : plan = loaded.steps ++ skeleton.steps
  /-- Before a step of its own there are only those that its words need. -/
  words : ∀ e ∈ skeleton, ∃ n, e.role.part s .kept n = .ok ⟨e.label, e.inner, e.own.id⟩
  roles : skeleton.roles = (q.clauses b).map .apply
  /-- The first clause works on what FROM gives. -/
  start : ∀ e after, skeleton = e :: after →
    e.WorksOn loaded.value ∧ ∀ input ∈ loaded.value, input.refs ⊆ e.own.refs
  /-- Without FROM that is a single row; only the columns stand without any input. -/
  single : b.relations = [] → ∀ e after, skeleton = e :: after →
    (∀ items, e.role = .apply (.columns items) →
      e.own.parts = .text "Create table with columns" :: e.label.parts) ∧
    ((∀ items, e.role ≠ .apply (.columns items)) → e.WorksOn (some (.text "a single row")))
  /-- Every other clause works on the step of the clause before. -/
  next : ∀ before previous e after, skeleton = before ++ previous :: e :: after →
    e.WorksOn (some (.step previous.own.id)) ∧ previous.own.id ∈ e.own.refs

/-- In a SELECT over at most one relation the steps of its own follow those of FROM: one for each
clause that is present and one for the output columns, in the order of the clauses and each on the
step before it. -/
theorem exists_pipeline (hb : q.body = .select b) (hone : b.relations.length ≤ 1)
    (h : q.draft s first = .ok r) :
    ∃ loaded skeleton, q.Pipeline s b first r.steps loaded skeleton := by
  rw [Skeleton.draft_single_lay hb hone] at h
  obtain ⟨loaded, hload, laid, hlaid, rfl⟩ := Draft.bind_eq_ok.mp h
  obtain ⟨skeleton, hlay, hroles, hsteps⟩ := Skeleton.map_lay_eq_ok hlaid
  have hloaded := loaded_load hb hone hload
  have hrole {e : Entry} (he : e ∈ skeleton) : ∃ op, e.role = .apply op := by
    obtain ⟨op, -, hop⟩ := Skeleton.exists_of_roles hroles he
    exact ⟨op, hop⟩
  have hstart {e : Entry} {after : Skeleton} (hsplit : skeleton = e :: after) :
      e.WorksOn loaded.value := by
    obtain ⟨op, hop⟩ := hrole (hsplit ▸ List.mem_cons_self ..)
    have hfirst : skeleton = [] ++ e :: after := hsplit
    exact hlay.worksOn hfirst hop
  refine ⟨loaded, skeleton, ?_⟩
  constructor
  case source => exact hloaded
  case plan_eq => simp [hsteps]
  case words => exact fun e he => hlay.part he
  case roles => exact hroles
  case start =>
    intro e after hsplit
    refine ⟨hstart hsplit, fun input hinput => ?_⟩
    have hworks := hstart hsplit
    rw [Option.mem_def.mp hinput] at hworks
    exact hworks.refs_subset
  case single =>
    intro hnone e after hsplit
    have hworks := hstart hsplit
    rw [hloaded.value_eq_none hnone] at hworks
    obtain ⟨op, hop, hparts⟩ := hworks
    refine ⟨fun items hitems => ?_, fun hne => ⟨op, hop, ?_⟩⟩
    · cases hop.symm.trans hitems
      exact hparts
    · rw [hparts, Operation.sentence_none fun items hitems => hne items (hitems ▸ hop)]
  case next =>
    intro before previous e after hsplit
    obtain ⟨op, hop⟩ := hrole (e := e) (by simp [hsplit])
    obtain ⟨op', hprevious⟩ := hrole (e := previous) (by simp [hsplit])
    have hinput : Skeleton.input? loaded.value (before ++ [previous]) = some previous.result := by
      rw [Skeleton.input?_concat, hprevious]
      rfl
    have hworks : e.WorksOn (some previous.result) := by
      have hnext : skeleton = (before ++ [previous]) ++ e :: after := by simp [hsplit]
      rw [← hinput]
      exact hlay.worksOn hnext hop
    exact ⟨hworks, hworks.refs_subset (List.mem_singleton_self _)⟩

/-- `SELECT DISTINCT a FROM (SELECT a FROM t) AS d WHERE a = 1 GROUP BY a HAVING a = 1 ORDER BY a
LIMIT 2 OFFSET 1`. -/
def groupedRows : Select where
  distinct := true
  projection := [.expr (bareColumn "a") none]
  sources := [{ relation := .derived (.ofSelect
    { projection := [.expr (bareColumn "a") none]
      sources := [{ relation := .table [⟨"t", false⟩] none }] }) (some ⟨"d", false⟩) }]
  condition := some (.binary (bareColumn "a") .eq (.literal (.number "1")))
  groupBy := [bareColumn "a"]
  having := some (.binary (bareColumn "a") .eq (.literal (.number "1")))

@[inherit_doc groupedRows]
def groupedPage : Query where
  body := .select groupedRows
  orderBy := [{ key := bareColumn "a" }]
  limit := some (.literal (.number "2"))
  offset := some (.literal (.number "1"))

theorem exists_pipeline_groupedPage : groupedPage.body = .select groupedRows ∧
    groupedRows.relations.length ≤ 1 ∧ ∃ r, groupedPage.draft {} 0 = .ok r ∧
    ∃ loaded skeleton, groupedPage.Pipeline {} groupedRows 0 r.steps loaded skeleton := by
  have hone : groupedRows.relations.length ≤ 1 := by decide
  obtain ⟨-, r, -, h, -⟩ | ⟨hn, -⟩ := hereditary_settled.query groupedPage {} {} 0 0
  · exact ⟨rfl, hone, r, h, exists_pipeline rfl hone h⟩
  · exact absurd rfl hn

end Sql.Query

end QuerySteps
