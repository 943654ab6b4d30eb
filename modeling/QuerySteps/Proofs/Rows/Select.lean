import QuerySteps.Proofs.Readability.Filter
import QuerySteps.Proofs.Rows.Columns
import QuerySteps.Proofs.Rows.Steps

/-!
# The rows of a SELECT

SQL filters the rows of FROM, makes the output columns, removes duplicates if there is a DISTINCT,
and then skips and limits rows (`Meaning.select`). The steps of a SELECT over at most one table are
a line of clauses with another order: WHERE, OFFSET, LIMIT, the output columns, and DISTINCT last
(`Meaning.planned`, `leads_query`). Making columns and limiting rows commute, removing duplicates
and limiting rows do not: the steps compute the rows that SQL defines for all tables and conditions
exactly if the query has no DISTINCT, limits nothing or is about a single row
(`computes_select_iff`).
-/

namespace QuerySteps

open Sql

namespace Sql

/-- A SELECT over at most one named table, without grouping and ordering. -/
structure Query.Linear (q : Query) (b : Select) : Prop where
  body : q.body = .select b
  sources : b.sources = [] ∨ ∃ path aliasName, b.sources = [⟨.table path aliasName, []⟩]
  keys : b.groupBy = []
  having : b.having = none
  order : q.orderBy = []

/-- What the parts of a query mean. -/
structure Meaning (ρ : Type) where
  table : List Name → List ρ
  /-- The row that a SELECT without FROM is about. -/
  single : ρ
  condition : Expr → ρ → Bool
  number : Expr → Nat
  /-- The row of output columns for a row. -/
  columns : List SelectItem → ρ → ρ

namespace Meaning

variable {ρ : Type} (m : Meaning ρ)

def source : List FromItem → List ρ
  | ⟨.table path _, _⟩ :: _ => m.table path
  | _ => [m.single]

/-- WHERE. -/
def filter (condition : Option Expr) (rows : List ρ) : List ρ :=
  match condition with
  | none => rows
  | some e => rows.filter (m.condition e)

/-- A clause that takes a number of rows off. -/
def cut (op : Nat → List ρ → List ρ) (count : Option Expr) (rows : List ρ) : List ρ :=
  match count with
  | none => rows
  | some e => op (m.number e) rows

/-- OFFSET. -/
def skip : Option Expr → List ρ → List ρ :=
  m.cut List.drop

/-- LIMIT. -/
def keep : Option Expr → List ρ → List ρ :=
  m.cut List.take

/-- DISTINCT. -/
def unique [DecidableEq ρ] (distinct : Bool) (rows : List ρ) : List ρ :=
  if distinct then rows.eraseDups else rows

variable [DecidableEq ρ]

/-- The rows that SQL defines: duplicates are removed before rows are skipped and limited. -/
def select (q : Query) (b : Select) : List ρ :=
  let rows := (m.filter b.condition (m.source b.sources)).map (m.columns b.projection)
  m.keep q.limit (m.skip q.offset (unique b.distinct rows))

/-- The rows that the steps compute: duplicates are removed last. -/
def planned (q : Query) (b : Select) : List ρ :=
  let rows := m.keep q.limit (m.skip q.offset (m.filter b.condition (m.source b.sources)))
  unique b.distinct (rows.map (m.columns b.projection))

variable {m} {q : Query} {b : Select}

omit [DecidableEq ρ] in
theorem map_cut (op : Nat → List ρ → List ρ) {f : ρ → ρ}
    (hop : ∀ n rows, (op n rows).map f = op n (rows.map f)) (count : Option Expr) (rows : List ρ) :
    (m.cut op count rows).map f = m.cut op count (rows.map f) := by
  cases count with
  | none => rfl
  | some e => exact hop _ _

omit [DecidableEq ρ] in
theorem length_cut_le (op : Nat → List ρ → List ρ)
    (hop : ∀ n rows, (op n rows).length ≤ rows.length) (count : Option Expr) (rows : List ρ) :
    (m.cut op count rows).length ≤ rows.length := by
  cases count with
  | none => exact Nat.le_refl _
  | some e => exact hop _ _

theorem unique_of_length_le_one (distinct : Bool) {rows : List ρ} (h : rows.length ≤ 1) :
    unique distinct rows = rows := by
  have herase : rows.eraseDups = rows := by
    match rows, h with
    | [], _ => rfl
    | [_], _ => rfl
  unfold unique
  split
  · exact herase
  · rfl

/-- The order of the clauses matters only if there are duplicates to remove and rows to limit. -/
theorem planned_eq_select
    (h : b.distinct = true → b.sources = [] ∨ q.limit = none ∧ q.offset = none) :
    m.planned q b = m.select q b := by
  have hkeep (rows : List ρ) (f : ρ → ρ) :
      (m.keep q.limit rows).map f = m.keep q.limit (rows.map f) :=
    map_cut List.take (fun _ _ => List.map_take) q.limit rows
  have hskip (rows : List ρ) (f : ρ → ρ) :
      (m.skip q.offset rows).map f = m.skip q.offset (rows.map f) :=
    map_cut List.drop (fun _ _ => List.map_drop) q.offset rows
  simp only [planned, select, hkeep, hskip]
  generalize hrows : (m.filter b.condition (m.source b.sources)).map (m.columns b.projection) = rows
  cases hdistinct : b.distinct with
  | false => rfl
  | true =>
    obtain hnone | ⟨hlimit, hoffset⟩ := h hdistinct
    · have hone : rows.length ≤ 1 := by
        rw [← hrows, hnone, List.length_map]
        unfold filter
        split
        · exact Nat.le_refl 1
        · exact List.length_filter_le ..
      have hcut : (m.keep q.limit (m.skip q.offset rows)).length ≤ 1 :=
        Nat.le_trans (length_cut_le List.take List.length_take_le' _ _) (Nat.le_trans
          (length_cut_le List.drop (fun _ _ => (List.drop_sublist ..).length_le) _ _) hone)
      rw [unique_of_length_le_one true hone, unique_of_length_le_one true hcut]
    · rw [hlimit, hoffset]
      rfl

end Meaning

end Sql

/-- The reading understands the clauses of the query as they are meant. -/
structure Reading.Agrees {ρ : Type} (R : Reading ρ) (m : Meaning ρ) (s : Settings) (q : Query)
    (b : Select) : Prop where
  table : ∀ path aliasName, b.sources = [⟨.table path aliasName, []⟩] →
    R.table (s.withAlias (.text ("Load data for table " ++ s.tableText path)) aliasName).parts =
      m.table path
  single : R.single = m.single
  condition : ∀ e ∈ b.condition,
    (e.draft s .kept).ReadAs (fun plan a => R.condition plan a.parts) (m.condition e)
  offset : ∀ e ∈ q.offset,
    (e.draft s .kept).ReadAs (fun plan a => R.number plan a.parts) (m.number e)
  limit : ∀ e ∈ q.limit,
    (e.draft s .kept).ReadAs (fun plan a => R.number plan a.parts) (m.number e)
  columns : (Draft.sequence (b.projection.map (SelectItem.draft s))).ReadAs
    (fun plan columns => R.columns plan (Label.enumeration columns).parts) (m.columns b.projection)

namespace Draft

variable {ρ : Type} [DecidableEq ρ] {R : Reading ρ} {m : Meaning ρ} {s : Settings} {q : Query}
  {b : Select} {t : Progress ρ} {first : StepId} {input : Option Label} {rows : List ρ}

/-! ## The clauses one by one -/

theorem clause?_load (id : StepId) (table : String) (rest : List Part) :
    Step.clause? ⟨id, .text ("Load data for table " ++ table) :: rest⟩ =
      some (.load (.text ("Load data for table " ++ table) :: rest)) := by
  have hverb : "Load data for table ".toList.isPrefixOf
      ("Load data for table " ++ table).toList := by
    rw [String.toList_append]
    exact List.isPrefixOf_iff_prefix.mpr (List.prefix_append ..)
  exact if_pos hverb

theorem leads_load (hb : q.Linear b) (hR : R.Agrees m s q b)
    (hdone : ∀ id ∈ Plan.ids t.done, id < first) :
    Leads R t first (q.load s) fun input t' next =>
      t'.Holds R next input (m.source b.sources) := by
  simp only [Query.load, hb.body]
  obtain hnone | ⟨path, aliasName, htable⟩ := hb.sources
  · rw [hnone]
    exact .pure ⟨hdone, .inl ⟨rfl, by rw [hR.single]; rfl⟩⟩
  · have hsentence : Step.clause? ⟨first, (s.withAlias
        (.text ("Load data for table " ++ s.tableText path)) aliasName).parts⟩ =
        some (.load (s.withAlias
          (.text ("Load data for table " ++ s.tableText path)) aliasName).parts) := by
      cases aliasName <;> exact clause?_load ..
    have hrows := hR.table path aliasName htable
    rw [htable]
    exact .bind (.step _ hdone hsentence hrows) fun a t' next h => .pure h

theorem leads_filter {condition : Option Expr}
    (hread : ∀ e ∈ condition,
      (e.draft s .kept).ReadAs (fun plan a => R.condition plan a.parts) (m.condition e))
    (h : t.Holds R first input rows) :
    Leads R t first (filterSingle (condition.map (Expr.draft s .kept)) input) fun input' t' next =>
      t'.Holds R next input' (m.filter condition rows) := by
  cases condition with
  | none => exact .pure h
  | some e =>
    exact .clause (fun input a => (Label.text "Filter" ++ input).before "using condition:" ++ a)
      .filter List.filter ((hereditary_orderly s).expr e .kept) (hread e rfl) (fun _ _ _ => rfl)
      (fun _ _ _ => rfl) h

def cutSingle (words : String) (count : Option (Draft Label)) (input : Option Label) :
    Draft (Option Label) :=
  match count with
  | none => pure input
  | some count => do
    let count ← count
    let result ← step ((Label.text words ++ count).before "rows from" ++ inputOr input)
    pure (some result)

theorem arrangeSingle_eq (offset limit : Option (Draft Label)) (input : Option Label) :
    arrangeSingle ⟨[], none⟩ ⟨[], offset, limit⟩ input =
      cutSingle "Skip the first" offset input >>= cutSingle "Keep only" limit := by
  cases offset <;> cases limit <;>
    simp [arrangeSingle, GroupClauses.present, RowClauses.present, GroupClauses.apply,
      GroupClauses.group, GroupClauses.filter, RowClauses.apply, RowClauses.order, RowClauses.cut,
      cutSingle, inputOr]

theorem leads_cut {words : String} (make : List Part → Part → Clause) {op : Nat → List ρ → List ρ}
    (hwords : ∀ id rest, Step.clause? ⟨id, .text words :: rest⟩ =
      (Part.splitLast? "rows from" rest).map fun cut => make cut.1 cut.2)
    (hop : ∀ (t : Progress ρ) count p,
      t.perform R (make count p) = op (R.number t.done count) (t.rowsOf R p))
    {count : Option Expr}
    (hread : ∀ e ∈ count,
      (e.draft s .kept).ReadAs (fun plan a => R.number plan a.parts) (m.number e))
    (h : t.Holds R first input rows) :
    Leads R t first (cutSingle words (count.map (Expr.draft s .kept)) input)
      fun input' t' next => t'.Holds R next input' (m.cut op count rows) := by
  cases count with
  | none => exact .pure h
  | some e =>
    refine .clause (fun input a => (Label.text words ++ a).before "rows from" ++ input)
      (fun p count => make count p) op ((hereditary_orderly s).expr e .kept) (hread e rfl) ?_
      (fun _ _ _ => hop _ _ _) h
    intro id p a
    have hparts : ((Label.text words ++ a).before "rows from" ++ ⟨[p]⟩).parts =
        .text words :: (a.parts ++ [.text "rows from", p]) := by
      simp [Label.before, Label.text]
    rw [hparts, hwords, Part.splitLast?_eq_some.mpr rfl]
    rfl

theorem leads_arrange (hb : q.Linear b) (hR : R.Agrees m s q b) (h : t.Holds R first input rows) :
    Leads R t first (arrangeSingle ⟨draftsOfExprs s .kept b.groupBy, draftOfOption s .kept b.having⟩
        (q.rowClauses s) input) fun input' t' next =>
      t'.Holds R next input' (m.keep q.limit (m.skip q.offset rows)) := by
  have hgroups : (⟨draftsOfExprs s .kept b.groupBy, draftOfOption s .kept b.having⟩ :
      GroupClauses) = ⟨[], none⟩ := by
    rw [hb.keys, hb.having]
    rfl
  have hrows : q.rowClauses s =
      ⟨[], q.offset.map (Expr.draft s .kept), q.limit.map (Expr.draft s .kept)⟩ := by
    rw [Query.rowClauses, hb.order, draftOfOption_eq_map, draftOfOption_eq_map]
    rfl
  rw [hgroups, hrows, arrangeSingle_eq]
  exact .bind (leads_cut .skip (fun _ _ => rfl) (fun _ _ _ => rfl) hR.offset h)
    fun input' t' next h => leads_cut .keep (fun _ _ => rfl) (fun _ _ _ => rfl) hR.limit h

theorem ofColumns_of_sourceless {columns : Label} (h : columns.Sourceless) :
    Clause.ofColumns columns.parts = .create columns.parts (.text "a single row") := by
  unfold Clause.ofColumns
  split
  · rename_i front id heq
    exact absurd ⟨front, (Part.splitLast?_eq_some.mp heq).symm⟩ (h id)
  · rfl

theorem ofColumns_append (columns : List Part) (id : StepId) :
    Clause.ofColumns (columns ++ [.text "from", .ref id]) = .create columns (.ref id) := by
  rw [Clause.ofColumns, Part.splitLast?_eq_some.mpr rfl]

theorem yields_columns (s : Settings) (items : List SelectItem) (first : StepId) :
    (sequence (items.map (SelectItem.draft s))).Yields first fun columns _ =>
      (Label.enumeration columns).Sourceless := by
  have horderly : ∀ d ∈ items.map (SelectItem.draft s), d.Orderly :=
    List.forall_mem_map.mpr fun item _ =>
      orderly_item s fun value _ _ => (hereditary_orderly s).expr value .kept
  have hgives : ∀ d ∈ items.map (SelectItem.draft s), d.Gives Label.Sourceless :=
    List.forall_mem_map.mpr fun item _ => gives_item s item
  intro r hr
  exact ⟨(Yields.sequence horderly first r hr).1,
    Label.sourceless_enumeration (Gives.sequence hgives first r hr).2⟩

theorem leads_create (hR : R.Agrees m s q b) (h : t.Holds R first input rows) :
    Leads R t first (do
        let columns ← sequence (b.projection.map (SelectItem.draft s))
        createTable columns input) fun result t' next =>
      t'.Holds R next (some result) (rows.map (m.columns b.projection)) := by
  refine .bind (.read (yields_columns s b.projection first) hR.columns h)
    fun columns t' next ⟨hat, hmeaning, hsourceless⟩ => ?_
  obtain ⟨rfl, hrows⟩ | ⟨id, -, rfl, hrows⟩ := hat.input
  · refine .step _ hat.done_lt (congrArg some (ofColumns_of_sourceless hsourceless)) ?_
    simp only [Progress.perform, Progress.rowsOf, hrows, hmeaning]
  · have hparts : ((Label.text "Create table with columns" ++
        Label.enumeration columns).before "from" ++ Label.step id).parts =
        .text "Create table with columns" ::
          ((Label.enumeration columns).parts ++ [.text "from", .ref id]) := by
      simp [Label.before, Label.text, Label.step]
    refine .step (.create (Label.enumeration columns).parts (.ref id)) hat.done_lt ?_ ?_
    · rw [hparts]
      exact congrArg some (ofColumns_append _ id)
    · simp only [Progress.perform, Progress.rowsOf, hrows, hmeaning]

theorem leads_unique (distinct : Bool) {input : Label} (h : t.Holds R first (some input) rows) :
    Leads R t first (unique distinct input) fun result t' next =>
      t'.Holds R next (some result) (Meaning.unique distinct rows) := by
  cases distinct with
  | false => exact .pure h
  | true =>
    obtain ⟨p, hp, hrows⟩ := h.exists_part
    obtain rfl : input = ⟨[p]⟩ := hp
    refine .step (.unique p) h.done_lt rfl ?_
    rw [← hrows]
    rfl

/-- The steps of a SELECT over at most one table compute its rows, duplicates removed last. -/
theorem leads_query (hb : q.Linear b) (hR : R.Agrees m s q b)
    (hdone : ∀ id ∈ Plan.ids t.done, id < first) :
    Leads R t first (q.draft s) fun result t' next =>
      t'.Holds R next (some result) (m.planned q b) := by
  have hone : b.relations.length ≤ 1 := by
    obtain hnone | ⟨path, aliasName, htable⟩ := hb.sources
    · simp [Select.relations, hnone]
    · simp [Select.relations, htable, FromItem.relations]
  rw [Query.draft_single s hb.body hone]
  refine .bind (leads_load hb hR hdone) fun input t1 n1 h1 => ?_
  refine .bind (leads_filter hR.condition h1) fun input t2 n2 h2 => ?_
  refine .bind (leads_arrange hb hR h2) fun input t3 n3 h3 => ?_
  rw [← bind_assoc]
  exact .bind (leads_create hR h3) fun result t4 n4 h4 => leads_unique b.distinct h4

end Draft

/-! ## Where the order of the clauses matters -/

/-- Every table has the same rows, every condition holds, every number is the same and the output
columns are those of the table. -/
def Reading.constant {ρ : Type} (rows : List ρ) (single : ρ) (number : Nat) : Reading ρ :=
  ⟨fun _ => rows, single, fun _ _ _ => true, fun _ _ => number, fun _ _ row => row⟩

def Sql.Meaning.constant {ρ : Type} (rows : List ρ) (single : ρ) (number : Nat) : Meaning ρ :=
  ⟨fun _ => rows, single, fun _ _ => true, fun _ => number, fun _ row => row⟩

theorem Reading.agrees_constant {ρ : Type} (rows : List ρ) (single : ρ) (number : Nat)
    (s : Settings) (q : Query) (b : Select) :
    (Reading.constant rows single number).Agrees (.constant rows single number) s q b where
  table _ _ _ := rfl
  single := rfl
  condition _ _ _ _ _ _ _ := rfl
  offset _ _ _ _ _ _ _ := rfl
  limit _ _ _ _ _ _ _ := rfl
  columns _ _ _ _ _ := rfl

/-- Of the rows 0, 0 and 1 two are taken off at the front or kept there. -/
theorem Sql.Meaning.planned_constant_ne {q : Query} {b : Select} (hdistinct : b.distinct = true)
    (htable : ∃ path aliasName, b.sources = [⟨.table path aliasName, []⟩])
    (hcut : ¬(q.limit = none ∧ q.offset = none)) :
    (Meaning.constant [0, 0, 1] 0 2).planned q b ≠ (Meaning.constant [0, 0, 1] 0 2).select q b := by
  obtain ⟨path, aliasName, htable⟩ := htable
  have hfilter : (Meaning.constant [0, 0, 1] 0 2).filter b.condition
      ((Meaning.constant [0, 0, 1] 0 2).source b.sources) = [0, 0, 1] := by
    rw [htable]
    cases b.condition <;> rfl
  simp only [planned, select, hfilter, hdistinct]
  cases hlimit : q.limit with
  | none =>
    cases hoffset : q.offset with
    | none => exact absurd ⟨hlimit, hoffset⟩ hcut
    | some offset => exact show [1] ≠ [] by decide
  | some limit =>
    cases q.offset with
    | none => exact show [0] ≠ [0, 1] by decide
    | some offset => exact show [1] ≠ [] by decide

/-- What the steps of a SELECT over at most one table compute, carried out after any others, for all
tables and however its clauses are understood: they filter the rows, skip and limit them, make the
output columns and remove duplicates last. These are the rows that SQL defines exactly if there are
no duplicates to remove or no rows to skip and limit, or the SELECT is about a single row. -/
theorem computes_select_iff {s : Settings} {q : Query} {b : Select} {first : StepId}
    {r : Drafted Label} (hb : q.Linear b) (h : q.draft s first = .ok r) :
    ∃ last, r.value = .step last ∧
      (∀ (ρ : Type) [DecidableEq ρ] (R : Reading ρ) (m : Meaning ρ) (t : Progress ρ),
        R.Agrees m s q b → (∀ id ∈ Plan.ids t.done, id < first) →
        (t.run R r.steps).results last = m.planned q b) ∧
      ((∀ (ρ : Type) [DecidableEq ρ] (R : Reading ρ) (m : Meaning ρ) (t : Progress ρ),
          R.Agrees m s q b → (∀ id ∈ Plan.ids t.done, id < first) →
          (t.run R r.steps).results last = m.select q b) ↔
        (b.distinct = true → b.sources = [] ∨ q.limit = none ∧ q.offset = none)) := by
  obtain ⟨-, last, -, hlast, -⟩ := concludes_query s q first r h
  have hcomputes (ρ : Type) [DecidableEq ρ] (R : Reading ρ) (m : Meaning ρ) (t : Progress ρ)
      (hR : R.Agrees m s q b) (hdone : ∀ id ∈ Plan.ids t.done, id < first) :
      (t.run R r.steps).results last.id = m.planned q b := by
    obtain ⟨hnone, -⟩ | ⟨id, -, hid, hrows⟩ := (Draft.leads_query hb hR hdone r h).input
    · cases hnone
    · rw [hlast] at hid
      cases hid
      exact hrows
  refine ⟨last.id, hlast, hcomputes, fun hall hdistinct => ?_,
    fun horder ρ _ R m t hR hdone => ?_⟩
  · by_contra hne
    obtain ⟨hsources, hcut⟩ := not_or.mp hne
    have hconstant := Reading.agrees_constant [0, 0, 1] 0 2 s q b
    have hsame := hall Nat _ _ ⟨[], fun _ => []⟩ hconstant (by simp)
    rw [hcomputes _ _ _ _ hconstant (by simp)] at hsame
    exact Meaning.planned_constant_ne hdistinct (hb.sources.resolve_left hsources) hcut hsame
  · rw [hcomputes ρ R m t hR hdone, Meaning.planned_eq_select horder]

/-- `SELECT a FROM t`, with or without DISTINCT and a condition. -/
def columnOfTable (distinct : Bool) (condition : Option Expr) : Select where
  distinct
  projection := [.expr (bareColumn "a") none]
  sources := [{ relation := .table [⟨"t", false⟩] none }]
  condition

/-- The query that keeps two rows of the block, after those that are skipped. -/
def pageOf (block : Select) (offset : Option Expr) : Query where
  body := .select block
  limit := some (.literal (.number "2"))
  offset

theorem linear_pageOf (distinct : Bool) (condition offset : Option Expr) :
    (pageOf (columnOfTable distinct condition) offset).Linear (columnOfTable distinct condition) :=
  ⟨rfl, .inr ⟨_, _, rfl⟩, rfl, rfl, rfl⟩

/-- `SELECT a FROM t WHERE a IN (SELECT DISTINCT a FROM t LIMIT 2) LIMIT 2 OFFSET 2`. -/
theorem computes_select_iff_page :
    let block := columnOfTable false
      (some (.inQuery (bareColumn "a") (pageOf (columnOfTable true none) none) false))
    let page := pageOf block (some (.literal (.number "2")))
    let m := Meaning.constant [0, 0, 1] 0 2
    ∃ r last, page.Linear block ∧ page.draft {} 0 = .ok r ∧ r.value = .step last ∧
      ((⟨[], fun _ => []⟩ : Progress Nat).run (.constant [0, 0, 1] 0 2) r.steps).results last =
        m.planned page block ∧
      m.planned page block = m.select page block := by
  intro block page m
  have hpage : page.Linear block := linear_pageOf false _ _
  obtain ⟨-, r, -, hr, -⟩ | ⟨hn, -⟩ := hereditary_settled.query page {} {} 0 0
  · obtain ⟨last, hlast, hplanned, hiff⟩ := computes_select_iff hpage hr
    have hagrees := Reading.agrees_constant [0, 0, 1] 0 2 {} page block
    have hrows := hplanned Nat _ _ ⟨[], fun _ => []⟩ hagrees (by simp)
    have hsame := hiff.mpr nofun Nat _ _ ⟨[], fun _ => []⟩ hagrees (by simp)
    exact ⟨r, last, hpage, hr, hlast, hrows, hrows.symm.trans hsame⟩
  · exact absurd rfl hn

/-- The steps of `SELECT DISTINCT a FROM t LIMIT 2`. -/
def distinctPageSteps : List Step :=
  [⟨0, [.text "Load data for table t"]⟩,
    ⟨1, [.text "Keep only", .text "2", .text "rows from", .ref 0]⟩,
    ⟨2, [.text "Create table with columns", .text "a", .text "from", .ref 1]⟩,
    ⟨3, [.text "Only keep unique rows from", .ref 2]⟩]

/-- With the rows 0, 0 and 1 in the table there are two different ones, but the steps keep one. -/
theorem distinctPage_computes_ne_select :
    let block := columnOfTable true none
    let page := pageOf block none
    let R := Reading.constant [0, 0, 1] 0 2
    let m := Meaning.constant [0, 0, 1] 0 2
    page.Linear block ∧ R.Agrees m {} page block ∧
    page.draft {} 0 = .ok ⟨.step 3, distinctPageSteps, 4⟩ ∧
    ((⟨[], fun _ => []⟩ : Progress Nat).run R distinctPageSteps).results 3 = [0] ∧
    m.select page block = [0, 1] := by
  exact ⟨linear_pageOf true none none, Reading.agrees_constant .., by decide +kernel, by decide,
    by decide⟩

end QuerySteps
