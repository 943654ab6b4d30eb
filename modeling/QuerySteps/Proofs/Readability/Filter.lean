import QuerySteps.Proofs.Translate.Conditions

/-!
# The step of WHERE

Over at most one relation WHERE is one step, on the rows of the relation. In the simplified plan it
holds its whole condition (`Planner.exists_filterSteps`), so two conditions are told apart by the
fragments that they read.
-/

namespace QuerySteps

open Sql QuerySteps.Part

namespace Sql

/-- The query is a SELECT over at most one relation. -/
def Query.IsSingle (q : Query) : Prop :=
  ∃ b, q.body = .select b ∧ b.relations.length ≤ 1

/-- The query with the condition as its WHERE, if it is a SELECT. -/
def Query.filteredBy (q : Query) (e : Expr) : Query :=
  match q.body with
  | .select b => { q with body := .select { b with condition := some e } }
  | .setOperation .. => q

def Query.load (s : Settings) (q : Query) : Draft (Option Label) :=
  match q.body with
  | .select b => Draft.optional ((Source.links b.sources).head?.map fun link => link.1.load s)
  | .setOperation .. => pure none

def Query.rowClauses (s : Settings) (q : Query) : RowClauses :=
  ⟨draftsOfOrder s .kept q.orderBy, draftOfOption s .kept q.offset, draftOfOption s .kept q.limit⟩

/-- The identifier that the step of WHERE takes: the first one that is free after the relation is
loaded and the condition is put into words. -/
def Query.filterId? (s : Settings) (q : Query) (e : Expr) : Option StepId :=
  match (q.load s >>= fun _ => e.draft s .kept) 0 with
  | .ok r => some r.next
  | .error _ => none

end Sql

/-- The step of WHERE in the plan of the query with that condition. -/
def Planner.filterStep? (p : Planner) (q : Query) (e : Expr) : Option Step := do
  let sheet ← (p.planQuery (q.filteredBy e)).toOption
  let id ← q.filterId? p.settings e
  sheet.plan.step? id

/-- Whatever plan it is part of, the expression is a condition that reads `body`. -/
def Sql.Expr.Reads (s : Settings) (e : Expr) (body : List Part) : Prop :=
  ∀ c, (e.draft s .kept).Says c fun a => ∃ id, a = .step id ∧ c id = some body

namespace Sql

variable {q : Query} {e e' : Expr}

theorem Query.supported_filteredBy (hq : q.IsSingle) (he : e.supported = true)
    (he' : e'.supported = true) :
    (q.filteredBy e).supported = (q.filteredBy e').supported := by
  obtain ⟨b, hb, -⟩ := hq
  obtain ⟨body, orderBy, limit, offset⟩ := q
  obtain rfl : body = .select b := hb
  have hblock : ({ b with condition := some e } : Select).supported =
      ({ b with condition := some e' } : Select).supported := by
    rw [Bool.eq_iff_iff, Select.supported_iff, Select.supported_iff]
    simp [he, he', Select.relations]
  simp only [filteredBy, supported, QueryBody.supported, hblock]

theorem Query.draft_single (s : Settings) {q : Query} {b : Select} (hb : q.body = .select b)
    (hone : b.relations.length ≤ 1) : q.draft s = (do
      let input ← q.load s
      let input ← Draft.filterSingle (b.condition.map (Expr.draft s .kept)) input
      let input ← Draft.arrangeSingle
        ⟨draftsOfExprs s .kept b.groupBy, draftOfOption s .kept b.having⟩ (q.rowClauses s) input
      let columns ← Draft.sequence (b.projection.map (SelectItem.draft s))
      let result ← Draft.createTable columns input
      Draft.unique b.distinct result) := by
  obtain ⟨body, orderBy, limit, offset⟩ := q
  obtain rfl : body = .select b := hb
  have hsingle : ¬1 < b.relations.length := Nat.not_lt.mpr hone
  simp only [draft, QueryBody.draft]
  rw [Select.draft_eq, if_neg hsingle]
  rfl

/-- The steps of a SELECT over at most one relation begin with those of loading the relation and of
WHERE. -/
theorem Query.draft_filteredBy {s : Settings} (hq : q.IsSingle) (e : Expr) :
    ∃ rest : Option Label → Draft Label, (q.filteredBy e).draft s =
      (do
        let input ← q.load s
        let input ← Draft.filterSingle (some (e.draft s .kept)) input
        rest input) := by
  obtain ⟨b, hb, hone⟩ := hq
  let filtered : Select := { b with condition := some e }
  have hfiltered : q.filteredBy e = { q with body := .select filtered } := by
    simp only [filteredBy, hb, filtered]
  rw [hfiltered, Query.draft_single s rfl (show filtered.relations.length ≤ 1 from hone)]
  have hload : Query.load s { q with body := .select filtered } = q.load s := by
    simp only [Query.load, hb, filtered]
  rw [hload]
  exact ⟨_, rfl⟩

end Sql

/-- A step that enumerates nothing takes the condition of the only check it uses as it is. -/
theorem Step.Shapes.ofOne {c : Conditions} {s : Step} (id : StepId) (hcheck : s.isCheck = false)
    (hlist : haveList s.parts = false) (hone : ∀ id' ∈ s.refs, c id' ≠ none → id' = id) :
    s.Shapes c fun body => body :=
  .single hcheck hlist fun a ha b hb hca hcb => (hone a ha hca).trans (hone b hb hcb).symm

/-- `SELECT * FROM t`. -/
def wholeTable : Query :=
  .ofSelect { projection := [.all], sources := [{ relation := .table [⟨"t", false⟩] none }] }

def bareColumn (name : String) : Expr :=
  .column { name := ⟨name, false⟩ }

namespace Planner

open Draft

variable {s : Settings} {q : Query} {e : Expr} {body : List Part}

theorem says_load {c : Conditions} : (q.load s).Says c fun input => c.Quiet (inputOr input) := by
  have hnone : c.Quiet (inputOr none) := ⟨by simp [inputOr], rfl⟩
  unfold Query.load
  split
  · rename_i b _
    have hload : ∀ d ∈ (Source.links b.sources).head?.map fun link => link.1.load s,
        d.Says c c.Quiet := by
      intro d hd
      obtain ⟨link, -, rfl⟩ := Option.map_eq_some_iff.mp hd
      exact Sql.says_load s fun a ha n _ => ha.quiet.withAlias s n
    refine .imp (.optional hload) fun input hinput => ?_
    cases input with
    | none => exact hnone
    | some a => exact hinput a rfl
  · exact .pure hnone

/-- The step of WHERE in the simplified plan: the rows of the relation, then the whole condition. -/
theorem filterStep?_eq (hs : s.simplify = true) (hq : q.IsSingle) (he : e.Reads s body)
    {sheet : Sheet} (h : Planner.planQuery { settings := s } (q.filteredBy e) = .ok sheet) :
    ∃ input id, q.load s 0 = .ok input ∧ filterStep? { settings := s } q e = some
      ⟨id, .text "Filter" ::
        ((inputOr input.value).parts ++ .text "using condition:" :: body)⟩ := by
  obtain ⟨written, hw, hnodup, hc, hmem⟩ := exists_finished hs h
  generalize hconditions : Plan.conditions written.steps = c at hc hmem
  -- The run of the draft, taken apart around the step of WHERE.
  obtain ⟨rest, hdraft⟩ := Query.draft_filteredBy (s := s) hq e
  obtain ⟨rows, hrows, last, -, rfl⟩ := bind_eq_ok.mp hw
  rw [hdraft] at hrows
  obtain ⟨input, hinput, after, hafter, rfl⟩ := bind_eq_ok.mp hrows
  obtain ⟨filtered, hfiltered, tail, -, rfl⟩ := bind_eq_ok.mp hafter
  obtain ⟨condition, hcondition, result, hresult, rfl⟩ := bind_eq_ok.mp hfiltered
  cases hresult
  have hcinput : c.Describe input.steps := fun t ht => hc t (by simp [ht])
  have hccondition : c.Describe condition.steps := fun t ht => hc t (by simp [ht])
  obtain ⟨hquiet, hlist⟩ := says_load 0 input hinput hcinput
  obtain ⟨id, hid, hbody⟩ := he c input.next condition hcondition hccondition
  have hstep := hmem ⟨condition.next, .text "Filter" ::
    ((inputOr input.value).parts ++ [.text "using condition:", .ref id])⟩
    (by simp [hid, Label.step, Label.text, Label.before]) rfl _ (.ofOne id rfl ?_ ?_)
  rotate_left
  · simp only [haveList] at hlist
    simp [haveList, hlist]
  · intro id' hmem hne
    simp only [Step.refs, filterMap_ref?_text, List.filterMap_append, List.mem_append] at hmem
    obtain hmem | hmem := hmem
    · exact absurd (hquiet id' hmem) hne
    · exact List.mem_singleton.mp hmem
  have hwritten : [Part.text "using condition:", .ref id].flatMap
      (Part.write (fun body => body) c) = .text "using condition:" :: body := by
    simp [Part.write, hbody]
  rw [flatMap_write_text, List.flatMap_append, flatMap_write_of_none hquiet, hwritten] at hstep
  have hfilterId : q.filterId? s e = some condition.next := by
    have hrun : (q.load s >>= fun _ => e.draft s .kept) 0 =
        .ok { condition with steps := input.steps ++ condition.steps } :=
      bind_eq_ok.mpr ⟨input, hinput, condition, hcondition, rfl⟩
    rw [Query.filterId?, hrun]
  refine ⟨input, condition.next, hinput, ?_⟩
  simp only [filterStep?, h, Except.toOption, hfilterId]
  exact Plan.step?_of_mem hnodup hstep

theorem exists_plan_filteredBy (hq : q.IsSingle) {e' : Expr} (he : e.supported = true)
    (he' : e'.supported = true)
    (hok : ∃ sheet, Planner.planQuery { settings := s } (q.filteredBy e) = .ok sheet) :
    ∃ sheet, Planner.planQuery { settings := s } (q.filteredBy e') = .ok sheet := by
  rw [exists_plan_iff] at hok ⊢
  rwa [← Query.supported_filteredBy hq he he']

/-- Two conditions are told apart in the step of WHERE by what they read: the fragments before them
are the same. -/
theorem exists_filterSteps (hs : s.simplify = true) (hq : q.IsSingle) {e' : Expr}
    {body' : List Part} (he : e.Reads s body) (he' : e'.Reads s body')
    (hok : ∃ sheet, Planner.planQuery { settings := s } (q.filteredBy e) = .ok sheet)
    (hok' : ∃ sheet, Planner.planQuery { settings := s } (q.filteredBy e') = .ok sheet) :
    ∃ lead t t', filterStep? { settings := s } q e = some t ∧
      filterStep? { settings := s } q e' = some t' ∧ t.opensWith "Filter" = true ∧
      t'.opensWith "Filter" = true ∧ t.parts = lead ++ body ∧ t'.parts = lead ++ body' := by
  obtain ⟨sheet, h⟩ := hok
  obtain ⟨sheet', h'⟩ := hok'
  obtain ⟨input, id, hinput, hstep⟩ := filterStep?_eq hs hq he h
  obtain ⟨input', id', hinput', hstep'⟩ := filterStep?_eq hs hq he' h'
  obtain rfl : input = input' := Except.ok.inj (hinput.symm.trans hinput')
  exact ⟨.text "Filter" :: ((inputOr input.value).parts ++ [.text "using condition:"]), _, _,
    hstep, hstep', rfl, rfl, by simp, by simp⟩

end Planner

end QuerySteps
