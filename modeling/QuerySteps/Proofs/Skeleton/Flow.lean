import QuerySteps.Proofs.Skeleton.Segments

/-!
# The flow of rows through a SELECT over several relations

Every entry of a SELECT over several relations works on the entries before it as its clause asks
(`JoinSkeleton.Flows`). For WHERE this says that each conjunct is one filter, on its own relation
before the joins or on joined rows after them; for FROM that each relation is stored once and joined
once.
-/

namespace QuerySteps

open Sql Source JoinSkeleton

variable {s : Settings} {q : Query} {b : Select} {sources : List Source} {first : StepId}
  {r : Drafted Label} {k : JoinSkeleton}

/-! ## The steps of filters -/

namespace Role

/-- Whether the step filters rows by a condition of WHERE. -/
def filters : Role → Bool
  | early .. | apply (.filter _) | apply (.late _) => true
  | _ => false

theorem opensWith_filter (done : Skeleton) (origin : Option Label) (part : Label) (id : StepId)
    (role : Role) :
    (Step.mk id (done.sentence s origin part role).parts).opensWith "Filter" = role.filters := by
  have hload (rest : String) : "Load table " ++ rest ≠ "Filter" := append_ne (by decide) rest
  cases role with
  | store place source =>
    cases hrelation : source.relation with
    | table path aliasName =>
      simp [Skeleton.sentence, hrelation, Step.opensWith, Label.text, String.append_assoc, hload,
        filters]
    | derived query aliasName =>
      simp only [Skeleton.sentence, hrelation]
      rfl
  | join place source =>
    have hverb : source.kind.words ≠ "Filter" := by cases source.kind <;> decide
    simp [Skeleton.sentence, Step.opensWith, Label.text, Label.before, hverb, filters]
  | apply op =>
    cases op with
    | columns items =>
      simp only [Skeleton.sentence, Operation.sentence]
      cases done.input? origin <;> rfl
    | _ => rfl
  | _ => rfl

theorem filters_arrangement (q : Query) (b : Select) :
    ∀ op ∈ Operation.arrangement q b, (apply op).filters = false := by
  simp only [Operation.arrangement, List.forall_mem_append, List.forall_mem_map]
  refine ⟨⟨⟨⟨?_, fun _ _ => rfl⟩, ?_⟩, fun _ _ => rfl⟩, fun _ _ => rfl⟩
  · split <;> simp [filters]
  · split <;> simp [filters]

end Role

namespace Source

theorem map_early (sources : List Source) (conjuncts : List Expr) :
    (early sources conjuncts).map (·.2) =
      conjuncts.filter fun c => (pushTarget? sources c).isSome := by
  induction conjuncts with
  | nil => rfl
  | cons c rest ih =>
    cases ht : pushTarget? sources c with
    | some place => simpa [early, ht] using ih
    | none => simpa [early, ht] using ih

theorem early_append_late_perm (sources : List Source) (conjuncts : List Expr) :
    ((early sources conjuncts).map (·.2) ++ late sources conjuncts).Perm conjuncts := by
  have hlate : late sources conjuncts =
      conjuncts.filter fun c => !(pushTarget? sources c).isSome := by simp [late]
  rw [map_early, hlate]
  exact List.filter_append_perm _ conjuncts

end Source

/-! ## The two laws -/

/-- What the entries of a SELECT over several relations work on. -/
structure JoinSkeleton.Flows (sources : List Source) (k : JoinSkeleton) : Prop where
  /-- A filter on a single relation takes the latest result for the relation. -/
  pushed : ∀ front e back place conjunct, k.pushed = front ++ e :: back →
    e.role = .early place conjunct → ∃ p, (k.loads ++ front).latest? place = some p ∧
      e.own.parts = .text "Filter" :: .ref p.own.id :: .text ":" :: e.label.parts
  /-- A join takes the join before it, the first one the latest result for the first relation, and
  the latest result for its own relation. -/
  joins : ∀ i e, k.joins[i]? = some e → ∃ source left right, sources[i + 1]? = some source ∧
    (if i = 0 then k.inputs.latest? 0 else k.joins[i - 1]?) = some left ∧
    k.inputs.latest? (i + 1) = some right ∧
    e.own.parts = .text source.kind.words :: .ref left.own.id :: .text "with" ::
      .ref right.own.id :: e.label.parts
  /-- A clause on joined rows takes the step before it. -/
  clauses : ∀ front e back, k.remaining ++ k.arranged = front ++ e :: back →
    ∃ p, (k.joins ++ front).getLast? = some p ∧ e.WorksOn (some (.step p.own.id))
  /-- All columns are retrieved from the last step on joined rows. -/
  columns : ∃ joined, k.rows.getLast? = some joined ∧ ∀ e ∈ k.columns,
    e.own.parts = .text "Retrieve" :: e.label.parts ++ [.text "from", .ref joined.own.id]
  /-- The table is made of the retrieved columns. -/
  create : k.create.own.parts = .text "Create table with columns for" ::
    (Label.enumeration (k.columns.map Entry.result)).parts

namespace Sql.Query

theorem exists_ofItems_of_draft (hb : q.body = .select b) (hjoin : 1 < b.relations.length)
    (hr : q.draft s first = .ok r) : ∃ sources, ofItems b.sources = .ok sources := by
  obtain ⟨-, hok⟩ | ⟨-, herror⟩ := ofItems_cases b.sources
  · exact hok
  · obtain ⟨body, orderBy, limit, offset⟩ := q
    obtain rfl : body = .select b := hb
    simp only [Query.draft, QueryBody.draft] at hr
    rw [Select.draft_eq, if_pos hjoin, Draft.selectJoin, herror] at hr
    cases hr

/-- A SELECT over several relations falls into segments, and every entry works on those before. -/
theorem exists_flow (hb : q.body = .select b) (hjoin : 1 < b.relations.length)
    (hr : q.draft s first = .ok r) : ∃ (sources : List Source) (k : JoinSkeleton),
      ofItems b.sources = .ok sources ∧ sources.length = b.relations.length ∧
      k.all.Laid s .dropped none first ∧ k.Spells s q b sources r.steps ∧ k.Flows sources ∧
      k.joins.length + 1 = b.relations.length := by
  obtain ⟨sources, h⟩ := exists_ofItems_of_draft hb hjoin hr
  obtain ⟨k, hlaid, hspells⟩ := exists_segments hb hjoin h hr
  have hlength : sources.length = b.relations.length := by
    rw [length_ofItems h, ← List.length_map (f := (·.1)), map_links_fst]
    rfl
  have hroles : k.joins.roles.length = sources.tail.length := by
    simp [hspells.joins, Role.joinsFrom]
  have hjoins : k.joins.length + 1 = b.relations.length := by
    rw [Skeleton.length_roles, List.length_tail] at hroles
    omega
  have hne : k.joins ≠ [] := by
    intro hnil
    rw [hnil] at hjoins
    exact Nat.ne_of_lt hjoin hjoins
  have hflows : k.Flows sources :=
    { pushed := fun _ _ _ _ _ hsplit hrole => hspells.parts_pushed hlaid hsplit hrole
      joins := fun _ _ => hspells.parts_joins hlaid
      clauses := fun _ _ _ => hspells.worksOn_rows hlaid hne
      columns := hspells.parts_columns hlaid hne
      create := hspells.parts_create hlaid }
  exact ⟨sources, k, h, hlength, hlaid, hspells, hflows, hjoins⟩

theorem filter_opensWith (hlaid : k.all.Laid s .dropped none first) {plan : Plan}
    (h : k.Spells s q b sources plan) :
    k.all.filter (·.own.opensWith "Filter") = k.pushed ++ k.remaining := by
  have hroles : k.all.filter (·.own.opensWith "Filter") = k.all.filter (·.role.filters) := by
    refine List.filter_congr fun e he => ?_
    obtain ⟨before, after, hsplit⟩ := List.append_of_mem he
    rw [← Role.opensWith_filter before none e.label e.own.id, ← (hlaid.follows hsplit).parts]
  have hnone {new : Skeleton} {roles : List Role} (hnew : new.roles = roles)
      (hp : ∀ role ∈ roles, role.filters = false) : new.filter (·.role.filters) = [] := by
    simpa using Skeleton.forall_of_roles (p := fun role => role.filters = false) hnew hp
  have hself {new : Skeleton} {roles : List Role} (hnew : new.roles = roles)
      (hp : ∀ role ∈ roles, role.filters = true) : new.filter (·.role.filters) = new :=
    List.filter_eq_self.mpr
      (Skeleton.forall_of_roles (p := fun role => role.filters = true) hnew hp)
  have hunique : ∀ op ∈ if b.distinct then [Operation.unique] else [],
      (Role.apply op).filters = false := by
    cases b.distinct <;> simp [Role.filters]
  have hcreate : k.create.role.filters = false := by rw [h.create]; rfl
  rw [hroles]
  simp only [all, inputs, JoinSkeleton.rows, List.filter_append, List.filter_cons, hcreate,
    hnone h.loads (List.forall_mem_map.mpr fun _ _ => rfl),
    hself h.pushed (List.forall_mem_map.mpr fun _ _ => rfl),
    hnone h.joins (List.forall_mem_map.mpr fun _ _ => rfl),
    hself h.remaining (List.forall_mem_map.mpr (List.forall_mem_map.mpr fun _ _ => rfl)),
    hnone h.arranged (List.forall_mem_map.mpr (Role.filters_arrangement q b)),
    hnone h.columns (List.forall_mem_map.mpr fun _ _ => rfl),
    hnone h.unique (List.forall_mem_map.mpr hunique)]
  simp

/-- `SELECT a.x, c.z FROM a LEFT JOIN (SELECT * FROM b) AS b ON a.x = b.x, c
WHERE c.z = 1 AND a.x = b.x AND c.z = 2`. -/
def filteredJoin : Select :=
  let column (table name : String) : Expr :=
    .column { table := some ⟨table, false⟩, name := ⟨name, false⟩ }
  let equals (number : String) : Expr :=
    .binary (column "c" "z") .eq (.literal (.number number))
  let same : Expr := .binary (column "a" "x") .eq (column "b" "x")
  { projection := [.expr (column "a" "x") none, .expr (column "c" "z") none]
    sources := [
      { relation := .table [⟨"a", false⟩] none
        joins := [
          { relation := .derived (.ofSelect
              { projection := [.all], sources := [{ relation := .table [⟨"b", false⟩] none }] })
              (some ⟨"b", false⟩)
            kind := .left
            constraint := .on same }] },
      { relation := .table [⟨"c", false⟩] none }]
    condition := some (.binary (.binary (equals "1") .and same) .and (equals "2")) }

theorem exists_draft_filteredJoin : ∃ r, (ofSelect filteredJoin).draft {} 0 = .ok r := by
  obtain ⟨-, r, -, h, -⟩ | ⟨hn, -⟩ := hereditary_settled.query (ofSelect filteredJoin) {} {} 0 0
  · exact ⟨r, h⟩
  · exact absurd rfl hn

/-- In a SELECT over several relations every conjunct of WHERE is the condition of one step that
filters rows: those that concern one relation that may be filtered early come before the joins, the
others after them, and each group in the order of the text. An early filter works on the latest
result for its relation, and so does whatever takes the relation next; a late one works on the
joined rows that are left by the steps before. -/
theorem exists_filters (hb : q.body = .select b) (hjoin : 1 < b.relations.length)
    (hr : q.draft s first = .ok r) : ∃ (sources : List Source) (k : JoinSkeleton),
      ofItems b.sources = .ok sources ∧ k.Spells s q b sources r.steps ∧
      ((early sources b.conjuncts).map (·.2) ++ late sources b.conjuncts).Perm b.conjuncts ∧
      k.all.filter (·.own.opensWith "Filter") = k.pushed ++ k.remaining ∧ k.Flows sources ∧
      ∀ front e back, k.remaining = front ++ e :: back → ∃ p, (k.joins ++ front).getLast? = some p ∧
        e.own.parts = .text "Filter" :: .ref p.own.id :: .text ":" :: e.label.parts := by
  obtain ⟨sources, k, h, -, hlaid, hspells, hflows, -⟩ := exists_flow hb hjoin hr
  refine ⟨sources, k, h, hspells, early_append_late_perm _ _, filter_opensWith hlaid hspells,
    hflows, fun front e back hsplit => ?_⟩
  obtain ⟨p, hp, op, hop, hparts⟩ := hflows.clauses front e (back ++ k.arranged) (by simp [hsplit])
  obtain ⟨conjunct, -, hconjunct⟩ := Skeleton.exists_of_roles (e := e)
    (hspells.remaining.trans List.map_map) (by simp [hsplit])
  cases hop.symm.trans hconjunct
  exact ⟨p, hp, hparts⟩

theorem exists_filters_filteredJoin : 1 < filteredJoin.relations.length ∧
    ∃ (r : Drafted Label) (sources : List Source) (k : JoinSkeleton),
      (ofSelect filteredJoin).draft {} 0 = .ok r ∧ ofItems filteredJoin.sources = .ok sources ∧
      k.Spells {} (ofSelect filteredJoin) filteredJoin sources r.steps ∧
      k.all.filter (·.own.opensWith "Filter") = k.pushed ++ k.remaining ∧ k.Flows sources := by
  have hjoin : 1 < filteredJoin.relations.length := by decide
  obtain ⟨r, hr⟩ := exists_draft_filteredJoin
  obtain ⟨sources, k, h, hspells, -, hfilters, hflows, -⟩ := exists_filters rfl hjoin hr
  exact ⟨hjoin, r, sources, k, hr, h, hspells, hfilters, hflows⟩

/-- In a SELECT over several relations each of them is loaded or stored by one step, in the order of
the text, and each but the first is joined by one step, under the condition of its own join. The
columns are retrieved from the last step on joined rows, and the table is made of them in their
order. -/
theorem exists_joins (hb : q.body = .select b) (hjoin : 1 < b.relations.length)
    (hr : q.draft s first = .ok r) : ∃ (sources : List Source) (k : JoinSkeleton),
      ofItems b.sources = .ok sources ∧ sources.map (·.relation) = b.relations ∧
      sources.map link = links b.sources ∧ k.Spells s q b sources r.steps ∧ k.Flows sources ∧
      k.loads.length = b.relations.length ∧
      (∀ (i : Nat) source, sources[i]? = some source →
        ∃ e, k.loads[i]? = some e ∧ e.Stores s source) ∧
      k.joins.length + 1 = b.relations.length ∧
      (∀ (i : Nat) source e, sources[i + 1]? = some source → k.joins[i]? = some e →
        e.Matches s source) ∧
      k.columns.length = b.projection.length ∧ k.create.own.refs = k.columns.map (·.own.id) := by
  obtain ⟨sources, k, h, hlength, hlaid, hspells, hflows, hjoins⟩ := exists_flow hb hjoin hr
  have hlinks := (map_ofItems h).1
  have hrelations : sources.map (·.relation) = b.relations := by
    have hmap := congrArg (List.map (·.1)) hlinks
    rwa [List.map_map, map_links_fst] at hmap
  have hloads : k.loads.length = b.relations.length := by
    have hroles := congrArg List.length hspells.loads
    simpa [Role.stores, hlength] using hroles
  have hcolumns : k.columns.length = b.projection.length := by
    have hroles := congrArg List.length hspells.columns
    simpa using hroles
  have hcreate : k.create.own.refs = k.columns.map (·.own.id) := by
    rw [Step.refs, hflows.create, Part.filterMap_ref?_text]
    show (Label.enumeration _).refs = _
    rw [Label.refs_enumeration, List.flatMap_map, List.map_eq_flatMap]
    rfl
  refine ⟨sources, k, h, hrelations, hlinks, hspells, hflows, hloads,
    fun i source hsource => hspells.stores_loads hlaid hsource, hjoins,
    fun i source e hsource he => ?_, hcolumns, hcreate⟩
  obtain ⟨source', hsource', hrole⟩ := hspells.exists_source he
  rw [hsource] at hsource'
  cases hsource'
  exact hspells.matches_joins (List.mem_of_getElem? he) hrole

theorem exists_joins_filteredJoin : 1 < filteredJoin.relations.length ∧
    ∃ (r : Drafted Label) (sources : List Source) (k : JoinSkeleton),
      (ofSelect filteredJoin).draft {} 0 = .ok r ∧ ofItems filteredJoin.sources = .ok sources ∧
      k.Spells {} (ofSelect filteredJoin) filteredJoin sources r.steps ∧ k.Flows sources ∧
      k.loads.length = 3 ∧ k.joins.length = 2 ∧ k.columns.length = 2 ∧
      k.create.own.refs = k.columns.map (·.own.id) := by
  have hjoin : 1 < filteredJoin.relations.length := by decide
  obtain ⟨r, hr⟩ := exists_draft_filteredJoin
  obtain ⟨sources, k, h, -, -, hspells, hflows, hloads, -, hjoins, -, hcolumns, hcreate⟩ :=
    exists_joins rfl hjoin hr
  exact ⟨hjoin, r, sources, k, hr, h, hspells, hflows, hloads, Nat.succ.inj hjoins, hcolumns,
    hcreate⟩

end Sql.Query

end QuerySteps
