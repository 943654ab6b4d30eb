import QuerySteps.Proofs.DataFlow
import QuerySteps.Proofs.Skeleton.Join

/-!
# The segments of a SELECT over several relations

The skeleton of a SELECT over several relations falls into the relations that are stored, the
filters on single ones, the joins, the clauses on joined rows, and the columns with their table
(`JoinSkeleton`). What a step refers to depends on its segment only: the filters and the joins take
the latest result for their relation, and whatever comes after the joins goes on from the last step
on joined rows.
-/

namespace QuerySteps

open Sql Source

/-- The skeleton of a SELECT over several relations, by what its entries do. -/
structure JoinSkeleton where
  loads : Skeleton
  /-- The filters on single relations. -/
  pushed : Skeleton
  joins : Skeleton
  /-- The filters on joined rows. -/
  remaining : Skeleton
  /-- Grouping, ordering and limits. -/
  arranged : Skeleton
  columns : Skeleton
  create : Entry
  unique : Skeleton

namespace JoinSkeleton

/-- The latest results for the single relations are those of these entries. -/
def inputs (k : JoinSkeleton) : Skeleton :=
  k.loads ++ k.pushed

/-- The rows of the SELECT are those of these entries. -/
def rows (k : JoinSkeleton) : Skeleton :=
  k.joins ++ k.remaining ++ k.arranged

def all (k : JoinSkeleton) : Skeleton :=
  k.inputs ++ k.rows ++ k.columns ++ k.create :: k.unique

/-- The steps of a plan are those of the entries, and the entries are those of the SELECT. -/
structure Spells (s : Settings) (q : Query) (b : Select) (sources : List Source) (plan : Plan)
    (k : JoinSkeleton) : Prop where
  plan_eq : plan = k.all.steps
  /-- Before a step of its own there are only those that its words need. -/
  words : ∀ e ∈ k.all, ∃ n, e.role.part s .dropped n = .ok ⟨e.label, e.inner, e.own.id⟩
  loads : k.loads.roles = Role.stores 0 sources
  pushed : k.pushed.roles = Role.earlies (early sources b.conjuncts)
  joins : k.joins.roles = Role.joinsFrom 1 sources.tail
  remaining : k.remaining.roles = ((late sources b.conjuncts).map .late).map .apply
  arranged : k.arranged.roles = (Operation.arrangement q b).map .apply
  columns : k.columns.roles = b.projection.map .retrieve
  create : k.create.role = .collect
  unique : k.unique.roles = (if b.distinct then [Operation.unique] else []).map .apply

end JoinSkeleton

/-- The entry loads the table of a source or stores the results of its query. -/
def Entry.Stores (s : Settings) (source : Source) (e : Entry) : Prop :=
  (∃ path aliasName, source.relation = .table path aliasName ∧ e.own.parts =
    [.text ("Load table " ++ s.tableText path ++ " and store as alias " ++
      s.nameText source.name)]) ∨
  ∃ query aliasName init last, source.relation = .derived query aliasName ∧
    e.inner = init ++ [last] ∧ e.own.parts =
      [.text "Store", .ref last.id, .text ("as alias " ++ s.nameText source.name)]

/-- The entry words the condition under which a source is joined; a join without one, as after a
comma, says so. -/
def Entry.Matches (s : Settings) (source : Source) (e : Entry) : Prop :=
  (source.constraint = .unconstrained ∧
    e.label = .text "- condition: none (all combinations of rows)") ∨
  ∃ condition n equalities, source.constraint = .on condition ∧
    Draft.sequence (condition.equalityDrafts s) n = .ok ⟨equalities, e.inner, e.own.id⟩ ∧
    e.label = Label.text "- condition:" ++ Label.enumeration equalities

open JoinSkeleton

variable {s : Settings} {q : Query} {b : Select} {sources : List Source} {first : StepId}
  {r : Drafted Label} {k : JoinSkeleton}

/-- A SELECT over several relations falls into the segments of its clauses. -/
theorem Sql.Query.exists_segments (hb : q.body = .select b) (hjoin : 1 < b.relations.length)
    (h : ofItems b.sources = .ok sources) (hr : q.draft s first = .ok r) :
    ∃ k : JoinSkeleton, k.all.Laid s .dropped none first ∧ k.Spells s q b sources r.steps := by
  rw [Skeleton.draft_join_lay hb hjoin h] at hr
  obtain ⟨skeleton, hlaid, hroles, hsteps⟩ := Skeleton.map_lay_eq_ok hr
  obtain ⟨rows, rest, rfl, hrows, hrest⟩ := List.map_eq_append_iff.mp hroles
  obtain ⟨rows, arranged, rfl, hrows, harranged⟩ := List.map_eq_append_iff.mp hrows
  obtain ⟨rows, remaining, rfl, hrows, hremaining⟩ := List.map_eq_append_iff.mp hrows
  obtain ⟨inputs, joins, rfl, hinputs, hjoins⟩ := List.map_eq_append_iff.mp hrows
  obtain ⟨loads, pushed, rfl, hloads, hpushed⟩ := List.map_eq_append_iff.mp hinputs
  obtain ⟨rest, unique, rfl, hrest, hunique⟩ := List.map_eq_append_iff.mp hrest
  obtain ⟨columns, last, rfl, hcolumns, hlast⟩ := List.map_eq_append_iff.mp hrest
  obtain ⟨create, rfl, hcreate⟩ := List.map_eq_singleton_iff.mp hlast
  let k : JoinSkeleton := ⟨loads, pushed, joins, remaining, arranged, columns, create, unique⟩
  have hall : k.all = loads ++ pushed ++ joins ++ remaining ++ arranged ++
      (columns ++ [create] ++ unique) := by
    simp [k, all, inputs, JoinSkeleton.rows]
  rw [← hall] at hlaid hsteps
  exact ⟨k, hlaid, hsteps.symm, fun e he => hlaid.part he, hloads, hpushed, hjoins, hremaining,
    harranged, hcolumns, hcreate, hunique⟩

namespace JoinSkeleton.Spells

/-! ## What an entry refers to -/

variable {plan : Plan} {place : Nat} {source : Source} {front back : Skeleton} {e : Entry}
  (h : k.Spells s q b sources plan)
include h

theorem forall_inputs {p : Role → Prop} (hstore : ∀ place source, p (.store place source))
    (hearly : ∀ place conjunct, p (.early place conjunct)) : ∀ e ∈ k.inputs, p e.role := by
  refine List.forall_mem_append.mpr ⟨?_, ?_⟩
  · exact Skeleton.forall_of_roles h.loads (List.forall_mem_map.mpr fun _ _ => hstore _ _)
  · exact Skeleton.forall_of_roles h.pushed (List.forall_mem_map.mpr fun _ _ => hearly _ _)

theorem forall_rows {p : Role → Prop} (hjoin : ∀ place source, p (.join place source))
    (hop : ∀ op, p (.apply op)) : ∀ e ∈ k.rows, p e.role := by
  refine List.forall_mem_append.mpr ⟨List.forall_mem_append.mpr ⟨?_, ?_⟩, ?_⟩
  · exact Skeleton.forall_of_roles h.joins (List.forall_mem_map.mpr fun _ _ => hjoin _ _)
  · exact Skeleton.forall_of_roles h.remaining (List.forall_mem_map.mpr fun _ _ => hop _)
  · exact Skeleton.forall_of_roles h.arranged (List.forall_mem_map.mpr fun _ _ => hop _)

/-- Joins and clauses on joined rows leave the latest results of single relations alone. -/
theorem latest?_rows (hfront : front ⊆ k.rows) :
    (k.inputs ++ front).latest? place = k.inputs.latest? place := by
  have hnone : ∀ e ∈ k.rows, e.role.concerns place = false :=
    h.forall_rows (p := fun role => role.concerns place = false) (fun _ _ => rfl) fun _ => rfl
  exact Skeleton.latest?_append fun e he => hnone e (hfront he)

/-- Joins and clauses on joined rows go on from the one before, the first join from the first
relation. -/
theorem carrier?_rows (hfront : front ⊆ k.rows) :
    (k.inputs ++ front).carrier? = front.getLast?.or (k.inputs.latest? 0) := by
  have hcarries : ∀ e ∈ k.rows, e.role.carries = true :=
    h.forall_rows (p := fun role => role.carries = true) (fun _ _ => rfl) fun _ => rfl
  have hinputs : ∀ e ∈ k.inputs, e.role.carries = e.role.concerns 0 :=
    h.forall_inputs (p := fun role => role.carries = role.concerns 0) (fun _ _ => rfl)
      fun _ _ => rfl
  rw [Skeleton.carrier?_append fun e he => hcarries e (hfront he),
    Skeleton.carrier?_eq_latest? hinputs]

theorem exists_latest? (hplace : place < sources.length) (front : Skeleton) :
    ∃ p, (k.loads ++ front).latest? place = some p := by
  refine Skeleton.exists_latest? ?_
  have hstore : Role.store place sources[place] ∈ k.loads.roles := by
    rw [h.loads]
    refine List.mem_map.mpr ⟨(sources[place], place), ?_, rfl⟩
    exact List.mk_mem_zipIdx_iff_getElem?.mpr (List.getElem?_eq_getElem hplace)
  obtain ⟨e, he, hrole⟩ := List.mem_map.mp hstore
  exact ⟨e, List.mem_append_left _ he, by rw [hrole]; exact beq_self_eq_true place⟩

theorem parts_pushed (hlaid : k.all.Laid s .dropped none first)
    (hsplit : k.pushed = front ++ e :: back) {conjunct : Expr}
    (hrole : e.role = .early place conjunct) : ∃ p, (k.loads ++ front).latest? place = some p ∧
      e.own.parts = .text "Filter" :: .ref p.own.id :: .text ":" :: e.label.parts := by
  have hplace : place < sources.length := by
    obtain ⟨filter, hfilter, heq⟩ := Skeleton.exists_of_roles (e := e) h.pushed (by simp [hsplit])
    cases hrole.symm.trans heq
    exact Draft.lt_length_of_pushTarget? (mem_early.mp hfilter).2
  obtain ⟨p, hp⟩ := h.exists_latest? hplace front
  refine ⟨p, hp, ?_⟩
  have hall : k.all = (k.loads ++ front) ++ e :: (back ++ k.rows ++ k.columns ++
      k.create :: k.unique) := by
    simp [all, inputs, hsplit]
  rw [(hlaid.follows hall).parts, hrole, Skeleton.sentence, Skeleton.latest, hp]
  rfl

theorem exists_source {i : Nat} (he : k.joins[i]? = some e) :
    ∃ source, sources[i + 1]? = some source ∧ e.role = .join (i + 1) source := by
  have hrole : k.joins.roles[i]? = some e.role := by simp [Skeleton.roles, he]
  rw [h.joins, Role.joinsFrom, List.getElem?_map, List.getElem?_zipIdx] at hrole
  obtain ⟨⟨source, place⟩, hsource, hjoin⟩ := Option.map_eq_some_iff.mp hrole
  obtain ⟨source', hat, heq⟩ := Option.map_eq_some_iff.mp hsource
  cases heq
  exact ⟨source, by rwa [List.getElem?_tail] at hat, by rw [← hjoin, Nat.add_comm]⟩

/-- A join works on the join before it, the first one on the first relation, and on the latest
result for its own relation. -/
theorem parts_joins (hlaid : k.all.Laid s .dropped none first) {i : Nat}
    (he : k.joins[i]? = some e) : ∃ source left right, sources[i + 1]? = some source ∧
      (if i = 0 then k.inputs.latest? 0 else k.joins[i - 1]?) = some left ∧
      k.inputs.latest? (i + 1) = some right ∧
      e.own.parts = .text source.kind.words :: .ref left.own.id :: .text "with" ::
        .ref right.own.id :: e.label.parts := by
  obtain ⟨source, hsource, hrole⟩ := h.exists_source he
  obtain ⟨hplace, -⟩ := List.getElem?_eq_some_iff.mp hsource
  obtain ⟨hi, hget⟩ := List.getElem?_eq_some_iff.mp he
  obtain ⟨right, hright⟩ := h.exists_latest? hplace k.pushed
  obtain ⟨origin, horigin⟩ := h.exists_latest? (Nat.zero_lt_of_lt hplace) k.pushed
  let front : Skeleton := k.joins.take i
  have hsplit : k.joins = front ++ e :: k.joins.drop (i + 1) := by
    rw [← hget, List.getElem_cons_drop, List.take_append_drop]
  have hfront : front ⊆ k.rows := fun x hx => by
    simp [JoinSkeleton.rows, List.mem_of_mem_take hx]
  have hlast : front.getLast?.or (k.inputs.latest? 0) =
      if i = 0 then k.inputs.latest? 0 else k.joins[i - 1]? := by
    cases i with
    | zero => rfl
    | succ i =>
      have hi' : i < k.joins.length := Nat.lt_of_succ_lt hi
      simp [front, List.getLast?_take, List.getElem?_eq_getElem hi']
  obtain ⟨left, hleft⟩ : ∃ left, front.getLast?.or (k.inputs.latest? 0) = some left := by
    cases front.getLast? with
    | none => exact ⟨origin, horigin⟩
    | some left => exact ⟨left, rfl⟩
  refine ⟨source, left, right, hsource, hlast ▸ hleft, hright, ?_⟩
  have hall : k.all = (k.inputs ++ front) ++ e :: (k.joins.drop (i + 1) ++ k.remaining ++
      k.arranged ++ k.columns ++ k.create :: k.unique) := by
    rw [all, JoinSkeleton.rows]
    nth_rewrite 1 [hsplit]
    simp
  have hrows : (k.inputs ++ front).rows none = left.result := by
    simp [Skeleton.rows, Skeleton.input?, h.carrier?_rows hfront, hleft, Draft.inputOr]
  have hlatest : (k.inputs ++ front).latest (i + 1) = right.result := by
    rw [Skeleton.latest, h.latest?_rows hfront, inputs, hright]
    rfl
  rw [(hlaid.follows hall).parts, hrole, Skeleton.sentence, hrows, hlatest]
  rfl

/-- What is on joined rows goes on from the step before. -/
theorem input?_rows (front : Skeleton) (hjoins : k.joins ≠ [])
    (hfront : k.joins ++ front ⊆ k.rows) :
    ∃ p, (k.joins ++ front).getLast? = some p ∧
      (k.inputs ++ (k.joins ++ front)).input? none = some p.result := by
  have hne : k.joins ++ front ≠ [] := List.append_ne_nil_of_left_ne_nil hjoins _
  refine ⟨_, List.getLast?_eq_some_getLast hne, ?_⟩
  rw [Skeleton.input?, h.carrier?_rows hfront, List.getLast?_eq_some_getLast hne]
  rfl

theorem worksOn_rows (hlaid : k.all.Laid s .dropped none first) (hjoins : k.joins ≠ [])
    (hsplit : k.remaining ++ k.arranged = front ++ e :: back) :
    ∃ p, (k.joins ++ front).getLast? = some p ∧ e.WorksOn (some (.step p.own.id)) := by
  have hrows : k.rows = k.joins ++ front ++ e :: back := by
    simp [JoinSkeleton.rows, hsplit]
  obtain ⟨p, hp, hinput⟩ := h.input?_rows front hjoins
    (by rw [hrows]; exact List.subset_append_left _ _)
  have hroles : (k.remaining ++ k.arranged : Skeleton).roles =
      ((late sources b.conjuncts).map Operation.late ++ Operation.arrangement q b).map .apply := by
    rw [Skeleton.roles_append, h.remaining, h.arranged, List.map_append]
  obtain ⟨op, -, hop⟩ := Skeleton.exists_of_roles (e := e) hroles (by simp [hsplit])
  refine ⟨p, hp, ?_⟩
  have hall : k.all = (k.inputs ++ (k.joins ++ front)) ++ e :: (back ++ k.columns ++
      k.create :: k.unique) := by
    simp [all, hrows]
  have hworks := hlaid.worksOn hall hop
  rwa [hinput] at hworks

theorem forall_columns {p : Role → Prop} (hp : ∀ item, p (.retrieve item)) :
    ∀ e ∈ k.columns, p e.role :=
  Skeleton.forall_of_roles h.columns (List.forall_mem_map.mpr fun item _ => hp item)

theorem parts_columns (hlaid : k.all.Laid s .dropped none first) (hjoins : k.joins ≠ []) :
    ∃ joined, k.rows.getLast? = some joined ∧ ∀ e ∈ k.columns,
      e.own.parts = .text "Retrieve" :: e.label.parts ++ [.text "from", .ref joined.own.id] := by
  have hrows : k.rows = k.joins ++ (k.remaining ++ k.arranged) := List.append_assoc ..
  obtain ⟨joined, hlast, hinput⟩ := h.input?_rows (k.remaining ++ k.arranged) hjoins
    (by rw [hrows]; exact List.Subset.refl _)
  rw [← hrows] at hlast hinput
  refine ⟨joined, hlast, fun e he => ?_⟩
  obtain ⟨front, back, hsplit⟩ := List.append_of_mem he
  have hall : k.all = (k.inputs ++ k.rows ++ front) ++ e :: (back ++ k.create :: k.unique) := by
    simp [all, hsplit]
  have hretrieved : ∀ e ∈ k.columns, e.role.carries = false :=
    h.forall_columns (p := fun role => role.carries = false) fun _ => rfl
  have hfront : (k.inputs ++ k.rows ++ front).rows none = joined.result := by
    rw [Skeleton.rows, Skeleton.input?, Skeleton.carrier?_append_of_not fun e he =>
      hretrieved e (by simp [hsplit, he]), ← Skeleton.input?, hinput]
    rfl
  obtain ⟨item, -, hitem⟩ := Skeleton.exists_of_roles h.columns he
  rw [(hlaid.follows hall).parts, hitem, Skeleton.sentence, hfront]
  simp [Label.before, Label.text, Entry.result, Label.step]

theorem parts_create (hlaid : k.all.Laid s .dropped none first) :
    k.create.own.parts = .text "Create table with columns for" ::
      (Label.enumeration (k.columns.map Entry.result)).parts := by
  have hall : k.all = (k.inputs ++ k.rows ++ k.columns) ++ k.create :: k.unique := rfl
  have hinputs : k.inputs.filter (·.role.retrieves) = [] := by
    simpa using h.forall_inputs (p := fun role => role.retrieves = false) (fun _ _ => rfl)
      fun _ _ => rfl
  have hrows : k.rows.filter (·.role.retrieves) = [] := by
    simpa using h.forall_rows (p := fun role => role.retrieves = false) (fun _ _ => rfl)
      fun _ => rfl
  have hcolumns : k.columns.filter (·.role.retrieves) = k.columns :=
    List.filter_eq_self.mpr
      (h.forall_columns (p := fun role => role.retrieves = true) fun _ => rfl)
  have hretrieved : (k.inputs ++ k.rows ++ k.columns).retrieved = k.columns.map Entry.result := by
    simp [Skeleton.retrieved, hinputs, hrows, hcolumns]
  rw [(hlaid.follows hall).parts, h.create, Skeleton.sentence, hretrieved]
  rfl

theorem exists_load {i : Nat} (hsource : sources[i]? = some source) :
    ∃ e, k.loads[i]? = some e ∧ e.role = .store i source := by
  have hrole : k.loads.roles[i]? = some (.store i source) := by
    simp [h.loads, Role.stores, List.getElem?_zipIdx, hsource]
  rw [Skeleton.roles, List.getElem?_map] at hrole
  obtain ⟨e, he, hstore⟩ := Option.map_eq_some_iff.mp hrole
  exact ⟨e, he, hstore⟩

theorem stores_loads (hlaid : k.all.Laid s .dropped none first) {i : Nat}
    (hsource : sources[i]? = some source) :
    ∃ e, k.loads[i]? = some e ∧ e.Stores s source := by
  obtain ⟨e, he, hrole⟩ := h.exists_load hsource
  obtain ⟨front, back, hsplit⟩ := List.append_of_mem (List.mem_of_getElem? he)
  have hall : k.all = front ++ e :: (back ++ k.pushed ++ k.rows ++ k.columns ++
      k.create :: k.unique) := by
    simp [all, inputs, hsplit]
  obtain ⟨hpart, hparts⟩ := hlaid.follows hall
  rw [hrole] at hpart hparts
  simp only [Role.part, Skeleton.sentence] at hpart hparts
  refine ⟨e, he, ?_⟩
  cases hrelation : source.relation with
  | table path aliasName =>
    rw [hrelation] at hparts
    exact .inl ⟨path, aliasName, hrelation, hparts⟩
  | derived query aliasName =>
    rw [hrelation] at hpart hparts
    obtain ⟨init, last, hinner, hlabel, -⟩ := concludes_query s query _ _ hpart
    refine .inr ⟨query, aliasName, init, last, hrelation, hinner, ?_⟩
    rw [hparts, show e.label = .step last.id from hlabel]
    rfl

theorem matches_joins (he : e ∈ k.joins) (hrole : e.role = .join place source) :
    e.Matches s source := by
  obtain ⟨n, hpart⟩ := h.words e (by simp [all, JoinSkeleton.rows, he])
  obtain ⟨role, label, inner, id, parts⟩ := e
  obtain rfl : role = .join place source := hrole
  simp only [Role.part] at hpart
  cases hconstraint : source.constraint with
  | unconstrained =>
    rw [hconstraint] at hpart
    cases hpart
    exact .inl ⟨hconstraint, rfl⟩
  | on condition =>
    rw [hconstraint] at hpart
    obtain ⟨equalities, hequalities, rest, hrest, heq⟩ := Draft.bind_eq_ok.mp hpart
    cases hrest
    cases heq
    exact .inr ⟨condition, n, equalities.value, hconstraint, by simpa using hequalities, rfl⟩
  | shared columns =>
    rw [hconstraint] at hpart
    cases hpart
  | natural =>
    rw [hconstraint] at hpart
    cases hpart

end JoinSkeleton.Spells

end QuerySteps
