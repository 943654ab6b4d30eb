import QuerySteps.Translate.Query

/-!
# The skeleton of a SELECT

A SELECT adds one step of its own for each thing that it does: storing a relation, filtering,
joining, grouping, making columns (`Role`). The condition, the keys or the columns that such a step
mentions are put into words before it, which may add the steps of checks and of subqueries. The
steps of the SELECT itself, each with those before it, are its skeleton (`Skeleton`).

`Skeleton.lay` makes a skeleton role by role. What a step refers to is found in the skeleton so far:
the latest result for one relation (`latest?`), the rows that all relations and clauses so far lead
to (`input?`), or the columns that were retrieved. The clauses that SELECTs over one and over
several relations share are runs of `lay`.
-/

namespace QuerySteps

open Sql

/-- What a step does with the rows of one input. -/
inductive Operation where
  /-- WHERE as a whole. -/
  | filter (condition : Expr)
  /-- A conjunct of WHERE after the joins. -/
  | late (conjunct : Expr)
  | group (keys : List Expr)
  | having (condition : Expr)
  | order (keys : List OrderItem)
  | skip (count : Expr)
  | keep (count : Expr)
  /-- Makes the table of the output columns. -/
  | columns (items : List SelectItem)
  | unique

namespace Operation

/-- The words of the step besides its input. -/
def part (s : Settings) (q : Qualifiers) : Operation → Draft Label
  | filter condition | late condition => condition.draft s .kept
  | group keys => Label.enumeration <$> Draft.sequence (draftsOfExprs s q keys)
  | having condition => condition.draft s q
  | order keys => Label.enumeration <$> Draft.sequence (draftsOfOrder s q keys)
  | skip count | keep count => count.draft s q
  | columns items => Label.enumeration <$> Draft.sequence (items.map (SelectItem.draft s))
  | unique => pure {}

def sentence (input : Option Label) (part : Label) : Operation → Label
  | filter _ =>
    (Label.text "Filter" ++ Draft.inputOr input).before "using condition:" ++ part
  | late _ => (Label.text "Filter" ++ Draft.inputOr input).before ":" ++ part
  | group _ => (Label.text "Group rows from" ++ Draft.inputOr input).before "using" ++ part
  | having _ =>
    (Label.text "Filter groups from" ++ Draft.inputOr input).before "using condition:" ++ part
  | order _ => (Label.text "Order rows from" ++ Draft.inputOr input).before "using" ++ part
  | skip _ => (Label.text "Skip the first" ++ part).before "rows from" ++ Draft.inputOr input
  | keep _ => (Label.text "Keep only" ++ part).before "rows from" ++ Draft.inputOr input
  | columns _ =>
    let table := Label.text "Create table with columns" ++ part
    input.elim table fun input => table.before "from" ++ input
  | unique => Label.text "Only keep unique rows from" ++ Draft.inputOr input

/-- GROUP BY, HAVING, ORDER BY, OFFSET and LIMIT, as far as they are present. -/
def arrangement (query : Query) (b : Select) : List Operation :=
  (if b.groupBy.isEmpty then [] else [group b.groupBy]) ++ b.having.toList.map having ++
    (if query.orderBy.isEmpty then [] else [order query.orderBy]) ++
    query.offset.toList.map skip ++ query.limit.toList.map keep

end Operation

/-- What a step of a SELECT itself does. -/
inductive Role where
  /-- Stores the relation at a place of FROM. -/
  | store (place : Nat) (source : Source)
  /-- Filters the relation at a place of FROM by a conjunct of WHERE. -/
  | early (place : Nat) (conjunct : Expr)
  /-- Joins the relation at a place of FROM to those before it. -/
  | join (place : Nat) (source : Source)
  | apply (op : Operation)
  | retrieve (item : SelectItem)
  /-- Makes the table of the retrieved columns. -/
  | collect

namespace Role

/-- The words of the step besides the results that it refers to. -/
def part (s : Settings) (q : Qualifiers) : Role → Draft Label
  | store _ source =>
    match source.relation with
    | .table .. => pure {}
    | .derived query _ => query.draft s
  | early _ conjunct => conjunct.draft s .kept
  | join _ source => source.constraint.draft s
  | apply op => op.part s q
  | retrieve item => item.draft s
  | collect => pure {}

/-- Whether the step results in the rows of the relation at the place. -/
def concerns (place : Nat) : Role → Bool
  | store p _ | early p _ => p == place
  | _ => false

/-- Whether the next join or clause goes on with the rows of the step. -/
def carries : Role → Bool
  | store place _ | early place _ => place == 0
  | retrieve _ => false
  | _ => true

def retrieves : Role → Bool
  | retrieve _ => true
  | _ => false

def joins : Role → Bool
  | join .. => true
  | _ => false

end Role

/-- A step of a SELECT itself, after the steps that its words need. -/
structure Entry where
  role : Role
  label : Label
  inner : List Step
  own : Step

namespace Entry

def steps (e : Entry) : List Step :=
  e.inner ++ [e.own]

/-- How later steps refer to the rows of the step. -/
def result (e : Entry) : Label :=
  .step e.own.id

end Entry

abbrev Skeleton := List Entry

namespace Skeleton

def steps (done : Skeleton) : List Step :=
  done.flatMap Entry.steps

def roles (done : Skeleton) : List Role :=
  done.map (·.role)

/-- The first identifier that is free after the entries, when they take those from `first` on. -/
def next (first : StepId) (done : Skeleton) : StepId :=
  (done.getLast?.map (·.own.id + 1)).getD first

/-- The latest entry for the relation at the place. -/
def latest? (place : Nat) (done : Skeleton) : Option Entry :=
  (done.filter (·.role.concerns place)).getLast?

def latest (place : Nat) (done : Skeleton) : Label :=
  ((done.latest? place).map Entry.result).getD {}

/-- The latest entry that the next join or clause goes on with. -/
def carrier? (done : Skeleton) : Option Entry :=
  (done.filter (·.role.carries)).getLast?

/-- What the next join or clause goes on with; `origin` is what the first of them does. -/
def input? (origin : Option Label) (done : Skeleton) : Option Label :=
  (done.carrier?.map Entry.result).or origin

def rows (origin : Option Label) (done : Skeleton) : Label :=
  Draft.inputOr (done.input? origin)

def retrieved (done : Skeleton) : List Label :=
  (done.filter (·.role.retrieves)).map Entry.result

def sentence (s : Settings) (origin : Option Label) (done : Skeleton) (part : Label) :
    Role → Label
  | .store _ source =>
    match source.relation with
    | .table path _ =>
      .text ("Load table " ++ s.tableText path ++ " and store as alias " ++ s.nameText source.name)
    | .derived .. => (Label.text "Store" ++ part).before ("as alias " ++ s.nameText source.name)
  | .early place _ => (Label.text "Filter" ++ done.latest place).before ":" ++ part
  | .join place source =>
    (Label.text source.kind.words ++ done.rows origin).before "with" ++ done.latest place ++ part
  | .apply op => op.sentence (done.input? origin) part
  | .retrieve _ => (Label.text "Retrieve" ++ part).before "from" ++ done.rows origin
  | .collect => Label.text "Create table with columns for" ++ Label.enumeration done.retrieved

/-! ## Lookups after one more entry -/

variable {origin : Option Label} {done : Skeleton} {e : Entry} {place : Nat}

@[simp] theorem steps_nil : steps [] = [] := rfl

@[simp] theorem steps_append (a b : Skeleton) : steps (a ++ b) = a.steps ++ b.steps :=
  List.flatMap_append

@[simp] theorem steps_cons (a : Skeleton) : steps (e :: a) = e.steps ++ a.steps :=
  List.flatMap_cons

@[simp] theorem roles_nil : roles [] = [] := rfl

@[simp] theorem roles_append (a b : Skeleton) : roles (a ++ b) = a.roles ++ b.roles :=
  List.map_append

@[simp] theorem roles_cons (a : Skeleton) : roles (e :: a) = e.role :: a.roles := rfl

@[simp] theorem length_roles (done : Skeleton) : done.roles.length = done.length :=
  List.length_map ..

theorem exists_of_roles {α : Type} {items : List α} {f : α → Role}
    (h : done.roles = items.map f) (he : e ∈ done) : ∃ a ∈ items, e.role = f a := by
  have hmem : e.role ∈ done.roles := List.mem_map_of_mem he
  rw [h] at hmem
  obtain ⟨a, ha, heq⟩ := List.mem_map.mp hmem
  exact ⟨a, ha, heq.symm⟩

@[simp] theorem next_nil (first : StepId) : next first [] = first := rfl

@[simp] theorem next_concat (first : StepId) : next first (done ++ [e]) = e.own.id + 1 := by
  simp [next]

theorem latest?_concat : (done ++ [e]).latest? place =
    if e.role.concerns place then some e else done.latest? place := by
  unfold latest?
  split <;> simp [*]

theorem latest_concat : (done ++ [e]).latest place =
    if e.role.concerns place then e.result else done.latest place := by
  unfold latest
  rw [latest?_concat]
  split <;> rfl

theorem carrier?_concat :
    (done ++ [e]).carrier? = if e.role.carries then some e else done.carrier? := by
  unfold carrier?
  split <;> simp [*]

theorem input?_concat : (done ++ [e]).input? origin =
    if e.role.carries then some e.result else done.input? origin := by
  unfold input?
  rw [carrier?_concat]
  split <;> rfl

theorem rows_concat : (done ++ [e]).rows origin =
    if e.role.carries then e.result else done.rows origin := by
  unfold rows
  rw [input?_concat]
  split <;> rfl

theorem retrieved_concat : (done ++ [e]).retrieved =
    done.retrieved ++ if e.role.retrieves then [e.result] else [] := by
  unfold retrieved
  split <;> simp [*]

end Skeleton

/-! ## Making skeletons -/

section

variable (s : Settings) (q : Qualifiers) (origin : Option Label)

/-- Puts the words of a step into a draft and adds the step. -/
def Role.lay (done : Skeleton) (role : Role) : Draft Entry := fun first =>
  match role.part s q first with
  | .error e => .error e
  | .ok r =>
    let own : Step := ⟨r.next, (done.sentence s origin r.value role).parts⟩
    .ok ⟨⟨role, r.value, r.steps, own⟩, r.steps ++ [own], r.next + 1⟩

/-- Adds the steps of the roles one after the other. -/
def Skeleton.lay (done : Skeleton) : List Role → Draft Skeleton
  | [] => pure done
  | role :: roles => do
    let e ← role.lay s q origin done
    lay (done ++ [e]) roles

/-- The entry follows the entries before it: its words are those of its role, put together from
`first` on, and its sentence refers to the results so far. -/
structure Entry.Follows (before : Skeleton) (first : StepId) (e : Entry) : Prop where
  part : e.role.part s q first = .ok ⟨e.label, e.inner, e.own.id⟩
  parts : e.own.parts = (before.sentence s origin e.label e.role).parts

def Entry.WorksOn (input : Option Label) (e : Entry) : Prop :=
  ∃ op, e.role = .apply op ∧ e.own.parts = (op.sentence input e.label).parts

/-- Every entry follows those before it. -/
inductive Skeleton.Laid (first : StepId) : Skeleton → Prop
  | nil : Laid first []
  | concat {done : Skeleton} {e : Entry} (h : Laid first done)
      (he : e.Follows s q origin done (done.next first)) : Laid first (done ++ [e])

end

section

variable {s : Settings} {q : Qualifiers} {origin : Option Label} {done : Skeleton} {first : StepId}

/-- A run for one role gives an entry of that role that follows the others. -/
theorem Role.lay_eq_ok {role : Role} {r : Drafted Entry}
    (h : role.lay s q origin done first = .ok r) :
    r.value.role = role ∧ r.value.Follows s q origin done first ∧ r.steps = r.value.steps ∧
      r.next = r.value.own.id + 1 := by
  unfold Role.lay at h
  cases hp : role.part s q first with
  | error e => simp [hp] at h
  | ok p =>
    simp only [hp, Except.ok.injEq] at h
    subst h
    exact ⟨rfl, ⟨hp, rfl⟩, rfl, rfl⟩

namespace Skeleton

theorem Laid.follows (h : done.Laid s q origin first) {before after : Skeleton} {e : Entry}
    (hdone : done = before ++ e :: after) : e.Follows s q origin before (before.next first) := by
  induction h generalizing after with
  | nil => simp at hdone
  | @concat done last _ hlast ih =>
    obtain rfl | ⟨front, x, rfl⟩ := List.eq_nil_or_concat after
    · obtain ⟨rfl, heq⟩ := List.append_inj' hdone rfl
      cases heq
      exact hlast
    · have hsplit : done ++ [last] = (before ++ e :: front) ++ [x] := by simp [hdone]
      exact ih (List.append_inj' hsplit rfl).1

theorem Laid.part (h : done.Laid s q origin first) {e : Entry} (he : e ∈ done) :
    ∃ n, e.role.part s q n = .ok ⟨e.label, e.inner, e.own.id⟩ := by
  obtain ⟨before, after, hdone⟩ := List.append_of_mem he
  exact ⟨_, (h.follows hdone).part⟩

theorem Laid.worksOn (h : done.Laid s q origin first) {before after : Skeleton} {e : Entry}
    {op : Operation} (hdone : done = before ++ e :: after) (hrole : e.role = .apply op) :
    e.WorksOn (before.input? origin) := by
  have hparts := (h.follows hdone).parts
  rw [hrole] at hparts
  exact ⟨op, hrole, hparts⟩

/-- A run of the roles adds one entry for each of them, and its steps are those of the entries. -/
theorem exists_of_lay {roles : List Role} {n : StepId} {r : Drafted Skeleton}
    (h : done.lay s q origin roles n = .ok r) :
    ∃ new : Skeleton, r.value = done ++ new ∧ new.roles = roles ∧ new.steps = r.steps := by
  induction roles generalizing done n r with
  | nil =>
    cases h
    exact ⟨[], (List.append_nil _).symm, rfl, rfl⟩
  | cons role roles ih =>
    obtain ⟨a, ha, b, hb, rfl⟩ := Draft.bind_eq_ok.mp h
    obtain ⟨hrole, -, hsteps, -⟩ := Role.lay_eq_ok ha
    obtain ⟨new, hvalue, hroles, hnew⟩ := ih hb
    refine ⟨a.value :: new, ?_, ?_, ?_⟩
    · simp [hvalue]
    · simp [hrole, hroles]
    · simp [hnew, hsteps]

/-- A run of the roles goes on from a skeleton that is laid. -/
theorem Laid.lay {roles : List Role} {n : StepId} {r : Drafted Skeleton}
    (hdone : done.Laid s q origin first) (hn : done.next first = n)
    (h : done.lay s q origin roles n = .ok r) : r.value.Laid s q origin first := by
  induction roles generalizing done n r with
  | nil =>
    cases h
    exact hdone
  | cons role roles ih =>
    obtain ⟨a, ha, b, hb, rfl⟩ := Draft.bind_eq_ok.mp h
    obtain ⟨-, hfollows, -, hnext⟩ := Role.lay_eq_ok ha
    have hfree : (done ++ [a.value]).next first = a.next := by rw [next_concat, hnext]
    have hlaid := ih (hdone.concat (hn ▸ hfollows)) hfree hb
    exact hlaid

theorem map_lay_eq_ok {α : Type} {f : Skeleton → α} {roles : List Role} {r : Drafted α}
    (h : (f <$> lay s q origin [] roles) first = .ok r) : ∃ skeleton : Skeleton,
      skeleton.Laid s q origin first ∧ skeleton.roles = roles ∧ skeleton.steps = r.steps := by
  rw [map_eq_pure_bind] at h
  obtain ⟨a, ha, b, hb, rfl⟩ := Draft.bind_eq_ok.mp h
  cases hb
  obtain ⟨new, hvalue, hroles, hsteps⟩ := exists_of_lay ha
  obtain rfl : a.value = new := hvalue
  exact ⟨a.value, Laid.nil.lay rfl ha, hroles, by simp [hsteps]⟩

theorem lay_append (a b : List Role) :
    done.lay s q origin (a ++ b) = done.lay s q origin a >>= fun d => d.lay s q origin b := by
  induction a generalizing done with
  | nil => simp [lay]
  | cons role a ih => simp [lay, ih]

theorem bind_role_congr {α : Type} {role : Role} {f g : Entry → Draft α}
    (h : ∀ e, e.role = role → f e = g e) :
    role.lay s q origin done >>= f = role.lay s q origin done >>= g := by
  funext n
  show Draft.bind _ _ n = Draft.bind _ _ n
  unfold Draft.bind
  cases hr : role.lay s q origin done n with
  | error e => rfl
  | ok r => simp only [h r.value (Role.lay_eq_ok hr).1]

theorem bind_lay_congr {α : Type} {roles : List Role} {f g : Skeleton → Draft α}
    (h : ∀ new : Skeleton, new.roles = roles → f (done ++ new) = g (done ++ new)) :
    done.lay s q origin roles >>= f = done.lay s q origin roles >>= g := by
  funext n
  show Draft.bind _ _ n = Draft.bind _ _ n
  unfold Draft.bind
  cases hr : done.lay s q origin roles n with
  | error e => rfl
  | ok r =>
    obtain ⟨new, hvalue, hroles, -⟩ := exists_of_lay hr
    simp only [hvalue, h new hroles]

theorem map_lay_congr {α : Type} {roles : List Role} {f g : Skeleton → α}
    (h : ∀ new : Skeleton, new.roles = roles → f (done ++ new) = g (done ++ new)) :
    f <$> done.lay s q origin roles = g <$> done.lay s q origin roles := by
  simp only [map_eq_pure_bind]
  exact bind_lay_congr fun new hnew => by rw [h new hnew]

/-- To word a step and to add it is to lay an entry. -/
theorem result_lay (role : Role) : (do
      let part ← role.part s q
      Draft.step (done.sentence s origin part role)) =
    Entry.result <$> role.lay s q origin done := by
  funext n
  show Draft.bind _ _ n = Draft.bind _ _ n
  unfold Draft.bind Role.lay
  cases role.part s q n with
  | error e => rfl
  | ok r => simp [Draft.step, Draft.pure, Entry.result]

/-! ## Clauses -/

theorem map_lay_singleton (role : Role) {f : Skeleton → Label}
    (h : ∀ e : Entry, e.role = role → f (done ++ [e]) = e.result) : (do
      let part ← role.part s q
      Draft.step (done.sentence s origin part role)) =
    f <$> done.lay s q origin [role] := by
  rw [result_lay, lay, map_bind, map_eq_pure_bind]
  exact bind_role_congr fun e he => by simp [lay, h e he]

theorem rows_lay (op : Operation) : (do
      let part ← op.part s q
      Draft.step (op.sentence (done.input? origin) part)) =
    rows origin <$> done.lay s q origin [.apply op] :=
  map_lay_singleton (.apply op) fun e he => by simp [rows_concat, he, Role.carries]

theorem group_lay (keys : List Expr) :
    GroupClauses.group (draftsOfExprs s q keys) (done.rows origin) = rows origin <$>
      done.lay s q origin ((if keys.isEmpty then [] else [Operation.group keys]).map .apply) := by
  cases keys with
  | nil => simp [GroupClauses.group, draftsOfExprs, lay]
  | cons key keys =>
    refine .trans ?_ (rows_lay (.group (key :: keys)))
    simp [GroupClauses.group, draftsOfExprs, Operation.part, Operation.sentence, rows]

theorem having_lay (condition : Option Expr) :
    GroupClauses.filter (draftOfOption s q condition) (done.rows origin) = rows origin <$>
      done.lay s q origin ((condition.toList.map Operation.having).map .apply) := by
  cases condition with
  | none => simp [GroupClauses.filter, draftOfOption, lay]
  | some e => exact rows_lay (.having e)

theorem order_lay (keys : List OrderItem) :
    RowClauses.order (draftsOfOrder s q keys) (done.rows origin) = rows origin <$>
      done.lay s q origin ((if keys.isEmpty then [] else [Operation.order keys]).map .apply) := by
  cases keys with
  | nil => simp [RowClauses.order, draftsOfOrder, lay]
  | cons key keys =>
    refine .trans ?_ (rows_lay (.order (key :: keys)))
    simp [RowClauses.order, draftsOfOrder, Operation.part, Operation.sentence, rows]

theorem cut_lay {words : String} (make : Expr → Operation)
    (hpart : ∀ count, (make count).part s q = count.draft s q)
    (hsentence : ∀ count input part, (make count).sentence input part =
      (Label.text words ++ part).before "rows from" ++ Draft.inputOr input)
    (count : Option Expr) :
    RowClauses.cut words (draftOfOption s q count) (done.rows origin) = rows origin <$>
      done.lay s q origin ((count.toList.map make).map .apply) := by
  cases count with
  | none => simp [RowClauses.cut, draftOfOption, lay]
  | some e =>
    refine .trans ?_ (rows_lay (make e))
    simp [RowClauses.cut, draftOfOption, hpart, hsentence, rows]

/-- The clauses between the rows of FROM and the columns. -/
theorem arrangement_lay (query : Query) (b : Select) : (do
      let grouped ← GroupClauses.apply
        ⟨draftsOfExprs s q b.groupBy, draftOfOption s q b.having⟩ (done.rows origin)
      RowClauses.apply ⟨draftsOfOrder s q query.orderBy, draftOfOption s q query.offset,
        draftOfOption s q query.limit⟩ grouped) = rows origin <$>
      done.lay s q origin ((Operation.arrangement query b).map .apply) := by
  simp only [Operation.arrangement, List.map_append, lay_append, GroupClauses.apply,
    RowClauses.apply, group_lay, having_lay, order_lay, bind_map_left, map_bind, bind_assoc,
    cut_lay .skip (fun _ => rfl) fun _ _ _ => rfl,
    cut_lay .keep (fun _ => rfl) fun _ _ _ => rfl]

theorem unique_lay {distinct : Bool} :
    Draft.unique distinct (done.rows origin) = rows origin <$>
      done.lay s q origin ((if distinct then [Operation.unique] else []).map .apply) := by
  cases distinct with
  | false => simp [Draft.unique, lay]
  | true =>
    refine .trans ?_ (rows_lay .unique)
    simp [Draft.unique, Operation.part, Operation.sentence, rows]

end Skeleton

end

end QuerySteps
