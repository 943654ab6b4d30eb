import QuerySteps.Plan.Error
import QuerySteps.Sql.Query.Columns

/-!
# The sources of a join

FROM is read as one chain of relations, each joined to the result of those before it; a comma joins
like a cross join without a condition. A filter on one source alone may run before the joins unless
an outer join would then see rows that the filter removes: neither the side that an outer join
fills with unknown values nor anything before such a join's other side is filtered early.
-/

namespace QuerySteps

open Sql

/-- One relation of the FROM clause, under the name the other clauses use for it. -/
structure Source where
  name : Name
  relation : Relation
  /-- How the relation joins those before it; without effect for the first one. -/
  kind : JoinKind
  constraint : JoinConstraint
  /-- Whether filters on this relation may run before the joins. -/
  pushable : Bool

namespace Source

/-- Whether a join of this kind may invent a row in place of the relation that it adds. -/
def fillsOwn : JoinKind → Bool
  | .left | .full => true
  | _ => false

/-- Whether a join of this kind may invent a row in place of the relations before it. -/
def fillsEarlier : JoinKind → Bool
  | .right | .full => true
  | _ => false

/-- For each relation of a chain of joins, whether it may be filtered before the joins. -/
def pushableFlags : List JoinKind → List Bool
  | [] => []
  | kind :: later => (!fillsOwn kind && !later.any fillsEarlier) :: pushableFlags later

/-- A relation and its place in the chain of joins. -/
abbrev Link := Relation × JoinKind × JoinConstraint

/-- The links of one FROM item; its first relation is joined like a comma. -/
def linksOfItem (item : FromItem) : List Link :=
  (item.relation, .cross, .unconstrained) ::
    item.joins.map fun j => (j.relation, j.kind, j.constraint)

def links (items : List FromItem) : List Link :=
  items.flatMap linksOfItem

/-- The source for a link; a derived table needs an alias. -/
def ofLink (link : Link) (pushable : Bool) : Except PlanError Source :=
  match link.1.exposedName? with
  | some name => pure ⟨name, link.1, link.2.1, link.2.2, pushable⟩
  | none => throw (.unsupported "derived table without alias")

def ofLinks (links : List Link) : Except PlanError (List Source) :=
  (links.zip (pushableFlags (links.map (·.2.1)))).mapM fun (link, pushable) => ofLink link pushable

def ofItems (items : List FromItem) : Except PlanError (List Source) :=
  ofLinks (links items)

/-! ## What sources are made of -/

def link (source : Source) : Link :=
  (source.relation, source.kind, source.constraint)

theorem links_cons (item : FromItem) (items : List FromItem) :
    links (item :: items) = linksOfItem item ++ links items := List.flatMap_cons

theorem length_linksOfItem (item : FromItem) :
    (linksOfItem item).length = item.joins.length + 1 := by
  simp [linksOfItem]

theorem map_links_fst (items : List FromItem) :
    (links items).map (·.1) = items.flatMap (·.relations) := by
  simp [links, List.map_flatMap, linksOfItem, FromItem.relations, Function.comp_def]

theorem links_cases (items : List FromItem) :
    links items = [] ∨
      ∃ relation rest, links items = (relation, .cross, .unconstrained) :: rest := by
  cases items with
  | nil => exact .inl rfl
  | cons item items => exact .inr ⟨item.relation, _, rfl⟩

theorem ofLink_eq_ok {l : Link} {pushable : Bool} {source : Source}
    (h : ofLink l pushable = .ok source) : (source.link, source.pushable) = (l, pushable) ∧
      source.relation.exposedName? = some source.name := by
  unfold ofLink at h
  split at h
  · rename_i name hname
    cases h
    exact ⟨rfl, hname⟩
  · cases h

theorem map_mapM_ofLink {ls : List (Link × Bool)} {sources : List Source}
    (h : (ls.mapM fun (l, pushable) => ofLink l pushable) = .ok sources) :
    sources.map (fun source => (source.link, source.pushable)) = ls ∧
      ∀ source ∈ sources, source.relation.exposedName? = some source.name := by
  induction ls generalizing sources with
  | nil =>
    cases h
    exact ⟨rfl, by simp⟩
  | cons l ls ih =>
    simp only [List.mapM_cons] at h
    cases hl : ofLink l.1 l.2 with
    | error e => simp [hl, bind, Except.bind] at h
    | ok source =>
      cases hls : ls.mapM fun (l, pushable) => ofLink l pushable with
      | error e => simp [hl, hls, bind, Except.bind] at h
      | ok rest =>
        simp only [hl, hls, bind, Except.bind, pure, Except.pure, Except.ok.injEq] at h
        obtain ⟨hlink, hname⟩ := ofLink_eq_ok hl
        obtain ⟨hlinks, hnames⟩ := ih hls
        rw [← h, List.map_cons, hlinks, hlink]
        exact ⟨rfl, List.forall_mem_cons.mpr ⟨hname, hnames⟩⟩

theorem length_pushableFlags (kinds : List JoinKind) :
    (pushableFlags kinds).length = kinds.length := by
  induction kinds with
  | nil => rfl
  | cons kind later ih => simp [pushableFlags, ih]

/-- The sources stand for the links of FROM in order, and whether a source is pushable follows from
the kinds of the joins. -/
theorem map_ofItems {items : List FromItem} {sources : List Source}
    (h : ofItems items = .ok sources) : sources.map link = links items ∧
      sources.map (·.pushable) = pushableFlags (sources.map (·.kind)) := by
  have hls := (map_mapM_ofLink h).1
  have hlen : (links items).length = (pushableFlags ((links items).map (·.2.1))).length := by
    rw [length_pushableFlags, List.length_map]
  have hlinks : sources.map link = links items := by
    have := congrArg (List.map Prod.fst) hls
    rwa [List.map_map, List.map_fst_zip (Nat.le_of_eq hlen)] at this
  refine ⟨hlinks, ?_⟩
  have := congrArg (List.map Prod.snd) hls
  rw [List.map_map, List.map_snd_zip (Nat.le_of_eq hlen.symm), ← hlinks, List.map_map] at this
  exact this

/-- A source goes by the name that its relation has in the other clauses. -/
theorem exposedName?_of_mem_ofItems {items : List FromItem} {sources : List Source}
    (h : ofItems items = .ok sources) :
    ∀ source ∈ sources, source.relation.exposedName? = some source.name :=
  (map_mapM_ofLink h).2

theorem length_ofItems {items : List FromItem} {sources : List Source}
    (h : ofItems items = .ok sources) : sources.length = (links items).length := by
  rw [← (map_ofItems h).1, List.length_map]

theorem map_kind_ofItems {items : List FromItem} {sources : List Source}
    (h : ofItems items = .ok sources) :
    sources.map (·.kind) = (links items).map (·.2.1) := by
  rw [← (map_ofItems h).1, List.map_map]
  rfl

theorem ofLink_cases (l : Link) (pushable : Bool) :
    (l.1.exposedName?.isSome = true ∧ ∃ source, ofLink l pushable = .ok source) ∨
    (l.1.exposedName?.isSome = false ∧
      ofLink l pushable = .error (.unsupported "derived table without alias")) := by
  unfold ofLink
  cases l.1.exposedName? with
  | none => exact .inr ⟨rfl, rfl⟩
  | some name => exact .inl ⟨rfl, _, rfl⟩

theorem mapM_ofLink_cases (ls : List (Link × Bool)) :
    ((∀ l ∈ ls, l.1.1.exposedName?.isSome = true) ∧
      ∃ sources, (ls.mapM fun (l, pushable) => ofLink l pushable) = .ok sources) ∨
    ((∃ l ∈ ls, l.1.1.exposedName?.isSome = false) ∧
      (ls.mapM fun (l, pushable) => ofLink l pushable) =
        .error (.unsupported "derived table without alias")) := by
  induction ls with
  | nil => exact .inl ⟨by simp, [], rfl⟩
  | cons l ls ih =>
    simp only [List.mapM_cons]
    rcases ofLink_cases l.1 l.2 with ⟨hn, source, hl⟩ | ⟨hn, hl⟩
    · rw [hl]
      rcases ih with ⟨hall, sources, hls⟩ | ⟨⟨l', hmem, hl'⟩, hls⟩
      · exact .inl ⟨List.forall_mem_cons.mpr ⟨hn, hall⟩, source :: sources, by rw [hls]; rfl⟩
      · exact .inr ⟨⟨l', List.mem_cons_of_mem _ hmem, hl'⟩, by rw [hls]; rfl⟩
    · exact .inr ⟨⟨l, List.mem_cons_self .., hn⟩, by rw [hl]; rfl⟩

theorem ofItems_cases (items : List FromItem) :
    ((∀ l ∈ links items, l.1.exposedName?.isSome = true) ∧
      ∃ sources, ofItems items = .ok sources) ∨
    ((∃ l ∈ links items, l.1.exposedName?.isSome = false) ∧
      ofItems items = .error (.unsupported "derived table without alias")) := by
  have hlen : (links items).length ≤ (pushableFlags ((links items).map (·.2.1))).length :=
    Nat.le_of_eq (by rw [length_pushableFlags, List.length_map])
  rcases mapM_ofLink_cases ((links items).zip (pushableFlags ((links items).map (·.2.1)))) with
    ⟨hall, hok⟩ | ⟨⟨l, hmem, hl⟩, herror⟩
  · refine .inl ⟨fun l hl => ?_, hok⟩
    rw [← List.map_fst_zip hlen] at hl
    obtain ⟨p, hp, rfl⟩ := List.mem_map.mp hl
    exact hall p hp
  · exact .inr ⟨⟨l.1, (List.of_mem_zip hmem).1, hl⟩, herror⟩

theorem exists_ofItems {items : List FromItem}
    (h : ∀ l ∈ links items, l.1.exposedName?.isSome = true) :
    ∃ sources, ofItems items = .ok sources := by
  obtain ⟨-, hok⟩ | ⟨⟨l, hl, hnone⟩, -⟩ := ofItems_cases items
  · exact hok
  · rw [h l hl] at hnone
    cases hnone

/-- The place of the first source that a qualifier names. -/
def indexOf? (sources : List Source) (qualifier : Name) : Option Nat :=
  sources.findIdx? (·.name.denotes qualifier)

/-- The place of the source that qualifies a column. -/
def ofColumn? (sources : List Source) (c : Column) : Option Nat :=
  c.table.bind (indexOf? sources)

/-- The place of the only source that the columns belong to, if there is one. -/
def ofColumns? (sources : List Source) : List Column → Option Nat
  | [] => none
  | [c] => ofColumn? sources c
  | c :: cs =>
    match ofColumn? sources c, ofColumns? sources cs with
    | some i, some j => if i = j then some i else none
    | _, _ => none

/-- The place of the source to which a condition is applied before the joins. -/
def pushTarget? (sources : List Source) (condition : Expr) : Option Nat :=
  (ofColumns? sources condition.columns).filter fun i => (sources[i]?.map (·.pushable)).getD false

end Source

end QuerySteps
