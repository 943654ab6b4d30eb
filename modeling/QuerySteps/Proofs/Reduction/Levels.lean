import Mathlib.Data.List.Forall2
import QuerySteps.Sql.Reduce

/-!
# Levels of parentheses

A parenthesised query may stand inside others, and each of these levels may order and limit rows.
Reducing keeps what does so if it is all on one level, wherever that is, and refuses the query if
two levels do (`Surface.reduce_inside`). The operands of a set operation are bodies of their own:
what modifies their rows stays with them.
-/

namespace QuerySteps.Sql

theorem Reduced.bind_eq_ok {α β : Type} {x : Reduced α} {f : α → Reduced β} {b : β} :
    (x >>= f) = .ok b ↔ ∃ a, x = .ok a ∧ f a = .ok b := by
  cases x with
  | error e => exact iff_of_false nofun nofun
  | ok a => exact ⟨fun h => ⟨a, rfl, h⟩, fun ⟨_, ha, h⟩ => by cases ha; exact h⟩

/-- What orders and limits the rows of a query. -/
structure RowModifiers where
  orderBy : List OrderItem := []
  limit : Option Expr := none
  offset : Option Expr := none

namespace RowModifiers

def isPresent (m : RowModifiers) : Bool :=
  !m.orderBy.isEmpty || m.limit.isSome || m.offset.isSome

/-- The query over a body whose rows are modified so. -/
def on (m : RowModifiers) (body : QueryBody) : Query :=
  { body, orderBy := m.orderBy, limit := m.limit, offset := m.offset }

/-- The query over a body with the modifiers of all levels, at most one of which may have any. -/
def gather (body : QueryBody) (modifiers : List RowModifiers) : Reduced Query :=
  match modifiers.filter (·.isPresent) with
  | [] => pure { body }
  | [m] => pure (m.on body)
  | _ => noCounterpart "nested ORDER BY / LIMIT"

theorem hasRowModifiers_on (m : RowModifiers) (body : QueryBody) :
    (m.on body).hasRowModifiers = m.isPresent := rfl

/-- Modifiers that are there have no place on a query that has its own. -/
theorem modify_eq (m : RowModifiers) (inner : Query) :
    inner.modify m.orderBy m.limit m.offset =
      if m.isPresent then
        if inner.hasRowModifiers then noCounterpart "nested ORDER BY / LIMIT"
        else .ok (m.on inner.body)
      else .ok inner := by
  obtain ⟨_ | _, _ | _, _ | _⟩ := m <;> rfl

/-- One more level around the others modifies the query that they stand for. -/
theorem gather_cons (body : QueryBody) (m : RowModifiers) (ms : List RowModifiers) :
    gather body (m :: ms) =
      gather body ms >>= fun inner => inner.modify m.orderBy m.limit m.offset := by
  have hkept : ∀ n ∈ ms.filter (·.isPresent), n.isPresent = true := fun n hn =>
    (List.mem_filter.mp hn).2
  simp only [modify_eq, gather, List.filter_cons]
  generalize ms.filter (·.isPresent) = kept at hkept ⊢
  cases m.isPresent with
  | false => rcases kept with _ | ⟨_, _ | _⟩ <;> rfl
  | true =>
    rcases kept with _ | ⟨n, _ | _⟩
    · rfl
    · have hn : n.isPresent = true := hkept n (List.mem_cons_self ..)
      simp [bind, Except.bind, pure, Except.pure, hasRowModifiers_on, hn]
    · rfl

end RowModifiers

namespace Surface

/-- The clauses that one query puts after its body. -/
structure Level where
  orderBy : OrderBy := .keys []
  limits : Option LimitClause := none

def Level.reduce (l : Level) : Reduced RowModifiers := do
  let orderBy ← l.orderBy.reduce
  let (limit, offset) ← reduceLimits l.limits
  pure { orderBy, limit, offset }

/-- The query of the level over a body. -/
def Level.around (l : Level) (body : Body) : Query :=
  { body, orderBy := l.orderBy, limits := l.limits }

/-- A body inside parenthesised queries, the outermost of them first. -/
def Body.inside (body : Body) : List Level → Body
  | [] => body
  | l :: ls => .query (l.around (body.inside ls))

/-- Whether the body is more than a query between parentheses. -/
def Body.isInnermost : Body → Bool
  | .query _ => false
  | _ => true

theorem Level.reduce_eq_ok {l : Level} {m : RowModifiers} :
    l.reduce = .ok m ↔
      l.orderBy.reduce = .ok m.orderBy ∧ reduceLimits l.limits = .ok (m.limit, m.offset) := by
  simp only [reduce, Reduced.bind_eq_ok]
  constructor
  · rintro ⟨orderBy, horder, ⟨limit, offset⟩, hlimits, h⟩
    cases h
    exact ⟨horder, hlimits⟩
  · rintro ⟨horder, hlimits⟩
    exact ⟨_, horder, _, hlimits, rfl⟩

theorem Level.reduce_around {l : Level} {m : RowModifiers} (h : l.reduce = .ok m) (body : Body) :
    (l.around body).reduce =
      body.reduce >>= fun inner => inner.modify m.orderBy m.limit m.offset := by
  obtain ⟨horder, hlimits⟩ := reduce_eq_ok.mp h
  simp only [around, Query.reduce, refuse, Bool.false_eq_true, if_false, horder, hlimits]
  cases body.reduce <;> rfl

/-- An innermost body has no modifiers, and a set operation has its operands as they are. -/
theorem Body.reduce_innermost {body : Body} {inner : Sql.Query} (hbody : body.isInnermost = true)
    (h : body.reduce = .ok inner) : inner = { body := inner.body } ∧
      ∀ op quantifier left right, body = .setOperation op quantifier left right →
        ∃ all l r, quantifier.reduce = .ok all ∧ left.reduce = .ok l ∧ right.reduce = .ok r ∧
          inner.body = .setOperation op all l r := by
  cases body with
  | select block =>
    obtain ⟨b, -, hb⟩ := Reduced.bind_eq_ok.mp h
    cases hb
    exact ⟨rfl, nofun⟩
  | query q => cases hbody
  | setOperation op quantifier left right =>
    obtain ⟨all, hall, h⟩ := Reduced.bind_eq_ok.mp h
    obtain ⟨l, hl, h⟩ := Reduced.bind_eq_ok.mp h
    obtain ⟨r, hr, h⟩ := Reduced.bind_eq_ok.mp h
    cases h
    refine ⟨rfl, ?_⟩
    rintro _ _ _ _ ⟨⟩
    exact ⟨all, l, r, hall, hl, hr, rfl⟩
  | foreign name => cases h

theorem Body.reduce_inside {body : Body} {inner : QueryBody} {levels : List Level}
    {modifiers : List RowModifiers} (hbody : body.reduce = .ok { body := inner })
    (hlevels : List.Forall₂ (fun l m => l.reduce = .ok m) levels modifiers) :
    (body.inside levels).reduce = RowModifiers.gather inner modifiers := by
  induction hlevels with
  | nil => exact hbody
  | cons hlevel _ ih =>
    rw [RowModifiers.gather_cons, ← ih]
    exact Level.reduce_around hlevel _

/-- Limit and offset do not change places, whichever of them is written first. -/
theorem LimitClause.reduce_spellings {limit offset : Expr} {l o : Sql.Expr}
    (hlimit : limit.reduce = .ok l) (hoffset : offset.reduce = .ok o) :
    LimitClause.reduce (.limitOffset (some limit) (some offset) false) = .ok (some l, some o) ∧
      LimitClause.reduce (.offsetComma offset limit) = .ok (some l, some o) := by
  simp only [LimitClause.reduce, reduceOption, hlimit, hoffset]
  exact ⟨rfl, rfl⟩

/-- What parenthesised queries inside each other stand for if each part alone can be reduced. They
stand for a query exactly if at most one level orders or limits rows. The query has the innermost
body and the modifiers of that level; modifiers on two levels have no counterpart. The two spellings
of LIMIT and OFFSET say the same. If the innermost body is a set operation, it combines its operands
as they stand for themselves, with their own modifiers. -/
theorem reduce_parenthesised {body : Body} {inner : Sql.Query} {level : Level}
    {levels : List Level} {modifiers : List RowModifiers} (hinnermost : body.isInnermost = true)
    (hbody : body.reduce = .ok inner)
    (hlevels : List.Forall₂ (fun l m => l.reduce = .ok m) (level :: levels) modifiers) :
    let query := level.around (body.inside levels)
    let present := modifiers.filter (·.isPresent)
    ((∃ r, query.reduce = .ok r) ↔ present.length ≤ 1) ∧
    (present = [] → query.reduce = .ok { body := inner.body }) ∧
    (∀ m, present = [m] → query.reduce = .ok (m.on inner.body)) ∧
    (1 < present.length → query.reduce = .error (.unsupported "nested ORDER BY / LIMIT")) ∧
    (∀ limit offset l o, limit.reduce = .ok l → offset.reduce = .ok o →
      LimitClause.reduce (.limitOffset (some limit) (some offset) false) = .ok (some l, some o) ∧
      LimitClause.reduce (.offsetComma offset limit) = .ok (some l, some o)) ∧
    ∀ op quantifier left right, body = .setOperation op quantifier left right →
      ∃ all l r, quantifier.reduce = .ok all ∧ left.reduce = .ok l ∧ right.reduce = .ok r ∧
        inner.body = .setOperation op all l r := by
  intro query present
  obtain ⟨hplain, hoperands⟩ := Body.reduce_innermost hinnermost hbody
  have hreduce : query.reduce = RowModifiers.gather inner.body modifiers :=
    Body.reduce_inside (hbody.trans (congrArg _ hplain)) hlevels
  have hspellings : ∀ limit offset l o, limit.reduce = .ok l → offset.reduce = .ok o →
      LimitClause.reduce (.limitOffset (some limit) (some offset) false) = .ok (some l, some o) ∧
      LimitClause.reduce (.offsetComma offset limit) = .ok (some l, some o) :=
    fun _ _ _ _ => LimitClause.reduce_spellings
  rw [hreduce, RowModifiers.gather, show modifiers.filter (·.isPresent) = present from rfl]
  rcases present with _ | ⟨m, _ | ⟨n, rest⟩⟩
  · exact ⟨iff_of_true ⟨_, rfl⟩ (Nat.zero_le 1), fun _ => rfl, nofun, nofun, hspellings, hoperands⟩
  · refine ⟨iff_of_true ⟨_, rfl⟩ (Nat.le_refl 1), nofun, ?_, nofun, hspellings, hoperands⟩
    rintro _ ⟨⟩
    rfl
  · exact ⟨iff_of_false nofun (by simp), nofun, nofun, fun _ => rfl, hspellings, hoperands⟩

def allRows (table : String) : Body :=
  .select
    { projection := [.all]
      sources := [{ relation := .table [.name ⟨table, false⟩] none false }]
      groupBy := .keys [] false }

/-- `(SELECT * FROM t ORDER BY x LIMIT 1) UNION ALL SELECT * FROM u`. -/
def unionOfFirst : Body :=
  let first : Level :=
    { orderBy := .keys [{ key := .identifier ⟨"x", false⟩ }]
      limits := some (.limitOffset (some (.literal (.number "1"))) none false) }
  .setOperation .union .all (.query (first.around (allRows "t"))) (allRows "u")

/-- `((unionOfFirst LIMIT 3, 2))`: the level in the middle skips three rows and takes two. -/
theorem reduce_parenthesised_unionOfFirst :
    let number (text : String) : Expr := .literal (.number text)
    let skipping : Level := { limits := some (.offsetComma (number "3") (number "2")) }
    let modifiers : List RowModifiers :=
      [{}, { limit := some (.literal (.number "2")), offset := some (.literal (.number "3")) }, {}]
    unionOfFirst.isInnermost = true ∧
    List.Forall₂ (fun l m => l.reduce = .ok m) [{}, skipping, {}] modifiers ∧
    ∃ inner l r, unionOfFirst.reduce = .ok inner ∧
      (Level.around {} (unionOfFirst.inside [skipping, {}])).reduce = .ok
        { inner with
          limit := some (.literal (.number "2")), offset := some (.literal (.number "3")) } ∧
      inner.body = .setOperation .union true l r ∧ l.orderBy.length = 1 ∧
      l.limit = some (.literal (.number "1")) := by
  intro number skipping modifiers
  have hlevels : List.Forall₂ (fun l m => l.reduce = .ok m) [{}, skipping, {}] modifiers :=
    .cons rfl (.cons rfl (.cons rfl .nil))
  have hinnermost : unionOfFirst.isInnermost = true := rfl
  obtain ⟨-, -, hone, -, -, hoperands⟩ := reduce_parenthesised hinnermost rfl hlevels
  obtain ⟨all, l, r, ⟨⟩, ⟨⟩, hr, hinner⟩ := hoperands _ _ _ _ rfl
  exact ⟨hinnermost, hlevels, _, _, r, rfl, hone _ rfl, hinner, rfl, rfl⟩

end Surface

end QuerySteps.Sql
