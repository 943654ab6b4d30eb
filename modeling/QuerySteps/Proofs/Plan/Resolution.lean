import QuerySteps.Plan.Render
import QuerySteps.Proofs.Plan.WellOrdered

/-!
# Resolving references

A reference is shown as the number of the last step that has its identifier, and that step has to
stand before the one that refers to it. `Resolves` says so without numbers, for any plan: references
may be to later steps or to none, and identifiers may be repeated.

Validation and rendering go through the references in the same order, each with numbers of its own.
They accept the same plans and stop at the same reference, the first that does not resolve
(`validate_lines_agree`).
-/

namespace QuerySteps

namespace Plan

/-- Between the steps `before` and `rest` a reference resolves if a step before has the identifier
and none that follows has it too. -/
def Resolves (before rest : List Step) (id : StepId) : Prop :=
  id ∈ ids before ∧ id ∉ ids rest

instance (before rest : List Step) (id : StepId) : Decidable (Resolves before rest id) :=
  inferInstanceAs (Decidable (_ ∧ _))

/-- All references of the plan resolve. -/
def Resolved (plan : Plan) : Prop :=
  ∀ before s after, plan = before ++ s :: after → ∀ id ∈ s.refs, Resolves before (s :: after) id

/-- The first reference in display order that does not resolve is to `id`. -/
def FirstUnresolved (plan : Plan) (id : StepId) : Prop :=
  ∃ before s after left right, plan = before ++ s :: after ∧ s.refs = left ++ id :: right ∧
    ¬ Resolves before (s :: after) id ∧ (∀ i ∈ left, Resolves before (s :: after) i) ∧
    ∀ b t a, plan = b ++ t :: a → b.length < before.length → ∀ i ∈ t.refs, Resolves b (t :: a) i

variable {before rest : List Step} {refs : List StepId} {id : StepId}

theorem position?_lt_iff (before rest : List Step) (id : StepId) :
    (∃ p, position? id (before ++ rest) = some p ∧ p < before.length + 1) ↔
      Resolves before rest id := by
  rw [position?_append]
  cases hr : position? id rest with
  | some q =>
    have hmem : id ∈ ids rest :=
      Decidable.of_not_not fun h => by simp [position?_eq_none.mpr h] at hr
    have hpos := (position?_bounds hr).1
    refine iff_of_false ?_ fun h => h.2 hmem
    rintro ⟨p, hp, hlt⟩
    simp only [Option.map_some, Option.or, Option.some.injEq] at hp
    omega
  | none =>
    have hmem : id ∉ ids rest := position?_eq_none.mp hr
    simp only [Option.map_none, Option.or, Resolves, hmem, not_false_iff, and_true]
    constructor
    · rintro ⟨p, hp, -⟩
      exact Decidable.of_not_not fun h => by simp [position?_eq_none.mpr h] at hp
    · intro h
      obtain ⟨p, hp⟩ := Option.ne_none_iff_exists'.mp fun hnone => position?_eq_none.mp hnone h
      exact ⟨p, hp, Nat.lt_succ_of_le (position?_bounds hp).2⟩

theorem badRef?_cons_of_resolves (h : Resolves before rest id) :
    badRef? (before ++ rest) (before.length + 1) (id :: refs) =
      badRef? (before ++ rest) (before.length + 1) refs := by
  obtain ⟨p, hp, hlt⟩ := (position?_lt_iff before rest id).mpr h
  refine List.find?_cons_of_neg ?_
  simp [hp, hlt]

theorem badRef?_cons_of_not_resolves (h : ¬ Resolves before rest id) :
    badRef? (before ++ rest) (before.length + 1) (id :: refs) = some id := by
  have hplace := mt (position?_lt_iff before rest id).mp h
  refine List.find?_cons_of_pos ?_
  cases hp : position? id (before ++ rest) with
  | none => rfl
  | some p => simpa [hp] using hplace

/-- Either all references of a step resolve or the check finds the first that does not. -/
theorem badRef?_cases (before rest : List Step) (refs : List StepId) :
    (badRef? (before ++ rest) (before.length + 1) refs = none ∧
      ∀ id ∈ refs, Resolves before rest id) ∨
    ∃ id left right, badRef? (before ++ rest) (before.length + 1) refs = some id ∧
      refs = left ++ id :: right ∧ ¬ Resolves before rest id ∧
      ∀ i ∈ left, Resolves before rest i := by
  induction refs with
  | nil => exact .inl ⟨rfl, by simp⟩
  | cons id refs ih =>
    by_cases hid : Resolves before rest id
    · rw [badRef?_cons_of_resolves hid]
      rcases ih with ⟨hnone, hall⟩ | ⟨bad, left, right, hbad, hrefs, hnot, hleft⟩
      · exact .inl ⟨hnone, List.forall_mem_cons.mpr ⟨hid, hall⟩⟩
      · exact .inr ⟨bad, id :: left, right, hbad, by rw [hrefs]; rfl, hnot,
          List.forall_mem_cons.mpr ⟨hid, hleft⟩⟩
    · exact .inr ⟨id, [], refs, badRef?_cons_of_not_resolves hid, rfl, hid, by simp⟩

/-! ## What validation finds -/

/-- Validation accepts the plan or stops at its first reference that does not resolve. -/
theorem validate_cases (plan : Plan) :
    (plan.validate = .ok () ∧ plan.Resolved) ∨
      ∃ id, plan.validate = .error (.unresolved id) ∧ plan.FirstUnresolved id := by
  -- `before` holds the steps that passed; the next one joins them before the rest is looked at.
  suffices hfrom : ∀ rest before, plan = before ++ rest →
      (∀ b t a, plan = b ++ t :: a → b.length < before.length → ∀ i ∈ t.refs,
        Resolves b (t :: a) i) →
      (validateFrom plan (before.length + 1) rest = .ok () ∧ plan.Resolved) ∨
        ∃ id, validateFrom plan (before.length + 1) rest = .error (.unresolved id) ∧
          plan.FirstUnresolved id from
    hfrom plan [] rfl (by simp)
  intro rest
  induction rest with
  | nil =>
    intro before hplan hpassed
    refine .inl ⟨rfl, fun b t a hb => hpassed b t a hb ?_⟩
    have := congrArg List.length (hb.symm.trans hplan)
    simp only [List.length_append, List.length_cons, List.length_nil] at this
    omega
  | cons s rest ih =>
    intro before hplan hpassed
    unfold validateFrom
    rcases badRef?_cases before (s :: rest) s.refs with
      ⟨hnone, hall⟩ | ⟨id, left, right, hsome, hrefs, hnot, hleft⟩
    · rw [hplan, hnone, ← hplan]
      have hnext := ih (before ++ [s]) (by simp [hplan]) fun b t a hb hlt => ?_
      · simpa using hnext
      · rw [List.length_append, List.length_singleton] at hlt
        rcases Nat.lt_succ_iff_lt_or_eq.mp hlt with hlt | heq
        · exact hpassed b t a hb hlt
        · -- The only step at the place of `s` is `s` itself.
          obtain ⟨rfl, hrest⟩ := List.append_inj (hb.symm.trans hplan) heq
          cases hrest
          exact hall
    · rw [hplan, hsome, ← hplan]
      exact .inr ⟨id, rfl, before, s, rest, left, right, hplan, hrefs, hnot, hleft, hpassed⟩

/-! ## What rendering finds -/

end Plan

def failure? {ε α : Type} : Except ε α → Option ε
  | .ok _ => none
  | .error e => some e

@[simp] theorem failure?_ok {ε α : Type} (a : α) : failure? (.ok a : Except ε α) = none := rfl

@[simp] theorem failure?_error {ε α : Type} (e : ε) :
    failure? (.error e : Except ε α) = some e := rfl

theorem Part.failure?_render_ref (before rest : List Step) (offset : Nat) (id : StepId) :
    failure? ((ref id).render (offset + before.length + 1)
      (Plan.numberOf (before ++ rest) offset)) =
        if Plan.Resolves before rest id then none else some (.unresolved id) := by
  have hplace := Plan.position?_lt_iff before rest id
  cases hp : Plan.position? id (before ++ rest) with
  | none => simp_all [render, Plan.numberOf, throw, throwThe, MonadExceptOf.throw]
  | some p =>
    simp only [hp, Option.some.injEq, exists_eq_left'] at hplace
    simp only [render, Plan.numberOf, hp, Option.map_some, ← hplace]
    by_cases hlt : p < before.length + 1
    · rw [if_pos hlt, if_pos (by omega)]; rfl
    · rw [if_neg hlt, if_neg (by omega)]; rfl

/-- Writing the fragments of a step out fails where the check of the step does. -/
theorem Step.failure?_renderParts (before rest : List Step) (offset : Nat) (parts : List Part)
    (sentence : List Char) :
    failure? (renderParts (offset + before.length + 1) (Plan.numberOf (before ++ rest) offset)
      sentence parts) =
        (Plan.badRef? (before ++ rest) (before.length + 1) (parts.filterMap Part.ref?)).map
          PlanError.unresolved := by
  induction parts generalizing sentence with
  | nil => rfl
  | cons part parts ih =>
    cases part with
    | text words => exact ih _
    | ref id =>
      have href := Part.failure?_render_ref before rest offset id
      rw [Part.filterMap_ref?_ref, renderParts]
      by_cases hid : Plan.Resolves before rest id
      · rw [Plan.badRef?_cons_of_resolves hid]
        rw [if_pos hid] at href
        cases hrender : (Part.ref id).render (offset + before.length + 1)
            (Plan.numberOf (before ++ rest) offset) with
        | ok fragment => exact ih _
        | error e => simp [hrender] at href
      · rw [Plan.badRef?_cons_of_not_resolves hid]
        rw [if_neg hid] at href
        cases hrender : (Part.ref id).render (offset + before.length + 1)
            (Plan.numberOf (before ++ rest) offset) with
        | ok fragment => simp [hrender] at href
        | error e =>
          rw [hrender] at href
          exact href

namespace Plan

theorem failure?_renderFrom (offset : Nat) (before rest : List Step) :
    failure? (renderFrom (Plan.numberOf (before ++ rest) offset) (offset + before.length + 1)
      rest) = failure? (validateFrom (before ++ rest) (before.length + 1) rest) := by
  induction rest generalizing before with
  | nil => rfl
  | cons s rest ih =>
    have hparts := Step.failure?_renderParts before (s :: rest) offset s.parts []
    have hrest := ih (before ++ [s])
    simp only [List.append_assoc, List.singleton_append, List.length_append,
      List.length_singleton, ← Nat.add_assoc] at hrest
    simp only [renderFrom, Step.render, validateFrom, Step.refs]
    cases hbad : badRef? (before ++ s :: rest) (before.length + 1)
        (s.parts.filterMap Part.ref?) with
    | some id =>
      cases hwritten : Step.renderParts (offset + before.length + 1)
          (Plan.numberOf (before ++ s :: rest) offset) [] s.parts with
      | ok written => simp [hbad, hwritten] at hparts
      | error e =>
        rw [hbad, hwritten] at hparts
        exact hparts
    | none =>
      cases hwritten : Step.renderParts (offset + before.length + 1)
          (Plan.numberOf (before ++ s :: rest) offset) [] s.parts with
      | error e => simp [hbad, hwritten] at hparts
      | ok written =>
        rw [← hrest]
        cases hlines : renderFrom (Plan.numberOf (before ++ s :: rest) offset)
          (offset + before.length + 1 + 1) rest <;> rfl

/-- Validation and rendering accept the same plans, those whose references all resolve, and both
stop at the first reference that does not. -/
theorem validate_lines_agree (plan : Plan) (offset : Nat) :
    (plan.Resolved ∧ plan.validate = .ok () ∧ ∃ lines, plan.lines offset = .ok lines) ∨
      ∃ id, plan.FirstUnresolved id ∧ plan.validate = .error (.unresolved id) ∧
        plan.lines offset = .error (.unresolved id) := by
  have hsame : failure? (plan.lines offset) = failure? plan.validate :=
    failure?_renderFrom offset [] plan
  rcases validate_cases plan with ⟨hok, hresolved⟩ | ⟨id, herror, hfirst⟩
  · refine .inl ⟨hresolved, hok, ?_⟩
    rw [hok] at hsame
    cases hlines : plan.lines offset with
    | ok lines => exact ⟨lines, rfl⟩
    | error e => simp [hlines] at hsame
  · refine .inr ⟨id, hfirst, herror, ?_⟩
    rw [herror] at hsame
    cases hlines : plan.lines offset with
    | ok lines => simp [hlines] at hsame
    | error e => simpa [hlines] using hsame

end Plan

end QuerySteps
