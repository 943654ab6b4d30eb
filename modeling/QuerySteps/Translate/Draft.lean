import QuerySteps.Plan.Error
import QuerySteps.Plan.Label

/-!
# Drafts

A draft is a computation that writes steps. It takes identifiers from the count of its session: from
the first free one it yields a value, the steps it adds and the identifier that is free afterwards,
or it fails. What a draft adds does not depend on the steps already written, only on the count.

Binding a draft is translating a part and adding its plan to the plan at hand, in one: the steps of
the part follow those already there. Parts are translated in the order in which their plans are
added, and no step is written between the two, so nothing can tell them apart.
-/

namespace QuerySteps

/-- What a draft yields. -/
structure Drafted (α : Type) where
  value : α
  steps : List Step
  /-- The first identifier that is still free. -/
  next : StepId
  deriving Repr, DecidableEq

/-- A computation that yields a value and adds steps, or fails. -/
def Draft (α : Type) : Type :=
  StepId → Except PlanError (Drafted α)

namespace Draft

protected def pure {α : Type} (a : α) : Draft α :=
  fun next => .ok ⟨a, [], next⟩

protected def bind {α β : Type} (x : Draft α) (f : α → Draft β) : Draft β := fun next =>
  match x next with
  | .error e => .error e
  | .ok first =>
    match f first.value first.next with
    | .error e => .error e
    | .ok second => .ok { second with steps := first.steps ++ second.steps }

instance : Monad Draft where
  pure := Draft.pure
  bind := Draft.bind

protected theorem bind_pure {α : Type} (x : Draft α) : Draft.bind x Draft.pure = x := by
  funext next
  unfold Draft.bind Draft.pure
  cases x next with
  | error e => rfl
  | ok r => simp

protected theorem pure_bind {α β : Type} (a : α) (f : α → Draft β) :
    Draft.bind (Draft.pure a) f = f a := by
  funext next
  simp only [Draft.bind, Draft.pure, List.nil_append]
  cases f a next <;> rfl

protected theorem bind_assoc {α β γ : Type} (x : Draft α) (f : α → Draft β) (g : β → Draft γ) :
    Draft.bind (Draft.bind x f) g = Draft.bind x fun a => Draft.bind (f a) g := by
  funext next
  unfold Draft.bind
  cases x next with
  | error e => rfl
  | ok r =>
    simp only
    cases f r.value r.next with
    | error e => rfl
    | ok t =>
      simp only
      cases g t.value t.next with
      | error e => rfl
      | ok u => simp [List.append_assoc]

instance : LawfulMonad Draft :=
  LawfulMonad.mk' _ Draft.bind_pure Draft.pure_bind Draft.bind_assoc

/-- A run of one draft after another is a run of the first and a run of the second from where the
first stopped. -/
theorem bind_eq_ok {α β : Type} {x : Draft α} {f : α → Draft β} {first : StepId} {r : Drafted β} :
    (x >>= f) first = .ok r ↔ ∃ a, x first = .ok a ∧ ∃ b, f a.value a.next = .ok b ∧
      r = { b with steps := a.steps ++ b.steps } := by
  show Draft.bind x f first = .ok r ↔ _
  unfold Draft.bind
  cases x first with
  | error e => simp
  | ok a =>
    cases hb : f a.value a.next with
    | error e => simp [hb]
    | ok b => simp [hb, eq_comm]

theorem bind_eq_error {α β : Type} {x : Draft α} {f : α → Draft β} {first : StepId}
    {e : PlanError} : (x >>= f) first = .error e ↔
      x first = .error e ∨ ∃ a, x first = .ok a ∧ f a.value a.next = .error e := by
  show Draft.bind x f first = .error e ↔ _
  unfold Draft.bind
  cases x first with
  | error e => simp
  | ok a => cases hb : f a.value a.next <;> simp [hb]

def fail {α : Type} (e : PlanError) : Draft α :=
  fun _ => .error e

/-- A result that adds no steps. -/
def ofExcept {α : Type} (r : Except PlanError α) : Draft α :=
  fun next => r.map fun a => ⟨a, [], next⟩

/-- Adds a step and yields the label of its results. -/
def step (sentence : Label) : Draft Label :=
  fun next => .ok ⟨.step next, [⟨next, sentence.parts⟩], next + 1⟩

def optional {α : Type} : Option (Draft α) → Draft (Option α)
  | none => pure none
  | some d => do
    let a ← d
    pure (some a)

/-- Drafts one after the other, with all their values. -/
def sequence {α : Type} : List (Draft α) → Draft (List α)
  | [] => pure []
  | d :: ds => do
    let a ← d
    let rest ← sequence ds
    pure (a :: rest)

end Draft

end QuerySteps
