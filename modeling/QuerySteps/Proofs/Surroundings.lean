import QuerySteps.Proofs.DataFlow
import QuerySteps.Proofs.Plan.Resolution
import QuerySteps.Proofs.Translate.Renaming

/-!
# Texts around a plan

The prologue and the interlude only add steps of text. Planning succeeds with them exactly if it
does without them, and then the steps of the bare plan stand in the plan unchanged and in order:
behind the texts of the prologue, and each followed by the text of the interlude. Since the added
steps take fresh identifiers and refer to nothing, every reference still means the same step.
-/

namespace QuerySteps

open Sql Plan

/-! ## Translating without the texts -/

theorem Sql.Query.draft_congr {s s' : Settings} (h : ∀ n, s.nameText n = s'.nameText n)
    (query : Query) : query.draft s = query.draft s' := by
  have hnames : ∀ p ∈ query.pieces, p.Names fun _ => True := fun p _ => by cases p <;> trivial
  have hself : Rewording (fun _ => True) id s s := ⟨fun _ _ => rfl, fun _ _ _ _ => rfl⟩
  have hother : Rewording (fun _ => True) id s s' := ⟨fun n _ => h n, fun _ _ _ _ => rfl⟩
  exact (hself.draft_rename hnames).symm.trans (hother.draft_rename hnames)

theorem Planner.steps_surrounded (s : Settings) (prologue : List String)
    (interlude : Option String) (query : Query) :
    steps { s with prologue, interlude } query =
      steps { s with prologue := [], interlude := none } query := by
  have hnames (n : Name) : ({ s with prologue, interlude } : Settings).nameText n =
      ({ s with prologue := [], interlude := none } : Settings).nameText n := rfl
  unfold steps draft
  rw [query.draft_congr hnames]
  rfl

/-! ## Plans with texts around them -/

/-- Every step of the first list, followed by a step of the given words. -/
inductive FollowedBy (words : String) : List Step → List Step → Prop
  | nil : FollowedBy words [] []
  | cons {rest out : List Step} (step note : Step) (hnote : note.parts = [.text words])
      (h : FollowedBy words rest out) : FollowedBy words (step :: rest) (step :: note :: out)

/-- Every step, followed by a step of text if there is an interlude. -/
def Interleaved : Option String → List Step → List Step → Prop
  | none, steps, out => out = steps
  | some words, steps, out => FollowedBy words steps out

namespace Plan

/-- The step that a reference to `id` is shown as: the last one with the identifier. -/
def target? (plan : Plan) (id : StepId) : Option Step :=
  (plan.position? id).bind fun place => plan[place - 1]?

/-- A plan consists of the steps of a bare one, with the prologue in front and the interlude after
every step. -/
structure Surrounded (prologue : List String) (interlude : Option String) (bare plan : Plan) :
    Prop where
  display : ∃ front : List Step, front.map (·.parts) = prologue.map (fun words => [.text words]) ∧
    Interleaved interlude (front ++ bare) plan
  length : plan.length =
    if interlude.isSome then 2 * (prologue.length + bare.length)
    else prologue.length + bare.length
  nodup : plan.ids.Nodup
  resolved : plan.Resolved
  refs : plan.refs = bare.refs
  targets : ∀ id ∈ bare.refs, ∃ target ∈ bare,
    bare.target? id = some target ∧ plan.target? id = some target

theorem target?_of_mem {plan : Plan} (hnd : plan.ids.Nodup) {t : Step} (ht : t ∈ plan) :
    plan.target? t.id = some t := by
  obtain ⟨before, after, rfl⟩ := List.append_of_mem ht
  rw [ids_append, ids_cons] at hnd
  have hafter : position? t.id after = none :=
    position?_eq_none.mpr (List.nodup_cons.mp (List.nodup_append.mp hnd).2.1).1
  simp [target?, position?_append, position?, hafter, Nat.add_comm 1]

end Plan

namespace FollowedBy

variable {words : String} {steps out : List Step}

theorem subset (h : FollowedBy words steps out) : steps ⊆ out := by
  induction h with
  | nil => exact List.Subset.refl _
  | cons step note _ _ ih =>
    exact List.cons_subset_cons _ (List.subset_cons_of_subset _ ih)

theorem length (h : FollowedBy words steps out) : out.length = 2 * steps.length := by
  induction h with
  | nil => rfl
  | cons step note _ _ ih =>
    simp only [List.length_cons, ih]
    omega

end FollowedBy

theorem Sheet.followedBy_interleave (words : String) (next : StepId) (steps : List Step) :
    FollowedBy words steps (interleave words next steps) := by
  induction steps generalizing next with
  | nil => exact .nil
  | cons step rest ih => exact .cons step _ rfl (ih (next + 1))

namespace Interleaved

variable {interlude : Option String} {steps out : List Step}

theorem subset (h : Interleaved interlude steps out) : steps ⊆ out := by
  cases interlude with
  | none =>
    obtain rfl : out = steps := h
    exact List.Subset.refl _
  | some words => exact FollowedBy.subset h

theorem length (h : Interleaved interlude steps out) :
    out.length = if interlude.isSome then 2 * steps.length else steps.length := by
  cases interlude with
  | none => exact congrArg List.length h
  | some words => exact FollowedBy.length h

end Interleaved

namespace Plan

theorem WellOrdered.resolved {plan : Plan} (h : plan.WellOrdered) : plan.Resolved := by
  obtain ⟨-, hresolved⟩ | ⟨id, herror, -⟩ := validate_cases plan
  · exact hresolved
  · rw [h.validate_eq_ok] at herror
    cases herror

/-- Texts around a well-ordered plan, under identifiers that leave the whole well-ordered, change
the meaning of no reference. -/
theorem Surrounded.of_display {prologue : List String} {interlude : Option String}
    {bare plan : Plan} (hbare : bare.WellOrdered) (hplan : plan.WellOrdered)
    (hrefs : plan.refs = bare.refs) {front : List Step}
    (hfront : front.map (·.parts) = prologue.map fun words => [.text words])
    (h : Interleaved interlude (front ++ bare) plan) : Surrounded prologue interlude bare plan where
  display := ⟨front, hfront, h⟩
  length := by
    have hlength := congrArg List.length hfront
    rw [List.length_map, List.length_map] at hlength
    rw [h.length, List.length_append, hlength]
  nodup := hplan.nodup
  resolved := hplan.resolved
  refs := hrefs
  targets id hid := by
    have hmem := hbare.backward.refs_subset id hid
    rw [List.append_nil] at hmem
    obtain ⟨target, ht, rfl⟩ := List.mem_map.mp hmem
    exact ⟨target, ht, target?_of_mem hbare.nodup ht,
      target?_of_mem hplan.nodup (h.subset (List.mem_append_right _ ht))⟩

end Plan

namespace Planner

theorem interleaved_finish (p : Planner) (sheet : Sheet) :
    ∃ front : List Step,
      front.map (·.parts) = p.settings.prologue.map (fun words => [.text words]) ∧
      Interleaved p.settings.interlude
        (front ++ (if p.settings.simplify then sheet.simplify p.simplifier else sheet).plan)
        (p.finish sheet).plan := by
  obtain ⟨front, hplan, hfront⟩ := exists_prependAll
    (if p.settings.simplify then sheet.simplify p.simplifier else sheet) p.settings.prologue
  refine ⟨front, hfront, ?_⟩
  rw [← hplan]
  unfold finish
  cases p.settings.interlude with
  | none => exact rfl
  | some words => exact Sheet.followedBy_interleave words _ _

/-- With a prologue and an interlude a query is planned exactly if it is planned without them. It
fails with the same error, or the texts stand around the steps of the bare plan. -/
theorem planQuery_surrounded (s : Settings) (prologue : List String) (interlude : Option String)
    (query : Query) :
    (∃ bare sheet,
      planQuery { settings := { s with prologue := [], interlude := none } } query = .ok bare ∧
      planQuery { settings := { s with prologue, interlude } } query = .ok sheet ∧
      Surrounded prologue interlude bare.plan sheet.plan) ∨
    ∃ e,
      planQuery { settings := { s with prologue := [], interlude := none } } query = .error e ∧
      planQuery { settings := { s with prologue, interlude } } query = .error e := by
  have hsame := steps_surrounded s prologue interlude query
  simp only [planQuery_eq orderly_default, hsame]
  cases hsteps : steps { s with prologue := [], interlude := none } query with
  | error e => exact .inr ⟨e, rfl, rfl⟩
  | ok body =>
    have hbody := sound_steps hsteps
    obtain ⟨front, hfront, hdisplay⟩ :=
      interleaved_finish { settings := { s with prologue, interlude } } body
    have hrefs := refs_finish { settings := { s with prologue, interlude } } body
    exact .inl ⟨_, _, rfl, rfl, .of_display (sound_finish orderly_default hbody).ordered
      (sound_finish orderly_default hbody).ordered hrefs hfront hdisplay⟩

end Planner

end QuerySteps
