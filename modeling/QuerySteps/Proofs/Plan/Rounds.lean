import QuerySteps.Proofs.Plan.Simplification

/-!
# Rounds of simplification

What holds of simplifying any plan, also one that repeats identifiers or whose references are to
later steps, to themselves or to none. A round that counts a change leaves fewer steps, so rounds
come to an end (`Simplifier.exists_rounds`), and a pass only takes steps out
(`Plan.sublist_ids_inlineChecks`).
-/

namespace QuerySteps

namespace Plan

theorem sublist_ids_eraseStep (plan : Plan) (id : StepId) :
    (ids (plan.eraseStep id)).Sublist (ids plan) :=
  List.eraseP_sublist.map _

theorem sublist_ids_inlineCheck (plan : Plan) (target : StepId) :
    (ids (plan.inlineCheck target).plan).Sublist (ids plan) := by
  have herase := sublist_ids_eraseStep plan target
  unfold inlineCheck
  split
  · simp only
    split
    · split
      · rwa [ids_setParts]
      · exact herase
    · exact herase
  · exact List.Sublist.refl _

theorem sublist_ids_inlineEach (targets : List StepId) (plan : Plan) :
    (ids (plan.inlineEach targets).plan).Sublist (ids plan) := by
  induction targets generalizing plan with
  | nil => exact List.Sublist.refl _
  | cons target targets ih => exact (ih _).trans (sublist_ids_inlineCheck plan target)

theorem sublist_ids_inlineChecks (plan : Plan) :
    (ids plan.inlineChecks.plan).Sublist (ids plan) :=
  sublist_ids_inlineEach plan.singleUseChecks plan

end Plan

namespace Simplifier

open Plan

/-- The plan after the given number of rounds. -/
def after (s : Simplifier) : Nat → Plan → Plan
  | 0, plan => plan
  | rounds + 1, plan => s.after rounds (s.round plan).plan

/-- A round that counts a change leaves fewer steps. -/
theorem length_round_lt {s : Simplifier} {plan : Plan} (h : 0 < (s.round plan).count) :
    (s.round plan).plan.length < plan.length := by
  have hle : (s.round plan).plan.length + (s.round plan).count ≤ plan.length :=
    length_applyEach_le s.rules plan
  omega

theorem after_succ (s : Simplifier) (rounds : Nat) (plan : Plan) :
    s.after (rounds + 1) plan = (s.round (s.after rounds plan)).plan := by
  induction rounds generalizing plan with
  | zero => rfl
  | succ rounds ih => exact ih _

theorem simplify_of_round_zero {s : Simplifier} {plan next : Plan}
    (h : s.round plan = ⟨next, 0⟩) : s.simplify plan = next := by
  fun_cases simplify s plan with
  | case1 next' heq =>
    rw [h] at heq
    cases heq
    rfl
  | case2 next' k heq =>
    rw [h] at heq
    cases heq

theorem simplify_of_round_succ {s : Simplifier} {plan next : Plan} {k : Nat}
    (h : s.round plan = ⟨next, k + 1⟩) : s.simplify plan = s.simplify next := by
  fun_cases simplify s plan with
  | case1 next' heq =>
    rw [h] at heq
    cases heq
  | case2 next' k' heq =>
    rw [h] at heq
    cases heq
    rfl

/-- Simplifying makes rounds that count changes until one counts none. -/
theorem exists_rounds (s : Simplifier) (plan : Plan) : ∃ rounds,
    rounds + (s.simplify plan).length ≤ plan.length ∧
    (∀ i < rounds, 0 < (s.round (s.after i plan)).count) ∧
    (s.round (s.after rounds plan)).count = 0 ∧
    s.simplify plan = s.after (rounds + 1) plan := by
  have hle (plan : Plan) : (s.round plan).plan.length + (s.round plan).count ≤ plan.length :=
    length_applyEach_le s.rules plan
  fun_induction simplify s plan with
  | case1 plan next heq =>
    have hnext := hle plan
    rw [heq] at hnext
    refine ⟨0, ?_, ?_, ?_, ?_⟩
    · simpa using hnext
    · exact fun i hi => absurd hi (Nat.not_lt_zero i)
    · rw [after, heq]
    · rw [after, after, heq]
  | case2 plan next k heq ih =>
    have hnext := hle plan
    rw [heq] at hnext
    obtain ⟨rounds, hlength, hcounts, hlast, hend⟩ := ih
    have hafter (i : Nat) : s.after (i + 1) plan = s.after i next := by rw [after, heq]
    refine ⟨rounds + 1, ?_, ?_, ?_, ?_⟩
    · dsimp only at hnext
      omega
    · rintro (_ | i) hi
      · rw [after, heq]
        exact Nat.succ_pos k
      · rw [hafter]
        exact hcounts i (Nat.lt_of_succ_lt_succ hi)
    · rw [hafter, hlast]
    · rw [hafter, hend]

theorem sublist_ids_round (n : Nat) (plan : Plan) :
    (ids ((copies n).round plan).plan).Sublist (ids plan) := by
  induction n generalizing plan with
  | zero => exact List.Sublist.refl _
  | succ n ih =>
    rw [round_copies_succ]
    exact (ih _).trans (sublist_ids_inlineChecks plan)

theorem sublist_ids_after (n rounds : Nat) (plan : Plan) :
    (ids ((copies n).after rounds plan)).Sublist (ids plan) := by
  induction rounds generalizing plan with
  | zero => exact List.Sublist.refl _
  | succ rounds ih => exact (ih _).trans (sublist_ids_round n plan)

theorem sublist_ids_simplify (n : Nat) (plan : Plan) :
    (ids ((copies n).simplify plan)).Sublist (ids plan) := by
  obtain ⟨rounds, -, -, -, hend⟩ := exists_rounds (copies n) plan
  rw [hend]
  exact sublist_ids_after n (rounds + 1) plan

/-- Simplifying any plan ends. All rounds but the last count changes and leave fewer steps, so there
is at most one round more than there are steps, and the steps that are left stand in the order in
which they stood. -/
theorem simplify_ends (n : Nat) (plan : Plan) : ∃ rounds,
    rounds + 1 ≤ plan.length + 1 ∧
    (∀ i < rounds, 0 < ((copies n).round ((copies n).after i plan)).count ∧
      ((copies n).after (i + 1) plan).length < ((copies n).after i plan).length) ∧
    ((copies n).round ((copies n).after rounds plan)).count = 0 ∧
    (copies n).simplify plan = (copies n).after (rounds + 1) plan ∧
    (ids ((copies n).simplify plan)).Sublist (ids plan) := by
  obtain ⟨rounds, hlength, hcounts, hlast, hend⟩ := exists_rounds (copies n) plan
  refine ⟨rounds, by omega, fun i hi => ⟨hcounts i hi, ?_⟩, hlast, hend, ?_⟩
  · rw [after_succ]
    exact length_round_lt (hcounts i hi)
  · rw [hend]
    exact sublist_ids_after n (rounds + 1) plan

end Simplifier

end QuerySteps
