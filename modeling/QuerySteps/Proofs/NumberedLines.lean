import QuerySteps.Proofs.DataFlow
import QuerySteps.Proofs.Translate.Texts

/-!
# Numbered lines

A planned query is shown with one numbered line for each step exactly if no step breaks its own
line. If the texts of the settings have no line breaks, only names and constants of the query can
break a line: they are shown as they are (`Planner.numberedLines_planQuery`).
-/

namespace QuerySteps

open Sql

namespace Plan

theorem SingleUse.unbroken_inlined {plan : Plan} {target : StepId} (u : plan.SingleUse target)
    (h : ∀ t ∈ plan, t.Unbroken) : ∀ t ∈ u.inlined, t.Unbroken := by
  intro t ht
  obtain ⟨ht, -⟩ | rfl := u.mem_inlined_cases ht
  · exact h t ht
  · have huser : ∀ p ∈ u.left ++ .ref target :: u.right, '\n' ∉ p.wording :=
      u.parts_eq ▸ h _ u.mem_user
    obtain ⟨hleft, hrest⟩ := List.forall_mem_append.mp huser
    obtain ⟨-, hright⟩ := List.forall_mem_cons.mp hrest
    have hcheck : ∀ p ∈ u.check.parts.tail, '\n' ∉ p.wording :=
      fun p hp => h _ u.mem_check p (List.mem_of_mem_tail hp)
    have hbody : ∀ p ∈ u.body, '\n' ∉ p.wording := by
      simp only [SingleUse.body, inlineBody]
      generalize (if u.user.isCheck = true then _ else _) = grouped
      cases grouped with
      | true =>
        refine List.forall_mem_append.mpr ⟨List.forall_mem_cons.mpr ⟨?_, hcheck⟩, ?_⟩
        · simp
        · simp
      | false => exact hcheck
    exact List.forall_mem_append.mpr ⟨hleft, List.forall_mem_append.mpr ⟨hbody, hright⟩⟩

theorem Inlines.unbroken {n : Nat} {a b : Plan} (h : Inlines n a b) (ha : ∀ t ∈ a, t.Unbroken) :
    ∀ t ∈ b, t.Unbroken := by
  induction h with
  | refl => exact ha
  | step u _ ih => exact ih (u.unbroken_inlined ha)

end Plan

namespace Planner

variable {s : Settings} {q : Query} {sheet : Sheet}

/-- If neither the settings nor the query have line breaks, no step of the plan has one. -/
theorem unbroken_planQuery (hsink : '\n' ∉ s.sink.toList)
    (hprologue : ∀ words ∈ s.prologue, '\n' ∉ words.toList)
    (hinterlude : ∀ words ∈ s.interlude, '\n' ∉ words.toList) (hq : q.Unbroken)
    (h : Planner.planQuery { settings := s } q = .ok sheet) : ∀ t ∈ sheet.plan, t.Unbroken := by
  obtain ⟨r, hdraft, rfl, -, hplain⟩ := exists_draft h
  have hclear : (draft s q).Clear :=
    .bind ((hereditary_clear s).query q hq) fun rows hr => .step (by simp [hr, hsink])
  have hsteps := (hclear 0 r hdraft).1
  intro t ht
  obtain ht | ⟨-, words, hparts, hwords⟩ := mem_finish ht
  · split at ht
    · obtain ⟨k, hinlines⟩ : ∃ k, Plan.Inlines k r.steps (({} : Simplifier).simplify r.steps) :=
        Simplifier.inlines_simplify hplain.ordered 1
      exact hinlines.unbroken hsteps t ht
    · exact hsteps t ht
  · have hbreak : '\n' ∉ words.toList := by
      rcases hwords with hmem | heq
      · exact hprologue words hmem
      · exact hinterlude words heq
    simpa [Step.Unbroken, hparts] using hbreak

theorem plan_ne_nil (h : Planner.planQuery { settings := s } q = .ok sheet) : sheet.plan ≠ [] := by
  obtain ⟨r, hdraft, rfl, -, hplain⟩ := exists_draft h
  have hconcludes : (draft s q).Concludes := by
    refine .last fun rows => .step ⟨_, _, rfl, ?_⟩
    rw [String.append_assoc]
    exact append_ne (by decide) _
  obtain ⟨init, last, hsteps, -, hlast⟩ := hconcludes 0 r hdraft
  have hmem : last ∈ r.steps := hsteps ▸ by simp
  obtain ⟨t, ht⟩ : ∃ t, t ∈ (if s.simplify then Sheet.simplify ⟨r.next, r.steps⟩ {} else
      ⟨r.next, r.steps⟩).plan := by
    split
    · have hids : last.id ∈ Plan.ids (({} : Simplifier).simplify r.steps) := by
        rw [hplain.ids_simplify]
        exact List.mem_map_of_mem (List.mem_filter.mpr ⟨hmem, by simp [hlast]⟩)
      obtain ⟨t, ht, -⟩ := List.mem_map.mp hids
      exact ⟨t, ht⟩
    · exact ⟨last, hmem⟩
  exact List.ne_nil_of_mem (mem_finish_of_mem ht)

theorem numberedLines_iff_of_planQuery (offset : Nat) {marker : String}
    (hmarker : '\n' ∉ marker.toList) (h : Planner.planQuery { settings := s } q = .ok sheet) :
    ∃ text, sheet.plan.format marker offset = .ok text ∧
      (NumberedLines text marker offset sheet.plan.length ↔ ∀ t ∈ sheet.plan, ¬ t.Breaks) := by
  obtain ⟨r, -, -, hordered, -⟩ := exists_draft h
  obtain ⟨lines, hlines, -⟩ := hordered.exists_lines offset
  exact Plan.numberedLines_iff hmarker (plan_ne_nil h) hlines

/-- If the settings and the marker have no line breaks, the text of a planned query has a numbered
line for each step exactly if no step breaks its line. No step does if no name and no constant of
the query has a line break. -/
theorem numberedLines_planQuery (marker : String) (offset : Nat) (hsink : '\n' ∉ s.sink.toList)
    (hprologue : ∀ words ∈ s.prologue, '\n' ∉ words.toList)
    (hinterlude : ∀ words ∈ s.interlude, '\n' ∉ words.toList) (hmarker : '\n' ∉ marker.toList)
    (h : Planner.planQuery { settings := s } q = .ok sheet) :
    ∃ text, sheet.plan.format marker offset = .ok text ∧
      (NumberedLines text marker offset sheet.plan.length ↔ ∀ t ∈ sheet.plan, ¬ t.Breaks) ∧
      (q.Unbroken → NumberedLines text marker offset sheet.plan.length) := by
  obtain ⟨text, htext, hiff⟩ := numberedLines_iff_of_planQuery offset hmarker h
  refine ⟨text, htext, hiff, fun hq => hiff.mpr fun t ht => ?_⟩
  exact (unbroken_planQuery hsink hprologue hinterlude hq h t ht).not_breaks

theorem numberedLines_planQuery_nestedJoin : ∃ sheet text,
    Planner.planQuery {} nestedJoin = .ok sheet ∧ sheet.plan.format "#" 10 = .ok text ∧
    (NumberedLines text "#" 10 sheet.plan.length ↔ ∀ t ∈ sheet.plan, ¬ t.Breaks) ∧
    NumberedLines text "#" 10 sheet.plan.length := by
  obtain ⟨sheet, hsheet⟩ : ∃ sheet, Planner.planQuery {} nestedJoin = .ok sheet :=
    exists_plan_iff.mpr (by decide)
  obtain ⟨text, htext, hiff, hq⟩ := numberedLines_planQuery "#" 10 (by simp) (by simp)
    (by simp) (by simp) hsheet
  exact ⟨sheet, text, hsheet, htext, hiff, hq (by decide)⟩

/-- `SELECT 'a⏎b' FROM t`, where the constant has a line break. -/
def brokenConstant : Query :=
  .ofSelect
    { projection := [.expr (.literal (.string "a\nb")) none]
      sources := [{ relation := .table [⟨"t", false⟩] none }] }

/-- The constant is shown with its line break, and the three steps take four lines. -/
theorem not_numberedLines_brokenConstant : ∃ sheet text,
    Planner.planQuery {} brokenConstant = .ok sheet ∧ sheet.plan.format "#" 0 = .ok text ∧
    '\n' ∉ ({} : Settings).sink.toList ∧ ({} : Settings).prologue = [] ∧
    ({} : Settings).interlude = none ∧ '\n' ∉ "#".toList ∧
    ¬ NumberedLines text "#" 0 sheet.plan.length := by
  have hdraft : draft {} brokenConstant 0 = .ok ⟨.step 2,
      [⟨0, [.text "Load data for table t"]⟩,
        ⟨1, [.text "Create table with columns", .text "'a\nb' (all lowercase)", .text "from",
          .ref 0]⟩,
        ⟨2, [.text "Write to 'result.csv' the", .ref 1]⟩], 3⟩ := by
    decide +kernel
  have hsheet := planQuery_of_draft hdraft
  have hmarker : '\n' ∉ "#".toList := by simp
  obtain ⟨text, htext, hiff⟩ := numberedLines_iff_of_planQuery 0 hmarker hsheet
  refine ⟨_, text, hsheet, htext, by simp, rfl, rfl, hmarker, fun hlines => ?_⟩
  refine hiff.mp hlines ⟨1, [.text "Create table with columns", .text "'a\nb' (all lowercase)",
    .text "from", .ref 0]⟩ ?_ (by decide)
  decide

end Planner

end QuerySteps
