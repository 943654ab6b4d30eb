import QuerySteps.Plan.Render
import QuerySteps.Proofs.Plan.Resolution

/-!
# The lines of a plan

A plan that can be shown has one line for each step, which says its number and its sentence
(`line_of_lines`). A well-ordered plan can be shown, because it is valid.
-/

namespace QuerySteps

/-- The line of a step shown as `number`, once its fragments are written out. -/
def Step.line (number : Nat) (sentence : List Char) : String :=
  number.repr ++ ". " ++ String.ofList (Sentence.close sentence)

theorem Part.render_ref {number n : Nat} {numberOf : StepId → Option Nat} {id : StepId}
    (hn : numberOf id = some n) (hlt : n < number) :
    (ref id).render number numberOf = .ok ("results of Step " ++ n.repr) := by
  simp only [render, hn, if_pos hlt]
  rfl

theorem Part.exists_of_render_ref {number : Nat} {numberOf : StepId → Option Nat} {id : StepId}
    {fragment : String} (h : (ref id).render number numberOf = .ok fragment) :
    ∃ n : Nat, fragment = "results of Step " ++ n.repr := by
  simp only [render] at h
  split at h
  · split at h
    · cases h
      exact ⟨_, rfl⟩
    · cases h
  · cases h

theorem Step.renderParts_cons {number : Nat} {numberOf : StepId → Option Nat} {p : Part}
    {parts : List Part} {fragment : String} (h : p.render number numberOf = .ok fragment)
    (sentence : List Char) :
    Step.renderParts number numberOf sentence (p :: parts) =
      Step.renderParts number numberOf (Sentence.push sentence fragment.toList) parts := by
  simp [renderParts, h, bind, Except.bind]

theorem Step.render_eq_ok {number : Nat} {numberOf : StepId → Option Nat} {s : Step}
    {line : String} (h : s.render number numberOf = .ok line) : ∃ sentence,
      Step.renderParts number numberOf [] s.parts = .ok sentence ∧
      line = Step.line number sentence := by
  unfold Step.render at h
  cases hwritten : Step.renderParts number numberOf [] s.parts with
  | error e => simp [hwritten, bind, Except.bind] at h
  | ok sentence =>
    rw [hwritten] at h
    cases h
    exact ⟨sentence, rfl, rfl⟩

namespace Plan

theorem renderFrom_cons_eq_ok {numberOf : StepId → Option Nat} {number : Nat} {s : Step}
    {rest : List Step} {lines : List String}
    (h : renderFrom numberOf number (s :: rest) = .ok lines) : ∃ line others,
      s.render number numberOf = .ok line ∧ renderFrom numberOf (number + 1) rest = .ok others ∧
      lines = line :: others := by
  simp only [renderFrom] at h
  cases hline : s.render number numberOf with
  | error e => simp [hline, bind, Except.bind] at h
  | ok line =>
    cases hothers : renderFrom numberOf (number + 1) rest with
    | error e => simp [hline, hothers, bind, Except.bind] at h
    | ok others =>
      simp only [hline, hothers, bind, Except.bind, pure, Except.pure, Except.ok.injEq] at h
      exact ⟨line, others, rfl, rfl, h.symm⟩

theorem line_of_renderFrom {numberOf : StepId → Option Nat} {number : Nat} {steps : List Step}
    {lines : List String} (h : renderFrom numberOf number steps = .ok lines) :
    lines.length = steps.length ∧ ∀ (i : Nat) t, steps[i]? = some t → ∃ sentence,
      Step.renderParts (number + i) numberOf [] t.parts = .ok sentence ∧
      lines[i]? = some (Step.line (number + i) sentence) := by
  induction steps generalizing number lines with
  | nil =>
    cases h
    exact ⟨rfl, by simp⟩
  | cons s rest ih =>
    obtain ⟨line, others, hline, hothers, rfl⟩ := renderFrom_cons_eq_ok h
    obtain ⟨hlength, hall⟩ := ih hothers
    refine ⟨by simp [hlength], ?_⟩
    rintro (_ | i) t ht
    · obtain rfl : s = t := by simpa using ht
      obtain ⟨sentence, hsentence, rfl⟩ := Step.render_eq_ok hline
      exact ⟨sentence, hsentence, rfl⟩
    · obtain ⟨sentence, hsentence, hat⟩ := hall i t (by simpa using ht)
      rw [Nat.add_right_comm, Nat.add_assoc] at hsentence hat
      exact ⟨sentence, hsentence, by simpa using hat⟩

theorem line_of_lines {plan : Plan} {offset : Nat} {lines : List String}
    (h : plan.lines offset = .ok lines) :
    lines.length = plan.length ∧ ∀ (i : Nat) t, plan[i]? = some t → ∃ sentence,
      Step.renderParts (offset + i + 1) (plan.numberOf offset) [] t.parts = .ok sentence ∧
      lines[i]? = some (Step.line (offset + i + 1) sentence) := by
  obtain ⟨hlength, hall⟩ := line_of_renderFrom h
  simp only [Nat.add_right_comm _ 1] at hall
  exact ⟨hlength, hall⟩

/-- Every step of a well-ordered plan has a line. -/
theorem WellOrdered.exists_lines {plan : Plan} (h : plan.WellOrdered) (offset : Nat) :
    ∃ lines, plan.lines offset = .ok lines ∧ lines.length = plan.length ∧
      ∀ (i : Nat) t, plan[i]? = some t → ∃ sentence,
        Step.renderParts (offset + i + 1) (plan.numberOf offset) [] t.parts = .ok sentence ∧
        lines[i]? = some (Step.line (offset + i + 1) sentence) := by
  have hsame : failure? (plan.lines offset) = failure? plan.validate :=
    failure?_renderFrom offset [] plan
  rw [h.validate_eq_ok] at hsame
  cases hlines : plan.lines offset with
  | error e => simp [hlines] at hsame
  | ok lines => exact ⟨lines, rfl, line_of_lines hlines⟩

end Plan

end QuerySteps
