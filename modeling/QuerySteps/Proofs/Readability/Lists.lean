import QuerySteps.Proofs.Readability.Items

/-!
# Lists in plans

A list of labels stands in one step of a draft, between fragments that do not depend on it
(`ListDraft`). In the simplified plan that step is found at the same place from the end whatever the
items are, and it tells how many they are, so plans from lists of different lengths differ as texts
(`ListDraft.lines_ne`).
-/

namespace QuerySteps

open Sql QuerySteps.Part Mark Draft

theorem Step.outline_eq_of_line_eq {number : Nat} {numberOf numberOf' : StepId → Option Nat}
    {parts parts' : List Part} {sentence sentence' : List Char} {a b : List Mark}
    (ha : Outlined parts a) (hb : Outlined parts' b)
    (h : Step.renderParts number numberOf [] parts = .ok sentence)
    (h' : Step.renderParts number numberOf' [] parts' = .ok sentence')
    (heq : Step.line number sentence = Step.line number sentence') : a = b := by
  obtain ⟨hclosed, hread⟩ := Step.read_renderParts ha.closed (show Mark.Closed [] from rfl) h
  obtain ⟨hclosed', hread'⟩ := Step.read_renderParts hb.closed (show Mark.Closed [] from rfl) h'
  have hsentence : Sentence.close sentence = Sentence.close sentence' := by
    simpa [Step.line, String.ofList_inj] using heq
  have hmarks : parts.flatMap Part.marks = parts'.flatMap Part.marks := by
    rw [read_nil, List.nil_append] at hread hread'
    rw [← hread, ← hread', ← Sentence.read_close hclosed, ← Sentence.read_close hclosed', hsentence]
  rw [← ha.outline_eq, ← hb.outline_eq, hmarks]

namespace Plan

/-- Plans differ as texts if the steps at one place from the end have different outlines. -/
theorem WellOrdered.lines_ne {front back front' back' : List Step} {t t' : Step} {a b : List Mark}
    (h : WellOrdered (front ++ t :: back)) (h' : WellOrdered (front' ++ t' :: back'))
    (hlength : back.length = back'.length) (ha : Outlined t.parts a) (hb : Outlined t'.parts b)
    (hne : a ≠ b) (offset : Nat) : ∃ lines lines',
      Plan.lines (front ++ t :: back) offset = .ok lines ∧
      Plan.lines (front' ++ t' :: back') offset = .ok lines' ∧ lines ≠ lines' := by
  obtain ⟨lines, hlines, hcount, hall⟩ := h.exists_lines offset
  obtain ⟨lines', hlines', hcount', hall'⟩ := h'.exists_lines offset
  refine ⟨lines, lines', hlines, hlines', ?_⟩
  rintro rfl
  have hplace : front.length = front'.length := by
    have := hcount.symm.trans hcount'
    simp only [List.length_append, List.length_cons, hlength] at this
    omega
  obtain ⟨sentence, hsentence, hline⟩ := hall front.length t (by simp)
  obtain ⟨sentence', hsentence', hline'⟩ := hall' front'.length t' (by simp)
  rw [← hplace] at hsentence' hline'
  exact hne (Step.outline_eq_of_line_eq ha hb hsentence hsentence'
    (Option.some.inj (hline.symm.trans hline')))

theorem WellOrdered.lines_ne_of_lengths {plan plan' : Plan} (h : plan.WellOrdered)
    (h' : plan'.WellOrdered) (hne : plan.length ≠ plan'.length) (offset : Nat) :
    ∃ lines lines', plan.lines offset = .ok lines ∧ plan'.lines offset = .ok lines' ∧
      lines ≠ lines' := by
  obtain ⟨lines, hlines, hcount, -⟩ := h.exists_lines offset
  obtain ⟨lines', hlines', hcount', -⟩ := h'.exists_lines offset
  refine ⟨lines, lines', hlines, hlines', ?_⟩
  rintro rfl
  exact hne (hcount.symm.trans hcount')

end Plan

/-- Runs that are alike have equally many steps that are no checks. -/
theorem Draft.Alike.length_filter_not_isCheck {α β : Type} {P : Prop} {x : Draft α} {y : Draft β}
    {R : α → β → Prop} (h : Alike P x y R) {n m : StepId} {a : Drafted α} {b : Drafted β}
    (ha : x n = .ok a) (hb : y m = .ok b) :
    (a.steps.filter (!·.isCheck)).length = (b.steps.filter (!·.isCheck)).length := by
  obtain ⟨-, a', b', ha', hb', -, hchecks⟩ | ⟨-, e, -, herror, -⟩ := h n m
  · obtain rfl : a = a' := Except.ok.inj (ha.symm.trans ha')
    obtain rfl : b = b' := Except.ok.inj (hb.symm.trans hb')
    have hcount (steps : List Step) :
        (steps.filter (!·.isCheck)).length = (steps.map Step.isCheck).countP (!·) := by
      rw [List.countP_map, List.countP_eq_length_filter]
      rfl
    rw [hcount, hcount, hchecks]
  · cases ha.symm.trans herror

/-- The draft of a query, open at the list of one of its steps. -/
structure ListDraft (α : Type) where
  /-- What comes before the items. -/
  front : Draft α
  /-- What the step says before the list. -/
  before : α → List Part
  /-- What the step says after the list. -/
  after : α → List Part
  /-- What comes after the step. -/
  rest : Label → Draft Label

namespace ListDraft

variable {α : Type} {s : Settings} {d : ListDraft α} {q : Query} {sheet : Sheet}
  {items : List (Draft Label)} {kinds : List Bool}

def draft (d : ListDraft α) (items : List (Draft Label)) : Draft Label := do
  let input ← d.front
  let labels ← Draft.sequence items
  let result ← Draft.step ⟨d.before input ++ ((Label.enumeration labels).parts ++ d.after input)⟩
  d.rest result

/-- Nothing around the list can be taken for a part of it, and how many steps follow does not depend
on it. -/
structure Sound (d : ListDraft α) : Prop where
  frame : ∀ c, d.front.Says c fun input => c.Frame (d.before input) (d.after input)
  rest : ∃ P, ∀ a b, Alike P (d.rest a) (d.rest b)

/-- The drafts are those of items of these kinds: conjunctions or not. -/
def HasKinds (items : List (Draft Label)) (kinds : List Bool) : Prop :=
  ∀ c, List.Forall₂ (fun item conjunction => item.Says c fun a => a.IsItem c conjunction)
    items kinds

/-- The step of the list in a plan, with `following` steps after it. -/
structure Shown (d : ListDraft α) (kinds : List Bool) (input : α) (following : Nat) (plan : Plan) :
    Prop where
  ordered : plan.WellOrdered
  before : ∃ outline, Outlined (d.before input) outline
  after : ∃ outline, Outlined (d.after input) outline
  step : ∃ front t back inside outline, plan = front ++ t :: back ∧ back.length = following ∧
    t.parts = d.before input ++ (inside ++ d.after input) ∧ Outlined inside outline ∧
      Label.ReadsAs kinds (itemCount outline)

/-- The step of the list is in the simplified plan, at a place from the end that depends only on the
steps of the draft that follow it. -/
theorem exists_shown (hs : s.simplify = true) (hd : d.Sound) (hkinds : HasKinds items kinds)
    (hq : Planner.draft s q = d.draft items)
    (h : Planner.planQuery { settings := s } q = .ok sheet) :
    ∃ input result n rest, d.front 0 = .ok input ∧ d.rest result n = .ok rest ∧
      d.Shown kinds input.value
        (Planner.stepsAfter s (rest.steps.filter (!·.isCheck)).length) sheet.plan := by
  obtain ⟨r, hdraft, rfl, hfinished, hr⟩ := Planner.exists_draft h
  have hdescribe := hr.ordered.describe_conditions
  -- The run of the draft, taken apart around the step of the list.
  rw [hq] at hdraft
  obtain ⟨input, hinput, afterInput, hafterInput, rfl⟩ := bind_eq_ok.mp hdraft
  obtain ⟨labels, hlabels, afterLabels, hafterLabels, rfl⟩ := bind_eq_ok.mp hafterInput
  obtain ⟨result, hresult, rest, hrest, rfl⟩ := bind_eq_ok.mp hafterLabels
  cases hresult
  have hplace := @Planner.exists_place s hs _ hr (input.steps ++ labels.steps) rest.steps
    ⟨labels.next, d.before input.value ++ ((Label.enumeration labels.value).parts ++
      d.after input.value)⟩ (by simp)
  generalize Plan.conditions _ = c at hdescribe hplace
  have hcinput : c.Describe input.steps := fun t ht => hdescribe t (by simp [ht])
  have hclabels : c.Describe labels.steps := fun t ht => hdescribe t (by simp [ht])
  have hframe := hd.frame c 0 input hinput hcinput
  obtain ⟨shape, outline, houtline, hcount, hshape⟩ :=
    Label.exists_itemCount (Says.sequence (hkinds c) input.next labels hlabels hclabels)
  obtain ⟨front, back, hplan, hlength⟩ := hplace hframe.isCheck (hshape labels.next _ _ hframe)
  exact ⟨input, _, _, rest, hinput, hrest, hfinished, hframe.outlined.1, hframe.outlined.2,
    front, _, back, _, outline, hplan, hlength, hframe.write shape _, houtline, hcount⟩

theorem Shown.lines_ne {input : α} {following : Nat} {plan plan' : Plan} {kinds' : List Bool}
    (h : d.Shown kinds input following plan) (h' : d.Shown kinds' input following plan')
    (hne : kinds.length ≠ kinds'.length) (hpair : kinds = [true] → kinds'.length ≠ 2)
    (hpair' : kinds' = [true] → kinds.length ≠ 2) (offset : Nat) :
    ∃ lines lines', plan.lines offset = .ok lines ∧ plan'.lines offset = .ok lines' ∧
      lines ≠ lines' := by
  obtain ⟨before, hbefore⟩ := h.before
  obtain ⟨after, hafter⟩ := h.after
  obtain ⟨front, t, back, inside, outline, rfl, hlength, hparts, houtline, hcount⟩ := h.step
  obtain ⟨front', t', back', inside', outline', rfl, hlength', hparts', houtline', hcount'⟩ :=
    h'.step
  refine h.ordered.lines_ne h'.ordered (hlength.trans hlength'.symm)
    (hparts ▸ hbefore.append (houtline.append hafter))
    (hparts' ▸ hbefore.append (houtline'.append hafter)) (fun heq => ?_) offset
  have hsame : outline = outline' := List.append_cancel_right (List.append_cancel_left heq)
  exact hcount.ne hcount' hne hpair hpair' (congrArg itemCount hsame)

/-- Plans from lists of different lengths differ as texts, but for a conjunction and a pair. -/
theorem lines_ne (hs : s.simplify = true) (hd : d.Sound) {q' : Query} {sheet' : Sheet}
    {items' : List (Draft Label)} {kinds' : List Bool} (hkinds : HasKinds items kinds)
    (hkinds' : HasKinds items' kinds') (hq : Planner.draft s q = d.draft items)
    (hq' : Planner.draft s q' = d.draft items') (hne : kinds.length ≠ kinds'.length)
    (hpair : kinds = [true] → kinds'.length ≠ 2) (hpair' : kinds' = [true] → kinds.length ≠ 2)
    (h : Planner.planQuery { settings := s } q = .ok sheet)
    (h' : Planner.planQuery { settings := s } q' = .ok sheet') (offset : Nat) :
    ∃ lines lines', sheet.plan.lines offset = .ok lines ∧ sheet'.plan.lines offset = .ok lines' ∧
      lines ≠ lines' := by
  obtain ⟨input, result, n, rest, hinput, hrest, hshown⟩ := exists_shown hs hd hkinds hq h
  obtain ⟨input', result', n', rest', hinput', hrest', hshown'⟩ :=
    exists_shown hs hd hkinds' hq' h'
  obtain rfl : input = input' := Except.ok.inj (hinput.symm.trans hinput')
  obtain ⟨P, hP⟩ := hd.rest
  rw [← (hP result result').length_filter_not_isCheck hrest hrest'] at hshown'
  exact hshown.lines_ne hshown' hne hpair hpair' offset

end ListDraft

end QuerySteps
