import Mathlib.Logic.Function.Basic
import QuerySteps.Proofs.Plan.Simplification

/-!
# What steps say

A reference to a check stands for the check's condition. Unfolding a step puts the conditions in the
places of the references, again and again, and leaves out parentheses; `unfold_eq` is the equation
that defines it. The condition of a check is what its own references stand for in the steps before
it, so one walk through the plan finds all of them (`meanings`).

Inlining a check that is used once takes its condition out of the meanings and puts it into its
user, where it says the same (`SingleUse.meanings_eq`). Simplifying therefore keeps what steps say,
as long as no step opens with a reference: such a step can turn into a check.
-/

namespace QuerySteps

/-- Whether the step's first fragment is a text. -/
def Step.beginsWithText (s : Step) : Bool :=
  match s.parts with
  | .text _ :: _ => true
  | _ => false

theorem Step.beginsWithText_iff {s : Step} :
    s.beginsWithText = true ↔ ∃ words, s.parts.head? = some (.text words) := by
  unfold beginsWithText
  cases s.parts with
  | nil => simp
  | cons p rest => cases p <;> simp

/-- What a fragment says if references say what `meaning` tells: parentheses say nothing. -/
def Part.say (meaning : StepId → List Part) : Part → List Part
  | .text words => if words = "(" ∨ words = ")" then [] else [.text words]
  | .ref id => meaning id

/-- The meanings after a step: a check means its condition, and other steps stand for
themselves. -/
def Step.define (meaning : StepId → List Part) (s : Step) : StepId → List Part :=
  if s.isCheck then Function.update meaning s.id (s.parts.tail.flatMap (Part.say meaning))
  else meaning

namespace Plan

def meanings (meaning : StepId → List Part) (plan : Plan) : StepId → List Part :=
  plan.foldl Step.define meaning

/-- What fragments say in a plan. -/
def unfold (plan : Plan) (parts : List Part) : List Part :=
  parts.flatMap (Part.say (plan.meanings fun id => [.ref id]))

variable {meaning meaning' : StepId → List Part} {parts : List Part}

theorem say_congr (h : ∀ id ∈ parts.filterMap Part.ref?, meaning id = meaning' id) :
    parts.flatMap (Part.say meaning) = parts.flatMap (Part.say meaning') := by
  refine List.flatMap_congr fun p hp => ?_
  cases p with
  | text words => rfl
  | ref id => exact h id (Part.mem_filterMap_ref?.mpr hp)

theorem say_update {id : StepId} {value : List Part} (h : id ∉ parts.filterMap Part.ref?) :
    parts.flatMap (Part.say (Function.update meaning id value)) =
      parts.flatMap (Part.say meaning) := by
  refine say_congr fun id' hid' => Function.update_of_ne ?_ _ _
  rintro rfl
  exact h hid'

theorem meanings_append (a b : Plan) :
    meanings meaning (a ++ b) = meanings (meanings meaning a) b :=
  List.foldl_append

theorem meanings_cons (s : Step) (plan : Plan) :
    meanings meaning (s :: plan) = meanings (s.define meaning) plan := rfl

theorem define_of_ne {s : Step} {id : StepId} (h : s.id ≠ id) :
    s.define meaning id = meaning id := by
  unfold Step.define
  split
  · exact Function.update_of_ne h.symm _ _
  · rfl

theorem meanings_of_notMem {plan : Plan} {id : StepId} (h : id ∉ ids plan) :
    meanings meaning plan id = meaning id := by
  induction plan generalizing meaning with
  | nil => rfl
  | cons s rest ih =>
    obtain ⟨hne, hrest⟩ := not_or.mp (List.mem_cons.not.mp h)
    rw [meanings_cons, ih hrest, define_of_ne (Ne.symm hne)]

/-- A meaning that a step does not use goes past the step. -/
theorem define_update {s : Step} {id : StepId} {value : List Part} (hid : s.id ≠ id)
    (href : id ∉ s.refs) :
    s.define (Function.update meaning id value) = Function.update (s.define meaning) id value := by
  unfold Step.define
  split
  · have hsay : s.parts.tail.flatMap (Part.say (Function.update meaning id value)) =
        s.parts.tail.flatMap (Part.say meaning) := by
      refine say_update fun hmem => href ?_
      exact (s.parts.tail_sublist.filterMap _).mem hmem
    rw [hsay, Function.update_comm hid.symm]
  · rfl

theorem meanings_update {plan : Plan} {id : StepId} {value : List Part} (hid : id ∉ ids plan)
    (href : id ∉ refs plan) :
    meanings (Function.update meaning id value) plan =
      Function.update (meanings meaning plan) id value := by
  induction plan generalizing meaning with
  | nil => rfl
  | cons s rest ih =>
    obtain ⟨hne, hid⟩ := not_or.mp (List.mem_cons.not.mp hid)
    rw [refs_cons, List.mem_append, not_or] at href
    rw [meanings_cons, define_update (Ne.symm hne) href.1, ih hid href.2, meanings_cons]

/-! ## The defining equation -/

/-- In a well-ordered plan a step means what it says where it stands. -/
theorem WellOrdered.meanings_id {plan : Plan} (h : plan.WellOrdered) {s : Step} (hs : s ∈ plan) :
    meanings (fun id => [.ref id]) plan s.id =
      if s.isCheck then plan.unfold s.parts.tail else [.ref s.id] := by
  obtain ⟨pre, post, rfl⟩ := List.append_of_mem hs
  have hnd := h.nodup
  rw [ids_append, ids_cons, List.nodup_append, List.nodup_cons] at hnd
  obtain ⟨-, ⟨hpost, -⟩, hdisjoint⟩ := hnd
  have hpre : s.id ∉ ids pre := fun hmem => hdisjoint _ hmem _ (List.mem_cons_self ..) rfl
  -- What the step refers to was there before it and does not change after it.
  have hbefore : ∀ id ∈ s.parts.tail.filterMap Part.ref?,
      meanings (fun id => [.ref id]) pre id =
        meanings (fun id => [.ref id]) (pre ++ s :: post) id := by
    intro id hid
    have hknown : id ∈ ids pre := by
      have hrefs : id ∈ s.refs := (s.parts.tail_sublist.filterMap _).mem hid
      simpa using (backward_append.mp h.backward).2.1 id hrefs
    have hlater : id ∉ ids (s :: post) := fun hmem => hdisjoint _ hknown _ hmem rfl
    rw [meanings_append, meanings_of_notMem hlater]
  rw [meanings_append, meanings_cons, meanings_of_notMem hpost, Step.define]
  split
  · rw [Function.update_self, say_congr hbefore]
    rfl
  · exact meanings_of_notMem hpre

/-- Unfolding: a reference to a check is replaced by what the check's condition says, references to
other steps and to none are kept, and so are all texts but parentheses. -/
theorem WellOrdered.unfold_eq {plan : Plan} (h : plan.WellOrdered) (parts : List Part) :
    plan.unfold parts = parts.flatMap fun
      | .text words => if words = "(" ∨ words = ")" then [] else [.text words]
      | .ref id =>
        match plan.step? id with
        | some s => if s.isCheck then plan.unfold s.parts.tail else [.ref id]
        | none => [.ref id] := by
  refine List.flatMap_congr fun p _ => ?_
  cases p with
  | text words => rfl
  | ref id =>
    simp only [Part.say]
    cases hstep : plan.step? id with
    | some s =>
      have hid := List.find?_some hstep
      obtain rfl : s.id = id := beq_iff_eq.mp hid
      exact h.meanings_id (List.mem_of_find?_eq_some hstep)
    | none =>
      refine meanings_of_notMem fun hmem => ?_
      obtain ⟨s, hs, rfl⟩ := List.mem_map.mp hmem
      exact List.find?_eq_none.mp hstep s hs (beq_self_eq_true _)

/-! ## Inlining -/

/-- The condition that is inlined says what the condition of the check said. -/
theorem say_inlineBody (check : Step) (intoCheck : Bool) (parts : List Part) :
    (inlineBody check intoCheck parts).flatMap (Part.say meaning) =
      check.parts.tail.flatMap (Part.say meaning) := by
  simp only [inlineBody]
  generalize (if intoCheck = true then _ else _) = grouped
  cases grouped with
  | true => simp [Part.say]
  | false => rfl

namespace SingleUse

variable {plan : Plan} {target : StepId} (u : plan.SingleUse target)

/-- What the check means: its references are to steps before it. -/
def meant (meaning : StepId → List Part) : List Part :=
  u.check.parts.tail.flatMap (Part.say (meanings meaning u.before))

theorem refs_check_subset (h : plan.WellOrdered) : ∀ id ∈ u.check.refs, id ∈ ids u.before := by
  have hback : Backward [] (u.before ++ u.check :: (u.between ++ u.user :: u.after)) :=
    u.plan_eq ▸ h.backward
  simpa using (backward_append.mp hback).2.1

theorem notMem_ids_later (h : plan.WellOrdered) {id : StepId} (hid : id ∈ ids u.before) :
    id ∉ ids (u.between ++ u.merged :: u.after) := by
  have hnodup := (u.wellOrdered h).nodup
  rw [inlined, List.append_assoc, ids_append, List.nodup_append] at hnodup
  exact fun hmem => hnodup.2.2 _ hid _ hmem rfl

theorem say_body (h : plan.WellOrdered) {later : StepId → List Part}
    (hlater : ∀ id ∈ ids u.before, later id = meanings meaning u.before id) :
    u.body.flatMap (Part.say later) = u.meant meaning := by
  rw [body, say_inlineBody]
  refine say_congr fun id hid => hlater id (u.refs_check_subset h id ?_)
  exact (u.check.parts.tail_sublist.filterMap _).mem hid

/-- With the check's meaning, fragments with the reference say what they say with the condition. -/
theorem say_reference (h : plan.WellOrdered) {later : StepId → List Part}
    (hlater : ∀ id ∈ ids u.before, later id = meanings meaning u.before id) {left : List Part}
    (hleft : target ∉ left.filterMap Part.ref?) :
    (left ++ .ref target :: u.right).flatMap
        (Part.say (Function.update later target (u.meant meaning))) =
      (left ++ (u.body ++ u.right)).flatMap (Part.say later) := by
  simp only [List.flatMap_append, List.flatMap_cons, say_update hleft, say_update u.unused.2.2.1,
    u.say_body h hlater, Part.say, Function.update_self]

theorem left_eq (htext : u.user.beginsWithText = true) :
    ∃ words left, u.left = .text words :: left := by
  unfold Step.beginsWithText at htext
  rw [u.parts_eq] at htext
  cases hleft : u.left with
  | nil => simp [hleft] at htext
  | cons p left =>
    cases p with
    | text words => exact ⟨words, left, rfl⟩
    | ref id => simp [hleft] at htext

theorem beginsWithText_merged (htext : u.user.beginsWithText = true) :
    u.merged.beginsWithText = true := by
  obtain ⟨words, left, hleft⟩ := u.left_eq htext
  simp [merged, Step.beginsWithText, hleft]

theorem isCheck_merged (htext : u.user.beginsWithText = true) :
    u.merged.isCheck = u.user.isCheck := by
  obtain ⟨words, left, hleft⟩ := u.left_eq htext
  simp [merged, Step.isCheck, Step.opensWith, u.parts_eq, hleft]

/-- The user means the same with the check's condition in the place of the reference. -/
theorem define_user (h : plan.WellOrdered) (htext : u.user.beginsWithText = true)
    {later : StepId → List Part}
    (hlater : ∀ id ∈ ids u.before, later id = meanings meaning u.before id) :
    u.user.define (Function.update later target (u.meant meaning)) =
      Function.update (u.merged.define later) target (u.meant meaning) := by
  obtain ⟨words, left, hleft⟩ := u.left_eq htext
  have hunused : target ∉ left.filterMap Part.ref? := by
    have hun := u.unused.2.1
    rwa [hleft, Part.filterMap_ref?_text] at hun
  have htails : u.user.parts.tail = left ++ .ref target :: u.right ∧
      u.merged.parts.tail = left ++ (u.body ++ u.right) := by
    simp [u.parts_eq, merged, hleft]
  unfold Step.define
  rw [u.isCheck_merged htext]
  split
  · have hne : target ≠ u.user.id := by
      have hnotin := u.target_notMem_ids h.nodup
      rw [u.ids_inlined] at hnotin
      exact fun heq => hnotin (by simp [heq])
    rw [htails.1, htails.2, u.say_reference h hlater hunused, u.id_merged,
      Function.update_comm hne]
  · rfl

/-- Inlining takes the condition of the check out of the meanings and changes nothing else. -/
theorem meanings_eq (h : plan.WellOrdered) (htext : u.user.beginsWithText = true) :
    meanings meaning plan =
      Function.update (meanings meaning u.inlined) target (u.meant meaning) := by
  have hnotin := u.target_notMem_ids h.nodup
  simp only [inlined, ids_append, ids_cons, List.mem_append, List.mem_cons, not_or] at hnotin
  obtain ⟨hunused, -, -, hafter⟩ := u.unused
  simp only [refs_append, refs_cons, List.mem_append, not_or] at hunused
  have hcheck : u.check.define (meanings meaning u.before) =
      Function.update (meanings meaning u.before) target (u.meant meaning) := by
    rw [Step.define, if_pos u.isCheck, u.id_eq]
    rfl
  have hbetween : ∀ id ∈ ids u.before,
      meanings (meanings meaning u.before) u.between id = meanings meaning u.before id := by
    intro id hid
    have hlater := u.notMem_ids_later h hid
    rw [ids_append, List.mem_append, not_or] at hlater
    exact meanings_of_notMem hlater.1
  have hplan := congrArg (meanings meaning) u.plan_eq
  rw [hplan]
  simp only [inlined, meanings_append, meanings_cons]
  rw [hcheck, meanings_update hnotin.1.2 hunused.2.2, u.define_user h htext hbetween,
    meanings_update hnotin.2.2 hafter]

theorem unfold_inlined (h : plan.WellOrdered) (htext : u.user.beginsWithText = true)
    (hunused : target ∉ parts.filterMap Part.ref?) :
    u.inlined.unfold parts = plan.unfold parts := by
  rw [unfold, unfold, u.meanings_eq h htext, say_update hunused]

theorem unfold_merged (h : plan.WellOrdered) (htext : u.user.beginsWithText = true) :
    u.inlined.unfold u.merged.parts = plan.unfold u.user.parts := by
  have hlater : ∀ id ∈ ids u.before, meanings (fun id => [.ref id]) u.inlined id =
      meanings (fun id => [.ref id]) u.before id := by
    intro id hid
    rw [inlined, List.append_assoc, meanings_append]
    exact meanings_of_notMem (u.notMem_ids_later h hid)
  rw [unfold, unfold, u.meanings_eq h htext, u.parts_eq, u.say_reference h hlater u.unused.2.1]
  rfl

theorem beginsWithText_inlined (htext : ∀ s ∈ plan, s.beginsWithText = true) :
    ∀ t ∈ u.inlined, t.beginsWithText = true := by
  intro t ht
  obtain ⟨ht, -⟩ | rfl := u.mem_inlined_cases ht
  · exact htext t ht
  · exact u.beginsWithText_merged (htext _ u.mem_user)

/-- Every step that is left comes from a step of the same identifier and kind that said the same. -/
theorem exists_of_mem_inlined (h : plan.WellOrdered)
    (htext : ∀ s ∈ plan, s.beginsWithText = true) {t : Step} (ht : t ∈ u.inlined) :
    ∃ s ∈ plan, s.id = t.id ∧ s.isCheck = t.isCheck ∧
      u.inlined.unfold t.parts = plan.unfold s.parts := by
  have huser := htext _ u.mem_user
  obtain ⟨ht, hunused⟩ | rfl := u.mem_inlined_cases ht
  · exact ⟨t, ht, rfl, rfl, u.unfold_inlined h huser hunused⟩
  · exact ⟨u.user, u.mem_user, rfl, (u.isCheck_merged huser).symm, u.unfold_merged h huser⟩

end SingleUse

namespace Inlines

variable {n : Nat} {a b : Plan}

/-- Runs of inlinings keep what the remaining steps say. -/
theorem exists_of_mem (h : Inlines n a b) (ha : a.WellOrdered)
    (htext : ∀ s ∈ a, s.beginsWithText = true) {t : Step} (ht : t ∈ b) :
    ∃ s ∈ a, s.id = t.id ∧ s.isCheck = t.isCheck ∧ b.unfold t.parts = a.unfold s.parts := by
  induction h with
  | refl => exact ⟨t, ht, rfl, rfl, rfl⟩
  | step u _ ih =>
    obtain ⟨s, hs, hid, hcheck, hsay⟩ := ih (u.wellOrdered ha) (u.beginsWithText_inlined htext) ht
    obtain ⟨s', hs', hid', hcheck', hsay'⟩ := u.exists_of_mem_inlined ha htext hs
    exact ⟨s', hs', hid'.trans hid, hcheck'.trans hcheck, hsay.trans hsay'⟩

theorem usedOnce_of_notMem (h : Inlines n a b) (ha : a.WellOrdered)
    (htext : ∀ s ∈ a, s.beginsWithText = true) {s : Step} (hs : s ∈ a) (hgone : s.id ∉ ids b) :
    s.isCheck = true ∧ a.refCount s.id = 1 := by
  induction h generalizing s with
  | refl => exact absurd (List.mem_map_of_mem hs) hgone
  | @step k plan next target u hrest ih =>
    by_cases hid : s.id = target
    · obtain rfl : s = u.check :=
        List.inj_on_of_nodup_map ha.nodup hs u.mem_check (hid.trans u.id_eq.symm)
      exact ⟨u.isCheck, by rw [hid, u.refCount_target]⟩
    · obtain ⟨t, ht, hts⟩ := List.mem_map.mp (u.mem_ids_inlined hs hid)
      obtain ⟨s', hs', hs't, hcheck, -⟩ := u.exists_of_mem_inlined ha htext ht
      obtain rfl : s' = s := List.inj_on_of_nodup_map ha.nodup hs' hs (hs't.trans hts)
      obtain ⟨htcheck, hcount⟩ :=
        ih (u.wellOrdered ha) (u.beginsWithText_inlined htext) ht (hts ▸ hgone)
      exact ⟨hcheck.trans htcheck, by rwa [hts, u.refCount_eq hid] at hcount⟩

end Inlines

/-- Simplifying a valid plan whose steps begin with texts keeps what its steps say. The steps that
are left keep their identifiers, their order and what they say, and the others were checks that were
used once. -/
theorem unfold_simplify {plan : Plan} (hnodup : plan.ids.Nodup) (hvalid : plan.validate = .ok ())
    (htext : ∀ s ∈ plan, s.beginsWithText = true) :
    let simple := ({} : Simplifier).simplify plan
    simple.ids.Sublist plan.ids ∧
    (∀ t ∈ simple, ∀ s ∈ plan, s.id = t.id → simple.unfold t.parts = plan.unfold s.parts) ∧
    ∀ s ∈ plan, s.id ∉ simple.ids → s.isCheck = true ∧ plan.refCount s.id = 1 := by
  intro simple
  have h : plan.WellOrdered := ⟨hnodup, (validate_eq_ok_iff hnodup).mp hvalid⟩
  obtain ⟨k, hinlines⟩ : ∃ k, Inlines k plan simple := Simplifier.inlines_simplify h 1
  refine ⟨hinlines.sublist_ids, fun t ht s hs hid => ?_,
    fun s hs hgone => hinlines.usedOnce_of_notMem h htext hs hgone⟩
  obtain ⟨s', hs', hid', -, hsay⟩ := hinlines.exists_of_mem h htext ht
  obtain rfl : s' = s := List.inj_on_of_nodup_map hnodup hs' hs (hid'.trans hid.symm)
  exact hsay

/-- The negation of a conjunction whose second condition is used once more on its own. -/
def sharedCondition : Plan :=
  [⟨0, [.text checkPhrase, .text "a equals 1"]⟩,
    ⟨1, [.text checkPhrase, .text "b equals 2"]⟩,
    ⟨2, [.text checkPhrase, .ref 0, .text "and", .ref 1]⟩,
    ⟨3, [.text checkPhrase, .ref 2, .text "is false"]⟩,
    ⟨4, [.text "Keep rows where", .ref 3]⟩,
    ⟨5, [.text "Keep rows where", .ref 1]⟩]

theorem unfold_simplify_sharedCondition :
    let simple := ({} : Simplifier).simplify sharedCondition
    sharedCondition.ids.Nodup ∧ sharedCondition.validate = .ok () ∧
    (∀ s ∈ sharedCondition, s.beginsWithText = true) ∧
    simple.ids.Sublist sharedCondition.ids ∧
    (∀ t ∈ simple, ∀ s ∈ sharedCondition, s.id = t.id →
      simple.unfold t.parts = sharedCondition.unfold s.parts) ∧
    ∀ s ∈ sharedCondition, s.id ∉ simple.ids →
      s.isCheck = true ∧ sharedCondition.refCount s.id = 1 :=
  ⟨by decide, rfl, by decide, unfold_simplify (by decide) rfl (by decide)⟩

example : sharedCondition.inlineChecks.plan =
    [⟨1, [.text checkPhrase, .text "b equals 2"]⟩,
      ⟨4, [.text "Keep rows where", .text "(", .text "a equals 1", .text "and", .ref 1, .text ")",
        .text "is false"]⟩,
      ⟨5, [.text "Keep rows where", .ref 1]⟩] := by
  decide

example : sharedCondition.unfold [.text "Keep rows where", .ref 3] =
    [.text "Keep rows where", .text "a equals 1", .text "and", .text "b equals 2",
      .text "is false"] := by
  decide

end Plan

end QuerySteps
