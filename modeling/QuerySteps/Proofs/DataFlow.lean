import QuerySteps.Proofs.Translate.Conditions
import QuerySteps.Proofs.Translate.Results

/-!
# The flow of results

A plan is a flow of results towards its last step, which writes those of the step before it. The
label of a query names the last step of the query (`Draft.Concludes`), and the results of the other
steps are used as well, by later steps (`Plan.UsedLater`). Simplifying cuts off no result: it drops
checks only, and other steps are referred to as often as before.
-/

namespace QuerySteps

open Sql

namespace Draft

variable {α : Type} {input : Label}

/-- The draft adds steps, and its label names the last of them, which is no check. -/
def Concludes (d : Draft Label) : Prop :=
  ∀ first r, d first = .ok r →
    ∃ init last, r.steps = init ++ [last] ∧ r.value = .step last.id ∧ last.isCheck = false

/-- The draft concludes, or it adds no step and yields the input. -/
def Continues (input : Label) (d : Draft Label) : Prop :=
  ∀ first r, d first = .ok r → (r.steps = [] ∧ r.value = input) ∨
    ∃ init last, r.steps = init ++ [last] ∧ r.value = .step last.id ∧ last.isCheck = false

theorem Concludes.step {sentence : Label} (h : sentence.Tells) :
    (Draft.step sentence).Concludes := by
  obtain ⟨words, rest, hparts, hne⟩ := h
  intro first r hr
  cases hr
  exact ⟨[], _, rfl, rfl, by simp [Step.isCheck, Step.opensWith, hparts, hne]⟩

/-- Whatever comes first, the last draft decides. -/
theorem Concludes.last {x : Draft α} {f : α → Draft Label} (hf : ∀ a, (f a).Concludes) :
    (x >>= f).Concludes := by
  intro first r hr
  obtain ⟨a, -, b, hb, rfl⟩ := bind_eq_ok.mp hr
  obtain ⟨init, last, hsteps, hvalue⟩ := hf _ _ _ hb
  exact ⟨a.steps ++ init, last, by simp [hsteps], hvalue⟩

theorem Concludes.bind {x : Draft Label} {f : Label → Draft Label} (hx : x.Concludes)
    (hf : ∀ a, (f a).Continues a) : (x >>= f).Concludes := by
  intro first r hr
  obtain ⟨a, ha, b, hb, rfl⟩ := bind_eq_ok.mp hr
  obtain ⟨hsteps, hvalue⟩ | ⟨init, last, hsteps, hvalue⟩ := hf _ _ _ hb
  · simpa [hsteps, hvalue] using hx first a ha
  · exact ⟨a.steps ++ init, last, by simp [hsteps], hvalue⟩

theorem Continues.pure : Continues input (pure input) := by
  intro first r hr
  cases hr
  exact .inl ⟨rfl, rfl⟩

theorem Concludes.continues {d : Draft Label} (h : d.Concludes) : d.Continues input :=
  fun first r hr => .inr (h first r hr)

theorem Continues.bind {x : Draft Label} {f : Label → Draft Label} (hx : x.Continues input)
    (hf : ∀ a, (f a).Continues a) : (x >>= f).Continues input := by
  intro first r hr
  obtain ⟨a, ha, b, hb, rfl⟩ := bind_eq_ok.mp hr
  obtain ⟨hsteps, hvalue⟩ | ⟨init, last, hsteps, hvalue⟩ := hf _ _ _ hb
  · simpa [hsteps, hvalue] using hx first a ha
  · exact .inr ⟨a.steps ++ init, last, by simp [hsteps], hvalue⟩

theorem continues_unique (distinct : Bool) : (unique distinct input).Continues input := by
  unfold unique
  split
  · exact (Concludes.step ⟨_, _, rfl, by decide⟩).continues
  · exact .pure

theorem continues_cut {words : String} (hw : words ≠ checkPhrase) (count : Option (Draft Label)) :
    (RowClauses.cut words count input).Continues input := by
  unfold RowClauses.cut
  split
  · exact .pure
  · exact (Concludes.last fun count => .step ⟨_, _, rfl, hw⟩).continues

theorem continues_rows (rows : RowClauses) : (rows.apply input).Continues input := by
  refine .bind ?_ fun ordered => .bind (continues_cut (by decide) _) fun skipped =>
    continues_cut (by decide) _
  unfold RowClauses.order
  split
  · exact .pure
  · exact (Concludes.last fun keys => .step ⟨_, _, rfl, by decide⟩).continues

theorem concludes_createTable (columns : List Label) (input : Option Label) :
    (createTable columns input).Concludes := by
  unfold createTable
  split
  · exact .step ⟨_, _, rfl, by decide⟩
  · exact .step ⟨_, _, rfl, by decide⟩

theorem concludes_combine (op : SetOperator) (all : Bool) (left right : Label) :
    (combine op all left right).Concludes := by
  cases op <;> exact .step ⟨_, _, rfl, by decide⟩

end Draft

theorem Sql.concludes_query (s : Settings) (q : Query) : (q.draft s).Concludes := by
  obtain ⟨body, orderBy, limit, offset⟩ := q
  cases body with
  | select block =>
    show (block.draft s _).Concludes
    rw [Select.draft_eq]
    split
    · refine .last fun sources => .last fun inputs => .last fun joined => .last fun filtered => ?_
      refine .last fun grouped => .last fun arranged => .last fun retrieved => ?_
      exact .bind (.step ⟨_, _, rfl, by decide⟩) fun result => Draft.continues_unique _
    · refine .last fun loaded => .last fun filtered => .last fun arranged => .last fun columns => ?_
      exact .bind (Draft.concludes_createTable _ _) fun result => Draft.continues_unique _
  | setOperation op all left right =>
    refine .last fun left => .last fun right => ?_
    exact .bind (Draft.concludes_combine _ _ _ _) fun combined => Draft.continues_rows _

/-! ## Uses in plans -/

namespace Plan

variable {plan : Plan} {t : Step}

/-- The step is part of the plan, and a later step refers to it. -/
def UsedLater (plan : Plan) (t : Step) : Prop :=
  ∃ before after, plan = before ++ t :: after ∧ ∃ user ∈ after, t.id ∈ user.refs

theorem Backward.refs_subset {known : List StepId} (h : Backward known plan) :
    ∀ id ∈ refs plan, id ∈ ids plan ++ known := by
  induction plan generalizing known with
  | nil => simp [refs]
  | cons s rest ih =>
    intro id hid
    rcases List.mem_append.mp hid with hid | hid
    · exact List.mem_append_right _ (h.1 id hid)
    · have := ih h.2 id hid
      simp only [ids_cons, List.cons_append, List.mem_append, List.mem_cons] at this ⊢
      tauto

theorem WellOrdered.usedLater (h : plan.WellOrdered) (ht : t ∈ plan) (href : t.id ∈ plan.refs) :
    plan.UsedLater t := by
  obtain ⟨before, after, rfl⟩ := List.append_of_mem ht
  refine ⟨before, after, rfl, mem_refs.mp ?_⟩
  obtain ⟨hbefore, hstep, -⟩ := backward_append.mp h.backward
  have hnew : t.id ∉ ids before ++ [] := by
    have hnodup := h.nodup
    rw [ids_append, ids_cons, List.nodup_append] at hnodup
    rw [List.append_nil]
    exact fun hmem => hnodup.2.2 _ hmem _ (List.mem_cons_self ..) rfl
  rw [refs_append, refs_cons, List.mem_append, List.mem_append] at href
  rcases href with href | href | href
  · exact absurd (hbefore.refs_subset _ href) hnew
  · exact absurd (hstep _ href) hnew
  · exact href

theorem Inlinable.mem_simplify_of_free (h : plan.Inlinable) (ht : t ∈ plan)
    (hcheck : t.isCheck = false) (hfree : ∀ id ∈ t.refs, plan.conditions id = none) :
    t ∈ ({} : Simplifier).simplify plan := by
  obtain ⟨shape, hshape⟩ : ∃ shape, t.Shapes plan.conditions shape := by
    cases hlist : Part.haveList t.parts with
    | true => exact ⟨_, .list hcheck hlist⟩
    | false => exact ⟨_, .single hcheck hlist fun id hid _ _ hne => absurd (hfree id hid) hne⟩
  have hmem := h.mem_simplify ht hcheck hshape
  rwa [Part.flatMap_write_of_none hfree] at hmem

/-- A last step that refers only to the step before it keeps its place, unless this is a check. -/
theorem Inlinable.simplify_end {init : Plan} {last write : Step} (h : plan.Inlinable)
    (hplan : plan = init ++ [last, write]) (hlast : last.isCheck = false)
    (hwrite : write.isCheck = false) (hrefs : ∀ id ∈ write.refs, id = last.id) :
    ∃ init' last', ({} : Simplifier).simplify plan = init' ++ [last', write] ∧
      last'.id = last.id := by
  have hids := h.ids_simplify
  rw [hplan, List.filter_append, ids_append, ← hplan] at hids
  simp only [List.filter_cons, hlast, hwrite, Bool.not_false, if_true, List.filter_nil, ids_cons,
    ids_nil] at hids
  obtain ⟨init', back, hsimple, -, hback⟩ := List.map_eq_append_iff.mp hids
  obtain ⟨last', rest, rfl, hid, hrest⟩ := List.map_eq_cons_iff.mp hback
  obtain ⟨write', none, rfl, hid', hnone⟩ := List.map_eq_cons_iff.mp hrest
  obtain rfl := List.map_eq_nil_iff.mp hnone
  have hmem : write ∈ ({} : Simplifier).simplify plan := by
    refine h.mem_simplify_of_free (hplan ▸ by simp) hwrite fun id hid => ?_
    rw [hrefs id hid, h.ordered.describe_conditions last (hplan ▸ by simp), Step.condition?, hlast]
    rfl
  have hnodup : (ids (({} : Simplifier).simplify plan)).Nodup :=
    h.ids_simplify ▸ h.ordered.nodup.sublist (List.filter_sublist.map _)
  obtain rfl : write' = write :=
    List.inj_on_of_nodup_map hnodup (hsimple ▸ by simp) hmem hid'
  exact ⟨init', last', hsimple, hid⟩

end Plan

/-! ## References around a plan -/

namespace Sheet

theorem refs_prependAll (s : Sheet) (texts : List String) :
    Plan.refs (s.prependAll texts).plan = Plan.refs s.plan := by
  induction texts with
  | nil => rfl
  | cons words texts ih => exact ih

theorem refs_interleave (words : String) (next : StepId) (steps : List Step) :
    Plan.refs (interleave words next steps) = Plan.refs steps := by
  induction steps generalizing next with
  | nil => rfl
  | cons step rest ih => exact congrArg (step.refs ++ ·) (ih (next + 1))

end Sheet

namespace Planner

theorem refs_finish (p : Planner) (sheet : Sheet) : Plan.refs (p.finish sheet).plan =
    Plan.refs (if p.settings.simplify then sheet.simplify p.simplifier else sheet).plan := by
  unfold finish
  cases p.settings.interlude with
  | none => exact Sheet.refs_prependAll _ _
  | some words => exact (Sheet.refs_interleave _ _ _).trans (Sheet.refs_prependAll _ _)

theorem usedLater_finish {s : Settings} {sheet : Sheet} (h : sheet.Sound) {t : Step}
    (ht : t ∈ (finish { settings := s } sheet).plan) (hid : t.id < sheet.issued)
    (href : t.id ∈ sheet.plan.refs) : (finish { settings := s } sheet).plan.UsedLater t := by
  refine (sound_finish orderly_default h).ordered.usedLater ht ?_
  rw [refs_finish]
  obtain ht | ⟨hsurrounds, -⟩ := mem_finish ht
  · split at ht
    · obtain ⟨k, hinlines⟩ : ∃ k,
          Plan.Inlines k sheet.plan (({} : Simplifier).simplify sheet.plan) :=
        Simplifier.inlines_simplify h.ordered 1
      have hcount := hinlines.refCount_eq h.ordered (List.mem_map_of_mem ht)
      rw [if_pos ‹_›]
      exact List.count_pos_iff.mp (Nat.lt_of_lt_of_eq (List.count_pos_iff.mpr href) hcount.symm)
    · rwa [if_neg ‹_›]
  · exact absurd hid (Nat.not_lt_of_le hsurrounds)

theorem exists_finished_end {s : Settings} {next : StepId} {plan init : Plan} {last write : Step}
    (h : plan.Inlinable) (hplan : plan = init ++ [last, write]) (hlast : last.isCheck = false)
    (hwrite : write.isCheck = false) (hrefs : ∀ id ∈ write.refs, id = last.id)
    (hinterlude : s.interlude = none) :
    ∃ init' last', (finish { settings := s } ⟨next, plan⟩).plan = init' ++ [last', write] ∧
      last'.id = last.id := by
  obtain ⟨init', last', hbare, hid⟩ : ∃ init' last',
      (if s.simplify then Sheet.simplify ⟨next, plan⟩ {} else ⟨next, plan⟩).plan =
        init' ++ [last', write] ∧ last'.id = last.id := by
    split
    · exact h.simplify_end hplan hlast hwrite hrefs
    · exact ⟨init, last, hplan, rfl⟩
  obtain ⟨front, hfront, -⟩ := exists_prependAll
    (if s.simplify then Sheet.simplify ⟨next, plan⟩ {} else ⟨next, plan⟩) s.prologue
  refine ⟨front ++ init', last', ?_, hid⟩
  simp only [finish, hinterlude]
  rw [hfront, hbare, List.append_assoc]

/-- The step that writes the results of the step `rows`. -/
def writeStep (s : Settings) (id rows : StepId) : Step :=
  ⟨id, [.text ("Write to " ++ s.sink ++ " the"), .ref rows]⟩

theorem isCheck_writeStep (s : Settings) (id rows : StepId) :
    (writeStep s id rows).isCheck = false := by
  have hne : "Write to " ++ s.sink ++ " the" ≠ checkPhrase := by
    rw [String.append_assoc]
    exact append_ne (by decide) _
  simp [writeStep, Step.isCheck, Step.opensWith, hne]

/-- A query that is translated in some session is translated in every session, and its plan ends
with the step that writes the results of its last step. -/
theorem exists_planned {s : Settings} {q : Query} {first : StepId} {r : Drafted Label}
    (h : q.draft s first = .ok r) : ∃ body init last sheet, q.draft s 0 = .ok body ∧
      body.steps = init ++ [last] ∧ last.isCheck = false ∧
      draft s q 0 = .ok
        ⟨.step body.next, body.steps ++ [writeStep s body.next last.id], body.next + 1⟩ ∧
      Planner.planQuery { settings := s } q = .ok sheet := by
  obtain ⟨hq, -⟩ | ⟨-, e, -, he, -⟩ := hereditary_settled.query q s s first 0
  · obtain ⟨-, body, -, hbody, -⟩ | ⟨hn, -⟩ := hereditary_settled.query q s s 0 0
    · obtain ⟨init, last, hsteps, hvalue, hlast⟩ := concludes_query s q 0 body hbody
      obtain ⟨sheet, hsheet⟩ := exists_plan_iff.mpr hq
      refine ⟨body, init, last, sheet, hbody, hsteps, hlast, ?_, hsheet⟩
      refine Draft.bind_eq_ok.mpr ⟨body, hbody, _, rfl, ?_⟩
      rw [hvalue]
      rfl
    · exact absurd hq hn
  · rw [h] at he
    cases he

theorem thrifty_draft {s : Settings} {q : Query} (h : q.RetrievesColumns) (id : StepId) :
    (draft s q).Thrifty id :=
  .bind ((hereditary_thrifty s).query q h) fun rows => .step (by simp)

/-- Only the last step of a session names itself to the outside, so a session that loses no result
refers to all its other steps. -/
theorem mem_refs_of_thrifty {d : Draft Label} {r : Drafted Label} {init : Plan} {last : Step}
    (hd : ∀ id, d.Thrifty id) (hr : d 0 = .ok r) (hsteps : r.steps = init ++ [last])
    (hvalue : r.value = .step last.id) (hnodup : (Plan.ids r.steps).Nodup) :
    ∀ t ∈ init, t.id ∈ Plan.refs r.steps := by
  intro t ht
  have hmem : t ∈ r.steps := hsteps ▸ List.mem_append_left _ ht
  have hne : last.id ≠ t.id := by
    rw [hsteps, Plan.ids_append, List.nodup_append] at hnodup
    exact (hnodup.2.2 _ (List.mem_map_of_mem ht) _ (List.mem_singleton_self _)).symm
  have hkept := hd t.id 0 r hr
  rw [hvalue, List.count_eq_one_of_mem hnodup (List.mem_map_of_mem hmem)] at hkept
  simp only [Label.uses, Label.refs_step, List.count_singleton, beq_iff_eq, hne, if_false] at hkept
  exact List.count_pos_iff.mp hkept

/-- The label of a query is a reference to the last step of the query, and a plan without an
interlude ends with the step that writes the results of the step before it. If joins retrieve
columns, no result is lost: every step of the query is used by a later one, before the plan is
simplified and in the plan that is returned. -/
theorem results_usedLater {s : Settings} {q : Query} {first : StepId} {r : Drafted Label}
    (h : q.draft s first = .ok r) :
    (∃ init last, r.steps = init ++ [last] ∧ r.value = .step last.id) ∧
    ∃ body plain sheet, q.draft s 0 = .ok body ∧ steps s q = .ok plain ∧
      Planner.planQuery { settings := s } q = .ok sheet ∧
      (s.interlude = none → ∃ init last write, sheet.plan = init ++ [last, write] ∧
        write.parts = [.text ("Write to " ++ s.sink ++ " the"), .ref last.id]) ∧
      (q.RetrievesColumns → (∀ t ∈ body.steps, plain.plan.UsedLater t) ∧
        ∀ t ∈ sheet.plan, t.id ∈ Plan.ids body.steps → sheet.plan.UsedLater t) := by
  obtain ⟨init, last, hsteps, hvalue, -⟩ := concludes_query s q first r h
  refine ⟨⟨init, last, hsteps, hvalue⟩, ?_⟩
  obtain ⟨body, init, last, sheet, hbody, hsteps, hlast, hdraft, hsheet⟩ := exists_planned h
  obtain ⟨written, hwritten, rfl, -, hplain⟩ := exists_draft hsheet
  obtain rfl := Except.ok.inj (hdraft.symm.trans hwritten)
  have hsound : Sheet.Sound ⟨body.next + 1, body.steps ++ [writeStep s body.next last.id]⟩ :=
    (orderly_draft s q 0 _ hdraft).1.sound
  refine ⟨body, _, _, hbody, by rw [steps, hdraft], hsheet, fun hinterlude => ?_, fun hq => ?_⟩
  · have hend : body.steps ++ [writeStep s body.next last.id] =
        init ++ [last, writeStep s body.next last.id] := by
      rw [hsteps, List.append_assoc]
      rfl
    have hrefs : ∀ id ∈ (writeStep s body.next last.id).refs, id = last.id := fun id hid =>
      List.mem_singleton.mp hid
    obtain ⟨init', last', hfinished, hid⟩ :=
      exists_finished_end hplain hend hlast (isCheck_writeStep s _ _) hrefs hinterlude
    exact ⟨init', last', _, hfinished, by rw [hid]; rfl⟩
  · have hrefs := mem_refs_of_thrifty (thrifty_draft hq) hdraft rfl rfl hsound.ordered.nodup
    refine ⟨fun t ht => hsound.ordered.usedLater (List.mem_append_left _ ht) (hrefs t ht),
      fun t ht hid => ?_⟩
    obtain ⟨u, hu, hut⟩ := List.mem_map.mp hid
    refine usedLater_finish hsound ht ?_ (hut ▸ hrefs u hu)
    exact hsound.lt_issued _ (List.mem_map_of_mem (List.mem_append_left _ hu) |> (hut ▸ ·))

theorem results_usedLater_nestedJoin : ∃ r body plain sheet, nestedJoin.draft {} 0 = .ok r ∧
    (∃ init last, r.steps = init ++ [last] ∧ r.value = .step last.id) ∧
    nestedJoin.draft {} 0 = .ok body ∧ steps {} nestedJoin = .ok plain ∧
    Planner.planQuery {} nestedJoin = .ok sheet ∧
    (∃ init last write, sheet.plan = init ++ [last, write] ∧
      write.parts = [.text "Write to 'result.csv' the", .ref last.id]) ∧
    (∀ t ∈ body.steps, plain.plan.UsedLater t) ∧
    ∀ t ∈ sheet.plan, t.id ∈ Plan.ids body.steps → sheet.plan.UsedLater t := by
  obtain ⟨-, r, -, h, -⟩ | ⟨hn, -⟩ := hereditary_settled.query nestedJoin {} {} 0 0
  · obtain ⟨hlast, body, plain, sheet, hbody, hplain, hsheet, hwrite, hused⟩ := results_usedLater h
    have hcolumns : nestedJoin.RetrievesColumns := by decide
    exact ⟨r, body, plain, sheet, h, hlast, hbody, hplain, hsheet, hwrite rfl, hused hcolumns⟩
  · exact absurd rfl hn

end Planner

end QuerySteps
