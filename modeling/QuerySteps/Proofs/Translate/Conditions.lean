import QuerySteps.Proofs.CheckUse
import QuerySteps.Proofs.Plan.Conditions

/-!
# What drafts say

The label of a condition names a check, and the condition of that check is known once its steps are.
`Draft.Says` states what holds of the value of a draft in terms of the conditions of a whole plan
that its steps are part of. With simplification every step of a query that is no check ends up in
the plan with these conditions written in (`Planner.exists_finished`).
-/

namespace QuerySteps

open Sql QuerySteps.Part

namespace Conditions

/-- The label names the results of a step that is no check. -/
def Names (c : Conditions) (a : Label) : Prop :=
  ∃ id, a = .step id ∧ c id = none

/-- The label refers to no check and enumerates nothing. -/
def Quiet (c : Conditions) (a : Label) : Prop :=
  (∀ id ∈ a.refs, c id = none) ∧ haveList a.parts = false

variable {c : Conditions}

theorem Names.quiet {a : Label} (h : c.Names a) : c.Quiet a := by
  obtain ⟨id, rfl, hid⟩ := h
  refine ⟨fun id' hmem => ?_, rfl⟩
  rwa [List.mem_singleton.mp hmem]

theorem Quiet.withAlias (s : Settings) {a : Label} (h : c.Quiet a) (aliasName : Option Name) :
    c.Quiet (s.withAlias a aliasName) := by
  refine ⟨fun id hid => h.1 id (by simpa using hid), ?_⟩
  cases aliasName with
  | none => exact h.2
  | some aliasName =>
    have htext : s.aliasText aliasName = "(aka. " ++ (s.nameText aliasName ++ ")") :=
      String.append_assoc ..
    have hcomma : s.aliasText aliasName ≠ "," := htext ▸ append_ne (by decide) _
    have hand : s.aliasText aliasName ≠ "and" := htext ▸ append_ne (by decide) _
    have hold := h.2
    simp only [haveList] at hold
    simp [Settings.withAlias, Label.before, Label.text, haveList, hold, hcomma, hand]

end Conditions

namespace Draft

variable {α β : Type} {c : Conditions}

/-- In every run whose steps have the conditions `c`, the value satisfies `post`. -/
def Says (d : Draft α) (c : Conditions) (post : α → Prop) : Prop :=
  ∀ first r, d first = .ok r → c.Describe r.steps → post r.value

theorem Says.imp {d : Draft α} {P Q : α → Prop} (h : d.Says c P) (hPQ : ∀ a, P a → Q a) :
    d.Says c Q :=
  fun first r hr hc => hPQ _ (h first r hr hc)

theorem Says.anything (d : Draft α) : d.Says c fun _ => True :=
  fun _ _ _ _ => trivial

theorem Says.pure {a : α} {post : α → Prop} (h : post a) : Says (pure a) c post := by
  intro first r hr _
  cases hr
  exact h

theorem Says.fail {e : PlanError} {post : α → Prop} : Says (Draft.fail e) c post := by
  intro first r hr _
  cases hr

theorem Says.bind {x : Draft α} {f : α → Draft β} {M : α → Prop} {post : β → Prop}
    (hx : x.Says c M) (hf : ∀ a, M a → (f a).Says c post) : (x >>= f).Says c post := by
  intro first r hr hc
  obtain ⟨a, ha, b, hb, rfl⟩ := bind_eq_ok.mp hr
  obtain ⟨hca, hcb⟩ := List.forall_mem_append.mp hc
  exact hf a.value (hx first a ha hca) a.next b hb hcb

theorem Says.last {x : Draft α} {f : α → Draft β} {post : β → Prop}
    (hf : ∀ a, (f a).Says c post) : (x >>= f).Says c post :=
  .bind (.anything x) fun a _ => hf a

theorem Says.check (condition : Label) : (Draft.check condition).Says c fun a =>
    ∃ id, a = .step id ∧ c id = some (condition.parts.flatMap (write grouped c)) := by
  intro first r hr hc
  cases hr
  refine ⟨first, rfl, ?_⟩
  rw [hc _ (List.mem_singleton_self _)]
  rfl

theorem Says.step {sentence : Label} (h : sentence.Tells) :
    (Draft.step sentence).Says c c.Names := by
  obtain ⟨words, rest, hparts, hne⟩ := h
  intro first r hr hc
  cases hr
  refine ⟨first, rfl, ?_⟩
  rw [hc _ (List.mem_singleton_self _), Step.condition?, if_neg]
  simp [Step.isCheck, Step.opensWith, hparts, hne]

theorem Says.sequence {γ : Type} {ds : List (Draft α)} {ys : List γ} {post : γ → α → Prop}
    (h : List.Forall₂ (fun d y => d.Says c (post y)) ds ys) :
    (Draft.sequence ds).Says c (List.Forall₂ post ys) := by
  induction h with
  | nil => exact .pure .nil
  | cons hx _ ih => exact .bind hx fun a ha => .bind ih fun rest hrest => .pure (.cons ha hrest)

theorem Says.all {γ : Type} {f : γ → Draft α} {xs : List γ} {post : α → Prop}
    (h : ∀ x ∈ xs, (f x).Says c post) :
    (Draft.sequence (xs.map f)).Says c fun as => ∀ a ∈ as, post a := by
  refine .imp (.sequence (List.forall₂_map_left_iff.mpr (List.forall₂_same.mpr h))) fun as has => ?_
  clear h
  induction has with
  | nil => simp
  | cons ha _ ih => exact List.forall_mem_cons.mpr ⟨ha, ih⟩

theorem Says.optional {d : Option (Draft α)} {post : α → Prop} (h : ∀ x ∈ d, x.Says c post) :
    (Draft.optional d).Says c fun a => ∀ x ∈ a, post x := by
  cases d with
  | none => exact .pure (by simp)
  | some d =>
    refine .bind (h d rfl) fun a ha => .pure ?_
    rintro x ⟨⟩
    exact ha

/-! ## Queries and relations -/

theorem says_unique {distinct : Bool} {input : Label} (h : c.Names input) :
    (unique distinct input).Says c c.Names := by
  unfold unique
  split
  · exact .step ⟨_, _, rfl, by decide⟩
  · exact .pure h

theorem says_createTable (columns : List Label) (input : Option Label) :
    (createTable columns input).Says c c.Names := by
  unfold createTable
  split
  · exact .step ⟨_, _, rfl, by decide⟩
  · exact .step ⟨_, _, rfl, by decide⟩

theorem says_combine (op : SetOperator) (all : Bool) (left right : Label) :
    (combine op all left right).Says c c.Names := by
  cases op <;> exact .step ⟨_, _, rfl, by decide⟩

section

variable {P : Label → Prop} {input : Label}

theorem says_cut (hP : ∀ a, c.Names a → P a) {words : String} (hw : words ≠ checkPhrase)
    (count : Option (Draft Label)) (h : P input) : (RowClauses.cut words count input).Says c P := by
  unfold RowClauses.cut
  split
  · exact .pure h
  · exact .last fun count => .imp (.step ⟨_, _, rfl, hw⟩) hP

/-- Whatever clauses there are on rows, what holds of the input and of every step holds of them. -/
theorem says_rows (hP : ∀ a, c.Names a → P a) (rows : RowClauses) (h : P input) :
    (rows.apply input).Says c P := by
  refine .bind (M := P) ?_ fun input h => ?_
  · unfold RowClauses.order
    split
    · exact .pure h
    · exact .last fun keys => .imp (.step ⟨_, _, rfl, by decide⟩) hP
  · exact .bind (says_cut hP (by decide) _ h) fun input h => says_cut hP (by decide) _ h

theorem says_groups (hP : ∀ a, c.Names a → P a) (groups : GroupClauses) (h : P input) :
    (groups.apply input).Says c P := by
  refine .bind (M := P) ?_ fun input h => ?_
  · unfold GroupClauses.group
    split
    · exact .pure h
    · exact .last fun keys => .imp (.step ⟨_, _, rfl, by decide⟩) hP
  · unfold GroupClauses.filter
    split
    · exact .pure h
    · exact .last fun condition => .imp (.step ⟨_, _, rfl, by decide⟩) hP

end

end Draft

open Draft

namespace Sql

variable (s : Settings) {c : Conditions}

/-- The label of a query names its last step, which is no check. -/
theorem says_query (q : Query) : (q.draft s).Says c c.Names := by
  obtain ⟨body, orderBy, limit, offset⟩ := q
  cases body with
  | select block =>
    show (block.draft s _).Says c c.Names
    rw [Select.draft_eq]
    split
    · refine .last fun sources => .last fun inputs => .last fun joined => .last fun filtered => ?_
      refine .last fun grouped => .last fun arranged => .last fun retrieved => ?_
      exact .bind (.step ⟨_, _, rfl, by decide⟩) fun result h => says_unique h
    · refine .last fun input => .last fun input => .last fun input => .last fun columns => ?_
      exact .bind (says_createTable _ _) fun result h => says_unique h
  | setOperation op all left right =>
    refine .last fun left => .last fun right => ?_
    exact .bind (says_combine _ _ _ _) fun combined h => says_rows (fun _ => id) _ h

theorem says_load {r : Relation} {P : Label → Prop}
    (h : ∀ a, c.Names a → ∀ n, n = none ∨ n = r.alias? → P (s.withAlias a n)) :
    (r.load s).Says c P := by
  cases r with
  | table path aliasName =>
    refine .imp (.step ?_) fun a ha => h a ha none (.inl rfl)
    cases aliasName with
    | none => exact ⟨_, _, rfl, append_ne (by decide) _⟩
    | some aliasName => exact ⟨_, _, rfl, append_ne (by decide) _⟩
  | derived query aliasName =>
    exact .bind (says_query s query) fun rows hrows => .pure (h rows hrows aliasName (.inr rfl))

end Sql

/-! ## Finished plans -/

namespace Planner

theorem mem_finish_of_mem {p : Planner} {sheet : Sheet} {t : Step}
    (ht : t ∈ (if p.settings.simplify then sheet.simplify p.simplifier else sheet).plan) :
    t ∈ (p.finish sheet).plan := by
  have hprologue (sheet : Sheet) (ht : t ∈ sheet.plan) (texts : List String) :
      t ∈ (sheet.prependAll texts).plan := by
    induction texts with
    | nil => exact ht
    | cons words texts ih => exact List.mem_cons_of_mem _ ih
  have hinterleave (words : String) (steps : List Step) (next : StepId) (ht : t ∈ steps) :
      t ∈ Sheet.interleave words next steps := by
    induction steps generalizing next with
    | nil => cases ht
    | cons step rest ih =>
      rcases List.mem_cons.mp ht with rfl | ht
      · exact List.mem_cons_self ..
      · exact List.mem_cons_of_mem _ (List.mem_cons_of_mem _ (ih (next + 1) ht))
  have hstart := hprologue _ ht p.settings.prologue
  unfold finish
  cases p.settings.interlude with
  | none => exact hstart
  | some words => exact hinterleave words _ _ hstart

/-- The checks of a planned query can be written into their users. -/
theorem exists_draft {s : Settings} {q : Query} {sheet : Sheet}
    (h : Planner.planQuery { settings := s } q = .ok sheet) :
    ∃ r, draft s q 0 = .ok r ∧ sheet = finish { settings := s } ⟨r.next, r.steps⟩ ∧
      sheet.plan.WellOrdered ∧ Plan.Inlinable r.steps := by
  rw [planQuery_eq orderly_default] at h
  cases hdraft : draft s q 0 with
  | error e => simp [steps, hdraft, Except.map] at h
  | ok r =>
    have hsteps : steps s q = .ok ⟨r.next, r.steps⟩ := by rw [steps, hdraft]
    have hconsecutive := (orderly_draft s q 0 r hdraft).1
    obtain ⟨htext, honce⟩ := hconsecutive.refCount_of_closed (closed_draft s q) hdraft
    have hsound := sound_finish (p := { settings := s }) orderly_default (sound_steps hsteps)
    rw [hsteps] at h
    cases h
    exact ⟨r, rfl, rfl, hsound.ordered, hconsecutive.sound.ordered, htext, honce⟩

/-- With simplification every step that is no check is part of the plan, with the conditions of the
checks written in. -/
theorem exists_finished {s : Settings} (hs : s.simplify = true) {q : Query} {sheet : Sheet}
    (h : Planner.planQuery { settings := s } q = .ok sheet) :
    ∃ r, draft s q 0 = .ok r ∧ sheet.plan.ids.Nodup ∧
      (Plan.conditions r.steps).Describe r.steps ∧
      ∀ t ∈ r.steps, t.isCheck = false → ∀ shape, t.Shapes (Plan.conditions r.steps) shape →
        ⟨t.id, t.parts.flatMap (Part.write shape (Plan.conditions r.steps))⟩ ∈ sheet.plan := by
  obtain ⟨r, hdraft, rfl, hfinished, hr⟩ := exists_draft h
  refine ⟨r, hdraft, hfinished.nodup, hr.ordered.describe_conditions,
    fun t ht hcheck shape hshape => mem_finish_of_mem ?_⟩
  rw [if_pos hs]
  exact hr.mem_simplify ht hcheck hshape

/-- With the default settings a plan is the draft after one pass of inlining. -/
theorem planQuery_of_draft {q : Query} {r : Drafted Label} (h : draft {} q 0 = .ok r) :
    Planner.planQuery {} q = .ok ⟨r.next, (Plan.inlineChecks r.steps).plan⟩ := by
  obtain ⟨sheet, hsheet⟩ : ∃ sheet, Planner.planQuery {} q = .ok sheet := by
    rw [planQuery_eq orderly_default, steps, h]
    exact ⟨_, rfl⟩
  obtain ⟨r', hdraft, rfl, -, hr⟩ := exists_draft hsheet
  obtain rfl : r = r' := Except.ok.inj (h.symm.trans hdraft)
  rw [hsheet, ← hr.simplify_eq]
  rfl

/-! ## Places from the end -/

/-- How many steps of a finished plan follow a step that `n` steps followed before. -/
def stepsAfter (s : Settings) (n : Nat) : Nat :=
  match s.interlude with
  | none => n
  | some _ => 2 * n + 1

theorem exists_prependAll (sheet : Sheet) (texts : List String) :
    ∃ front, (sheet.prependAll texts).plan = front ++ sheet.plan ∧
      front.map (·.parts) = texts.map fun words => [.text words] := by
  induction texts with
  | nil => exact ⟨[], rfl, rfl⟩
  | cons words texts ih =>
    obtain ⟨front, hplan, hparts⟩ := ih
    refine ⟨⟨(sheet.prependAll texts).issued, [.text words]⟩ :: front, ?_, by simp [hparts]⟩
    exact congrArg _ hplan

theorem length_interleave (words : String) (next : StepId) (steps : List Step) :
    (Sheet.interleave words next steps).length = 2 * steps.length := by
  induction steps generalizing next with
  | nil => rfl
  | cons step rest ih =>
    simp only [Sheet.interleave, List.length_cons, ih]
    omega

theorem exists_interleave (words : String) (next : StepId) (front : List Step) (t : Step)
    (back : List Step) : ∃ front' back', Sheet.interleave words next (front ++ t :: back) =
      front' ++ t :: back' ∧ back'.length = 2 * back.length + 1 := by
  induction front generalizing next with
  | nil => exact ⟨[], _, rfl, by rw [List.length_cons, length_interleave]⟩
  | cons step front ih =>
    obtain ⟨front', back', hsteps, hlength⟩ := ih (next + 1)
    exact ⟨step :: ⟨next, [.text words]⟩ :: front', back',
      congrArg (step :: ⟨next, [.text words]⟩ :: ·) hsteps, hlength⟩

theorem exists_finish {p : Planner} {sheet : Sheet} {front back : List Step} {t : Step}
    (h : (if p.settings.simplify then sheet.simplify p.simplifier else sheet).plan =
      front ++ t :: back) :
    ∃ front' back', (p.finish sheet).plan = front' ++ t :: back' ∧
      back'.length = stepsAfter p.settings back.length := by
  obtain ⟨prologue, hplan, -⟩ := exists_prependAll
    (if p.settings.simplify then sheet.simplify p.simplifier else sheet) p.settings.prologue
  rw [h, ← List.append_assoc] at hplan
  unfold finish stepsAfter
  cases p.settings.interlude with
  | none => exact ⟨_, back, hplan, rfl⟩
  | some words =>
    simp only [Sheet.intersperse, hplan]
    exact exists_interleave words _ _ t back

/-- The place of a step that is no check in the simplified plan. -/
theorem exists_place {s : Settings} (hs : s.simplify = true) {r : Drafted Label}
    (hr : Plan.Inlinable r.steps) {before after : List Step} {t : Step}
    (hsteps : r.steps = before ++ t :: after) (hcheck : t.isCheck = false)
    {shape : List Part → List Part} (hshape : t.Shapes (Plan.conditions r.steps) shape) :
    ∃ front back, (finish { settings := s } ⟨r.next, r.steps⟩).plan =
        front ++ ⟨t.id, t.parts.flatMap (Part.write shape (Plan.conditions r.steps))⟩ :: back ∧
      back.length = stepsAfter s (after.filter (!·.isCheck)).length := by
  have hids := hr.ids_simplify
  rw [hsteps, List.filter_append, List.filter_cons_of_pos (by simp [hcheck]), ← hsteps] at hids
  rw [Plan.ids_append, Plan.ids_cons] at hids
  obtain ⟨front, rest, hplan, -, hrest⟩ := List.map_eq_append_iff.mp hids
  obtain ⟨u, back, rfl, hid, hback⟩ := List.map_eq_cons_iff.mp hrest
  have hmem := hr.mem_simplify (hsteps ▸ by simp) hcheck hshape
  have hu : u = ⟨t.id, t.parts.flatMap (Part.write shape (Plan.conditions r.steps))⟩ := by
    have hnodup : (Plan.ids (({} : Simplifier).simplify r.steps)).Nodup := by
      rw [hr.ids_simplify]
      exact hr.ordered.nodup.sublist (List.filter_sublist.map _)
    exact List.inj_on_of_nodup_map hnodup (hplan ▸ by simp) hmem hid
  subst hu
  have hsimplified : (if s.simplify then Sheet.simplify ⟨r.next, r.steps⟩ {} else
      ⟨r.next, r.steps⟩).plan = _ := (congrArg Sheet.plan (if_pos hs)).trans hplan
  obtain ⟨front', back', hfinish, hlength⟩ := exists_finish (p := { settings := s }) hsimplified
  have hcount := congrArg List.length hback
  rw [List.length_map, Plan.ids, List.length_map] at hcount
  exact ⟨front', back', hfinish, by rw [hlength, hcount]⟩

theorem length_finish_lt {s : Settings} (hs : s.simplify = true) {r r' : Drafted Label}
    (hr : Plan.Inlinable r.steps) (hr' : Plan.Inlinable r'.steps)
    (h : (r.steps.filter (!·.isCheck)).length < (r'.steps.filter (!·.isCheck)).length) :
    (finish { settings := s } ⟨r.next, r.steps⟩).plan.length <
      (finish { settings := s } ⟨r'.next, r'.steps⟩).plan.length := by
  have hsimplified {r : Drafted Label} (hr : Plan.Inlinable r.steps) :
      (({} : Simplifier).simplify r.steps).length = (r.steps.filter (!·.isCheck)).length := by
    have hids := congrArg List.length hr.ids_simplify
    rwa [Plan.ids, Plan.ids, List.length_map, List.length_map] at hids
  rw [← hsimplified hr, ← hsimplified hr'] at h
  obtain ⟨prologue, hplan, hparts⟩ :=
    exists_prependAll (Sheet.simplify ⟨r.next, r.steps⟩ {}) s.prologue
  obtain ⟨prologue', hplan', hparts'⟩ :=
    exists_prependAll (Sheet.simplify ⟨r'.next, r'.steps⟩ {}) s.prologue
  have hlength : prologue.length = prologue'.length := by
    simpa using congrArg List.length (hparts.trans hparts'.symm)
  have hprologue : ((Sheet.simplify ⟨r.next, r.steps⟩ {}).prependAll s.prologue).plan.length <
      ((Sheet.simplify ⟨r'.next, r'.steps⟩ {}).prependAll s.prologue).plan.length := by
    rw [hplan, hplan', List.length_append, List.length_append, hlength]
    exact Nat.add_lt_add_left h _
  unfold finish
  rw [if_pos hs, if_pos hs]
  cases s.interlude with
  | none => exact hprologue
  | some words =>
    simp only [Sheet.intersperse, length_interleave]
    exact Nat.mul_lt_mul_of_pos_left hprologue Nat.two_pos

end Planner

end QuerySteps
