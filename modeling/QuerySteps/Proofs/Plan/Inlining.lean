import Mathlib.Data.List.Nodup
import QuerySteps.Proofs.Plan.WellOrdered

/-!
# Inlining checks

What `inlineCheck` does to a well-ordered plan whose check `target` is used once. `SingleUse` takes
such a plan apart at the check and at its only user; inlining then drops the check and puts its
condition in the place of the reference (`SingleUse.inlineCheck_eq`). The result is well-ordered and
all other checks are used as often as before.

Passes, rounds and whole simplifications are runs of such inlinings (`Inlines`), so what one
inlining keeps, they keep.
-/

namespace QuerySteps

namespace Plan

variable {pre post : Plan} {s : Step}

theorem step?_of_mem {plan : Plan} (h : plan.ids.Nodup) {t : Step} (ht : t ∈ plan) :
    plan.step? t.id = some t := by
  cases hfound : plan.step? t.id with
  | none =>
    have := List.find?_eq_none.mp hfound t ht
    simp at this
  | some t' =>
    have hid : t'.id = t.id := by simpa using List.find?_some hfound
    exact congrArg some (List.inj_on_of_nodup_map h (List.mem_of_find?_eq_some hfound) ht hid)

/-! ## Plans split at a step -/

theorem step?_split (h : s.id ∉ ids pre) : step? (pre ++ s :: post) s.id = some s := by
  have hpre : pre.find? (·.id == s.id) = none := by
    rw [List.find?_eq_none]
    intro t ht heq
    exact h (List.mem_map.mpr ⟨t, ht, beq_iff_eq.mp heq⟩)
  simp [step?, List.find?_append, hpre]

theorem eraseStep_split (h : s.id ∉ ids pre) : eraseStep (pre ++ s :: post) s.id = pre ++ post := by
  unfold eraseStep
  rw [List.eraseP_append_right, List.eraseP_cons_of_pos]
  · exact beq_self_eq_true _
  · intro t ht heq
    exact h (List.mem_map.mpr ⟨t, ht, beq_iff_eq.mp heq⟩)

theorem setParts_split (h : s.id ∉ ids pre) (parts : List Part) :
    setParts s.id parts (pre ++ s :: post) = pre ++ { s with parts } :: post := by
  induction pre with
  | nil => simp [setParts]
  | cons t rest ih =>
    obtain ⟨hne, hrest⟩ := not_or.mp (List.mem_cons.not.mp h)
    have hid : (t.id == s.id) = false := beq_eq_false_iff_ne.mpr (Ne.symm hne)
    simp only [List.cons_append, setParts, hid, ih hrest, Bool.false_eq_true, if_false]

theorem userOf?_split {id : StepId} (h : id ∉ refs pre) (hs : id ∈ s.refs) :
    userOf? (pre ++ s :: post) id = some s := by
  have hpre : pre.find? (·.refs.contains id) = none := by
    rw [List.find?_eq_none]
    intro t ht hmem
    exact h (mem_refs.mpr ⟨t, ht, List.contains_iff_mem.mp hmem⟩)
  unfold userOf?
  rw [List.find?_append, hpre,
    List.find?_cons_of_pos (p := fun t : Step => t.refs.contains id) (List.contains_iff_mem.mpr hs)]
  rfl

end Plan

namespace Part

theorem mem_filterMap_ref? {id : StepId} {parts : List Part} :
    id ∈ parts.filterMap ref? ↔ .ref id ∈ parts := by
  rw [List.mem_filterMap]
  constructor
  · rintro ⟨p, hp, h⟩
    cases p with
    | text words => cases h
    | ref id' =>
      cases h
      exact hp
  · intro h
    exact ⟨_, h, rfl⟩

theorem splice_split {id : StepId} {body left right : List Part} (h : .ref id ∉ left) :
    splice id body (left ++ .ref id :: right) = left ++ (body ++ right) := by
  induction left with
  | nil => simp [splice]
  | cons p rest ih =>
    obtain ⟨hne, hrest⟩ := not_or.mp (List.mem_cons.not.mp h)
    have hp : (p == .ref id) = false := beq_eq_false_iff_ne.mpr (Ne.symm hne)
    simp only [List.cons_append, splice, hp, ih hrest, Bool.false_eq_true, if_false]

end Part

/-- A check opens with a text, so its other fragments hold all its references. -/
theorem Step.isCheck_iff {s : Step} :
    s.isCheck = true ↔ ∃ rest, s.parts = .text checkPhrase :: rest := by
  simp only [isCheck, opensWith, beq_iff_eq, List.head?_eq_some_iff]

namespace Plan

theorem filterMap_inlineBody {check : Step} (h : check.isCheck = true) (intoCheck : Bool)
    (parts : List Part) :
    (inlineBody check intoCheck parts).filterMap Part.ref? = check.refs := by
  obtain ⟨rest, hrest⟩ := Step.isCheck_iff.mp h
  simp only [inlineBody, Step.refs, hrest, List.tail_cons, Part.filterMap_ref?_text]
  generalize (if intoCheck = true then _ else _) = grouped
  cases grouped with
  | true => simp
  | false => rfl

/-- A plan taken apart at the check `target` and at the only step that refers to it. -/
structure SingleUse (plan : Plan) (target : StepId) where
  before : Plan
  check : Step
  between : Plan
  user : Step
  after : Plan
  left : List Part
  right : List Part
  plan_eq : plan = before ++ check :: (between ++ user :: after)
  parts_eq : user.parts = left ++ .ref target :: right
  id_eq : check.id = target
  isCheck : check.isCheck = true
  unused : target ∉ refs (before ++ check :: between) ∧ target ∉ left.filterMap Part.ref? ∧
    target ∉ right.filterMap Part.ref? ∧ target ∉ refs after

/-- The identifier is that of a check which is referred to once. -/
def UsedOnce (plan : Plan) (target : StepId) : Prop :=
  (∃ s ∈ plan, s.id = target ∧ s.isCheck = true) ∧ plan.refCount target = 1

theorem mem_singleUseChecks {plan : Plan} {target : StepId} :
    target ∈ plan.singleUseChecks ↔ plan.UsedOnce target := by
  simp only [singleUseChecks, ids, List.mem_map, List.mem_filter, Bool.and_eq_true, beq_iff_eq,
    UsedOnce]
  constructor
  · rintro ⟨s, ⟨hs, hc, hr⟩, rfl⟩
    exact ⟨⟨s, hs, rfl, hc⟩, hr⟩
  · rintro ⟨⟨s, hs, rfl, hc⟩, hr⟩
    exact ⟨s, ⟨hs, hc, hr⟩, rfl⟩

/-- A check that is referred to once stands before its only user. -/
theorem WellOrdered.singleUse {plan : Plan} {target : StepId} (h : plan.WellOrdered)
    (hu : plan.UsedOnce target) : Nonempty (plan.SingleUse target) := by
  obtain ⟨⟨check, hcheck, hid, hc⟩, hcount⟩ := hu
  have hmem : target ∈ plan.refs := List.count_pos_iff.mp (by rw [refCount] at hcount; omega)
  obtain ⟨user, huser, href⟩ := mem_refs.mp hmem
  obtain ⟨pre, after, rfl⟩ := List.append_of_mem huser
  have hpre : target ∈ ids pre := by
    have := (backward_append.mp h.backward).2.1 target href
    rwa [List.append_nil] at this
  obtain ⟨check', hcheck', hid'⟩ := List.mem_map.mp hpre
  have heq : check' = check := List.inj_on_of_nodup_map h.nodup
    (List.mem_append_left _ hcheck') hcheck (hid'.trans hid.symm)
  subst heq
  obtain ⟨before, between, rfl⟩ := List.append_of_mem hcheck'
  obtain ⟨left, right, hparts⟩ := List.append_of_mem (Part.mem_filterMap_ref?.mp href)
  have hrefs : user.refs = left.filterMap Part.ref? ++ target :: right.filterMap Part.ref? := by
    simp [Step.refs, hparts]
  simp only [refCount, refs_append, refs_cons, hrefs, List.count_append, List.count_cons_self]
    at hcount
  refine ⟨⟨before, check', between, user, after, left, right, by simp, hparts, hid, hc, ?_⟩⟩
  simp only [← List.count_eq_zero, refs_append, refs_cons, List.count_append]
  omega

namespace SingleUse

variable {plan : Plan} {target : StepId} (u : plan.SingleUse target)

/-- The condition of the check as its user will say it. -/
def body : List Part :=
  inlineBody u.check u.user.isCheck u.user.parts

/-- The user with the condition in the place of the reference. -/
def merged : Step :=
  ⟨u.user.id, u.left ++ (u.body ++ u.right)⟩

theorem id_merged : u.merged.id = u.user.id := rfl

def inlined : Plan :=
  u.before ++ u.between ++ u.merged :: u.after

theorem userOf?_eq : plan.userOf? target = some u.user := by
  have href : target ∈ u.user.refs := by simp [Step.refs, u.parts_eq]
  have h : userOf? (u.before ++ u.check :: u.between ++ u.user :: u.after) target = some u.user :=
    userOf?_split u.unused.1 href
  rwa [List.append_assoc, List.cons_append, ← u.plan_eq] at h

theorem ids_nodup (h : plan.ids.Nodup) :
    u.check.id ∉ ids u.before ∧ u.user.id ∉ ids (u.before ++ u.between) := by
  rw [u.plan_eq] at h
  simp only [ids_append, ids_cons, List.nodup_append, List.nodup_cons, List.mem_append,
    List.mem_cons] at h
  refine ⟨fun hm => h.2.2 _ hm _ (.inl rfl) rfl, ?_⟩
  rw [ids_append, List.mem_append]
  rintro (hm | hm)
  · exact h.2.2 _ hm _ (.inr (.inr (.inl rfl))) rfl
  · exact h.2.1.2.2.2 _ hm _ (.inl rfl) rfl

theorem step?_eq (h : plan.ids.Nodup) : plan.step? target = some u.check := by
  have hs : step? (u.before ++ u.check :: (u.between ++ u.user :: u.after)) u.check.id =
      some u.check := step?_split (u.ids_nodup h).1
  rwa [← u.plan_eq, u.id_eq] at hs

theorem eraseStep_eq (h : plan.ids.Nodup) :
    plan.eraseStep target = u.before ++ u.between ++ u.user :: u.after := by
  have he : eraseStep (u.before ++ u.check :: (u.between ++ u.user :: u.after)) u.check.id =
      u.before ++ (u.between ++ u.user :: u.after) := eraseStep_split (u.ids_nodup h).1
  rwa [← u.plan_eq, u.id_eq, ← List.append_assoc] at he

theorem inlineCheck_eq (h : plan.ids.Nodup) : plan.inlineCheck target = ⟨u.inlined, 1⟩ := by
  have hcontains : u.user.parts.contains (.ref target) = true := by simp [u.parts_eq]
  have hleft : .ref target ∉ u.left := fun hm => u.unused.2.1 (Part.mem_filterMap_ref?.mpr hm)
  have hsplice : Part.splice target u.body u.user.parts = u.merged.parts := by
    rw [u.parts_eq, Part.splice_split hleft]
    rfl
  unfold inlineCheck
  simp only [u.userOf?_eq, u.step?_eq h, u.eraseStep_eq h]
  simp only [step?_split (u.ids_nodup h).2, setParts_split (u.ids_nodup h).2, hcontains, if_true]
  rw [body] at hsplice
  rw [hsplice]
  rfl

theorem filterMap_body : u.body.filterMap Part.ref? = u.check.refs :=
  filterMap_inlineBody u.isCheck _ _

theorem refs_merged : u.merged.refs = u.left.filterMap Part.ref? ++
    (u.check.refs ++ u.right.filterMap Part.ref?) := by
  simp only [merged, Step.refs, List.filterMap_append, u.filterMap_body]

theorem refs_user : u.user.refs = u.left.filterMap Part.ref? ++
    target :: u.right.filterMap Part.ref? := by
  simp [Step.refs, u.parts_eq]

theorem ids_inlined :
    ids u.inlined = ids u.before ++ ids u.between ++ u.user.id :: ids u.after := by
  simp [inlined, merged]

theorem ids_eq : plan.ids =
    ids u.before ++ target :: (ids u.between ++ u.user.id :: ids u.after) := by
  simpa [u.id_eq] using congrArg ids u.plan_eq

theorem refs_eq : plan.refs =
    refs u.before ++ (u.check.refs ++ (refs u.between ++ (u.user.refs ++ refs u.after))) := by
  simpa using congrArg refs u.plan_eq

/-- The steps that are left are the user and steps that do not refer to the check. -/
theorem mem_inlined_cases {t : Step} (ht : t ∈ u.inlined) :
    (t ∈ plan ∧ target ∉ t.refs) ∨ t = u.merged := by
  obtain ⟨hunused, -, -, hafter⟩ := u.unused
  have hmem (s : Step) (hs : s ∈ u.before ++ u.check :: (u.between ++ u.user :: u.after)) :
      s ∈ plan := u.plan_eq ▸ hs
  simp only [inlined, List.mem_append, List.mem_cons] at ht
  rcases ht with (ht | ht) | rfl | ht
  · exact .inl ⟨hmem t (by simp [ht]), fun href => hunused (mem_refs.mpr ⟨t, by simp [ht], href⟩)⟩
  · exact .inl ⟨hmem t (by simp [ht]), fun href => hunused (mem_refs.mpr ⟨t, by simp [ht], href⟩)⟩
  · exact .inr rfl
  · exact .inl ⟨hmem t (by simp [ht]), fun href => hafter (mem_refs.mpr ⟨t, ht, href⟩)⟩

theorem mem_check : u.check ∈ plan := by
  have hmem : u.check ∈ u.before ++ u.check :: (u.between ++ u.user :: u.after) := by simp
  rwa [← u.plan_eq] at hmem

theorem mem_user : u.user ∈ plan := by
  have hmem : u.user ∈ u.before ++ u.check :: (u.between ++ u.user :: u.after) := by simp
  rwa [← u.plan_eq] at hmem

theorem mem_ids_inlined {s : Step} (hs : s ∈ plan) (hne : s.id ≠ target) :
    s.id ∈ ids u.inlined := by
  have hid : s.id ∈ ids plan := List.mem_map_of_mem hs
  rw [u.ids_eq] at hid
  rw [u.ids_inlined]
  grind

theorem refCount_target (u : plan.SingleUse target) : plan.refCount target = 1 := by
  obtain ⟨hunused, hleft, hright, hafter⟩ := u.unused
  simp only [refs_append, refs_cons, List.mem_append, not_or] at hunused
  simp [refCount, u.refs_eq, u.refs_user, List.count_append, List.count_eq_zero.mpr, hunused,
    hleft, hright, hafter]

theorem target_notMem_ids (h : plan.ids.Nodup) : target ∉ ids u.inlined := by
  rw [u.ids_eq] at h
  rw [u.ids_inlined]
  grind

/-- Inlining keeps references backward: those of the condition were to steps before the check. -/
theorem wellOrdered (h : plan.WellOrdered) : u.inlined.WellOrdered where
  nodup := by
    have hnd := h.nodup
    rw [u.ids_eq] at hnd
    rw [u.ids_inlined]
    refine hnd.sublist ?_
    simp
  backward := by
    have hsplit : Backward [] (u.before ++ u.check :: (u.between ++ u.user :: u.after)) :=
      u.plan_eq ▸ h.backward
    simp only [backward_append, Backward, u.refs_user, u.id_eq, List.append_nil] at hsplit
    obtain ⟨hbefore, hcheck, hbetween, huser, hafter⟩ := hsplit
    obtain ⟨hun, hunleft, hunright, hunafter⟩ := u.unused
    simp only [refs_append, refs_cons, List.mem_append, not_or] at hun
    simp only [inlined, backward_append, Backward, List.append_nil, ids_append, u.id_merged]
    refine ⟨⟨hbefore, hbetween.of_unused hun.2.2 (by simp)⟩, fun id hid => ?_,
      hafter.of_unused hunafter (by grind)⟩
    rw [u.refs_merged] at hid
    simp only [List.mem_append, List.mem_cons] at hid huser ⊢
    rcases hid with hid | hid | hid
    · have := huser id (.inl hid)
      grind
    · exact .inl (hcheck id hid)
    · have := huser id (.inr (.inr hid))
      grind

theorem refCount_eq {id : StepId} (hne : id ≠ target) :
    u.inlined.refCount id = plan.refCount id := by
  simp only [refCount, inlined, u.refs_eq, refs_append, refs_cons, u.refs_merged, u.refs_user,
    List.count_append, List.count_cons_of_ne (Ne.symm hne)]
  omega

theorem isCheck_of_ne {id : StepId} (hne : id ≠ target)
    (h : ∃ s ∈ plan, s.id = id ∧ s.isCheck = true) :
    ∃ s ∈ u.inlined, s.id = id ∧ s.isCheck = true := by
  obtain ⟨s, hs, rfl, hc⟩ := h
  have hs : s ∈ u.before ++ u.check :: (u.between ++ u.user :: u.after) := u.plan_eq ▸ hs
  simp only [List.mem_append, List.mem_cons] at hs
  rcases hs with hs | rfl | hs | rfl | hs
  · exact ⟨s, by simp [inlined, hs], rfl, hc⟩
  · exact absurd u.id_eq hne
  · exact ⟨s, by simp [inlined, hs], rfl, hc⟩
  · refine ⟨u.merged, by simp [inlined], rfl, ?_⟩
    obtain ⟨rest, hrest⟩ := Step.isCheck_iff.mp hc
    rw [u.parts_eq] at hrest
    cases hl : u.left with
    | nil => simp [hl] at hrest
    | cons p left =>
      rw [hl, List.cons_append, List.cons.injEq] at hrest
      exact Step.isCheck_iff.mpr ⟨left ++ (u.body ++ u.right), by simp [merged, hl, hrest.1]⟩
  · exact ⟨s, by simp [inlined, hs], rfl, hc⟩

theorem usedOnce_of_ne {id : StepId} (hne : id ≠ target) (h : plan.UsedOnce id) :
    u.inlined.UsedOnce id :=
  ⟨u.isCheck_of_ne hne h.1, by rw [u.refCount_eq hne, h.2]⟩

end SingleUse

/-! ## Passes and rounds -/

/-- The plan is well-ordered and holds identifiers of `old` only. -/
structure WellOrderedWithin (old new : Plan) : Prop where
  ordered : new.WellOrdered
  ids_subset : ids new ⊆ ids old

theorem WellOrdered.within {plan : Plan} (h : plan.WellOrdered) : WellOrderedWithin plan plan :=
  ⟨h, List.Subset.refl _⟩

theorem WellOrderedWithin.trans {a b c : Plan} (hab : WellOrderedWithin a b)
    (hbc : WellOrderedWithin b c) : WellOrderedWithin a c :=
  ⟨hbc.ordered, List.Subset.trans hbc.ids_subset hab.ids_subset⟩

/-- The number of inlinings that lead from one plan to another. They are done one after the other,
each on a check that is used once when its turn comes. -/
inductive Inlines : Nat → Plan → Plan → Prop where
  | refl (plan : Plan) : Inlines 0 plan plan
  | step {n : Nat} {plan next : Plan} {target : StepId} (u : plan.SingleUse target) :
      Inlines n u.inlined next → Inlines (n + 1) plan next

namespace Inlines

variable {m n : Nat} {a b c : Plan}

theorem trans (hab : Inlines m a b) (hbc : Inlines n b c) : Inlines (m + n) a c := by
  induction hab with
  | refl => rwa [Nat.zero_add]
  | step u _ ih =>
    rw [Nat.add_right_comm]
    exact .step u (ih hbc)

theorem wellOrdered (h : Inlines n a b) (ha : a.WellOrdered) : b.WellOrdered := by
  induction h with
  | refl => exact ha
  | step u _ ih => exact ih (u.wellOrdered ha)

theorem sublist_ids (h : Inlines n a b) : (ids b).Sublist (ids a) := by
  induction h with
  | refl => exact .refl _
  | step u _ ih =>
    refine ih.trans ?_
    rw [u.ids_inlined, u.ids_eq]
    simp

theorem refCount_eq (h : Inlines n a b) (ha : a.WellOrdered) {id : StepId} (hid : id ∈ ids b) :
    b.refCount id = a.refCount id := by
  induction h with
  | refl => rfl
  | step u hrest ih =>
    rw [ih (u.wellOrdered ha) hid]
    refine u.refCount_eq ?_
    rintro rfl
    exact u.target_notMem_ids ha.nodup (hrest.sublist_ids.mem hid)

end Inlines

/-- A pass over checks that are used once inlines all of them. -/
theorem WellOrdered.inlines_inlineEach {plan : Plan} {targets : List StepId} (h : plan.WellOrdered)
    (hnd : targets.Nodup) (hu : ∀ target ∈ targets, plan.UsedOnce target) :
    (plan.inlineEach targets).count = targets.length ∧
      Inlines targets.length plan (plan.inlineEach targets).plan := by
  induction targets generalizing plan with
  | nil => exact ⟨rfl, .refl plan⟩
  | cons target targets ih =>
    obtain ⟨hnotin, hnd⟩ := List.nodup_cons.mp hnd
    obtain ⟨hut, hus⟩ := List.forall_mem_cons.mp hu
    obtain ⟨u⟩ := h.singleUse hut
    -- The targets were chosen before the pass; each is still used once when its turn comes.
    have hothers : ∀ id ∈ targets, u.inlined.UsedOnce id := by
      intro id hid
      refine u.usedOnce_of_ne ?_ (hus id hid)
      rintro rfl
      exact hnotin hid
    obtain ⟨hcount, hrest⟩ := ih (u.wellOrdered h) hnd hothers
    simp only [inlineEach, u.inlineCheck_eq h.nodup, List.length_cons]
    exact ⟨by omega, .step u hrest⟩

theorem WellOrdered.inlines_inlineChecks {plan : Plan} (h : plan.WellOrdered) :
    plan.inlineChecks.count = plan.singleUseChecks.length ∧
      Inlines plan.inlineChecks.count plan plan.inlineChecks.plan := by
  have hnd : plan.singleUseChecks.Nodup := h.nodup.sublist (List.filter_sublist.map _)
  obtain ⟨hcount, hinlines⟩ :=
    h.inlines_inlineEach hnd fun target ht => mem_singleUseChecks.mp ht
  exact ⟨hcount, by rwa [inlineChecks, hcount]⟩

end Plan

namespace Simplifier

open Plan

/-- The rule keeps plans well-ordered and adds no step. -/
def Orderly (rule : Rule) : Prop :=
  ∀ plan : Plan, plan.WellOrdered → WellOrderedWithin plan (rule.apply plan).plan

theorem orderly_inlineChecks : Orderly .inlineChecks := fun _ h =>
  have hinlines := h.inlines_inlineChecks.2
  ⟨hinlines.wellOrdered h, hinlines.sublist_ids.subset⟩

theorem wellOrderedWithin_applyEach {rules : List Rule} (hr : ∀ rule ∈ rules, Orderly rule)
    {plan : Plan} (h : plan.WellOrdered) : WellOrderedWithin plan (applyEach plan rules).plan := by
  induction rules generalizing plan with
  | nil => exact h.within
  | cons rule rules ih =>
    obtain ⟨hrule, hrules⟩ := List.forall_mem_cons.mp hr
    have hfirst := hrule plan h
    exact hfirst.trans (ih hrules hfirst.ordered)

/-- Simplifying with orderly rules keeps a plan well-ordered and adds no step. -/
theorem wellOrderedWithin_simplify {s : Simplifier} (hr : ∀ rule ∈ s.rules, Orderly rule)
    {plan : Plan} (h : plan.WellOrdered) : WellOrderedWithin plan (s.simplify plan) := by
  have hround := wellOrderedWithin_applyEach hr h
  fun_induction simplify s plan with
  | case1 plan next heq =>
    rw [round] at heq
    rwa [heq] at hround
  | case2 plan next n heq ih =>
    rw [round] at heq
    rw [heq] at hround
    exact hround.trans (ih hround.ordered (wellOrderedWithin_applyEach hr hround.ordered))

end Simplifier

theorem Sheet.Sound.simplify {s : Sheet} (h : s.Sound) {simplifier : Simplifier}
    (hr : ∀ rule ∈ simplifier.rules, Simplifier.Orderly rule) : (s.simplify simplifier).Sound where
  ordered := (Simplifier.wellOrderedWithin_simplify hr h.ordered).ordered
  lt_issued id hid :=
    h.lt_issued id ((Simplifier.wellOrderedWithin_simplify hr h.ordered).ids_subset hid)

end QuerySteps
