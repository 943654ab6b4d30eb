import QuerySteps.Proofs.Plan.Unfolding
import QuerySteps.Proofs.Planning
import QuerySteps.Proofs.Translate.LinearUse

/-!
# Checks in the plans of queries

Translated queries use each of their checks once, and all their steps begin with texts. A simplified
plan therefore has no check of its own: a step that is left and tests a condition was a check
before, was used once, and would have been inlined. Only texts around the plan can still look like
checks.
-/

namespace QuerySteps

open Sql

namespace Plan

/-- Every check is referred to by one fragment of one later step and by nothing else. -/
def ChecksUsedOnce (plan : Plan) : Prop :=
  ∀ check ∈ plan, check.isCheck = true → ∃ (before between after : Plan) (user : Step),
    plan = before ++ check :: (between ++ user :: after) ∧ user.refs.count check.id = 1 ∧
    check.id ∉ refs (before ++ check :: between) ∧ check.id ∉ refs after

theorem WellOrdered.checksUsedOnce {plan : Plan} (h : plan.WellOrdered)
    (hcount : ∀ s ∈ plan, s.isCheck = true → plan.refCount s.id = 1) : plan.ChecksUsedOnce := by
  intro check hmem hcheck
  obtain ⟨u⟩ := h.singleUse ⟨⟨check, hmem, rfl, hcheck⟩, hcount check hmem hcheck⟩
  have heq : u.check = check := List.inj_on_of_nodup_map h.nodup u.mem_check hmem u.id_eq
  have hplan := u.plan_eq
  obtain ⟨hbefore, hleft, hright, hafter⟩ := u.unused
  rw [heq] at hplan hbefore
  refine ⟨u.before, u.between, u.after, u.user, hplan, ?_, hbefore, hafter⟩
  simp [u.refs_user, List.count_append, List.count_eq_zero.mpr hleft,
    List.count_eq_zero.mpr hright]

theorem WellOrdered.isCheck_eq_false_of_mem_simplify {plan : Plan} (h : plan.WellOrdered)
    (htext : ∀ s ∈ plan, s.beginsWithText = true)
    (hcount : ∀ s ∈ plan, s.isCheck = true → plan.refCount s.id = 1) {t : Step}
    (ht : t ∈ ({} : Simplifier).simplify plan) : t.isCheck = false := by
  obtain ⟨k, hinlines⟩ : ∃ k, Inlines k plan (({} : Simplifier).simplify plan) :=
    Simplifier.inlines_simplify h 1
  refine Bool.eq_false_iff.mpr fun hcheck => ?_
  obtain ⟨s, hs, hid, hsame, -⟩ := hinlines.exists_of_mem h htext ht
  have honce := hcount s hs (hsame.trans hcheck)
  rw [hid, ← hinlines.refCount_eq h (List.mem_map_of_mem ht)] at honce
  exact Simplifier.refCount_ne_one_of_mem_simplify h (Nat.le_refl 1) ht hcheck honce

end Plan

/-- A run that leaves no reference to any check uses its own checks once. -/
theorem Consecutive.refCount_of_closed {d : Draft Label} (hd : ∀ id, d.Closed id) {first : StepId}
    {r : Drafted Label} (hr : d first = .ok r) (h : Consecutive first r.steps r.next) :
    (∀ s ∈ r.steps, s.beginsWithText = true) ∧
    ∀ s ∈ r.steps, s.isCheck = true → Plan.refCount r.steps s.id = 1 := by
  have hnodup : (Plan.ids r.steps).Nodup := h.ids ▸ List.nodup_range'
  constructor
  · refine (hd r.next first r hr fun s hs hid => ?_).1
    have hmem : s.id ∈ Plan.ids r.steps := List.mem_map_of_mem hs
    rw [h.ids, List.mem_range'_1, hid, h.next_eq] at hmem
    omega
  · intro s hs hcheck
    obtain ⟨-, left, ⟨-, rfl⟩, hcount⟩ := hd s.id first r hr fun t ht hid =>
      List.inj_on_of_nodup_map hnodup ht hs hid ▸ hcheck
    have hmem : s.id ∈ Plan.ids r.steps := List.mem_map_of_mem hs
    rwa [List.count_eq_one_of_mem hnodup hmem, Nat.add_zero, Nat.zero_add] at hcount

/-! ## Texts around a plan -/

namespace Sheet

variable {s : Sheet} {t : Step}

theorem le_issued_prependAll (s : Sheet) (texts : List String) :
    s.issued ≤ (s.prependAll texts).issued := by
  induction texts with
  | nil => exact Nat.le_refl _
  | cons words texts ih => exact Nat.le_succ_of_le ih

theorem mem_prependAll {texts : List String} (ht : t ∈ (s.prependAll texts).plan) :
    t ∈ s.plan ∨ (s.issued ≤ t.id ∧ ∃ words ∈ texts, t.parts = [.text words]) := by
  induction texts with
  | nil => exact .inl ht
  | cons words texts ih =>
    rcases List.mem_cons.mp ht with rfl | ht
    · exact .inr ⟨s.le_issued_prependAll texts, words, List.mem_cons_self .., rfl⟩
    · obtain ht | ⟨hid, words', hmem, hparts⟩ := ih ht
      · exact .inl ht
      · exact .inr ⟨hid, words', List.mem_cons_of_mem _ hmem, hparts⟩

theorem mem_interleave {words : String} {next : StepId} {steps : List Step}
    (ht : t ∈ interleave words next steps) :
    t ∈ steps ∨ (next ≤ t.id ∧ t.parts = [.text words]) := by
  induction steps generalizing next with
  | nil => cases ht
  | cons step rest ih =>
    simp only [interleave, List.mem_cons] at ht
    rcases ht with rfl | rfl | ht
    · exact .inl (List.mem_cons_self ..)
    · exact .inr ⟨Nat.le_refl _, rfl⟩
    · exact (ih ht).imp (List.mem_cons_of_mem _) (And.imp_left Nat.le_of_succ_le)

end Sheet

/-- The step is a text of the prologue or the interlude, under an identifier of its own. -/
def Settings.Surrounds (s : Settings) (issued : StepId) (t : Step) : Prop :=
  issued ≤ t.id ∧
    ∃ words, t.parts = [.text words] ∧ (words ∈ s.prologue ∨ s.interlude = some words)

namespace Planner

theorem mem_finish {p : Planner} {sheet : Sheet} {t : Step} (ht : t ∈ (p.finish sheet).plan) :
    t ∈ (if p.settings.simplify then sheet.simplify p.simplifier else sheet).plan ∨
      p.settings.Surrounds sheet.issued t := by
  generalize hbare : (if p.settings.simplify then sheet.simplify p.simplifier else sheet) = bare
  have hissued : sheet.issued = bare.issued := by
    rw [← hbare]
    split <;> rfl
  have hprologue (ht : t ∈ (bare.prependAll p.settings.prologue).plan) :
      t ∈ bare.plan ∨ p.settings.Surrounds sheet.issued t := by
    obtain ht | ⟨hid, words, hmem, hparts⟩ := Sheet.mem_prependAll ht
    · exact .inl ht
    · exact .inr ⟨hissued ▸ hid, words, hparts, .inl hmem⟩
  unfold finish at ht
  rw [hbare] at ht
  cases hinterlude : p.settings.interlude with
  | none =>
    rw [hinterlude] at ht
    exact hprologue ht
  | some words =>
    rw [hinterlude] at ht
    obtain ht | ⟨hid, hparts⟩ := Sheet.mem_interleave ht
    · exact hprologue ht
    · have hle := bare.le_issued_prependAll p.settings.prologue
      exact .inr ⟨hissued ▸ Nat.le_trans hle hid, words, hparts, .inr hinterlude⟩

theorem closed_draft (s : Settings) (q : Query) (id : StepId) : (draft s q).Closed id := by
  refine ((hereditary_linear s).query q).bind fun rows hr => ?_
  refine Draft.Settles.step ⟨_, _, rfl, ?_⟩ (by simp [hr])
  simp only [String.append_assoc]
  exact append_ne (by decide) _

/-- If a query can be translated, its steps use every check once, and so do the steps of its plan
before it is simplified. In a simplified plan only a text of the prologue or the interlude can look
like a check, by being the phrase that opens one. -/
theorem checksUsedOnce_planQuery {s : Settings} {q : Query} {r : Drafted Label}
    (h : q.draft s 0 = .ok r) :
    Plan.ChecksUsedOnce r.steps ∧ ∃ body sheet, steps s q = .ok body ∧
      Planner.planQuery { settings := s } q = .ok sheet ∧ body.plan.ChecksUsedOnce ∧
      (s.simplify = true → ∀ t ∈ sheet.plan, t.isCheck = true →
        t.parts = [.text checkPhrase] ∧ body.issued ≤ t.id ∧
        (checkPhrase ∈ s.prologue ∨ s.interlude = some checkPhrase)) := by
  have hq := ((hereditary_orderly s).query q 0 r h).1
  have hclosed : ∀ id, (q.draft s).Closed id := fun id => (hereditary_linear s).query q
  obtain ⟨written, hw⟩ : ∃ written, draft s q 0 = .ok written :=
    ⟨_, Draft.bind_eq_ok.mpr ⟨r, h, _, rfl, rfl⟩⟩
  have hbody : steps s q = .ok ⟨written.next, written.steps⟩ := by rw [steps, hw]
  have hplan : Planner.planQuery { settings := s } q =
      .ok (({ settings := s } : Planner).finish ⟨written.next, written.steps⟩) := by
    rw [planQuery_eq orderly_default, hbody]
    rfl
  have hquery := hq.sound.ordered.checksUsedOnce (hq.refCount_of_closed hclosed h).2
  have hs := (orderly_draft s q 0 written hw).1
  obtain ⟨htext, hcount⟩ := hs.refCount_of_closed (closed_draft s q) hw
  refine ⟨hquery, _, _, hbody, hplan, hs.sound.ordered.checksUsedOnce hcount,
    fun hsimplify t ht hcheck => ?_⟩
  obtain ht | ⟨hid, words, hparts, hwords⟩ := mem_finish ht
  · rw [if_pos hsimplify] at ht
    rw [hs.sound.ordered.isCheck_eq_false_of_mem_simplify htext hcount ht] at hcheck
    cases hcheck
  · obtain ⟨rest, hrest⟩ := Step.isCheck_iff.mp hcheck
    rw [hparts] at hrest
    cases hrest
    exact ⟨hparts, hid, hwords⟩

theorem checksUsedOnce_planQuery_nestedJoin : ∃ r body sheet, nestedJoin.draft {} 0 = .ok r ∧
    Plan.ChecksUsedOnce r.steps ∧ steps {} nestedJoin = .ok body ∧
    Planner.planQuery {} nestedJoin = .ok sheet ∧ body.plan.ChecksUsedOnce ∧
    ∀ t ∈ sheet.plan, t.isCheck = false := by
  obtain ⟨-, r, -, h, -⟩ | ⟨hn, -⟩ := hereditary_settled.query nestedJoin {} {} 0 0
  · obtain ⟨hr, body, sheet, hbody, hsheet, honce, hnone⟩ := checksUsedOnce_planQuery h
    refine ⟨r, body, sheet, h, hr, hbody, hsheet, honce, fun t ht => ?_⟩
    refine Bool.eq_false_iff.mpr fun hcheck => ?_
    obtain ⟨-, -, hprologue | hinterlude⟩ := hnone rfl t ht hcheck
    · cases hprologue
    · cases hinterlude
  · exact absurd rfl hn

end Planner

end QuerySteps
