import QuerySteps.Proofs.CheckUse
import QuerySteps.Proofs.Plan.Folding

/-!
# One pass of inlining

The targets of a pass are chosen before it, and the users of checks may be targets themselves. In a
well-ordered plan each target is still a check that is used once when its turn comes, so a pass
takes out exactly its targets (`WellOrdered.ids_inlineEach`). Where all steps begin with texts no
step turns into a check and no reference is lost, so the pass leaves no check that is used once, and
another one has nothing to do.
-/

namespace QuerySteps

namespace Plan

variable {plan : Plan} {target : StepId}

theorem SingleUse.ids_inlined_eq_erase (u : plan.SingleUse target) (hnd : plan.ids.Nodup) :
    ids u.inlined = (ids plan).erase target := by
  have hbefore := (u.ids_nodup hnd).1
  rw [u.id_eq] at hbefore
  rw [u.ids_inlined, u.ids_eq, List.erase_append_right _ hbefore, List.erase_cons_head,
    List.append_assoc]

/-- A pass takes out the checks that it was given: each of them is used once when its turn comes. -/
theorem WellOrdered.ids_inlineEach {targets : List StepId} (h : plan.WellOrdered)
    (hnd : targets.Nodup) (hu : ∀ target ∈ targets, plan.UsedOnce target) :
    ids (plan.inlineEach targets).plan = (ids plan).diff targets := by
  induction targets generalizing plan with
  | nil => rw [inlineEach, List.diff_nil]
  | cons target targets ih =>
    obtain ⟨hnotin, hnd⟩ := List.nodup_cons.mp hnd
    obtain ⟨htarget, hothers⟩ := List.forall_mem_cons.mp hu
    obtain ⟨u⟩ := h.singleUse htarget
    have hnext : ∀ id ∈ targets, u.inlined.UsedOnce id := fun id hid =>
      u.usedOnce_of_ne (ne_of_mem_of_not_mem hid hnotin) (hothers id hid)
    rw [inlineEach, u.inlineCheck_eq h.nodup, List.diff_cons, ← u.ids_inlined_eq_erase h.nodup]
    exact ih (u.wellOrdered h) hnd hnext

theorem usedOnce_id_iff (hnd : plan.ids.Nodup) {s : Step} (hs : s ∈ plan) :
    plan.UsedOnce s.id ↔ s.isCheck = true ∧ plan.refCount s.id = 1 := by
  refine and_congr_left fun _ => ⟨?_, fun hc => ⟨s, hs, rfl, hc⟩⟩
  rintro ⟨t, ht, hid, hc⟩
  rwa [List.inj_on_of_nodup_map hnd ht hs hid] at hc

theorem WellOrdered.ids_inlineChecks (h : plan.WellOrdered) :
    ids plan.inlineChecks.plan =
      ids (plan.filter fun s => !(s.isCheck && plan.refCount s.id == 1)) := by
  have htargets : ∀ target ∈ plan.singleUseChecks, plan.UsedOnce target :=
    fun _ hid => mem_singleUseChecks.mp hid
  rw [inlineChecks, h.ids_inlineEach (nodup_singleUseChecks h.nodup) htargets,
    h.nodup.sdiff_eq_filter, ids, List.filter_map, ids]
  refine congrArg _ (List.filter_congr fun s hs => ?_)
  have hiff : s.id ∈ plan.singleUseChecks ↔ s.isCheck = true ∧ plan.refCount s.id = 1 :=
    mem_singleUseChecks.trans (usedOnce_id_iff h.nodup hs)
  simp [hiff, beq_eq_decide]

/-- A pass leaves no check that is used once: none comes into being, and the others are gone. -/
theorem WellOrdered.singleUseChecks_inlineChecks (h : plan.WellOrdered)
    (htext : ∀ s ∈ plan, s.beginsWithText = true) :
    plan.inlineChecks.plan.singleUseChecks = [] := by
  obtain ⟨-, hrun⟩ := h.inlines_inlineChecks
  refine List.eq_nil_iff_forall_not_mem.mpr fun id hid => ?_
  obtain ⟨⟨t, ht, rfl, hcheck⟩, hcount⟩ := mem_singleUseChecks.mp hid
  have hleft : t.id ∈ ids plan.inlineChecks.plan := List.mem_map_of_mem ht
  obtain ⟨s, hs, hsame, hkind, -⟩ := hrun.exists_of_mem h htext ht
  -- It was a check that is used once before the pass, hence one of the targets.
  have honce : s.isCheck = true ∧ plan.refCount s.id = 1 :=
    ⟨hkind.trans hcheck, by rw [hsame, ← hrun.refCount_eq h hleft, hcount]⟩
  rw [h.ids_inlineChecks] at hleft
  obtain ⟨s', hs', hid'⟩ := List.mem_map.mp hleft
  obtain ⟨hs', hkept⟩ := List.mem_filter.mp hs'
  rw [List.inj_on_of_nodup_map h.nodup hs' hs (hid'.trans hsame.symm)] at hkept
  simp [honce] at hkept

end Plan

namespace Planner

theorem beginsWithText_steps {s : Settings} {q : Sql.Query} {sheet : Sheet}
    (h : steps s q = .ok sheet) : ∀ t ∈ sheet.plan, t.beginsWithText = true := by
  unfold steps at h
  split at h
  · cases h
  · rename_i written hw
    cases h
    exact ((orderly_draft s q 0 written hw).1.refCount_of_closed (closed_draft s q) hw).1

end Planner

namespace Plan

/-- One pass over a valid plan of distinct identifiers whose steps begin with texts takes out the
checks that are used once, all of them and nothing else, and counts them. Another pass counts
nothing and changes nothing. The steps that the translation of a query makes do begin with texts. -/
theorem inlineChecks_settles {plan : Plan} (hnodup : plan.ids.Nodup)
    (hvalid : plan.validate = .ok ()) (htext : ∀ s ∈ plan, s.beginsWithText = true) :
    let once := plan.inlineChecks
    once.plan.ids = ids (plan.filter fun s => !(s.isCheck && plan.refCount s.id == 1)) ∧
    once.count = (plan.filter fun s => s.isCheck && plan.refCount s.id == 1).length ∧
    once.plan.inlineChecks = ⟨once.plan, 0⟩ ∧
    ∀ (s : Settings) (q : Sql.Query) (sheet : Sheet), Planner.steps s q = .ok sheet →
      ∀ t ∈ sheet.plan, t.beginsWithText = true := by
  intro once
  have h : plan.WellOrdered := ⟨hnodup, (validate_eq_ok_iff hnodup).mp hvalid⟩
  refine ⟨h.ids_inlineChecks, ?_, ?_, fun _ _ _ => Planner.beginsWithText_steps⟩
  · rw [h.inlines_inlineChecks.1, singleUseChecks, ids, List.length_map]
  · rw [inlineChecks, h.singleUseChecks_inlineChecks htext]
    rfl

/-- Checks nested in each other, one that is used twice and one that is not used. -/
def nestedChecks : Plan :=
  [⟨0, [.text checkPhrase, .text "a equals 1"]⟩,
    ⟨1, [.text checkPhrase, .text "b equals 2"]⟩,
    ⟨2, [.text checkPhrase, .ref 0, .text "and", .ref 1]⟩,
    ⟨3, [.text checkPhrase, .text "c is unknown"]⟩,
    ⟨4, [.text checkPhrase, .ref 2, .text "or", .ref 3]⟩,
    ⟨5, [.text checkPhrase, .ref 4, .text "is false"]⟩,
    ⟨6, [.text checkPhrase, .ref 3, .text "is false"]⟩,
    ⟨7, [.text "Keep rows where", .ref 5]⟩]

theorem inlineChecks_settles_nestedChecks :
    nestedChecks.ids.Nodup ∧ nestedChecks.validate = .ok () ∧
    (∀ s ∈ nestedChecks, s.beginsWithText = true) ∧
    nestedChecks.inlineChecks.plan.ids = [3, 6, 7] ∧ nestedChecks.inlineChecks.count = 5 ∧
    nestedChecks.inlineChecks.plan.inlineChecks = ⟨nestedChecks.inlineChecks.plan, 0⟩ := by
  have hnodup : nestedChecks.ids.Nodup := by decide
  have htext : ∀ s ∈ nestedChecks, s.beginsWithText = true := by decide
  obtain ⟨hids, hcount, hagain, -⟩ := inlineChecks_settles hnodup rfl htext
  exact ⟨hnodup, rfl, htext, hids, hcount, hagain⟩

end Plan

end QuerySteps
