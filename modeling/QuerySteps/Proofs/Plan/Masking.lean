import QuerySteps.Proofs.Plan.Loops
import QuerySteps.Proofs.Plan.Unfolding

/-!
# References that simplifying hides

Simplifying does not look where steps stand. A check may be folded into a step before it, and its
own references then count from there, so a plan with a reference to a later step can turn into a
valid one. What the steps that are left refer to is what they led to through the steps that are gone
(`Reduces.leadsTo_iff`), so the simplified plan is valid exactly if all of that stands before them
(`validate_simplify_iff`). A reference between steps that are no checks and do not open with
references is never hidden.
-/

namespace QuerySteps

/-- Of the steps that begin with texts only the checks can be folded away. -/
theorem Step.isCheck_of_foldable {s : Step} (htext : s.beginsWithText = true)
    (h : s.foldable = true) : s.isCheck = true := by
  obtain ⟨words, hhead⟩ := beginsWithText_iff.mp htext
  rw [foldable, hhead] at h
  rw [isCheck, opensWith, hhead, beq_iff_eq.mp h]
  exact beq_self_eq_true _

namespace Plan

/-- The step `a` stands before the step `b`. -/
def Precedes (plan : Plan) (a b : StepId) : Prop :=
  [a, b].Sublist plan.ids

instance (plan : Plan) (a b : StepId) : Decidable (plan.Precedes a b) :=
  inferInstanceAs (Decidable ([a, b].Sublist plan.ids))

/-- What a step refers to if the steps of the plan that are not `kept` are folded away: their own
references take the place of the references to them. -/
inductive LeadsTo (plan : Plan) (kept : List StepId) : Step → StepId → Prop where
  | direct {s : Step} {id : StepId} : id ∈ s.refs → id ∈ kept ∨ id ∉ plan.ids →
      LeadsTo plan kept s id
  | through {s t : Step} {id : StepId} : t ∈ plan → t.id ∈ s.refs → t.id ∉ kept →
      LeadsTo plan kept t id → LeadsTo plan kept s id

variable {plan : Plan} {target : StepId} {kept : List StepId} {id : StepId}

/-! ## The order of steps -/

theorem precedes_split {pre post : Plan} {s : Step} (hnd : (ids (pre ++ s :: post)).Nodup) :
    Precedes (pre ++ s :: post) id s.id ↔ id ∈ ids pre := by
  rw [Precedes]
  rw [ids_append, ids_cons] at hnd ⊢
  constructor
  · intro h
    obtain ⟨left, right, heq, hleft, hright⟩ := List.sublist_append_iff.mp h
    cases left with
    | cons a left =>
      obtain rfl : id = a := (List.cons.inj heq).1
      exact hleft.subset (List.mem_cons_self ..)
    | nil =>
      -- The step itself would have to follow another step of its identifier.
      obtain rfl : right = [id, s.id] := heq.symm
      have hlater : s.id ∈ ids post := List.singleton_sublist.mp (by simpa using hright.tail)
      exact absurd hlater (List.nodup_cons.mp (List.nodup_append.mp hnd).2.1).1
  · intro hid
    exact (List.singleton_sublist.mpr hid).append
      (List.singleton_sublist.mpr (List.mem_cons_self ..))

/-- A plan without repeated identifiers is valid exactly if every step stands after those that it
refers to. -/
theorem validate_eq_ok_iff_precedes (hnd : plan.ids.Nodup) :
    plan.validate = .ok () ↔ ∀ s ∈ plan, ∀ id ∈ s.refs, plan.Precedes id s.id := by
  rw [validate_eq_ok_iff hnd]
  constructor
  · intro h s hs id hid
    obtain ⟨pre, post, rfl⟩ := List.append_of_mem hs
    rw [precedes_split hnd]
    simpa using (backward_append.mp h).2.1 id hid
  · -- The steps that were passed are known to those that follow.
    suffices hfrom : ∀ post pre, plan = pre ++ post →
        (∀ s ∈ plan, ∀ id ∈ s.refs, plan.Precedes id s.id) → Backward (ids pre) post from
      hfrom plan [] rfl
    intro post
    induction post with
    | nil => exact fun _ _ _ => trivial
    | cons s post ih =>
      rintro pre rfl h
      refine ⟨fun id hid => (precedes_split hnd).mp (h s (by simp) id hid), ?_⟩
      refine (ih (pre ++ [s]) (by simp) h).mono ?_
      simp

theorem precedes_erase {a b : StepId} {plan' : Plan} (h : ids plan' = (ids plan).erase target)
    (ha : a ≠ target) (hb : b ≠ target) : plan'.Precedes a b ↔ plan.Precedes a b := by
  rw [Precedes, Precedes, h]
  refine ⟨fun hsub => hsub.trans List.erase_sublist, fun hsub => ?_⟩
  have herase := hsub.erase target
  rwa [List.erase_of_not_mem (by simp [ha.symm, hb.symm])] at herase

/-! ## What steps lead to -/

theorem LeadsTo.kept_or {s : Step} (h : plan.LeadsTo kept s id) : id ∈ kept ∨ id ∉ plan.ids := by
  induction h with
  | direct _ hid => exact hid
  | through _ _ _ _ ih => exact ih

theorem leadsTo_self {s : Step} : plan.LeadsTo plan.ids s id ↔ id ∈ s.refs := by
  constructor
  · rintro (⟨href, -⟩ | ⟨ht, -, hgone, -⟩)
    · exact href
    · exact absurd (List.mem_map_of_mem ht) hgone
  · exact fun href => .direct href (Decidable.em _)

namespace Fold

variable (f : plan.Fold target)

/-- The step that has the references of the given one after folding. -/
def image (s : Step) : Step :=
  if s = f.check ∨ s = f.user then f.merged else s

theorem image_mem (hnd : plan.ids.Nodup) {s : Step} (hs : s ∈ plan) : f.image s ∈ f.folded := by
  unfold image
  split
  · exact (f.mem_folded hnd).mpr (.inl rfl)
  · rename_i hne
    rw [not_or] at hne
    have ho := ((f.mem_plan.mp hs).resolve_left hne.1).resolve_left hne.2
    exact (f.mem_folded hnd).mpr (.inr ho)

theorem id_image {s : Step} (hne : s ≠ f.check) : (f.image s).id = s.id := by
  unfold image
  split
  · rename_i h
    rw [h.resolve_left hne]
    rfl
  · rfl

theorem mem_refs_image {s : Step} (hne : id ≠ target) (hid : id ∈ s.refs) :
    id ∈ (f.image s).refs := by
  unfold image
  split
  · rename_i h
    rw [f.mem_refs_merged hne]
    rcases h with rfl | rfl
    · exact .inl hid
    · exact .inr hid
  · exact hid

theorem eq_user {s : Step} (hs : s ∈ plan) (hid : target ∈ s.refs) : s = f.user := by
  obtain ⟨hcheck, -, -, hothers⟩ := f.unused
  rcases f.mem_plan.mp hs with rfl | rfl | ho
  · exact absurd hid hcheck
  · rfl
  · exact absurd (mem_refs.mpr ⟨s, ho, hid⟩) hothers

theorem eq_check (hnd : plan.ids.Nodup) {s : Step} (hs : s ∈ plan) (hid : s.id = target) :
    s = f.check :=
  List.inj_on_of_nodup_map hnd hs f.mem_check (hid.trans f.id_eq.symm)

/-- Folding keeps what steps lead to; the check's user leads to what the check did. -/
theorem leadsTo_folded (hnd : plan.ids.Nodup) (hkept : target ∉ kept) {s : Step} (hs : s ∈ plan)
    (h : plan.LeadsTo kept s id) : f.folded.LeadsTo kept (f.image s) id := by
  induction h with
  | @direct s id href hend =>
    have hne : id ≠ target := by
      rintro rfl
      exact hend.elim hkept fun hmem => hmem (f.id_eq ▸ List.mem_map_of_mem f.mem_check)
    refine .direct (f.mem_refs_image hne href) (hend.imp_right fun hmem => ?_)
    exact fun hfolded => hmem ((f.mem_ids_folded hnd).mp hfolded).2
  | @through s t id ht href hgone _ ih =>
    by_cases heq : t = f.check
    · rw [heq, f.id_eq] at href
      have hsame : f.image s = f.image t := by
        rw [f.eq_user hs href, heq, image, image, if_pos (.inr rfl), if_pos (.inl rfl)]
      exact hsame ▸ ih ht
    · have hne : t.id ≠ target := fun hid => heq (f.eq_check hnd ht hid)
      have hid := f.id_image heq
      exact .through (f.image_mem hnd ht) (hid ▸ f.mem_refs_image hne href) (hid ▸ hgone) (ih ht)

theorem eq_or_merged_of_id_eq (hnd : plan.ids.Nodup) {s t : Step} (hs : s ∈ plan)
    (ht : t ∈ f.folded) (hid : s.id = t.id) : s = t ∨ s = f.user ∧ t = f.merged := by
  rcases (f.mem_folded hnd).mp ht with rfl | ho
  · exact .inr ⟨List.inj_on_of_nodup_map hnd hs f.mem_user hid, rfl⟩
  · exact .inl (List.inj_on_of_nodup_map hnd hs (f.mem_plan.mpr (.inr (.inr ho))) hid)

/-- A reference of the user in its new form is one of its own or one of the check, so the user led
to what the reference leads to. -/
theorem leadsTo_user (hkept : target ∉ kept) {ref : StepId} (hne : ref ≠ target)
    (href : ref ∈ f.merged.refs) (hlead : ∀ {s : Step}, ref ∈ s.refs → plan.LeadsTo kept s id) :
    plan.LeadsTo kept f.user id := by
  rcases (f.mem_refs_merged hne).mp href with hcheck | huser
  · refine .through f.mem_check ?_ ?_ (hlead hcheck)
    · rw [f.id_eq, f.refs_user]
      exact List.mem_append_right _ (List.mem_cons_self ..)
    · rwa [f.id_eq]
  · exact hlead huser

/-- Folding lets no step lead to anything new. -/
theorem leadsTo_of_folded (hnd : plan.ids.Nodup) (hkept : target ∉ kept) {s t : Step}
    (hs : s ∈ plan) (ht : t ∈ f.folded) (hid : s.id = t.id) (h : f.folded.LeadsTo kept t id) :
    plan.LeadsTo kept s id := by
  induction h generalizing s with
  | @direct t id href hend =>
    have hne := f.ne_of_mem_refs hnd ht href
    have hend' : id ∈ kept ∨ id ∉ plan.ids :=
      hend.imp_right fun hmem hplan => hmem ((f.mem_ids_folded hnd).mpr ⟨hne, hplan⟩)
    rcases f.eq_or_merged_of_id_eq hnd hs ht hid with rfl | ⟨rfl, rfl⟩
    · exact .direct href hend'
    · exact f.leadsTo_user hkept hne href fun hown => .direct hown hend'
  | @through t next id hnext href hgone _ ih =>
    have hne := f.ne_of_mem_refs hnd ht href
    have hmem : next.id ∈ ids f.folded := List.mem_map_of_mem hnext
    obtain ⟨s', hs', hsame⟩ := List.mem_map.mp ((f.mem_ids_folded hnd).mp hmem).2
    have hlead {u : Step} (hu : next.id ∈ u.refs) : plan.LeadsTo kept u id :=
      .through hs' (hsame ▸ hu) (hsame ▸ hgone) (ih hs' hnext hsame)
    rcases f.eq_or_merged_of_id_eq hnd hs ht hid with rfl | ⟨rfl, rfl⟩
    · exact hlead href
    · exact f.leadsTo_user hkept hne href hlead

end Fold

namespace SelfUse

/-- Steps other than the check do not lead to it, so they do not miss it. -/
theorem leadsTo_erased_iff (d : plan.SelfUse target) (hnd : plan.ids.Nodup) {s : Step}
    (hs : s ∈ d.others) :
    (plan.eraseStep target).LeadsTo kept s id ↔ plan.LeadsTo kept s id := by
  have hmem {t : Step} : t ∈ plan.eraseStep target ↔ t ∈ d.others :=
    (d.perm_erased hnd).mem_iff
  have hunused {r : StepId} {t : Step} (ht : t ∈ d.others) (href : r ∈ t.refs) : r ≠ target := by
    rintro rfl
    exact d.unused (Plan.mem_refs.mpr ⟨t, ht, href⟩)
  have hids {r : StepId} (hne : r ≠ target) : r ∈ ids (plan.eraseStep target) ↔ r ∈ ids plan := by
    rw [ids_eraseStep, hnd.mem_erase_iff]
    exact and_iff_right hne
  constructor
  · intro h
    induction h with
    | direct href hend =>
      exact .direct href (hend.imp_right (mt (hids (hunused hs href)).mpr))
    | through ht href hgone _ ih =>
      have ho := hmem.mp ht
      exact .through (d.perm.mem_iff.mpr (List.mem_cons_of_mem _ ho)) href hgone (ih ho)
  · intro h
    induction h with
    | direct href hend =>
      exact .direct href (hend.imp_right (mt (hids (hunused hs href)).mp))
    | through ht href hgone _ ih =>
      rcases List.mem_cons.mp (d.perm.mem_iff.mp ht) with rfl | ho
      · exact absurd d.id_eq (hunused hs href)
      · exact .through (hmem.mpr ho) href hgone (ih ho)

end SelfUse

/-! ## Runs -/

namespace Reduces

variable {m n : Nat} {a b : Plan}

theorem precedes_iff (h : Reduces m n a b) (ha : a.ids.Nodup) {x y : StepId} (hx : x ∈ ids b)
    (hy : y ∈ ids b) : b.Precedes x y ↔ a.Precedes x y := by
  induction h with
  | refl => rfl
  | @fold m n plan next target f hrest ih =>
    rw [ih (f.nodup_folded ha) hx hy, precedes_erase f.ids_folded (f.ne_of_reduces ha hrest hx)
      (f.ne_of_reduces ha hrest hy)]
  | @drop m n plan next target d hrest ih =>
    rw [ih (nodup_eraseStep ha _) hx hy, precedes_erase (ids_eraseStep _ _)
      (ne_of_reduces_eraseStep ha hrest hx) (ne_of_reduces_eraseStep ha hrest hy)]

/-- A step that is left refers to what it led to through the steps that are gone. -/
theorem leadsTo_iff (h : Reduces m n a b) (ha : a.ids.Nodup) {s t : Step} (hs : s ∈ a)
    (ht : t ∈ b) (hid : s.id = t.id) : a.LeadsTo (ids b) s id ↔ id ∈ t.refs := by
  induction h generalizing s with
  | refl =>
    obtain rfl := List.inj_on_of_nodup_map ha hs ht hid
    exact leadsTo_self
  | @fold m n plan next target f hrest ih =>
    have htarget : target ∉ ids next := fun hmem => f.ne_of_reduces ha hrest hmem rfl
    have hne : s ≠ f.check := by
      rintro rfl
      exact f.ne_of_reduces ha hrest (List.mem_map_of_mem ht) (hid.symm.trans f.id_eq)
    have himage := f.image_mem ha hs
    have hsame := f.id_image hne
    rw [← ih (f.nodup_folded ha) himage ht (hsame.trans hid)]
    exact ⟨f.leadsTo_folded ha htarget hs, f.leadsTo_of_folded ha htarget hs himage hsame.symm⟩
  | @drop m n plan next target d hrest ih =>
    have hne : t.id ≠ target := ne_of_reduces_eraseStep ha hrest (List.mem_map_of_mem ht)
    have ho : s ∈ d.others := by
      rcases List.mem_cons.mp (d.perm.mem_iff.mp hs) with rfl | ho
      · exact absurd (hid.symm.trans d.id_eq) hne
      · exact ho
    rw [← d.leadsTo_erased_iff ha ho]
    exact ih (nodup_eraseStep ha _) ((d.perm_erased ha).mem_iff.mpr ho) ht hid

theorem mem_ids_of_not_foldable (h : Reduces m n a b) (ha : a.ids.Nodup) {s : Step} (hs : s ∈ a)
    (hfold : s.foldable = false) : s.id ∈ ids b := by
  have hother {s t : Step} (ht : t.isCheck = true) (hs : s.foldable = false) : s ≠ t := by
    rintro rfl
    rw [Step.foldable_of_isCheck ht] at hs
    cases hs
  induction h generalizing s with
  | refl => exact List.mem_map_of_mem hs
  | fold f _ ih =>
    rcases f.mem_plan.mp hs with heq | rfl | ho
    · exact absurd heq (hother f.isCheck hfold)
    · have hmerged : f.merged.foldable = false :=
        Bool.eq_false_iff.mpr (mt f.foldable_user (Bool.eq_false_iff.mp hfold))
      exact ih (s := f.merged) (f.nodup_folded ha) ((f.mem_folded ha).mpr (.inl rfl)) hmerged
    · exact ih (f.nodup_folded ha) ((f.mem_folded ha).mpr (.inr ho)) hfold
  | drop d _ ih =>
    rcases List.mem_cons.mp (d.perm.mem_iff.mp hs) with heq | ho
    · exact absurd heq (hother d.isCheck hfold)
    · exact ih (nodup_eraseStep ha _) ((d.perm_erased ha).mem_iff.mpr ho) hfold

/-- The plan at the end of a run is valid exactly if everything that its steps led to stood before
them. -/
theorem validate_eq_ok_iff (h : Reduces m n a b) (ha : a.ids.Nodup) :
    b.validate = .ok () ↔
      ∀ s ∈ a, s.id ∈ ids b → ∀ id, a.LeadsTo (ids b) s id → a.Precedes id s.id := by
  rw [validate_eq_ok_iff_precedes (h.nodup ha)]
  constructor
  · intro hvalid s hs hleft id hlead
    obtain ⟨t, ht, hid⟩ := List.mem_map.mp hleft
    have hbefore := hvalid t ht id ((h.leadsTo_iff ha hs ht hid.symm).mp hlead)
    rw [hid] at hbefore
    exact hbefore.trans h.sublist_ids
  · intro hlead t ht id hid
    have hleft : t.id ∈ ids b := List.mem_map_of_mem ht
    obtain ⟨s, hs, hsame⟩ := List.mem_map.mp (h.sublist_ids.subset hleft)
    have hto := (h.leadsTo_iff ha hs ht hsame).mpr hid
    have hbefore := hlead s hs (hsame ▸ hleft) id hto
    rw [hsame] at hbefore
    have hmem : id ∈ ids a := hbefore.subset (List.mem_cons_self ..)
    exact (h.precedes_iff ha (hto.kept_or.resolve_right (not_not_intro hmem)) hleft).mpr hbefore

end Reduces

/-! ## Which steps are left -/

theorem Fold.head?_merged (f : plan.Fold target) (htext : f.user.beginsWithText = true) :
    f.merged.parts.head? = f.user.parts.head? := by
  obtain ⟨words, hhead⟩ := Step.beginsWithText_iff.mp htext
  cases hleft : f.left with
  | nil => simp [f.parts_eq, hleft] at hhead
  | cons p left => simp [f.parts_eq, merged, hleft]

theorem Fold.beginsWithText_folded (f : plan.Fold target) (hnd : plan.ids.Nodup)
    (htext : ∀ s ∈ plan, s.beginsWithText = true) :
    ∀ t ∈ f.folded, t.beginsWithText = true := by
  intro t ht
  rcases (f.mem_folded hnd).mp ht with rfl | ho
  · have huser := htext f.user f.mem_user
    rw [Step.beginsWithText_iff, f.head?_merged huser]
    exact Step.beginsWithText_iff.mp huser
  · exact htext t (f.mem_plan.mpr (.inr (.inr ho)))

/-- Among steps that begin with texts, folding makes no check and keeps the others. -/
theorem Fold.usedOnce_iff (f : plan.Fold target) (hnd : plan.ids.Nodup)
    (htext : ∀ s ∈ plan, s.beginsWithText = true) (hne : id ≠ target) :
    f.folded.UsedOnce id ↔ plan.UsedOnce id := by
  refine ⟨fun h => ⟨?_, (f.refCount_eq hnd hne).symm.trans h.2⟩, f.usedOnce hnd hne⟩
  obtain ⟨s, hs, rfl, hc⟩ := h.1
  rcases (f.mem_folded hnd).mp hs with rfl | ho
  · refine ⟨f.user, f.mem_user, rfl, ?_⟩
    rwa [Step.isCheck, Step.opensWith, f.head?_merged (htext f.user f.mem_user)] at hc
  · exact ⟨s, f.mem_plan.mpr (.inr (.inr ho)), rfl, hc⟩

theorem Reduces.usedOnce_iff {m : Nat} {a b : Plan} (h : Reduces m 0 a b) (ha : a.ids.Nodup)
    (htext : ∀ s ∈ a, s.beginsWithText = true) (hid : id ∈ ids a) :
    a.UsedOnce id ↔ id ∉ ids b ∨ b.UsedOnce id := by
  generalize hn : 0 = n at h
  induction h with
  | refl => exact (or_iff_right (not_not_intro hid)).symm
  | @fold m n plan next target f hrest ih =>
    by_cases hne : id = target
    · subst hne
      have hgone : id ∉ ids next := fun hmem => f.ne_of_reduces ha hrest hmem rfl
      exact iff_of_true ⟨⟨f.check, f.mem_check, f.id_eq, f.isCheck⟩, f.refCount_target⟩ (.inl hgone)
    · rw [← f.usedOnce_iff ha htext hne]
      exact ih (f.nodup_folded ha) (f.beginsWithText_folded ha htext)
        ((f.mem_ids_folded ha).mpr ⟨hne, hid⟩) hn
  | drop => cases hn

/-- If all steps begin with texts and no checks form a loop, simplifying takes out the checks that
are used once. -/
theorem mem_ids_simplify_iff (hnd : plan.ids.Nodup) (htext : ∀ s ∈ plan, s.beginsWithText = true)
    (hloop : ¬ plan.HasLoop (plan.Holds Step.isCheck)) (hid : id ∈ ids plan) :
    id ∈ ids (({} : Simplifier).simplify plan) ↔ ¬ plan.UsedOnce id := by
  have hfoldable : ¬ plan.HasLoop (plan.Holds Step.foldable) := by
    refine fun h => hloop (h.mono ?_)
    rintro a - ⟨s, hs, rfl, hfold⟩
    exact ⟨s, hs, rfl, Step.isCheck_of_foldable (htext s hs) hfold⟩
  obtain ⟨⟨m, hrun⟩, hnormal⟩ :
      (∃ m, Reduces m 0 plan (({} : Simplifier).simplify plan)) ∧
        (({} : Simplifier).simplify plan).singleUseChecks = [] :=
    Simplifier.simplify_of_loopless hnd hfoldable (Nat.le_refl 1)
  have hnone : ¬ UsedOnce (({} : Simplifier).simplify plan) id := by
    rw [← mem_singleUseChecks, hnormal]
    exact List.not_mem_nil
  rw [hrun.usedOnce_iff hnd htext hid, or_iff_left hnone, not_not]

/-- Whether a plan of distinct identifiers is valid once it is simplified. It is valid exactly if
everything that the remaining steps led to, through the steps that are gone, stood before them. If
all steps begin with texts and no checks form a loop, the steps that are gone are the checks that
were used once. In any case a reference that is not to an earlier step is found as long as neither
the step that makes it nor the one referred to is a check or opens with a reference. -/
theorem validate_simplify_iff (hnd : plan.ids.Nodup) :
    let simple := ({} : Simplifier).simplify plan
    (simple.validate = .ok () ↔
      ∀ s ∈ plan, s.id ∈ simple.ids → ∀ id, plan.LeadsTo simple.ids s id →
        plan.Precedes id s.id) ∧
    ((∀ s ∈ plan, s.beginsWithText = true) → ¬ plan.HasLoop (plan.Holds Step.isCheck) →
      ∀ s ∈ plan, s.id ∈ simple.ids ↔ ¬ plan.UsedOnce s.id) ∧
    ∀ s ∈ plan, s.foldable = false → ∀ id ∈ s.refs, ¬ plan.Holds Step.foldable id →
      ¬ plan.Precedes id s.id → simple.validate ≠ .ok () := by
  intro simple
  obtain ⟨m, n, hrun⟩ : ∃ m n, Reduces m n plan simple := Simplifier.reduces_simplify hnd 1
  have hiff := hrun.validate_eq_ok_iff hnd
  refine ⟨hiff, fun htext hloop s hs => mem_ids_simplify_iff hnd htext hloop
    (List.mem_map_of_mem hs), fun s hs hfold id hid hother hbefore hvalid => hbefore ?_⟩
  refine hiff.mp hvalid s hs (hrun.mem_ids_of_not_foldable hnd hs hfold) id (.direct hid ?_)
  by_cases hmem : id ∈ ids plan
  · obtain ⟨t, ht, rfl⟩ := List.mem_map.mp hmem
    refine .inl (hrun.mem_ids_of_not_foldable hnd ht (Bool.eq_false_iff.mpr fun htrue => ?_))
    exact hother ⟨t, ht, rfl, htrue⟩
  · exact .inr hmem

/-- The first step refers to the last, which uses a check. -/
def earlyUse : Plan :=
  [⟨0, [.text "Only keep unique rows from", .ref 2]⟩,
    ⟨1, [.text checkPhrase, .text "a equals 1"]⟩,
    ⟨2, [.text "Keep rows where", .ref 1]⟩]

theorem validate_simplify_iff_earlyUse :
    let simple := ({} : Simplifier).simplify earlyUse
    earlyUse.ids.Nodup ∧
    (simple.validate = .ok () ↔
      ∀ s ∈ earlyUse, s.id ∈ simple.ids → ∀ id, earlyUse.LeadsTo simple.ids s id →
        earlyUse.Precedes id s.id) ∧
    (∀ s ∈ earlyUse, s.beginsWithText = true) ∧
    ¬ earlyUse.HasLoop (earlyUse.Holds Step.isCheck) ∧
    (∀ s ∈ earlyUse, s.id ∈ simple.ids ↔ ¬ earlyUse.UsedOnce s.id) ∧
    simple.validate ≠ .ok () := by
  have hnd : earlyUse.ids.Nodup := by decide
  have htext : ∀ s ∈ earlyUse, s.beginsWithText = true := by decide
  have hrank : ∀ s ∈ earlyUse, s.isCheck = true →
      ∀ user ∈ earlyUse, s.id ∈ user.refs → 2 - user.id < 2 - s.id := by
    decide
  have hloop : ¬ earlyUse.HasLoop (earlyUse.Holds Step.isCheck) := by
    refine not_hasLoop_of_rank (2 - ·) ?_
    rintro a b ⟨s, hs, rfl, hcheck⟩ ⟨-, user, huser, rfl, href⟩
    exact hrank s hs hcheck user huser href
  obtain ⟨hiff, hleft, hfound⟩ := validate_simplify_iff hnd
  exact ⟨hnd, hiff, htext, hloop, hleft htext hloop,
    hfound ⟨0, [.text "Only keep unique rows from", .ref 2]⟩ (by decide) (by decide) 2 (by decide)
      (by decide) (by decide)⟩

/-- The second step was added after the step that uses it. -/
def lateCheck : Plan :=
  [⟨1, [.text "Keep rows where", .ref 0]⟩, ⟨0, [.text checkPhrase, .text "a equals 1"]⟩]

/-- The reference to the later step is gone once the check is folded, and the plan is valid. -/
theorem validate_simplify_lateCheck :
    lateCheck.ids.Nodup ∧ lateCheck.validate = .error (.unresolved 0) ∧
    (({} : Simplifier).simplify lateCheck).validate = .ok () := by
  have hfirst : ({} : Simplifier).round lateCheck =
      ⟨[⟨1, [.text "Keep rows where", .text "a equals 1"]⟩], 1⟩ := by decide
  have hsecond : ({} : Simplifier).round [⟨1, [.text "Keep rows where", .text "a equals 1"]⟩] =
      ⟨[⟨1, [.text "Keep rows where", .text "a equals 1"]⟩], 0⟩ := by decide
  refine ⟨by decide, rfl, ?_⟩
  rw [Simplifier.simplify_of_round_succ hfirst, Simplifier.simplify_of_round_zero hsecond]
  rfl

end Plan

end QuerySteps
