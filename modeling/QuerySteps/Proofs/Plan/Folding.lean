import QuerySteps.Proofs.Plan.Rounds

/-!
# Inlining in any plan of distinct identifiers

What inlining does if references may be to later steps, to the step itself or to none. A check that
is used once by another step is folded into it (`Fold`), wherever the two stand. A check whose only
use is in its own condition is taken out, and with it what it says (`SelfUse`): its user is gone
before the condition can be put there. Nothing else happens (`inlineCheck_cases`).

Passes, rounds and simplifications are runs of both kinds of steps (`Reduces`). Inlining counts
those of the first kind only.
-/

namespace QuerySteps

/-- Whether the step is a check or may turn into one: it opens with the phrase of checks or with a
reference. -/
def Step.foldable (s : Step) : Bool :=
  match s.parts.head? with
  | some (.text words) => words == checkPhrase
  | some (.ref _) => true
  | none => false

theorem Step.foldable_of_isCheck {s : Step} (h : s.isCheck = true) : s.foldable = true := by
  obtain ⟨rest, hrest⟩ := Step.isCheck_iff.mp h
  simp [foldable, hrest]

namespace Plan

/-- A step of that identifier is of the given kind. -/
def Holds (plan : Plan) (kind : Step → Bool) (id : StepId) : Prop :=
  ∃ s ∈ plan, s.id = id ∧ kind s = true

instance (plan : Plan) (kind : Step → Bool) (id : StepId) : Decidable (plan.Holds kind id) :=
  inferInstanceAs (Decidable (∃ s ∈ plan, s.id = id ∧ kind s = true))

variable {plan : Plan} {target : StepId}

/-! ## Taking out and changing a step -/

theorem ids_eraseStep (plan : Plan) (id : StepId) :
    ids (plan.eraseStep id) = (ids plan).erase id := by
  rw [ids, ids, List.erase_eq_eraseP', List.eraseP_map]
  rfl

theorem nodup_eraseStep (hnd : plan.ids.Nodup) (id : StepId) : (ids (plan.eraseStep id)).Nodup :=
  hnd.sublist (sublist_ids_eraseStep plan id)

theorem notMem_ids_of_split {pre post : Plan} {s : Step} (h : (ids (pre ++ s :: post)).Nodup) :
    s.id ∉ ids pre := by
  rw [ids_append, ids_cons] at h
  exact fun hmem => (List.nodup_append.mp h).2.2 _ hmem _ (List.mem_cons_self ..) rfl

theorem perm_eraseStep (hnd : plan.ids.Nodup) {s : Step} {rest : Plan}
    (h : plan.Perm (s :: rest)) : (plan.eraseStep s.id).Perm rest := by
  obtain ⟨pre, post, rfl⟩ := List.append_of_mem (h.mem_iff.mpr (List.mem_cons_self ..))
  rw [eraseStep_split (notMem_ids_of_split hnd)]
  exact (List.perm_cons s).mp (List.perm_middle.symm.trans h)

theorem perm_setParts (hnd : plan.ids.Nodup) {s : Step} {rest : Plan}
    (h : plan.Perm (s :: rest)) (parts : List Part) :
    (setParts s.id parts plan).Perm ({ s with parts } :: rest) := by
  obtain ⟨pre, post, rfl⟩ := List.append_of_mem (h.mem_iff.mpr (List.mem_cons_self ..))
  rw [setParts_split (notMem_ids_of_split hnd)]
  exact List.perm_middle.trans (((List.perm_cons s).mp (List.perm_middle.symm.trans h)).cons _)

theorem perm_refs {a b : Plan} (h : a.Perm b) : (refs a).Perm (refs b) :=
  h.flatMap_right _

theorem userOf?_of_perm {s : Step} {rest : Plan} {id : StepId} (h : plan.Perm (s :: rest))
    (hs : id ∈ s.refs) (hrest : id ∉ refs rest) : plan.userOf? id = some s := by
  cases hfound : plan.userOf? id with
  | none =>
    have hnone := List.find?_eq_none.mp hfound s (h.mem_iff.mpr (List.mem_cons_self ..))
    exact absurd (List.contains_iff_mem.mpr hs) hnone
  | some t =>
    have href : id ∈ t.refs := by simpa using List.find?_some hfound
    rcases List.mem_cons.mp (h.mem_iff.mp (List.mem_of_find?_eq_some hfound)) with rfl | ht
    · rfl
    · exact absurd (mem_refs.mpr ⟨t, ht, href⟩) hrest

/-! ## Folding a check into another step -/

/-- A plan with the check `target` and the only step that refers to it, which is another one. Either
of them may stand first. -/
structure Fold (plan : Plan) (target : StepId) where
  check : Step
  user : Step
  others : Plan
  left : List Part
  right : List Part
  perm : plan.Perm (check :: user :: others)
  parts_eq : user.parts = left ++ .ref target :: right
  id_eq : check.id = target
  isCheck : check.isCheck = true
  unused : target ∉ check.refs ∧ target ∉ left.filterMap Part.ref? ∧
    target ∉ right.filterMap Part.ref? ∧ target ∉ refs others

namespace Fold

variable (f : plan.Fold target)

/-- The condition of the check as its user will say it. -/
def body : List Part :=
  inlineBody f.check f.user.isCheck f.user.parts

/-- The user with the condition in the place of the reference. -/
def merged : Step :=
  ⟨f.user.id, f.left ++ (f.body ++ f.right)⟩

/-- The plan without the check, whose user says the condition itself. -/
def folded : Plan :=
  setParts f.user.id f.merged.parts (plan.eraseStep target)

theorem mem_check : f.check ∈ plan := f.perm.mem_iff.mpr (by simp)

theorem mem_user : f.user ∈ plan := f.perm.mem_iff.mpr (by simp)

theorem refs_user : f.user.refs =
    f.left.filterMap Part.ref? ++ target :: f.right.filterMap Part.ref? := by
  simp [Step.refs, f.parts_eq]

theorem filterMap_body : f.body.filterMap Part.ref? = f.check.refs :=
  filterMap_inlineBody f.isCheck _ _

theorem refs_merged : f.merged.refs =
    f.left.filterMap Part.ref? ++ (f.check.refs ++ f.right.filterMap Part.ref?) := by
  simp only [merged, Step.refs, List.filterMap_append, f.filterMap_body]

theorem mem_refs_merged {id : StepId} (hne : id ≠ target) :
    id ∈ f.merged.refs ↔ id ∈ f.check.refs ∨ id ∈ f.user.refs := by
  simp only [f.refs_merged, f.refs_user, List.mem_append, List.mem_cons, hne, false_or]
  exact or_left_comm

theorem perm_swapped : plan.Perm (f.user :: f.check :: f.others) :=
  f.perm.trans (List.Perm.swap ..)

theorem perm_erased (hnd : plan.ids.Nodup) : (plan.eraseStep target).Perm (f.user :: f.others) := by
  have herase := perm_eraseStep hnd f.perm
  rwa [f.id_eq] at herase

theorem perm_folded (hnd : plan.ids.Nodup) : f.folded.Perm (f.merged :: f.others) :=
  perm_setParts (nodup_eraseStep hnd target) (f.perm_erased hnd) f.merged.parts

theorem inlineCheck_eq (hnd : plan.ids.Nodup) : plan.inlineCheck target = ⟨f.folded, 1⟩ := by
  obtain ⟨hcheck, hleft, -, hothers⟩ := f.unused
  have huser : plan.userOf? target = some f.user :=
    userOf?_of_perm f.perm_swapped (by simp [f.refs_user]) (by simp [hcheck, hothers])
  have hstep := step?_of_mem hnd f.mem_check
  rw [f.id_eq] at hstep
  have hrest : (plan.eraseStep target).step? f.user.id = some f.user :=
    step?_of_mem (nodup_eraseStep hnd target)
      ((f.perm_erased hnd).mem_iff.mpr (List.mem_cons_self ..))
  have hcontains : f.user.parts.contains (.ref target) = true := by simp [f.parts_eq]
  have hsplice : Part.splice target f.body f.user.parts = f.merged.parts := by
    rw [f.parts_eq, Part.splice_split (mt Part.mem_filterMap_ref?.mpr hleft)]
    rfl
  unfold inlineCheck
  simp only [huser, hstep, hrest, hcontains, if_true]
  rw [folded, ← hsplice]
  rfl

theorem ids_folded : ids f.folded = (ids plan).erase target := by
  rw [folded, ids_setParts, ids_eraseStep]

theorem nodup_folded (hnd : plan.ids.Nodup) : (ids f.folded).Nodup := by
  rw [f.ids_folded]
  exact hnd.erase target

theorem mem_ids_folded (hnd : plan.ids.Nodup) {id : StepId} :
    id ∈ ids f.folded ↔ id ≠ target ∧ id ∈ ids plan := by
  rw [f.ids_folded, hnd.mem_erase_iff]

theorem mem_folded (hnd : plan.ids.Nodup) {t : Step} :
    t ∈ f.folded ↔ t = f.merged ∨ t ∈ f.others := by
  rw [(f.perm_folded hnd).mem_iff, List.mem_cons]

theorem mem_plan {t : Step} : t ∈ plan ↔ t = f.check ∨ t = f.user ∨ t ∈ f.others := by
  rw [f.perm.mem_iff, List.mem_cons, List.mem_cons]

theorem length_folded (hnd : plan.ids.Nodup) : f.folded.length + 1 = plan.length := by
  rw [(f.perm_folded hnd).length_eq, f.perm.length_eq]
  rfl

theorem refCount_eq (hnd : plan.ids.Nodup) {id : StepId} (hne : id ≠ target) :
    f.folded.refCount id = plan.refCount id := by
  rw [refCount, refCount, (perm_refs (f.perm_folded hnd)).count_eq, (perm_refs f.perm).count_eq]
  simp only [refs_cons, f.refs_merged, f.refs_user, List.count_append,
    List.count_cons_of_ne (Ne.symm hne)]
  omega

theorem refCount_target (f : plan.Fold target) : plan.refCount target = 1 := by
  obtain ⟨hcheck, hleft, hright, hothers⟩ := f.unused
  rw [refCount, (perm_refs f.perm).count_eq]
  simp [f.refs_user, List.count_append, List.count_eq_zero.mpr, hcheck, hleft, hright, hothers]

theorem target_notMem_refs (hnd : plan.ids.Nodup) : target ∉ refs f.folded := by
  obtain ⟨hcheck, hleft, hright, hothers⟩ := f.unused
  rw [(perm_refs (f.perm_folded hnd)).mem_iff]
  simp [f.refs_merged, hcheck, hleft, hright, hothers]

theorem ne_of_mem_refs (hnd : plan.ids.Nodup) {t : Step} (ht : t ∈ f.folded) {id : StepId}
    (hid : id ∈ t.refs) : id ≠ target := by
  rintro rfl
  exact f.target_notMem_refs hnd (mem_refs.mpr ⟨t, ht, hid⟩)

/-- Only a step that opens with a reference turns into a check. -/
theorem foldable_user (h : f.merged.foldable = true) : f.user.foldable = true := by
  unfold Step.foldable at h ⊢
  cases hleft : f.left with
  | nil => simp [f.parts_eq, hleft]
  | cons p left => simpa [f.parts_eq, merged, hleft] using h

theorem isCheck_merged (h : f.user.isCheck = true) : f.merged.isCheck = true := by
  unfold Step.isCheck Step.opensWith at h ⊢
  cases hleft : f.left with
  | nil => simp [f.parts_eq, hleft] at h
  | cons p left => simpa [f.parts_eq, merged, hleft] using h

end Fold

/-! ## Checks that only refer to themselves -/

/-- A plan with the check `target`, whose only use is in its own condition. -/
structure SelfUse (plan : Plan) (target : StepId) where
  check : Step
  others : Plan
  perm : plan.Perm (check :: others)
  id_eq : check.id = target
  isCheck : check.isCheck = true
  mem_refs : target ∈ check.refs
  unused : target ∉ refs others

namespace SelfUse

theorem mem_check (d : plan.SelfUse target) : d.check ∈ plan := d.perm.mem_iff.mpr (by simp)

theorem perm_erased (d : plan.SelfUse target) (hnd : plan.ids.Nodup) :
    (plan.eraseStep target).Perm d.others := by
  have herase := perm_eraseStep hnd d.perm
  rwa [d.id_eq] at herase

theorem inlineCheck_eq (d : plan.SelfUse target) (hnd : plan.ids.Nodup) :
    plan.inlineCheck target = ⟨plan.eraseStep target, 0⟩ := by
  have huser : plan.userOf? target = some d.check :=
    userOf?_of_perm d.perm d.mem_refs d.unused
  have hstep := step?_of_mem hnd d.mem_check
  rw [d.id_eq] at hstep
  have hgone : (plan.eraseStep target).step? d.check.id = none := by
    refine List.find?_eq_none.mpr fun t ht heq => ?_
    have hid : t.id ∈ ids (plan.eraseStep target) := List.mem_map_of_mem ht
    rw [ids_eraseStep, hnd.mem_erase_iff] at hid
    exact hid.1 ((beq_iff_eq.mp heq).trans d.id_eq)
  unfold inlineCheck
  simp only [huser, hstep, hgone]

theorem length_erased (d : plan.SelfUse target) (hnd : plan.ids.Nodup) :
    (plan.eraseStep target).length + 1 = plan.length := by
  rw [(d.perm_erased hnd).length_eq, d.perm.length_eq]
  rfl

theorem refCount_le (d : plan.SelfUse target) (hnd : plan.ids.Nodup) (id : StepId) :
    (plan.eraseStep target).refCount id ≤ plan.refCount id := by
  rw [refCount, refCount, (perm_refs (d.perm_erased hnd)).count_eq, (perm_refs d.perm).count_eq,
    refs_cons, List.count_append]
  exact Nat.le_add_left _ _

end SelfUse

/-- A check that is referred to at most once is kept because it is not used, taken out because it
only uses itself, or folded into its user. -/
theorem inlineCheck_cases (hnd : plan.ids.Nodup) (hcheck : plan.Holds Step.isCheck target)
    (hcount : plan.refCount target ≤ 1) :
    (target ∉ refs plan ∧ plan.inlineCheck target = ⟨plan, 0⟩) ∨
    (∃ _ : plan.SelfUse target, plan.inlineCheck target = ⟨plan.eraseStep target, 0⟩) ∨
    ∃ f : plan.Fold target, plan.inlineCheck target = ⟨f.folded, 1⟩ := by
  by_cases href : target ∈ refs plan
  · obtain ⟨check, hmem, hid, hc⟩ := hcheck
    obtain ⟨user, huser, hused⟩ := mem_refs.mp href
    have hperm := List.perm_cons_erase hmem
    rw [refCount, (perm_refs hperm).count_eq, refs_cons, List.count_append] at hcount
    by_cases heq : user = check
    · subst heq
      have hpos := List.count_pos_iff.mpr hused
      have d : plan.SelfUse target :=
        ⟨user, plan.erase user, hperm, hid, hc, hused, List.count_eq_zero.mp (by omega)⟩
      exact .inr (.inl ⟨d, d.inlineCheck_eq hnd⟩)
    · have hrest := List.perm_cons_erase ((List.mem_erase_of_ne heq).mpr huser)
      obtain ⟨left, right, hparts⟩ := List.append_of_mem (Part.mem_filterMap_ref?.mp hused)
      have hrefs : user.refs = left.filterMap Part.ref? ++ target :: right.filterMap Part.ref? := by
        simp [Step.refs, hparts]
      rw [(perm_refs hrest).count_eq, refs_cons, hrefs, List.count_append, List.count_append,
        List.count_cons_self] at hcount
      have f : plan.Fold target :=
        ⟨check, user, (plan.erase check).erase user, left, right, hperm.trans (hrest.cons check),
          hparts, hid, hc, by simp only [← List.count_eq_zero]; omega⟩
      exact .inr (.inr ⟨f, f.inlineCheck_eq hnd⟩)
  · have huser : plan.userOf? target = none := by
      refine List.find?_eq_none.mpr fun t ht hused => href ?_
      exact mem_refs.mpr ⟨t, ht, List.contains_iff_mem.mp hused⟩
    refine .inl ⟨href, ?_⟩
    unfold inlineCheck
    rw [huser]

/-! ## Runs -/

/-- From one plan to another by folding checks into their users and taking out checks that only use
themselves, with the numbers of both. -/
inductive Reduces : Nat → Nat → Plan → Plan → Prop where
  | refl (plan : Plan) : Reduces 0 0 plan plan
  | fold {m n : Nat} {plan next : Plan} {target : StepId} (f : plan.Fold target) :
      Reduces m n f.folded next → Reduces (m + 1) n plan next
  | drop {m n : Nat} {plan next : Plan} {target : StepId} (d : plan.SelfUse target) :
      Reduces m n (plan.eraseStep target) next → Reduces m (n + 1) plan next

namespace Reduces

variable {k l m n : Nat} {a b c : Plan}

theorem trans (hab : Reduces k l a b) (hbc : Reduces m n b c) : Reduces (k + m) (l + n) a c := by
  induction hab with
  | refl => rwa [Nat.zero_add, Nat.zero_add]
  | fold f _ ih =>
    rw [Nat.add_right_comm]
    exact .fold f (ih hbc)
  | drop d _ ih =>
    rw [Nat.add_right_comm]
    exact .drop d (ih hbc)

theorem sublist_ids (h : Reduces m n a b) : (ids b).Sublist (ids a) := by
  induction h with
  | refl => exact .refl _
  | fold f _ ih =>
    rw [f.ids_folded] at ih
    exact ih.trans List.erase_sublist
  | drop d _ ih => exact ih.trans (sublist_ids_eraseStep _ _)

theorem nodup (h : Reduces m n a b) (ha : a.ids.Nodup) : b.ids.Nodup :=
  ha.sublist h.sublist_ids

/-- Every step of the run takes out one step of the plan. -/
theorem length_eq (h : Reduces m n a b) (ha : a.ids.Nodup) : b.length + m + n = a.length := by
  induction h with
  | refl => rfl
  | fold f _ ih =>
    have := f.length_folded ha
    have := ih (f.nodup_folded ha)
    omega
  | drop d _ ih =>
    have := d.length_erased ha
    have := ih (nodup_eraseStep ha _)
    omega

end Reduces

theorem Fold.ne_of_reduces (f : plan.Fold target) (hnd : plan.ids.Nodup) {m n : Nat} {next : Plan}
    (h : Reduces m n f.folded next) {id : StepId} (hid : id ∈ ids next) : id ≠ target :=
  ((f.mem_ids_folded hnd).mp (h.sublist_ids.subset hid)).1

theorem ne_of_reduces_eraseStep (hnd : plan.ids.Nodup) {m n : Nat} {next : Plan}
    (h : Reduces m n (plan.eraseStep target) next) {id : StepId} (hid : id ∈ ids next) :
    id ≠ target := by
  have hmem := h.sublist_ids.subset hid
  rw [ids_eraseStep, hnd.mem_erase_iff] at hmem
  exact hmem.1

/-- Checks other than the one that goes stay, and none is used more often. -/
theorem Fold.ready (f : plan.Fold target) (hnd : plan.ids.Nodup) {id : StepId} (hne : id ≠ target)
    (h : plan.Holds Step.isCheck id) :
    f.folded.Holds Step.isCheck id ∧ f.folded.refCount id = plan.refCount id := by
  refine ⟨?_, f.refCount_eq hnd hne⟩
  obtain ⟨s, hs, rfl, hc⟩ := h
  rcases f.mem_plan.mp hs with rfl | rfl | hs
  · exact absurd f.id_eq hne
  · exact ⟨f.merged, (f.mem_folded hnd).mpr (.inl rfl), rfl, f.isCheck_merged hc⟩
  · exact ⟨s, (f.mem_folded hnd).mpr (.inr hs), rfl, hc⟩

theorem SelfUse.ready (d : plan.SelfUse target) (hnd : plan.ids.Nodup) {id : StepId}
    (hne : id ≠ target) (h : plan.Holds Step.isCheck id) :
    (plan.eraseStep target).Holds Step.isCheck id := by
  obtain ⟨s, hs, rfl, hc⟩ := h
  rcases List.mem_cons.mp (d.perm.mem_iff.mp hs) with rfl | hs
  · exact absurd d.id_eq hne
  · exact ⟨s, (d.perm_erased hnd).mem_iff.mpr hs, rfl, hc⟩

/-- A pass over checks that are referred to at most once is a run that counts what it folds. -/
theorem reduces_inlineEach {targets : List StepId} (hnd : plan.ids.Nodup) (htargets : targets.Nodup)
    (h : ∀ id ∈ targets, plan.Holds Step.isCheck id ∧ plan.refCount id ≤ 1) :
    ∃ n, Reduces (plan.inlineEach targets).count n plan (plan.inlineEach targets).plan := by
  induction targets generalizing plan with
  | nil => exact ⟨0, .refl plan⟩
  | cons target targets ih =>
    obtain ⟨hnotin, htargets⟩ := List.nodup_cons.mp htargets
    obtain ⟨⟨hcheck, hcount⟩, hothers⟩ := List.forall_mem_cons.mp h
    have hne {id : StepId} (hid : id ∈ targets) : id ≠ target := ne_of_mem_of_not_mem hid hnotin
    rw [inlineEach]
    rcases inlineCheck_cases hnd hcheck hcount with ⟨-, heq⟩ | ⟨d, heq⟩ | ⟨f, heq⟩
    · rw [heq]
      obtain ⟨n, hn⟩ := ih hnd htargets hothers
      exact ⟨n, by simpa using hn⟩
    · rw [heq]
      obtain ⟨n, hn⟩ := ih (nodup_eraseStep hnd target) htargets fun id hid =>
        ⟨d.ready hnd (hne hid) (hothers id hid).1,
          Nat.le_trans (d.refCount_le hnd id) (hothers id hid).2⟩
      exact ⟨n + 1, .drop d (by simpa using hn)⟩
    · rw [heq]
      obtain ⟨n, hn⟩ := ih (f.nodup_folded hnd) htargets fun id hid => by
        obtain ⟨hready, hsame⟩ := f.ready hnd (hne hid) (hothers id hid).1
        exact ⟨hready, hsame ▸ (hothers id hid).2⟩
      refine ⟨n, ?_⟩
      rw [Nat.add_comm]
      exact .fold f hn

theorem nodup_singleUseChecks (hnd : plan.ids.Nodup) : plan.singleUseChecks.Nodup :=
  hnd.sublist (List.filter_sublist.map _)

theorem reduces_inlineChecks (hnd : plan.ids.Nodup) :
    ∃ n, Reduces plan.inlineChecks.count n plan plan.inlineChecks.plan :=
  reduces_inlineEach hnd (nodup_singleUseChecks hnd) fun _ hid =>
    (mem_singleUseChecks.mp hid).imp_right Nat.le_of_eq

end Plan

namespace Simplifier

open Plan

theorem reduces_round {plan : Plan} (hnd : plan.ids.Nodup) (n : Nat) :
    ∃ k, Reduces ((copies n).round plan).count k plan ((copies n).round plan).plan := by
  induction n generalizing plan with
  | zero => exact ⟨0, .refl plan⟩
  | succ n ih =>
    obtain ⟨k, hfirst⟩ := reduces_inlineChecks hnd
    obtain ⟨l, hothers⟩ := ih (hfirst.nodup hnd)
    exact ⟨k + l, hfirst.trans hothers⟩

/-- Simplifying is a run. -/
theorem reduces_simplify {plan : Plan} (hnd : plan.ids.Nodup) (n : Nat) :
    ∃ m k, Reduces m k plan ((copies n).simplify plan) := by
  fun_induction simplify (copies n) plan with
  | case1 plan next heq =>
    obtain ⟨k, hround⟩ := reduces_round hnd n
    rw [heq] at hround
    exact ⟨0, k, hround⟩
  | case2 plan next m heq ih =>
    obtain ⟨k, hround⟩ := reduces_round hnd n
    rw [heq] at hround
    obtain ⟨m', k', hrest⟩ := ih (hround.nodup hnd)
    exact ⟨_, _, hround.trans hrest⟩

end Simplifier

end QuerySteps
