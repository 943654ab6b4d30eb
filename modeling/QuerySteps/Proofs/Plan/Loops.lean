import Mathlib.Logic.Relation
import QuerySteps.Proofs.Plan.Folding

/-!
# Loops of checks

Checks can form a loop: each is used once, by the next, and the last by the first. Inlining folds
the checks of a loop into each other until one is left that only uses itself; that one is taken out
without being counted, and with it all that the loop says. This happens in a pass exactly if some
checks form a loop (`inlineChecks_lossless_iff`). Without loops a pass counts every step that it
takes out and puts what the step says into another one.

Folding a check into its user shortens the way around each loop that the check is on and leaves the
other loops alone (`Fold.hasLoop_folded`, `Fold.hasLoop_of_folded`).
-/

namespace QuerySteps

namespace Plan

/-- The identifier `a` is referred to once, by the step `b`. -/
def OnlyUser (plan : Plan) (a b : StepId) : Prop :=
  plan.refCount a = 1 ∧ ∃ user ∈ plan, user.id = b ∧ a ∈ user.refs

/-- From one of the identifiers `within` the way to its only user, from there to the user's only
user and so on leads back to where it began, and does not leave `within`. -/
def HasLoop (plan : Plan) (within : StepId → Prop) : Prop :=
  ∃ a, Relation.TransGen (fun a b => within a ∧ plan.OnlyUser a b) a a

variable {plan : Plan} {target : StepId} {within : StepId → Prop}

theorem HasLoop.mono {within' : StepId → Prop} (h : plan.HasLoop within)
    (hsub : ∀ a, plan.refCount a = 1 → within a → within' a) : plan.HasLoop within' := by
  obtain ⟨a, ha⟩ := h
  exact ⟨a, Relation.TransGen.mono (fun b _ hbc => ⟨hsub b hbc.2.1 hbc.1, hbc.2⟩) a a ha⟩

/-- There is no loop if a step always ranks above its only user. -/
theorem not_hasLoop_of_rank (rank : StepId → Nat)
    (h : ∀ a b, within a → plan.OnlyUser a b → rank b < rank a) : ¬ plan.HasLoop within := by
  rintro ⟨a, ha⟩
  have hlt : ∀ b, Relation.TransGen (fun a b => within a ∧ plan.OnlyUser a b) a b →
      rank b < rank a := by
    intro b hb
    induction hb with
    | single hab => exact h _ _ hab.1 hab.2
    | tail _ hbc ih => exact Nat.lt_trans (h _ _ hbc.1 hbc.2) ih
  exact Nat.lt_irrefl _ (hlt a ha)

namespace Fold

variable (f : plan.Fold target)

theorem onlyUser : plan.OnlyUser target f.user.id :=
  ⟨f.refCount_target, f.user, f.mem_user, rfl, by simp [f.refs_user]⟩

theorem eq_of_onlyUser {b : StepId} (h : plan.OnlyUser target b) : b = f.user.id := by
  obtain ⟨hcheck, -, -, hothers⟩ := f.unused
  obtain ⟨-, user, huser, rfl, href⟩ := h
  rcases f.mem_plan.mp huser with rfl | rfl | ho
  · exact absurd href hcheck
  · rfl
  · exact absurd (mem_refs.mpr ⟨user, ho, href⟩) hothers

theorem id_user_ne (hnd : plan.ids.Nodup) : f.user.id ≠ target := by
  have hids := (f.perm.map Step.id).nodup_iff.mp hnd
  rw [List.map_cons, List.map_cons, List.nodup_cons, f.id_eq] at hids
  exact fun heq => hids.1 (List.mem_cons.mpr (.inl heq.symm))

/-- Where the user of a step is found once the check is folded. -/
def newUser (id : StepId) : StepId :=
  if id = target then f.user.id else id

theorem onlyUser_folded (hnd : plan.ids.Nodup) {a b : StepId} (hne : a ≠ target)
    (h : plan.OnlyUser a b) : f.folded.OnlyUser a (f.newUser b) := by
  obtain ⟨hcount, user, huser, rfl, href⟩ := h
  refine ⟨by rw [f.refCount_eq hnd hne, hcount], ?_⟩
  have hmerged := (f.mem_refs_merged hne).mpr
  rcases f.mem_plan.mp huser with rfl | rfl | ho
  · exact ⟨f.merged, (f.mem_folded hnd).mpr (.inl rfl), by rw [newUser, if_pos f.id_eq]; rfl,
      hmerged (.inl href)⟩
  · exact ⟨f.merged, (f.mem_folded hnd).mpr (.inl rfl), by
      rw [newUser, if_neg (f.id_user_ne hnd)]; rfl, hmerged (.inr href)⟩
  · have hother : user.id ≠ target := by
      have hmem : user.id ∈ ids f.folded :=
        List.mem_map_of_mem ((f.mem_folded hnd).mpr (.inr ho))
      exact ((f.mem_ids_folded hnd).mp hmem).1
    exact ⟨user, (f.mem_folded hnd).mpr (.inr ho), by rw [newUser, if_neg hother], href⟩

theorem onlyUser_of_folded (hnd : plan.ids.Nodup) {a b : StepId} (h : f.folded.OnlyUser a b) :
    plan.OnlyUser a b ∨ plan.OnlyUser a target ∧ b = f.user.id := by
  obtain ⟨hcount, user, huser, rfl, href⟩ := h
  have hne := f.ne_of_mem_refs hnd huser href
  rw [f.refCount_eq hnd hne] at hcount
  rcases (f.mem_folded hnd).mp huser with rfl | ho
  · rcases (f.mem_refs_merged hne).mp href with hc | hu
    · exact .inr ⟨⟨hcount, f.check, f.mem_check, f.id_eq, hc⟩, rfl⟩
    · exact .inl ⟨hcount, f.user, f.mem_user, rfl, hu⟩
  · exact .inl ⟨hcount, user, f.mem_plan.mpr (.inr (.inr ho)), rfl, href⟩

/-- Folding makes no loop. -/
theorem hasLoop_of_folded (hnd : plan.ids.Nodup) (htarget : within target)
    (h : f.folded.HasLoop within) : plan.HasLoop within := by
  obtain ⟨a, ha⟩ := h
  refine ⟨a, ha.lift' id fun b c hbc => ?_⟩
  rcases f.onlyUser_of_folded hnd hbc.2 with huser | ⟨huser, rfl⟩
  · exact .single ⟨hbc.1, huser⟩
  · exact .tail (.single ⟨hbc.1, huser⟩) ⟨htarget, f.onlyUser⟩

/-- Folding breaks no loop: the way around it is one step shorter if the check was on it. -/
theorem hasLoop_folded (hnd : plan.ids.Nodup) (h : plan.HasLoop within) :
    f.folded.HasLoop fun a => within a ∧ a ≠ target := by
  -- Ways between other steps stay ways, and ways to the check lead to its user.
  have hway : ∀ a b, Relation.TransGen (fun a b => within a ∧ plan.OnlyUser a b) a b →
      a ≠ target → Relation.TransGen
        (fun a b => (within a ∧ a ≠ target) ∧ f.folded.OnlyUser a b) a (f.newUser b) := by
    intro a b hab hne
    induction hab with
    | single hac => exact .single ⟨⟨hac.1, hne⟩, f.onlyUser_folded hnd hne hac.2⟩
    | @tail b c _ hbc ih =>
      by_cases hb : b = target
      · subst hb
        rw [newUser, if_pos rfl] at ih
        rwa [f.eq_of_onlyUser hbc.2, newUser, if_neg (f.id_user_ne hnd)]
      · rw [newUser, if_neg hb] at ih
        exact ih.tail ⟨⟨hbc.1, hb⟩, f.onlyUser_folded hnd hb hbc.2⟩
  obtain ⟨a, ha⟩ := h
  by_cases hne : a = target
  · subst hne
    obtain ⟨b, hab, hrest⟩ := Relation.TransGen.head'_iff.mp ha
    obtain rfl := f.eq_of_onlyUser hab.2
    have hloop := (Relation.reflTransGen_iff_eq_or_transGen.mp hrest).resolve_left
      (f.id_user_ne hnd).symm
    have hshort := hway _ _ hloop (f.id_user_ne hnd)
    rw [newUser, if_pos rfl] at hshort
    exact ⟨_, hshort⟩
  · have hshort := hway a a ha hne
    rw [newUser, if_neg hne] at hshort
    exact ⟨a, hshort⟩

end Fold

theorem SelfUse.hasLoop (d : plan.SelfUse target) (hcount : plan.refCount target = 1)
    (htarget : within target) : plan.HasLoop within :=
  ⟨target, .single ⟨htarget, hcount, d.check, d.mem_check, d.id_eq, d.mem_refs⟩⟩

/-! ## Passes -/

theorem UsedOnce.mem_refs {id : StepId} (h : plan.UsedOnce id) : id ∈ refs plan := by
  have hcount : (refs plan).count id = 1 := h.2
  exact List.count_pos_iff.mp (by omega)

theorem Fold.usedOnce (f : plan.Fold target) (hnd : plan.ids.Nodup) {id : StepId}
    (hne : id ≠ target) (h : plan.UsedOnce id) : f.folded.UsedOnce id := by
  obtain ⟨hcheck, hsame⟩ := f.ready hnd hne h.1
  exact ⟨hcheck, hsame.trans h.2⟩

/-- A pass folds all its targets if they form no loop. -/
theorem reduces_inlineEach_of_loopless {targets : List StepId} (hnd : plan.ids.Nodup)
    (htargets : targets.Nodup) (h : ∀ id ∈ targets, plan.UsedOnce id)
    (hloop : ¬ plan.HasLoop (· ∈ targets)) :
    (plan.inlineEach targets).count = targets.length ∧
      Reduces targets.length 0 plan (plan.inlineEach targets).plan := by
  induction targets generalizing plan with
  | nil => exact ⟨rfl, .refl plan⟩
  | cons target targets ih =>
    obtain ⟨hnotin, htargets⟩ := List.nodup_cons.mp htargets
    obtain ⟨htarget, hothers⟩ := List.forall_mem_cons.mp h
    rcases inlineCheck_cases hnd htarget.1 (Nat.le_of_eq htarget.2) with
      ⟨hunused, -⟩ | ⟨d, -⟩ | ⟨f, heq⟩
    · exact absurd htarget.mem_refs hunused
    · exact absurd (d.hasLoop htarget.2 (List.mem_cons_self ..)) hloop
    · obtain ⟨hcount, hrest⟩ := ih (f.nodup_folded hnd) htargets
        (fun id hid => f.usedOnce hnd (ne_of_mem_of_not_mem hid hnotin) (hothers id hid))
        fun hrest => hloop (f.hasLoop_of_folded hnd (List.mem_cons_self ..)
          (hrest.mono fun _ _ => List.mem_cons_of_mem _))
      rw [inlineEach, heq, List.length_cons]
      refine ⟨?_, .fold f hrest⟩
      dsimp only
      omega

/-- A pass takes out a step that it does not count if targets form a loop. -/
theorem length_inlineEach_lt_of_hasLoop {targets : List StepId} (hnd : plan.ids.Nodup)
    (htargets : targets.Nodup) (h : ∀ id ∈ targets, plan.UsedOnce id)
    (hloop : plan.HasLoop (· ∈ targets)) :
    (plan.inlineEach targets).plan.length + (plan.inlineEach targets).count < plan.length := by
  induction targets generalizing plan with
  | nil =>
    obtain ⟨a, ha⟩ := hloop
    obtain ⟨b, hab, -⟩ := Relation.TransGen.head'_iff.mp ha
    cases hab.1
  | cons target targets ih =>
    obtain ⟨hnotin, htargets⟩ := List.nodup_cons.mp htargets
    obtain ⟨htarget, hothers⟩ := List.forall_mem_cons.mp h
    rw [inlineEach]
    rcases inlineCheck_cases hnd htarget.1 (Nat.le_of_eq htarget.2) with
      ⟨hunused, -⟩ | ⟨d, heq⟩ | ⟨f, heq⟩
    · exact absurd htarget.mem_refs hunused
    · rw [heq]
      have hlost := d.length_erased hnd
      have hrest := length_inlineEach_le targets (plan.eraseStep target)
      dsimp only
      omega
    · rw [heq]
      have hfolded := f.length_folded hnd
      have hrest := ih (f.nodup_folded hnd) htargets
        (fun id hid => f.usedOnce hnd (ne_of_mem_of_not_mem hid hnotin) (hothers id hid))
        ((f.hasLoop_folded hnd hloop).mono fun a _ ha =>
          (List.mem_cons.mp ha.1).resolve_left ha.2)
      dsimp only
      omega

theorem hasLoop_singleUseChecks :
    plan.HasLoop (· ∈ plan.singleUseChecks) ↔ plan.HasLoop (plan.Holds Step.isCheck) := by
  constructor
  · exact fun h => h.mono fun a _ ha => (mem_singleUseChecks.mp ha).1
  · exact fun h => h.mono fun a hcount ha => mem_singleUseChecks.mpr ⟨ha, hcount⟩

theorem reduces_inlineChecks_of_loopless (hnd : plan.ids.Nodup)
    (hloop : ¬ plan.HasLoop (plan.Holds Step.isCheck)) :
    plan.inlineChecks.count = plan.singleUseChecks.length ∧
      Reduces plan.inlineChecks.count 0 plan plan.inlineChecks.plan := by
  obtain ⟨hcount, hrun⟩ := reduces_inlineEach_of_loopless hnd (nodup_singleUseChecks hnd)
    (fun _ hid => mem_singleUseChecks.mp hid) (mt hasLoop_singleUseChecks.mp hloop)
  exact ⟨hcount, by rwa [inlineChecks, hcount]⟩

/-! ## Simplifying -/

theorem Fold.loopless (f : plan.Fold target) (hnd : plan.ids.Nodup)
    (hloop : ¬ plan.HasLoop (plan.Holds Step.foldable)) :
    ¬ f.folded.HasLoop (f.folded.Holds Step.foldable) := by
  refine fun h => hloop (f.hasLoop_of_folded hnd ?_ (h.mono ?_))
  · exact ⟨f.check, f.mem_check, f.id_eq, Step.foldable_of_isCheck f.isCheck⟩
  · rintro a - ⟨s, hs, rfl, hfold⟩
    rcases (f.mem_folded hnd).mp hs with rfl | ho
    · exact ⟨f.user, f.mem_user, rfl, f.foldable_user hfold⟩
    · exact ⟨s, f.mem_plan.mpr (.inr (.inr ho)), rfl, hfold⟩

theorem Reduces.loopless {m : Nat} {a b : Plan} (h : Reduces m 0 a b) (ha : a.ids.Nodup)
    (hloop : ¬ a.HasLoop (a.Holds Step.foldable)) : ¬ b.HasLoop (b.Holds Step.foldable) := by
  generalize hn : 0 = n at h
  induction h with
  | refl => exact hloop
  | fold f _ ih => exact ih (f.nodup_folded ha) (f.loopless ha hloop) hn
  | drop => cases hn

theorem not_hasLoop_isCheck (hloop : ¬ plan.HasLoop (plan.Holds Step.foldable)) :
    ¬ plan.HasLoop (plan.Holds Step.isCheck) := by
  refine fun h => hloop (h.mono ?_)
  rintro a - ⟨s, hs, rfl, hc⟩
  exact ⟨s, hs, rfl, Step.foldable_of_isCheck hc⟩

theorem Reduces.eq_of_zero {a b : Plan} (h : Reduces 0 0 a b) : b = a := by
  cases h
  rfl

end Plan

namespace Simplifier

open Plan

variable {plan : Plan} {n : Nat}

theorem reduces_round_of_loopless (hnd : plan.ids.Nodup)
    (hloop : ¬ plan.HasLoop (plan.Holds Step.foldable)) (n : Nat) :
    Reduces ((copies n).round plan).count 0 plan ((copies n).round plan).plan := by
  induction n generalizing plan with
  | zero => exact .refl plan
  | succ n ih =>
    obtain ⟨-, hfirst⟩ := reduces_inlineChecks_of_loopless hnd (not_hasLoop_isCheck hloop)
    exact hfirst.trans (ih (hfirst.nodup hnd) (hfirst.loopless hnd hloop))

/-- Without loops a round that counts nothing met no check that is used once. -/
theorem singleUseChecks_of_round (hnd : plan.ids.Nodup)
    (hloop : ¬ plan.HasLoop (plan.Holds Step.foldable)) (hn : 1 ≤ n)
    (hcount : ((copies n).round plan).count = 0) : plan.singleUseChecks = [] := by
  obtain ⟨n, rfl⟩ := Nat.exists_eq_add_of_le' hn
  obtain ⟨hlength, -⟩ := reduces_inlineChecks_of_loopless hnd (not_hasLoop_isCheck hloop)
  rw [round_copies_succ, Nat.add_eq_zero_iff, hlength, List.length_eq_zero_iff] at hcount
  exact hcount.1

/-- Without loops simplifying folds all that goes, and goes on until no check is used once. -/
theorem simplify_of_loopless (hnd : plan.ids.Nodup)
    (hloop : ¬ plan.HasLoop (plan.Holds Step.foldable)) (hn : 1 ≤ n) :
    (∃ m, Reduces m 0 plan ((copies n).simplify plan)) ∧
      ((copies n).simplify plan).singleUseChecks = [] := by
  fun_induction simplify (copies n) plan with
  | case1 plan next heq =>
    have hnormal := singleUseChecks_of_round hnd hloop hn (by rw [heq])
    rw [round_of_normal hnormal] at heq
    cases heq
    exact ⟨⟨0, .refl plan⟩, hnormal⟩
  | case2 plan next k heq ih =>
    have hround := reduces_round_of_loopless hnd hloop n
    rw [heq] at hround
    obtain ⟨⟨m, hrest⟩, hnormal⟩ := ih (hround.nodup hnd) (hround.loopless hnd hloop)
    exact ⟨⟨_, hround.trans hrest⟩, hnormal⟩

end Simplifier

namespace Plan

open Simplifier

/-- A pass over a plan of distinct identifiers counts all the steps that it takes out exactly if no
checks form a loop. Then every check that goes is folded into its user, and a pass that counts
nothing changes nothing. If no steps that are checks or open with references form a loop,
simplifying ends with a plan that neither another pass nor simplifying again changes. -/
theorem inlineChecks_lossless_iff (hnd : plan.ids.Nodup) :
    (plan.inlineChecks.plan.length + plan.inlineChecks.count = plan.length ↔
      ¬ plan.HasLoop (plan.Holds Step.isCheck)) ∧
    (¬ plan.HasLoop (plan.Holds Step.isCheck) →
      Reduces plan.inlineChecks.count 0 plan plan.inlineChecks.plan ∧
      (plan.inlineChecks.count = 0 → plan.inlineChecks.plan = plan)) ∧
    (¬ plan.HasLoop (plan.Holds Step.foldable) → ∀ n, 1 ≤ n →
      ((copies n).simplify plan).inlineChecks = ⟨(copies n).simplify plan, 0⟩ ∧
      (copies n).simplify ((copies n).simplify plan) = (copies n).simplify plan) := by
  refine ⟨⟨fun hlength hloop => ?_, fun hloop => ?_⟩, fun hloop => ?_, fun hloop n hn => ?_⟩
  · have hlost := length_inlineEach_lt_of_hasLoop hnd (nodup_singleUseChecks hnd)
      (fun _ hid => mem_singleUseChecks.mp hid) (hasLoop_singleUseChecks.mpr hloop)
    exact absurd hlength (Nat.ne_of_lt hlost)
  · obtain ⟨-, hrun⟩ := reduces_inlineChecks_of_loopless hnd hloop
    have hlength := hrun.length_eq hnd
    omega
  · obtain ⟨-, hrun⟩ := reduces_inlineChecks_of_loopless hnd hloop
    refine ⟨hrun, fun hzero => ?_⟩
    rw [hzero] at hrun
    exact hrun.eq_of_zero
  · obtain ⟨-, hnormal⟩ := simplify_of_loopless hnd hloop hn
    refine ⟨?_, simplify_of_normal hnormal n⟩
    rw [inlineChecks, hnormal]
    rfl

/-- Checks before which their users stand, and references of a step to itself and to no step. -/
def forwardChecks : Plan :=
  [⟨0, [.text "Keep rows where", .ref 2]⟩,
    ⟨1, [.text "Use", .ref 1, .ref 9]⟩,
    ⟨2, [.text checkPhrase, .ref 3, .text "is false"]⟩,
    ⟨3, [.text checkPhrase, .text "a equals 1"]⟩]

theorem forwardChecks_loopless :
    ¬ forwardChecks.HasLoop (forwardChecks.Holds Step.foldable) := by
  have hrank : ∀ s ∈ forwardChecks, s.foldable = true →
      ∀ user ∈ forwardChecks, s.id ∈ user.refs → user.id < s.id := by
    decide
  refine not_hasLoop_of_rank id ?_
  rintro a b ⟨s, hs, rfl, hfold⟩ ⟨-, user, huser, rfl, href⟩
  exact hrank s hs hfold user huser href

theorem inlineChecks_lossless_iff_forwardChecks :
    forwardChecks.ids.Nodup ∧
    ¬ forwardChecks.HasLoop (forwardChecks.Holds Step.isCheck) ∧
    ¬ forwardChecks.HasLoop (forwardChecks.Holds Step.foldable) ∧
    forwardChecks.inlineChecks.plan.length + forwardChecks.inlineChecks.count =
      forwardChecks.length ∧
    Reduces forwardChecks.inlineChecks.count 0 forwardChecks forwardChecks.inlineChecks.plan ∧
    ∀ n, 1 ≤ n → ((copies n).simplify forwardChecks).inlineChecks =
        ⟨(copies n).simplify forwardChecks, 0⟩ ∧
      (copies n).simplify ((copies n).simplify forwardChecks) =
        (copies n).simplify forwardChecks := by
  have hnd : forwardChecks.ids.Nodup := by decide
  have hloop := not_hasLoop_isCheck forwardChecks_loopless
  obtain ⟨hlossless, hrun, hsimplify⟩ := inlineChecks_lossless_iff hnd
  exact ⟨hnd, hloop, forwardChecks_loopless, hlossless.mpr hloop, (hrun hloop).1,
    hsimplify forwardChecks_loopless⟩

/-- A check that is only used in its own condition, and another check that it uses. -/
def releasingLoop : Plan :=
  [⟨0, [.text checkPhrase, .ref 0, .text "and", .ref 1]⟩,
    ⟨1, [.text checkPhrase, .text "a equals 1"]⟩,
    ⟨2, [.text "Keep rows where", .ref 1]⟩]

/-- A pass takes the first step out, though it counts nothing. Simplifying then ends, although now
the other check is used once, and simplifying again goes on. -/
theorem inlineChecks_releasingLoop :
    releasingLoop.ids.Nodup ∧ releasingLoop.inlineChecks = ⟨releasingLoop.tail, 0⟩ ∧
    ({} : Simplifier).simplify releasingLoop = releasingLoop.tail ∧
    ({} : Simplifier).simplify releasingLoop.tail =
      [⟨2, [.text "Keep rows where", .text "a equals 1"]⟩] := by
  have hfirst : ({} : Simplifier).round releasingLoop = ⟨releasingLoop.tail, 0⟩ := by decide
  have hsecond : ({} : Simplifier).round releasingLoop.tail =
      ⟨[⟨2, [.text "Keep rows where", .text "a equals 1"]⟩], 1⟩ := by decide
  have hthird : ({} : Simplifier).round [⟨2, [.text "Keep rows where", .text "a equals 1"]⟩] =
      ⟨[⟨2, [.text "Keep rows where", .text "a equals 1"]⟩], 0⟩ := by decide
  exact ⟨by decide, by decide, simplify_of_round_zero hfirst,
    (simplify_of_round_succ hsecond).trans (simplify_of_round_zero hthird)⟩

end Plan

end QuerySteps
