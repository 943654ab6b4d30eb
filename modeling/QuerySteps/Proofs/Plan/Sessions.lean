import Mathlib.Data.List.Perm.Basic
import QuerySteps.Plan.Workbench
import QuerySteps.Proofs.Plan.Rounds

/-!
# Sessions

The plans of one session share a count of identifiers. Whatever is done with them and in whatever
order, an identifier is handed out once: all plans together hold distinct identifiers, and one whose
step is gone does not come back (`Workbench.session_distinct`).

Every action takes the identifiers right behind those already handed out and puts no others into the
plans (`Advances`). A change of one plan is judged on its sheet first (`Sheet.Takes`); the other
plans hold smaller identifiers and are not touched.
-/

namespace QuerySteps

open Plan

/-! ## Changes of a sheet -/

namespace Sheet

/-- The change from `s` to `t` hands out the identifiers `taken`, and the plan gets no others. -/
structure Takes (s : Sheet) (taken : List StepId) (t : Sheet) : Prop where
  taken_eq : taken = List.range' s.issued taken.length
  issued : t.issued = s.issued + taken.length
  nodup : t.plan.ids.Nodup
  mem : ∀ id ∈ t.plan.ids, id ∈ s.plan.ids ∨ id ∈ taken

section

variable {s : Sheet} (hnd : s.plan.ids.Nodup) (hlt : ∀ id ∈ s.plan.ids, id < s.issued)

include hnd hlt

theorem takes_add (parts : List Part) : s.Takes [s.issued] (s.add parts) where
  taken_eq := rfl
  issued := rfl
  nodup := by
    rw [add, ids_append]
    exact hnd.append (List.nodup_singleton _)
      (List.disjoint_singleton.mpr fun h => Nat.lt_irrefl _ (hlt _ h))
  mem id h := by simpa [add] using h

theorem takes_prepend (words : String) : s.Takes [s.issued] (s.prepend words) where
  taken_eq := rfl
  issued := rfl
  nodup := List.nodup_cons.mpr ⟨fun h => Nat.lt_irrefl _ (hlt _ h), hnd⟩
  mem id h := by simpa [prepend, or_comm] using h

theorem takes_intersperse (words : String) :
    s.Takes (List.range' s.issued s.plan.length) (s.intersperse words) where
  taken_eq := by rw [List.length_range']
  issued := by rw [List.length_range']; rfl
  nodup := nodup_ids_interleave hnd hlt
  mem id h := by simpa [List.mem_range'_1] using mem_ids_interleave h

end

theorem takes_issue {s : Sheet} (hnd : s.plan.ids.Nodup) : s.Takes [s.issued] s.issue where
  taken_eq := rfl
  issued := rfl
  nodup := hnd
  mem _ h := .inl h

theorem takes_simplify {s : Sheet} (hnd : s.plan.ids.Nodup) (n : Nat) :
    s.Takes [] (s.simplify (.copies n)) where
  taken_eq := rfl
  issued := rfl
  nodup := hnd.sublist (Simplifier.sublist_ids_simplify n s.plan)
  mem _ h := .inl ((Simplifier.sublist_ids_simplify n s.plan).subset h)

theorem sublist_interleave (words : String) (next : StepId) (steps : List Step) :
    steps.Sublist (interleave words next steps) := by
  induction steps generalizing next with
  | nil => exact List.Sublist.refl _
  | cons step rest ih => exact ((ih (next + 1)).cons _).cons_cons _

end Sheet

/-! ## Actions -/

/-- What can be done with the plans of a session, which are known by their numbers. -/
inductive Action where
  /-- Opens an empty plan in the session of another one. -/
  | child (number : Nat)
  | add (number : Nat) (parts : List Part)
  | prepend (number : Nat) (words : String)
  | intersperse (number : Nat) (words : String)
  /-- Takes an identifier without making a step. -/
  | issue (number : Nat)
  /-- Simplifies with so many copies of the inlining rule. -/
  | simplify (number copies : Nat)
  /-- Moves the steps of the plan `source` to the end of the plan `number`. -/
  | merge (number source : Nat)
  deriving Repr, DecidableEq

namespace Workbench

def perform (w : Workbench) : Action → Workbench
  | .child number => w.child number
  | .add number parts => w.modify number (·.add parts)
  | .prepend number words => w.modify number (·.prepend words)
  | .intersperse number words => w.modify number (·.intersperse words)
  | .issue number => w.modify number (·.issue)
  | .simplify number copies => w.modify number (·.simplify (.copies copies))
  | .merge number source => w.moveInto number source

/-- The identifiers that an action takes from the count, in the order in which it takes them. -/
def taken (w : Workbench) : Action → List StepId
  | .add number _ | .prepend number _ | .issue number =>
    (w.sheet? number).elim [] fun s => [s.issued]
  | .intersperse number _ =>
    (w.sheet? number).elim [] fun s => List.range' s.issued s.plan.length
  | .child _ | .simplify .. | .merge .. => []

def run (w : Workbench) (actions : List Action) : Workbench :=
  actions.foldl perform w

/-- The identifiers that several actions take, one after the other. -/
def takenBy (w : Workbench) : List Action → List StepId
  | [] => []
  | action :: actions => w.taken action ++ (w.perform action).takenBy actions

def held (w : Workbench) : List StepId :=
  w.plans.flatMap (ids ·.2)

def plan? (w : Workbench) (number : Nat) : Option Plan :=
  w.plans[number]?.map (·.2)

/-- The steps of every plan stand in the plan whose number is `home` of its own, with their
fragments and in their order. -/
def Keeps (w w' : Workbench) (home : Nat → Nat) : Prop :=
  ∀ number plan, w.plan? number = some plan →
    ∃ plan', w'.plan? (home number) = some plan' ∧ plan.Sublist plan'

/-- All plans belong to one session and hold distinct identifiers, which its count has passed. -/
structure IsSession (w : Workbench) (issued : Nat) : Prop where
  issued_eq : w.issued = [issued]
  session_eq : ∀ p ∈ w.plans, p.1 = 0
  nodup : w.held.Nodup
  lt_issued : ∀ id ∈ w.held, id < issued

/-- From a session whose count is `issued`, the identifiers `taken` have been handed out, and the
plans got no others. -/
structure Advances (issued : Nat) (w : Workbench) (taken : List StepId) (w' : Workbench) :
    Prop where
  session : w'.IsSession (issued + taken.length)
  taken_eq : taken = List.range' issued taken.length
  mem : ∀ id ∈ w'.held, id ∈ w.held ∨ id ∈ taken

variable {w w' : Workbench} {n : Nat}

theorem isSession_new : IsSession {} 0 where
  issued_eq := rfl
  session_eq p hp := by rw [List.mem_singleton.mp hp]
  nodup := List.nodup_nil
  lt_issued id h := by cases h

namespace Advances

theorem refl (h : w.IsSession n) : Advances n w [] w :=
  ⟨h, rfl, fun _ hid => .inl hid⟩

theorem trans {w'' : Workbench} {first second : List StepId} (h : Advances n w first w')
    (h' : Advances (n + first.length) w' second w'') : Advances n w (first ++ second) w'' where
  session := by
    rw [List.length_append, ← Nat.add_assoc]
    exact h'.session
  taken_eq := by
    rw [List.length_append, ← List.range'_append_1, ← h.taken_eq, ← h'.taken_eq]
  mem id hid := by
    rcases h'.mem id hid with hid | hid
    · exact (h.mem id hid).imp_right (List.mem_append_left _)
    · exact .inr (List.mem_append_right _ hid)

end Advances

/-! ## One plan among the others -/

/-- The identifiers that the plans but the given one hold. -/
def heldBeside (w : Workbench) (number : Nat) : List StepId :=
  (w.plans.eraseIdx number).flatMap (ids ·.2)

namespace IsSession

variable {number session : Nat} {plan : Plan}

theorem session_of_plan (h : w.IsSession n) (hplan : w.plans[number]? = some (session, plan)) :
    session = 0 :=
  h.session_eq _ (List.mem_of_getElem? hplan)

theorem sheet?_eq (h : w.IsSession n) (hplan : w.plans[number]? = some (session, plan)) :
    w.sheet? number = some ⟨n, plan⟩ := by
  obtain rfl := h.session_of_plan hplan
  simp [sheet?, hplan, h.issued_eq]

theorem modify_eq (h : w.IsSession n) (hplan : w.plans[number]? = some (session, plan))
    (change : Sheet → Sheet) : w.modify number change =
      ⟨[(change ⟨n, plan⟩).issued], w.plans.set number (0, (change ⟨n, plan⟩).plan)⟩ := by
  obtain rfl := h.session_of_plan hplan
  simp [Workbench.modify, hplan, h.issued_eq]

theorem held_perm (hplan : w.plans[number]? = some (session, plan)) :
    w.held.Perm (plan.ids ++ w.heldBeside number) := by
  obtain ⟨hlt, hget⟩ := List.getElem?_eq_some_iff.mp hplan
  have hperm := (List.getElem_cons_eraseIdx_perm hlt).symm.flatMap_right
    fun p : Nat × Plan => ids p.2
  rwa [hget] at hperm

theorem held_modify_perm (h : w.IsSession n) (hplan : w.plans[number]? = some (session, plan))
    (change : Sheet → Sheet) : (w.modify number change).held.Perm
      ((change ⟨n, plan⟩).plan.ids ++ w.heldBeside number) := by
  rw [h.modify_eq hplan]
  exact (List.set_perm_cons_eraseIdx (List.getElem?_eq_some_iff.mp hplan).1 _).flatMap_right
    fun p : Nat × Plan => ids p.2

/-- A change of one plan leaves a session if the plan gets distinct identifiers, and only such new
ones as no plan held. -/
theorem modify (h : w.IsSession n) (hplan : w.plans[number]? = some (session, plan))
    (change : Sheet → Sheet) (added : List StepId) (hle : n ≤ (change ⟨n, plan⟩).issued)
    (hnd : (change ⟨n, plan⟩).plan.ids.Nodup)
    (hmem : ∀ id ∈ (change ⟨n, plan⟩).plan.ids, id ∈ plan.ids ∨ id ∈ added)
    (hadded : ∀ id ∈ added, id < (change ⟨n, plan⟩).issued ∧ id ∉ w.held) :
    (w.modify number change).IsSession (change ⟨n, plan⟩).issued ∧
      ∀ id ∈ (w.modify number change).held, id ∈ w.held ∨ id ∈ added := by
  have hold := held_perm hplan
  have hnew := h.held_modify_perm hplan change
  obtain ⟨-, hbeside, hdisjoint⟩ := List.nodup_append.mp (hold.nodup_iff.mp h.nodup)
  have hheld : ∀ id ∈ (w.modify number change).held, id ∈ w.held ∨ id ∈ added := by
    intro id hid
    rcases List.mem_append.mp (hnew.mem_iff.mp hid) with hid | hid
    · exact (hmem id hid).imp_left fun hid => hold.mem_iff.mpr (List.mem_append_left _ hid)
    · exact .inl (hold.mem_iff.mpr (List.mem_append_right _ hid))
  refine ⟨⟨?_, fun p hp => ?_, ?_, fun id hid => ?_⟩, hheld⟩
  · rw [h.modify_eq hplan]
  · rw [h.modify_eq hplan] at hp
    rcases List.mem_or_eq_of_mem_set hp with hp | rfl
    · exact h.session_eq p hp
    · rfl
  · rw [hnew.nodup_iff, List.nodup_append]
    refine ⟨hnd, hbeside, fun id hid id' hid' heq => ?_⟩
    rcases hmem id hid with hid | hid
    · exact hdisjoint id hid id' hid' heq
    · exact (hadded id hid).2 (hold.mem_iff.mpr (List.mem_append_right _ (heq ▸ hid')))
  · rcases hheld id hid with hid | hid
    · exact Nat.lt_of_lt_of_le (h.lt_issued id hid) hle
    · exact (hadded id hid).1

end IsSession

/-! ## Actions one by one -/

section

variable {number session : Nat} {plan : Plan}

theorem advances_modify (h : w.IsSession n) (number : Nat) {taken : Sheet → List StepId}
    (change : Sheet → Sheet)
    (hchange : ∀ s : Sheet, s.plan.ids.Nodup → (∀ id ∈ s.plan.ids, id < s.issued) →
      s.Takes (taken s) (change s)) :
    Advances n w ((w.sheet? number).elim [] taken) (w.modify number change) := by
  cases hplan : w.plans[number]? with
  | none =>
    have hnone : w.sheet? number = none := by simp [sheet?, hplan]
    have hsame : w.modify number change = w := by simp [modify, hplan]
    rw [hnone, hsame]
    exact .refl h
  | some p =>
    obtain ⟨session, plan⟩ := p
    have hperm := IsSession.held_perm hplan
    have ht := hchange ⟨n, plan⟩ (List.nodup_append.mp (hperm.nodup_iff.mp h.nodup)).1
      fun id hid => h.lt_issued id (hperm.mem_iff.mpr (List.mem_append_left _ hid))
    have htaken : ∀ id ∈ taken ⟨n, plan⟩, n ≤ id ∧ id < n + (taken ⟨n, plan⟩).length := by
      intro id hid
      rw [ht.taken_eq] at hid
      exact List.mem_range'_1.mp hid
    have hahead : n ≤ (change ⟨n, plan⟩).issued := by
      rw [ht.issued]
      exact Nat.le_add_right _ _
    have hafter := h.modify hplan change _ hahead ht.nodup ht.mem fun id hid =>
      ⟨by rw [ht.issued]; exact (htaken id hid).2,
        fun hheld => Nat.not_lt.mpr (htaken id hid).1 (h.lt_issued id hheld)⟩
    rw [ht.issued] at hafter
    rw [h.sheet?_eq hplan]
    exact ⟨hafter.1, ht.taken_eq, hafter.2⟩

/-- Steps that no plan holds may be added to any of them. -/
theorem isSession_append (h : w.IsSession n) {moved : Plan} (hnd : moved.ids.Nodup)
    (hmoved : ∀ id ∈ moved.ids, id < n ∧ id ∉ w.held) (number : Nat) :
    (w.modify number (·.append moved)).IsSession n ∧
      ∀ id ∈ (w.modify number (·.append moved)).held, id ∈ w.held ∨ id ∈ moved.ids := by
  cases hplan : w.plans[number]? with
  | none =>
    have hsame : w.modify number (·.append moved) = w := by simp [modify, hplan]
    rw [hsame]
    exact ⟨h, fun _ hid => .inl hid⟩
  | some p =>
    obtain ⟨session, plan⟩ := p
    have hperm := IsSession.held_perm hplan
    refine h.modify hplan (·.append moved) _ (Nat.le_refl n) ?_ ?_ hmoved
    · refine (ids_append plan moved).symm ▸ List.nodup_append.mpr
        ⟨(List.nodup_append.mp (hperm.nodup_iff.mp h.nodup)).1, hnd, fun id hid id' hid' heq => ?_⟩
      exact (hmoved id' hid').2 (hperm.mem_iff.mpr (List.mem_append_left _ (heq ▸ hid)))
    · exact fun id hid => List.mem_append.mp (ids_append plan moved ▸ hid)

/-- The workbench with all steps of a plan taken away. -/
def emptied (w : Workbench) (number : Nat) : Workbench :=
  w.modify number fun s => { s with plan := [] }

theorem isSession_emptied (h : w.IsSession n) (hplan : w.plans[number]? = some (session, plan)) :
    (w.emptied number).IsSession n ∧ (∀ id ∈ (w.emptied number).held, id ∈ w.held) ∧
      ∀ id ∈ plan.ids, id ∉ (w.emptied number).held := by
  obtain ⟨hemptied, hsub⟩ := h.modify hplan (fun s => { s with plan := [] }) []
    (Nat.le_refl n) List.nodup_nil (by simp) (by simp)
  refine ⟨hemptied, fun id hid => (hsub id hid).resolve_right List.not_mem_nil,
    fun id hid hheld => ?_⟩
  have hrest := (h.held_modify_perm hplan fun s => { s with plan := [] }).mem_iff.mp hheld
  have hdisjoint := (List.nodup_append.mp ((IsSession.held_perm hplan).nodup_iff.mp h.nodup)).2.2
  exact hdisjoint id hid id (by simpa using hrest) rfl

/-- A plan is moved by taking all its steps away and adding them to the other. -/
theorem moveInto_eq (h : w.IsSession n) (hplan : w.plans[number]? = some (session, plan))
    (target : Nat) :
    w.moveInto target number = (w.emptied number).modify target (·.append plan) := by
  obtain rfl := h.session_of_plan hplan
  simp [moveInto, hplan, emptied, h.modify_eq hplan, h.issued_eq]

theorem advances_moveInto (h : w.IsSession n) (number source : Nat) :
    Advances n w [] (w.moveInto number source) := by
  cases hsource : w.plans[source]? with
  | none =>
    have hsame : w.moveInto number source = w := by simp [moveInto, hsource]
    rw [hsame]
    exact .refl h
  | some p =>
    obtain ⟨session, moved⟩ := p
    have hperm := IsSession.held_perm hsource
    have hmem : ∀ id ∈ moved.ids, id ∈ w.held := fun id hid =>
      hperm.mem_iff.mpr (List.mem_append_left _ hid)
    obtain ⟨hemptied, hsub, hfree⟩ := isSession_emptied h hsource
    obtain ⟨hsession, hheld⟩ := isSession_append hemptied
      (List.nodup_append.mp (hperm.nodup_iff.mp h.nodup)).1
      (fun id hid => ⟨h.lt_issued id (hmem id hid), hfree id hid⟩) number
    rw [moveInto_eq h hsource]
    exact ⟨hsession, rfl, fun id hid => .inl ((hheld id hid).elim (hsub id) (hmem id))⟩

theorem advances_child (h : w.IsSession n) (number : Nat) : Advances n w [] (w.child number) := by
  unfold child
  cases hplan : w.plans[number]? with
  | none => exact .refl h
  | some p =>
    obtain ⟨session, plan⟩ := p
    obtain rfl := h.session_of_plan hplan
    have hheld : held { w with plans := w.plans ++ [(0, [])] } = w.held := by simp [held]
    refine ⟨⟨h.issued_eq, fun p hp => ?_, ?_, ?_⟩, rfl, fun id hid => .inl (hheld ▸ hid)⟩
    · rcases List.mem_append.mp hp with hp | hp
      · exact h.session_eq p hp
      · rw [List.mem_singleton.mp hp]
    · exact hheld.symm ▸ h.nodup
    · exact hheld.symm ▸ h.lt_issued

/-- One action hands out the identifiers right behind those handed out before. -/
theorem advances_perform (h : w.IsSession n) (action : Action) :
    Advances n w (w.taken action) (w.perform action) := by
  cases action with
  | child number => exact advances_child h number
  | add number parts =>
    exact advances_modify h number _ fun s hnd hlt => Sheet.takes_add hnd hlt parts
  | prepend number words =>
    exact advances_modify h number _ fun s hnd hlt => Sheet.takes_prepend hnd hlt words
  | intersperse number words =>
    exact advances_modify h number _ fun s hnd hlt => Sheet.takes_intersperse hnd hlt words
  | issue number => exact advances_modify h number _ fun s hnd _ => Sheet.takes_issue hnd
  | simplify number copies =>
    have hnothing : (w.sheet? number).elim [] (fun _ => ([] : List StepId)) = [] := by
      cases w.sheet? number <;> rfl
    have hsimplify := advances_modify h number (·.simplify (.copies copies)) fun s hnd _ =>
      Sheet.takes_simplify hnd copies
    rwa [hnothing] at hsimplify
  | merge number source => exact advances_moveInto h number source

theorem advances_run (h : w.IsSession n) (actions : List Action) :
    Advances n w (w.takenBy actions) (w.run actions) := by
  induction actions generalizing w n with
  | nil => exact .refl h
  | cons action actions ih =>
    have hfirst := advances_perform h action
    exact hfirst.trans (ih hfirst.session)

end

/-! ## Steps that stay -/

section

variable {number : Nat} {change : Sheet → Sheet}

theorem plan?_modify (h : w.IsSession n) {session : Nat} {plan : Plan}
    (hplan : w.plans[number]? = some (session, plan)) :
    (w.modify number change).plan? number = some (change ⟨n, plan⟩).plan := by
  have hlt := (List.getElem?_eq_some_iff.mp hplan).1
  rw [h.modify_eq hplan]
  simp [plan?, hlt]

theorem plan?_modify_ne (h : w.IsSession n) {k : Nat} (hk : number ≠ k) :
    (w.modify number change).plan? k = w.plan? k := by
  cases hplan : w.plans[number]? with
  | none => simp [modify, hplan]
  | some p =>
    obtain ⟨session, plan⟩ := p
    rw [h.modify_eq hplan]
    simp [plan?, List.getElem?_set_ne hk]

/-- A change that keeps the steps of its plan keeps those of all plans. -/
theorem keeps_modify (h : w.IsSession n) (hchange : ∀ s : Sheet, s.plan.Sublist (change s).plan) :
    w.Keeps (w.modify number change) id := by
  intro k plan hk
  by_cases hkn : number = k
  · subst hkn
    obtain ⟨p, hplan, rfl⟩ := Option.map_eq_some_iff.mp hk
    exact ⟨_, plan?_modify h hplan, hchange ⟨n, p.2⟩⟩
  · exact ⟨plan, (plan?_modify_ne h hkn).trans hk, List.Sublist.refl plan⟩

theorem keeps_moveInto (h : w.IsSession n) (hnumber : number < w.plans.length) (source : Nat) :
    w.Keeps (w.moveInto number source) fun k => if k = source then number else k := by
  intro k plan hk
  dsimp only
  cases hsource : w.plans[source]? with
  | none =>
    have hne : k ≠ source := by
      rintro rfl
      simp [plan?, hsource] at hk
    have hsame : w.moveInto number source = w := by simp [moveInto, hsource]
    rw [hsame, if_neg hne]
    exact ⟨plan, hk, List.Sublist.refl plan⟩
  | some p =>
    obtain ⟨session, moved⟩ := p
    have hemptied := (isSession_emptied h hsource).1
    rw [moveInto_eq h hsource]
    by_cases hks : k = source
    · subst hks
      obtain rfl : moved = plan := by simpa [plan?, hsource] using hk
      have hlength : (w.emptied k).plans.length = w.plans.length := by
        rw [emptied, h.modify_eq hsource, List.length_set]
      have htarget := List.getElem?_eq_getElem (hlength.symm ▸ hnumber)
      rw [if_pos rfl]
      exact ⟨_, plan?_modify hemptied htarget, List.sublist_append_right _ moved⟩
    · rw [if_neg hks]
      exact keeps_modify hemptied (fun s => List.sublist_append_left s.plan moved) k plan
        ((plan?_modify_ne h (Ne.symm hks)).trans hk)

end

/-- Whatever is done with the plans of a session, they hold distinct identifiers below its count.
The identifiers are handed out in their natural order, each of them once, so that one which no plan
holds any more is never held again. Steps stay, with their fragments and in their order, when others
are put in front of them or between them and when their plan is moved into another. -/
theorem session_distinct (before after : List Action) : ∃ issued later,
    (run {} before).IsSession issued ∧ (run {} (before ++ after)).IsSession later ∧
    takenBy {} before = List.range issued ∧
    takenBy (run {} before) after = List.range' issued (later - issued) ∧
    (∀ id ∈ (run {} (before ++ after)).held,
      id ∈ (run {} before).held ∨ id ∈ takenBy (run {} before) after) ∧
    (∀ id < issued, id ∉ (run {} before).held → id ∉ (run {} (before ++ after)).held) ∧
    (∀ number words, (run {} before).Keeps ((run {} before).perform (.prepend number words)) id) ∧
    (∀ number words,
      (run {} before).Keeps ((run {} before).perform (.intersperse number words)) id) ∧
    ∀ number source, number < (run {} before).plans.length →
      (run {} before).Keeps ((run {} before).perform (.merge number source))
        fun k => if k = source then number else k := by
  have hbefore := advances_run isSession_new before
  have hw := hbefore.session
  rw [Nat.zero_add] at hw
  have hafter := advances_run hw after
  have htaken : takenBy (run {} before) after =
      List.range' (takenBy {} before).length
        ((takenBy {} before).length + (takenBy (run {} before) after).length -
          (takenBy {} before).length) := by
    rw [Nat.add_sub_cancel_left]
    exact hafter.taken_eq
  have hrun : run {} (before ++ after) = run (run {} before) after := List.foldl_append
  rw [hrun]
  refine ⟨_, _, hw, hafter.session, ?_, htaken, hafter.mem, fun id hid hgone hheld => ?_,
    fun number words => ?_, fun number words => ?_,
    fun number source hnumber => keeps_moveInto hw hnumber source⟩
  · rw [List.range_eq_range']
    exact hbefore.taken_eq
  · have hnew := (hafter.mem id hheld).resolve_left hgone
    rw [htaken, List.mem_range'_1] at hnew
    exact Nat.not_lt.mpr hnew.1 hid
  · exact keeps_modify hw fun s => (List.Sublist.refl s.plan).cons _
  · exact keeps_modify hw fun s => Sheet.sublist_interleave words s.issued s.plan

-- The step of the child plan keeps its identifier in the plan that it is moved into.
example :
    (run {} [.child 0, .add 1 [.text "a"], .issue 0, .merge 0 1, .prepend 0 "b",
      .intersperse 0 "c"]).held = [2, 3, 0, 4] := by
  decide

end Workbench

end QuerySteps
