import QuerySteps.Plan.Sheet
import QuerySteps.Plan.Validity

/-!
# Well-ordered plans

A plan is well-ordered if no two steps share an identifier and every reference is to an earlier
step. These are the plans of pairwise distinct identifiers that pass validation
(`validate_eq_ok_iff`). Sheets whose count is ahead of all identifiers stay well-ordered when steps
of text are written into them.
-/

namespace QuerySteps

namespace Plan

/-- Every step refers to earlier steps only, or to steps of `known`. -/
def Backward (known : List StepId) : List Step → Prop
  | [] => True
  | s :: rest => (∀ id ∈ s.refs, id ∈ known) ∧ Backward (s.id :: known) rest

/-- Identifiers are distinct and references go backward. -/
structure WellOrdered (plan : Plan) : Prop where
  nodup : plan.ids.Nodup
  backward : Backward [] plan

@[simp] theorem ids_nil : ids [] = [] := rfl

@[simp] theorem ids_cons (s : Step) (plan : Plan) : ids (s :: plan) = s.id :: ids plan := rfl

@[simp] theorem ids_append (a b : Plan) : ids (a ++ b) = ids a ++ ids b := List.map_append

@[simp] theorem refs_cons (s : Step) (plan : Plan) : refs (s :: plan) = s.refs ++ refs plan := rfl

@[simp] theorem refs_append (a b : Plan) : refs (a ++ b) = refs a ++ refs b :=
  List.flatMap_append

theorem mem_refs {plan : Plan} {id : StepId} : id ∈ plan.refs ↔ ∃ s ∈ plan, id ∈ s.refs :=
  List.mem_flatMap

theorem Backward.mono {known known' : List StepId} {plan : Plan} (h : Backward known plan)
    (hsub : known ⊆ known') : Backward known' plan := by
  induction plan generalizing known known' with
  | nil => trivial
  | cons s rest ih =>
    exact ⟨fun id hid => hsub (h.1 id hid), ih h.2 (List.cons_subset_cons _ hsub)⟩

theorem Backward.of_unused {known known' : List StepId} {plan : Plan} {unused : StepId}
    (h : Backward known plan) (hun : unused ∉ plan.refs)
    (hsub : ∀ id ∈ known, id = unused ∨ id ∈ known') : Backward known' plan := by
  induction plan generalizing known known' with
  | nil => trivial
  | cons s rest ih =>
    rw [refs_cons, List.mem_append, not_or] at hun
    refine ⟨fun id hid => (hsub id (h.1 id hid)).resolve_left ?_, ih h.2 hun.2 fun id hid => ?_⟩
    · rintro rfl
      exact hun.1 hid
    · rcases List.mem_cons.mp hid with rfl | hid
      · exact .inr (List.mem_cons_self ..)
      · exact (hsub id hid).imp_right (List.mem_cons_of_mem _)

theorem backward_append {known : List StepId} {a b : Plan} :
    Backward known (a ++ b) ↔ Backward known a ∧ Backward (ids a ++ known) b := by
  induction a generalizing known with
  | nil => simp [Backward]
  | cons s rest ih =>
    simp only [List.cons_append, Backward, ih, and_assoc, ids_cons]
    refine and_congr_right fun _ => and_congr_right fun _ => ⟨fun h => ?_, fun h => ?_⟩
    · exact h.mono (by grind)
    · exact h.mono (by grind)

/-! ## Validation -/

theorem position?_eq_none {id : StepId} {plan : Plan} :
    position? id plan = none ↔ id ∉ plan.ids := by
  induction plan with
  | nil => simp [position?]
  | cons s rest ih =>
    rw [ids_cons, List.mem_cons, not_or, ← ih, position?]
    cases position? id rest with
    | some place => simp
    | none =>
      simp only [ite_eq_right_iff, reduceCtorEq, imp_false, beq_iff_eq, and_true]
      exact not_congr eq_comm

theorem position?_bounds {id : StepId} {plan : Plan} {place : Nat}
    (h : position? id plan = some place) : 0 < place ∧ place ≤ plan.length := by
  induction plan generalizing place with
  | nil => cases h
  | cons s rest ih =>
    simp only [position?] at h
    split at h
    · rename_i p hp
      cases h
      exact ⟨Nat.succ_pos _, Nat.succ_le_succ (ih hp).2⟩
    · split at h
      · cases h
        exact ⟨Nat.one_pos, Nat.succ_le_succ (Nat.zero_le _)⟩
      · cases h

theorem position?_append (id : StepId) (a b : Plan) :
    position? id (a ++ b) =
      ((position? id b).map (· + a.length)).or (position? id a) := by
  induction a with
  | nil => cases h : position? id b <;> simp [position?, h]
  | cons s rest ih =>
    rw [List.cons_append, position?, ih]
    cases position? id b with
    | none => rfl
    | some p => simp [Nat.add_assoc]

theorem badRef?_eq_none {a b : Plan} (hnd : (ids (a ++ b)).Nodup) (refs : List StepId) :
    badRef? (a ++ b) (a.length + 1) refs = none ↔ ∀ id ∈ refs, id ∈ ids a := by
  unfold badRef?
  rw [List.find?_eq_none]
  refine forall₂_congr fun id _ => ?_
  rw [ids_append] at hnd
  rw [position?_append]
  by_cases ha : id ∈ ids a
  · have hb : id ∉ ids b := fun hb => (List.nodup_append.mp hnd).2.2 id ha id hb rfl
    rw [position?_eq_none.mpr hb]
    cases hp : position? id a with
    | none => exact absurd ha (position?_eq_none.mp hp)
    | some p =>
      have := (position?_bounds hp).2
      simp only [Option.map_none, Option.or, ha, iff_true]
      simp
      omega
  · rw [position?_eq_none.mpr ha]
    cases hp : position? id b with
    | none => simp [ha]
    | some p =>
      have := (position?_bounds hp).1
      simp only [Option.map_some, Option.or, ha, iff_false]
      simp
      omega

theorem validateFrom_eq_ok {a b : Plan} (hnd : (ids (a ++ b)).Nodup) :
    validateFrom (a ++ b) (a.length + 1) b = .ok () ↔ Backward (ids a) b := by
  -- `a` holds the steps that passed; the next one joins them before the rest is looked at.
  induction b generalizing a with
  | nil => exact iff_of_true rfl trivial
  | cons s rest ih =>
    have hsplit : a ++ s :: rest = (a ++ [s]) ++ rest := by simp
    have hbad := badRef?_eq_none hnd s.refs
    unfold validateFrom Backward
    cases h : badRef? (a ++ s :: rest) (a.length + 1) s.refs with
    | some id =>
      rw [h] at hbad
      refine iff_of_false (by intro h; cases h) fun hb => ?_
      cases hbad.mpr hb.1
    | none =>
      have hrest := ih (a := a ++ [s]) (by rwa [← hsplit])
      rw [← hsplit, List.length_append] at hrest
      refine Iff.trans hrest ⟨fun hb => ⟨hbad.mp h, ?_⟩, fun hb => ?_⟩
      · exact hb.mono (by simp)
      · exact hb.2.mono (by simp)

/-- A plan without repeated identifiers is valid exactly if all references go backward. -/
theorem validate_eq_ok_iff {plan : Plan} (hnd : plan.ids.Nodup) :
    plan.validate = .ok () ↔ Backward [] plan :=
  validateFrom_eq_ok (a := []) hnd

theorem WellOrdered.validate_eq_ok {plan : Plan} (h : plan.WellOrdered) :
    plan.validate = .ok () :=
  (validate_eq_ok_iff h.nodup).mpr h.backward

end Plan

/-! ## Sheets -/

namespace Sheet

open Plan

/-- The plan is well-ordered and the count is ahead of its identifiers. -/
structure Sound (s : Sheet) : Prop where
  ordered : s.plan.WellOrdered
  lt_issued : ∀ id ∈ s.plan.ids, id < s.issued

variable {s : Sheet}

theorem Sound.prepend (h : s.Sound) (words : String) : (s.prepend words).Sound where
  ordered := by
    refine ⟨List.nodup_cons.mpr ⟨fun hid => ?_, h.ordered.nodup⟩, ?_, ?_⟩
    · exact Nat.lt_irrefl _ (h.lt_issued _ hid)
    · simp [Step.refs]
    · exact h.ordered.backward.mono (List.nil_subset _)
  lt_issued id hid := by
    rcases List.mem_cons.mp hid with rfl | hid
    · exact Nat.lt_succ_self _
    · exact Nat.lt_succ_of_lt (h.lt_issued id hid)

theorem Sound.prependAll (h : s.Sound) (texts : List String) : (s.prependAll texts).Sound := by
  induction texts with
  | nil => exact h
  | cons words texts ih => exact ih.prepend words

theorem mem_ids_interleave {words : String} {next : Nat} {steps : List Step} {id : Nat}
    (h : id ∈ ids (interleave words next steps)) :
    id ∈ ids steps ∨ (next ≤ id ∧ id < next + steps.length) := by
  induction steps generalizing next with
  | nil => cases h
  | cons step rest ih =>
    simp only [interleave, ids_cons, List.mem_cons] at h ⊢
    rw [List.length_cons]
    rcases h with rfl | rfl | h
    · exact .inl (.inl rfl)
    · exact .inr ⟨Nat.le_refl _, by omega⟩
    · rcases ih h with h | h
      · exact .inl (.inr h)
      · exact .inr (by omega)

theorem nodup_ids_interleave {words : String} {next : Nat} {steps : List Step}
    (hnd : (ids steps).Nodup) (hlt : ∀ id ∈ ids steps, id < next) :
    (ids (interleave words next steps)).Nodup := by
  induction steps generalizing next with
  | nil => exact List.nodup_nil
  | cons step rest ih =>
    obtain ⟨hstep, hrest⟩ := List.nodup_cons.mp hnd
    obtain ⟨hlt', hltrest⟩ := List.forall_mem_cons.mp hlt
    simp only [interleave, ids_cons, List.nodup_cons, List.mem_cons, not_or]
    refine ⟨⟨Nat.ne_of_lt hlt', fun h => ?_⟩, fun h => ?_, ?_⟩
    · rcases mem_ids_interleave h with h | h
      · exact hstep h
      · exact Nat.lt_asymm hlt' h.1
    · rcases mem_ids_interleave h with h | h
      · exact Nat.lt_irrefl _ (hltrest next h)
      · omega
    · exact ih hrest fun id hid => Nat.lt_succ_of_lt (hltrest id hid)

theorem backward_interleave {words : String} {next : StepId} {known : List StepId}
    {steps : List Step} (h : Backward known steps) :
    Backward known (interleave words next steps) := by
  induction steps generalizing known next with
  | nil => trivial
  | cons step rest ih =>
    refine ⟨h.1, by simp [Step.refs], (ih h.2).mono ?_⟩
    exact List.subset_cons_self _ _

theorem Sound.intersperse (h : s.Sound) (words : String) : (s.intersperse words).Sound where
  ordered := ⟨nodup_ids_interleave h.ordered.nodup h.lt_issued,
    backward_interleave h.ordered.backward⟩
  lt_issued id hid := by
    rcases mem_ids_interleave hid with hid | hid
    · exact Nat.lt_add_right _ (h.lt_issued id hid)
    · exact hid.2

end Sheet

end QuerySteps
