import QuerySteps.Proofs.Plan.Inlining

/-!
# Simplified plans

Simplifying a well-ordered plan with copies of the inlining rule is a run of inlinings
(`inlines_simplify`), so the plan stays well-ordered and its steps are referred to as often as
before. It ends when no check is used once. A pass that counts nothing changes nothing, and any
number of passes in a round leads to the same end (`simplify_copies`).
-/

namespace QuerySteps

namespace Simplifier

open Plan

/-- The simplifier that applies the inlining rule `n` times in each round. -/
def copies (n : Nat) : Simplifier :=
  ⟨List.replicate n .inlineChecks⟩

variable {plan : Plan} {n : Nat}

/-! ## Rounds -/

theorem round_copies_succ (n : Nat) (plan : Plan) : (copies (n + 1)).round plan =
    ⟨((copies n).round plan.inlineChecks.plan).plan,
      plan.inlineChecks.count + ((copies n).round plan.inlineChecks.plan).count⟩ := rfl

theorem inlines_round (h : plan.WellOrdered) (n : Nat) :
    Inlines ((copies n).round plan).count plan ((copies n).round plan).plan := by
  induction n generalizing plan with
  | zero => exact .refl plan
  | succ n ih =>
    have hfirst := h.inlines_inlineChecks.2
    exact hfirst.trans (ih (hfirst.wellOrdered h))

theorem round_of_normal (h : plan.singleUseChecks = []) (n : Nat) :
    (copies n).round plan = ⟨plan, 0⟩ := by
  have hpass : plan.inlineChecks = ⟨plan, 0⟩ := by rw [inlineChecks, h]; rfl
  induction n with
  | zero => rfl
  | succ n ih => simp only [round_copies_succ, hpass, ih]

/-- A round that counts no change met a plan without checks that are used once. -/
theorem normal_of_count_round (h : plan.WellOrdered) (hn : 1 ≤ n)
    (hcount : ((copies n).round plan).count = 0) : plan.singleUseChecks = [] := by
  obtain ⟨n, rfl⟩ := Nat.exists_eq_add_of_le' hn
  rw [round_copies_succ, Nat.add_eq_zero_iff] at hcount
  rw [← List.length_eq_zero_iff, ← h.inlines_inlineChecks.1]
  exact hcount.1

/-! ## Whole runs -/

theorem inlines_simplify (h : plan.WellOrdered) (n : Nat) :
    ∃ k, Inlines k plan ((copies n).simplify plan) := by
  have hround := inlines_round h n
  fun_induction simplify (copies n) plan with
  | case1 plan next heq => exact ⟨0, by rwa [heq] at hround⟩
  | case2 plan next k heq ih =>
    rw [heq] at hround
    have hnext := hround.wellOrdered h
    obtain ⟨m, hrest⟩ := ih hnext (inlines_round hnext n)
    exact ⟨_, hround.trans hrest⟩

theorem simplify_of_normal (h : plan.singleUseChecks = []) (n : Nat) :
    (copies n).simplify plan = plan := by
  fun_cases simplify (copies n) plan with
  | case1 next heq =>
    rw [round_of_normal h] at heq
    cases heq
    rfl
  | case2 next k heq =>
    rw [round_of_normal h] at heq
    cases heq

theorem singleUseChecks_simplify (h : plan.WellOrdered) (hn : 1 ≤ n) :
    ((copies n).simplify plan).singleUseChecks = [] := by
  fun_induction simplify (copies n) plan with
  | case1 plan next heq =>
    have hnormal := normal_of_count_round h hn (by rw [heq])
    rw [round_of_normal hnormal] at heq
    cases heq
    exact hnormal
  | case2 plan next k heq ih =>
    have hround := inlines_round h n
    rw [heq] at hround
    exact ih (hround.wellOrdered h)

/-- No check that is left is used once. -/
theorem refCount_ne_one_of_mem_simplify (h : plan.WellOrdered) (hn : 1 ≤ n) {s : Step}
    (hs : s ∈ (copies n).simplify plan) (hcheck : s.isCheck = true) :
    refCount ((copies n).simplify plan) s.id ≠ 1 := by
  intro hcount
  have hmem := mem_singleUseChecks.mpr ⟨⟨s, hs, rfl, hcheck⟩, hcount⟩
  rw [singleUseChecks_simplify h hn] at hmem
  cases hmem

/-- Another pass before the first round does not change where simplifying ends. -/
theorem simplify_inlineChecks (h : plan.WellOrdered) :
    (copies 1).simplify plan.inlineChecks.plan = (copies 1).simplify plan := by
  have hround : (copies 1).round plan = plan.inlineChecks := rfl
  fun_cases simplify (copies 1) plan with
  | case1 next heq =>
    have hnormal := normal_of_count_round h (Nat.le_refl 1) (by rw [heq])
    rw [← hround, heq]
    rw [round_of_normal hnormal] at heq
    cases heq
    exact simplify_of_normal hnormal 1
  | case2 next k heq => rw [← hround, heq]

theorem simplify_round (h : plan.WellOrdered) (n : Nat) :
    (copies 1).simplify ((copies n).round plan).plan = (copies 1).simplify plan := by
  induction n generalizing plan with
  | zero => rfl
  | succ n ih =>
    rw [round_copies_succ, ih (h.inlines_inlineChecks.2.wellOrdered h), simplify_inlineChecks h]

theorem simplify_copies (h : plan.WellOrdered) (hn : 1 ≤ n) :
    (copies n).simplify plan = (copies 1).simplify plan := by
  fun_induction simplify (copies n) plan with
  | case1 plan next heq =>
    have hnormal := normal_of_count_round h hn (by rw [heq])
    rw [round_of_normal hnormal] at heq
    cases heq
    exact (simplify_of_normal hnormal 1).symm
  | case2 plan next k heq ih =>
    have hround := inlines_round h n
    rw [heq] at hround
    rw [ih (hround.wellOrdered h), ← simplify_round h n, heq]

/-- A valid plan simplifies to a valid plan without checks that are used once. The steps that are
left are referred to as often as before, simplifying again changes nothing, and any number of copies
of the rule leads to the same plan. -/
theorem simplify_normalizes (hnodup : plan.ids.Nodup) (hvalid : plan.validate = .ok ()) :
    let simple := ({} : Simplifier).simplify plan
    simple.validate = .ok () ∧
    (∀ s ∈ simple, s.isCheck = true → simple.refCount s.id ≠ 1) ∧
    (∀ id ∈ simple.ids, simple.refCount id = plan.refCount id) ∧
    ({} : Simplifier).simplify simple = simple ∧
    ∀ n, 1 ≤ n → (copies n).simplify plan = simple := by
  intro simple
  have h : plan.WellOrdered := ⟨hnodup, (validate_eq_ok_iff hnodup).mp hvalid⟩
  obtain ⟨k, hinlines⟩ : ∃ k, Inlines k plan simple := inlines_simplify h 1
  have hnormal : simple.singleUseChecks = [] := singleUseChecks_simplify h (Nat.le_refl 1)
  exact ⟨(hinlines.wellOrdered h).validate_eq_ok,
    fun s hs hcheck => refCount_ne_one_of_mem_simplify h (Nat.le_refl 1) hs hcheck,
    fun id hid => hinlines.refCount_eq h hid, simplify_of_normal hnormal 1,
    fun n hn => simplify_copies h hn⟩

/-- Inlining the first step into the second, which opens with a reference, makes this a check. -/
def openingReference : Plan :=
  [⟨0, [.text checkPhrase, .text checkPhrase, .text "x equals 1"]⟩,
    ⟨1, [.ref 0, .text "holds"]⟩,
    ⟨2, [.text "Use", .ref 1, .text ",", .text "y"]⟩]

theorem simplify_normalizes_openingReference :
    let simple := ({} : Simplifier).simplify openingReference
    openingReference.ids.Nodup ∧ openingReference.validate = .ok () ∧
    simple.validate = .ok () ∧
    (∀ s ∈ simple, s.isCheck = true → simple.refCount s.id ≠ 1) ∧
    (∀ id ∈ simple.ids, simple.refCount id = openingReference.refCount id) ∧
    ({} : Simplifier).simplify simple = simple ∧
    ∀ n, 1 ≤ n → (copies n).simplify openingReference = simple :=
  ⟨by decide, rfl, simplify_normalizes (by decide) rfl⟩

example : ({} : Simplifier).simplify openingReference =
    [⟨2, [.text "Use", .text "(", .text "x equals 1", .text "holds", .text ")", .text ",",
      .text "y"]⟩] := by
  cbv

end Simplifier

end QuerySteps
