import QuerySteps.Proofs.Plan.Unfolding

/-!
# What simplified steps read

A plan whose checks are all used once simplifies to its other steps, with the conditions of the
checks written in the places of the references. A condition is itself written out first, since a
check comes before its user. What is put around it depends on where it is written
(`Step.Shapes`):

* in a condition it is grouped if it chains conditions with `and` or `or`;
* in a step that lists things it is enclosed in any case;
* in any other step that uses a single check it stands as it is.

`Conditions.Describe` says by one equation for each check what the finished conditions are, so that
no later proof has to follow the pass. `Written` is the state of the pass after some of the checks.
-/

namespace QuerySteps

/-- What is known of the conditions of checks, written out; other steps have none. -/
abbrev Conditions := StepId → Option (List Part)

namespace Part

def enclosed (body : List Part) : List Part :=
  .text "(" :: body ++ [.text ")"]

/-- The fragments, between parentheses if they chain conditions. -/
def grouped (body : List Part) : List Part :=
  if haveConnective body then enclosed body else body

theorem grouped_of_haveConnective {body : List Part} (h : haveConnective body = true) :
    grouped body = enclosed body := if_pos h

theorem grouped_of_not_haveConnective {body : List Part} (h : haveConnective body = false) :
    grouped body = body := by simp [grouped, h]

/-- The fragment, with a condition of the given shape in the place of a reference. -/
def write (shape : List Part → List Part) (c : Conditions) : Part → List Part
  | .text words => [.text words]
  | .ref id => (c id).elim [.ref id] shape

variable {shape : List Part → List Part} {c c' : Conditions} {parts : List Part}

@[simp] theorem flatMap_write_text (words : String) (parts : List Part) :
    (.text words :: parts).flatMap (write shape c) =
      .text words :: parts.flatMap (write shape c) := rfl

@[simp] theorem filterMap_ref?_enclosed (body : List Part) :
    (enclosed body).filterMap ref? = body.filterMap ref? := by
  simp [enclosed]

@[simp] theorem filterMap_ref?_grouped (body : List Part) :
    (grouped body).filterMap ref? = body.filterMap ref? := by
  unfold grouped
  split <;> simp

theorem write_congr (h : ∀ id ∈ parts.filterMap ref?, c id = c' id) :
    parts.flatMap (write shape c) = parts.flatMap (write shape c') := by
  refine List.flatMap_congr fun p hp => ?_
  cases p with
  | text words => rfl
  | ref id => simp only [write, h id (mem_filterMap_ref?.mpr hp)]

theorem flatMap_write_of_none (h : ∀ id ∈ parts.filterMap ref?, c id = none) :
    parts.flatMap (write shape c) = parts := by
  induction parts with
  | nil => rfl
  | cons p rest ih =>
    have hrest : ∀ id ∈ rest.filterMap ref?, c id = none := fun id hid =>
      h id (((List.sublist_cons_self p rest).filterMap ref?).mem hid)
    cases p with
    | text words => rw [flatMap_write_text, ih hrest]
    | ref id => simp [write, h id (by simp), ih hrest]

theorem mem_refs_write (hshape : ∀ body, (shape body).filterMap ref? = body.filterMap ref?)
    {id : StepId} : id ∈ (parts.flatMap (write shape c)).filterMap ref? ↔
      (id ∈ parts.filterMap ref? ∧ c id = none) ∨
      ∃ id' ∈ parts.filterMap ref?, ∃ body, c id' = some body ∧ id ∈ body.filterMap ref? := by
  induction parts with
  | nil => simp
  | cons p rest ih =>
    cases p with
    | text words => rw [flatMap_write_text, filterMap_ref?_text, filterMap_ref?_text, ih]
    | ref id' =>
      rw [List.flatMap_cons, List.filterMap_append, List.mem_append, ih, filterMap_ref?_ref]
      cases hc : c id' with
      | none => grind [write, ref?]
      | some body =>
        have hwrite : write shape c (.ref id') = shape body := by simp [write, hc]
        rw [hwrite, hshape]
        grind

theorem haveList_write (h : haveList parts = true) :
    haveList (parts.flatMap (write shape c)) = true := by
  simp only [haveList, List.any_eq_true] at h ⊢
  obtain ⟨p, hp, hmark⟩ := h
  refine ⟨p, List.mem_flatMap.mpr ⟨p, hp, ?_⟩, hmark⟩
  cases p with
  | text words => exact List.mem_singleton_self _
  | ref id => simp at hmark

end Part

open QuerySteps.Part

/-- The condition of a check, with the known conditions written in. -/
def Step.condition? (c : Conditions) (s : Step) : Option (List Part) :=
  if s.isCheck then some (s.parts.tail.flatMap (write grouped c)) else none

namespace Conditions

/-- The conditions are those of the steps, each with the others written in. -/
def Describe (c : Conditions) (steps : List Step) : Prop :=
  ∀ s ∈ steps, c s.id = s.condition? c

def upTo (c : Conditions) (done : List StepId) : Conditions :=
  fun id => if id ∈ done then c id else none

variable {c : Conditions} {done : List StepId} {target : StepId} {body : List Part}

theorem condition?_congr {c' : Conditions} {s : Step} (h : ∀ id ∈ s.refs, c id = c' id) :
    s.condition? c = s.condition? c' := by
  unfold Step.condition?
  rw [write_congr fun id hid => h id ((s.parts.tail_sublist.filterMap _).mem hid)]

theorem Describe.refs_free {known : List StepId} {steps : List Step} (hd : c.Describe steps)
    (hb : Plan.Backward known steps)
    (hk : ∀ id ∈ known, ∀ body, c id = some body → ∀ r ∈ body.filterMap ref?, c r = none) :
    ∀ id ∈ steps.map (·.id), ∀ body, c id = some body → ∀ r ∈ body.filterMap ref?, c r = none := by
  induction steps generalizing known with
  | nil => simp
  | cons s rest ih =>
    obtain ⟨hs, hrest⟩ := List.forall_mem_cons.mp hd
    obtain ⟨hrefs, hback⟩ := hb
    have hself : ∀ body, c s.id = some body → ∀ r ∈ body.filterMap ref?, c r = none := by
      intro body hbody r hr
      rw [hs, Step.condition?] at hbody
      split at hbody
      · cases hbody
        obtain ⟨-, hnone⟩ | ⟨id, hid, inner, hinner, hr⟩ :=
          (mem_refs_write filterMap_ref?_grouped).mp hr
        · exact hnone
        · have hmem := (s.parts.tail_sublist.filterMap _).mem hid
          exact hk id (hrefs id hmem) inner hinner r hr
      · cases hbody
    have hall := ih hrest hback fun id hid => by
      rcases List.mem_cons.mp hid with rfl | hid
      · exact hself
      · exact hk id hid
    exact List.forall_mem_cons.mpr ⟨hself, hall⟩

/-- Writing one more condition after those that are done. -/
theorem write_upTo_append {shape : List Part → List Part} {parts : List Part}
    (hshape : ∀ body, (shape body).filterMap ref? = body.filterMap ref?)
    (hfree : ∀ id ∈ done, ∀ body, c id = some body → ∀ r ∈ body.filterMap ref?, c r = none)
    (hbody : c target = some body) :
    (parts.flatMap (write shape (c.upTo done))).flatMap (write shape (c.upTo [target])) =
      parts.flatMap (write shape (c.upTo (done ++ [target]))) := by
  rw [List.flatMap_assoc]
  refine List.flatMap_congr fun p _ => ?_
  cases p with
  | text words => rfl
  | ref id =>
    by_cases hdone : id ∈ done
    · cases hc : c id with
      | none =>
        have hne : id ≠ target := by
          rintro rfl
          rw [hc] at hbody
          cases hbody
        simp [write, upTo, hdone, hc]
      | some inner =>
        have hnone : ∀ r ∈ (shape inner).filterMap ref?, c.upTo [target] r = none := by
          intro r hr
          rw [hshape] at hr
          simp [upTo, hfree id hdone inner hc r hr]
        have hwrite : write shape (c.upTo done) (.ref id) = shape inner := by
          simp [write, upTo, hdone, hc]
        rw [hwrite, flatMap_write_of_none hnone]
        simp [write, upTo, hdone, hc]
    · simp [write, upTo, hdone]

end Conditions

namespace Plan

open Conditions

/-! ## The conditions of a plan -/

def conditionsFrom (c : Conditions) (steps : List Step) : Conditions :=
  steps.foldl (fun c s => Function.update c s.id (s.condition? c)) c

def conditions (plan : Plan) : Conditions :=
  conditionsFrom (fun _ => none) plan

variable {c : Conditions}

theorem conditionsFrom_of_notMem {steps : List Step} {id : StepId} (h : id ∉ ids steps) :
    conditionsFrom c steps id = c id := by
  induction steps generalizing c with
  | nil => rfl
  | cons s rest ih =>
    obtain ⟨hne, hrest⟩ := not_or.mp (List.mem_cons.not.mp h)
    rw [conditionsFrom, List.foldl_cons, ← conditionsFrom, ih hrest, Function.update_of_ne hne]

theorem describe_conditionsFrom {known : List StepId} {steps : List Step}
    (hnd : (ids steps).Nodup) (hb : Backward known steps) (hk : ∀ id ∈ known, id ∉ ids steps) :
    (conditionsFrom c steps).Describe steps := by
  induction steps generalizing c known with
  | nil => simp [Describe]
  | cons s rest ih =>
    obtain ⟨hnotin, hnd⟩ := List.nodup_cons.mp hnd
    obtain ⟨hrefs, hback⟩ := hb
    rw [conditionsFrom, List.foldl_cons, ← conditionsFrom]
    refine List.forall_mem_cons.mpr ⟨?_, ih hnd hback fun id hid => ?_⟩
    · -- What the step refers to was known before it and does not change any more.
      rw [conditionsFrom_of_notMem hnotin, Function.update_self]
      refine condition?_congr fun id hid => ?_
      obtain ⟨hne, hrest⟩ := not_or.mp (List.mem_cons.not.mp (hk id (hrefs id hid)))
      rw [conditionsFrom_of_notMem hrest, Function.update_of_ne hne]
    · rcases List.mem_cons.mp hid with rfl | hid
      · exact hnotin
      · exact fun hmem => hk id hid (List.mem_cons_of_mem _ hmem)

/-- The conditions of a plan are those of its checks, with one another written in. -/
theorem WellOrdered.describe_conditions {plan : Plan} (h : plan.WellOrdered) :
    plan.conditions.Describe plan :=
  describe_conditionsFrom h.nodup h.backward (by simp)

/-! ## A pass that is not finished -/

end Plan

/-- How a step puts conditions in the places of references. Of a step that is neither a check nor a
list it is only known if it uses one check. -/
inductive Step.Shapes (c : Conditions) (s : Step) : (List Part → List Part) → Prop where
  | condition (h : s.isCheck = true) : s.Shapes c grouped
  | list (h : s.isCheck = false) (hlist : haveList s.parts = true) : s.Shapes c enclosed
  | single (h : s.isCheck = false) (hlist : haveList s.parts = false)
      (hone : ∀ id ∈ s.refs, ∀ id' ∈ s.refs, c id ≠ none → c id' ≠ none → id = id') :
      s.Shapes c fun body => body

theorem Step.Shapes.filterMap_ref? {c : Conditions} {s : Step} {shape : List Part → List Part}
    (h : s.Shapes c shape) (body : List Part) :
    (shape body).filterMap Part.ref? = body.filterMap Part.ref? := by
  cases h with
  | condition => exact filterMap_ref?_grouped body
  | list => exact filterMap_ref?_enclosed body
  | single => rfl

namespace Plan

open Conditions

/-- The plan is on its way from `old`: the checks of `done` are gone, and their conditions are
written in the steps that are left. -/
structure Written (c : Conditions) (done : List StepId) (old plan : Plan) : Prop where
  ordered : plan.WellOrdered
  text : ∀ t ∈ plan, t.beginsWithText = true
  gone : ∀ id ∈ done, c id ≠ none → id ∉ ids plan
  parts : ∀ t ∈ plan, ∃ s ∈ old, s.id = t.id ∧ s.isCheck = t.isCheck ∧
    ∀ shape, s.Shapes c shape → t.parts = s.parts.flatMap (write shape (c.upTo done))

variable {c : Conditions} {old plan : Plan} {done : List StepId} {target : StepId}

theorem WellOrdered.written (h : old.WellOrdered) (htext : ∀ s ∈ old, s.beginsWithText = true) :
    Written c [] old old where
  ordered := h
  text := htext
  gone := by simp
  parts t ht := by
    refine ⟨t, ht, rfl, rfl, fun shape _ => ?_⟩
    exact (flatMap_write_of_none (by simp [upTo])).symm

theorem SingleUse.body_eq (u : plan.SingleUse target) {s : Step}
    {shape : List Part → List Part} (hs : s.Shapes c shape) (hcheck : s.isCheck = u.user.isCheck)
    (hparts : u.user.parts = s.parts.flatMap (write shape (c.upTo done)))
    (hfresh : c target ≠ none) (hdone : target ∉ done) (htarget : target ∈ s.refs) :
    u.body = shape u.check.parts.tail := by
  unfold body inlineBody
  cases hs with
  | condition h => simp [← hcheck, h, grouped, enclosed]
  | list h hlist =>
    have hl : haveList u.user.parts = true := by rw [hparts, haveList_write hlist]
    simp [← hcheck, h, hl, enclosed]
  | single h hlist hone =>
    -- The only check that the step uses is still there, so nothing is written in it so far.
    have hsame : u.user.parts = s.parts := by
      rw [hparts]
      refine flatMap_write_of_none fun id hid => ?_
      by_cases hc : c id = none
      · simp [upTo, hc]
      · rw [hone id hid target htarget hc hfresh]
        simp [upTo, hdone]
    simp [← hcheck, h, hsame, hlist]

theorem Written.mem_refs_iff {s t : Step} {shape : List Part → List Part}
    (hfree : ∀ id, ∀ body, c id = some body → ∀ r ∈ body.filterMap ref?, c r = none)
    (hsome : c target ≠ none) (hdone : target ∉ done) (hs : s.Shapes c shape)
    (heq : t.parts = s.parts.flatMap (write shape (c.upTo done))) :
    target ∈ t.refs ↔ target ∈ s.refs := by
  rw [Step.refs, Step.refs, heq, mem_refs_write hs.filterMap_ref?]
  constructor
  · rintro (⟨h, -⟩ | ⟨id, -, body, hid, hmem⟩)
    · exact h
    · simp only [upTo] at hid
      split at hid
      · exact absurd (hfree id body hid target hmem) hsome
      · cases hid
  · exact fun h => .inl ⟨h, by simp [upTo, hdone]⟩

theorem write_upTo_singleton {parts : List Part} (h : target ∉ parts.filterMap ref?)
    (shape : List Part → List Part) : parts.flatMap (write shape (c.upTo [target])) = parts := by
  refine flatMap_write_of_none fun id hmem => ?_
  have hne : id ≠ target := by
    rintro rfl
    exact h hmem
  simp [upTo, hne]

/-- Inlining the next check writes its condition. -/
theorem Written.inlined (hw : Written c done old plan) (u : plan.SingleUse target)
    (hfree : ∀ id, ∀ body, c id = some body → ∀ r ∈ body.filterMap ref?, c r = none)
    (hbody : c target = some u.check.parts.tail) (hdone : target ∉ done) :
    Written c (done ++ [target]) old u.inlined where
  ordered := u.wellOrdered hw.ordered
  text := u.beginsWithText_inlined hw.text
  gone id hid hc := by
    rcases List.mem_append.mp hid with hid | hid
    · have hnotin := hw.gone id hid hc
      rw [u.ids_eq] at hnotin
      rw [u.ids_inlined]
      grind
    · rw [List.mem_singleton.mp hid]
      exact u.target_notMem_ids hw.ordered.nodup
  parts t ht := by
    have hsome : c target ≠ none := by simp [hbody]
    obtain ⟨ht, hunused⟩ | rfl := u.mem_inlined_cases ht
    · obtain ⟨s, hs, hid, hcheck, hparts⟩ := hw.parts t ht
      refine ⟨s, hs, hid, hcheck, fun shape hshape => ?_⟩
      have href := mem_refs_iff hfree hsome hdone hshape (hparts shape hshape)
      rw [hparts shape hshape]
      refine write_congr fun id hmem => ?_
      have hne : id ≠ target := by
        rintro rfl
        exact hunused (href.mpr hmem)
      simp [upTo, hne]
    · have huser := hw.text _ u.mem_user
      obtain ⟨s, hs, hid, hcheck, hparts⟩ := hw.parts _ u.mem_user
      refine ⟨s, hs, hid, hcheck.trans (u.isCheck_merged huser).symm, fun shape hshape => ?_⟩
      have huserparts := hparts shape hshape
      have htarget : target ∈ s.refs := by
        rw [← mem_refs_iff hfree hsome hdone hshape huserparts, Step.refs, u.parts_eq]
        simp
      have hb := u.body_eq hshape hcheck huserparts hsome hdone htarget
      obtain ⟨-, hleft, hright, -⟩ := u.unused
      rw [← write_upTo_append hshape.filterMap_ref? (fun id _ => hfree id) hbody, ← huserparts,
        u.parts_eq, List.flatMap_append, List.flatMap_cons, write_upTo_singleton hleft,
        write_upTo_singleton hright]
      simp [SingleUse.merged, hb, write, upTo, hbody]

theorem Written.condition_eq {pre rest : Plan} {s t : Step}
    (hw : Written c (ids pre) (pre ++ s :: rest) plan) (h : (pre ++ s :: rest).WellOrdered)
    (hd : c.Describe (pre ++ s :: rest)) (hcheck : s.isCheck = true) (ht : t ∈ plan)
    (hid : t.id = s.id) : c s.id = some t.parts.tail := by
  have hmem : s ∈ pre ++ s :: rest := by simp
  obtain ⟨s', hs', hid', -, hparts⟩ := hw.parts t ht
  obtain rfl : s' = s := List.inj_on_of_nodup_map h.nodup hs' hmem (hid'.trans hid)
  rw [hd s' hmem, Step.condition?, if_pos hcheck, hparts _ (.condition hcheck)]
  obtain ⟨tail, htail⟩ := Step.isCheck_iff.mp hcheck
  rw [htail, flatMap_write_text, List.tail_cons, List.tail_cons]
  refine congrArg some (write_congr fun id hrefs => ?_)
  have hknown := (backward_append.mp h.backward).2.1 id (by simpa [Step.refs, htail] using hrefs)
  rw [List.append_nil] at hknown
  simp [upTo, hknown]

theorem Written.skip {pre rest : Plan} {s : Step}
    (hw : Written c (ids pre) (pre ++ s :: rest) plan) (hnone : c s.id = none) :
    Written c (ids (pre ++ [s])) (pre ++ s :: rest) plan where
  ordered := hw.ordered
  text := hw.text
  gone id hid hc := by
    rw [ids_append, List.mem_append] at hid
    rcases hid with hid | hid
    · exact hw.gone id hid hc
    · simp only [ids_cons, ids_nil, List.mem_singleton] at hid
      exact absurd (hid ▸ hnone) hc
  parts := by
    have hsame : c.upTo (ids (pre ++ [s])) = c.upTo (ids pre) := by
      funext id
      by_cases hid : id = s.id
      · simp [upTo, hid, hnone]
      · simp [upTo, hid]
    rw [hsame]
    exact hw.parts

/-- A pass over the checks of the rest of a plan writes them all. -/
theorem Written.inlineEach {pre post : Plan} (hw : Written c (ids pre) (pre ++ post) plan)
    (h : (pre ++ post).WellOrdered) (hd : c.Describe (pre ++ post))
    (hfree : ∀ id, ∀ body, c id = some body → ∀ r ∈ body.filterMap ref?, c r = none)
    (hu : ∀ s ∈ post, s.isCheck = true → plan.UsedOnce s.id) :
    Written c (ids (pre ++ post)) (pre ++ post)
      (plan.inlineEach (ids (post.filter (·.isCheck)))).plan := by
  induction post generalizing pre plan with
  | nil => simpa [Plan.inlineEach] using hw
  | cons s rest ih =>
    have hsplit : pre ++ s :: rest = (pre ++ [s]) ++ rest := by simp
    obtain ⟨hus, hurest⟩ := List.forall_mem_cons.mp hu
    have hnodup := h.nodup
    rw [ids_append, ids_cons, List.nodup_append, List.nodup_cons] at hnodup
    obtain ⟨-, ⟨hlater, -⟩, hearlier⟩ := hnodup
    by_cases hcheck : s.isCheck = true
    · obtain ⟨u⟩ := hw.ordered.singleUse (hus hcheck)
      have hnext := hw.inlined u hfree (hw.condition_eq h hd hcheck u.mem_check u.id_eq)
        fun hm => hearlier s.id hm s.id (List.mem_cons_self ..) rfl
      have hids : ids pre ++ [s.id] = ids (pre ++ [s]) := by simp
      rw [List.filter_cons_of_pos hcheck, ids_cons, Plan.inlineEach,
        u.inlineCheck_eq hw.ordered.nodup]
      rw [hids, hsplit] at hnext
      rw [hsplit] at h hd ⊢
      refine ih hnext h hd fun t ht htcheck => u.usedOnce_of_ne ?_ (hurest t ht htcheck)
      exact fun heq => hlater (heq ▸ List.mem_map_of_mem ht)
    · have hnone : c s.id = none := by rw [hd s (by simp), Step.condition?, if_neg hcheck]
      have hnext := hw.skip hnone
      rw [List.filter_cons_of_neg hcheck]
      rw [hsplit] at hnext h hd ⊢
      exact ih hnext h hd hurest

/-! ## The simplified plan -/

/-- Every check can be written into its only user. -/
structure Inlinable (plan : Plan) : Prop where
  ordered : plan.WellOrdered
  text : ∀ s ∈ plan, s.beginsWithText = true
  once : ∀ s ∈ plan, s.isCheck = true → plan.refCount s.id = 1

theorem Inlinable.written_inlineChecks {plan : Plan} (h : plan.Inlinable) :
    Written plan.conditions (ids plan) plan plan.inlineChecks.plan := by
  have hd := h.ordered.describe_conditions
  have hfree : ∀ id, ∀ body, plan.conditions id = some body →
      ∀ r ∈ body.filterMap ref?, plan.conditions r = none := by
    intro id body hbody
    by_cases hid : id ∈ ids plan
    · exact hd.refs_free h.ordered.backward (by simp) id hid body hbody
    · rw [conditions, conditionsFrom_of_notMem hid] at hbody
      cases hbody
  have htargets : plan.singleUseChecks = ids (plan.filter (·.isCheck)) := by
    refine congrArg ids (List.filter_congr fun s hs => ?_)
    cases hcheck : s.isCheck with
    | false => rfl
    | true => simp [h.once s hs hcheck]
  have hstart : Written plan.conditions (ids []) ([] ++ plan) plan := h.ordered.written h.text
  rw [inlineChecks, htargets]
  exact hstart.inlineEach h.ordered hd hfree
    fun s hs hcheck => ⟨⟨s, hs, rfl, hcheck⟩, h.once s hs hcheck⟩

/-- Nothing is left to do after one pass. -/
theorem Inlinable.simplify_eq {plan : Plan} (h : plan.Inlinable) :
    ({} : Simplifier).simplify plan = plan.inlineChecks.plan := by
  have hpass := h.written_inlineChecks
  have hnormal : plan.inlineChecks.plan.singleUseChecks = [] := by
    refine List.eq_nil_iff_forall_not_mem.mpr fun id hid => ?_
    obtain ⟨⟨t, ht, rfl, hcheck⟩, -⟩ := mem_singleUseChecks.mp hid
    obtain ⟨s, hs, hsid, hscheck, -⟩ := hpass.parts t ht
    refine hpass.gone t.id (hsid ▸ List.mem_map_of_mem hs) ?_ (List.mem_map_of_mem ht)
    rw [← hsid, h.ordered.describe_conditions s hs, Step.condition?,
      if_pos (hscheck.trans hcheck)]
    exact Option.some_ne_none _
  exact (Simplifier.simplify_inlineChecks h.ordered).symm.trans
    (Simplifier.simplify_of_normal hnormal 1)

/-- Simplifying a plan that uses each of its checks once writes all conditions. -/
theorem Inlinable.written_simplify {plan : Plan} (h : plan.Inlinable) :
    Written plan.conditions (ids plan) plan (({} : Simplifier).simplify plan) := by
  rw [h.simplify_eq]
  exact h.written_inlineChecks

theorem Inlinable.ids_simplify {plan : Plan} (h : plan.Inlinable) :
    ids (({} : Simplifier).simplify plan) = ids (plan.filter (!·.isCheck)) := by
  obtain ⟨k, hinlines⟩ : ∃ k, Inlines k plan (({} : Simplifier).simplify plan) :=
    Simplifier.inlines_simplify h.ordered 1
  have hw := h.written_simplify
  have hleft : ∀ s ∈ plan, (s.id ∈ ids (({} : Simplifier).simplify plan) ↔ s.isCheck = false) := by
    intro s hs
    cases hcheck : s.isCheck with
    | true =>
      refine iff_of_false (hw.gone s.id (List.mem_map_of_mem hs) ?_) (by simp)
      rw [h.ordered.describe_conditions s hs, Step.condition?, if_pos hcheck]
      exact Option.some_ne_none _
    | false =>
      refine iff_of_true (by_contra fun hgone => ?_) rfl
      have := (hinlines.usedOnce_of_notMem h.ordered h.text hs hgone).1
      rw [hcheck] at this
      cases this
  -- Both lists hold the same identifiers, each once, in the order of the plan.
  have hkept : (ids plan).filter (· ∈ ids (({} : Simplifier).simplify plan)) =
      ids (plan.filter (!·.isCheck)) := by
    show ((plan.map (·.id)).filter _) = _
    rw [List.filter_map]
    refine congrArg ids (List.filter_congr fun s hs => ?_)
    have hiff := hleft s hs
    cases hcheck : s.isCheck <;> simp_all
  have hsub := hinlines.sublist_ids.filter (· ∈ ids (({} : Simplifier).simplify plan))
  rw [List.filter_eq_self.mpr (by simp), hkept] at hsub
  refine hsub.eq_of_length (List.Perm.length_eq ?_)
  rw [← hkept, List.perm_ext_iff_of_nodup (h.ordered.nodup.sublist hinlines.sublist_ids)
    (h.ordered.nodup.sublist List.filter_sublist)]
  intro id
  simp only [List.mem_filter, decide_eq_true_eq]
  exact ⟨fun hid => ⟨hinlines.sublist_ids.mem hid, hid⟩, And.right⟩

/-- A step that is no check is left, with the conditions written in its shape. -/
theorem Inlinable.mem_simplify {plan : Plan} (h : plan.Inlinable) {s : Step} (hs : s ∈ plan)
    (hcheck : s.isCheck = false) {shape : List Part → List Part}
    (hshape : s.Shapes plan.conditions shape) :
    ⟨s.id, s.parts.flatMap (write shape plan.conditions)⟩ ∈ ({} : Simplifier).simplify plan := by
  have hw := h.written_simplify
  have hmem : s.id ∈ ids (({} : Simplifier).simplify plan) := by
    rw [h.ids_simplify]
    exact List.mem_map_of_mem (List.mem_filter.mpr ⟨hs, by simp [hcheck]⟩)
  obtain ⟨⟨id, parts⟩, ht, hid⟩ := List.mem_map.mp hmem
  obtain rfl : id = s.id := hid
  obtain ⟨s', hs', hid', -, hparts⟩ := hw.parts _ ht
  obtain rfl : s' = s := List.inj_on_of_nodup_map h.ordered.nodup hs' hs hid'
  have hall : parts = s'.parts.flatMap (write shape (plan.conditions.upTo (ids plan))) :=
    hparts shape hshape
  have hsame : s'.parts.flatMap (write shape (plan.conditions.upTo (ids plan))) =
      s'.parts.flatMap (write shape plan.conditions) := by
    refine write_congr fun id _ => ?_
    by_cases hid : id ∈ ids plan
    · simp [upTo, hid]
    · simp [upTo, hid, conditions, conditionsFrom_of_notMem hid]
  rwa [hall, hsame] at ht

end Plan

end QuerySteps
