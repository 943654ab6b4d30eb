import QuerySteps.Planner
import QuerySteps.Proofs.Plan.Inlining
import QuerySteps.Proofs.Translate.Numbering
import QuerySteps.Proofs.Translate.Outcome

/-!
# Planning queries

The plan of a query is sound from the translation on: consecutive steps are well-ordered, and the
simplifier, the prologue and the interlude keep plans so. The check at the end of planning therefore
never fails, and a query is refused only where it is not supported.
-/

namespace QuerySteps

open Sql Plan

/-- The translation of a query in a session of its own holds each identifier that it took once, in
display order from 0 on, and every step refers to smaller identifiers only. -/
theorem draft_ids_eq_range (s : Settings) (q : Query) (r : Drafted Label)
    (h : q.draft s 0 = .ok r) :
    Plan.ids r.steps = List.range r.next ∧
      ∀ i (hi : i < r.steps.length), ∀ id ∈ r.steps[i].refs, id < i := by
  obtain ⟨hs, -⟩ := (Sql.hereditary_orderly s).query q 0 r h
  have hnext : r.next = r.steps.length := by rw [hs.next_eq, Nat.zero_add]
  have hids : Plan.ids r.steps = List.range r.next := by
    rw [hs.ids, hnext, List.range_eq_range']
  refine ⟨hids, fun i hi id hid => ?_⟩
  have hlt := hs.refs_lt _ (List.getElem_mem hi) id hid
  have hpos : r.steps[i].id = i := by
    have := List.getElem_map (f := Step.id) (l := r.steps) (h := by simpa using hi)
    simp only [Plan.ids] at hids
    simp only [hids, List.getElem_range] at this
    exact this.symm
  rwa [hpos] at hlt

/-- `SELECT x FROM a LEFT JOIN (SELECT * FROM u WHERE x > 1) AS b ON a.x = b.x WHERE x IN (SELECT *
FROM u WHERE x > 1)`. -/
def nestedJoin : Query :=
  let x (table : Option Name) : Expr := .column { table, name := ⟨"x", false⟩ }
  let inner : Query := .ofSelect
    { projection := [.all]
      sources := [{ relation := .table [⟨"u", false⟩] none }]
      condition := some (.binary (x none) .gt (.literal (.number "1"))) }
  .ofSelect
    { projection := [.expr (x none) none]
      sources := [
        { relation := .table [⟨"a", false⟩] none
          joins := [
            { relation := .derived inner (some ⟨"b", false⟩)
              kind := .left
              constraint := .on (.binary (x (some ⟨"a", false⟩)) .eq (x (some ⟨"b", false⟩))) }] }]
      condition := some (.inQuery (x none) inner false) }

theorem draft_ids_eq_range_nestedJoin : ∃ r, nestedJoin.draft {} 0 = .ok r ∧
    Plan.ids r.steps = List.range r.next ∧
    ∀ i (hi : i < r.steps.length), ∀ id ∈ r.steps[i].refs, id < i := by
  obtain ⟨-, r, -, h, -⟩ | ⟨hn, -⟩ := hereditary_settled.query nestedJoin {} {} 0 0
  · exact ⟨r, h, draft_ids_eq_range {} nestedJoin r h⟩
  · exact absurd rfl hn

theorem Consecutive.backward {first next : StepId} {steps : List Step} {known : List StepId}
    (h : Consecutive first steps next) (hk : ∀ id, id < first → id ∈ known) :
    Backward known steps := by
  induction steps generalizing first known with
  | nil => trivial
  | cons s rest ih =>
    have hids := h.ids
    rw [ids_cons, List.length_cons, List.range'_succ, List.cons.injEq] at hids
    have hrest : Consecutive (first + 1) rest next := by
      refine ⟨hids.2, ?_, fun t ht => h.refs_lt t (List.mem_cons_of_mem _ ht)⟩
      rw [h.next_eq, List.length_cons, Nat.add_assoc, Nat.add_comm 1]
    refine ⟨fun id hid => hk id ?_, ih hrest fun id hid => ?_⟩
    · rw [← hids.1]
      exact h.refs_lt s (List.mem_cons_self ..) id hid
    · rcases Nat.lt_succ_iff_lt_or_eq.mp hid with hlt | rfl
      · exact List.mem_cons_of_mem _ (hk id hlt)
      · rw [hids.1]
        exact List.mem_cons_self ..

theorem Consecutive.sound {steps : List Step} {next : StepId} (h : Consecutive 0 steps next) :
    Sheet.Sound ⟨next, steps⟩ where
  ordered := by
    refine ⟨?_, h.backward fun id hid => absurd hid (Nat.not_lt_zero id)⟩
    rw [h.ids]
    exact List.nodup_range'
  lt_issued id hid := by
    rw [h.ids, List.mem_range'_1] at hid
    rw [h.next_eq]
    exact hid.2

namespace Planner

theorem orderly_draft (s : Settings) (q : Query) : (draft s q).Orderly := by
  intro n
  refine .bind ((hereditary_orderly s).query q n) fun rows m _ hr => .step ?_
  simpa using hr

theorem sound_steps {s : Settings} {q : Query} {sheet : Sheet} (h : steps s q = .ok sheet) :
    sheet.Sound := by
  unfold steps at h
  split at h
  · cases h
  · rename_i written hw
    cases h
    exact (orderly_draft s q 0 written hw).1.sound

/-- Everything that happens to a plan after its translation keeps it sound. -/
theorem sound_finish {p : Planner} (hr : ∀ rule ∈ p.simplifier.rules, Simplifier.Orderly rule)
    {sheet : Sheet} (h : sheet.Sound) : (p.finish sheet).Sound := by
  have hsimplified :
      (if p.settings.simplify then sheet.simplify p.simplifier else sheet).Sound := by
    split
    · exact h.simplify hr
    · exact h
  have hprologue := hsimplified.prependAll p.settings.prologue
  unfold finish
  cases p.settings.interlude with
  | none => exact hprologue
  | some words => exact hprologue.intersperse words

/-- With orderly rules, planning fails only if translating does. -/
theorem planQuery_eq {p : Planner} (hr : ∀ rule ∈ p.simplifier.rules, Simplifier.Orderly rule)
    (q : Query) : p.planQuery q = (steps p.settings q).map p.finish := by
  unfold planQuery
  cases h : steps p.settings q with
  | error e => rfl
  | ok sheet =>
    have hvalid := (sound_finish hr (sound_steps h)).ordered.validate_eq_ok
    simp only [bind, Except.bind, hvalid]
    rfl

theorem orderly_default {s : Settings} :
    ∀ rule ∈ ({ settings := s } : Planner).simplifier.rules, Simplifier.Orderly rule := by
  intro rule hr
  rw [List.mem_singleton.mp hr]
  exact Simplifier.orderly_inlineChecks

theorem alike_write (s s' : Settings) (rows rows' : Label) :
    Draft.Alike True (write s rows) (write s' rows') := by
  have hwrite (s : Settings) (rows : Label) :
      (Label.text ("Write to " ++ s.sink ++ " the") ++ rows).saysCheck = false := by
    refine Label.saysCheck_eq_false rfl ?_
    rw [String.append_assoc]
    exact append_ne (by decide) _
  exact .step ((hwrite s rows).trans (hwrite s' rows').symm)

theorem alike_draft (s s' : Settings) (q : Query) :
    Draft.Alike (q.supported = true) (draft s q) (draft s' q) :=
  .andThen (hereditary_settled.query q s s') fun rows rows' _ => alike_write s s' rows rows'

theorem exists_plan_iff {s : Settings} {q : Query} :
    (∃ sheet, Planner.planQuery { settings := s } q = .ok sheet) ↔ q.supported = true := by
  rw [planQuery_eq orderly_default, steps]
  obtain ⟨hq, r, -, hr, -⟩ | ⟨hq, e, -, he, -⟩ := alike_draft s s q 0 0
  · rw [hr]
    exact iff_of_true ⟨_, rfl⟩ hq
  · rw [he]
    exact iff_of_false nofun hq

/-- A query is planned exactly if it is supported; otherwise it is refused. Which of the two, and
with which error, does not depend on the settings. -/
theorem planQuery_outcome (q : Query) :
    (q.supported = true ∧
      ∀ s : Settings, ∃ sheet, Planner.planQuery { settings := s } q = .ok sheet) ∨
    (q.supported = false ∧ ∃ e : PlanError, e.isRefusal = true ∧
      ∀ s : Settings, Planner.planQuery { settings := s } q = .error e) := by
  simp only [planQuery_eq orderly_default]
  cases hq : q.supported with
  | true =>
    refine .inl ⟨rfl, fun s => ?_⟩
    obtain ⟨-, -, written, -, hw, -⟩ | ⟨hn, -⟩ := alike_draft s s q 0 0
    · exact ⟨_, by rw [steps, hw]; rfl⟩
    · exact absurd hq hn
  | false =>
    have hn : ¬ q.supported = true := by simp [hq]
    obtain ⟨hs, -⟩ | ⟨-, e, he, hfail, -⟩ := alike_draft {} {} q 0 0
    · exact absurd hs hn
    · refine .inr ⟨rfl, e, he, fun s => ?_⟩
      obtain ⟨hs, -⟩ | ⟨-, e', -, hfirst, hsecond⟩ := alike_draft {} s q 0 0
      · exact absurd hs hn
      · rw [hfail] at hfirst
        cases hfirst
        rw [steps, hsecond]
        rfl

end Planner

end QuerySteps
