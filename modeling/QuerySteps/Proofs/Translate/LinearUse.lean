import Mathlib.Algebra.Ring.Nat
import QuerySteps.Proofs.Plan.Unfolding
import QuerySteps.Proofs.Syntax.Hereditary

/-!
# Linear use of checks

The label of a condition is passed on until one step says the condition. The labels that several
steps may repeat are those of tables, and they refer to no check. So every check is referred to
once.

The proof keeps accounts of one identifier, in runs that give it to checks only. A step that takes
the identifier owes a reference to it. A reference is made by a later step, or it is left in a label
for others to make (`Draft.Spends`). Expressions leave in their labels what they owe
(`Draft.Linear`); queries leave nothing (`Draft.Closed`).
-/

namespace QuerySteps

open Sql

namespace Label

/-- How many fragments of the label refer to `id`. -/
def uses (id : StepId) (a : Label) : Nat :=
  a.refs.count id

variable {id : StepId}

@[simp] theorem uses_nil : uses id {} = 0 := rfl

@[simp] theorem uses_text (words : String) : (text words).uses id = 0 := rfl

@[simp] theorem uses_append (a b : Label) : (a ++ b).uses id = a.uses id + b.uses id := by
  simp [uses]

@[simp] theorem uses_before (a : Label) (words : String) :
    (a.before words).uses id = a.uses id := by
  simp [uses]

@[simp] theorem uses_signed (sign : String) (a : Label) : (a.signed sign).uses id = a.uses id := by
  simp [uses]

@[simp] theorem uses_parenthesized (a : Label) : a.parenthesized.uses id = a.uses id := by
  simp [uses]

@[simp] theorem uses_commaList (labels : List Label) :
    (commaList labels).uses id = (labels.map (uses id)).sum := by
  simp only [uses, refs_commaList, List.count_flatMap]
  rfl

@[simp] theorem uses_enumeration (labels : List Label) :
    (enumeration labels).uses id = (labels.map (uses id)).sum := by
  simp only [uses, refs_enumeration, List.count_flatMap]
  rfl

@[simp] theorem uses_call (phrase : CallPhrase) (args : List Label) :
    (phrase.label args).uses id = (args.map (uses id)).sum := by
  simp only [uses, CallPhrase.refs_label, List.count_flatMap]
  rfl

@[simp] theorem uses_withAlias (s : Settings) (a : Label) (aliasName : Option Name) :
    (s.withAlias a aliasName).uses id = a.uses id := by
  simp [uses]

/-- The label begins with a text that does not open a check. -/
def Tells (a : Label) : Prop :=
  ∃ words rest, a.parts = .text words :: rest ∧ words ≠ checkPhrase

end Label

namespace Draft

variable {α β : Type} {id : StepId} {held : Nat}

/-- In a run that gives `id` to checks only, the references made by the steps and those left in the
value are as many as those held at the start and one for each step of that identifier. How many are
left in which value is up to `post`. All steps begin with texts. -/
def Spends (d : Draft α) (id : StepId) (held : Nat) (post : α → Nat → Prop) : Prop :=
  ∀ first r, d first = .ok r → (∀ s ∈ r.steps, s.id = id → s.isCheck = true) →
    (∀ s ∈ r.steps, s.beginsWithText = true) ∧
    ∃ left, post r.value left ∧
      Plan.refCount r.steps id + left = held + (Plan.ids r.steps).count id

/-- The draft leaves as many references as `count` finds in its value. -/
def Leaves (d : Draft α) (id : StepId) (count : α → Nat) : Prop :=
  d.Spends id 0 fun a left => count a = left

/-- The draft leaves its references in its label. -/
abbrev Linear (id : StepId) (d : Draft Label) : Prop :=
  d.Leaves id (Label.uses id)

/-- The draft leaves no references, and `post` holds of its value. -/
def Settles (d : Draft α) (id : StepId) (held : Nat) (post : α → Prop) : Prop :=
  d.Spends id held fun a left => post a ∧ left = 0

/-- The draft yields a label without references to `id`. -/
abbrev Closed (id : StepId) (d : Draft Label) : Prop :=
  d.Settles id 0 fun a => a.uses id = 0

theorem Spends.imp {d : Draft α} {P Q : α → Nat → Prop} (h : d.Spends id held P)
    (hPQ : ∀ a left, P a left → Q a left) : d.Spends id held Q := by
  intro first r hr hcheck
  obtain ⟨htext, left, hP, hcount⟩ := h first r hr hcheck
  exact ⟨htext, left, hPQ _ _ hP, hcount⟩

theorem Spends.pure {a : α} {post : α → Nat → Prop} (h : post a held) :
    Spends (pure a) id held post := by
  intro first r hr _
  cases hr
  exact ⟨by simp, held, h, by simp [Plan.refCount, Plan.refs]⟩

/-- What the first draft leaves is held by the second, besides what it holds anyway. -/
theorem Spends.bind {x : Draft α} {f : α → Draft β} {other : Nat} {M : α → Nat → Prop}
    {post : β → Nat → Prop} (hx : x.Spends id other M)
    (hf : ∀ a left, M a left → (f a).Spends id (held + left) post) :
    (x >>= f).Spends id (held + other) post := by
  intro first r hr hcheck
  obtain ⟨a, ha, b, hb, rfl⟩ := bind_eq_ok.mp hr
  simp only [List.forall_mem_append] at hcheck ⊢
  obtain ⟨htextx, left, hM, hcountx⟩ := hx first a ha hcheck.1
  obtain ⟨htextf, rest, hpost, hcountf⟩ := hf a.value left hM a.next b hb hcheck.2
  refine ⟨⟨htextx, htextf⟩, rest, hpost, ?_⟩
  simp only [Plan.refCount, Plan.refs_append, Plan.ids_append, List.count_append] at *
  omega

theorem Leaves.bind {x : Draft α} {f : α → Draft β} {count : α → Nat} {post : β → Nat → Prop}
    (hx : x.Leaves id count) (hf : ∀ a, (f a).Spends id (held + count a) post) :
    (x >>= f).Spends id held post := by
  refine Spends.bind hx ?_
  rintro a _ rfl
  exact hf a

theorem Settles.bind {x : Draft α} {f : α → Draft β} {M : α → Prop} {post : β → Nat → Prop}
    (hx : x.Settles id 0 M) (hf : ∀ a, M a → (f a).Spends id held post) :
    (x >>= f).Spends id held post := by
  refine Spends.bind hx ?_
  rintro a _ ⟨ha, rfl⟩
  exact hf a ha

/-- A draft that leaves nothing pays everything that is held. -/
theorem Settles.andThen {x : Draft α} {f : α → Draft β} {M : α → Prop} {post : β → Nat → Prop}
    (hx : x.Settles id held M) (hf : ∀ a, M a → (f a).Spends id 0 post) :
    (x >>= f).Spends id held post := by
  rw [← Nat.zero_add held]
  refine Spends.bind hx ?_
  rintro a _ ⟨ha, rfl⟩
  exact hf a ha

theorem Settles.pure {a : α} {post : α → Prop} (h : post a) : Settles (pure a) id 0 post :=
  Spends.pure ⟨h, rfl⟩

theorem Settles.linear {d : Draft Label} (h : d.Closed id) : d.Linear id :=
  Spends.imp h fun _ _ ⟨ha, hleft⟩ => ha.trans hleft.symm

theorem Settles.step {sentence : Label} (h : sentence.Tells) (huses : sentence.uses id = held) :
    (Draft.step sentence).Settles id held fun a => a.uses id = 0 := by
  obtain ⟨words, rest, hparts, hne⟩ := h
  intro first r hr hcheck
  cases hr
  have hid : first ≠ id := by
    intro heq
    have := hcheck _ (List.mem_singleton_self _) heq
    simp [Step.isCheck, Step.opensWith, hparts, hne] at this
  refine ⟨by simp [Step.beginsWithText, hparts], 0, ⟨?_, rfl⟩, ?_⟩
  · simp [Label.uses, hid]
  · simp only [Label.uses, Label.refs] at huses
    simpa [Plan.refCount, Plan.refs, Plan.ids, Step.refs, hid] using huses

/-- A check owes the reference in its label. -/
theorem Spends.check {condition : Label} (h : condition.uses id = held) :
    (Draft.check condition).Spends id held fun a left => a.uses id = left := by
  intro first r hr _
  cases hr
  refine ⟨by simp [Step.beginsWithText, Label.text], _, rfl, ?_⟩
  simp only [Label.uses, Label.refs] at h
  simp [Plan.refCount, Plan.refs, Plan.ids, Step.refs, Label.uses, Label.text, List.count_singleton,
    h]

theorem Spends.fail {e : PlanError} {post : α → Nat → Prop} :
    (Draft.fail e).Spends id held post := by
  intro first r hr _
  cases hr

theorem Settles.ofExcept {x : Except PlanError α} :
    (Draft.ofExcept x).Settles id 0 fun _ => True := by
  intro first r hr _
  cases x with
  | error e => cases hr
  | ok a =>
    cases hr
    exact ⟨by simp, 0, ⟨trivial, rfl⟩, rfl⟩

theorem Leaves.sequence {ds : List (Draft Label)} (h : ∀ d ∈ ds, d.Linear id) :
    (Draft.sequence ds).Leaves id fun labels => (labels.map (Label.uses id)).sum := by
  induction ds with
  | nil => exact Spends.pure rfl
  | cons d ds ih =>
    obtain ⟨hd, hds⟩ := List.forall_mem_cons.mp h
    refine hd.bind fun a => ?_
    exact (ih hds).bind fun rest => Spends.pure (by simp)

theorem Settles.sequence {ds : List (Draft Label)} (h : ∀ d ∈ ds, d.Closed id) :
    (Draft.sequence ds).Settles id 0 fun labels => ∀ a ∈ labels, a.uses id = 0 := by
  induction ds with
  | nil => exact .pure (by simp)
  | cons d ds ih =>
    obtain ⟨hd, hds⟩ := List.forall_mem_cons.mp h
    refine hd.bind fun a ha => ?_
    refine (ih hds).bind fun rest hrest => ?_
    exact Settles.pure (List.forall_mem_cons.mpr ⟨ha, hrest⟩)

theorem Settles.optional {d : Option (Draft Label)} (h : ∀ x ∈ d, x.Closed id) :
    (Draft.optional d).Settles id 0 fun a => ∀ x ∈ a, x.uses id = 0 := by
  cases d with
  | none => exact .pure (by simp)
  | some d =>
    refine (h d rfl).bind fun a ha => Settles.pure ?_
    rintro x ⟨⟩
    exact ha

end Draft

/-! ## Clauses -/

open Draft

structure GroupClauses.Linear (id : StepId) (c : GroupClauses) : Prop where
  keys : ∀ d ∈ c.keys, d.Linear id
  having : ∀ d ∈ c.having, d.Linear id

structure RowClauses.Linear (id : StepId) (c : RowClauses) : Prop where
  keys : ∀ d ∈ c.keys, d.Linear id
  offset : ∀ d ∈ c.offset, d.Linear id
  limit : ∀ d ∈ c.limit, d.Linear id

/-- The relation is stored by a draft that leaves no references, and its condition is linear. -/
structure Stage.Linear (id : StepId) (s : Stage) : Prop where
  store : ∀ name, (s.store name).Closed id
  matching : s.matching.Linear id

variable {id : StepId} {held : Nat}

theorem GroupClauses.Linear.apply {c : GroupClauses} (h : c.Linear id) {input : Label}
    (hi : input.uses id = 0) : (c.apply input).Closed id := by
  refine Settles.bind (M := fun a => a.uses id = 0) ?_ fun input hi => ?_
  · unfold group
    split
    · exact Settles.pure hi
    · refine (Leaves.sequence h.keys).bind fun keys => ?_
      exact Settles.step ⟨_, _, rfl, by decide⟩ (by simp [hi])
  · unfold GroupClauses.filter
    split
    · exact Settles.pure hi
    · rename_i condition hc
      refine (h.having condition hc).bind fun a => ?_
      exact Settles.step ⟨_, _, rfl, by decide⟩ (by simp [hi])

namespace RowClauses

theorem closed_order {keys : List (Draft Label)} (h : ∀ d ∈ keys, d.Linear id) {input : Label}
    (hi : input.uses id = 0) : (order keys input).Closed id := by
  unfold order
  split
  · exact Settles.pure hi
  · refine (Leaves.sequence h).bind fun keys => ?_
    exact Settles.step ⟨_, _, rfl, by decide⟩ (by simp [hi])

theorem closed_cut {words : String} (hw : words ≠ checkPhrase) {count : Option (Draft Label)}
    (h : ∀ d ∈ count, d.Linear id) {input : Label} (hi : input.uses id = 0) :
    (cut words count input).Closed id := by
  unfold cut
  split
  · exact Settles.pure hi
  · rename_i count
    refine (h count rfl).bind fun a => ?_
    exact Settles.step ⟨_, _, rfl, hw⟩ (by simp [hi])

theorem Linear.apply {c : RowClauses} (h : c.Linear id) {input : Label}
    (hi : input.uses id = 0) : (c.apply input).Closed id := by
  refine (closed_order h.keys hi).bind fun input hi => ?_
  refine (closed_cut (by decide) h.offset hi).bind fun input hi => ?_
  exact closed_cut (by decide) h.limit hi

end RowClauses

namespace Draft

/-- The input of a clause has no reference to `id`, if there is an input. -/
def InputFree (id : StepId) (input : Option Label) : Prop :=
  ∀ a ∈ input, a.uses id = 0

theorem InputFree.some {a : Label} (h : a.uses id = 0) : InputFree id (some a) := by
  rintro x ⟨⟩
  exact h

theorem uses_inputOr {input : Option Label} (h : InputFree id input) :
    (inputOr input).uses id = 0 := by
  cases input with
  | none => rfl
  | some a => exact h a rfl

theorem closed_unique {distinct : Bool} {input : Label} (h : input.uses id = 0) :
    (unique distinct input).Closed id := by
  unfold unique
  split
  · exact Settles.step ⟨_, _, rfl, by decide⟩ (by simp [h])
  · exact Settles.pure h

theorem settles_filterSingle {condition : Option (Draft Label)}
    (hc : ∀ d ∈ condition, d.Linear id) {input : Option Label} (h : InputFree id input) :
    (filterSingle condition input).Settles id 0 (InputFree id) := by
  unfold filterSingle
  split
  · exact Settles.pure h
  · rename_i condition
    refine (hc condition rfl).bind fun a => ?_
    have hinput := uses_inputOr h
    refine Settles.andThen (Settles.step ⟨_, _, rfl, by decide⟩ (by simp [hinput])) fun result hr =>
      Settles.pure (.some hr)

theorem settles_arrangeSingle {groups : GroupClauses} {rows : RowClauses} (hg : groups.Linear id)
    (hr : rows.Linear id) {input : Option Label} (h : InputFree id input) :
    (arrangeSingle groups rows input).Settles id 0 (InputFree id) := by
  unfold arrangeSingle
  split
  · refine (hg.apply (uses_inputOr h)).bind fun a ha => ?_
    exact (hr.apply ha).bind fun b hb => Settles.pure (.some hb)
  · exact Settles.pure h

theorem settles_createTable {columns : List Label} {input : Option Label}
    (hc : (columns.map (Label.uses id)).sum = held) (h : InputFree id input) :
    (createTable columns input).Settles id held fun a => a.uses id = 0 := by
  unfold createTable
  cases input with
  | none => exact Settles.step ⟨_, _, rfl, by decide⟩ (by simp [hc])
  | some a => exact Settles.step ⟨_, _, rfl, by decide⟩ (by simp [hc, h a rfl])

theorem closed_selectSingle {load condition : Option (Draft Label)} {groups : GroupClauses}
    {rows : RowClauses} {items : List (Draft Label)} {distinct : Bool}
    (hl : ∀ d ∈ load, d.Closed id) (hc : ∀ d ∈ condition, d.Linear id) (hg : groups.Linear id)
    (hr : rows.Linear id) (hi : ∀ d ∈ items, d.Linear id) :
    (selectSingle load condition groups rows items distinct).Closed id := by
  refine (Settles.optional hl).bind fun input h1 => ?_
  refine (settles_filterSingle hc h1).bind fun input h2 => ?_
  refine (settles_arrangeSingle hg hr h2).bind fun input h3 => ?_
  refine (Leaves.sequence hi).bind fun columns => ?_
  exact (settles_createTable (by simp) h3).andThen fun result h => closed_unique h

theorem closed_filterJoined {condition : Draft Label} (hc : condition.Linear id) {input : Label}
    (h : input.uses id = 0) : (filterJoined condition input).Closed id := by
  refine hc.bind fun a => ?_
  exact Settles.step ⟨_, _, rfl, by decide⟩ (by simp [h])

theorem settles_filterSources {sources : List Source} {conjuncts : List (Expr × Draft Label)}
    (hc : ∀ c ∈ conjuncts, c.2.Linear id) {results : List Label}
    (h : ∀ a ∈ results, a.uses id = 0) :
    (filterSources sources results conjuncts).Settles id 0 fun out =>
      (∀ a ∈ out.1, a.uses id = 0) ∧ ∀ d ∈ out.2, d.Linear id := by
  induction conjuncts generalizing results with
  | nil => exact Settles.pure ⟨h, by simp⟩
  | cons c rest ih =>
    obtain ⟨conjunct, condition⟩ := c
    obtain ⟨hcond, hrest⟩ := List.forall_mem_cons.mp hc
    unfold filterSources
    split
    · rename_i i _
      have hat : (results[i]?.getD {}).uses id = 0 := by
        cases hri : results[i]? with
        | none => rfl
        | some a => exact h a (List.mem_of_getElem? hri)
      refine (closed_filterJoined hcond hat).bind fun filtered hf => ih hrest fun a ha => ?_
      rcases List.mem_or_eq_of_mem_set ha with ha | rfl
      · exact h a ha
      · exact hf
    · refine (ih hrest h).bind fun out hout => Settles.pure ⟨hout.1, ?_⟩
      exact List.forall_mem_cons.mpr ⟨hcond, hout.2⟩

theorem settles_joinInputs {sources : List Source} {stages : List Stage}
    {conjuncts : List (Expr × Draft Label)} (hs : ∀ stage ∈ stages, stage.Linear id)
    (hc : ∀ c ∈ conjuncts, c.2.Linear id) :
    (joinInputs sources stages conjuncts).Settles id 0 fun out =>
      (∀ a ∈ out.1, a.uses id = 0) ∧ ∀ d ∈ out.2, d.Linear id := by
  refine (Settles.sequence fun d hd => ?_).bind fun loaded h => settles_filterSources hc h
  rw [← List.map_uncurry_zip_eq_zipWith] at hd
  obtain ⟨pair, hpair, rfl⟩ := List.mem_map.mp hd
  exact (hs pair.2 (List.of_mem_zip hpair).2).store _

theorem closed_filterAll {conditions : List (Draft Label)} (hc : ∀ d ∈ conditions, d.Linear id)
    {input : Label} (h : input.uses id = 0) : (filterAll input conditions).Closed id := by
  induction conditions generalizing input with
  | nil => exact Settles.pure h
  | cons condition rest ih =>
    obtain ⟨hcond, hrest⟩ := List.forall_mem_cons.mp hc
    exact (closed_filterJoined hcond h).bind fun filtered hf => ih hrest hf

theorem words_ne_checkPhrase (kind : JoinKind) : kind.words ≠ checkPhrase := by
  cases kind <;> decide

theorem closed_joinAll {joins : List (JoinKind × Label × Draft Label)} {input : Label}
    (hj : ∀ j ∈ joins, j.2.1.uses id = 0 ∧ j.2.2.Linear id) (h : input.uses id = 0) :
    (joinAll input joins).Closed id := by
  induction joins generalizing input with
  | nil => exact Settles.pure h
  | cons j rest ih =>
    obtain ⟨kind, right, matching⟩ := j
    obtain ⟨⟨hright, hmatching⟩, hrest⟩ := List.forall_mem_cons.mp hj
    refine hmatching.bind fun condition => ?_
    have hwords := words_ne_checkPhrase kind
    refine Settles.andThen (Settles.step ⟨_, _, rfl, hwords⟩ ?_) fun joined hjoined =>
      ih hrest hjoined
    simp_all

theorem closed_joinChain {sources : List Source} {stages : List Stage} {results : List Label}
    (hs : ∀ stage ∈ stages, stage.Linear id) (h : ∀ a ∈ results, a.uses id = 0) :
    (joinChain sources stages results).Closed id := by
  unfold joinChain
  split
  · exact Spends.fail
  · rename_i first others
    obtain ⟨hfirst, hothers⟩ := List.forall_mem_cons.mp h
    refine closed_joinAll (fun j hj => ?_) hfirst
    have hpair := (List.of_mem_zip (a := j.1) (b := j.2) hj).2
    have hmem := List.of_mem_zip (a := j.2.1) (b := j.2.2) hpair
    refine ⟨hothers _ hmem.1, ?_⟩
    obtain ⟨stage, hstage, heq⟩ := List.mem_map.mp hmem.2
    rw [← heq]
    exact (hs stage (List.mem_of_mem_tail hstage)).matching

theorem settles_retrieveAll {items : List (Draft Label)} (hi : ∀ d ∈ items, d.Linear id)
    {input : Label} (h : input.uses id = 0) :
    (retrieveAll input items).Settles id 0 fun columns =>
      (columns.map (Label.uses id)).sum = 0 := by
  induction items with
  | nil => exact Settles.pure rfl
  | cons item rest ih =>
    obtain ⟨hitem, hrest⟩ := List.forall_mem_cons.mp hi
    refine hitem.bind fun column => ?_
    refine Settles.andThen (Settles.step ⟨_, _, rfl, by decide⟩ (by simp [h])) fun retrieved hr =>
      ?_
    exact (ih hrest).bind fun columns hcol => Settles.pure (by simp [hr, hcol])

theorem closed_selectJoin {items : List FromItem} {stages : List Stage}
    {conjuncts : List (Expr × Draft Label)} {groups : GroupClauses} {rows : RowClauses}
    {columns : List (Draft Label)} {distinct : Bool} (hs : ∀ stage ∈ stages, stage.Linear id)
    (hc : ∀ c ∈ conjuncts, c.2.Linear id) (hg : groups.Linear id) (hr : rows.Linear id)
    (hi : ∀ d ∈ columns, d.Linear id) :
    (selectJoin items stages conjuncts groups rows columns distinct).Closed id := by
  refine Settles.ofExcept.bind fun sources _ => ?_
  refine (settles_joinInputs hs hc).bind fun out h2 => ?_
  refine (closed_joinChain hs h2.1).bind fun joined h3 => ?_
  refine (closed_filterAll h2.2 h3).bind fun filtered h4 => ?_
  refine (hg.apply h4).bind fun grouped h5 => ?_
  refine (hr.apply h5).bind fun arranged h6 => ?_
  refine (settles_retrieveAll hi h6).bind fun retrieved h7 => ?_
  exact Settles.andThen (Settles.step ⟨_, _, rfl, by decide⟩ (by simp [h7])) fun result h8 =>
    closed_unique h8

theorem closed_combine {op : SetOperator} {all : Bool} {left right : Label}
    (hl : left.uses id = 0) (hr : right.uses id = 0) : (combine op all left right).Closed id := by
  cases op <;> exact Settles.step ⟨_, _, rfl, by decide⟩ (by simp [hl, hr])

end Draft

/-! ## Expressions and queries -/

namespace Sql

variable (s : Settings)

theorem linear_equalityLabel {left right : Draft Label} (hl : left.Linear id)
    (hr : right.Linear id) : (equalityLabel left right).Linear id := by
  refine hl.bind fun a => ?_
  refine hr.bind fun b => ?_
  exact Spends.pure (by simp)

/-- The stages of a FROM clause are linear once its subqueries leave no references and the sides of
its join conditions are linear. -/
theorem linear_stage {link : Source.Link}
    (hd : ∀ query aliasName, link.1 = .derived query aliasName → (query.draft s).Closed id)
    (hm : ∀ e, link.2.2 = .on e → ∀ c ∈ e.conjuncts, ∀ l op r, c.withoutParens = .binary l op r →
      (l.draft s .kept).Linear id ∧ (r.draft s .kept).Linear id) :
    Stage.Linear id ⟨link.1.store s, link.2.2.draft s⟩ := by
  obtain ⟨relation, kind, constraint⟩ := link
  constructor
  · intro name
    cases relation with
    | table path aliasName =>
      refine Settles.step ⟨_, _, rfl, ?_⟩ rfl
      simp only [String.append_assoc]
      exact append_ne (by decide) _
    | derived query aliasName =>
      refine (hd query aliasName rfl).bind fun rows hr => ?_
      exact Settles.step ⟨_, _, rfl, by decide⟩ (by simp [hr])
  · cases constraint with
    | unconstrained => exact Spends.pure rfl
    | shared columns => exact Spends.fail
    | natural => exact Spends.fail
    | on e =>
      have hsides : ∀ d ∈ e.equalityDrafts s, d.Linear id := by
        refine e.forall_equalityDrafts s (fun c hc l r hb => ?_) fun _ => Spends.fail
        have hboth := hm e rfl c hc l .eq r hb
        exact linear_equalityLabel hboth.1 hboth.2
      refine (Leaves.sequence hsides).bind fun labels => ?_
      exact Spends.pure (by simp)

theorem linear_rowClauses {q : Query} (h : q.RowParts fun e => ∀ qs, (e.draft s qs).Linear id)
    (qs : Qualifiers) : RowClauses.Linear id
      ⟨draftsOfOrder s qs q.orderBy, draftOfOption s qs q.offset, draftOfOption s qs q.limit⟩ where
  keys d hd := by
    simp only [draftsOfOrder_eq_map, List.mem_map] at hd
    obtain ⟨⟨key, descending⟩, hi, rfl⟩ := hd
    refine (h.order _ hi qs).bind fun a => ?_
    exact Spends.pure (by simp)
  offset := forall_draftOfOption s fun e he => h.offset e he qs
  limit := forall_draftOfOption s fun e he => h.limit e he qs

theorem linear_groupClauses {b : Select} {Q : Query → Prop}
    (h : b.Parts (fun e => ∀ qs, (e.draft s qs).Linear id) Q) (qs : Qualifiers) :
    GroupClauses.Linear id ⟨draftsOfExprs s qs b.groupBy, draftOfOption s qs b.having⟩ where
  keys := forall_draftsOfExprs s fun e he => h.keys e he qs
  having := forall_draftOfOption s fun e he => h.having e he qs

theorem linear_item {item : SelectItem}
    (h : ∀ value aliasName, item = .expr value aliasName → (value.draft s .kept).Linear id) :
    (item.draft s).Linear id := by
  cases item with
  | all => exact Spends.pure rfl
  | allOf table => exact Spends.pure rfl
  | expr value aliasName =>
    refine (h value aliasName rfl).bind fun a => ?_
    exact Spends.pure (by simp)

theorem closed_load {relation : Relation}
    (h : ∀ query aliasName, relation = .derived query aliasName → (query.draft s).Closed id) :
    (relation.load s).Closed id := by
  cases relation with
  | table path aliasName =>
    refine Settles.step ⟨"Load data for table " ++ s.tableText path, ?_⟩ (by simp)
    cases aliasName with
    | none => exact ⟨_, rfl, append_ne (by decide) _⟩
    | some aliasName => exact ⟨_, rfl, append_ne (by decide) _⟩
  | derived query aliasName =>
    exact (h query aliasName rfl).bind fun a ha => Settles.pure (by simp [ha])

theorem closed_select {b : Select}
    (h : b.Parts (fun e => ∀ qs, (e.draft s qs).Linear id) fun q => (q.draft s).Closed id)
    {rows : Qualifiers → RowClauses} (hr : ∀ q, (rows q).Linear id) :
    (b.draft s rows).Closed id := by
  have hg := linear_groupClauses s h
  have hitems : ∀ d ∈ b.projection.map (SelectItem.draft s), d.Linear id :=
    List.forall_mem_map.mpr fun item hi =>
      linear_item s fun value aliasName hv => h.items value aliasName (hv ▸ hi) .kept
  rw [Select.draft_eq]
  split
  · refine closed_selectJoin (List.forall_mem_map.mpr fun link hl => ?_)
      (List.forall_mem_map.mpr fun e he => h.conjuncts e he .kept) (hg .dropped) (hr .dropped)
      hitems
    refine linear_stage s (h.derived link hl) fun e he c hc l op r hb => ?_
    have hsides := h.matching link hl e he c hc l op r hb
    exact ⟨hsides.1 .kept, hsides.2 .kept⟩
  · refine closed_selectSingle (fun d hd => ?_) (fun d hd => ?_) (hg .kept) (hr .kept) hitems
    · obtain ⟨link, hl, rfl⟩ := Option.map_eq_some_iff.mp hd
      exact closed_load s (h.derived link (List.mem_of_mem_head? hl))
    · obtain ⟨e, he, rfl⟩ := Option.map_eq_some_iff.mp hd
      exact (h.condition e he).1 .kept

/-- Expressions leave the references to `id` in their labels, and queries leave none. -/
theorem hereditary_linear :
    Hereditary (fun e => ∀ qs, (e.draft s qs).Linear id) fun q => (q.draft s).Closed id where
  column c q := Spends.pure rfl
  literal v q := Spends.pure rfl
  binary l op r hl hr q := by
    refine (hl q).bind fun a => ?_
    refine (hr q).bind fun b => ?_
    dsimp only
    split
    · exact Spends.pure (by simp)
    · exact Spends.check (by simp)
  unary op e he q := by
    refine (he q).bind fun a => ?_
    cases op with
    | not => exact Spends.check (by simp)
    | neg => exact Spends.pure (by simp)
    | plus => exact Spends.pure (by simp)
  isValue e v negated he q := by
    refine (he q).bind fun a => ?_
    exact Spends.check (by simp)
  between e low high negated he hlow hhigh q := by
    refine (he q).bind fun a => ?_
    refine (hlow q).bind fun b => ?_
    refine (hhigh q).bind fun c => ?_
    exact Spends.check (by simp)
  inList e items negated he hi q := by
    refine (he q).bind fun a => ?_
    have hs := forall_draftsOfExprs s fun i him => hi i him q
    exact (Leaves.sequence hs).bind fun labels => Spends.check (by simp)
  inQuery e query negated he hq q := by
    refine (he q).bind fun a => ?_
    exact hq.bind fun rows hr => Spends.check (by simp [hr])
  existsQuery query negated hq q := hq.bind fun rows hr => Spends.check (by simp [hr])
  subquery query hq q := hq.linear
  like e pattern negated ignoreCase he hp q := by
    refine (he q).bind fun a => ?_
    refine (hp q).bind fun b => ?_
    exact Spends.check (by simp)
  call f args distinct ha q := by
    unfold Expr.draft
    split
    · exact Spends.pure rfl
    · split
      · exact Spends.fail
      · have hs := forall_draftsOfExprs s fun a ham => ha a ham q
        exact (Leaves.sequence hs).bind fun labels => Spends.pure (by simp)
  nested e he q := by
    refine (he q).bind fun a => ?_
    refine Spends.pure ?_
    split <;> simp
  wildcard q := Spends.fail
  select block orderBy limit offset hb hr := closed_select s hb (linear_rowClauses s hr)
  setOperation op all l r orderBy limit offset hl hr hrows := by
    refine hl.bind fun a ha => ?_
    refine hr.bind fun b hb => ?_
    refine (closed_combine ha hb).bind fun c hc => ?_
    exact (linear_rowClauses s hrows .kept).apply hc

end Sql

end QuerySteps
