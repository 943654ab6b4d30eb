import QuerySteps.Plan.Basic
import QuerySteps.Proofs.Syntax.Hereditary
import QuerySteps.Translate.Query

/-!
# Numbering of drafts

A draft that succeeds writes steps with the identifiers it took, each once and in display order, and
every reference is to a smaller identifier (`Consecutive`). The labels that drafts pass on keep this
going: they refer to identifiers already taken (`Label.Below`).

`Draft.Yields` states both for a run from a given identifier. It has one rule for each way to build
a draft; the clauses of a SELECT and then all expressions and queries follow by these rules.
-/

namespace QuerySteps

open Sql

/-- The steps take the identifiers from `first` up to `next`, in display order, and refer to smaller
ones only. -/
structure Consecutive (first : StepId) (steps : List Step) (next : StepId) : Prop where
  ids : Plan.ids steps = List.range' first steps.length
  next_eq : next = first + steps.length
  refs_lt : ∀ s ∈ steps, ∀ id ∈ s.refs, id < s.id

namespace Consecutive

theorem nil (first : StepId) : Consecutive first [] first :=
  ⟨rfl, rfl, by simp⟩

theorem append {first middle next : StepId} {s t : List Step} (hs : Consecutive first s middle)
    (ht : Consecutive middle t next) : Consecutive first (s ++ t) next where
  ids := by
    have h1 := hs.ids
    have h2 := ht.ids
    simp only [Plan.ids] at h1 h2
    rw [Plan.ids, List.map_append, h1, h2, hs.next_eq, List.length_append, List.range'_append_1]
  next_eq := by
    rw [ht.next_eq, hs.next_eq, List.length_append, Nat.add_assoc]
  refs_lt s h := by
    rcases List.mem_append.mp h with h | h
    · exact hs.refs_lt s h
    · exact ht.refs_lt s h

theorem le {first next : StepId} {s : List Step} (h : Consecutive first s next) : first ≤ next := by
  rw [h.next_eq]
  exact Nat.le_add_right _ _

end Consecutive

namespace Label

/-- The label refers to identifiers below `bound` only. -/
def Below (a : Label) (bound : StepId) : Prop :=
  ∀ id ∈ a.refs, id < bound

theorem Below.mono {a : Label} {m n : StepId} (h : a.Below m) (hmn : m ≤ n) : a.Below n :=
  fun id hid => Nat.lt_of_lt_of_le (h id hid) hmn

variable {n : StepId}

@[simp] theorem below_text (words : String) : (text words).Below n := by simp [Below]

@[simp] theorem below_step {id : StepId} : (step id).Below n ↔ id < n := by simp [Below]

@[simp] theorem below_append {a b : Label} : (a ++ b).Below n ↔ a.Below n ∧ b.Below n := by
  simp [Below, or_imp, forall_and]

@[simp] theorem below_before {a : Label} {words : String} :
    (a.before words).Below n ↔ a.Below n := by
  simp [Below]

@[simp] theorem below_signed {a : Label} {sign : String} : (a.signed sign).Below n ↔ a.Below n := by
  simp [Below]

@[simp] theorem below_parenthesized {a : Label} : a.parenthesized.Below n ↔ a.Below n := by
  simp [Below]

@[simp] theorem below_commaList {labels : List Label} :
    (commaList labels).Below n ↔ ∀ a ∈ labels, a.Below n := by
  simp only [Below, refs_commaList, List.mem_flatMap]
  grind

@[simp] theorem below_enumeration {labels : List Label} :
    (enumeration labels).Below n ↔ ∀ a ∈ labels, a.Below n := by
  simp only [Below, refs_enumeration, List.mem_flatMap]
  grind

@[simp] theorem below_call {phrase : CallPhrase} {args : List Label} :
    (phrase.label args).Below n ↔ ∀ a ∈ args, a.Below n := by
  simp only [Below, CallPhrase.refs_label, List.mem_flatMap]
  grind

@[simp] theorem below_withAlias {s : Settings} {a : Label} {aliasName : Option Name} :
    (s.withAlias a aliasName).Below n ↔ a.Below n := by
  simp [Below]

end Label

namespace Draft

variable {α β : Type}

/-- If the draft succeeds from `first`, its steps are consecutive, and its value and the next free
identifier satisfy `post`. -/
def Yields (d : Draft α) (first : StepId) (post : α → StepId → Prop) : Prop :=
  ∀ r, d first = .ok r → Consecutive first r.steps r.next ∧ post r.value r.next

/-- From wherever it starts, the draft yields a label that refers to identifiers already taken. -/
def Orderly (d : Draft Label) : Prop :=
  ∀ first, d.Yields first Label.Below

theorem Yields.pure {a : α} {first : StepId} {post : α → StepId → Prop} (h : post a first) :
    Yields (pure a) first post := by
  intro r hr
  cases hr
  exact ⟨.nil first, h⟩

theorem Yields.bind {x : Draft α} {f : α → Draft β} {first : StepId} {M : α → StepId → Prop}
    {post : β → StepId → Prop} (hx : x.Yields first M)
    (hf : ∀ a next, first ≤ next → M a next → (f a).Yields next post) :
    (x >>= f).Yields first post := by
  intro r hr
  obtain ⟨a, ha, b, hb, rfl⟩ := bind_eq_ok.mp hr
  obtain ⟨hsa, hpa⟩ := hx a ha
  obtain ⟨hsb, hpb⟩ := hf a.value a.next hsa.le hpa b hb
  exact ⟨hsa.append hsb, hpb⟩

theorem Yields.imp {d : Draft α} {first : StepId} {P Q : α → StepId → Prop} (h : d.Yields first P)
    (hPQ : ∀ a next, P a next → Q a next) : d.Yields first Q := by
  intro r hr
  obtain ⟨hs, hp⟩ := h r hr
  exact ⟨hs, hPQ _ _ hp⟩

theorem Yields.newStep {sentence : Label} {first : StepId} (h : sentence.Below first) :
    (Draft.step sentence).Yields first fun a next => a = .step first ∧ next = first + 1 := by
  intro r hr
  cases hr
  refine ⟨⟨rfl, rfl, ?_⟩, rfl, rfl⟩
  intro s hs
  rw [List.mem_singleton.mp hs]
  exact h

theorem Yields.step {sentence : Label} {first : StepId} (h : sentence.Below first) :
    (Draft.step sentence).Yields first Label.Below := by
  refine .imp (.newStep h) fun a next ha => ?_
  rw [ha.1, ha.2, Label.below_step]
  exact Nat.lt_succ_self _

theorem Yields.fail {e : PlanError} {first : StepId} {post : α → StepId → Prop} :
    (Draft.fail e).Yields first post := by
  intro r hr
  cases hr

theorem Yields.ofExcept {x : Except PlanError α} {first : StepId} {post : α → StepId → Prop}
    (h : ∀ a, x = .ok a → post a first) : (Draft.ofExcept x).Yields first post := by
  intro r hr
  cases x with
  | error e => cases hr
  | ok a =>
    cases hr
    exact ⟨.nil first, h a rfl⟩

theorem Yields.sequence {ds : List (Draft Label)} (h : ∀ d ∈ ds, d.Orderly) (first : StepId) :
    (Draft.sequence ds).Yields first fun labels next => ∀ a ∈ labels, a.Below next := by
  induction ds generalizing first with
  | nil => exact .pure (by simp)
  | cons d ds ih =>
    refine .bind (h d (List.mem_cons_self ..) first) fun a m _ ha => ?_
    refine .bind (ih (fun d hd => h d (List.mem_cons_of_mem _ hd)) m) fun rest n hmn hrest => ?_
    exact .pure (List.forall_mem_cons.mpr ⟨ha.mono hmn, hrest⟩)

theorem Yields.optional {d : Option (Draft Label)} (h : ∀ x ∈ d, x.Orderly) (first : StepId) :
    (Draft.optional d).Yields first fun a next => ∀ x ∈ a, x.Below next := by
  cases d with
  | none => exact .pure (by simp)
  | some d => exact .bind (h d rfl first) fun a m _ ha => .pure (by rintro x ⟨⟩; exact ha)

/-! ## Clauses -/

theorem Yields.check {condition : Label} {n : StepId} (h : condition.Below n) :
    (Draft.check condition).Yields n Label.Below :=
  .step (by simp [h])

end Draft

open Draft

structure GroupClauses.Orderly (c : GroupClauses) : Prop where
  keys : ∀ d ∈ c.keys, d.Orderly
  having : ∀ d ∈ c.having, d.Orderly

structure RowClauses.Orderly (c : RowClauses) : Prop where
  keys : ∀ d ∈ c.keys, d.Orderly
  offset : ∀ d ∈ c.offset, d.Orderly
  limit : ∀ d ∈ c.limit, d.Orderly

/-- The relation is stored and its condition worded by orderly drafts. -/
structure Stage.Orderly (s : Stage) : Prop where
  store : ∀ name, (s.store name).Orderly
  matching : s.matching.Orderly

theorem GroupClauses.Orderly.apply {c : GroupClauses} (h : c.Orderly) {input : Label} {n : StepId}
    (hi : input.Below n) : (c.apply input).Yields n Label.Below := by
  refine .bind (M := Label.Below) ?_ fun input m _ hi => ?_
  · unfold group
    split
    · exact .pure hi
    · refine .bind (.sequence h.keys n) fun keys m hm hk => .step ?_
      simpa using ⟨hi.mono hm, hk⟩
  · unfold GroupClauses.filter
    split
    · exact .pure hi
    · rename_i condition hc
      refine .bind (h.having condition hc m) fun a k hk ha => .step ?_
      simpa using ⟨hi.mono hk, ha⟩

namespace RowClauses

theorem yields_order {keys : List (Draft Label)} (h : ∀ d ∈ keys, d.Orderly) {input : Label}
    {n : StepId} (hi : input.Below n) : (order keys input).Yields n Label.Below := by
  unfold order
  split
  · exact .pure hi
  · refine .bind (.sequence h n) fun keys m hm hk => .step ?_
    simpa using ⟨hi.mono hm, hk⟩

theorem yields_cut {words : String} {count : Option (Draft Label)} (h : ∀ d ∈ count, d.Orderly)
    {input : Label} {n : StepId} (hi : input.Below n) :
    (cut words count input).Yields n Label.Below := by
  unfold cut
  split
  · exact .pure hi
  · rename_i count
    refine .bind (h count rfl n) fun a m hm ha => .step ?_
    simpa using ⟨ha, hi.mono hm⟩

theorem Orderly.apply {c : RowClauses} (h : c.Orderly) {input : Label} {n : StepId}
    (hi : input.Below n) : (c.apply input).Yields n Label.Below := by
  refine .bind (yields_order h.keys hi) fun input m _ hi => ?_
  refine .bind (yields_cut h.offset hi) fun input k _ hi => ?_
  exact yields_cut h.limit hi

end RowClauses

namespace Draft

variable {n : StepId}

/-- An input of a clause refers to identifiers below `bound` only, if there is an input. -/
def InputBelow (input : Option Label) (bound : StepId) : Prop :=
  ∀ a ∈ input, a.Below bound

theorem InputBelow.some {a : Label} (h : a.Below n) : InputBelow (some a) n := by
  rintro x ⟨⟩
  exact h

theorem below_inputOr {input : Option Label} (h : InputBelow input n) :
    (inputOr input).Below n := by
  cases input with
  | none => exact Label.below_text _
  | some a => exact h a rfl

theorem yields_unique {distinct : Bool} {input : Label} (h : input.Below n) :
    (unique distinct input).Yields n Label.Below := by
  unfold unique
  split
  · exact .step (by simp [h])
  · exact .pure h

theorem yields_filterSingle {condition : Option (Draft Label)} (hc : ∀ d ∈ condition, d.Orderly)
    {input : Option Label} (h : InputBelow input n) :
    (filterSingle condition input).Yields n InputBelow := by
  unfold filterSingle
  split
  · exact .pure h
  · rename_i condition
    refine .bind (hc condition rfl n) fun a m hm ha => ?_
    refine .bind (M := Label.Below) (.step ?_) fun result k _ hr => .pure (.some hr)
    simpa using ⟨(below_inputOr h).mono hm, ha⟩

theorem yields_arrangeSingle {groups : GroupClauses} {rows : RowClauses} (hg : groups.Orderly)
    (hr : rows.Orderly) {input : Option Label} (h : InputBelow input n) :
    (arrangeSingle groups rows input).Yields n InputBelow := by
  unfold arrangeSingle
  split
  · refine .bind (hg.apply (below_inputOr h)) fun a m _ ha => ?_
    refine .bind (hr.apply ha) fun b k _ hb => .pure (.some hb)
  · exact .pure h

theorem yields_createTable {columns : List Label} {input : Option Label}
    (hc : ∀ a ∈ columns, a.Below n) (h : InputBelow input n) :
    (createTable columns input).Yields n Label.Below := by
  unfold createTable
  cases input with
  | none => exact .step (by simpa using hc)
  | some a => exact .step (by simpa using ⟨hc, h a rfl⟩)

theorem orderly_selectSingle {load condition : Option (Draft Label)} {groups : GroupClauses}
    {rows : RowClauses} {items : List (Draft Label)} {distinct : Bool}
    (hl : ∀ d ∈ load, d.Orderly) (hc : ∀ d ∈ condition, d.Orderly) (hg : groups.Orderly)
    (hr : rows.Orderly) (hi : ∀ d ∈ items, d.Orderly) :
    (selectSingle load condition groups rows items distinct).Orderly := by
  intro n
  refine .bind (.optional hl n) fun input n1 _ h1 => ?_
  refine .bind (yields_filterSingle hc h1) fun input n2 _ h2 => ?_
  refine .bind (yields_arrangeSingle hg hr h2) fun input n3 _ h3 => ?_
  refine .bind (.sequence hi n3) fun columns n4 h34 hcol => ?_
  have h4 : InputBelow input n4 := fun a ha => (h3 a ha).mono h34
  exact .bind (yields_createTable hcol h4) fun result n5 _ h5 => yields_unique h5

theorem yields_filterJoined {condition : Draft Label} (hc : condition.Orderly) {input : Label}
    (h : input.Below n) : (filterJoined condition input).Yields n Label.Below := by
  refine .bind (hc n) fun a m hm ha => .step ?_
  simpa using ⟨h.mono hm, ha⟩

theorem yields_filterSources {sources : List Source} {conjuncts : List (Expr × Draft Label)}
    (hc : ∀ c ∈ conjuncts, c.2.Orderly) {results : List Label} (h : ∀ a ∈ results, a.Below n) :
    (filterSources sources results conjuncts).Yields n fun out next =>
      (∀ a ∈ out.1, a.Below next) ∧ ∀ d ∈ out.2, d.Orderly := by
  induction conjuncts generalizing n results with
  | nil => exact .pure ⟨h, by simp⟩
  | cons c rest ih =>
    obtain ⟨conjunct, condition⟩ := c
    have hcond : condition.Orderly := hc _ (List.mem_cons_self ..)
    have hrest : ∀ c ∈ rest, c.2.Orderly := fun c hm => hc c (List.mem_cons_of_mem _ hm)
    unfold filterSources
    split
    · rename_i i _
      have hat : (results[i]?.getD {}).Below n := by
        cases hri : results[i]? with
        | none => simp [Label.Below, Label.refs]
        | some a => exact h a (List.mem_of_getElem? hri)
      refine .bind (yields_filterJoined hcond hat) fun filtered m hm hf => ?_
      refine ih hrest fun a ha => ?_
      rcases List.mem_or_eq_of_mem_set ha with ha | rfl
      · exact (h a ha).mono hm
      · exact hf
    · refine .bind (ih hrest h) fun out m _ hout => .pure ⟨hout.1, ?_⟩
      exact List.forall_mem_cons.mpr ⟨hcond, hout.2⟩

theorem yields_joinInputs {sources : List Source} {stages : List Stage}
    {conjuncts : List (Expr × Draft Label)} (hs : ∀ stage ∈ stages, stage.Orderly)
    (hc : ∀ c ∈ conjuncts, c.2.Orderly) :
    (joinInputs sources stages conjuncts).Yields n fun out next =>
      (∀ a ∈ out.1, a.Below next) ∧ ∀ d ∈ out.2, d.Orderly := by
  refine .bind (.sequence (fun d hd => ?_) n) fun loaded m _ h => yields_filterSources hc h
  rw [← List.map_uncurry_zip_eq_zipWith] at hd
  obtain ⟨pair, hpair, rfl⟩ := List.mem_map.mp hd
  exact (hs pair.2 (List.of_mem_zip hpair).2).store _

theorem yields_filterAll {conditions : List (Draft Label)} (hc : ∀ d ∈ conditions, d.Orderly)
    {input : Label} (h : input.Below n) : (filterAll input conditions).Yields n Label.Below := by
  induction conditions generalizing n input with
  | nil => exact .pure h
  | cons condition rest ih =>
    refine .bind (yields_filterJoined (hc _ (List.mem_cons_self ..)) h) fun filtered m _ hf => ?_
    exact ih (fun d hd => hc d (List.mem_cons_of_mem _ hd)) hf

theorem yields_joinAll {joins : List (JoinKind × Label × Draft Label)} {input : Label}
    (hj : ∀ j ∈ joins, j.2.1.Below n ∧ j.2.2.Orderly) (h : input.Below n) :
    (joinAll input joins).Yields n Label.Below := by
  induction joins generalizing n input with
  | nil => exact .pure h
  | cons j rest ih =>
    obtain ⟨kind, right, matching⟩ := j
    have hfirst := hj _ (List.mem_cons_self ..)
    refine .bind (hfirst.2 n) fun condition m hm hc => ?_
    refine .bind (M := Label.Below) (.step ?_) fun joined k hk hjoined => ?_
    · simpa [and_assoc] using ⟨h.mono hm, hfirst.1.mono hm, hc⟩
    · refine ih (fun j hmem => ?_) hjoined
      have hrest := hj j (List.mem_cons_of_mem _ hmem)
      exact ⟨hrest.1.mono (Nat.le_trans hm hk), hrest.2⟩

theorem yields_joinChain {sources : List Source} {stages : List Stage} {results : List Label}
    (hs : ∀ stage ∈ stages, stage.Orderly) (h : ∀ a ∈ results, a.Below n) :
    (joinChain sources stages results).Yields n Label.Below := by
  unfold joinChain
  split
  · exact .fail
  · rename_i first others
    refine yields_joinAll (fun j hj => ?_) (h first (List.mem_cons_self ..))
    have hpair := (List.of_mem_zip (a := j.1) (b := j.2) hj).2
    have hmem := List.of_mem_zip (a := j.2.1) (b := j.2.2) hpair
    refine ⟨h _ (List.mem_cons_of_mem _ hmem.1), ?_⟩
    obtain ⟨stage, hstage, heq⟩ := List.mem_map.mp hmem.2
    rw [← heq]
    exact (hs stage (List.mem_of_mem_tail hstage)).matching

theorem yields_retrieveAll {items : List (Draft Label)} (hi : ∀ d ∈ items, d.Orderly)
    {input : Label} (h : input.Below n) :
    (retrieveAll input items).Yields n fun columns next => ∀ a ∈ columns, a.Below next := by
  induction items generalizing n with
  | nil => exact .pure (by simp)
  | cons item rest ih =>
    refine .bind (hi item (List.mem_cons_self ..) n) fun column m hm hc => ?_
    refine .bind (M := Label.Below) (.step ?_) fun retrieved k hk hr => ?_
    · simpa using ⟨hc, h.mono hm⟩
    · have hrest : ∀ d ∈ rest, d.Orderly := fun d hd => hi d (List.mem_cons_of_mem _ hd)
      refine .bind (ih hrest (h.mono (Nat.le_trans hm hk))) fun columns l hl hcol => .pure ?_
      exact List.forall_mem_cons.mpr ⟨hr.mono hl, hcol⟩

theorem orderly_selectJoin {items : List FromItem} {stages : List Stage}
    {conjuncts : List (Expr × Draft Label)} {groups : GroupClauses} {rows : RowClauses}
    {columns : List (Draft Label)} {distinct : Bool} (hs : ∀ stage ∈ stages, stage.Orderly)
    (hc : ∀ c ∈ conjuncts, c.2.Orderly) (hg : groups.Orderly) (hr : rows.Orderly)
    (hi : ∀ d ∈ columns, d.Orderly) :
    (selectJoin items stages conjuncts groups rows columns distinct).Orderly := by
  intro n
  refine .bind (M := fun _ _ => True) (.ofExcept fun _ _ => trivial) fun sources n1 _ _ => ?_
  refine .bind (yields_joinInputs hs hc) fun out n2 _ h2 => ?_
  refine .bind (yields_joinChain hs h2.1) fun joined n3 _ h3 => ?_
  refine .bind (yields_filterAll h2.2 h3) fun filtered n4 _ h4 => ?_
  refine .bind (hg.apply h4) fun grouped n5 _ h5 => ?_
  refine .bind (hr.apply h5) fun arranged n6 _ h6 => ?_
  refine .bind (yields_retrieveAll hi h6) fun retrieved n7 _ h7 => ?_
  refine .bind (M := Label.Below) (.step (by simpa using h7)) fun result n8 _ h8 => ?_
  exact yields_unique h8

theorem yields_combine {op : SetOperator} {all : Bool} {left right : Label} (hl : left.Below n)
    (hr : right.Below n) : (combine op all left right).Yields n Label.Below := by
  refine .step ?_
  cases op <;> simp [hl, hr]

end Draft

/-! ## Expressions and queries -/

namespace Sql

open Draft

variable (s : Settings)

theorem orderly_equalityLabel {left right : Draft Label} (hl : left.Orderly) (hr : right.Orderly) :
    (equalityLabel left right).Orderly := by
  intro n
  refine .bind (hl n) fun a m _ ha => ?_
  refine .bind (hr m) fun b k hk hb => .pure ?_
  simpa using ⟨ha.mono hk, hb⟩

/-- The stages of a FROM clause are orderly once its subqueries and the sides of its join conditions
are. -/
theorem orderly_stage {link : Source.Link}
    (hd : ∀ query aliasName, link.1 = .derived query aliasName → (query.draft s).Orderly)
    (hm : ∀ e, link.2.2 = .on e → ∀ c ∈ e.conjuncts, ∀ l op r, c.withoutParens = .binary l op r →
      (l.draft s .kept).Orderly ∧ (r.draft s .kept).Orderly) :
    Stage.Orderly ⟨link.1.store s, link.2.2.draft s⟩ := by
  obtain ⟨relation, kind, constraint⟩ := link
  constructor
  · intro name n
    cases relation with
    | table path aliasName => exact .step (Label.below_text _)
    | derived query aliasName =>
      refine .bind (hd query aliasName rfl n) fun rows m _ hr => .step ?_
      simpa using hr
  · intro n
    cases constraint with
    | unconstrained => exact .pure (Label.below_text _)
    | shared columns => exact .fail
    | natural => exact .fail
    | on e =>
      have hsides : ∀ d ∈ e.equalityDrafts s, d.Orderly := by
        refine e.forall_equalityDrafts s (fun c hc l r hb => ?_) fun _ _ => .fail
        have hboth := hm e rfl c hc l .eq r hb
        exact orderly_equalityLabel hboth.1 hboth.2
      refine .bind (.sequence hsides n) fun labels m _ hl => .pure ?_
      simpa using hl

theorem orderly_rowClauses {q : Query} (h : q.RowParts fun e => ∀ qs, (e.draft s qs).Orderly)
    (qs : Qualifiers) : RowClauses.Orderly
      ⟨draftsOfOrder s qs q.orderBy, draftOfOption s qs q.offset, draftOfOption s qs q.limit⟩ where
  keys d hd := by
    simp only [draftsOfOrder_eq_map, List.mem_map] at hd
    obtain ⟨⟨key, descending⟩, hi, rfl⟩ := hd
    intro n
    exact .bind (h.order _ hi qs n) fun a m _ ha => .pure (by simpa using ha)
  offset := forall_draftOfOption s fun e he => h.offset e he qs
  limit := forall_draftOfOption s fun e he => h.limit e he qs

theorem orderly_groupClauses {b : Select} {Q : Query → Prop}
    (h : b.Parts (fun e => ∀ qs, (e.draft s qs).Orderly) Q) (qs : Qualifiers) :
    GroupClauses.Orderly ⟨draftsOfExprs s qs b.groupBy, draftOfOption s qs b.having⟩ where
  keys := forall_draftsOfExprs s fun e he => h.keys e he qs
  having := forall_draftOfOption s fun e he => h.having e he qs

theorem orderly_item {item : SelectItem}
    (h : ∀ value aliasName, item = .expr value aliasName → (value.draft s .kept).Orderly) :
    (item.draft s).Orderly := by
  intro n
  cases item with
  | all => exact .pure (Label.below_text _)
  | allOf table => exact .pure (Label.below_text _)
  | expr value aliasName =>
    exact .bind (h value aliasName rfl n) fun a m _ ha => .pure (by simpa using ha)

theorem orderly_load {relation : Relation}
    (h : ∀ query aliasName, relation = .derived query aliasName → (query.draft s).Orderly) :
    (relation.load s).Orderly := by
  intro n
  cases relation with
  | table path aliasName => exact .step (by simp)
  | derived query aliasName =>
    exact .bind (h query aliasName rfl n) fun a m _ ha => .pure (by simpa using ha)

theorem orderly_select {b : Select}
    (h : b.Parts (fun e => ∀ qs, (e.draft s qs).Orderly) fun q => (q.draft s).Orderly)
    {rows : Qualifiers → RowClauses} (hr : ∀ q, (rows q).Orderly) : (b.draft s rows).Orderly := by
  have hg := orderly_groupClauses s h
  have hitems : ∀ d ∈ b.projection.map (SelectItem.draft s), d.Orderly :=
    List.forall_mem_map.mpr fun item hi =>
      orderly_item s fun value aliasName hv => h.items value aliasName (hv ▸ hi) .kept
  rw [Select.draft_eq]
  split
  · refine orderly_selectJoin (List.forall_mem_map.mpr fun link hl => ?_)
      (List.forall_mem_map.mpr fun e he => h.conjuncts e he .kept) (hg .dropped) (hr .dropped)
      hitems
    refine orderly_stage s (h.derived link hl) fun e he c hc l op r hb => ?_
    have hsides := h.matching link hl e he c hc l op r hb
    exact ⟨hsides.1 .kept, hsides.2 .kept⟩
  · refine orderly_selectSingle (fun d hd => ?_) (fun d hd => ?_) (hg .kept) (hr .kept) hitems
    · obtain ⟨link, hl, rfl⟩ := Option.map_eq_some_iff.mp hd
      exact orderly_load s (h.derived link (List.mem_of_mem_head? hl))
    · obtain ⟨e, he, rfl⟩ := Option.map_eq_some_iff.mp hd
      exact (h.condition e he).1 .kept

/-- Translating is orderly: every constructor adds its steps after those of its parts and refers to
the labels of its parts only. -/
theorem hereditary_orderly :
    Hereditary (fun e => ∀ qs, (e.draft s qs).Orderly) fun q => (q.draft s).Orderly where
  column c q n := .pure (Label.below_text _)
  literal v q n := .pure (Label.below_text _)
  binary l op r hl hr q n := by
    refine .bind (hl q n) fun a m _ ha => .bind (hr q m) fun b k hk hb => ?_
    have hphrase : ((a.before op.words) ++ b).Below k := by simpa using ⟨ha.mono hk, hb⟩
    dsimp only
    split
    · exact .pure hphrase
    · exact .check hphrase
  unary op e he q n := by
    refine .bind (he q n) fun a m _ ha => ?_
    cases op with
    | not => exact .check (by simpa using ha)
    | neg => exact .pure (by simpa using ha)
    | plus => exact .pure ha
  isValue e v negated he q n :=
    .bind (he q n) fun a m _ ha => .check (by simpa using ha)
  between e low high negated he hlow hhigh q n := by
    refine .bind (he q n) fun a m _ ha => ?_
    refine .bind (hlow q m) fun b k hk hb => ?_
    refine .bind (hhigh q k) fun c l hl hc => .check ?_
    simpa [and_assoc] using ⟨(ha.mono hk).mono hl, hb.mono hl, hc⟩
  inList e items negated he hi q n := by
    refine .bind (he q n) fun a m _ ha => ?_
    have hs := forall_draftsOfExprs s fun i him => hi i him q
    refine .bind (.sequence hs m) fun labels k hk hl => .check ?_
    simpa using ⟨ha.mono hk, hl⟩
  inQuery e query negated he hq q n := by
    refine .bind (he q n) fun a m _ ha => ?_
    refine .bind (hq m) fun rows k hk hr => .check ?_
    simpa using ⟨ha.mono hk, hr⟩
  existsQuery query negated hq q n :=
    .bind (hq n) fun rows m _ hr => .check (by simpa using hr)
  subquery query hq q n := hq n
  like e pattern negated ignoreCase he hp q n := by
    refine .bind (he q n) fun a m _ ha => ?_
    refine .bind (hp q m) fun b k hk hb => .check ?_
    simpa using ⟨ha.mono hk, hb⟩
  call f args distinct ha q n := by
    unfold Expr.draft
    split
    · exact .pure (Label.below_text _)
    · split
      · exact .fail
      · have hs := forall_draftsOfExprs s fun a ham => ha a ham q
        exact .bind (.sequence hs n) fun labels m _ hl => .pure (by simpa using hl)
  nested e he q n := by
    refine .bind (he q n) fun a m _ ha => .pure ?_
    split
    · simpa using ha
    · exact ha
  wildcard q n := .fail
  select block orderBy limit offset hb hr := orderly_select s hb (orderly_rowClauses s hr)
  setOperation op all l r orderBy limit offset hl hr hrows n := by
    refine .bind (hl n) fun a m _ ha => ?_
    refine .bind (hr m) fun b k hk hb => ?_
    refine .bind (yields_combine (ha.mono hk) hb) fun c j _ hc => ?_
    exact (orderly_rowClauses s hrows .kept).apply hc

theorem orderly_stagesOfItems (items : List FromItem) :
    ∀ stage ∈ stagesOfItems s items, stage.Orderly := by
  intro stage hs
  rw [stagesOfItems_eq_map] at hs
  obtain ⟨link, -, rfl⟩ := List.mem_map.mp hs
  have h := hereditary_orderly s
  exact orderly_stage s (fun q _ _ => h.query q) fun _ _ _ _ l _ r _ =>
    ⟨h.expr l .kept, h.expr r .kept⟩

end Sql

end QuerySteps
