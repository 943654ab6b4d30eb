import QuerySteps.Proofs.Syntax.Pieces
import QuerySteps.Proofs.Translate.LinearUse

/-!
# No result is lost

What a step computes is used by a later step of the query, or the label of the query names it. The
proof keeps accounts of one identifier as those for checks do, but of any identifier, and without
asking for more than one reference: results of tables may be used by several steps, such as those
that retrieve the columns of a join (`Draft.Retains`).

Results are lost in one place only. A join from which no column is retrieved is not referred to, so
SELECT blocks over several relations have to name columns (`Query.RetrievesColumns`).
-/

namespace QuerySteps

open Sql

namespace Draft

variable {α β : Type} {id : StepId} {held : Nat}

/-- In every run, the references made by the steps and those that `count` finds in the value are
at least those held at the start and one for each step that takes the identifier. -/
def Retains (d : Draft α) (id : StepId) (held : Nat) (count : α → Nat) : Prop :=
  ∀ first r, d first = .ok r →
    held + (Plan.ids r.steps).count id ≤ Plan.refCount r.steps id + count r.value

/-- The draft uses its results or refers to them in its label. -/
abbrev Thrifty (id : StepId) (d : Draft Label) : Prop :=
  d.Retains id 0 (Label.uses id)

theorem Retains.mono {d : Draft α} {less : Nat} {count : α → Nat} (h : d.Retains id held count)
    (hle : less ≤ held) : d.Retains id less count :=
  fun first r hr => Nat.le_trans (Nat.add_le_add_right hle _) (h first r hr)

theorem Retains.pure {a : α} {count : α → Nat} (h : held ≤ count a) :
    Retains (pure a) id held count := by
  intro first r hr
  cases hr
  simpa [Plan.refCount, Plan.refs] using h

/-- What the value of the first draft refers to is held by the second, besides what is held
anyway. The second may rely on the first having run. -/
theorem Retains.bind_run {x : Draft α} {f : α → Draft β} {m : α → Nat} {n : β → Nat}
    {other : Nat} (hx : x.Retains id other m)
    (hf : ∀ first r, x first = .ok r → (f r.value).Retains id (held + m r.value) n) :
    (x >>= f).Retains id (held + other) n := by
  intro first r hr
  obtain ⟨a, ha, b, hb, rfl⟩ := bind_eq_ok.mp hr
  have hfirst := hx first a ha
  have hsecond := hf first a ha a.next b hb
  simp only [Plan.refCount, Plan.refs_append, Plan.ids_append, List.count_append] at *
  omega

theorem Retains.bind {x : Draft α} {f : α → Draft β} {m : α → Nat} {n : β → Nat}
    (hx : x.Retains id 0 m) (hf : ∀ a, (f a).Retains id (held + m a) n) :
    (x >>= f).Retains id held n :=
  Retains.bind_run hx fun _ r _ => hf r.value

/-- After a draft that accounts for everything that is held, only its own value is held. -/
theorem Retains.andThen_run {x : Draft α} {f : α → Draft β} {m : α → Nat} {n : β → Nat}
    (hx : x.Retains id held m)
    (hf : ∀ first r, x first = .ok r → (f r.value).Retains id (m r.value) n) :
    (x >>= f).Retains id held n := by
  rw [← Nat.zero_add held]
  refine Retains.bind_run hx fun first r hr => ?_
  rw [Nat.zero_add]
  exact hf first r hr

theorem Retains.andThen {x : Draft α} {f : α → Draft β} {m : α → Nat} {n : β → Nat}
    (hx : x.Retains id held m) (hf : ∀ a, (f a).Retains id (m a) n) :
    (x >>= f).Retains id held n :=
  Retains.andThen_run hx fun _ r _ => hf r.value

/-- A step uses what its sentence refers to, and its label refers to the step. -/
theorem Retains.step {sentence : Label} (h : held ≤ sentence.uses id) :
    (Draft.step sentence).Retains id held (Label.uses id) := by
  intro first r hr
  cases hr
  simp only [Label.uses, Label.refs] at h
  simpa [Plan.refCount, Plan.refs, Plan.ids, Step.refs, Label.uses, List.count_singleton] using h

theorem Retains.fail {e : PlanError} {count : α → Nat} :
    (Draft.fail e).Retains id held count := by
  intro first r hr
  cases hr

theorem Retains.ofExcept {x : Except PlanError α} :
    (Draft.ofExcept x).Retains id 0 fun _ => 0 := by
  intro first r hr
  cases x with
  | error e => cases hr
  | ok a =>
    cases hr
    exact Nat.zero_le _

theorem Retains.sequence {ds : List (Draft Label)} (h : ∀ d ∈ ds, d.Thrifty id) :
    (Draft.sequence ds).Retains id 0 fun labels => (labels.map (Label.uses id)).sum := by
  induction ds with
  | nil => exact .pure (Nat.le_refl _)
  | cons d ds ih =>
    obtain ⟨hd, hds⟩ := List.forall_mem_cons.mp h
    refine Retains.bind hd fun a => .bind (ih hds) fun rest => .pure ?_
    simp

def usesOf (id : StepId) (a : Option Label) : Nat :=
  a.elim 0 (Label.uses id)

theorem Retains.optional {d : Option (Draft Label)} (h : ∀ x ∈ d, x.Thrifty id) :
    (Draft.optional d).Retains id 0 (usesOf id) := by
  cases d with
  | none => exact .pure (Nat.le_refl _)
  | some d => exact .bind (h d rfl) fun a => .pure (Nat.le_of_eq (Nat.zero_add _))

theorem length_of_sequence {ds : List (Draft α)} {first : StepId} {r : Drafted (List α)}
    (h : Draft.sequence ds first = .ok r) : r.value.length = ds.length := by
  induction ds generalizing first r with
  | nil =>
    cases h
    rfl
  | cons d ds ih =>
    obtain ⟨a, -, b, hb, rfl⟩ := bind_eq_ok.mp h
    obtain ⟨rest, hrest, c, hc, rfl⟩ := bind_eq_ok.mp hb
    cases hc
    simpa using ih hrest

end Draft

/-! ## Clauses -/

open Draft

/-- The property holds of every draft of the clauses. -/
structure GroupClauses.All (p : Draft Label → Prop) (c : GroupClauses) : Prop where
  keys : ∀ d ∈ c.keys, p d
  having : ∀ d ∈ c.having, p d

structure RowClauses.All (p : Draft Label → Prop) (c : RowClauses) : Prop where
  keys : ∀ d ∈ c.keys, p d
  offset : ∀ d ∈ c.offset, p d
  limit : ∀ d ∈ c.limit, p d

structure Stage.All (p : Draft Label → Prop) (s : Stage) : Prop where
  store : ∀ name, p (s.store name)
  matching : p s.matching

variable {id : StepId}

theorem GroupClauses.All.retains_apply {c : GroupClauses} (h : c.All (Thrifty id)) {input : Label} :
    (c.apply input).Retains id (input.uses id) (Label.uses id) := by
  refine .andThen (m := Label.uses id) ?_ fun input => ?_
  · unfold group
    split
    · exact .pure (Nat.le_refl _)
    · exact .bind (.sequence h.keys) fun keys => .step (by simp)
  · unfold GroupClauses.filter
    split
    · exact .pure (Nat.le_refl _)
    · rename_i condition hc
      exact .bind (h.having condition hc) fun a => .step (by simp)

namespace RowClauses

theorem retains_order {keys : List (Draft Label)} (h : ∀ d ∈ keys, d.Thrifty id) {input : Label} :
    (order keys input).Retains id (input.uses id) (Label.uses id) := by
  unfold order
  split
  · exact .pure (Nat.le_refl _)
  · exact .bind (.sequence h) fun keys => .step (by simp)

theorem retains_cut {words : String} {count : Option (Draft Label)}
    (h : ∀ d ∈ count, d.Thrifty id) {input : Label} :
    (cut words count input).Retains id (input.uses id) (Label.uses id) := by
  unfold cut
  split
  · exact .pure (Nat.le_refl _)
  · rename_i count
    exact .bind (h count rfl) fun a => .step (by simp [Nat.add_comm])

theorem All.retains_apply {c : RowClauses} (h : c.All (Thrifty id)) {input : Label} :
    (c.apply input).Retains id (input.uses id) (Label.uses id) :=
  .andThen (retains_order h.keys) fun _ => .andThen (retains_cut h.offset) fun _ =>
    retains_cut h.limit

end RowClauses

namespace Draft

theorem uses_inputOr_eq (input : Option Label) : (inputOr input).uses id = usesOf id input := by
  cases input <;> rfl

theorem retains_unique {distinct : Bool} {input : Label} :
    (unique distinct input).Retains id (input.uses id) (Label.uses id) := by
  unfold unique
  split
  · exact .step (by simp)
  · exact .pure (Nat.le_refl _)

theorem retains_filterSingle {condition : Option (Draft Label)}
    (hc : ∀ d ∈ condition, d.Thrifty id) {input : Option Label} :
    (filterSingle condition input).Retains id (usesOf id input) (usesOf id) := by
  unfold filterSingle
  split
  · exact .pure (Nat.le_refl _)
  · rename_i condition
    refine .bind (hc condition rfl) fun a => ?_
    refine .andThen (.step (by simp [uses_inputOr_eq])) fun result => .pure (Nat.le_refl _)

theorem retains_arrangeSingle {groups : GroupClauses} {rows : RowClauses}
    (hg : groups.All (Thrifty id)) (hr : rows.All (Thrifty id)) {input : Option Label} :
    (arrangeSingle groups rows input).Retains id (usesOf id input) (usesOf id) := by
  unfold arrangeSingle
  split
  · rw [← uses_inputOr_eq]
    refine .andThen hg.retains_apply fun grouped => ?_
    exact .andThen hr.retains_apply fun arranged => .pure (Nat.le_refl _)
  · exact .pure (Nat.le_refl _)

theorem retains_createTable {columns : List Label} {input : Option Label} :
    (createTable columns input).Retains id
      (usesOf id input + (columns.map (Label.uses id)).sum) (Label.uses id) := by
  unfold createTable
  cases input with
  | none => exact .step (by simp [usesOf])
  | some a => exact .step (by simp [usesOf, Nat.add_comm])

theorem thrifty_selectSingle {load condition : Option (Draft Label)} {groups : GroupClauses}
    {rows : RowClauses} {items : List (Draft Label)} {distinct : Bool}
    (hl : ∀ d ∈ load, d.Thrifty id) (hc : ∀ d ∈ condition, d.Thrifty id)
    (hg : groups.All (Thrifty id)) (hr : rows.All (Thrifty id)) (hi : ∀ d ∈ items, d.Thrifty id) :
    (selectSingle load condition groups rows items distinct).Thrifty id := by
  refine .andThen (.optional hl) fun loaded => .andThen (retains_filterSingle hc) fun filtered => ?_
  refine .andThen (retains_arrangeSingle hg hr) fun arranged => ?_
  refine .bind (.sequence hi) fun columns => ?_
  exact .andThen retains_createTable fun result => retains_unique

theorem retains_filterJoined {condition : Draft Label} (hc : condition.Thrifty id)
    {input : Label} : (filterJoined condition input).Retains id (input.uses id) (Label.uses id) :=
  .bind hc fun a => .step (by simp)

/-! ### Joins -/

theorem value_of_filterSources {sources : List Source} {results : List Label}
    {conjuncts : List (Expr × Draft Label)} {first : StepId}
    {r : Drafted (List Label × List (Draft Label))}
    (h : filterSources sources results conjuncts first = .ok r) :
    r.value.1.length = results.length ∧ ∀ d ∈ r.value.2, d ∈ conjuncts.map (·.2) := by
  induction conjuncts generalizing results first r with
  | nil =>
    cases h
    exact ⟨rfl, by simp⟩
  | cons c rest ih =>
    obtain ⟨conjunct, condition⟩ := c
    cases ht : Source.pushTarget? sources conjunct with
    | some i =>
      simp only [filterSources, ht] at h
      obtain ⟨a, -, b, hb, rfl⟩ := bind_eq_ok.mp h
      obtain ⟨hlength, hothers⟩ := ih hb
      exact ⟨by simpa using hlength, fun d hd => List.mem_cons_of_mem _ (hothers d hd)⟩
    | none =>
      simp only [filterSources, ht] at h
      obtain ⟨a, ha, b, hb, rfl⟩ := bind_eq_ok.mp h
      cases hb
      obtain ⟨hlength, hothers⟩ := ih ha
      refine ⟨hlength, List.forall_mem_cons.mpr ⟨List.mem_cons_self .., fun d hd => ?_⟩⟩
      exact List.mem_cons_of_mem _ (hothers d hd)

theorem lt_length_of_pushTarget? {sources : List Source} {condition : Expr} {i : Nat}
    (h : Source.pushTarget? sources condition = some i) : i < sources.length := by
  obtain ⟨-, hi⟩ := Option.filter_eq_some_iff.mp h
  by_contra hn
  simp [List.getElem?_eq_none (Nat.le_of_not_lt hn)] at hi

theorem sum_uses_set (id : StepId) {results : List Label} {i : Nat} (hi : i < results.length)
    (a : Label) :
    ((results.set i a).map (Label.uses id)).sum + (results[i]?.getD {}).uses id =
      (results.map (Label.uses id)).sum + a.uses id := by
  induction results generalizing i with
  | nil => cases hi
  | cons b rest ih =>
    cases i with
    | zero =>
      simp only [List.set_cons_zero, List.map_cons, List.sum_cons, List.getElem?_cons_zero,
        Option.getD_some]
      omega
    | succ i =>
      have hrest := ih (Nat.lt_of_succ_lt_succ hi)
      simp only [List.set_cons_succ, List.map_cons, List.sum_cons, List.getElem?_cons_succ]
      omega

theorem retains_filterSources {sources : List Source} {conjuncts : List (Expr × Draft Label)}
    (hc : ∀ c ∈ conjuncts, c.2.Thrifty id) {results : List Label}
    (hlength : results.length = sources.length) :
    (filterSources sources results conjuncts).Retains id (results.map (Label.uses id)).sum
      fun out => (out.1.map (Label.uses id)).sum := by
  induction conjuncts generalizing results with
  | nil => exact .pure (Nat.le_refl _)
  | cons c rest ih =>
    obtain ⟨conjunct, condition⟩ := c
    obtain ⟨hcondition, hrest⟩ := List.forall_mem_cons.mp hc
    unfold filterSources
    split
    · rename_i i hi
      have hlt : i < results.length := hlength ▸ lt_length_of_pushTarget? hi
      -- The result at `i` is used by the filter, and the filter takes its place.
      have hinput : (results.map (Label.uses id)).sum =
          (results.map (Label.uses id)).sum - (results[i]?.getD {}).uses id +
            (results[i]?.getD {}).uses id := by
        have hempty := sum_uses_set id hlt {}
        simp only [Label.uses_nil] at hempty
        omega
      rw [hinput]
      refine .bind_run (retains_filterJoined hcondition) fun _ filtered _ => ?_
      refine .mono (ih hrest (by simpa using hlength)) ?_
      have hset := sum_uses_set id hlt filtered.value
      omega
    · exact .andThen (ih hrest hlength) fun out => .pure (Nat.le_refl _)

theorem retains_joinInputs {sources : List Source} {stages : List Stage}
    {conjuncts : List (Expr × Draft Label)} (hs : ∀ stage ∈ stages, stage.All (Thrifty id))
    (hc : ∀ c ∈ conjuncts, c.2.Thrifty id) (hlength : stages.length = sources.length) :
    (joinInputs sources stages conjuncts).Retains id 0
      fun out => (out.1.map (Label.uses id)).sum := by
  have hstores : ∀ d ∈ sources.zipWith (fun source stage => stage.store source.name) stages,
      d.Thrifty id := by
    intro d hd
    rw [← List.map_uncurry_zip_eq_zipWith] at hd
    obtain ⟨pair, hpair, rfl⟩ := List.mem_map.mp hd
    exact (hs pair.2 (List.of_mem_zip hpair).2).store _
  refine .andThen_run (.sequence hstores) fun _ loaded hloaded => retains_filterSources hc ?_
  rw [length_of_sequence hloaded, List.length_zipWith, hlength, Nat.min_self]

theorem length_of_joinInputs {sources : List Source} {stages : List Stage}
    {conjuncts : List (Expr × Draft Label)} {first : StepId}
    {r : Drafted (List Label × List (Draft Label))} (hlength : stages.length = sources.length)
    (h : joinInputs sources stages conjuncts first = .ok r) :
    r.value.1.length = sources.length ∧ ∀ d ∈ r.value.2, d ∈ conjuncts.map (·.2) := by
  obtain ⟨loaded, hloaded, filtered, hfiltered, rfl⟩ := bind_eq_ok.mp h
  have hresult := value_of_filterSources hfiltered
  rwa [length_of_sequence hloaded, List.length_zipWith, hlength, Nat.min_self] at hresult

theorem retains_filterAll {conditions : List (Draft Label)}
    (hc : ∀ d ∈ conditions, d.Thrifty id) {input : Label} :
    (filterAll input conditions).Retains id (input.uses id) (Label.uses id) := by
  induction conditions generalizing input with
  | nil => exact .pure (Nat.le_refl _)
  | cons condition rest ih =>
    obtain ⟨hcondition, hrest⟩ := List.forall_mem_cons.mp hc
    exact .andThen (retains_filterJoined hcondition) fun filtered => ih hrest

theorem retains_joinAll {joins : List (JoinKind × Label × Draft Label)}
    (hj : ∀ j ∈ joins, j.2.2.Thrifty id) {input : Label} :
    (joinAll input joins).Retains id
      (input.uses id + ((joins.map (·.2.1)).map (Label.uses id)).sum) (Label.uses id) := by
  induction joins generalizing input with
  | nil => exact .pure (by simp)
  | cons j rest ih =>
    obtain ⟨kind, right, matching⟩ := j
    obtain ⟨hmatching, hrest⟩ := List.forall_mem_cons.mp hj
    refine .bind hmatching fun condition => ?_
    -- The joined relation is used by its join, and the other relations are held for theirs.
    have hheld : input.uses id +
        ((((kind, right, matching) :: rest).map (·.2.1)).map (Label.uses id)).sum +
        condition.uses id =
        ((rest.map (·.2.1)).map (Label.uses id)).sum +
          (input.uses id + right.uses id + condition.uses id) := by
      simp only [List.map_cons, List.sum_cons]
      omega
    rw [hheld]
    refine .bind_run (.step ?_) fun _ joined _ => ?_
    · simp
    · rw [Nat.add_comm]
      exact ih hrest

theorem retains_joinChain {sources : List Source} {stages : List Stage} {results : List Label}
    (hs : ∀ stage ∈ stages, stage.All (Thrifty id)) (hresults : results.length = sources.length)
    (hstages : stages.length = sources.length) :
    (joinChain sources stages results).Retains id (results.map (Label.uses id)).sum
      (Label.uses id) := by
  unfold joinChain
  split
  · exact .fail
  · rename_i first others
    have hall : (((sources.tail.map (·.kind)).zip
        (others.zip (stages.tail.map (·.matching)))).map fun j => j.2.1) = others := by
      have hlengths : others.length = (stages.tail.map (·.matching)).length := by
        simp only [List.length_cons] at hresults
        simp only [List.length_map, List.length_tail]
        omega
      have hkinds : (others.zip (stages.tail.map (·.matching))).length =
          (sources.tail.map (·.kind)).length := by
        simp only [List.length_cons] at hresults
        simp only [List.length_zip, List.length_map, List.length_tail]
        omega
      have hpairs := congrArg (List.map Prod.fst) (List.map_snd_zip (Nat.le_of_eq hkinds))
      rwa [List.map_map, List.map_fst_zip (Nat.le_of_eq hlengths)] at hpairs
    have hmatching : ∀ j ∈ (sources.tail.map (·.kind)).zip
        (others.zip (stages.tail.map (·.matching))), j.2.2.Thrifty id := by
      intro j hj
      have hpair := (List.of_mem_zip (a := j.1) (b := j.2) hj).2
      obtain ⟨stage, hstage, heq⟩ :=
        List.mem_map.mp (List.of_mem_zip (a := j.2.1) (b := j.2.2) hpair).2
      rw [← heq]
      exact (hs stage (List.mem_of_mem_tail hstage)).matching
    have hjoins : (joinAll first _).Retains id _ _ := retains_joinAll hmatching
    rwa [hall] at hjoins

theorem retains_retrieveAll {items : List (Draft Label)} (hi : ∀ d ∈ items, d.Thrifty id)
    {input : Label} : (retrieveAll input items).Retains id (items.length * input.uses id)
      fun columns => (columns.map (Label.uses id)).sum := by
  induction items with
  | nil => exact .pure (by simp)
  | cons item rest ih =>
    obtain ⟨hitem, hrest⟩ := List.forall_mem_cons.mp hi
    refine .bind hitem fun column => ?_
    rw [List.length_cons, Nat.succ_mul, Nat.add_assoc]
    refine .bind_run (.step ?_) fun _ retrieved _ => ?_
    · simp [Nat.add_comm]
    · rw [Nat.add_comm]
      refine .bind_run (ih hrest) fun _ columns _ => .pure ?_
      simp

theorem thrifty_selectJoin {items : List FromItem} {stages : List Stage}
    {conjuncts : List (Expr × Draft Label)} {groups : GroupClauses} {rows : RowClauses}
    {columns : List (Draft Label)} {distinct : Bool}
    (hlength : stages.length = (Source.links items).length)
    (hs : ∀ stage ∈ stages, stage.All (Thrifty id)) (hc : ∀ c ∈ conjuncts, c.2.Thrifty id)
    (hg : groups.All (Thrifty id)) (hr : rows.All (Thrifty id)) (hi : ∀ d ∈ columns, d.Thrifty id)
    (hne : columns ≠ []) :
    (selectJoin items stages conjuncts groups rows columns distinct).Thrifty id := by
  refine .andThen_run .ofExcept fun _ sources hsources => ?_
  have hstages : stages.length = sources.value.length := by
    cases hitems : Source.ofItems items with
    | error e => simp [Draft.ofExcept, hitems, Except.map] at hsources
    | ok found =>
      simp only [Draft.ofExcept, hitems, Except.map, Except.ok.injEq] at hsources
      rw [hlength, ← hsources, Source.length_ofItems hitems]
  refine .andThen_run (retains_joinInputs hs hc hstages) fun _ inputs hinputs => ?_
  obtain ⟨hresults, hothers⟩ := length_of_joinInputs hstages hinputs
  refine .andThen (retains_joinChain hs hresults hstages) fun joined => ?_
  refine .andThen (retains_filterAll fun d hd => ?_) fun filtered => ?_
  · obtain ⟨c, hmem, rfl⟩ := List.mem_map.mp (hothers d hd)
    exact hc c hmem
  refine .andThen hg.retains_apply fun grouped => .andThen hr.retains_apply fun arranged => ?_
  refine .andThen (.mono (retains_retrieveAll hi) ?_) fun retrieved => ?_
  · exact Nat.le_mul_of_pos_left _ (List.length_pos_iff.mpr hne)
  · exact .andThen (.step (by simp)) fun result => retains_unique

theorem retains_combine {op : SetOperator} {all : Bool} {left right : Label} :
    (combine op all left right).Retains id (left.uses id + right.uses id) (Label.uses id) := by
  cases op <;> exact .step (by simp)

end Draft

/-! ## Expressions and queries -/

namespace Sql

variable (s : Settings)

theorem thrifty_equalityLabel {left right : Draft Label} (hl : left.Thrifty id)
    (hr : right.Thrifty id) : (equalityLabel left right).Thrifty id :=
  .bind hl fun a => .bind hr fun b => .pure (by simp)

/-- The stages of a FROM clause lose no results if its subqueries and the sides of its join
conditions do not. -/
theorem thrifty_stage {link : Source.Link}
    (hd : ∀ query aliasName, link.1 = .derived query aliasName → (query.draft s).Thrifty id)
    (hm : ∀ e, link.2.2 = .on e → ∀ c ∈ e.conjuncts, ∀ l op r, c.withoutParens = .binary l op r →
      (l.draft s .kept).Thrifty id ∧ (r.draft s .kept).Thrifty id) :
    Stage.All (Thrifty id) ⟨link.1.store s, link.2.2.draft s⟩ := by
  obtain ⟨relation, kind, constraint⟩ := link
  constructor
  · intro name
    cases relation with
    | table path aliasName => exact .step (Nat.zero_le _)
    | derived query aliasName =>
      exact .bind (hd query aliasName rfl) fun rows => .step (by simp)
  · cases constraint with
    | unconstrained => exact .pure (Nat.zero_le _)
    | shared columns => exact .fail
    | natural => exact .fail
    | on e =>
      have hsides : ∀ d ∈ e.equalityDrafts s, d.Thrifty id := by
        refine e.forall_equalityDrafts s (fun c hc l r hb => ?_) fun _ => .fail
        have hboth := hm e rfl c hc l .eq r hb
        exact thrifty_equalityLabel hboth.1 hboth.2
      exact .bind (.sequence hsides) fun labels => .pure (by simp)

theorem all_rowClauses {p : Draft Label → Prop} {q : Query}
    (h : q.RowParts fun e => ∀ qs, p (e.draft s qs))
    (hkey : ∀ key descending qs, p (key.draft s qs) → p (OrderItem.draft s qs ⟨key, descending⟩))
    (qs : Qualifiers) : RowClauses.All p
      ⟨draftsOfOrder s qs q.orderBy, draftOfOption s qs q.offset, draftOfOption s qs q.limit⟩ where
  keys d hd := by
    simp only [draftsOfOrder_eq_map, List.mem_map] at hd
    obtain ⟨⟨key, descending⟩, hi, rfl⟩ := hd
    exact hkey key descending qs (h.order _ hi qs)
  offset := forall_draftOfOption s fun e he => h.offset e he qs
  limit := forall_draftOfOption s fun e he => h.limit e he qs

theorem all_groupClauses {p : Draft Label → Prop} {b : Select} {Q : Query → Prop}
    (h : b.Parts (fun e => ∀ qs, p (e.draft s qs)) Q) (qs : Qualifiers) :
    GroupClauses.All p ⟨draftsOfExprs s qs b.groupBy, draftOfOption s qs b.having⟩ where
  keys := forall_draftsOfExprs s fun e he => h.keys e he qs
  having := forall_draftOfOption s fun e he => h.having e he qs

theorem thrifty_order {q : Query} (h : q.RowParts fun e => ∀ qs, (e.draft s qs).Thrifty id)
    (qs : Qualifiers) : RowClauses.All (Thrifty id)
      ⟨draftsOfOrder s qs q.orderBy, draftOfOption s qs q.offset, draftOfOption s qs q.limit⟩ :=
  all_rowClauses s h (fun _ _ _ hkey => .bind hkey fun a => .pure (by simp)) qs

theorem thrifty_item {item : SelectItem}
    (h : ∀ value aliasName, item = .expr value aliasName → (value.draft s .kept).Thrifty id) :
    (item.draft s).Thrifty id := by
  cases item with
  | all => exact .pure (Nat.zero_le _)
  | allOf table => exact .pure (Nat.zero_le _)
  | expr value aliasName => exact .bind (h value aliasName rfl) fun a => .pure (by simp)

theorem thrifty_load {relation : Relation}
    (h : ∀ query aliasName, relation = .derived query aliasName → (query.draft s).Thrifty id) :
    (relation.load s).Thrifty id := by
  cases relation with
  | table path aliasName => exact .step (Nat.zero_le _)
  | derived query aliasName => exact .bind (h query aliasName rfl) fun a => .pure (by simp)

/-- A SELECT block over several relations names the columns that it retrieves. -/
def Piece.retrievesColumns : Piece → Prop
  | .block b => 1 < b.relations.length → b.projection ≠ []
  | .name _ | .constant _ => True

/-- Every SELECT block over several relations, also in subqueries, has a SELECT list that is not
empty. -/
def Query.RetrievesColumns (q : Query) : Prop :=
  ∀ piece ∈ q.pieces, piece.retrievesColumns

instance : DecidablePred Piece.retrievesColumns
  | .block b => inferInstanceAs (Decidable (1 < b.relations.length → b.projection ≠ []))
  | .name _ => inferInstanceAs (Decidable True)
  | .constant _ => inferInstanceAs (Decidable True)

instance : DecidablePred Query.RetrievesColumns :=
  fun q => inferInstanceAs (Decidable (∀ piece ∈ q.pieces, piece.retrievesColumns))

theorem thrifty_select {b : Select}
    (h : b.Parts (fun e => ∀ qs, (e.draft s qs).Thrifty id) fun q => (q.draft s).Thrifty id)
    (hb : 1 < b.relations.length → b.projection ≠ []) {rows : Qualifiers → RowClauses}
    (hr : ∀ q, (rows q).All (Thrifty id)) : (b.draft s rows).Thrifty id := by
  have hitems : ∀ d ∈ b.projection.map (SelectItem.draft s), d.Thrifty id :=
    List.forall_mem_map.mpr fun item hi =>
      thrifty_item s fun value aliasName hv => h.items value aliasName (hv ▸ hi) .kept
  rw [Select.draft_eq]
  split
  · rename_i hmany
    refine thrifty_selectJoin (by rw [List.length_map]) (List.forall_mem_map.mpr fun link hl => ?_)
      (List.forall_mem_map.mpr fun e he => h.conjuncts e he .kept) (all_groupClauses s h .dropped)
      (hr .dropped) hitems (by simpa using hb hmany)
    refine thrifty_stage s (h.derived link hl) fun e he c hc l op r hb => ?_
    have hsides := h.matching link hl e he c hc l op r hb
    exact ⟨hsides.1 .kept, hsides.2 .kept⟩
  · refine thrifty_selectSingle (fun d hd => ?_) (fun d hd => ?_) (all_groupClauses s h .kept)
      (hr .kept) hitems
    · obtain ⟨link, hl, rfl⟩ := Option.map_eq_some_iff.mp hd
      exact thrifty_load s (h.derived link (List.mem_of_mem_head? hl))
    · obtain ⟨e, he, rfl⟩ := Option.map_eq_some_iff.mp hd
      exact (h.condition e he).1 .kept

/-- Expressions and queries use their results or refer to them in their labels, if joins retrieve
columns. -/
theorem hereditary_thrifty :
    Hereditary
      (fun e => (∀ piece ∈ e.pieces, piece.retrievesColumns) → ∀ qs, (e.draft s qs).Thrifty id)
      fun q => q.RetrievesColumns → (q.draft s).Thrifty id where
  column c _ q := .pure (Nat.zero_le _)
  literal v _ q := .pure (Nat.zero_le _)
  binary l op r hl hr h q := by
    obtain ⟨hleft, hright⟩ := List.forall_mem_append.mp h
    refine .bind (hl hleft q) fun a => .bind (hr hright q) fun b => ?_
    dsimp only
    split
    · exact .pure (by simp)
    · exact .step (by simp)
  unary op e he h q := by
    refine .bind (he h q) fun a => ?_
    cases op with
    | not => exact .step (by simp)
    | neg => exact .pure (by simp)
    | plus => exact .pure (by simp)
  isValue e v negated he h q :=
    .bind (he (List.forall_mem_cons.mp h).2 q) fun a => .step (by simp)
  between e low high negated he hlow hhigh h q := by
    obtain ⟨h1, hbounds⟩ := List.forall_mem_append.mp h
    obtain ⟨h2, h3⟩ := List.forall_mem_append.mp hbounds
    refine .bind (he h1 q) fun a => .bind (hlow h2 q) fun b => .bind (hhigh h3 q) fun c => ?_
    exact .step (by simp)
  inList e items negated he hi h q := by
    obtain ⟨h1, h2⟩ := List.forall_mem_append.mp h
    rw [piecesOfExprs_eq, List.forall_mem_flatMap] at h2
    have hs := forall_draftsOfExprs s fun i him => hi i him (h2 i him) q
    exact .bind (he h1 q) fun a => .bind (.sequence hs) fun labels => .step (by simp)
  inQuery e query negated he hq h q := by
    obtain ⟨h1, h2⟩ := List.forall_mem_append.mp h
    exact .bind (he h1 q) fun a => .bind (hq h2) fun rows => .step (by simp)
  existsQuery query negated hq h q := .bind (hq h) fun rows => .step (by simp)
  subquery query hq h q := hq h
  like e pattern negated ignoreCase he hp h q := by
    obtain ⟨h1, h2⟩ := List.forall_mem_append.mp h
    exact .bind (he h1 q) fun a => .bind (hp h2 q) fun b => .step (by simp)
  call f args distinct ha h q := by
    unfold Expr.draft
    split
    · exact .pure (Nat.zero_le _)
    · split
      · exact .fail
      · have hargs : ∀ a ∈ args, ∀ piece ∈ a.pieces, piece.retrievesColumns := by
          rwa [Expr.pieces, piecesOfExprs_eq, List.forall_mem_flatMap] at h
        have hs := forall_draftsOfExprs s fun a ham => ha a ham (hargs a ham) q
        exact .bind (.sequence hs) fun labels => .pure (by simp)
  nested e he h q := by
    refine .bind (he h q) fun a => .pure ?_
    split <;> simp
  wildcard _ q := .fail
  select block orderBy limit offset hb hr h := by
    have hblock : ∀ piece ∈ block.pieces, piece.retrievesColumns :=
      (List.forall_mem_append.mp h).1
    exact thrifty_select s (hb.of_pieces hblock) (hblock (.block block) block.mem_pieces)
      (thrifty_order s (hr.of_pieces h))
  setOperation op all l r orderBy limit offset hl hr hrows h := by
    obtain ⟨h1, h2⟩ := List.forall_mem_append.mp (List.forall_mem_append.mp h).1
    refine .bind (hl h1) fun a => .bind (hr h2) fun b => ?_
    rw [Nat.zero_add]
    exact .andThen retains_combine fun c =>
      (thrifty_order s (hrows.of_pieces h) .kept).retains_apply

end Sql

end QuerySteps
