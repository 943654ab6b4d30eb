import Mathlib.Logic.Function.Basic
import QuerySteps.Proofs.Join.Table
import QuerySteps.Proofs.Translate.Numbering

/-!
# Join steps carried out

Carrying out the join steps of a plan in display order: a join step joins the results of the two
steps it refers to, and every other step leaves the results that are there alone. The steps that
`joinChain` emits compute the chain of its sources (`joinChain_computes_joined`). Between two of its
joins stand the steps of the join conditions; they hold new identifiers, so they do not disturb the
results that the chain refers to.
-/

namespace QuerySteps

open Sql

/-- The kind of join that a verb names. A cross join is worded as an inner join. -/
def Sql.JoinKind.ofWords? (words : String) : Option JoinKind :=
  [JoinKind.inner, .left, .right, .full].find? (·.words == words)

/-- The kind and the operands of a join step. -/
def Step.join? (s : Step) : Option (JoinKind × StepId × StepId) :=
  match s.parts with
  | .text verb :: .ref left :: .text "with" :: .ref right :: _ =>
    (JoinKind.ofWords? verb).map fun kind => (kind, left, right)
  | _ => none

variable {ρ : Type}

/-- The results of the steps after one more step. The matching of a join is given by the number of
relations on its left. -/
def Step.carryOut (on : Nat → Matching ρ) (results : StepId → Table ρ) (s : Step) :
    StepId → Table ρ :=
  match s.join? with
  | some (kind, left, right) =>
    Function.update results s.id
      ((results left).join kind (on (results left).width) (results right))
  | none => results

namespace Plan

def carryOut (on : Nat → Matching ρ) (results : StepId → Table ρ) (plan : Plan) :
    StepId → Table ρ :=
  plan.foldl (Step.carryOut on) results

variable {on : Nat → Matching ρ} {results : StepId → Table ρ}

theorem carryOut_append {a b : Plan} :
    carryOut on results (a ++ b) = carryOut on (carryOut on results a) b :=
  List.foldl_append

theorem carryOut_of_notMem {plan : Plan} {id : StepId} (h : id ∉ plan.ids) :
    carryOut on results plan id = results id := by
  induction plan generalizing results with
  | nil => rfl
  | cons s rest ih =>
    obtain ⟨hne, hrest⟩ := not_or.mp (List.mem_cons.not.mp h)
    refine (ih hrest).trans ?_
    unfold Step.carryOut
    cases s.join? with
    | none => rfl
    | some j => exact Function.update_of_ne hne _ _

theorem carryOut_of_lt {first next : StepId} {steps : List Step} (h : Consecutive first steps next)
    {id : StepId} (hid : id < first) : carryOut on results steps id = results id := by
  refine carryOut_of_notMem fun hmem => ?_
  rw [h.ids, List.mem_range'_1] at hmem
  exact Nat.not_lt_of_le hmem.1 hid

end Plan

/-- The sentence of a join step says the join that it stands for, up to a cross join. -/
theorem Step.carryOut_sentence (on : Nat → Matching ρ) (results : StepId → Table ρ)
    (kind : JoinKind) (id left right : StepId) (condition : Label) :
    Step.carryOut on results ⟨id, ((Label.text kind.words ++ Label.step left).before "with" ++
        Label.step right ++ condition).parts⟩ =
      Function.update results id
        ((results left).join kind (on (results left).width) (results right)) := by
  have hparts : ((Label.text kind.words ++ Label.step left).before "with" ++
      Label.step right ++ condition).parts =
      .text kind.words :: .ref left :: .text "with" :: .ref right :: condition.parts := rfl
  rw [hparts]
  cases kind <;> rfl

namespace Draft

open Plan

/-- The joins that are emitted one after the other compute the chain of the relations they refer
to. -/
theorem joinAll_computes {on : Nat → Matching ρ} {contents : Nat → Multiset ρ}
    {joins : List (JoinKind × StepId × Draft Label)} {left first : StepId} {r : Drafted Label}
    {results : StepId → Table ρ} (hj : ∀ j ∈ joins, j.2.1 < first ∧ j.2.2.Orderly)
    (hleft : left < first)
    (hr : joinAll (.step left) (joins.map fun j => (j.1, .step j.2.1, j.2.2)) first = .ok r)
    (hresults : ∀ k j, joins[k]? = some j →
      results j.2.1 = .relation (contents ((results left).width + k))) :
    ∃ last, r.value = .step last ∧ carryOut on results r.steps last =
      (results left).joinFrom on contents (joins.map (·.1)) := by
  induction joins generalizing left first r results with
  | nil =>
    cases hr
    exact ⟨left, rfl, rfl⟩
  | cons j rest ih =>
    obtain ⟨kind, right, matching⟩ := j
    obtain ⟨⟨hright, horderly⟩, hrest⟩ := List.forall_mem_cons.mp hj
    obtain ⟨a, ha, b, hb, rfl⟩ := bind_eq_ok.mp hr
    obtain ⟨c, hc, d, hd, rfl⟩ := bind_eq_ok.mp hb
    cases hc
    have hsteps := (horderly first a ha).1
    have hold {id : StepId} (hid : id < first) :
        carryOut on results a.steps id = results id := carryOut_of_lt hsteps hid
    -- The joined rows are kept under the identifier of the new step, everything else stays.
    let joined := Function.update (carryOut on results a.steps) a.next
      ((results left).join kind (on (results left).width) (results right))
    have hstep : Step.carryOut on (carryOut on results a.steps) ⟨a.next,
        ((Label.text kind.words ++ Label.step left).before "with" ++ Label.step right ++
          a.value).parts⟩ = joined := by
      rw [Step.carryOut_sentence, hold hleft, hold hright]
    have hnew : joined a.next =
        (results left).join kind (on (results left).width) (results right) :=
      Function.update_self ..
    have hkept {id : StepId} (hid : id < first) : joined id = results id :=
      (Function.update_of_ne (Nat.ne_of_lt (Nat.lt_of_lt_of_le hid hsteps.le)) _ _).trans (hold hid)
    have hright0 : results right = .relation (contents (results left).width) :=
      hresults 0 _ rfl
    have hrest' : ∀ j ∈ rest, j.2.1 < a.next + 1 ∧ j.2.2.Orderly := fun j hmem =>
      ⟨Nat.lt_of_lt_of_le (hrest j hmem).1 (Nat.le_succ_of_le hsteps.le), (hrest j hmem).2⟩
    have hresults' : ∀ k j, rest[k]? = some j →
        joined j.2.1 = .relation (contents ((joined a.next).width + k)) := by
      intro k j hk
      rw [hkept (hrest j (List.mem_of_getElem? hk)).1, hnew, Table.width_join, hright0,
        Table.width_relation, Nat.add_assoc, Nat.add_comm 1]
      exact hresults (k + 1) j hk
    obtain ⟨last, hlast, htable⟩ := ih hrest' (Nat.lt_succ_self _) hd hresults'
    refine ⟨last, hlast, ?_⟩
    rw [List.map_cons, Table.joinFrom, ← hright0, ← hnew, ← htable, carryOut_append,
      carryOut_append, ← hstep]
    rfl

/-! ## The inputs of the chain

A chain of joins starts from references to distinct steps: each relation is stored by a step of its
own, and a filter replaces a reference by one to a new step. -/

theorem yields_store (s : Settings) (relation : Relation) (name : Name) (n : StepId) :
    (relation.store s name).Yields n fun a next => ∃ id, a = .step id ∧ n ≤ id ∧ id < next := by
  cases relation with
  | table path aliasName =>
    refine .imp (.newStep (Label.below_text _)) ?_
    rintro a next ⟨rfl, rfl⟩
    exact ⟨n, rfl, Nat.le_refl _, Nat.lt_succ_self _⟩
  | derived query aliasName =>
    refine .bind ((hereditary_orderly s).query query n) fun rows m hm hrows => ?_
    refine .imp (.newStep (by simpa using hrows)) ?_
    rintro a next ⟨rfl, rfl⟩
    exact ⟨m, rfl, hm, Nat.lt_succ_self _⟩

theorem yields_distinct {ds : List (Draft Label)} (h : ∀ d ∈ ds, ∀ n,
      d.Yields n fun a next => ∃ id, a = .step id ∧ n ≤ id ∧ id < next) (n : StepId) :
    (sequence ds).Yields n fun labels next => ∃ ids : List StepId, labels = ids.map .step ∧
      ids.length = ds.length ∧ ids.Nodup ∧ ∀ id ∈ ids, n ≤ id ∧ id < next := by
  induction ds generalizing n with
  | nil => exact .pure ⟨[], rfl, rfl, List.nodup_nil, by simp⟩
  | cons d ds ih =>
    obtain ⟨hd, hds⟩ := List.forall_mem_cons.mp h
    refine .bind (hd n) fun a m hm ha => ?_
    obtain ⟨id, rfl, hn, hlt⟩ := ha
    refine .bind (ih hds m) fun labels k hk hlabels => .pure ?_
    obtain ⟨ids, rfl, hlen, hnodup, hids⟩ := hlabels
    refine ⟨id :: ids, rfl, by simp [hlen], List.nodup_cons.mpr ⟨fun hmem => ?_, hnodup⟩, ?_⟩
    · exact Nat.not_lt_of_le (hids id hmem).1 hlt
    · refine List.forall_mem_cons.mpr ⟨⟨hn, Nat.lt_of_lt_of_le hlt hk⟩, fun i hi => ?_⟩
      exact ⟨Nat.le_trans hm (hids i hi).1, (hids i hi).2⟩

theorem yields_filterSources_distinct {sources : List Source}
    {conjuncts : List (Expr × Draft Label)} (hc : ∀ c ∈ conjuncts, c.2.Orderly)
    {ids : List StepId} {n : StepId} (hnodup : ids.Nodup) (hlt : ∀ id ∈ ids, id < n) :
    (filterSources sources (ids.map .step) conjuncts).Yields n fun out next =>
      ∃ ids' : List StepId, out.1 = ids'.map .step ∧ ids'.length = ids.length ∧ ids'.Nodup ∧
        ∀ id ∈ ids', id < next := by
  induction conjuncts generalizing ids n with
  | nil => exact .pure ⟨ids, rfl, rfl, hnodup, hlt⟩
  | cons c rest ih =>
    obtain ⟨conjunct, condition⟩ := c
    obtain ⟨hcondition, hrest⟩ := List.forall_mem_cons.mp hc
    unfold filterSources
    split
    · rename_i i _
      have hinput : ((ids[i]?.map Label.step).getD {}).Below n := by
        cases hi : ids[i]? with
        | none => simp [Label.Below, Label.refs]
        | some id => simpa using hlt id (List.mem_of_getElem? hi)
      refine .bind (M := fun a next => ∃ m, a = .step m ∧ n ≤ m ∧ next = m + 1) ?_
        fun filtered next _ hf => ?_
      · refine .bind (hcondition n) fun a m hm ha => .imp (.newStep ?_) ?_
        · simpa using ⟨hinput.mono hm, ha⟩
        · rintro a next ⟨rfl, rfl⟩
          exact ⟨m, rfl, hm, rfl⟩
      · obtain ⟨m, rfl, hm, rfl⟩ := hf
        have hnew : m ∉ ids := fun hmem => Nat.not_lt_of_le hm (hlt m hmem)
        rw [← List.map_set]
        refine .imp (ih hrest (hnodup.set hnew) fun id hid => ?_) ?_
        · rcases List.mem_or_eq_of_mem_set hid with hid | rfl
          · exact Nat.lt_succ_of_lt (Nat.lt_of_lt_of_le (hlt id hid) hm)
          · exact Nat.lt_succ_self _
        · rintro out next ⟨ids', hout, hlen, hids⟩
          exact ⟨ids', hout, by rw [hlen, List.length_set], hids⟩
    · exact .bind (ih hrest hnodup hlt) fun out m _ hout => .pure hout

/-- Loading and filtering the relations of FROM yields references to distinct steps, one for each
source. -/
theorem yields_joinInputs_distinct {items : List FromItem} {sources : List Source} (s : Settings)
    (h : Source.ofItems items = .ok sources) (condition : Option Expr) (n : StepId) :
    (joinInputs sources (stagesOfItems s items) (conjunctDraftsOfOption s condition)).Yields n
      fun out next => ∃ ids : List StepId, out.1 = ids.map .step ∧ ids.length = sources.length ∧
        ids.Nodup ∧ ∀ id ∈ ids, id < next := by
  have hlen : (stagesOfItems s items).length = sources.length := by
    rw [stagesOfItems_eq_map, List.length_map, Source.length_ofItems h]
  refine .bind (yields_distinct (fun d hd m => ?_) n) fun loaded m _ hloaded => ?_
  · rw [← List.map_uncurry_zip_eq_zipWith, stagesOfItems_eq_map] at hd
    obtain ⟨⟨source, stage⟩, hpair, rfl⟩ := List.mem_map.mp hd
    obtain ⟨link, -, rfl⟩ := List.mem_map.mp (List.of_mem_zip hpair).2
    exact yields_store s link.1 source.name m
  · obtain ⟨ids, rfl, hids, hnodup, hlt⟩ := hloaded
    have hconjuncts : ∀ c ∈ conjunctDraftsOfOption s condition, c.2.Orderly := by
      intro c hc
      rw [conjunctDraftsOfOption_eq] at hc
      obtain ⟨e, -, rfl⟩ := List.mem_map.mp hc
      exact (hereditary_orderly s).expr e .kept
    refine .imp (yields_filterSources_distinct hconjuncts hnodup fun id hid => (hlt id hid).2) ?_
    rintro out next ⟨ids', hout, hlen', hnodup', hlt'⟩
    refine ⟨ids', hout, ?_, hnodup', hlt'⟩
    rw [hlen', hids, List.length_zipWith, hlen, Nat.min_self]

theorem joinChain_eq_joinAll {items : List FromItem} {sources : List Source} {s : Settings}
    (h : Source.ofItems items = .ok sources) {id : StepId} {ids : List StepId}
    (hlen : (id :: ids).length = sources.length) :
    ∃ joins : List (JoinKind × StepId × Draft Label),
      joinChain sources (stagesOfItems s items) ((id :: ids).map Label.step) =
        joinAll (.step id) (joins.map fun j => (j.1, .step j.2.1, j.2.2)) ∧
      joins.map (·.1) = sources.tail.map (·.kind) ∧ joins.map (·.2.1) = ids ∧
      ∀ j ∈ joins, j.2.2.Orderly := by
  let kinds := sources.tail.map (·.kind)
  let matchings := (stagesOfItems s items).tail.map (·.matching)
  have hkinds : kinds.length = ids.length := by simp [kinds, ← hlen]
  have hmatchings : matchings.length = ids.length := by
    simp [matchings, stagesOfItems_eq_map, ← Source.length_ofItems h, ← hlen]
  have horderly : ∀ matching ∈ matchings, matching.Orderly := by
    intro matching hm
    obtain ⟨stage, hs, rfl⟩ := List.mem_map.mp hm
    exact (orderly_stagesOfItems s items stage (List.mem_of_mem_tail hs)).matching
  have hpairs : (ids.zip matchings).length = ids.length := by simp [hmatchings]
  refine ⟨kinds.zip (ids.zip matchings), ?_, ?_, ?_, fun j hj => ?_⟩
  · have hzip (kinds : List JoinKind) (matchings : List (Draft Label)) :
        kinds.zip ((ids.map Label.step).zip matchings) =
          (kinds.zip (ids.zip matchings)).map fun j => (j.1, .step j.2.1, j.2.2) := by
      rw [List.zip_map_left, List.zip_map_right]
      rfl
    exact congrArg (joinAll (.step id)) (hzip kinds matchings)
  · exact List.map_fst_zip (Nat.le_of_eq (hkinds.trans hpairs.symm))
  · have hsnd := List.map_snd_zip (Nat.le_of_eq (hpairs.trans hkinds.symm))
    have hfst := List.map_fst_zip (Nat.le_of_eq hmatchings.symm)
    rwa [← hsnd, List.map_map] at hfst
  · have hpair := (List.of_mem_zip (a := j.1) (b := j.2) hj).2
    exact horderly _ (List.of_mem_zip (a := j.2.1) (b := j.2.2) hpair).2

/-- The join steps that are emitted for FROM compute the joined rows of its sources, given the
results `ids` of loading and filtering the single relations. -/
theorem joinChain_computes_joined {items : List FromItem} {sources : List Source} {s : Settings}
    {ids : List StepId} {first : StepId} {r : Drafted Label}
    (h : Source.ofItems items = .ok sources) (hlen : ids.length = sources.length)
    (hlt : ∀ id ∈ ids, id < first)
    (hr : joinChain sources (stagesOfItems s items) (ids.map Label.step) first = .ok r)
    (on : Nat → Matching ρ) (contents : Nat → Multiset ρ) (results : StepId → Table ρ)
    (hresults : ∀ k id, ids[k]? = some id → results id = .relation (contents k)) :
    ∃ last, r.value = .step last ∧
      carryOut on results r.steps last = Source.joined on contents sources := by
  cases sources with
  | nil =>
    rw [List.length_eq_zero_iff.mp hlen] at hr
    cases hr
  | cons source others =>
    obtain ⟨id, ids, rfl⟩ := List.exists_cons_of_length_eq_add_one hlen
    obtain ⟨hid, hids⟩ := List.forall_mem_cons.mp hlt
    obtain ⟨joins, hchain, hkinds, rfl, horderly⟩ := joinChain_eq_joinAll (s := s) h hlen
    rw [hchain] at hr
    have hj : ∀ j ∈ joins, j.2.1 < first ∧ j.2.2.Orderly := fun j hj =>
      ⟨hids _ (List.mem_map_of_mem hj), horderly j hj⟩
    have hfirst : results id = .relation (contents 0) := hresults 0 id rfl
    have hothers : ∀ k j, joins[k]? = some j →
        results j.2.1 = .relation (contents ((results id).width + k)) := by
      intro k j hk
      rw [hfirst, Table.width_relation, Nat.add_comm]
      exact hresults (k + 1) _ (by simp [hk])
    obtain ⟨last, hlast, htable⟩ := joinAll_computes hj hid hr hothers
    refine ⟨last, hlast, ?_⟩
    rw [htable, hkinds, hfirst]
    rfl

end Draft

end QuerySteps
