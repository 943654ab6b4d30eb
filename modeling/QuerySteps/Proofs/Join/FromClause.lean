import QuerySteps.Proofs.Join.Steps
import QuerySteps.Proofs.Translate.Outcome

/-!
# The FROM clause

A comma binds weaker than a join: every item of FROM is joined on its own, and FROM is the product
of its items. The emitted chain joins all relations from left to right instead, with the product at
each comma. Inner, left and cross joins may be done after a product as well as before
(`Table.join_product`), so both readings agree as long as no item but the first has a right or full
join. Such a join keeps a row that matches nothing on its left, and in the chain everything of the
items before it is on its left: if one of these has no rows, the product is empty and the chain is
not (`joinChain_computes_from_iff`).
-/

namespace QuerySteps

open Sql Source

variable {ρ : Type}

/-- The relations of one item joined on their own. The first stands at `place`. -/
def Sql.FromItem.table (own : Nat → Matching ρ) (contents : Nat → Multiset ρ) (place : Nat)
    (item : FromItem) : Table ρ :=
  Table.joinFrom (fun k => own (place + k)) (fun k => contents (place + k))
    (.relation (contents place)) (item.joins.map (·.kind))

/-- The product of a table with the items that follow it. -/
def productWith (own : Nat → Matching ρ) (contents : Nat → Multiset ρ) (A : Table ρ)
    (items : List FromItem) : Table ρ :=
  items.foldl (fun A item => A.product (item.table own contents A.width)) A

/-- The rows of FROM: the product of its items. -/
def fromTable (own : Nat → Matching ρ) (contents : Nat → Multiset ρ) : List FromItem → Table ρ
  | [] => .single
  | item :: items => productWith own contents (item.table own contents 0) items

/-- The place of the first relation of the item that holds the relation at a place. -/
def itemStart : List FromItem → Nat → Nat
  | [], _ => 0
  | item :: items, place =>
    if place ≤ item.joins.length then 0
    else item.joins.length + 1 + itemStart items (place - (item.joins.length + 1))

/-- Matchings that see only the relations of their own item on the left, on rows over all relations
on the left. -/
def lifted (items : List FromItem) (own : Nat → Matching ρ) (place : Nat) : Matching ρ :=
  fun a b => own place (a.drop (itemStart items place)) b

/-- Relations that are joined without a constraint match all rows. -/
def Unconditional (items : List FromItem) (own : Nat → Matching ρ) : Prop :=
  ∀ place link, (links items)[place]? = some link → link.2.2 = .unconstrained →
    ∀ a b, own place a b = true

namespace Table

variable {A B P : Table ρ} {kind : JoinKind} {on own : Matching ρ}

@[simp] theorem width_product : (A.product B).width = A.width + B.width := rfl

theorem Regular.product (hA : A.Regular) (hB : B.Regular) : (A.product B).Regular := by
  intro row h
  obtain ⟨a, ha, h⟩ := Multiset.mem_bind.mp h
  obtain ⟨b, hb, rfl⟩ := Multiset.mem_map.mp h
  rw [List.length_append, hA a ha, hB b hb, width_product]

theorem join_cross_eq_product (h : ∀ a b, on a b = true) : A.join .cross on B = A.product B := by
  refine ext rfl ?_
  simp only [join, matched, product, h, Multiset.filter_true]

/-- A join that keeps no unmatched row of its right side may be done before a product, if it looks
at the rows of its own left side only. -/
theorem join_product (hkind : fillsEarlier kind = false)
    (hon : ∀ p ∈ P.rows, ∀ a ∈ A.rows, ∀ b ∈ B.rows, on (p ++ a) b = own a b) :
    (P.product A).join kind on B = P.product (A.join kind own B) := by
  have hmatched : matched on (P.product A) B =
      P.rows.bind fun p => (matched own A B).map fun row => p ++ row := by
    unfold matched product
    rw [Multiset.bind_assoc]
    refine Multiset.bind_congr fun p hp => ?_
    rw [Multiset.bind_map, Multiset.map_bind]
    refine Multiset.bind_congr fun a ha => ?_
    rw [Multiset.map_map, Multiset.filter_congr fun b hb => by rw [hon p hp a ha b hb]]
    exact Multiset.map_congr rfl fun b _ => List.append_assoc ..
  have hunmatched : unmatchedLeft on (P.product A) B =
      P.rows.bind fun p => (unmatchedLeft own A B).map fun row => p ++ row := by
    unfold unmatchedLeft product
    rw [Multiset.filter_bind, Multiset.map_bind]
    refine Multiset.bind_congr fun p hp => ?_
    rw [Multiset.filter_map, Multiset.map_map, Multiset.map_map]
    have hfilter : A.rows.filter ((fun row => ∀ b ∈ B.rows, on row b = false) ∘ fun a => p ++ a) =
        A.rows.filter fun a => ∀ b ∈ B.rows, own a b = false := by
      refine Multiset.filter_congr fun a ha => ?_
      exact forall₂_congr fun b hb => by rw [hon p hp a ha b hb]
    rw [hfilter]
    exact Multiset.map_congr rfl fun a _ => List.append_assoc ..
  refine ext (Nat.add_assoc ..) ?_
  cases kind with
  | inner => exact hmatched
  | cross => exact hmatched
  | left =>
    simp only [join, hmatched, hunmatched]
    simp only [product, Multiset.map_add, Multiset.bind_add]
  | right => cases hkind
  | full => cases hkind

/-! ## Chains and products -/

variable {on own : Nat → Matching ρ} {contents : Nat → Multiset ρ}

theorem joinFrom_append (A : Table ρ) (kinds later : List JoinKind) :
    joinFrom on contents A (kinds ++ later) =
      joinFrom on contents (joinFrom on contents A kinds) later := by
  induction kinds generalizing A with
  | nil => rfl
  | cons kind kinds ih => exact ih _

theorem joinFrom_congr {A : Table ρ} {kinds : List JoinKind}
    (h : ∀ k, A.width ≤ k → k < A.width + kinds.length → on k = own k) :
    joinFrom on contents A kinds = joinFrom own contents A kinds := by
  induction kinds generalizing A with
  | nil => rfl
  | cons kind kinds ih =>
    rw [List.length_cons] at h
    rw [joinFrom, joinFrom, h A.width (Nat.le_refl _) (by omega)]
    refine ih fun k hk1 hk2 => h k ?_ ?_
    · rw [width_join] at hk1
      omega
    · rw [width_join, width_relation] at hk2
      omega

/-- A chain without right and full joins may be done before a product, if its conditions look at
the rows of its own left side only. -/
theorem joinFrom_product {P A : Table ρ} {kinds : List JoinKind}
    (hkinds : ∀ kind ∈ kinds, fillsEarlier kind = false)
    (hon : ∀ k, A.width ≤ k → k < A.width + kinds.length → ∀ p ∈ P.rows, ∀ a b,
      on (P.width + k) (p ++ a) b = own (P.width + k) a b) :
    joinFrom on contents (P.product A) kinds = P.product
      (joinFrom (fun k => own (P.width + k)) (fun k => contents (P.width + k)) A kinds) := by
  induction kinds generalizing A with
  | nil => rfl
  | cons kind kinds ih =>
    obtain ⟨hkind, hkinds⟩ := List.forall_mem_cons.mp hkinds
    rw [List.length_cons] at hon
    rw [joinFrom, joinFrom, width_product, join_product hkind fun p hp a _ b _ =>
      hon A.width (Nat.le_refl _) (by omega) p hp a b]
    refine ih hkinds fun k hk1 hk2 => hon k ?_ ?_
    · rw [width_join] at hk1
      omega
    · rw [width_join, width_relation] at hk2
      omega

theorem regular_table (item : FromItem) (place : Nat) :
    (item.table own contents place).Regular :=
  (regular_relation _).joinFrom _

theorem width_table (item : FromItem) (place : Nat) :
    (item.table own contents place).width = item.joins.length + 1 := by
  rw [FromItem.table, width_joinFrom, List.length_map, width_relation, Nat.add_comm]

/-- A comma and the item that follows it, done link by link, are a product with the item. -/
theorem joinFrom_linksOfItem {P : Table ρ} {item : FromItem} (hP : P.Regular)
    (hkinds : ∀ j ∈ item.joins, fillsEarlier j.kind = false)
    (hcomma : ∀ a b, on P.width a b = true)
    (hon : ∀ k, 1 ≤ k → k ≤ item.joins.length → ∀ a b,
      on (P.width + k) a b = own (P.width + k) (a.drop P.width) b) :
    joinFrom on contents P ((linksOfItem item).map (·.2.1)) =
      P.product (item.table own contents P.width) := by
  have hlinks : (linksOfItem item).map (·.2.1) = .cross :: item.joins.map (·.kind) := by
    simp [linksOfItem, Function.comp_def]
  rw [hlinks, joinFrom, join_cross_eq_product hcomma]
  refine joinFrom_product (fun kind hk => ?_) fun k hk1 hk2 p hp a b => ?_
  · obtain ⟨j, hj, rfl⟩ := List.mem_map.mp hk
    exact hkinds j hj
  · rw [width_relation] at hk1 hk2
    rw [List.length_map] at hk2
    rw [hon k hk1 (by omega), ← hP p hp, List.drop_left]

/-- The items after a table, done link by link, are a product with each of them. -/
theorem joinFrom_links {P : Table ρ} {items : List FromItem} (hP : P.Regular)
    (hkinds : ∀ item ∈ items, ∀ j ∈ item.joins, fillsEarlier j.kind = false)
    (hun : ∀ i link, (links items)[i]? = some link → link.2.2 = .unconstrained →
      ∀ a b, own (P.width + i) a b = true)
    (hon : ∀ i a b, i < (links items).length →
      on (P.width + i) a b = own (P.width + i) (a.drop (P.width + itemStart items i)) b) :
    joinFrom on contents P ((links items).map (·.2.1)) = productWith own contents P items := by
  induction items generalizing P with
  | nil => rfl
  | cons item items ih =>
    obtain ⟨hitem, hitems⟩ := List.forall_mem_cons.mp hkinds
    -- The conditions of the items after this one skip all of the new product, so its width takes
    -- the place of the width of `P`.
    have hwidth : (P.product (item.table own contents P.width)).width =
        P.width + (item.joins.length + 1) := by rw [width_product, width_table]
    rw [links_cons, List.length_append, length_linksOfItem] at hon
    rw [links_cons] at hun
    have hcomma : ∀ a b, on P.width a b = true := fun a b => by
      rw [← Nat.add_zero P.width, hon 0 a b (by omega)]
      exact hun 0 _ rfl rfl _ b
    have hfirst : joinFrom on contents P ((linksOfItem item).map (·.2.1)) =
        P.product (item.table own contents P.width) := by
      refine joinFrom_linksOfItem hP hitem hcomma fun k _ hk a b => ?_
      rw [hon k a b (by omega), itemStart, if_pos hk, Nat.add_zero]
    rw [links_cons, List.map_append, joinFrom_append, hfirst]
    refine ih (hP.product (regular_table item _)) hitems (fun i link hl => ?_) fun i a b hi => ?_
    · rw [hwidth, Nat.add_assoc]
      refine hun _ link ?_
      rwa [← length_linksOfItem, List.getElem?_append_right (Nat.le_add_right _ _),
        Nat.add_sub_cancel_left]
    · rw [hwidth, Nat.add_assoc, hon _ a b (by omega), itemStart, if_neg (by omega),
        Nat.add_sub_cancel_left]
      simp only [Nat.add_assoc]

end Table

theorem kinds_others {item : FromItem} {items : List FromItem} {source : Source}
    {others : List Source} (h : ofItems (item :: items) = .ok (source :: others)) :
    others.map (·.kind) = item.joins.map (·.kind) ++ (links items).map (·.2.1) := by
  have hkinds := map_kind_ofItems h
  rw [links_cons, List.map_append] at hkinds
  simp only [List.map_cons, linksOfItem, List.cons_append, List.cons.injEq] at hkinds
  simpa [Function.comp_def] using hkinds.2

/-- Without right and full joins after the first item, the chain of all relations computes FROM. -/
theorem joined_eq_fromTable {items : List FromItem} {sources : List Source}
    (h : ofItems items = .ok sources)
    (hkinds : ∀ item ∈ items.tail, ∀ j ∈ item.joins, fillsEarlier j.kind = false)
    {own : Nat → Matching ρ} (hun : Unconditional items own) (contents : Nat → Multiset ρ) :
    joined (lifted items own) contents sources = fromTable own contents items := by
  have hlen := length_ofItems h
  cases items with
  | nil =>
    obtain rfl := List.length_eq_zero_iff.mp hlen
    rfl
  | cons item items =>
    obtain ⟨source, others, rfl⟩ := List.exists_cons_of_length_eq_add_one hlen
    have hfirst : Table.joinFrom (lifted (item :: items) own) contents (.relation (contents 0))
        (item.joins.map (·.kind)) = item.table own contents 0 := by
      simp only [FromItem.table, Nat.zero_add]
      refine Table.joinFrom_congr fun k hk1 hk2 => ?_
      rw [List.length_map, Table.width_relation] at hk2
      funext a b
      rw [lifted, itemStart, if_pos (by omega), List.drop_zero]
    rw [joined, kinds_others h, Table.joinFrom_append, hfirst]
    refine Table.joinFrom_links (Table.regular_table item 0) hkinds (fun i link hl hnone => ?_)
      fun i a b _ => ?_
    · rw [Table.width_table]
      refine hun _ link ?_ hnone
      rwa [links_cons, ← length_linksOfItem, List.getElem?_append_right (Nat.le_add_right _ _),
        Nat.add_sub_cancel_left]
    · rw [Table.width_table, lifted, itemStart, if_neg (by omega), Nat.add_sub_cancel_left]

/-! ## Right and full joins after a comma -/

namespace Table

variable {A B : Table ρ} {kind : JoinKind} {contents : Nat → Multiset ρ}

/-- The matching of joins without a condition. -/
def always : Nat → Matching ρ :=
  fun _ _ _ => true

theorem rows_join_of_empty (hA : A.rows = 0) (hB : B.rows = 0) {on : Matching ρ} :
    (A.join kind on B).rows = 0 := by
  cases kind <;> simp [join, matched, unmatchedLeft, unmatchedRight, hA, hB]

theorem rows_joinFrom_of_empty {on : Nat → Matching ρ} {kinds : List JoinKind} (hA : A.rows = 0)
    (h : ∀ k, A.width ≤ k → k < A.width + kinds.length → contents k = 0) :
    (joinFrom on contents A kinds).rows = 0 := by
  induction kinds generalizing A with
  | nil => exact hA
  | cons kind kinds ih =>
    rw [List.length_cons] at h
    have hB : (relation (contents A.width)).rows = 0 := by
      rw [relation, h A.width (Nat.le_refl _) (by omega), Multiset.map_zero]
    refine ih (rows_join_of_empty hA hB) fun k hk1 hk2 => h k ?_ ?_
    · rw [width_join] at hk1
      omega
    · rw [width_join, width_relation] at hk2
      omega

theorem rows_productWith_of_empty {own : Nat → Matching ρ} (hA : A.rows = 0)
    (items : List FromItem) : (productWith own contents A items).rows = 0 := by
  induction items generalizing A with
  | nil => exact hA
  | cons item items ih => exact ih (by simp [product, hA])

theorem rows_join_always_ne_zero (hA : A.rows ≠ 0) (hB : B.rows ≠ 0) :
    (A.join kind (fun _ _ => true) B).rows ≠ 0 := by
  obtain ⟨a, ha⟩ := Multiset.exists_mem_of_ne_zero hA
  obtain ⟨b, hb⟩ := Multiset.exists_mem_of_ne_zero hB
  have hm : a ++ b ∈ matched (fun _ _ => true) A B :=
    Multiset.mem_bind.mpr ⟨a, ha, Multiset.mem_map.mpr
      ⟨b, Multiset.mem_filter.mpr ⟨hb, rfl⟩, rfl⟩⟩
  suffices hmem : a ++ b ∈ (A.join kind (fun _ _ => true) B).rows from
    fun h => Multiset.notMem_zero _ (h ▸ hmem)
  cases kind with
  | inner => exact hm
  | cross => exact hm
  | left => exact Multiset.mem_add.mpr (.inl hm)
  | right => exact Multiset.mem_add.mpr (.inl hm)
  | full => exact Multiset.mem_add.mpr (.inl (Multiset.mem_add.mpr (.inl hm)))

theorem rows_join_of_fillsEarlier (hkind : fillsEarlier kind = true) (hA : A.rows = 0)
    (hB : B.rows ≠ 0) {on : Matching ρ} : (A.join kind on B).rows ≠ 0 := by
  obtain ⟨b, hb⟩ := Multiset.exists_mem_of_ne_zero hB
  have hm : A.nulls ++ b ∈ unmatchedRight on A B :=
    Multiset.mem_map.mpr ⟨b, Multiset.mem_filter.mpr ⟨hb, by simp [hA]⟩, rfl⟩
  suffices hmem : A.nulls ++ b ∈ (A.join kind on B).rows from
    fun h => Multiset.notMem_zero _ (h ▸ hmem)
  cases kind with
  | inner => cases hkind
  | cross => cases hkind
  | left => cases hkind
  | right => exact Multiset.mem_add.mpr (.inr hm)
  | full => exact Multiset.mem_add.mpr (.inr hm)

/-- A chain over relations with rows has rows if it starts with some or has a right or full join. -/
theorem rows_joinFrom_ne_zero {kinds : List JoinKind} (h : ∀ k, A.width ≤ k → contents k ≠ 0)
    (hstart : A.rows ≠ 0 ∨ kinds.any fillsEarlier = true) :
    (joinFrom always contents A kinds).rows ≠ 0 := by
  induction kinds generalizing A with
  | nil => exact hstart.resolve_right Bool.false_ne_true
  | cons kind kinds ih =>
    have hB : (relation (contents A.width)).rows ≠ 0 := by
      rw [relation, Ne, Multiset.map_eq_zero]
      exact h A.width (Nat.le_refl _)
    refine ih (fun k hk => h k ?_) ?_
    · rw [width_join] at hk
      omega
    · by_cases hA : A.rows = 0
      · have hany := hstart.resolve_left (not_not_intro hA)
        rw [List.any_cons, Bool.or_eq_true] at hany
        exact hany.imp_left fun hkind => rows_join_of_fillsEarlier hkind hA hB
      · exact .inl (rows_join_always_ne_zero hA hB)

end Table

theorem fillsEarlier_iff {kind : JoinKind} :
    fillsEarlier kind = false ↔ kind ≠ .right ∧ kind ≠ .full := by
  cases kind <;> simp [fillsEarlier]

/-- A right or full join after the first item is enough for the chain to differ from FROM: if the
relations of the first item have no rows and all others do, FROM has no rows and the chain does. -/
theorem exists_joined_ne_fromTable {items : List FromItem} {sources : List Source}
    (h : ofItems items = .ok sources)
    (hfills : ∃ item ∈ items.tail, ∃ j ∈ item.joins, fillsEarlier j.kind = true) :
    ∃ contents : Nat → Multiset Unit,
      joined Table.always contents sources ≠ fromTable Table.always contents items := by
  obtain ⟨later, hlater, j, hj, hfill⟩ := hfills
  cases items with
  | nil => cases hlater
  | cons item items =>
    obtain ⟨source, others, rfl⟩ := List.exists_cons_of_length_eq_add_one (length_ofItems h)
    -- No rows for the first item and one for every relation after it.
    let contents : Nat → Multiset Unit := fun k => if k ≤ item.joins.length then 0 else {()}
    have hempty : (fromTable Table.always contents (item :: items)).rows = 0 := by
      refine Table.rows_productWith_of_empty
        (Table.rows_joinFrom_of_empty ?_ fun k _ hk => ?_) items
      · rw [Table.relation, Multiset.map_eq_zero]
        exact if_pos (Nat.zero_le _)
      · rw [Table.width_relation, List.length_map] at hk
        exact if_pos (by omega)
    have hrows : (joined Table.always contents (source :: others)).rows ≠ 0 := by
      rw [joined, kinds_others h, Table.joinFrom_append]
      refine Table.rows_joinFrom_ne_zero (fun k hk => ?_) (.inr ?_)
      · rw [Table.width_joinFrom, Table.width_relation, List.length_map] at hk
        have hcontents : contents k = {()} := if_neg (by omega)
        rw [hcontents]
        exact Multiset.singleton_ne_zero ()
      · refine List.any_eq_true.mpr ⟨j.kind, List.mem_map.mpr ⟨(j.relation, j.kind, j.constraint),
          List.mem_flatMap.mpr ⟨later, hlater, ?_⟩, rfl⟩, hfill⟩
        exact List.mem_cons_of_mem _ (List.mem_map.mpr ⟨j, hj, rfl⟩)
    exact ⟨contents, fun heq => hrows (heq ▸ hempty)⟩

theorem Draft.exists_joinInputs {items : List FromItem} {sources : List Source} (s : Settings)
    (h : ofItems items = .ok sources) (hsupported : ∀ l ∈ links items, l.1.supported = true)
    (condition : Option Expr) (hcondition : ∀ e ∈ condition, e.supported = true) (first : StepId) :
    ∃ inputs, joinInputs sources (stagesOfItems s items) (conjunctDraftsOfOption s condition)
      first = .ok inputs ∧ inputs.value.1.length = sources.length := by
  let stage (link : Link) : Stage := ⟨link.1.store s, link.2.2.draft s⟩
  have hstore : ∀ l ∈ links items, ∀ name,
      Alike (l.1.supported = true) ((stage l).store name) ((stage l).store name) := fun l _ =>
    alike_store s s fun q _ _ => hereditary_settled.query q
  have hconjuncts : ∀ e ∈ condition.elim [] Expr.conjuncts,
      Alike (e.supported = true) (e.draft s .kept) (e.draft s .kept) := fun e _ =>
    hereditary_settled.expr e s s .kept .kept
  rw [stagesOfItems_eq_map, conjunctDraftsOfOption_eq]
  obtain ⟨-, inputs, -, hi, -, ⟨hlen, -⟩, -⟩ | ⟨hn, -⟩ :=
    Alike.joinInputs (f := stage) (g := stage) (length_ofItems h) hstore hconjuncts first first
  · exact ⟨inputs, hi, hlen.trans (length_ofItems h).symm⟩
  · exact absurd ⟨hsupported, fun e he _ => conjunctsSupported_iff.mpr hcondition e he⟩ hn

theorem Draft.exists_joinChain {items : List FromItem} {sources : List Source} (s : Settings)
    {inputs : List Label} (h : ofItems items = .ok sources) (hne : links items ≠ [])
    (hlen : inputs.length = sources.length)
    (hsupported : ∀ l ∈ (links items).tail, l.2.2.supported = true) (first : StepId) :
    ∃ r, joinChain sources (stagesOfItems s items) inputs first = .ok r := by
  have hmatching : ∀ l ∈ links items,
      Alike (l.2.2.supported = true) (l.2.2.draft s) (l.2.2.draft s) := fun l _ =>
    alike_matching s s fun _ _ _ _ l _ r _ =>
      ⟨hereditary_settled.expr l, hereditary_settled.expr r⟩
  have hsources := length_ofItems h
  have hinputs := hlen.trans hsources
  let stage (link : Link) : Stage := ⟨link.1.store s, link.2.2.draft s⟩
  rw [stagesOfItems_eq_map]
  obtain ⟨-, r, -, hr, -⟩ | ⟨hn, -⟩ :=
    Alike.joinChain (f := stage) (g := stage) hmatching hne hsources hinputs hinputs first first
  · exact ⟨r, hr⟩
  · exact absurd hsupported hn

/-- Joins of the results of distinct steps compute FROM for all contents and conditions exactly if
no item but the first has a right or full join. -/
theorem Draft.joinChain_computes_iff {items : List FromItem} {sources : List Source} {s : Settings}
    {ids : List StepId} {first : StepId} {r : Drafted Label} (h : ofItems items = .ok sources)
    (hlen : ids.length = sources.length) (hnodup : ids.Nodup) (hlt : ∀ id ∈ ids, id < first)
    (hr : joinChain sources (stagesOfItems s items) (ids.map Label.step) first = .ok r) :
    ∃ last, r.value = .step last ∧
      ((∀ (ρ : Type) (contents : Nat → Multiset ρ) (own : Nat → Matching ρ)
          (results : StepId → Table ρ), Unconditional items own →
          (∀ k id, ids[k]? = some id → results id = .relation (contents k)) →
          Plan.carryOut (lifted items own) results r.steps last = fromTable own contents items) ↔
        ∀ item ∈ items.tail, ∀ j ∈ item.joins, j.kind ≠ .right ∧ j.kind ≠ .full) := by
  obtain ⟨last, hlast, -⟩ := joinChain_computes_joined h hlen hlt hr
    (Table.always : Nat → Matching Unit) (fun _ => 0) (fun _ => .relation 0) fun _ _ _ => rfl
  have hcomputes {ρ : Type} (on : Nat → Matching ρ) {contents : Nat → Multiset ρ}
      {results : StepId → Table ρ}
      (hresults : ∀ k id, ids[k]? = some id → results id = .relation (contents k)) :
      Plan.carryOut on results r.steps last = joined on contents sources := by
    obtain ⟨last', hlast', htable⟩ :=
      joinChain_computes_joined h hlen hlt hr on contents results hresults
    rw [hlast] at hlast'
    cases hlast'
    exact htable
  refine ⟨last, hlast, fun hall i hi j hj => ?_,
    fun hkinds ρ contents own results hun hresults => ?_⟩
  · rw [← fillsEarlier_iff]
    by_contra hfills
    rw [Bool.not_eq_false] at hfills
    obtain ⟨contents, hne⟩ := exists_joined_ne_fromTable h ⟨i, hi, j, hj, hfills⟩
    let results : StepId → Table Unit := fun id => .relation (contents (ids.idxOf id))
    have hresults : ∀ k id, ids[k]? = some id → results id = .relation (contents k) := by
      intro k id hk
      obtain ⟨hk, rfl⟩ := List.getElem?_eq_some_iff.mp hk
      simp only [results, hnodup.idxOf_getElem]
    have hsame := hall Unit contents Table.always results (fun _ _ _ _ _ _ => rfl) hresults
    exact hne ((hcomputes _ hresults).symm.trans hsame)
  · rw [hcomputes _ hresults]
    exact joined_eq_fromTable h
      (fun item hi j hj => fillsEarlier_iff.mpr (hkinds item hi j hj)) hun contents

/-- The join steps that are emitted for FROM compute it from the results of loading and filtering
its relations, for all contents of the relations and all join conditions on the relations of their
own item, exactly if no item but the first has a right or full join. -/
theorem joinChain_computes_from_iff {items : List FromItem} {sources : List Source} {s : Settings}
    {condition : Option Expr} {first : StepId} {inputs : Drafted (List Label × List (Draft Label))}
    {r : Drafted Label} (h : ofItems items = .ok sources)
    (hi : Draft.joinInputs sources (stagesOfItems s items) (conjunctDraftsOfOption s condition)
      first = .ok inputs)
    (hr : Draft.joinChain sources (stagesOfItems s items) inputs.value.1 inputs.next = .ok r) :
    ∃ (ids : List StepId) (last : StepId),
      inputs.value.1 = ids.map Label.step ∧ ids.length = sources.length ∧
      r.value = .step last ∧
      ((∀ (ρ : Type) (contents : Nat → Multiset ρ) (own : Nat → Matching ρ)
          (results : StepId → Table ρ), Unconditional items own →
          (∀ k id, ids[k]? = some id → results id = .relation (contents k)) →
          Plan.carryOut (lifted items own) results r.steps last = fromTable own contents items) ↔
        ∀ item ∈ items.tail, ∀ j ∈ item.joins, j.kind ≠ .right ∧ j.kind ≠ .full) := by
  obtain ⟨-, ids, hids, hlen, hnodup, hlt⟩ :=
    Draft.yields_joinInputs_distinct s h condition first inputs hi
  rw [hids] at hr
  obtain ⟨last, hlast, hiff⟩ := Draft.joinChain_computes_iff h hlen hnodup hlt hr
  exact ⟨ids, last, hids, hlen, hlast, hiff⟩

theorem joinChain_computes_from_commaLeftJoin :
    ∃ sources inputs r, ∃ (ids : List StepId) (last : StepId),
    ofItems (commaJoin .left) = .ok sources ∧
    Draft.joinInputs sources (stagesOfItems {} (commaJoin .left)) [] 0 = .ok inputs ∧
    Draft.joinChain sources (stagesOfItems {} (commaJoin .left)) inputs.value.1 inputs.next =
      .ok r ∧
    inputs.value.1 = ids.map Label.step ∧ r.value = .step last ∧
    ∀ (ρ : Type) (contents : Nat → Multiset ρ) (own : Nat → Matching ρ)
        (results : StepId → Table ρ), Unconditional (commaJoin .left) own →
      (∀ k id, ids[k]? = some id → results id = .relation (contents k)) →
      Plan.carryOut (lifted (commaJoin .left) own) results r.steps last =
        fromTable own contents (commaJoin .left) := by
  obtain ⟨sources, h⟩ := exists_commaJoin .left
  obtain ⟨inputs, hi, hlen⟩ := Draft.exists_joinInputs {} h (List.all_eq_true.mp rfl) none nofun 0
  obtain ⟨r, hr⟩ := Draft.exists_joinChain {} h (List.cons_ne_nil _ _) hlen
    (List.all_eq_true.mp rfl) inputs.next
  obtain ⟨ids, last, hids, -, hlast, hiff⟩ := joinChain_computes_from_iff h hi hr
  exact ⟨sources, inputs, r, ids, last, h, hi, hr, hids, hlast, hiff.mpr (by decide)⟩

/-- The steps that are emitted for `FROM a, b RIGHT JOIN c ON b.id = c.id`. -/
def commaRightJoinSteps : List Step :=
  [⟨3, [.text "Join", .ref 0, .text "with", .ref 1,
      .text "- condition: none (all combinations of rows)"]⟩,
    ⟨4, [.text "Right outer join", .ref 3, .text "with", .ref 2, .text "- condition:",
      .text "id in b", .text "equals", .text "id in c"]⟩]

/-- With no rows in `a` and `b` and one row in `c` the right join yields a row, and FROM none. -/
theorem joinChain_commaRightJoin_ne_from :
    let contents : Nat → Multiset Nat := fun place => if place = 2 then {7} else 0
    (∃ sources, ofItems (commaJoin .right) = .ok sources ∧
      Draft.joinChain sources (stagesOfItems {} (commaJoin .right)) ([0, 1, 2].map Label.step) 3 =
        .ok ⟨.step 4, commaRightJoinSteps, 5⟩) ∧
    Unconditional (commaJoin .right) (Table.always : Nat → Matching Nat) ∧
    (Plan.carryOut (lifted (commaJoin .right) Table.always) (fun id => .relation (contents id))
      commaRightJoinSteps 4).rows = {[none, none, some 7]} ∧
    (fromTable Table.always contents (commaJoin .right)).rows = 0 := by
  refine ⟨?_, fun _ _ _ _ _ _ => rfl, by decide, by decide⟩
  obtain ⟨sources, h⟩ := exists_commaJoin .right
  obtain ⟨a, b, c, rfl⟩ := List.length_eq_three.mp (length_ofItems h)
  obtain ⟨-, hb, hc⟩ : a.kind = .cross ∧ b.kind = .cross ∧ c.kind = .right := by
    simpa [links, linksOfItem, commaJoin] using map_kind_ofItems h
  refine ⟨_, h, ?_⟩
  simp only [Draft.joinChain, List.tail_cons, List.map_cons, hb, hc]
  rfl

end QuerySteps
