import QuerySteps.Proofs.Join.Table

/-!
# Filters before joins

A filter on single relations gives the same rows before the joins as after them, if it drops nothing
from a relation that a join may leave out. One join step: a test on the left table may move if the
join keeps no unmatched rows of the right one, and the other way round (`Table.join_filter`). Along
a chain this is what marks a source as pushable.
-/

namespace QuerySteps

open Sql Source

namespace Table

variable {ρ : Type} {A B : Table ρ} {kind : JoinKind} {on : Matching ρ}

/-- The rows that a join may take from the table. -/
def Offers (A : Table ρ) (a : Row ρ) : Prop :=
  a ∈ A.rows ∨ a = A.nulls

theorem filter_eq_self {test : Row ρ → Bool} (h : ∀ a ∈ A.rows, test a = true) :
    A.filter test = A :=
  ext rfl (Multiset.filter_eq_self.mpr h)

section Filter

variable {p q pq : Row ρ → Bool}

theorem matched_filter (hpq : ∀ a ∈ A.rows, ∀ b ∈ B.rows, pq (a ++ b) = (p a && q b)) :
    matched on (A.filter p) (B.filter q) =
      (matched on A B).filter fun row => pq row = true := by
  unfold matched filter
  rw [Multiset.bind_filter, Multiset.filter_bind]
  refine Multiset.bind_congr fun a ha => ?_
  rw [Multiset.filter_map, Multiset.filter_filter, Multiset.filter_filter]
  cases hp : p a with
  | true =>
    rw [if_pos rfl]
    congr 1
    refine Multiset.filter_congr fun b hb => ?_
    simp [hpq a ha b hb, hp, and_comm]
  | false =>
    rw [if_neg Bool.false_ne_true, eq_comm, Multiset.map_eq_zero, Multiset.filter_eq_nil]
    intro b hb
    simp [hpq a ha b hb, hp]

theorem unmatchedLeft_filter (hpq : ∀ a ∈ A.rows, pq (a ++ B.nulls) = p a) :
    unmatchedLeft on (A.filter p) B =
      (unmatchedLeft on A B).filter fun row => pq row = true := by
  unfold unmatchedLeft filter
  rw [Multiset.filter_map, Multiset.filter_filter, Multiset.filter_filter]
  congr 1
  refine Multiset.filter_congr fun a ha => ?_
  simp [hpq a ha, and_comm]

theorem unmatchedRight_filter (hpq : ∀ b ∈ B.rows, pq (A.nulls ++ b) = q b) :
    unmatchedRight on A (B.filter q) =
      (unmatchedRight on A B).filter fun row => pq row = true := by
  unfold unmatchedRight filter
  rw [Multiset.filter_map, Multiset.filter_filter, Multiset.filter_filter]
  congr 1
  refine Multiset.filter_congr fun b hb => ?_
  simp [hpq b hb, and_comm]

/-- Tests of both sides may run before a join, if no side whose rows the join may leave out is
tested. -/
theorem join_filter (hpq : ∀ a, A.Offers a → ∀ b, B.Offers b → pq (a ++ b) = (p a && q b))
    (hown : fillsOwn kind = true → ∀ b, B.Offers b → q b = true)
    (hearlier : fillsEarlier kind = true → ∀ a, A.Offers a → p a = true) :
    (A.filter p).join kind on (B.filter q) = (A.join kind on B).filter pq := by
  have hm : matched on (A.filter p) (B.filter q) =
      (matched on A B).filter fun row => pq row = true :=
    matched_filter fun a ha b hb => hpq a (.inl ha) b (.inl hb)
  have hl (h : fillsOwn kind = true) : unmatchedLeft on (A.filter p) (B.filter q) =
      (unmatchedLeft on A B).filter fun row => pq row = true := by
    rw [filter_eq_self fun b hb => hown h b (.inl hb)]
    refine unmatchedLeft_filter fun a ha => ?_
    rw [hpq a (.inl ha) _ (.inr rfl), hown h _ (.inr rfl), Bool.and_true]
  have hr (h : fillsEarlier kind = true) : unmatchedRight on (A.filter p) (B.filter q) =
      (unmatchedRight on A B).filter fun row => pq row = true := by
    rw [filter_eq_self fun a ha => hearlier h a (.inl ha)]
    refine unmatchedRight_filter fun b hb => ?_
    rw [hpq _ (.inr rfl) b (.inl hb), hearlier h _ (.inr rfl), Bool.true_and]
  refine ext rfl ?_
  cases kind with
  | inner => exact hm
  | cross => exact hm
  | left => simp only [join, filter, Multiset.filter_add, ← hm, ← hl rfl]
  | right => simp only [join, filter, Multiset.filter_add, ← hm, ← hr rfl]
  | full => simp only [join, filter, Multiset.filter_add, ← hm, ← hl rfl, ← hr rfl]

end Filter

/-! ## Chains -/

def passes (keeps : Nat → Option ρ → Bool) (place : Nat) : Row ρ → Bool
  | [] => true
  | entry :: row => keeps place entry && passes keeps (place + 1) row

variable {keeps : Nat → Option ρ → Bool}

theorem passes_append {place : Nat} {a b : Row ρ} :
    passes keeps place (a ++ b) = (passes keeps place a && passes keeps (place + a.length) b) := by
  induction a generalizing place with
  | nil => rfl
  | cons entry a ih =>
    simp only [List.cons_append, passes, ih, List.length_cons, Bool.and_assoc]
    rw [Nat.add_assoc, Nat.add_comm 1]

theorem passes_of_free {place : Nat} {a : Row ρ}
    (h : ∀ k, place ≤ k → k < place + a.length → ∀ entry, keeps k entry = true) :
    passes keeps place a = true := by
  induction a generalizing place with
  | nil => rfl
  | cons entry a ih =>
    rw [passes, h place (Nat.le_refl _) (by simp), Bool.true_and]
    refine ih fun k hk hlt => h k (by omega) ?_
    rw [List.length_cons]
    omega

theorem passes_iff {place : Nat} {a : Row ρ} : passes keeps place a = true ↔
    ∀ k, k < a.length → keeps (place + k) (a.getD k none) = true := by
  induction a generalizing place with
  | nil => simp [passes]
  | cons entry a ih =>
    rw [passes, Bool.and_eq_true, ih]
    constructor
    · rintro ⟨hentry, hrest⟩ k hk
      cases k with
      | zero => exact hentry
      | succ k =>
        have := hrest k (Nat.lt_of_succ_lt_succ hk)
        rwa [Nat.add_assoc, Nat.add_comm 1] at this
    · intro h
      refine ⟨h 0 (Nat.succ_pos _), fun k hk => ?_⟩
      have := h (k + 1) (Nat.succ_lt_succ hk)
      rwa [← Nat.add_assoc, Nat.add_right_comm] at this

theorem relation_filter (contents : Multiset ρ) (place : Nat) :
    relation (contents.filter fun r => keeps place (some r) = true) =
      (relation contents).filter (passes keeps place) := by
  refine ext rfl ?_
  simp only [relation, filter, Multiset.filter_map]
  congr 1
  exact Multiset.filter_congr fun r _ => by simp [passes]

/-- A chain that starts at `place` leaves out no relation that is tested. -/
def Guarded (keeps : Nat → Option ρ → Bool) : Nat → List JoinKind → Prop
  | _, [] => True
  | place, kind :: kinds =>
    (fillsOwn kind = true ∨ kinds.any fillsEarlier = true → ∀ entry, keeps place entry = true) ∧
      Guarded keeps (place + 1) kinds

/-- Tests of the relations may run before a whole chain of joins that leaves out no relation which
is tested. -/
theorem joinFrom_filter {on : Nat → Matching ρ} {contents : Nat → Multiset ρ}
    {kinds : List JoinKind} {A : Table ρ} (hA : A.Regular) (hguard : Guarded keeps A.width kinds)
    (hfree : kinds.any fillsEarlier = true → ∀ k, k < A.width → ∀ entry, keeps k entry = true) :
    joinFrom on (fun k => (contents k).filter fun r => keeps k (some r) = true)
        (A.filter (passes keeps 0)) kinds =
      (joinFrom on contents A kinds).filter (passes keeps 0) := by
  induction kinds generalizing A with
  | nil => rfl
  | cons kind kinds ih =>
    -- The next join takes the tests of both sides along; what it yields is filtered as a whole, so
    -- the rest of the chain starts from a filtered table again.
    obtain ⟨hown, hguard⟩ := hguard
    have hlength {a : Row ρ} (ha : A.Offers a) : a.length = A.width :=
      ha.elim (hA a) fun h => h ▸ length_nulls
    have hstep : (A.filter (passes keeps 0)).join kind (on A.width)
          ((relation (contents A.width)).filter (passes keeps A.width)) =
        (A.join kind (on A.width) (relation (contents A.width))).filter (passes keeps 0) := by
      refine join_filter (fun a ha b _ => ?_) (fun hk b hb => ?_) fun hk a ha => ?_
      · rw [passes_append, hlength ha, Nat.zero_add]
      · refine passes_of_free fun k hk1 hk2 => ?_
        have hb1 : b.length = 1 := hb.elim (regular_relation _ b) fun h => h ▸ length_nulls
        obtain rfl : k = A.width := by omega
        exact hown (.inl hk)
      · refine passes_of_free fun k _ hk2 => hfree ?_ k ?_
        · rw [List.any_cons, hk, Bool.true_or]
        · rwa [Nat.zero_add, hlength ha] at hk2
    rw [joinFrom, joinFrom, width_filter, relation_filter, hstep]
    refine ih (hA.join (regular_relation _)) hguard fun hlater k hk entry => ?_
    rw [width_join, width_relation] at hk
    rcases Nat.lt_succ_iff_lt_or_eq.mp hk with hlt | rfl
    · exact hfree (by rw [List.any_cons, hlater, Bool.or_true]) k hlt entry
    · exact hown (.inr hlater) entry

/-- A chain in which only pushable relations are tested leaves out none of these. -/
theorem guarded_of_pushableFlags {place : Nat} {kinds : List JoinKind}
    (h : ∀ k, (pushableFlags kinds)[k]? = some false → ∀ entry, keeps (place + k) entry = true) :
    Guarded keeps place kinds := by
  induction kinds generalizing place with
  | nil => trivial
  | cons kind kinds ih =>
    refine ⟨fun hfills => h 0 ?_, ih fun k hk => ?_⟩
    · rcases hfills with hfills | hfills <;> simp [pushableFlags, hfills]
    · have := h (k + 1) (by simpa [pushableFlags] using hk)
      rwa [Nat.add_comm k, ← Nat.add_assoc] at this

end Table

/-- The rows of a relation that pass the filters which concern its place. -/
def Source.filtered {ρ : Type} (filters : List (Nat × (Option ρ → Bool)))
    (contents : Nat → Multiset ρ) (place : Nat) : Multiset ρ :=
  (contents place).filter fun r => ∀ f ∈ filters, f.1 = place → f.2 (some r) = true

namespace Source

variable {ρ : Type} {filters : List (Nat × (Option ρ → Bool))}

/-- Whether an entry at a place passes the filters that concern the place. -/
def keeps (filters : List (Nat × (Option ρ → Bool))) (place : Nat) (entry : Option ρ) : Bool :=
  filters.all fun f => f.1 != place || f.2 entry

theorem filtered_eq (contents : Nat → Multiset ρ) : filtered filters contents =
    fun place => (contents place).filter fun r => keeps filters place (some r) = true := by
  funext place
  refine Multiset.filter_congr fun r _ => ?_
  simp only [keeps, List.all_eq_true, Bool.or_eq_true, bne_iff_ne, ne_eq, ← imp_iff_not_or]

theorem passes_keeps {row : Row ρ} (h : ∀ f ∈ filters, f.1 < row.length) :
    Table.passes (keeps filters) 0 row = filters.all fun f => f.2 (row.getD f.1 none) := by
  rw [Bool.eq_iff_iff, Table.passes_iff]
  simp only [keeps, Nat.zero_add, List.all_eq_true, Bool.or_eq_true, bne_iff_ne, ne_eq]
  constructor
  · intro hk f hf
    exact (hk f.1 (h f hf) f hf).resolve_left (not_not_intro rfl)
  · intro hall k _ f hf
    by_cases hfk : f.1 = k
    · subst hfk
      exact .inr (hall f hf)
    · exact .inl hfk

theorem guarded_keeps {items : List FromItem} {sources : List Source}
    (h : ofItems items = .ok sources)
    (hf : ∀ f ∈ filters, ∃ source, sources[f.1]? = some source ∧ source.pushable = true) :
    Table.Guarded (keeps filters) 0 (sources.map (·.kind)) := by
  refine Table.guarded_of_pushableFlags fun k hk entry => ?_
  rw [← (map_ofItems h).2, List.getElem?_map, Option.map_eq_some_iff] at hk
  obtain ⟨source, hs, hp⟩ := hk
  rw [Nat.zero_add, keeps, List.all_eq_true]
  intro f hmem
  rw [Bool.or_eq_true, bne_iff_ne]
  refine .inl fun hfk => ?_
  obtain ⟨source', hs', hp'⟩ := hf f hmem
  rw [hfk, hs] at hs'
  cases hs'
  rw [hp] at hp'
  cases hp'

theorem regular_joined (on : Nat → Matching ρ) (contents : Nat → Multiset ρ)
    (sources : List Source) : (joined on contents sources).Regular := by
  cases sources with
  | nil =>
    intro a ha
    rw [Multiset.mem_singleton.mp ha]
    rfl
  | cons first others => exact (Table.regular_relation _).joinFrom _

theorem width_joined (on : Nat → Matching ρ) (contents : Nat → Multiset ρ)
    (sources : List Source) : (joined on contents sources).width = sources.length := by
  cases sources with
  | nil => rfl
  | cons first others =>
    rw [joined, Table.width_joinFrom, List.length_map, Table.width_relation, List.length_cons,
      Nat.add_comm]

end Source

/-- Filters on pushable sources may run before the joins: for all contents of the relations and all
conditions of the joins the chain then has the same rows as if it were filtered afterwards. -/
theorem joined_filtered {items : List FromItem} {sources : List Source}
    (h : ofItems items = .ok sources) {ρ : Type} (on : Nat → Matching ρ)
    (contents : Nat → Multiset ρ) (filters : List (Nat × (Option ρ → Bool)))
    (hf : ∀ f ∈ filters, ∃ source, sources[f.1]? = some source ∧ source.pushable = true) :
    joined on (filtered filters contents) sources =
      (joined on contents sources).filter fun row =>
        filters.all fun f => f.2 (row.getD f.1 none) := by
  have hlt : ∀ f ∈ filters, f.1 < sources.length := by
    intro f hmem
    obtain ⟨source, hs, -⟩ := hf f hmem
    exact (List.getElem?_eq_some_iff.mp hs).1
  have hpasses : (joined on contents sources).filter (Table.passes (keeps filters) 0) =
      (joined on contents sources).filter fun row =>
        filters.all fun f => f.2 (row.getD f.1 none) := by
    refine Table.ext rfl (Multiset.filter_congr fun row hrow => ?_)
    have hlen := regular_joined on contents sources row hrow
    rw [width_joined] at hlen
    rw [passes_keeps (hlen ▸ hlt)]
  rw [← hpasses, filtered_eq]
  have hguard := guarded_keeps h hf
  cases sources with
  | nil => rfl
  | cons first others =>
    obtain ⟨hfirst, hothers⟩ := hguard
    rw [joined, joined, Table.relation_filter]
    refine Table.joinFrom_filter (Table.regular_relation _) hothers fun hlater k hk entry => ?_
    obtain rfl : k = 0 := Nat.lt_one_iff.mp hk
    exact hfirst (.inr hlater) entry

/-- A filter on `b` may run before `b LEFT JOIN c`. -/
theorem joined_filtered_commaLeftJoin :
    let filters : List (Nat × (Option Nat → Bool)) := [(1, fun entry => entry == some 2)]
    let contents : Nat → Multiset Nat := fun _ => {1, 2}
    let on : Nat → Matching Nat := fun place a b => place != 2 || a.getLast? == b.head?
    ∃ sources, ofItems (commaJoin .left) = .ok sources ∧
      (∀ f ∈ filters, ∃ source, sources[f.1]? = some source ∧ source.pushable = true) ∧
      joined on (filtered filters contents) sources =
        (joined on contents sources).filter fun row =>
          filters.all fun f => f.2 (row.getD f.1 none) := by
  intro filters contents on
  have hsources : ∃ sources, ofItems (commaJoin .left) = .ok sources ∧
      ∃ source, sources[1]? = some source ∧ source.pushable = true :=
    ⟨_, rfl, _, rfl, rfl⟩
  obtain ⟨sources, h, source, hsource, hpushable⟩ := hsources
  have hf : ∀ f ∈ filters, ∃ source, sources[f.1]? = some source ∧ source.pushable = true := by
    intro f hf
    rw [List.mem_singleton.mp hf]
    exact ⟨source, hsource, hpushable⟩
  exact ⟨sources, h, hf, joined_filtered h on contents filters hf⟩

end QuerySteps
