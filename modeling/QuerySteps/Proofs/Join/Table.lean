import Mathlib.Data.Multiset.Bind
import QuerySteps.Translate.Source

/-!
# Joined tables

What joins compute, on bags of rows. A row holds one row of each relation joined so far, or nothing
for a relation that an outer join had to do without. Every kind of join keeps the matching pairs; an
outer join also keeps the rows without a match, of the side that it is named after.
-/

namespace QuerySteps

open Sql

/-- For each relation its row, or nothing where an outer join found no match. -/
abbrev Row (ρ : Type) := List (Option ρ)

/-- A bag of rows over a number of relations. -/
structure Table (ρ : Type) where
  width : Nat
  rows : Multiset (Row ρ)

/-- When a row of the left table and a row of the right one match. -/
abbrev Matching (ρ : Type) := Row ρ → Row ρ → Bool

namespace Table

variable {ρ : Type}

def relation (contents : Multiset ρ) : Table ρ :=
  ⟨1, contents.map fun r => [some r]⟩

/-- The table over no relations that has one row. -/
def single : Table ρ :=
  ⟨0, {[]}⟩

def nulls (A : Table ρ) : Row ρ :=
  List.replicate A.width none

def matched (on : Matching ρ) (A B : Table ρ) : Multiset (Row ρ) :=
  A.rows.bind fun a => (B.rows.filter fun b => on a b = true).map fun b => a ++ b

def unmatchedLeft (on : Matching ρ) (A B : Table ρ) : Multiset (Row ρ) :=
  (A.rows.filter fun a => ∀ b ∈ B.rows, on a b = false).map fun a => a ++ B.nulls

def unmatchedRight (on : Matching ρ) (A B : Table ρ) : Multiset (Row ρ) :=
  (B.rows.filter fun b => ∀ a ∈ A.rows, on a b = false).map fun b => A.nulls ++ b

def join (kind : JoinKind) (on : Matching ρ) (A B : Table ρ) : Table ρ where
  width := A.width + B.width
  rows :=
    match kind with
    | .inner | .cross => matched on A B
    | .left => matched on A B + unmatchedLeft on A B
    | .right => matched on A B + unmatchedRight on A B
    | .full => matched on A B + unmatchedLeft on A B + unmatchedRight on A B

def product (A B : Table ρ) : Table ρ :=
  ⟨A.width + B.width, A.rows.bind fun a => B.rows.map fun b => a ++ b⟩

def filter (test : Row ρ → Bool) (A : Table ρ) : Table ρ :=
  { A with rows := A.rows.filter fun a => test a = true }

def Regular (A : Table ρ) : Prop :=
  ∀ a ∈ A.rows, a.length = A.width

/-- Joins relations one after the other by the given kinds. The first of them stands at the place
that is the width of the table, and so do its contents and its matching. -/
def joinFrom (on : Nat → Matching ρ) (contents : Nat → Multiset ρ) :
    Table ρ → List JoinKind → Table ρ
  | A, [] => A
  | A, kind :: kinds =>
    joinFrom on contents (A.join kind (on A.width) (relation (contents A.width))) kinds

variable {A B : Table ρ} {kind : JoinKind} {on : Matching ρ}

@[simp] theorem width_join : (A.join kind on B).width = A.width + B.width := rfl

@[simp] theorem width_relation (contents : Multiset ρ) : (relation contents).width = 1 := rfl

@[simp] theorem width_filter {test : Row ρ → Bool} : (A.filter test).width = A.width := rfl

theorem ext {A B : Table ρ} (hw : A.width = B.width) (hr : A.rows = B.rows) : A = B := by
  cases A
  cases B
  simp_all

theorem regular_relation (contents : Multiset ρ) : (relation contents).Regular := by
  intro a ha
  obtain ⟨r, -, rfl⟩ := Multiset.mem_map.mp ha
  rfl

theorem length_nulls : A.nulls.length = A.width := List.length_replicate

/-- A row of a join is put together from one of each side, or from the row without relations. -/
theorem mem_join {row : Row ρ} (h : row ∈ (A.join kind on B).rows) :
    ∃ a b, row = a ++ b ∧ (a ∈ A.rows ∨ a = A.nulls) ∧ (b ∈ B.rows ∨ b = B.nulls) := by
  have hm (h : row ∈ matched on A B) :
      ∃ a b, row = a ++ b ∧ (a ∈ A.rows ∨ a = A.nulls) ∧ (b ∈ B.rows ∨ b = B.nulls) := by
    obtain ⟨a, ha, h⟩ := Multiset.mem_bind.mp h
    obtain ⟨b, hb, rfl⟩ := Multiset.mem_map.mp h
    exact ⟨a, b, rfl, .inl ha, .inl (Multiset.mem_filter.mp hb).1⟩
  have hl (h : row ∈ unmatchedLeft on A B) :
      ∃ a b, row = a ++ b ∧ (a ∈ A.rows ∨ a = A.nulls) ∧ (b ∈ B.rows ∨ b = B.nulls) := by
    obtain ⟨a, ha, rfl⟩ := Multiset.mem_map.mp h
    exact ⟨a, B.nulls, rfl, .inl (Multiset.mem_filter.mp ha).1, .inr rfl⟩
  have hr (h : row ∈ unmatchedRight on A B) :
      ∃ a b, row = a ++ b ∧ (a ∈ A.rows ∨ a = A.nulls) ∧ (b ∈ B.rows ∨ b = B.nulls) := by
    obtain ⟨b, hb, rfl⟩ := Multiset.mem_map.mp h
    exact ⟨A.nulls, b, rfl, .inr rfl, .inl (Multiset.mem_filter.mp hb).1⟩
  cases kind with
  | inner => exact hm h
  | cross => exact hm h
  | left => exact (Multiset.mem_add.mp h).elim hm hl
  | right => exact (Multiset.mem_add.mp h).elim hm hr
  | full =>
    rcases Multiset.mem_add.mp h with h | h
    · exact (Multiset.mem_add.mp h).elim hm hl
    · exact hr h

theorem Regular.join (hA : A.Regular) (hB : B.Regular) : (A.join kind on B).Regular := by
  intro row h
  obtain ⟨a, b, rfl, ha, hb⟩ := mem_join h
  have hla : a.length = A.width := ha.elim (hA a) fun h => h ▸ length_nulls
  have hlb : b.length = B.width := hb.elim (hB b) fun h => h ▸ length_nulls
  rw [List.length_append, hla, hlb, width_join]

theorem Regular.joinFrom {on : Nat → Matching ρ} {contents : Nat → Multiset ρ} {A : Table ρ}
    (hA : A.Regular) (kinds : List JoinKind) : (A.joinFrom on contents kinds).Regular := by
  induction kinds generalizing A with
  | nil => exact hA
  | cons kind kinds ih => exact ih (hA.join (regular_relation _))

theorem width_joinFrom {on : Nat → Matching ρ} {contents : Nat → Multiset ρ} (A : Table ρ)
    (kinds : List JoinKind) : (A.joinFrom on contents kinds).width = A.width + kinds.length := by
  induction kinds generalizing A with
  | nil => rfl
  | cons kind kinds ih =>
    rw [Table.joinFrom, ih, width_join, width_relation, List.length_cons, Nat.add_assoc,
      Nat.add_comm 1]

end Table

/-- The joined rows of a chain of sources, the contents and the matchings given by places. The kind
of the first source is without effect. -/
def Source.joined {ρ : Type} (on : Nat → Matching ρ) (contents : Nat → Multiset ρ) :
    List Source → Table ρ
  | [] => .single
  | _ :: others =>
    Table.joinFrom on contents (.relation (contents 0)) (others.map (·.kind))

/-- `FROM a, b ... JOIN c ON b.id = c.id`. -/
def commaJoin (kind : JoinKind) : List FromItem :=
  let table (name : String) : Relation := .table [⟨name, false⟩] none
  let column (table : String) : Expr :=
    .column { table := some ⟨table, false⟩, name := ⟨"id", false⟩ }
  [{ relation := table "a" },
    { relation := table "b"
      joins := [
        { relation := table "c"
          kind
          constraint := .on (.binary (column "b") .eq (column "c")) }] }]

theorem exists_commaJoin (kind : JoinKind) :
    ∃ sources, Source.ofItems (commaJoin kind) = .ok sources :=
  Source.exists_ofItems (List.all_eq_true.mp rfl)

end QuerySteps
