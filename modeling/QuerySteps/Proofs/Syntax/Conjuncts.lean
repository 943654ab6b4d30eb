import QuerySteps.Proofs.Syntax.Hereditary

/-!
# Conjuncts

A condition is split at its outermost chain of AND and tested part by part. A row passes exactly if
all parts are true, and it may fail to pass because a part is unknown, so the parts have to be equal
to the condition in three-valued logic (`Expr.conjuncts_sound`). They also mention the columns of
the condition, in their order.

What is neither AND nor parentheses is taken as it is: these atoms of a condition have any truth
values, given by the places of the atoms in the text.
-/

namespace QuerySteps.Sql

/-- The truth value of a condition for a row. -/
inductive Truth where
  | false | unknown | true
  deriving Repr, DecidableEq

namespace Truth

/-- A conjunction is false as soon as one side is, and true only if both are. -/
protected def and : Truth → Truth → Truth
  | false, _ | _, false => false
  | true, b => b
  | unknown, _ => unknown

def all : List Truth → Truth
  | [] => true
  | a :: rest => a.and (all rest)

theorem true_and (a : Truth) : true.and a = a := by cases a <;> rfl

theorem and_true (a : Truth) : a.and true = a := by cases a <;> rfl

theorem and_assoc (a b c : Truth) : (a.and b).and c = a.and (b.and c) := by
  cases a <;> cases b <;> cases c <;> rfl

theorem all_append (a b : List Truth) : all (a ++ b) = (all a).and (all b) := by
  induction a with
  | nil => exact (true_and _).symm
  | cons x rest ih => rw [List.cons_append, all, ih, all, and_assoc]

end Truth

namespace Expr

/-- The parts of a condition that are neither AND nor parentheses, in the order of the text. -/
def atoms : Expr → List Expr
  | binary l .and r => l.atoms ++ r.atoms
  | nested e => e.atoms
  | e => [e]

/-- The value of a condition whose atoms are the atoms from `place` on of a text, if `v` gives the
values of atoms by their places. -/
def truth (v : Nat → Truth) (place : Nat) : Expr → Truth
  | binary l .and r => (l.truth v place).and (r.truth v (place + l.atoms.length))
  | nested e => e.truth v place
  | _ => v place

def truths (v : Nat → Truth) (place : Nat) : List Expr → List Truth
  | [] => []
  | e :: es => e.truth v place :: truths v (place + e.atoms.length) es

theorem truths_append (v : Nat → Truth) (place : Nat) (es es' : List Expr) :
    truths v place (es ++ es') =
      truths v place es ++ truths v (place + (es.flatMap atoms).length) es' := by
  induction es generalizing place with
  | nil => rfl
  | cons e es ih =>
    simp only [List.cons_append, truths, ih, List.flatMap_cons, List.length_append, Nat.add_assoc]

theorem atoms_conjuncts (e : Expr) : e.conjuncts.flatMap atoms = e.atoms := by
  fun_induction conjuncts e with
  | case1 l r ihl ihr => rw [List.flatMap_append, ihl, ihr, atoms]
  | case2 l r ihl ihr => rw [List.flatMap_append, ihl, ihr, atoms, atoms]
  | case3 e _ _ => exact List.flatMap_singleton ..

/-- All conjuncts together have the value of the condition. -/
theorem all_truths_conjuncts (v : Nat → Truth) (place : Nat) (e : Expr) :
    Truth.all (truths v place e.conjuncts) = e.truth v place := by
  fun_induction conjuncts e generalizing place with
  | case1 l r ihl ihr =>
    rw [truths_append, Truth.all_append, ihl, ihr, atoms_conjuncts, truth]
  | case2 l r ihl ihr =>
    rw [truths_append, Truth.all_append, ihl, ihr, atoms_conjuncts, truth, truth]
  | case3 e _ _ => exact Truth.and_true _

theorem conjuncts_ne_nil (e : Expr) : e.conjuncts ≠ [] := by
  fun_induction conjuncts e with
  | case1 l r ihl _ => exact fun h => ihl (List.append_eq_nil_iff.mp h).1
  | case2 l r ihl _ => exact fun h => ihl (List.append_eq_nil_iff.mp h).1
  | case3 e _ _ => exact List.cons_ne_nil _ _

theorem not_chain_of_mem_conjuncts {e c : Expr} (h : c ∈ e.conjuncts) (l r : Expr) :
    c ≠ binary l .and r ∧ c ≠ nested (binary l .and r) := by
  fun_induction conjuncts e with
  | case1 _ _ ihl ihr => exact (List.mem_append.mp h).elim ihl ihr
  | case2 _ _ ihl ihr => exact (List.mem_append.mp h).elim ihl ihr
  | case3 e hand hnested =>
    rw [List.mem_singleton.mp h]
    exact ⟨hand l r, hnested l r⟩

theorem columns_conjuncts (e : Expr) : e.conjuncts.flatMap columns = e.columns := by
  fun_induction conjuncts e with
  | case1 l r ihl ihr => rw [List.flatMap_append, ihl, ihr, columns]
  | case2 l r ihl ihr => rw [List.flatMap_append, ihl, ihr, columns, columns]
  | case3 e _ _ => exact List.flatMap_singleton ..

/-- Splitting a condition keeps its value, whatever the values of its atoms, and its columns. There
is at least one conjunct, and none is a chain of AND, be it in parentheses or not. -/
theorem conjuncts_sound (e : Expr) :
    (∀ v, Truth.all (truths v 0 e.conjuncts) = e.truth v 0) ∧
    e.conjuncts.flatMap atoms = e.atoms ∧
    e.conjuncts ≠ [] ∧
    (∀ c ∈ e.conjuncts, ∀ l r, c ≠ binary l .and r ∧ c ≠ nested (binary l .and r)) ∧
    e.conjuncts.flatMap columns = e.columns :=
  ⟨fun v => all_truths_conjuncts v 0 e, atoms_conjuncts e, conjuncts_ne_nil e,
    fun _ hc => not_chain_of_mem_conjuncts hc, columns_conjuncts e⟩

/-- A function that goes under AND and parentheses and makes neither goes under the splitting. -/
theorem conjuncts_map {f : Expr → Expr} (hform : ∀ e, (f e).form = e.form)
    (hbinary : ∀ l op r, f (binary l op r) = binary (f l) op (f r))
    (hnested : ∀ e, f (nested e) = nested (f e)) (e : Expr) :
    (f e).conjuncts = e.conjuncts.map f := by
  have hand (e : Expr) (h : ∀ l r, e ≠ binary l .and r) (l r : Expr) : f e ≠ binary l .and r := by
    intro he
    cases e with
    | binary l' op r' =>
      rw [hbinary] at he
      injection he with _ hop _
      exact h l' r' (by rw [hop])
    | _ => simpa [form] using (hform _).symm.trans (congrArg form he)
  fun_induction conjuncts e with
  | case1 l r ihl ihr => rw [hbinary, conjuncts, ihl, ihr, List.map_append]
  | case2 l r ihl ihr => rw [hnested, hbinary, conjuncts, ihl, ihr, List.map_append]
  | case3 e h1 h2 =>
    rw [conjuncts.eq_3, List.map_singleton]
    · exact hand e h1
    · intro l r he
      cases e with
      | nested inner =>
        rw [hnested] at he
        injection he with hinner
        exact hand inner (fun l r h => h2 l r (by rw [h])) l r hinner
      | _ => simpa [form] using (hform _).symm.trans (congrArg form he)

end Expr

end QuerySteps.Sql
