import Mathlib.Logic.Function.Basic
import QuerySteps.Proofs.Plan.WellOrdered
import QuerySteps.Proofs.Translate.Numbering

/-!
# Steps on lists of rows

Reading the steps of the clauses of a SELECT as operations on lists of rows. What a step does is
told by its fragments (`Step.clause?`); the steps of a plan are carried out in display order, each
on the rows that it refers to, and its rows are kept under its identifier (`Progress.run`). What the
fragments of a condition, of a number or of a list of columns mean is left to a `Reading`, which may
look at the steps before, since conditions and subqueries have steps of their own.

`Draft.Leads` is about carrying out what a draft adds. Wording a clause leaves the rows of its input
at hand (`Leads.read`), and after the step of the clause so are its own rows (`Leads.step`,
`Leads.clause`).
-/

namespace QuerySteps

/-- What a step does with rows. -/
inductive Clause where
  /-- Takes the rows of a table. -/
  | load (table : List Part)
  /-- Keeps the rows that satisfy a condition. -/
  | filter (input : Part) (condition : List Part)
  /-- Drops rows from the front. -/
  | skip (count : List Part) (input : Part)
  /-- Keeps rows from the front. -/
  | keep (count : List Part) (input : Part)
  /-- Makes a row of output columns of each row. -/
  | create (columns : List Part) (input : Part)
  /-- Removes rows that came before. -/
  | unique (input : Part)
  deriving Repr, DecidableEq

/-- The last fragment and those before it, where `words` stand between them. -/
def Part.splitLast? (words : String) (parts : List Part) : Option (List Part × Part) :=
  match parts.reverse with
  | last :: .text w :: rest => if w = words then some (rest.reverse, last) else none
  | _ => none

theorem Part.splitLast?_eq_some {words : String} {parts front : List Part} {last : Part} :
    Part.splitLast? words parts = some (front, last) ↔ parts = front ++ [.text words, last] := by
  have hends : parts = front ++ [.text words, last] ↔
      parts.reverse = last :: .text words :: front.reverse := by
    rw [← List.reverse_inj, List.reverse_append]
    rfl
  rw [hends, splitLast?]
  split
  · rename_i hback
    simp only [hback, Option.ite_none_right_eq_some, Option.some.injEq, Prod.mk.injEq,
      List.cons.injEq, Part.text.injEq, ← List.reverse_eq_iff]
    exact and_rotate.symm
  · rename_i hback
    exact ⟨nofun, fun h => absurd h (hback _ _ _)⟩

/-- Makes columns of the rows of the step that follows them or, where there is none, of a single
row. -/
def Clause.ofColumns (parts : List Part) : Clause :=
  match Part.splitLast? "from" parts with
  | some (columns, .ref id) => .create columns (.ref id)
  | _ => .create parts (.text "a single row")

/-- What a step does with rows, if it is the step of a clause. -/
def Step.clause? (s : Step) : Option Clause :=
  match s.parts with
  | .text verb :: rest =>
    if "Load data for table ".toList.isPrefixOf verb.toList then some (.load s.parts)
    else match verb, rest with
      | "Filter", input :: .text "using condition:" :: condition => some (.filter input condition)
      | "Skip the first", rest =>
        (Part.splitLast? "rows from" rest).map fun (count, input) => .skip count input
      | "Keep only", rest =>
        (Part.splitLast? "rows from" rest).map fun (count, input) => .keep count input
      | "Create table with columns", rest => some (Clause.ofColumns rest)
      | "Only keep unique rows from", [input] => some (.unique input)
      | _, _ => none
  | _ => none

/-- How the fragments of clauses are understood after the steps of a plan. -/
structure Reading (ρ : Type) where
  /-- The rows of the table that a step loads. -/
  table : List Part → List ρ
  /-- The row that a SELECT without FROM is about. -/
  single : ρ
  condition : Plan → List Part → ρ → Bool
  number : Plan → List Part → Nat
  /-- The row of output columns for a row. -/
  columns : Plan → List Part → ρ → ρ

/-- The steps carried out so far, and the rows that they result in. -/
structure Progress (ρ : Type) where
  done : Plan
  results : StepId → List ρ

namespace Progress

variable {ρ : Type} {R : Reading ρ} {t : Progress ρ} {next next' : StepId} {input : Option Label}
  {rows : List ρ}

def rowsOf (R : Reading ρ) (t : Progress ρ) : Part → List ρ
  | .ref id => t.results id
  | .text _ => [R.single]

/-- The rows of an input are at hand: it is a step carried out before `next` or, where there is no
input, the single row. -/
structure Holds (R : Reading ρ) (t : Progress ρ) (next : StepId) (input : Option Label)
    (rows : List ρ) : Prop where
  done_lt : ∀ id ∈ Plan.ids t.done, id < next
  input : (input = none ∧ [R.single] = rows) ∨
    ∃ id < next, input = some (.step id) ∧ t.results id = rows

theorem Holds.exists_part (h : t.Holds R next input rows) :
    ∃ p, Draft.inputOr input = ⟨[p]⟩ ∧ t.rowsOf R p = rows := by
  obtain ⟨rfl, hrows⟩ | ⟨id, -, rfl, hrows⟩ := h.input
  · exact ⟨.text "a single row", rfl, hrows⟩
  · exact ⟨.ref id, rfl, hrows⟩

variable [DecidableEq ρ]

def perform (R : Reading ρ) (t : Progress ρ) : Clause → List ρ
  | .load table => R.table table
  | .filter input condition => (t.rowsOf R input).filter (R.condition t.done condition)
  | .skip count input => (t.rowsOf R input).drop (R.number t.done count)
  | .keep count input => (t.rowsOf R input).take (R.number t.done count)
  | .create columns input => (t.rowsOf R input).map (R.columns t.done columns)
  | .unique input => (t.rowsOf R input).eraseDups

/-- Carries out a step; one that belongs to no clause has no rows. -/
def step (R : Reading ρ) (t : Progress ρ) (s : Step) : Progress ρ where
  done := t.done ++ [s]
  results :=
    match s.clause? with
    | some clause => Function.update t.results s.id (t.perform R clause)
    | none => t.results

def run (R : Reading ρ) (t : Progress ρ) (plan : Plan) : Progress ρ :=
  plan.foldl (step R) t

theorem run_append {a b : Plan} : t.run R (a ++ b) = (t.run R a).run R b :=
  List.foldl_append

@[simp] theorem done_run {plan : Plan} : (t.run R plan).done = t.done ++ plan := by
  induction plan generalizing t with
  | nil => exact (List.append_nil _).symm
  | cons s rest ih => exact (ih (t := t.step R s)).trans (List.append_assoc ..)

theorem results_run_of_notMem {plan : Plan} {id : StepId} (h : id ∉ plan.ids) :
    (t.run R plan).results id = t.results id := by
  induction plan generalizing t with
  | nil => rfl
  | cons s rest ih =>
    obtain ⟨hne, hrest⟩ := not_or.mp (List.mem_cons.not.mp h)
    refine (ih hrest).trans ?_
    unfold step
    cases s.clause? with
    | none => rfl
    | some clause => exact Function.update_of_ne hne _ _

/-- Steps that come later do not touch the rows of an input. -/
theorem Holds.run (h : t.Holds R next input rows) {steps : List Step}
    (hsteps : Consecutive next steps next') : (t.run R steps).Holds R next' input rows where
  done_lt id hid := by
    rw [done_run, Plan.ids_append, List.mem_append, hsteps.ids, List.mem_range'_1] at hid
    rw [hsteps.next_eq]
    obtain hid | ⟨-, hid⟩ := hid
    · exact Nat.lt_add_right _ (h.done_lt id hid)
    · exact hid
  input := by
    refine h.input.imp_right fun ⟨id, hid, hinput, hrows⟩ => ?_
    refine ⟨id, Nat.lt_of_lt_of_le hid hsteps.le, hinput, ?_⟩
    rw [results_run_of_notMem, hrows]
    rw [hsteps.ids, List.mem_range'_1]
    exact fun hmem => Nat.not_lt_of_le hmem.1 hid

theorem holds_step {s : Step} {clause : Clause} (hdone : ∀ id ∈ Plan.ids t.done, id < s.id)
    (hs : s.clause? = some clause) :
    (t.step R s).Holds R (s.id + 1) (some (.step s.id)) (t.perform R clause) where
  done_lt id hid := by
    simp only [step, Plan.ids_append, Plan.ids_cons, Plan.ids_nil, List.mem_append] at hid
    obtain hid | hid := hid
    · exact Nat.lt_succ_of_lt (hdone id hid)
    · rw [List.mem_singleton.mp hid]
      exact Nat.lt_succ_self _
  input := by
    refine .inr ⟨s.id, Nat.lt_succ_self _, rfl, ?_⟩
    simp only [step, hs]
    exact Function.update_self ..

end Progress

namespace Draft

variable {α β ρ : Type} [DecidableEq ρ] {R : Reading ρ} {t : Progress ρ} {first : StepId}

/-- Where the steps that a run of the draft from `first` adds are carried out, its value, the
progress and the next free identifier satisfy `post`. -/
def Leads (R : Reading ρ) (t : Progress ρ) (first : StepId) (d : Draft α)
    (post : α → Progress ρ → StepId → Prop) : Prop :=
  ∀ r, d first = .ok r → post r.value (t.run R r.steps) r.next

/-- Wherever the draft runs, its value means `meaning` after its steps. -/
def ReadAs (d : Draft α) (read : Plan → α → β) (meaning : β) : Prop :=
  ∀ (before : Plan) (first : StepId) (r : Drafted α), (∀ id ∈ Plan.ids before, id < first) →
    d first = .ok r → read (before ++ r.steps) r.value = meaning

variable {post : α → Progress ρ → StepId → Prop}

theorem Leads.pure {a : α} (h : post a t first) : Leads R t first (pure a) post := by
  intro r hr
  cases hr
  exact h

theorem Leads.bind {x : Draft β} {f : β → Draft α} {M : β → Progress ρ → StepId → Prop}
    (hx : Leads R t first x M) (hf : ∀ b t' next, M b t' next → Leads R t' next (f b) post) :
    Leads R t first (x >>= f) post := by
  intro r hr
  obtain ⟨b, hb, c, hc, rfl⟩ := bind_eq_ok.mp hr
  rw [Progress.run_append]
  exact hf b.value _ b.next (hx b hb) c hc

/-- Fragments that a draft words are read in the steps that it adds; the input stays at hand. -/
theorem Leads.read {x : Draft α} {P : α → StepId → Prop} {read : Plan → α → β} {meaning : β}
    {input : Option Label} {rows : List ρ} (hx : x.Yields first P) (hread : x.ReadAs read meaning)
    (h : t.Holds R first input rows) :
    Leads R t first x fun a t' next =>
      t'.Holds R next input rows ∧ read t'.done a = meaning ∧ P a next := by
  intro r hr
  obtain ⟨hsteps, hP⟩ := hx r hr
  refine ⟨h.run hsteps, ?_, hP⟩
  rw [Progress.done_run]
  exact hread t.done first r h.done_lt hr

theorem Leads.step {sentence : Label} (clause : Clause) {rows : List ρ}
    (hdone : ∀ id ∈ Plan.ids t.done, id < first)
    (hsentence : Step.clause? ⟨first, sentence.parts⟩ = some clause)
    (hrows : t.perform R clause = rows) :
    Leads R t first (Draft.step sentence) fun a t' next => t'.Holds R next (some a) rows := by
  intro r hr
  cases hr
  rw [← hrows]
  exact Progress.holds_step (s := ⟨first, sentence.parts⟩) hdone hsentence

/-- A clause that words a label and adds a step on its input turns the rows of the input into those
that it makes of them. -/
theorem Leads.clause {x : Draft Label} {read : Plan → List Part → β} {meaning : β}
    {input : Option Label} {rows : List ρ} (sentence : Label → Label → Label)
    (make : Part → List Part → Clause) (op : β → List ρ → List ρ) (hx : x.Orderly)
    (hread : x.ReadAs (fun plan a => read plan a.parts) meaning)
    (hsentence : ∀ id p a, Step.clause? ⟨id, (sentence ⟨[p]⟩ a).parts⟩ = some (make p a.parts))
    (hop : ∀ (t : Progress ρ) p parts,
      t.perform R (make p parts) = op (read t.done parts) (t.rowsOf R p))
    (h : t.Holds R first input rows) :
    Leads R t first (do
        let a ← x
        let result ← Draft.step (sentence (inputOr input) a)
        return some result) fun input' t' next => t'.Holds R next input' (op meaning rows) := by
  refine .bind (.read (hx first) hread h) fun a t' next ⟨hat, hmeaning, _⟩ => ?_
  obtain ⟨p, hp, hrows⟩ := hat.exists_part
  refine .bind (.step (make p a.parts) hat.done_lt ?_ ?_) fun b t' next h => .pure h
  · rw [hp]
    exact hsentence next p a
  · rw [hop, hmeaning, hrows]

end Draft

end QuerySteps
