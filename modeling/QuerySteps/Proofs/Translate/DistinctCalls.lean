import QuerySteps.Proofs.Translate.Support

/-!
# DISTINCT in a call

Whether a call is supported, the steps of its arguments and the identifiers they take do not depend
on DISTINCT. What depends on it is the phrase, and only that of an aggregate over an expression
(`draft_distinct`): a scalar function and the count of rows are worded alike with and without it.
-/

namespace QuerySteps

open Sql

namespace CallPhrase

/-- The functions that combine the values of a group, by their names in lower case. -/
def aggregates : List String :=
  ["count", "sum", "avg", "min", "max"]

/-- The labels of a supported call with and without DISTINCT differ for an aggregate only. -/
theorem label_distinct_ne_iff {name : String} {arity : Nat} {marked plain : CallPhrase}
    (hm : ofFunction? name arity true = some marked)
    (hp : ofFunction? name arity false = some plain) (args : List Label) :
    marked.label args ≠ plain.label args ↔ name ∈ aggregates := by
  have hcall : (name, arity) ∈ supportedCalls := by
    rw [← List.contains_iff_mem, ← isSome_ofFunction? name arity true, hm]
    rfl
  simp only [supportedCalls, List.mem_cons, Prod.mk.injEq, List.not_mem_nil, or_false] at hcall
  rcases hcall with ⟨rfl, rfl⟩ | ⟨rfl, rfl⟩ | ⟨rfl, rfl⟩ | ⟨rfl, rfl⟩ | ⟨rfl, rfl⟩ | ⟨rfl, rfl⟩ |
    ⟨rfl, rfl⟩ | ⟨rfl, rfl⟩ | ⟨rfl, rfl⟩ | ⟨rfl, rfl⟩ | ⟨rfl, rfl⟩ | ⟨rfl, rfl⟩ | ⟨rfl, rfl⟩ <;>
  · cases hm
    cases hp
    simp [label, aggregates]

end CallPhrase

theorem Draft.map_apply {α β : Type} (f : α → β) (x : Draft α) (first : StepId) :
    (f <$> x) first = (x first).map fun r => ⟨f r.value, r.steps, r.next⟩ := by
  show Draft.bind x (Draft.pure ∘ f) first = _
  unfold Draft.bind
  cases x first with
  | error e => rfl
  | ok r => simp [Draft.pure, Except.map]

variable {s : Settings} {q : Qualifiers} {f : String} {args : List Expr} {distinct : Bool}

/-- A call that counts rows has its label without any steps. -/
theorem draft_call_eq_rows (h : countsRows f args = true) :
    (Expr.call f args distinct).draft s q = pure (.text "number of rows") := by
  simp only [Expr.draft, h, if_true]

/-- Any other call has the phrase of its function around its arguments. -/
theorem draft_call_eq_label {phrase : CallPhrase} (h : countsRows f args = false)
    (hphrase : CallPhrase.ofFunction? f.toLower args.length distinct = some phrase) :
    (Expr.call f args distinct).draft s q =
      phrase.label <$> Draft.sequence (draftsOfExprs s q args) := by
  simp only [Expr.draft, h, hphrase, Bool.false_eq_true, if_false]
  rfl

theorem draft_call_eq_fail (h : countsRows f args = false)
    (hphrase : CallPhrase.ofFunction? f.toLower args.length distinct = none) :
    (Expr.call f args distinct).draft s q = Draft.fail (.unsupported ("function " ++ f)) := by
  simp only [Expr.draft, h, hphrase, Bool.false_eq_true, if_false]

/-- A call with DISTINCT fails as the call without it does, or adds the same steps and takes the
same identifiers; its label is another one exactly if the function is an aggregate and the call
does not count rows. -/
theorem draft_distinct (s : Settings) (q : Qualifiers) (f : String) (args : List Expr)
    (first : StepId) :
    (∃ e, (Expr.call f args true).draft s q first = .error e ∧
      (Expr.call f args false).draft s q first = .error e) ∨
    ∃ marked plain, (Expr.call f args true).draft s q first = .ok marked ∧
      (Expr.call f args false).draft s q first = .ok plain ∧
      marked.steps = plain.steps ∧ marked.next = plain.next ∧
      (marked.value ≠ plain.value ↔
        f.toLower ∈ CallPhrase.aggregates ∧ countsRows f args = false) := by
  cases hcounts : countsRows f args with
  | true =>
    rw [draft_call_eq_rows hcounts, draft_call_eq_rows hcounts]
    exact .inr ⟨_, _, rfl, rfl, rfl, rfl, by simp⟩
  | false =>
    have hsome := (isSome_ofFunction? f.toLower args.length true).trans
      (isSome_ofFunction? f.toLower args.length false).symm
    cases hm : CallPhrase.ofFunction? f.toLower args.length true with
    | none =>
      rw [hm, Option.isSome_none, eq_comm, Option.isSome_eq_false_iff, Option.isNone_iff_eq_none]
        at hsome
      rw [draft_call_eq_fail hcounts hm, draft_call_eq_fail hcounts hsome]
      exact .inl ⟨_, rfl, rfl⟩
    | some marked =>
      rw [hm, Option.isSome_some, eq_comm, Option.isSome_iff_exists] at hsome
      obtain ⟨plain, hp⟩ := hsome
      rw [draft_call_eq_label hcounts hm, draft_call_eq_label hcounts hp]
      rw [Draft.map_apply, Draft.map_apply]
      cases Draft.sequence (draftsOfExprs s q args) first with
      | error e => exact .inl ⟨e, rfl, rfl⟩
      | ok labels =>
        refine .inr ⟨_, _, rfl, rfl, rfl, rfl, ?_⟩
        rw [CallPhrase.label_distinct_ne_iff hm hp, eq_self, and_true]

/-- `COUNT(*)` and a scalar function have the same label with DISTINCT as without it. -/
theorem draft_distinct_unworded :
    (Expr.call "COUNT" [.wildcard] true).draft {} .kept 0 =
        .ok ⟨.text "number of rows", [], 0⟩ ∧
      (Expr.call "COUNT" [.wildcard] false).draft {} .kept 0 =
        .ok ⟨.text "number of rows", [], 0⟩ ∧
      (Expr.call "LOWER" [.column ⟨none, none, ⟨"a", false⟩⟩] true).draft {} .kept 0 =
        .ok ⟨⟨[.text "lowercase version of", .text "a"]⟩, [], 0⟩ ∧
      (Expr.call "LOWER" [.column ⟨none, none, ⟨"a", false⟩⟩] false).draft {} .kept 0 =
        .ok ⟨⟨[.text "lowercase version of", .text "a"]⟩, [], 0⟩ := by
  have hphrase (distinct : Bool) : CallPhrase.ofFunction? "LOWER".toLower 1 distinct =
      some (.lead "lowercase version of") := by
    cases distinct <;> decide +kernel
  refine ⟨?_, ?_, ?_, ?_⟩
  · rw [draft_call_eq_rows (by decide +kernel)]
    rfl
  · rw [draft_call_eq_rows (by decide +kernel)]
    rfl
  · rw [draft_call_eq_label rfl (hphrase true)]
    rfl
  · rw [draft_call_eq_label rfl (hphrase false)]
    rfl

end QuerySteps
