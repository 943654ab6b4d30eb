import QuerySteps.Proofs.DataFlow
import QuerySteps.Proofs.Readability.Expressions

/-!
# Where the columns of a step end

The step that makes the output columns enumerates them and goes on with `from` and the step whose
rows it takes; without FROM it ends with the columns. The two are told apart by the end of the step,
because no label ends with `from` and a step (`Label.Sourceless`): every word that a label puts
before an operand is another one.
-/

namespace QuerySteps

open Sql

theorem CallPhrase.arity_lead {name words : String} {arity : Nat} {distinct : Bool}
    (h : ofFunction? name arity distinct = some (.lead words)) : arity = 1 := by
  unfold ofFunction? at h
  dsimp only at h
  split at h <;> first | rfl | cases h

/-- The label does not end with `from` and a step. -/
def Label.Sourceless (a : Label) : Prop :=
  ∀ id, ¬ [Part.text "from", .ref id] <:+ a.parts

namespace Label

variable {a b : Label} {words : String} {front rest : List Part}

theorem sourceless_of_short (h : a.parts.length < 2) : a.Sourceless :=
  fun _ hid => Nat.not_lt_of_le hid.length_le h

theorem sourceless_text (words : String) : (text words).Sourceless :=
  sourceless_of_short Nat.one_lt_two

theorem sourceless_step (id : StepId) : (step id).Sourceless :=
  sourceless_of_short Nat.one_lt_two

/-- Only what follows another word than `from` can end with it. -/
theorem Sourceless.after (hw : words ≠ "from") (h : Sourceless ⟨rest⟩) (front : List Part) :
    Sourceless ⟨front ++ .text words :: rest⟩ := by
  intro id hid
  have hne : ¬ [Part.text "from", .ref id] <:+ .text words :: rest := by
    rw [List.suffix_cons_iff]
    rintro (heq | hrest)
    · cases heq
      exact hw rfl
    · exact h id hrest
  -- Otherwise the end lies within `from` and the step, and begins at neither of them.
  rcases List.suffix_or_suffix_of_suffix hid (List.suffix_append _ _) with hid | hid
  · exact hne hid
  · rcases List.suffix_cons_iff.mp hid with heq | hid
    · exact hne (heq ▸ List.suffix_rfl)
    · rcases List.suffix_cons_iff.mp hid with heq | hid
      · cases heq
      · cases List.suffix_nil.mp hid

theorem Sourceless.joined (hw : words ≠ "from") (h : b.Sourceless) (a : Label) :
    (a.before words ++ b).Sourceless := by
  have hparts : (a.before words ++ b).parts = a.parts ++ .text words :: b.parts := by
    simp [before, text]
  intro id
  rw [hparts]
  exact Sourceless.after hw h a.parts id

theorem sourceless_concat (front : List Part) (words : String) :
    Sourceless ⟨front ++ [.text words]⟩ := by
  intro id h
  have hlast := List.IsSuffix.getLast h (by simp)
  simp at hlast

theorem sourceless_before (a : Label) (words : String) : (a.before words).Sourceless :=
  sourceless_concat a.parts words

theorem Sourceless.signed (h : a.Sourceless) : (a.signed "-").Sourceless := by
  obtain ⟨parts⟩ := a
  have hsign (rest : String) : "-" ++ rest ≠ "from" := append_ne (by decide) rest
  unfold Label.signed
  split
  · rename_i words rest hparts
    cases hparts
    have hrest : Sourceless ⟨rest⟩ := fun id hid => h id (hid.trans (List.suffix_cons _ _))
    exact hrest.after (hsign words) []
  · rename_i hparts
    cases hparts
    exact h.after (by decide) []

theorem Sourceless.withAlias (s : Settings) (h : a.Sourceless) (aliasName : Option Name) :
    (s.withAlias a aliasName).Sourceless := by
  cases aliasName with
  | none => exact h
  | some aliasName => exact sourceless_before a _

theorem sourceless_enumerationTail {labels : List Label} (h : ∀ a ∈ labels, a.Sourceless)
    (hne : labels ≠ []) (front : List Part) : Sourceless ⟨front ++ enumerationTail labels⟩ := by
  fun_induction enumerationTail labels generalizing front with
  | case1 => exact absurd rfl hne
  | case2 last =>
    have hand : "and" ≠ "from" := by decide
    rw [List.append_cons]
    exact (h last (by simp)).after hand (front ++ [.text ","])
  | case3 item items hitems ih =>
    simpa using ih (fun a ha => h a (List.mem_cons_of_mem _ ha)) (fun hnil => by simp_all)
      (front ++ .text "," :: item.parts)

theorem sourceless_enumeration {labels : List Label} (h : ∀ a ∈ labels, a.Sourceless) :
    (enumeration labels).Sourceless := by
  fun_cases enumeration labels with
  | case1 => exact sourceless_of_short Nat.two_pos
  | case2 a => exact h a (by simp)
  | case3 a b => exact (h b (by simp)).after (by decide) a.parts
  | case4 a items hitems =>
    refine sourceless_enumerationTail (fun a ha => h a (List.mem_cons_of_mem _ ha)) ?_ a.parts
    rintro rfl
    simp_all

theorem sourceless_call {name : String} {distinct : Bool} {phrase : CallPhrase} {args : List Label}
    (hphrase : CallPhrase.ofFunction? name args.length distinct = some phrase)
    (h : ∀ a ∈ args, a.Sourceless) : (phrase.label args).Sourceless := by
  cases phrase with
  | lead words =>
    have hwords : words ≠ "from" := by
      have hleads : ∀ distinct, ∀ words ∈ CallPhrase.leads distinct, words ≠ "from" := by decide
      exact hleads distinct words (CallPhrase.mem_leads hphrase)
    obtain ⟨a, rfl⟩ := List.length_eq_one_iff.mp (CallPhrase.arity_lead hphrase)
    simpa [CallPhrase.label] using (h a (by simp)).after hwords []
  | toInteger => exact sourceless_concat _ _
  | toPlaces => exact sourceless_concat _ _

end Label

namespace Draft

variable {α β : Type}

/-- What the draft yields satisfies `post`. -/
def Gives (d : Draft α) (post : α → Prop) : Prop :=
  ∀ first r, d first = .ok r → post r.value

theorem Gives.pure {a : α} {post : α → Prop} (h : post a) : Gives (pure a) post := by
  intro first r hr
  cases hr
  exact h

theorem Gives.bind {x : Draft α} {f : α → Draft β} {M : α → Prop} {post : β → Prop}
    (hx : x.Gives M) (hf : ∀ a, M a → (f a).Gives post) : (x >>= f).Gives post := by
  intro first r hr
  obtain ⟨a, ha, b, hb, rfl⟩ := bind_eq_ok.mp hr
  exact hf a.value (hx first a ha) a.next b hb

theorem Gives.last {x : Draft α} {f : α → Draft β} {post : β → Prop}
    (hf : ∀ a, (f a).Gives post) : (x >>= f).Gives post :=
  .bind (M := fun _ => True) (fun _ _ _ => trivial) fun a _ => hf a

theorem Gives.step (sentence : Label) : (Draft.step sentence).Gives Label.Sourceless := by
  intro first r hr
  cases hr
  exact Label.sourceless_step first

theorem Gives.sequence {ds : List (Draft α)} {post : α → Prop} (h : ∀ d ∈ ds, d.Gives post) :
    (Draft.sequence ds).Gives fun as => as.length = ds.length ∧ ∀ a ∈ as, post a := by
  induction ds with
  | nil => exact .pure ⟨rfl, by simp⟩
  | cons d ds ih =>
    obtain ⟨hd, hds⟩ := List.forall_mem_cons.mp h
    refine .bind hd fun a ha => .bind (ih hds) fun rest hrest => .pure ⟨?_, ?_⟩
    · simp [hrest.1]
    · exact List.forall_mem_cons.mpr ⟨ha, hrest.2⟩

end Draft

namespace Sql

open Draft

variable (s : Settings)

theorem gives_query (q : Query) : (q.draft s).Gives Label.Sourceless := by
  intro first r hr
  obtain ⟨init, last, -, hvalue, -⟩ := concludes_query s q first r hr
  rw [hvalue]
  exact Label.sourceless_step last.id

/-- No expression has a label that ends with `from` and a step. -/
theorem hereditary_sourceless :
    Hereditary (fun e => ∀ qs, (e.draft s qs).Gives Label.Sourceless) fun _ => True where
  column c q := .pure (Label.sourceless_text _)
  literal v q := .pure (Label.sourceless_text _)
  binary l op r hl hr q := by
    have hwords : op.words ≠ "from" := by cases op <;> decide
    refine .last fun a => .bind (hr q) fun b hb => ?_
    dsimp only
    split
    · exact .pure (hb.joined hwords a)
    · exact .step _
  unary op e he q := by
    refine .bind (he q) fun a ha => ?_
    cases op with
    | not => exact .step _
    | neg => exact .pure ha.signed
    | plus => exact .pure ha
  isValue e v negated he q := .last fun a => .step _
  between e low high negated he hlow hhigh q := .last fun a => .last fun b => .last fun c => .step _
  inList e items negated he hi q := .last fun a => .last fun labels => .step _
  inQuery e query negated he hq q := .last fun a => .last fun rows => .step _
  existsQuery query negated hq q := .last fun rows => .step _
  subquery query hq q := gives_query s query
  like e pattern negated ignoreCase he hp q := .last fun a => .last fun b => .step _
  call f args distinct ha q := by
    unfold Expr.draft
    split
    · exact .pure (Label.sourceless_text _)
    · split
      · exact fun first r hr => nomatch hr
      · rename_i phrase hphrase
        refine .bind (.sequence (forall_draftsOfExprs s fun a ham => ha a ham q)) fun labels h => ?_
        rw [draftsOfExprs_eq_map, List.length_map] at h
        exact .pure (Label.sourceless_call (h.1 ▸ hphrase) h.2)
  nested e he q := by
    refine .bind (he q) fun a ha => .pure ?_
    split
    · exact Label.sourceless_concat (.text "(" :: a.parts) ")"
    · exact ha
  wildcard q := fun first r hr => nomatch hr
  select _ _ _ _ _ _ := trivial
  setOperation _ _ _ _ _ _ _ _ _ _ := trivial

/-- No item of a SELECT list has a label that ends with `from` and a step. -/
theorem gives_item (item : SelectItem) : (item.draft s).Gives Label.Sourceless := by
  cases item with
  | all => exact .pure (Label.sourceless_text _)
  | allOf table => exact .pure (Label.sourceless_text _)
  | expr value aliasName =>
    exact .bind ((hereditary_sourceless s).expr value .kept) fun a ha =>
      .pure (ha.withAlias s aliasName)

end Sql

end QuerySteps
