import QuerySteps.Proofs.Readability.Operand
import QuerySteps.Proofs.Syntax.Hereditary
import QuerySteps.Proofs.Translate.Conditions

/-!
# Expressions as operands

The label of an expression over legible columns and constants is an operand, wherever its conditions
are written in; the label of a boolean expression names a check (`Expr.IsLegible.says`). Subqueries
are named by their last step, so their own texts do not matter.
-/

namespace QuerySteps

open Sql QuerySteps.Part Mark Draft

namespace Sql.Expr

mutual

/-- The columns and constants outside subqueries have legible texts. -/
def IsLegible (s : Settings) : Expr → Prop
  | column c => Legible (s.columnText c)
  | literal v => Legible v.text
  | wildcard | existsQuery .. | subquery _ => True
  | binary l _ r => l.IsLegible s ∧ r.IsLegible s
  | unary _ e | nested e | inQuery e _ _ => e.IsLegible s
  | isValue e v _ => e.IsLegible s ∧ Legible v.text
  | between e low high _ => e.IsLegible s ∧ low.IsLegible s ∧ high.IsLegible s
  | inList e items _ => e.IsLegible s ∧ ExprsLegible s items
  | like e pattern _ _ => e.IsLegible s ∧ pattern.IsLegible s
  | call _ args _ => ExprsLegible s args
termination_by structural e => e

def ExprsLegible (s : Settings) : List Expr → Prop
  | [] => True
  | e :: es => e.IsLegible s ∧ ExprsLegible s es
termination_by structural es => es

end

theorem exprsLegible_iff {s : Settings} {es : List Expr} :
    ExprsLegible s es ↔ ∀ e ∈ es, e.IsLegible s := by
  induction es with
  | nil => simp [ExprsLegible]
  | cons e es ih => simp [ExprsLegible, ih]

/-- The expression tests a condition. -/
def isBoolean (e : Expr) : Bool :=
  match e.withoutParens with
  | .binary _ op _ => op.isPredicate
  | .unary .not _ | .isValue .. | .between .. | .inList .. | .inQuery .. | .existsQuery ..
  | .like .. => true
  | _ => false

/-- The expression is two conditions that both have to hold. -/
def isConjunction (e : Expr) : Bool :=
  match e.withoutParens with
  | .binary _ .and _ => true
  | _ => false

end Sql.Expr

namespace Label

/-- With the conditions written in, the label is an operand. -/
def IsOperand (c : Conditions) (a : Label) : Prop :=
  Part.IsOperand (a.parts.flatMap (Part.write grouped c))

/-- The label names a check with such a condition. -/
def IsCheck (c : Conditions) (conjunction : Bool) (a : Label) : Prop :=
  ∃ id body, a = .step id ∧ c id = some body ∧ Part.IsBody conjunction body

variable {c : Conditions} {a b : Label}

theorem IsCheck.isOperand {conjunction : Bool} (h : a.IsCheck c conjunction) : a.IsOperand c := by
  obtain ⟨id, body, rfl, hbody, h⟩ := h
  simpa [IsOperand, Label.step, Part.write, hbody] using h.grouped

theorem isOperand_of_names (h : c.Names a) : a.IsOperand c := by
  obtain ⟨id, rfl, hid⟩ := h
  simpa [IsOperand, Label.step, Part.write, hid] using Part.IsOperand.ref id

theorem isOperand_text {words : String} (h : Legible words) : (Label.text words).IsOperand c :=
  Part.IsOperand.text h

theorem IsOperand.append (ha : a.IsOperand c) (hb : b.IsOperand c) : (a ++ b).IsOperand c := by
  simpa [IsOperand] using Part.IsOperand.append ha hb

theorem IsOperand.before (ha : a.IsOperand c) {words : String} (h : Legible words) :
    (a.before words).IsOperand c :=
  ha.append (isOperand_text h)

theorem IsOperand.parenthesized (ha : a.IsOperand c) : a.parenthesized.IsOperand c := by
  obtain ⟨outline, h, -⟩ := ha
  simpa [IsOperand, Label.parenthesized, Part.enclosed, Part.write] using h.isOperand_enclosed

theorem IsOperand.signed (ha : a.IsOperand c) : (a.signed "-").IsOperand c := by
  obtain ⟨outline, h, hoperand⟩ := ha
  obtain ⟨parts⟩ := a
  have hsign (words : String) : Part.marks (.text ("-" ++ words)) = Part.marks (.text words) ∧
      (Part.Closed (.text words) → Part.Closed (.text ("-" ++ words))) := by
    have htext : ("-" ++ words).toList = '-' :: words.toList := by simp
    simp only [Part.marks, Part.Closed, htext]
    exact ⟨read_punctuation (show punctuation? '-' = some [] by decide), id⟩
  refine ⟨outline, ?_, hoperand⟩
  obtain _ | ⟨p, rest⟩ := parts
  · exact absurd (h.outline_eq.symm) hoperand.ne_nil
  cases p with
  | text words =>
    obtain ⟨hmarks, hclosed⟩ := hsign words
    obtain ⟨hp, hrest⟩ := List.forall_mem_cons.mp h.closed
    have hdepth := h.depth
    have houtline := h.outline_eq
    rw [flatMap_write_text, List.flatMap_cons, ← hmarks] at hdepth houtline
    exact ⟨List.forall_mem_cons.mpr ⟨hclosed hp, hrest⟩, hdepth, houtline⟩
  | ref id =>
    have hempty : Part.marks (.text "-") = [] := by decide
    have hmarks (parts : List Part) :
        (.text "-" :: parts).flatMap Part.marks = parts.flatMap Part.marks := by
      rw [List.flatMap_cons, hempty, List.nil_append]
    show Outlined (.text "-" :: (.ref id :: rest).flatMap (Part.write grouped c)) outline
    refine ⟨List.forall_mem_cons.mpr ⟨show Mark.Closed _ by decide, h.closed⟩, ?_, ?_⟩
    · rw [hmarks]
      exact h.depth
    · rw [hmarks]
      exact h.outline_eq

theorem isOperand_flatMap {labels : List Label} (h : ∀ a ∈ labels, a.IsOperand c) :
    labels = [] ∨ (⟨labels.flatMap (·.parts)⟩ : Label).IsOperand c := by
  induction labels with
  | nil => exact .inl rfl
  | cons a labels ih =>
    obtain ⟨ha, hlabels⟩ := List.forall_mem_cons.mp h
    refine .inr ?_
    rcases ih hlabels with rfl | hrest
    · simpa [IsOperand] using ha
    · simpa [IsOperand] using Part.IsOperand.append ha hrest

theorem isOperand_commaList {labels : List Label} (h : ∀ a ∈ labels, a.IsOperand c) :
    labels = [] ∨ (commaList labels).IsOperand c := by
  unfold commaList
  induction labels with
  | nil => exact .inl rfl
  | cons a labels ih =>
    obtain ⟨⟨outline, ha, hoperand⟩, hlabels⟩ := List.forall_mem_cons.mp h
    refine .inr ?_
    cases labels with
    | nil => exact ⟨outline, by simpa [List.intercalate_singleton] using ha, hoperand⟩
    | cons b labels =>
      obtain ⟨rest, hrest, hoperands⟩ := (ih hlabels).resolve_left (List.cons_ne_nil _ _)
      refine ⟨outline ++ .comma :: rest, ?_, hoperand.append_comma hoperands⟩
      simp only [List.map_cons, List.intercalate_cons_cons] at hrest ⊢
      simpa [Part.write] using ha.append (.append .comma hrest)

end Label

namespace CallPhrase

/-- The words that open calls. -/
def leads (distinct : Bool) : List String :=
  let mark := if distinct then " distinct" else ""
  ["number of" ++ mark ++ " non-null values in", "sum of" ++ mark, "average of" ++ mark,
    "minimum of" ++ mark, "maximum of" ++ mark, "lowercase version of", "uppercase version of",
    "length of", "absolute value of"]

theorem mem_leads {name words : String} {arity : Nat} {distinct : Bool}
    (h : ofFunction? name arity distinct = some (.lead words)) : words ∈ leads distinct := by
  unfold ofFunction? at h
  unfold leads
  generalize (if distinct then " distinct" else "") = mark at *
  dsimp only at h ⊢
  split at h <;> simp_all

theorem legible_leads : ∀ distinct, ∀ words ∈ leads distinct, Legible words := by
  decide

theorem isOperand_label {c : Conditions} {name : String} {arity : Nat} {distinct : Bool}
    {phrase : CallPhrase} (h : ofFunction? name arity distinct = some phrase) {args : List Label}
    (ha : ∀ a ∈ args, a.IsOperand c) : (phrase.label args).IsOperand c := by
  have hbefore (labels : List Label) (hsub : ∀ a ∈ labels, a ∈ args) {words : String}
      (hw : Legible words) : (Label.before ⟨labels.flatMap (·.parts)⟩ words).IsOperand c := by
    rcases Label.isOperand_flatMap fun a hmem => ha a (hsub a hmem) with rfl | hlabels
    · exact Label.isOperand_text hw
    · exact hlabels.before hw
  cases phrase with
  | lead words =>
    have hwords := Label.isOperand_text (c := c) (legible_leads distinct words (mem_leads h))
    rcases Label.isOperand_flatMap ha with rfl | hargs
    · exact hwords
    · exact hwords.append hargs
  | toInteger => exact hbefore args (fun _ => id) (by decide)
  | toPlaces =>
    have hplaces := (hbefore (args.take 1) (fun _ => List.mem_of_mem_take)
      (show Legible "rounded to" by decide)).append
      (hbefore (args.drop 1) (fun _ => List.mem_of_mem_drop)
        (show Legible "decimal places" by decide))
    simpa [label, Label.IsOperand, Label.before, Label.text, write] using hplaces

end CallPhrase

namespace Draft

variable {c : Conditions} {conjunction : Bool}

theorem says_isCheck {condition : Label}
    (h : Part.IsBody conjunction (condition.parts.flatMap (write grouped c))) :
    (check condition).Says c fun a => a.IsCheck c conjunction :=
  .imp (.check condition) fun _ ⟨id, ha, hid⟩ => ⟨id, _, ha, hid, h⟩

/-- A condition without separators of its own. -/
theorem says_isCheck_of_isOperand {condition : Label} (h : condition.IsOperand c) :
    (check condition).Says c fun a => a.IsCheck c conjunction :=
  says_isCheck (.plain h)

/-- A condition that holds `and` where another operand begins. -/
theorem says_isCheck_of_and {condition a b : Label} {left right : List Mark}
    (hcondition : condition = a.before "and" ++ b)
    (ha : Outlined (a.parts.flatMap (write grouped c)) left) (hand : .and ∉ left)
    (hlast : left.getLast? ≠ some .comma) (hb : Outlined (b.parts.flatMap (write grouped c)) right)
    (hright : Mark.IsOperand right) (hkind : conjunction = true ∨ .between ∈ left) :
    (check condition).Says c fun a => a.IsCheck c conjunction := by
  have hparts : condition.parts.flatMap (write grouped c) =
      a.parts.flatMap (write grouped c) ++
        ([.text "and"] ++ b.parts.flatMap (write grouped c)) := by
    simp [hcondition, Label.before, Label.text, write]
  refine says_isCheck (.chain (a := left) (b := right) ?_ ?_ hand hlast hright hkind)
  · rw [hparts]
    exact ha.append (.append .and hb)
  · simp [hparts, haveConnective]

end Draft

namespace Sql.Expr

variable {s : Settings} {c : Conditions} {e : Expr}

/-- The label is an operand, and that of a boolean expression names its check. -/
def Labels (c : Conditions) (e : Expr) (a : Label) : Prop :=
  a.IsOperand c ∧ (e.isBoolean = true → a.IsCheck c e.isConjunction)

theorem says_of_isCheck (h : (e.draft s .kept).Says c fun a => a.IsCheck c e.isConjunction) :
    (e.draft s .kept).Says c (e.Labels c) :=
  .imp h fun _ ha => ⟨ha.isOperand, fun _ => ha⟩

theorem says_of_isOperand (hboolean : e.isBoolean = false)
    (h : (e.draft s .kept).Says c (Label.IsOperand c)) : (e.draft s .kept).Says c (e.Labels c) :=
  .imp h fun _ ha => ⟨ha, fun hb => by rw [hboolean] at hb; cases hb⟩

/-- If its columns and constants are legible, the expression is labelled so. -/
def Labelled (s : Settings) (c : Conditions) (e : Expr) : Prop :=
  e.IsLegible s → (e.draft s .kept).Says c (e.Labels c)

theorem Labelled.operand (h : e.Labelled s c) (hlegible : e.IsLegible s) :
    (e.draft s .kept).Says c (Label.IsOperand c) :=
  .imp (h hlegible) fun _ ha => ha.1

theorem legible_words {op : BinaryOp} (h : op ≠ .and) : Legible op.words := by
  cases op <;> first | decide | exact absurd rfl h

theorem labelled_binary {l r : Expr} {op : BinaryOp} (hl : l.Labelled s c) (hr : r.Labelled s c) :
    (binary l op r).Labelled s c := by
  intro ⟨hleft, hright⟩
  by_cases hand : op = .and
  · subst hand
    refine says_of_isCheck (.bind (hl.operand hleft) fun a ⟨left, ha, hoa⟩ =>
      .bind (hr.operand hright) fun b ⟨right, hb, hob⟩ => ?_)
    exact says_isCheck_of_and rfl ha hoa.and_notMem hoa.last_ne hb hob (.inl rfl)
  · have hwords := legible_words hand
    cases harithmetic : op.isArithmetic with
    | true =>
      have hboolean : (binary l op r).isBoolean = false := by
        simp [isBoolean, withoutParens, BinaryOp.isPredicate, harithmetic]
      refine says_of_isOperand hboolean (.bind (hl.operand hleft) fun a ha =>
        .bind (hr.operand hright) fun b hb => ?_)
      simp only [harithmetic, if_true]
      exact .pure ((ha.before hwords).append hb)
    | false =>
      refine says_of_isCheck (.bind (hl.operand hleft) fun a ha =>
        .bind (hr.operand hright) fun b hb => ?_)
      simp only [harithmetic, Bool.false_eq_true, if_false]
      exact says_isCheck_of_isOperand ((ha.before hwords).append hb)

theorem labelled_between {e low high : Expr} {negated : Bool} (he : e.Labelled s c)
    (hlow : low.Labelled s c) (hhigh : high.Labelled s c) :
    (between e low high negated).Labelled s c := by
  intro ⟨hvalue, hfrom, hto⟩
  refine says_of_isCheck (.bind (he.operand hvalue) fun a ⟨value, ha, hoa⟩ =>
    .bind (hlow.operand hfrom) fun b ⟨lower, hb, hob⟩ =>
    .bind (hhigh.operand hto) fun d ⟨upper, hd, hod⟩ => ?_)
  obtain ⟨verb, hverb, hnoand, hbetween⟩ : ∃ verb,
      Outlined [.text (if negated then "is not between" else "is between")] verb ∧
        .and ∉ verb ∧ .between ∈ verb := by
    cases negated <;> exact ⟨_, .text (by decide) (by decide), by decide, by decide⟩
  refine says_isCheck_of_and rfl (show Outlined _ (value ++ verb ++ lower) from ?_) ?_ ?_ hd hod ?_
  · simpa [Label.before, Label.text, Part.write] using (ha.append hverb).append hb
  · simp [hoa.and_notMem, hnoand, hob.and_notMem]
  · rw [List.getLast?_append_of_ne_nil _ hob.ne_nil]
    exact hob.last_ne
  · simp [hbetween]

theorem labelled_inList {e : Expr} {items : List Expr} {negated : Bool} (he : e.Labelled s c)
    (hitems : ∀ i ∈ items, i.Labelled s c) : (inList e items negated).Labelled s c := by
  intro ⟨hvalue, hlist⟩
  have hlegible := exprsLegible_iff.mp hlist
  have hverb : Legible (if negated then "is not one of" else "is one of") := by
    cases negated <;> decide
  refine says_of_isCheck (.bind (he.operand hvalue) fun a ha => ?_)
  rw [draftsOfExprs_eq_map]
  refine .bind (.all fun i hi => (hitems i hi).operand (hlegible i hi)) fun labels hlabels => ?_
  refine says_isCheck_of_isOperand ?_
  rcases Label.isOperand_commaList hlabels with rfl | hlabels
  · simpa [Label.IsOperand, Label.commaList] using ha.before hverb
  · exact (ha.before hverb).append hlabels

theorem labelled_call {f : String} {args : List Expr} {distinct : Bool}
    (hargs : ∀ a ∈ args, a.Labelled s c) : (call f args distinct).Labelled s c := by
  intro hlist
  have hlegible := exprsLegible_iff.mp hlist
  refine says_of_isOperand rfl ?_
  unfold Expr.draft
  split
  · exact .pure (Label.isOperand_text (by decide))
  · split
    · exact .fail
    · rename_i phrase hphrase
      rw [draftsOfExprs_eq_map]
      refine .bind (.all fun a ha => (hargs a ha).operand (hlegible a ha)) fun labels hlabels => ?_
      exact .pure (CallPhrase.isOperand_label hphrase hlabels)

theorem labelled_nested (he : e.Labelled s c) : (nested e).Labelled s c := by
  intro h
  cases harithmetic : e.isArithmetic with
  | true =>
    have hboolean : (nested e).isBoolean = false := by
      cases e with
      | binary l op r =>
        have hop : op.isArithmetic = true := harithmetic
        simp [isBoolean, withoutParens, BinaryOp.isPredicate, hop]
      | _ => cases harithmetic
    refine says_of_isOperand hboolean (.bind (he.operand h) fun a ha => ?_)
    simp only [harithmetic, if_true]
    exact .pure ha.parenthesized
  | false =>
    have hinner := he h
    rwa [← draft_nested harithmetic] at hinner

theorem hereditary_labelled (s : Settings) (c : Conditions) :
    Hereditary (Labelled s c) fun _ => True where
  column column h := says_of_isOperand rfl (.pure (Label.isOperand_text h))
  literal v h := says_of_isOperand rfl (.pure (Label.isOperand_text h))
  binary l op r hl hr := labelled_binary hl hr
  unary op e he h := by
    have hoperand := he.operand h
    cases op with
    | not =>
      refine says_of_isCheck (.bind hoperand fun a ha => ?_)
      exact says_isCheck_of_isOperand (ha.before (by decide))
    | neg => exact says_of_isOperand rfl (.bind hoperand fun a ha => .pure ha.signed)
    | plus => exact says_of_isOperand rfl (.bind hoperand fun a ha => .pure ha)
  isValue e v negated he := by
    intro ⟨hoperand, hvalue⟩
    refine says_of_isCheck (.bind (he.operand hoperand) fun a ha => ?_)
    refine says_isCheck_of_isOperand (.before (.before ha ?_) hvalue)
    cases negated <;> decide
  between e low high negated he hlow hhigh := labelled_between he hlow hhigh
  inList e items negated he hitems := labelled_inList he hitems
  inQuery e q negated he _ h := by
    refine says_of_isCheck (.bind (he.operand h) fun a ha =>
      .bind (says_query s q) fun rows hr => ?_)
    refine says_isCheck_of_isOperand (.append (.before ha ?_) (Label.isOperand_of_names hr))
    cases negated <;> decide
  existsQuery q negated _ h := by
    refine says_of_isCheck (.bind (says_query s q) fun rows hr => ?_)
    refine says_isCheck_of_isOperand (.before (Label.isOperand_of_names hr) ?_)
    cases negated <;> decide
  subquery q _ h := says_of_isOperand rfl (.imp (says_query s q) fun _ => Label.isOperand_of_names)
  like e pattern negated ignoreCase he hpattern := by
    intro ⟨hvalue, hlike⟩
    refine says_of_isCheck (.bind (he.operand hvalue) fun a ha =>
      .bind (hpattern.operand hlike) fun b hb => ?_)
    refine says_isCheck_of_isOperand (.append (.before ha ?_) hb)
    cases negated <;> cases ignoreCase <;> decide
  call f args distinct hargs := labelled_call hargs
  nested e he := labelled_nested he
  wildcard h := .fail
  select _ _ _ _ _ _ := trivial
  setOperation _ _ _ _ _ _ _ _ _ _ := trivial

end Sql.Expr

end QuerySteps
