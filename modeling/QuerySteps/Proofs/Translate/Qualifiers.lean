import QuerySteps.Proofs.Syntax.Qualifiers
import QuerySteps.Proofs.Translate.Support

/-!
# Translating without qualifiers

To drop the qualifiers while an expression is worded is to word the expression that has none
(`draft_withoutQualifiers`). Qualifiers matter to the texts alone: with them or without, a step has
the same layout, which is its identifier and, fragment by fragment, the step that is referred to.
-/

namespace QuerySteps

open Sql

/-! ## Layouts -/

namespace Label

/-- For each fragment the step that it refers to, or nothing for a text. -/
def layout (a : Label) : List (Option StepId) :=
  a.parts.map Part.ref?

theorem length_layout (a : Label) : a.layout.length = a.parts.length :=
  List.length_map _

theorem filterMap_layout (a : Label) : a.layout.filterMap id = a.refs :=
  List.filterMap_map

/-- The labels differ in their texts at most. -/
def SameLayout (a b : Label) : Prop :=
  a.layout = b.layout

theorem layout_append (a b : Label) : (a ++ b).layout = a.layout ++ b.layout :=
  List.map_append

theorem layout_signed (sign : String) (a : Label) :
    (a.signed sign).layout = match a.layout with
      | none :: rest => none :: rest
      | other => none :: other := by
  obtain ⟨parts⟩ := a
  cases parts with
  | nil => rfl
  | cons p rest => cases p <;> rfl

theorem layout_commaList (labels : List Label) :
    (commaList labels).layout = List.intercalate [none] (labels.map layout) := by
  simp only [commaList, layout]
  induction labels with
  | nil => rfl
  | cons a rest ih =>
    cases rest with
    | nil => simp [layout]
    | cons b rest =>
      simp only [List.map_cons, List.intercalate_cons_cons, List.map_append] at ih ⊢
      rw [ih]
      rfl

theorem map_flatMap_parts (labels : List Label) :
    (labels.flatMap (·.parts)).map Part.ref? = (labels.map layout).flatten := by
  rw [List.map_flatMap, ← List.flatMap_def]
  rfl

namespace SameLayout

variable {a b c d : Label} {as bs : List Label}

theorem append (h : a.SameLayout b) (h' : c.SameLayout d) : (a ++ c).SameLayout (b ++ d) := by
  rw [SameLayout, layout_append, layout_append, h, h']

theorem before (h : a.SameLayout b) (words : String) :
    (a.before words).SameLayout (b.before words) :=
  h.append rfl

theorem signed (h : a.SameLayout b) (sign : String) :
    (a.signed sign).SameLayout (b.signed sign) := by
  rw [SameLayout, layout_signed, layout_signed, h]

theorem parenthesized (h : a.SameLayout b) : a.parenthesized.SameLayout b.parenthesized :=
  (append (rfl : (text "(").SameLayout (text "(")) h).before ")"

theorem commaList (h : as.map layout = bs.map layout) :
    (commaList as).SameLayout (commaList bs) := by
  rw [SameLayout, layout_commaList, layout_commaList, h]

theorem call (phrase : CallPhrase) (h : as.map layout = bs.map layout) :
    (phrase.label as).SameLayout (phrase.label bs) := by
  cases phrase with
  | lead words =>
    simp only [SameLayout, layout, CallPhrase.label, List.map_cons, map_flatMap_parts, h]
  | toInteger =>
    simp only [SameLayout, layout, CallPhrase.label, List.map_append, map_flatMap_parts, h]
  | toPlaces =>
    simp only [SameLayout, layout, CallPhrase.label, List.map_append, List.map_cons,
      map_flatMap_parts, List.map_take, List.map_drop, h]

end SameLayout

end Label

/-- The identifier of a step, and for each fragment the step that it refers to. -/
def Step.layout (t : Step) : StepId × List (Option StepId) :=
  (t.id, Label.layout ⟨t.parts⟩)

theorem Step.length_layout (t : Step) : t.layout.2.length = t.parts.length :=
  Label.length_layout _

theorem Step.filterMap_layout (t : Step) : t.layout.2.filterMap (fun r => r) = t.refs :=
  Label.filterMap_layout _

namespace Draft

variable {α β α' β' γ : Type}

/-- From every identifier on, both drafts fail alike, or they take the same identifiers for steps of
the same layouts and their values are related. -/
def Parallel (x : Draft α) (y : Draft β) (related : α → β → Prop) : Prop :=
  ∀ first, (∃ e, x first = .error e ∧ y first = .error e) ∨
    ∃ a b, x first = .ok a ∧ y first = .ok b ∧ related a.value b.value ∧
      a.steps.map Step.layout = b.steps.map Step.layout ∧ a.next = b.next

namespace Parallel

variable {x : Draft α} {y : Draft β} {f : α → Draft α'} {g : β → Draft β'} {R : α → β → Prop}
  {S : α' → β' → Prop}

theorem refl (x : Draft Label) : Parallel x x Label.SameLayout := by
  intro first
  cases x first with
  | error e => exact .inl ⟨e, rfl, rfl⟩
  | ok r => exact .inr ⟨r, r, rfl, rfl, rfl, rfl, rfl⟩

theorem pure {a : α} {b : β} (h : R a b) : Parallel (pure a) (pure b) R :=
  fun _ => .inr ⟨_, _, rfl, rfl, h, rfl, rfl⟩

theorem bind (hx : Parallel x y R) (hf : ∀ a b, R a b → Parallel (f a) (g b) S) :
    Parallel (x >>= f) (y >>= g) S := by
  intro first
  obtain ⟨e, hxe, hye⟩ | ⟨a, b, ha, hb, hR, hsteps, hnext⟩ := hx first
  · exact .inl ⟨e, bind_eq_error.mpr (.inl hxe), bind_eq_error.mpr (.inl hye)⟩
  obtain ⟨e, hfe, hge⟩ | ⟨c, d, hc, hd, hS, hmore, hend⟩ := hf _ _ hR a.next
  · rw [hnext] at hge
    exact .inl ⟨e, bind_eq_error.mpr (.inr ⟨a, ha, hfe⟩), bind_eq_error.mpr (.inr ⟨b, hb, hge⟩)⟩
  · rw [hnext] at hd
    refine .inr ⟨_, _, bind_eq_ok.mpr ⟨a, ha, c, hc, rfl⟩, bind_eq_ok.mpr ⟨b, hb, d, hd, rfl⟩, hS,
      ?_, hend⟩
    simp only [List.map_append, hsteps, hmore]

theorem check {a b : Label} (h : a.SameLayout b) :
    Parallel (Draft.check a) (Draft.check b) Label.SameLayout := by
  have hstep : (Label.text checkPhrase ++ a).SameLayout (Label.text checkPhrase ++ b) :=
    .append rfl h
  exact fun first => .inr ⟨_, _, rfl, rfl, rfl, congrArg (fun o => [(first, o)]) hstep, rfl⟩

theorem sequence {f g : γ → Draft Label} {cs : List γ}
    (h : ∀ c ∈ cs, Parallel (f c) (g c) Label.SameLayout) :
    Parallel (Draft.sequence (cs.map f)) (Draft.sequence (cs.map g))
      fun as bs => as.map Label.layout = bs.map Label.layout := by
  induction cs with
  | nil => exact .pure rfl
  | cons c cs ih =>
    obtain ⟨hc, hcs⟩ := List.forall_mem_cons.mp h
    refine .bind hc fun a b hab => .bind (ih hcs) fun as bs hrest => .pure ?_
    rw [List.map_cons, List.map_cons, hab, hrest]

end Parallel

end Draft

namespace Sql

open Draft

variable {s : Settings}

/-! ## Expressions -/

theorem draftsOfExprs_withoutQualifiers {q : Qualifiers} {es : List Expr}
    (h : ∀ e ∈ es, ∀ q, e.withoutQualifiers.draft s q = e.draft s .dropped) :
    draftsOfExprs s q (Expr.listWithoutQualifiers es) = draftsOfExprs s .dropped es := by
  rw [Expr.listWithoutQualifiers_eq_map]
  exact draftsOfExprs_map fun e he => h e he q

/-- Stripping the parts of an expression words them without qualifiers, constructor by
constructor. -/
theorem hereditary_draft_withoutQualifiers (s : Settings) :
    Hereditary (fun e => ∀ q, e.withoutQualifiers.draft s q = e.draft s .dropped)
      fun _ => True where
  column c q := by cases q <;> rfl
  literal _ _ := rfl
  binary l op r hl hr q := by simp only [Expr.withoutQualifiers, Expr.draft, hl, hr]
  unary op e he q := by simp only [Expr.withoutQualifiers, Expr.draft, he]
  isValue e v n he q := by simp only [Expr.withoutQualifiers, Expr.draft, he]
  between e low high n he hlow hhigh q := by
    simp only [Expr.withoutQualifiers, Expr.draft, he, hlow, hhigh]
  inList e items n he hitems q := by
    simp only [Expr.withoutQualifiers, Expr.draft, he, draftsOfExprs_withoutQualifiers hitems]
  inQuery e query n he _ q := by simp only [Expr.withoutQualifiers, Expr.draft, he]
  existsQuery _ _ _ _ := rfl
  subquery _ _ _ := rfl
  like e pattern n i he hpattern q := by
    simp only [Expr.withoutQualifiers, Expr.draft, he, hpattern]
  call function args d hargs q := by
    have hcounts : countsRows function (Expr.listWithoutQualifiers args) =
        countsRows function args := by
      rw [Expr.listWithoutQualifiers_eq_map, Expr.countsRows_withoutQualifiers]
    have hlength : (Expr.listWithoutQualifiers args).length = args.length := by
      rw [Expr.listWithoutQualifiers_eq_map, List.length_map]
    simp only [Expr.withoutQualifiers, Expr.draft, hcounts, hlength,
      draftsOfExprs_withoutQualifiers hargs]
  nested e he q := by
    simp only [Expr.withoutQualifiers, Expr.draft, he, Expr.isArithmetic_withoutQualifiers]
  wildcard _ := rfl
  select _ _ _ _ _ _ := trivial
  setOperation _ _ _ _ _ _ _ _ _ _ := trivial

/-- The expression without qualifiers is worded as the expression is when qualifiers are dropped. -/
theorem draft_withoutQualifiers (s : Settings) (q : Qualifiers) (e : Expr) :
    e.withoutQualifiers.draft s q = e.draft s .dropped :=
  (hereditary_draft_withoutQualifiers s).expr e q

/-- With qualifiers or without, every constructor adds the same step but for its texts. -/
theorem hereditary_parallel (s : Settings) (q q' : Qualifiers) :
    Hereditary (fun e => Parallel (e.draft s q) (e.draft s q') Label.SameLayout)
      fun _ => True where
  column _ := .pure rfl
  literal _ := .pure rfl
  binary l op r hl hr := .bind hl fun a b hab => .bind hr fun c d hcd => by
    have hphrase := (hab.before op.words).append hcd
    split
    · exact .pure hphrase
    · exact .check hphrase
  unary op e he := .bind he fun a b hab => by
    cases op with
    | not => exact .check (hab.before _)
    | neg => exact .pure (hab.signed _)
    | plus => exact .pure hab
  isValue e v n he := .bind he fun a b hab => .check ((hab.before _).before _)
  between e low high n he hlow hhigh := .bind he fun a b hab => .bind hlow fun c d hcd =>
    .bind hhigh fun e f hef => .check ((((hab.before _).append hcd).before _).append hef)
  inList e items n he hitems := .bind he fun a b hab => by
    rw [draftsOfExprs_eq_map, draftsOfExprs_eq_map]
    exact .bind (.sequence hitems) fun as bs h => .check ((hab.before _).append (.commaList h))
  inQuery e query n he _ := .bind he fun a b hab =>
    .bind (.refl _) fun c d hcd => .check ((hab.before _).append hcd)
  existsQuery _ _ _ := .refl _
  subquery _ _ := .refl _
  like e pattern n i he hpattern := .bind he fun a b hab => .bind hpattern fun c d hcd =>
    .check ((hab.before _).append hcd)
  call function args d hargs := by
    unfold Expr.draft
    rw [draftsOfExprs_eq_map, draftsOfExprs_eq_map]
    split
    · exact .pure rfl
    · split
      · exact .refl _
      · exact .bind (.sequence hargs) fun as bs h => .pure (.call _ h)
  nested e he := .bind he fun a b hab => by
    split
    · exact .pure hab.parenthesized
    · exact .pure hab
  wildcard := .refl _
  select _ _ _ _ _ _ := trivial
  setOperation _ _ _ _ _ _ _ _ _ _ := trivial

/-- Qualifiers matter to the texts of the steps alone. -/
theorem parallel_draft (s : Settings) (q q' : Qualifiers) (e : Expr) :
    Parallel (e.draft s q) (e.draft s q') Label.SameLayout :=
  (hereditary_parallel s q q').expr e

/-- Stripping the qualifiers makes the columns outside subqueries bare, in their order, and touches
nothing else: an expression is its own stripped form exactly if those columns are bare, the form of
the expression and its subqueries stay, and the conjuncts are the stripped conjuncts. The stripped
expression is refused as the expression is, or it takes the same identifiers for steps with as many
fragments and the same references. -/
theorem Expr.withoutQualifiers_strips (e : Expr) :
    e.withoutQualifiers.columns = e.columns.map Column.bare ∧
    (e.withoutQualifiers = e ↔ ∀ c ∈ e.columns, c.schema = none ∧ c.table = none) ∧
    e.withoutQualifiers.withoutQualifiers = e.withoutQualifiers ∧
    e.withoutQualifiers.form = e.form ∧
    e.withoutQualifiers.subqueries = e.subqueries ∧
    e.withoutQualifiers.conjuncts = e.conjuncts.map Expr.withoutQualifiers ∧
    ∀ s first,
      (∃ error, e.withoutQualifiers.draft s .kept first = .error error ∧
        e.draft s .kept first = .error error) ∨
      ∃ stripped whole, e.withoutQualifiers.draft s .kept first = .ok stripped ∧
        e.draft s .kept first = .ok whole ∧
        stripped.value.parts.length = whole.value.parts.length ∧
        stripped.value.refs = whole.value.refs ∧
        stripped.steps.map (·.id) = whole.steps.map (·.id) ∧
        stripped.steps.map (·.parts.length) = whole.steps.map (·.parts.length) ∧
        stripped.steps.map (·.refs) = whole.steps.map (·.refs) ∧
        stripped.next = whole.next := by
  refine ⟨e.columns_withoutQualifiers, e.withoutQualifiers_eq_self_iff,
    e.withoutQualifiers_withoutQualifiers, e.form_withoutQualifiers,
    e.subqueries_withoutQualifiers, e.conjuncts_withoutQualifiers, fun s first => ?_⟩
  rw [draft_withoutQualifiers]
  obtain herror | ⟨stripped, whole, hs, hw, hvalue, hsteps, hnext⟩ :=
    parallel_draft s .dropped .kept e first
  · exact .inl herror
  have hread {γ : Type} (f : StepId × List (Option StepId) → γ) :
      stripped.steps.map (f ∘ Step.layout) = whole.steps.map (f ∘ Step.layout) := by
    rw [← List.map_map, hsteps, List.map_map]
  refine .inr ⟨stripped, whole, hs, hw, ?_, ?_, hread Prod.fst, ?_, ?_, hnext⟩
  · rw [← Label.length_layout, hvalue, Label.length_layout]
  · rw [← Label.filterMap_layout, hvalue, Label.filterMap_layout]
  · simpa only [Function.comp_def, Step.length_layout] using hread (·.2.length)
  · simpa only [Function.comp_def, Step.filterMap_layout] using
      hread (·.2.filterMap fun r => r)

end Sql

end QuerySteps
