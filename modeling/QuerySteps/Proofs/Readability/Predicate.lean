import QuerySteps.Proofs.Readability.Formula

/-!
# Reading nested predicates

Comparisons and lists may have predicates as operands, and these lose their boundaries in the step
of WHERE: an operand without connectives is written as it is. So the step says what the predicates
read one after the other, and two predicates are confused exactly if they read the same.

Predicates that nest on the left only, over columns and numbers that are no connectives, can still
be read back from left to right: every two fragments after the first are a verb or a comma and what
follows it (`Predicate.read`).
-/

namespace QuerySteps

open Sql QuerySteps.Part

/-- A predicate over columns and numbers, which are known by their texts. -/
inductive Predicate where
  | atom (words : String)
  | compare (verb : Comparison) (left right : Predicate)
  | oneOf (negated : Bool) (operand : Predicate) (items : List Predicate)

def listVerb (negated : Bool) : String :=
  if negated then "is not one of" else "is one of"

namespace Predicate

/-- How the fragments of a predicate are written as an operand. -/
def asOperand : Predicate → List Part → List Part
  | atom _, words => words
  | _, words => grouped words

mutual

/-- The fragments of a predicate. -/
def words : Predicate → List Part
  | atom name => [.text name]
  | compare verb left right =>
    left.asOperand left.words ++ .text verb.op.words :: right.asOperand right.words
  | oneOf negated operand items =>
    operand.asOperand operand.words ++
      .text (listVerb negated) :: List.intercalate [.text ","] (wordsOfAll items)

def wordsOfAll : List Predicate → List (List Part)
  | [] => []
  | p :: ps => p.asOperand p.words :: wordsOfAll ps

end

/-- The predicate is a single text that is no connective. -/
def IsPlainAtom : Predicate → Prop
  | atom name => name ≠ "and" ∧ name ≠ "or"
  | _ => False

/-- Predicates stand as left operands only, lists have items, and no text is a connective. -/
def NestsLeft : Predicate → Prop
  | atom name => (atom name).IsPlainAtom
  | compare _ left right => left.NestsLeft ∧ right.IsPlainAtom
  | oneOf _ operand items => operand.NestsLeft ∧ items ≠ [] ∧ ∀ i ∈ items, i.IsPlainAtom

/-! ## Reading -/

def addItem : Predicate → Predicate → Predicate
  | oneOf negated operand items, item => oneOf negated operand (items ++ [item])
  | p, _ => p

def comparisonOf (words : String) : Comparison :=
  ([.eq, .notEq, .lt, .ltEq, .gt, .gtEq].find? fun verb : Comparison => verb.op.words == words).getD
    .eq

/-- Continues a predicate with a verb or a comma and what follows it. -/
def continueWith (p : Predicate) (words : String) (next : Predicate) : Predicate :=
  if words = "," then p.addItem next
  else if words = listVerb false then oneOf false p [next]
  else if words = listVerb true then oneOf true p [next]
  else compare (comparisonOf words) p next

/-- Continues a predicate with every two fragments. -/
def readOn (p : Predicate) : List Part → Predicate
  | .text words :: .text next :: rest => readOn (p.continueWith words (atom next)) rest
  | _ => p

/-- Reads a predicate that nests on the left only. -/
def read : List Part → Predicate
  | .text first :: rest => readOn (atom first) rest
  | _ => atom ""

theorem continueWith_comparison (p next : Predicate) (verb : Comparison) :
    p.continueWith verb.op.words next = compare verb p next := by
  cases verb <;> rfl

theorem continueWith_listVerb (p next : Predicate) (negated : Bool) :
    p.continueWith (listVerb negated) next = oneOf negated p [next] := by
  cases negated <;> rfl

theorem IsPlainAtom.exists_text {p : Predicate} (h : p.IsPlainAtom) :
    ∃ name, p = atom name ∧ name ≠ "and" ∧ name ≠ "or" := by
  cases p with
  | atom name => exact ⟨name, rfl, h⟩
  | compare verb left right => cases h
  | oneOf negated operand items => cases h

theorem words_oneOf_cons (negated : Bool) (operand first : Predicate) (rest : List Predicate) :
    (oneOf negated operand (first :: rest)).words = operand.asOperand operand.words ++
      .text (listVerb negated) :: first.asOperand first.words ++
        rest.flatMap fun p => .text "," :: p.asOperand p.words := by
  have hcommas (a : List Part) (ps : List Predicate) :
      List.intercalate [.text ","] (a :: wordsOfAll ps) =
        a ++ ps.flatMap fun p => .text "," :: p.asOperand p.words := by
    induction ps generalizing a with
    | nil => simp [wordsOfAll, List.intercalate_singleton]
    | cons p ps ih => rw [wordsOfAll, List.intercalate_cons_cons, ih]; simp
  rw [words, wordsOfAll, hcommas]
  simp

theorem haveConnective_verb (verb : Comparison) :
    haveConnective [.text verb.op.words] = false := by
  cases verb <;> decide

theorem haveConnective_listVerb (negated : Bool) :
    haveConnective [.text (listVerb negated)] = false := by
  cases negated <;> decide

theorem haveConnective_append (a b : List Part) :
    haveConnective (a ++ b) = (haveConnective a || haveConnective b) := List.any_append

theorem haveConnective_cons (p : Part) (ps : List Part) :
    haveConnective (p :: ps) = (haveConnective [p] || haveConnective ps) :=
  haveConnective_append [p] ps

theorem asOperand_eq {words : List Part} (p : Predicate) (h : haveConnective words = false) :
    p.asOperand words = words := by
  cases p with
  | atom name => rfl
  | _ => exact grouped_of_not_haveConnective h

theorem IsPlainAtom.haveConnective {p : Predicate} (h : p.IsPlainAtom) :
    haveConnective p.words = false := by
  obtain ⟨name, rfl, hand, hor⟩ := h.exists_text
  simp [words, Part.haveConnective, hand, hor]

theorem NestsLeft.haveConnective : {p : Predicate} → p.NestsLeft → haveConnective p.words = false
  | atom _, h => IsPlainAtom.haveConnective h
  | compare verb left right, ⟨hleft, hright⟩ => by
    have hl := hleft.haveConnective
    have hr := hright.haveConnective
    rw [words, asOperand_eq _ hl, asOperand_eq _ hr, haveConnective_append, haveConnective_cons,
      haveConnective_verb, hl, hr]
    rfl
  | oneOf negated operand items, ⟨hoperand, hne, hitems⟩ => by
    have ho := hoperand.haveConnective
    obtain ⟨first, rest, rfl⟩ := List.exists_cons_of_ne_nil hne
    obtain ⟨hfirst, hrest⟩ := List.forall_mem_cons.mp hitems
    have hlist : Part.haveConnective (rest.flatMap fun p => .text "," :: p.asOperand p.words) =
        false := by
      clear hne hitems
      induction rest with
      | nil => rfl
      | cons p rest ih =>
        obtain ⟨hp, hrest⟩ := List.forall_mem_cons.mp hrest
        rw [List.flatMap_cons, haveConnective_append, haveConnective_cons,
          asOperand_eq _ hp.haveConnective, hp.haveConnective, ih hrest]
        rfl
    rw [words_oneOf_cons, asOperand_eq _ ho, asOperand_eq _ hfirst.haveConnective,
      haveConnective_append, haveConnective_append, haveConnective_cons, haveConnective_listVerb,
      ho, hfirst.haveConnective, hlist]
    rfl

theorem readOn_items {rest : List Predicate} (h : ∀ p ∈ rest, p.IsPlainAtom) (negated : Bool)
    (operand : Predicate) (items : List Predicate) (more : List Part) :
    readOn (oneOf negated operand items)
        ((rest.flatMap fun p => .text "," :: p.asOperand p.words) ++ more) =
      readOn (oneOf negated operand (items ++ rest)) more := by
  induction rest generalizing items with
  | nil => simp
  | cons p rest ih =>
    obtain ⟨hp, hrest⟩ := List.forall_mem_cons.mp h
    obtain ⟨name, rfl, -, -⟩ := hp.exists_text
    have hnext := ih hrest (items ++ [atom name])
    rw [List.append_assoc] at hnext
    exact hnext

/-- Reading goes from the first text on through all fragments of a predicate that nests on the left
only. -/
theorem NestsLeft.readOn_words : {p : Predicate} → p.NestsLeft → ∃ first rest,
    p.words = .text first :: rest ∧ ∀ more, readOn (atom first) (rest ++ more) = readOn p more
  | atom name, _ => ⟨name, [], rfl, fun _ => rfl⟩
  | compare verb left right, ⟨hleft, hright⟩ => by
    obtain ⟨first, rest, hwords, hreads⟩ := hleft.readOn_words
    obtain ⟨name, rfl, -, -⟩ := hright.exists_text
    refine ⟨first, rest ++ [.text verb.op.words, .text name], ?_, fun more => ?_⟩
    · rw [words, asOperand_eq _ hleft.haveConnective, hwords]
      rfl
    · rw [List.append_assoc, hreads, ← continueWith_comparison]
      rfl
  | oneOf negated operand items, ⟨hoperand, hne, hitems⟩ => by
    obtain ⟨first, rest, hwords, hreads⟩ := hoperand.readOn_words
    obtain ⟨head, tail, rfl⟩ := List.exists_cons_of_ne_nil hne
    obtain ⟨hhead, htail⟩ := List.forall_mem_cons.mp hitems
    obtain ⟨name, rfl, -, -⟩ := hhead.exists_text
    refine ⟨first, rest ++ (.text (listVerb negated) :: .text name ::
      tail.flatMap fun p => .text "," :: p.asOperand p.words), ?_, fun more => ?_⟩
    · rw [words_oneOf_cons, asOperand_eq _ hoperand.haveConnective, hwords]
      simp [asOperand, words]
    · have hitems := readOn_items htail negated operand [atom name] more
      rw [← continueWith_listVerb] at hitems
      rw [List.append_assoc, hreads]
      exact hitems

theorem words_injective {p p' : Predicate} (h : p.NestsLeft) (h' : p'.NestsLeft)
    (heq : p.words = p'.words) : p = p' := by
  have hread {p : Predicate} (h : p.NestsLeft) : read p.words = p := by
    obtain ⟨first, rest, hwords, hreads⟩ := h.readOn_words
    have := hreads []
    rw [List.append_nil] at this
    rw [hwords, read, this, readOn]
    simp
  rw [← hread h, heq, hread h']

end Predicate

namespace Sql.Expr

/-- The expression is that predicate, maybe with parentheses. -/
inductive IsPredicate (s : Settings) : Expr → Predicate → Prop where
  | column (c : Column) : IsPredicate s (.column c) (.atom (s.columnText c))
  | number (digits : String) : IsPredicate s (.literal (.number digits)) (.atom digits)
  | compare {l r : Expr} {left right : Predicate} (verb : Comparison) (hl : IsPredicate s l left)
      (hr : IsPredicate s r right) : IsPredicate s (.binary l verb.op r) (.compare verb left right)
  | oneOf {e : Expr} {es : List Expr} {operand : Predicate} {items : List Predicate}
      (negated : Bool) (he : IsPredicate s e operand)
      (hitems : List.Forall₂ (IsPredicate s) es items) :
      IsPredicate s (.inList e es negated) (.oneOf negated operand items)
  | nested {e : Expr} {p : Predicate} (h : IsPredicate s e p) : IsPredicate s (.nested e) p

/-- What holds of columns and numbers and passes on to comparisons, lists and parentheses holds of
every predicate. -/
theorem IsPredicate.induction {s : Settings} {M : Expr → Predicate → Prop}
    (column : ∀ c, M (.column c) (.atom (s.columnText c)))
    (number : ∀ digits, M (.literal (.number digits)) (.atom digits))
    (compare : ∀ l r left right (verb : Comparison), M l left → M r right →
      M (.binary l verb.op r) (.compare verb left right))
    (oneOf : ∀ e es operand items negated, M e operand → List.Forall₂ M es items →
      M (.inList e es negated) (.oneOf negated operand items))
    (nested : ∀ e p, e.IsPredicate s p → M e p → M (.nested e) p) {e : Expr} {p : Predicate}
    (h : e.IsPredicate s p) : M e p :=
  @IsPredicate.rec s (fun e p _ => M e p) (fun es items _ => List.Forall₂ M es items) column number
    (fun verb _ _ hl hr => compare _ _ _ _ verb hl hr)
    (fun negated _ _ he hitems => oneOf _ _ _ _ negated he hitems) (fun h hp => nested _ _ h hp)
    .nil (fun _ _ hp hps => .cons hp hps) e p h

theorem IsPredicate.isArithmetic {s : Settings} {e : Expr} {p : Predicate}
    (h : e.IsPredicate s p) : e.isArithmetic = false := by
  cases h with
  | compare verb hl hr => exact verb.isArithmetic_op
  | _ => rfl

end Sql.Expr

namespace Predicate

variable {c : Conditions}

/-- The label shows an atom, or it names a check that reads the predicate. -/
def Labels (c : Conditions) : Predicate → Label → Prop
  | atom name, a => a = .text name
  | p, a => ∃ id, a = .step id ∧ c id = some p.words

theorem Labels.flatMap_write {p : Predicate} {a : Label} (h : p.Labels c a) :
    a.parts.flatMap (Part.write grouped c) = p.asOperand p.words := by
  cases p with
  | atom name =>
    obtain rfl : a = .text name := h
    rfl
  | compare verb left right =>
    obtain ⟨id, rfl, hid⟩ := h
    simp [Label.step, Part.write, hid, asOperand]
  | oneOf negated operand items =>
    obtain ⟨id, rfl, hid⟩ := h
    simp [Label.step, Part.write, hid, asOperand]

theorem flatMap_write_commaList {items : List Predicate} {labels : List Label}
    (h : List.Forall₂ (Labels c) items labels) :
    (Label.commaList labels).parts.flatMap (Part.write grouped c) =
      List.intercalate [.text ","] (wordsOfAll items) := by
  unfold Label.commaList
  induction h with
  | nil => rfl
  | @cons p a items labels hp h ih =>
    cases h with
    | nil => simpa [wordsOfAll, List.intercalate_singleton] using hp.flatMap_write
    | cons hq h =>
      simp only [List.map_cons, wordsOfAll, List.intercalate_cons_cons] at ih ⊢
      simp [hp.flatMap_write, ih, Part.write]

end Predicate

namespace Sql.Expr

open Predicate

variable {s : Settings} {e : Expr} {p : Predicate}

theorem IsPredicate.says_labels (h : e.IsPredicate s p) (c : Conditions) :
    (e.draft s .kept).Says c (p.Labels c) := by
  refine IsPredicate.induction (M := fun e p => (e.draft s .kept).Says c (p.Labels c))
    (fun column => .pure rfl) (fun digits => .pure rfl) ?_ ?_ ?_ h
  · intro l r left right verb hl hr
    refine .bind hl fun a ha => .bind hr fun b hb => ?_
    simp only [verb.isArithmetic_op]
    refine .imp (.check _) ?_
    rintro label ⟨id, hid, hbody⟩
    refine ⟨id, hid, hbody.trans ?_⟩
    simp [Label.before, Label.text, Part.write, ha.flatMap_write, hb.flatMap_write, Predicate.words]
  · intro e es operand items negated he hitems
    refine .bind he fun a ha => ?_
    rw [draftsOfExprs_eq_map]
    refine .bind (.sequence (List.forall₂_map_left_iff.mpr hitems)) fun labels hlabels => ?_
    refine .imp (.check _) ?_
    rintro label ⟨id, hid, hbody⟩
    refine ⟨id, hid, hbody.trans ?_⟩
    simp [Label.before, Label.text, Part.write, ha.flatMap_write, flatMap_write_commaList hlabels,
      Predicate.words, listVerb]
  · intro e p h hp
    rwa [Expr.draft_nested h.isArithmetic]

theorem IsPredicate.reads (h : e.IsPredicate s p) (hp : ∀ name, p ≠ .atom name) :
    e.Reads s p.words := by
  intro c
  refine .imp (h.says_labels c) fun a ha => ?_
  cases p with
  | atom name => exact absurd rfl (hp name)
  | compare verb left right => exact ha
  | oneOf negated operand items => exact ha

theorem IsPredicate.supported (h : e.IsPredicate s p) : e.supported = true := by
  refine IsPredicate.induction (M := fun e _ => e.supported = true) (fun column => rfl)
    (fun digits => rfl) ?_ ?_ (fun e p _ hp => hp) h
  · intro l r left right verb hl hr
    simp [Expr.supported, hl, hr]
  · intro e es operand items negated he hitems
    have hall : exprsSupported es = true := by
      induction hitems with
      | nil => rfl
      | cons hi his ih => simp [exprsSupported, hi, ih]
    simp [Expr.supported, he, hall]

end Sql.Expr

/-- Two predicates as WHERE of the same SELECT over at most one relation make the same step of WHERE
in the simplified plans exactly if they read the same. Predicates that nest on the left only do so
only if they are the same. If one of the queries has a plan, so has the other. -/
theorem filterSteps_eq_iff_words_eq {s : Settings} (hs : s.simplify = true) {q : Query}
    (hq : q.IsSingle) {e e' : Expr} {p p' : Predicate} (he : e.IsPredicate s p)
    (he' : e'.IsPredicate s p') (hp : ∀ name, p ≠ .atom name) (hp' : ∀ name, p' ≠ .atom name)
    (hok : ∃ sheet, Planner.planQuery { settings := s } (q.filteredBy e) = .ok sheet) :
    ∃ t t', Planner.filterStep? { settings := s } q e = some t ∧
      Planner.filterStep? { settings := s } q e' = some t' ∧ t.opensWith "Filter" = true ∧
      t'.opensWith "Filter" = true ∧ (t.parts = t'.parts ↔ p.words = p'.words) ∧
      (p.NestsLeft → p'.NestsLeft → p ≠ p' → t.parts ≠ t'.parts) := by
  have hok' := Planner.exists_plan_filteredBy hq he.supported he'.supported hok
  obtain ⟨lead, t, t', ht, ht', hopens, hopens', hparts, hparts'⟩ :=
    Planner.exists_filterSteps hs hq (he.reads hp) (he'.reads hp') hok hok'
  have hiff : t.parts = t'.parts ↔ p.words = p'.words := by
    rw [hparts, hparts', List.append_cancel_left_eq]
  exact ⟨t, t', ht, ht', hopens, hopens', hiff, fun hleft hleft' hne heq =>
    hne (Predicate.words_injective hleft hleft' (hiff.mp heq))⟩

def columnAtom (name : String) : Predicate :=
  .atom (({} : Settings).columnText { name := ⟨name, false⟩ })

theorem bareColumn_isPredicate (name : String) :
    (bareColumn name).IsPredicate {} (columnAtom name) :=
  .column _

/-- `(a IN (b)) = c` and `a IN (b, c)`. -/
theorem filterSteps_eq_iff_words_eq_list :
    let p := Predicate.compare .eq (.oneOf false (columnAtom "a") [columnAtom "b"]) (columnAtom "c")
    let p' := Predicate.oneOf false (columnAtom "a") [columnAtom "b", columnAtom "c"]
    ∃ t t',
      Planner.filterStep? {} wholeTable
        (.binary (.nested (.inList (bareColumn "a") [bareColumn "b"] false)) .eq (bareColumn "c")) =
          some t ∧
      Planner.filterStep? {} wholeTable
        (.inList (bareColumn "a") [bareColumn "b", bareColumn "c"] false) = some t' ∧
      t.opensWith "Filter" = true ∧ t'.opensWith "Filter" = true ∧
      (t.parts = t'.parts ↔ p.words = p'.words) ∧
      (p.NestsLeft → p'.NestsLeft → p ≠ p' → t.parts ≠ t'.parts) :=
  filterSteps_eq_iff_words_eq (s := {}) rfl ⟨_, rfl, by decide⟩
    (.compare .eq (.nested (.oneOf false (.column _) (.cons (.column _) .nil))) (.column _))
    (.oneOf false (.column _) (.cons (.column _) (.cons (.column _) .nil)))
    nofun nofun (Planner.exists_plan_iff.mpr (by decide))

/-- `(a = b) = c` and `a = (b = c)` are different predicates and make the same step of WHERE. -/
theorem filterSteps_eq_of_predicate_ne :
    let left := Expr.binary (.nested (.binary (bareColumn "a") .eq (bareColumn "b"))) .eq
      (bareColumn "c")
    let right := Expr.binary (bareColumn "a") .eq
      (.nested (.binary (bareColumn "b") .eq (bareColumn "c")))
    ∃ p p', left.IsPredicate {} p ∧ right.IsPredicate {} p' ∧ p ≠ p' ∧
      ∃ t t', Planner.filterStep? {} wholeTable left = some t ∧
        Planner.filterStep? {} wholeTable right = some t' ∧ t.parts = t'.parts := by
  have ha := bareColumn_isPredicate "a"
  have hb := bareColumn_isPredicate "b"
  have hc := bareColumn_isPredicate "c"
  have hleft := (ha.compare .eq hb).nested.compare .eq hc
  have hright := ha.compare .eq (hb.compare .eq hc).nested
  obtain ⟨lead, t, t', ht, ht', -, -, hparts, hparts'⟩ :=
    Planner.exists_filterSteps (q := wholeTable) rfl ⟨_, rfl, by decide⟩ (hleft.reads nofun)
      (hright.reads nofun) (Planner.exists_plan_iff.mpr (by decide))
      (Planner.exists_plan_iff.mpr (by decide))
  refine ⟨_, _, hleft, hright, by simp [columnAtom], t, t', ht, ht', ?_⟩
  rw [hparts, hparts']
  rfl

end QuerySteps
