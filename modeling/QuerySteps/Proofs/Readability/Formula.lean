import QuerySteps.Proofs.Readability.Filter

/-!
# Reading formulas

Formulas over comparisons and ranges by AND, OR and NOT can be read back from the step of WHERE. An
operand that holds a connective stands in parentheses. One without is a comparison under denials,
which are written after it, so it ends where no denial follows. `Formula.read` follows these rules
and takes exactly the words of a formula from the front of a text (`Formula.read_words`).
-/

namespace QuerySteps

open Sql QuerySteps.Part

/-- The text is none of those that show the structure of a formula. -/
def Part.IsOrdinary (words : String) : Prop :=
  words ∉ ["and", "or", "(", ")", "is false"]

instance (words : String) : Decidable (IsOrdinary words) :=
  inferInstanceAs (Decidable (words ∉ ["and", "or", "(", ")", "is false"]))

def rangeVerb (negated : Bool) : String :=
  if negated then "is not between" else "is between"

/-- The operators that compare two values. -/
inductive Comparison where
  | eq | notEq | lt | ltEq | gt | gtEq
  deriving DecidableEq

namespace Comparison

def op : Comparison → BinaryOp
  | eq => .eq
  | notEq => .notEq
  | lt => .lt
  | ltEq => .ltEq
  | gt => .gt
  | gtEq => .gtEq

theorem isArithmetic_op (comparison : Comparison) : comparison.op.isArithmetic = false := by
  cases comparison <;> rfl

end Comparison

/-- A formula over comparisons and ranges, which are known by their fragments. -/
inductive Formula where
  | leaf (parts : List Part)
  | not (operand : Formula)
  | and (left right : Formula)
  | or (left right : Formula)
  deriving DecidableEq

namespace Formula

/-- The fragments of a formula; operands with connectives are in parentheses. -/
def words : Formula → List Part
  | leaf parts => parts
  | not f => grouped f.words ++ [.text "is false"]
  | and f g => grouped f.words ++ .text "and" :: grouped g.words
  | or f g => grouped f.words ++ .text "or" :: grouped g.words

inductive IsComparison : List Part → Prop where
  | intro {left right : String} (verb : Comparison) (hleft : IsOrdinary left)
      (hright : IsOrdinary right) : IsComparison [.text left, .text verb.op.words, .text right]

inductive IsRange : List Part → Prop where
  | intro {operand low high : String} {negated : Bool} (hoperand : IsOrdinary operand)
      (hlow : IsOrdinary low) (hhigh : IsOrdinary high) :
      IsRange [.text operand, .text (rangeVerb negated), .text low, .text "and", .text high]

/-- Every leaf is a comparison or a range. -/
def Readable : Formula → Prop
  | leaf parts => IsComparison parts ∨ IsRange parts
  | not f => f.Readable
  | and f g | or f g => f.Readable ∧ g.Readable

def depth : Formula → Nat
  | leaf _ => 0
  | not f => f.depth + 1
  | and f g | or f g => max f.depth g.depth + 1

/-! ## Reading -/

/-- Takes the denials at the front of a text. -/
def deny (f : Formula) : List Part → Formula × List Part
  | [] => (f, [])
  | p :: rest => if p = .text "is false" then deny f.not rest else (f, p :: rest)

/-- Whether a range stands at the front. -/
def beginsWithRange (parts : List Part) : Bool :=
  parts.head? != some (.text "(") &&
    (parts[1]? == some (.text (rangeVerb false)) || parts[1]? == some (.text (rangeVerb true)))

/-- Takes an operand, where `inner` reads what is between parentheses. -/
def readOperand (inner : List Part → Formula × List Part) (parts : List Part) :
    Formula × List Part :=
  if parts.head? = some (.text "(") then
    let (f, rest) := inner parts.tail
    (f, rest.tail)
  else deny (leaf (parts.take 3)) (parts.drop 3)

/-- Takes what follows a first operand, where `next` reads another one. -/
def readAfter (next : List Part → Formula × List Part) (f : Formula) (rest : List Part) :
    Formula × List Part :=
  if rest.head? = some (.text "is false") then (f.not, rest.tail)
  else if rest.head? = some (.text "and") then
    let (g, rest) := next rest.tail
    (f.and g, rest)
  else if rest.head? = some (.text "or") then
    let (g, rest) := next rest.tail
    (f.or g, rest)
  else (f, rest)

/-- Takes a formula from the front of a text, with parentheses nested less than `n` deep. -/
def read : Nat → List Part → Formula × List Part
  | 0, parts => (leaf [], parts)
  | n + 1, parts =>
    if beginsWithRange parts then (leaf (parts.take 5), parts.drop 5)
    else
      let (f, rest) := readOperand (read n) parts
      readAfter (readOperand (read n)) f rest

theorem read_of_operand {n : Nat} {f : Formula} {parts rest : List Part}
    (hrange : beginsWithRange parts = false) (h : readOperand (read n) parts = (f, rest)) :
    read (n + 1) parts = readAfter (readOperand (read n)) f rest := by
  simp [read, hrange, h]

theorem words_ne_rangeVerb (verb : Comparison) (negated : Bool) :
    verb.op.words ≠ rangeVerb negated := by
  cases verb <;> cases negated <;> decide

theorem haveConnective_grouped (parts : List Part) :
    haveConnective (grouped parts) = haveConnective parts := by
  cases h : haveConnective parts with
  | true =>
    rw [grouped_of_haveConnective h]
    simp only [haveConnective] at h
    simp [enclosed, haveConnective, h]
  | false => rw [grouped_of_not_haveConnective h, h]

theorem IsComparison.haveConnective {parts : List Part} (h : IsComparison parts) :
    haveConnective parts = false := by
  obtain ⟨verb, hleft, hright⟩ := h
  have hwords : verb.op.words ≠ "and" ∧ verb.op.words ≠ "or" := by
    cases verb <;> decide
  simp only [IsOrdinary, List.mem_cons, not_or] at hleft hright
  simp [Part.haveConnective, hwords, hleft.1, hleft.2.1, hright.1, hright.2.1]

theorem haveConnective_not (f : Formula) :
    haveConnective f.not.words = haveConnective f.words := by
  rw [← haveConnective_grouped f.words]
  simp [words, haveConnective]

theorem exists_comparison {f : Formula} (h : f.Readable) (hf : haveConnective f.words = false) :
    ∃ parts suffix, IsComparison parts ∧ f.words = parts ++ suffix ∧
      ∀ rest, deny (leaf parts) (suffix ++ rest) = deny f rest := by
  induction f with
  | leaf parts =>
    rcases h with h | h
    · exact ⟨parts, [], h, by simp [words], fun rest => rfl⟩
    · cases h
      simp [words, haveConnective] at hf
  | not f ih =>
    have hinner : haveConnective f.words = false := by rwa [← haveConnective_not]
    obtain ⟨parts, suffix, hparts, hwords, hdeny⟩ := ih h hinner
    refine ⟨parts, suffix ++ [.text "is false"], hparts, ?_, fun rest => ?_⟩
    · rw [words, grouped_of_not_haveConnective hinner, hwords, List.append_assoc]
    · rw [List.append_assoc, hdeny]
      simp [deny]
  | and f g => simp [words, haveConnective] at hf
  | or f g => simp [words, haveConnective] at hf

theorem deny_of_head? {f : Formula} {rest : List Part}
    (h : rest.head? ≠ some (.text "is false")) : deny f rest = (f, rest) := by
  cases rest with
  | nil => rfl
  | cons p rest =>
    have hp : p ≠ .text "is false" := by simpa using h
    rw [deny, if_neg hp]

theorem readOperand_comparison (inner : List Part → Formula × List Part) {f : Formula}
    {rest : List Part} (h : f.Readable) (hf : haveConnective f.words = false)
    (hrest : rest.head? ≠ some (.text "is false")) :
    readOperand inner (f.words ++ rest) = (f, rest) := by
  obtain ⟨parts, suffix, hparts, hwords, hdeny⟩ := exists_comparison h hf
  have hread : deny (leaf parts) (suffix ++ rest) = (f, rest) := by
    rw [hdeny, deny_of_head? hrest]
  rw [hwords, List.append_assoc]
  cases hparts with
  | @intro left right verb hleft hright =>
    have hopen : left ≠ "(" := by
      rintro rfl
      exact hleft (by simp)
    simpa [readOperand, hopen] using hread

theorem readOperand_enclosed {inner : List Part → Formula × List Part} {f : Formula}
    (rest : List Part)
    (hinner : inner (f.words ++ .text ")" :: rest) = (f, .text ")" :: rest)) :
    readOperand inner (enclosed f.words ++ rest) = (f, rest) := by
  have henclosed : enclosed f.words ++ rest = .text "(" :: (f.words ++ .text ")" :: rest) := by
    simp [enclosed]
  simp [readOperand, henclosed, hinner]

theorem readOperand_grouped {inner : List Part → Formula × List Part} {f : Formula}
    {rest : List Part} (h : f.Readable)
    (hinner : inner (f.words ++ .text ")" :: rest) = (f, .text ")" :: rest))
    (hrest : rest.head? ≠ some (.text "is false")) :
    readOperand inner (grouped f.words ++ rest) = (f, rest) := by
  cases hf : haveConnective f.words with
  | true => rw [grouped_of_haveConnective hf, readOperand_enclosed rest hinner]
  | false => rw [grouped_of_not_haveConnective hf, readOperand_comparison inner h hf hrest]

theorem beginsWithRange_grouped {f : Formula} (h : f.Readable) (rest : List Part) :
    beginsWithRange (grouped f.words ++ rest) = false := by
  cases hf : haveConnective f.words with
  | true =>
    rw [grouped_of_haveConnective hf]
    simp [beginsWithRange, enclosed]
  | false =>
    obtain ⟨parts, suffix, hparts, hwords, -⟩ := exists_comparison h hf
    rw [grouped_of_not_haveConnective hf, hwords]
    cases hparts with
    | intro verb hleft hright => simp [beginsWithRange, words_ne_rangeVerb verb]

/-- What follows a whole formula. -/
def Ends (rest : List Part) : Prop :=
  ∀ p ∈ rest.head?, p = .text ")"

theorem Ends.head?_ne {rest : List Part} (h : Ends rest) {words : String} (hw : words ≠ ")") :
    rest.head? ≠ some (.text words) := by
  intro heq
  have := h _ heq
  simp only [Part.text.injEq] at this
  exact hw this

theorem ends_close (rest : List Part) : Ends (.text ")" :: rest) := by
  simp [Ends]

theorem read_comparison {f : Formula} (n : Nat) {rest : List Part} (h : f.Readable)
    (hf : haveConnective f.words = false) (hrest : Ends rest) :
    read (n + 1) (f.words ++ rest) = (f, rest) := by
  have hfalse := hrest.head?_ne (show "is false" ≠ ")" by decide)
  have hand := hrest.head?_ne (show "and" ≠ ")" by decide)
  have hor := hrest.head?_ne (show "or" ≠ ")" by decide)
  have hrange := beginsWithRange_grouped h rest
  rw [grouped_of_not_haveConnective hf] at hrange
  rw [read_of_operand hrange (readOperand_comparison _ h hf hfalse)]
  simp [readAfter, hfalse, hand, hor]

theorem read_range (n : Nat) {parts : List Part} (rest : List Part) (h : IsRange parts) :
    read (n + 1) (parts ++ rest) = (leaf parts, rest) := by
  obtain ⟨hoperand, hlow, hhigh⟩ := h
  rename_i operand low high negated
  have hopen : operand ≠ "(" := by
    rintro rfl
    exact hoperand (by simp)
  have hrange : beginsWithRange ([.text operand, .text (rangeVerb negated), .text low,
      .text "and", .text high] ++ rest) = true := by
    cases negated <;> simp [beginsWithRange, hopen]
  rw [read, if_pos hrange]
  rfl

theorem read_denial {n : Nat} {f : Formula} {rest : List Part} (h : f.Readable)
    (hf : haveConnective f.words = true)
    (ih : ∀ rest, Ends rest → read n (f.words ++ rest) = (f, rest)) :
    read (n + 1) (f.not.words ++ rest) = (f.not, rest) := by
  have hinner := ih (.text ")" :: .text "is false" :: rest) (ends_close _)
  have hrange : beginsWithRange (enclosed f.words ++ .text "is false" :: rest) = false := by
    rw [← grouped_of_haveConnective hf]
    exact beginsWithRange_grouped h _
  have hwords : f.not.words ++ rest = enclosed f.words ++ .text "is false" :: rest := by
    simp [words, grouped_of_haveConnective hf]
  rw [hwords, read_of_operand hrange (readOperand_enclosed _ hinner)]
  simp [readAfter]

theorem read_connected {n : Nat} {f : Formula} {rest : List Part} {connective : String}
    (hconnective : connective ≠ "is false") (h : f.Readable)
    (ih : ∀ rest, Ends rest → read n (f.words ++ rest) = (f, rest)) :
    read (n + 1) (grouped f.words ++ .text connective :: rest) =
      readAfter (readOperand (read n)) f (.text connective :: rest) := by
  refine read_of_operand (beginsWithRange_grouped h _) ?_
  exact readOperand_grouped h (ih _ (ends_close _)) (by simpa using hconnective)

/-- The reader takes exactly the words of a formula. -/
theorem read_words {f : Formula} {n : Nat} (h : f.Readable) (hn : f.depth ≤ n) :
    ∀ rest, Ends rest → read (n + 1) (f.words ++ rest) = (f, rest) := by
  induction f generalizing n with
  | leaf parts =>
    intro rest hrest
    rcases h with h | h
    · exact read_comparison n (.inl h) h.haveConnective hrest
    · exact read_range n rest h
  | not f ih =>
    intro rest hrest
    cases n with
    | zero => cases hn
    | succ n =>
      have hdepth : f.depth ≤ n := Nat.le_of_succ_le_succ hn
      cases hf : haveConnective f.words with
      | false => exact read_comparison _ h ((haveConnective_not f).trans hf) hrest
      | true => exact read_denial h hf (ih h hdepth)
  | and f g ihf ihg | or f g ihf ihg =>
    intro rest hrest
    cases n with
    | zero => cases hn
    | succ n =>
      have hdepth : f.depth ≤ n ∧ g.depth ≤ n := Nat.max_le.mp (Nat.le_of_succ_le_succ hn)
      have hsecond := readOperand_grouped h.2 (ihg h.2 hdepth.2 _ (ends_close rest))
        (hrest.head?_ne (show "is false" ≠ ")" by decide))
      rw [words, List.append_assoc, List.cons_append]
      refine (read_connected (by decide) h.1 (ihf h.1 hdepth.1)).trans ?_
      simp [readAfter, hsecond]

/-- Formulas that read the same are the same. -/
theorem words_injective {f g : Formula} (hf : f.Readable) (hg : g.Readable)
    (h : f.words = g.words) : f = g := by
  have hends : Ends [] := by simp [Ends]
  have hreadf := read_words hf (Nat.le_max_left f.depth g.depth) [] hends
  have hreadg := read_words hg (Nat.le_max_right f.depth g.depth) [] hends
  rw [h, hreadg] at hreadf
  exact (congrArg Prod.fst hreadf).symm

end Formula

namespace Sql.Expr

/-- The expression is a column or a constant with that text, maybe in parentheses. -/
inductive IsOperand (s : Settings) : Expr → String → Prop where
  | column (c : Column) : IsOperand s (.column c) (s.columnText c)
  | literal (v : Literal) : IsOperand s (.literal v) v.text
  | nested {e : Expr} {words : String} (h : IsOperand s e words) : IsOperand s (.nested e) words

/-- The expression is that formula, maybe with parentheses. -/
inductive IsFormula (s : Settings) : Expr → Formula → Prop where
  | comparison {l r : Expr} {left right : String} (verb : Comparison) (hl : l.IsOperand s left)
      (hr : r.IsOperand s right) (hleft : IsOrdinary left) (hright : IsOrdinary right) :
      IsFormula s (.binary l verb.op r) (.leaf [.text left, .text verb.op.words, .text right])
  | range {e l u : Expr} {operand low high : String} {negated : Bool} (he : e.IsOperand s operand)
      (hl : l.IsOperand s low) (hu : u.IsOperand s high) (hoperand : IsOrdinary operand)
      (hlow : IsOrdinary low) (hhigh : IsOrdinary high) :
      IsFormula s (.between e l u negated)
        (.leaf [.text operand, .text (rangeVerb negated), .text low, .text "and", .text high])
  | not {e : Expr} {f : Formula} (h : IsFormula s e f) : IsFormula s (.unary .not e) (.not f)
  | and {l r : Expr} {f g : Formula} (hl : IsFormula s l f) (hr : IsFormula s r g) :
      IsFormula s (.binary l .and r) (.and f g)
  | or {l r : Expr} {f g : Formula} (hl : IsFormula s l f) (hr : IsFormula s r g) :
      IsFormula s (.binary l .or r) (.or f g)
  | nested {e : Expr} {f : Formula} (h : IsFormula s e f) : IsFormula s (.nested e) f

variable {s : Settings} {e : Expr}

theorem IsOperand.isArithmetic {words : String} (h : e.IsOperand s words) :
    e.isArithmetic = false := by
  cases h <;> rfl

theorem IsOperand.draft_eq {words : String} (h : e.IsOperand s words) :
    e.draft s .kept = pure (.text words) := by
  induction h with
  | column c => rfl
  | literal v => rfl
  | nested h ih => rw [draft_nested h.isArithmetic, ih]

theorem IsFormula.isArithmetic {f : Formula} (h : e.IsFormula s f) : e.isArithmetic = false := by
  cases h with
  | comparison verb hl hr hleft hright => exact verb.isArithmetic_op
  | _ => rfl

/-- A formula is a condition that reads its words. -/
theorem IsFormula.reads {f : Formula} (h : e.IsFormula s f) : e.Reads s f.words := by
  intro c
  induction h with
  | @comparison l r left right verb hl hr hleft hright =>
    have hdraft : (Expr.binary l verb.op r).draft s .kept =
        Draft.check ((Label.text left).before verb.op.words ++ Label.text right) := by
      simp [Expr.draft, hl.draft_eq, hr.draft_eq, verb.isArithmetic_op]
    rw [hdraft]
    exact .check _
  | @range e l u operand low high negated he hl hu hoperand hlow hhigh =>
    have hdraft : (Expr.between e l u negated).draft s .kept =
        Draft.check (((Label.text operand).before (rangeVerb negated) ++ Label.text low).before
          "and" ++ Label.text high) := by
      simp [Expr.draft, he.draft_eq, hl.draft_eq, hu.draft_eq, rangeVerb]
    rw [hdraft]
    exact .check _
  | not h ih =>
    refine .bind ih ?_
    rintro a ⟨id, ha, hid⟩
    refine .imp (.check _) ?_
    rintro b ⟨own, hown, hbody⟩
    refine ⟨own, hown, hbody.trans ?_⟩
    simp [ha, Label.step, Label.before, Label.text, Part.write, hid, Formula.words]
  | and hl hr ihl ihr =>
    refine .bind ihl ?_
    rintro a ⟨id, ha, hid⟩
    refine .bind ihr ?_
    rintro b ⟨id', hb, hid'⟩
    refine .imp (.check _) ?_
    rintro label ⟨own, hown, hbody⟩
    refine ⟨own, hown, hbody.trans ?_⟩
    simp [ha, hb, Label.step, Label.before, Label.text, Part.write, hid, hid', Formula.words,
      BinaryOp.words]
  | or hl hr ihl ihr =>
    refine .bind ihl ?_
    rintro a ⟨id, ha, hid⟩
    refine .bind ihr ?_
    rintro b ⟨id', hb, hid'⟩
    refine .imp (.check _) ?_
    rintro label ⟨own, hown, hbody⟩
    refine ⟨own, hown, hbody.trans ?_⟩
    simp [ha, hb, Label.step, Label.before, Label.text, Part.write, hid, hid', Formula.words,
      BinaryOp.words]
  | nested h ih =>
    rw [draft_nested h.isArithmetic]
    exact ih

theorem IsFormula.readable {f : Formula} (h : e.IsFormula s f) : f.Readable := by
  induction h with
  | comparison verb hl hr hleft hright => exact .inl (.intro verb hleft hright)
  | range he hl hu hoperand hlow hhigh => exact .inr (.intro hoperand hlow hhigh)
  | not h ih => exact ih
  | and hl hr ihl ihr => exact ⟨ihl, ihr⟩
  | or hl hr ihl ihr => exact ⟨ihl, ihr⟩
  | nested h ih => exact ih

theorem IsOperand.supported {words : String} (h : e.IsOperand s words) : e.supported = true := by
  induction h with
  | column c => rfl
  | literal v => rfl
  | nested h ih => exact ih

theorem IsFormula.supported {f : Formula} (h : e.IsFormula s f) : e.supported = true := by
  induction h with
  | comparison verb hl hr hleft hright => simp [Expr.supported, hl.supported, hr.supported]
  | range he hl hu hoperand hlow hhigh =>
    simp [Expr.supported, he.supported, hl.supported, hu.supported]
  | not h ih => exact ih
  | and hl hr ihl ihr => simp [Expr.supported, ihl, ihr]
  | or hl hr ihl ihr => simp [Expr.supported, ihl, ihr]
  | nested h ih => exact ih

end Sql.Expr

/-- Different formulas as WHERE of the same SELECT over at most one relation make different steps of
WHERE in the simplified plans. If one of the queries has a plan, so has the other. -/
theorem filterSteps_ne_of_formula_ne {s : Settings} (hs : s.simplify = true) {q : Query}
    (hq : q.IsSingle) {e e' : Expr} {f f' : Formula} (he : e.IsFormula s f)
    (he' : e'.IsFormula s f') (hne : f ≠ f')
    (hok : ∃ sheet, Planner.planQuery { settings := s } (q.filteredBy e) = .ok sheet) :
    ∃ t t', Planner.filterStep? { settings := s } q e = some t ∧
      Planner.filterStep? { settings := s } q e' = some t' ∧ t.opensWith "Filter" = true ∧
      t'.opensWith "Filter" = true ∧ t.parts ≠ t'.parts := by
  have hok' := Planner.exists_plan_filteredBy hq he.supported he'.supported hok
  obtain ⟨lead, t, t', ht, ht', hopens, hopens', hparts, hparts'⟩ :=
    Planner.exists_filterSteps hs hq he.reads he'.reads hok hok'
  refine ⟨t, t', ht, ht', hopens, hopens', fun heq => hne ?_⟩
  rw [hparts, hparts'] at heq
  exact Formula.words_injective he.readable he'.readable (List.append_cancel_left heq)

/-- `column < bound`. -/
def below (column bound : String) : Expr :=
  .binary (bareColumn column) .lt (.literal (.number bound))

def belowWords (column bound : String) : Formula :=
  .leaf [.text (({} : Settings).columnText { name := ⟨column, false⟩ }), .text BinaryOp.lt.words,
    .text (Literal.number bound).text]

/-- `(a < 1 AND b < 2) OR c < 3` and `a < 1 AND (b < 2 OR c < 3)`. -/
theorem filterSteps_ne_of_formula_ne_regrouped :
    ∃ t t',
      Planner.filterStep? {} wholeTable
        (.binary (.nested (.binary (below "a" "1") .and (below "b" "2"))) .or (below "c" "3")) =
          some t ∧
      Planner.filterStep? {} wholeTable
        (.binary (below "a" "1") .and (.nested (.binary (below "b" "2") .or (below "c" "3")))) =
          some t' ∧
      t.opensWith "Filter" = true ∧ t'.opensWith "Filter" = true ∧ t.parts ≠ t'.parts := by
  have hleaf (column bound : String)
      (hc : IsOrdinary (({} : Settings).columnText { name := ⟨column, false⟩ }))
      (hb : IsOrdinary (Literal.number bound).text) :
      (below column bound).IsFormula {} (belowWords column bound) :=
    .comparison .lt (.column _) (.literal _) hc hb
  have ha := hleaf "a" "1" (by decide) (by decide)
  have hb := hleaf "b" "2" (by decide) (by decide)
  have hc := hleaf "c" "3" (by decide) (by decide)
  refine filterSteps_ne_of_formula_ne rfl ⟨_, rfl, by decide⟩ (.or (.nested (.and ha hb)) hc)
    (.and ha (.nested (.or hb hc))) (by decide) (Planner.exists_plan_iff.mpr (by decide))

end QuerySteps
