import Mathlib.Data.List.TakeWhile
import QuerySteps.Proofs.Plan.Lines

/-!
# The text of a plan and its lines

A plan is shown as one text. The text has a numbered line for each step as long as no step breaks
its own line, by a line break that is not just trimmed off the end of its sentence (`Step.Breaks`).
Texts are not escaped, so this is also necessary (`Plan.numberedLines_iff`).
-/

namespace QuerySteps

/-! ## Lines of a text -/

section

variable {a : Char} {text : List Char} {pieces : List (List Char)}

theorem splitOn_intercalate_eq (h : pieces ≠ []) :
    List.splitOn a ([a].intercalate pieces) = pieces.flatMap (List.splitOn a) := by
  induction pieces with
  | nil => exact absurd rfl h
  | cons piece rest ih =>
    cases rest with
    | nil => simp [List.intercalate_singleton]
    | cons next rest =>
      have hrest := ih (List.cons_ne_nil _ _)
      rw [List.intercalate_cons_cons, List.flatMap_cons, ← hrest, List.append_assoc,
        List.singleton_append]
      simp only [List.splitOn_eq_splitOnP]
      exact List.splitOnP_append_cons _ _ (beq_self_eq_true a)

theorem length_splitOn_pos (a : Char) (text : List Char) : 0 < (text.splitOn a).length :=
  List.length_pos_iff.mpr (List.splitOn_ne_nil a text)

theorem one_lt_length_splitOn (h : a ∈ text) : 1 < (text.splitOn a).length := by
  obtain ⟨before, after, rfl⟩ := List.append_of_mem h
  have hsplit : List.splitOn a (before ++ a :: after) = before.splitOn a ++ after.splitOn a := by
    simp only [List.splitOn_eq_splitOnP]
    exact List.splitOnP_append_cons _ _ (beq_self_eq_true a)
  have hbefore := length_splitOn_pos a before
  have hafter := length_splitOn_pos a after
  rw [hsplit, List.length_append]
  omega

/-- Joined pieces are as many lines as there are pieces exactly if none has a separator. -/
theorem length_splitOn_intercalate_iff (h : pieces ≠ []) :
    (List.splitOn a ([a].intercalate pieces)).length = pieces.length ↔
      ∀ piece ∈ pieces, a ∉ piece := by
  constructor
  · rw [splitOn_intercalate_eq h]
    clear h
    have hle (pieces : List (List Char)) :
        pieces.length ≤ (pieces.flatMap (List.splitOn a)).length := by
      induction pieces with
      | nil => exact Nat.le_refl _
      | cons piece rest ih =>
        have := length_splitOn_pos a piece
        simp only [List.flatMap_cons, List.length_cons, List.length_append]
        omega
    induction pieces with
    | nil => simp
    | cons piece rest ih =>
      intro hlength
      have hrest := hle rest
      have hpiece := length_splitOn_pos a piece
      simp only [List.flatMap_cons, List.length_cons, List.length_append] at hlength
      refine List.forall_mem_cons.mpr ⟨fun hmem => ?_, ih (by omega)⟩
      have := one_lt_length_splitOn hmem
      omega
  · intro hfree
    rw [List.splitOn_intercalate a hfree h]

end

/-- How lines begin, in front of their numbers. -/
def leader (marker : String) : String :=
  if marker.isEmpty then "" else marker ++ " "

/-- The text has `count` lines, and each of them begins with the marker, if there is one, and its
number. -/
def NumberedLines (text marker : String) (offset count : Nat) : Prop :=
  (text.toList.splitOn '\n').length = count ∧
    ∀ (i : Nat) line, (text.toList.splitOn '\n')[i]? = some line →
      (leader marker ++ (offset + i + 1).repr ++ ". ").toList <+: line

/-! ## Line breaks in a step -/

namespace Text

theorem trimEnd_append_of_blank {s t : List Char} (h : ∀ c ∈ t, isBlank c = true) :
    trimEnd (s ++ t) = trimEnd s := by
  rw [trimEnd, List.reverse_append, List.dropWhile_append_of_pos (by simpa using h), trimEnd]

theorem trimEnd_append_of_solid {s t : List Char} (h : ∃ c ∈ t, isBlank c = false) :
    trimEnd (s ++ t) = s ++ trimEnd t := by
  have hne : (t.reverse.dropWhile isBlank).isEmpty = false := by
    obtain ⟨c, hc, hsolid⟩ := h
    rw [List.isEmpty_eq_false_iff, ne_eq, List.dropWhile_eq_nil_iff]
    exact fun hall => Bool.false_ne_true (hsolid.symm.trans (hall c (List.mem_reverse.mpr hc)))
  rw [trimEnd, List.reverse_append, List.dropWhile_append, hne, trimEnd]
  simp

end Text

/-- What is written for a fragment, where any reference counts as the same word. -/
def Part.wording : Part → List Char
  | .text words => words.toList
  | .ref _ => "results".toList

@[simp] theorem Part.wording_text (words : String) : (Part.text words).wording = words.toList := rfl

@[simp] theorem Part.wording_ref (id : StepId) : (Part.ref id).wording = "results".toList := rfl

/-- The step has a line break, and not only among the blanks at its end. -/
def Step.Breaks (t : Step) : Prop :=
  '\n' ∈ Text.trimEnd (t.parts.flatMap Part.wording)

instance : DecidablePred Step.Breaks :=
  fun t => inferInstanceAs (Decidable ('\n' ∈ Text.trimEnd (t.parts.flatMap Part.wording)))

/-- Both texts have line breaks or none, all in all and before the blanks at their ends. -/
structure SameBreaks (s t : List Char) : Prop where
  whole : '\n' ∈ s ↔ '\n' ∈ t
  trimmed : '\n' ∈ Text.trimEnd s ↔ '\n' ∈ Text.trimEnd t

/-- A fragment that breaks lines as `u` does is added to a sentence as `u` is to a text. -/
theorem SameBreaks.push {sentence text fragment u : List Char} (h : SameBreaks sentence text)
    (hf : SameBreaks fragment u)
    (hblank : (∀ c ∈ fragment, Text.isBlank c = true) ↔ ∀ c ∈ u, Text.isBlank c = true) :
    SameBreaks (Sentence.push sentence fragment) (text ++ u) := by
  -- At most one space is put between the sentence and the fragment.
  obtain ⟨gap, hgap, hpush⟩ : ∃ gap, (gap = [] ∨ gap = [' ']) ∧
      Sentence.push sentence fragment = sentence ++ gap ++ fragment := by
    unfold Sentence.push
    split
    · rename_i hempty
      exact ⟨[], .inl rfl, by simp [List.isEmpty_iff.mp hempty]⟩
    · split
      · exact ⟨[], .inl rfl, by simp⟩
      · exact ⟨[' '], .inr rfl, by simp⟩
  have hgapBreaks : '\n' ∉ gap := by rcases hgap with rfl | rfl <;> decide
  have hgapBlank : ∀ c ∈ gap, Text.isBlank c = true := by
    rcases hgap with rfl | rfl
    · exact List.forall_mem_nil _
    · exact List.forall_mem_singleton.mpr (by decide)
  rw [hpush]
  refine ⟨by simp [h.whole, hf.whole, hgapBreaks], ?_⟩
  by_cases hall : ∀ c ∈ fragment, Text.isBlank c = true
  · rw [Text.trimEnd_append_of_blank hall, Text.trimEnd_append_of_blank hgapBlank,
      Text.trimEnd_append_of_blank (hblank.mp hall)]
    exact h.trimmed
  · have hsolid {t : List Char} (ht : ¬ ∀ c ∈ t, Text.isBlank c = true) :
        ∃ c ∈ t, Text.isBlank c = false := by
      simpa using ht
    rw [Text.trimEnd_append_of_solid (hsolid hall),
      Text.trimEnd_append_of_solid (hsolid (mt hblank.mpr hall))]
    simp [h.whole, hf.trimmed, hgapBreaks]

theorem newline_notMem_repr (n : Nat) : '\n' ∉ n.repr.toList := by
  intro h
  rw [Nat.repr_eq_ofList_toDigits, String.toList_ofList] at h
  exact absurd (Nat.isDigit_of_mem_toDigits (by decide) (by decide) h) (by decide)

theorem sameBreaks_results (n : Nat) : SameBreaks ("results of Step " ++ n.repr).toList
    (Part.ref n).wording := by
  have hfree : '\n' ∉ ("results of Step " ++ n.repr).toList := by
    rw [String.toList_append, List.mem_append]
    exact not_or.mpr ⟨by decide, newline_notMem_repr n⟩
  have htrim {s : List Char} (hs : '\n' ∉ s) : '\n' ∉ Text.trimEnd s := by
    refine fun h => hs ?_
    rw [Text.trimEnd, List.mem_reverse] at h
    exact List.mem_reverse.mp ((List.dropWhile_suffix _).mem h)
  have hword : '\n' ∉ "results".toList := by decide
  exact ⟨iff_of_false hfree hword, iff_of_false (htrim hfree) (htrim hword)⟩

theorem Step.sameBreaks_renderParts {number : Nat} {numberOf : StepId → Option Nat}
    {parts : List Part} {sentence text written : List Char} (h : SameBreaks sentence text)
    (hwritten : Step.renderParts number numberOf sentence parts = .ok written) :
    SameBreaks written (text ++ parts.flatMap Part.wording) := by
  induction parts generalizing sentence text with
  | nil =>
    cases hwritten
    simpa using h
  | cons p parts ih =>
    rw [List.flatMap_cons, ← List.append_assoc]
    cases p with
    | text words => exact ih (h.push ⟨Iff.rfl, Iff.rfl⟩ Iff.rfl) hwritten
    | ref id =>
      cases hfragment : (Part.ref id).render number numberOf with
      | error e => simp [renderParts, hfragment, bind, Except.bind] at hwritten
      | ok fragment =>
        rw [renderParts_cons hfragment] at hwritten
        obtain ⟨n, rfl⟩ := Part.exists_of_render_ref hfragment
        refine ih (h.push (sameBreaks_results n) ?_) hwritten
        -- Neither the shown reference nor the word in its place is blank.
        have hletter {word : List Char} (h : 'r' ∈ word) : ¬ ∀ c ∈ word, Text.isBlank c = true :=
          fun hall => absurd (hall 'r' h) (by decide)
        have hword : 'r' ∈ "results".toList := by decide
        refine iff_of_false (hletter ?_) (hletter hword)
        rw [String.toList_append]
        exact List.mem_append_left _ (by decide)

theorem Step.newline_mem_line_iff {number : Nat} {numberOf : StepId → Option Nat} {t : Step}
    {sentence : List Char} (h : Step.renderParts number numberOf [] t.parts = .ok sentence) :
    '\n' ∈ (Step.line number sentence).toList ↔ t.Breaks := by
  have hsame := (Step.sameBreaks_renderParts ⟨Iff.rfl, Iff.rfl⟩ h).trimmed
  have hclose : '\n' ∈ Sentence.close sentence ↔ '\n' ∈ Text.trimEnd sentence := by
    simp only [Sentence.close]
    split <;> simp
  have hdot : '\n' ∉ ". ".toList := by decide
  simp only [Step.line, String.toList_append, String.toList_ofList, List.mem_append,
    newline_notMem_repr, hdot, false_or, hclose, hsame, List.nil_append]
  rfl

namespace Plan

variable {plan : Plan} {lines : List String}

theorem format_eq {offset : Nat} (h : plan.lines offset = .ok lines) (marker : String) :
    plan.format marker offset = .ok ("\n".intercalate (lines.map (leader marker ++ ·))) := by
  simp only [format, h, bind, Except.bind, pure, Except.pure, leader]
  split
  · simp
  · rfl

/-- The text of a plan has one numbered line for each step exactly if no step breaks its line. -/
theorem numberedLines_iff {marker : String} {offset : Nat} (hmarker : '\n' ∉ marker.toList)
    (hne : plan ≠ []) (h : plan.lines offset = .ok lines) :
    ∃ text, plan.format marker offset = .ok text ∧
      (NumberedLines text marker offset plan.length ↔ ∀ t ∈ plan, ¬ t.Breaks) := by
  obtain ⟨hlength, hall⟩ := line_of_lines h
  have hleader : '\n' ∉ (leader marker).toList := by
    unfold leader
    split
    · simp
    · simp [hmarker]
  have hpieces : lines.map (fun line => (leader marker ++ line).toList) ≠ [] := by
    simpa [← List.length_pos_iff, hlength] using List.length_pos_iff.mpr hne
  -- A piece has a line break exactly if its step breaks the line.
  have hfree : (∀ piece ∈ lines.map (fun line => (leader marker ++ line).toList), '\n' ∉ piece) ↔
      ∀ t ∈ plan, ¬ t.Breaks := by
    simp only [List.forall_mem_map, String.toList_append, List.mem_append, hleader, false_or]
    constructor
    · intro hlines t ht
      obtain ⟨i, hi⟩ := List.mem_iff_getElem?.mp ht
      obtain ⟨sentence, hsentence, hat⟩ := hall i t hi
      rw [← Step.newline_mem_line_iff hsentence]
      exact hlines _ (List.mem_of_getElem? hat)
    · intro hsteps line hline
      obtain ⟨i, hi⟩ := List.mem_iff_getElem?.mp hline
      obtain ⟨hlt, -⟩ := List.getElem?_eq_some_iff.mp hi
      have ht := List.getElem?_eq_getElem (hlength ▸ hlt : i < plan.length)
      obtain ⟨sentence, hsentence, hat⟩ := hall i _ ht
      obtain rfl : line = _ := Option.some.inj (hi.symm.trans hat)
      rw [Step.newline_mem_line_iff hsentence]
      exact hsteps _ (List.mem_of_getElem? ht)
  have htext : ("\n".intercalate (lines.map (leader marker ++ ·))).toList =
      ['\n'].intercalate (lines.map (fun line => (leader marker ++ line).toList)) := by
    rw [String.toList_intercalate, List.map_map]
    rfl
  refine ⟨_, format_eq h marker, ?_⟩
  rw [← hfree, ← length_splitOn_intercalate_iff hpieces, NumberedLines, htext, List.length_map,
    hlength]
  refine ⟨fun hnumbered => hnumbered.1, fun hcount => ⟨hcount, fun i line hline => ?_⟩⟩
  have hmap : (lines.map fun line => (leader marker ++ line).toList).length = lines.length :=
    List.length_map _
  rw [← hlength, ← hmap, length_splitOn_intercalate_iff hpieces] at hcount
  rw [List.splitOn_intercalate _ hcount hpieces, List.getElem?_map, Option.map_eq_some_iff] at hline
  obtain ⟨line, hi, rfl⟩ := hline
  obtain ⟨hlt, -⟩ := List.getElem?_eq_some_iff.mp hi
  obtain ⟨sentence, -, hat⟩ := hall i _ (List.getElem?_eq_getElem (hlength ▸ hlt))
  obtain rfl : line = _ := Option.some.inj (hi.symm.trans hat)
  simp only [Step.line, String.toList_append, ← List.append_assoc]
  exact List.prefix_append _ _

end Plan

end QuerySteps
