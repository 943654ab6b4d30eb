import Mathlib.Data.List.DropRight
import QuerySteps.Proofs.Plan.TextLines

/-!
# Line templates

The sentence of a step is written in two stages. The template of the step (`Plan.template`) holds
the characters of its texts, with spaces and final period, and for each reference the place of the
step referred to; it is made before the offset of the numbers is known. Then the places are shown
as numbers (`Template.written`).

The lines of a valid plan are its templates written out (`lines_eq`). Another offset therefore
changes the number in front of each line and the numbers of the references, and nothing else
(`lines_shift`).
-/

namespace QuerySteps

/-- What templates are made of: characters, and the results of the steps at given places. -/
inductive Glyph where
  | char (c : Char)
  | results (place : Nat)
  deriving Repr, DecidableEq

namespace Glyph

/-- The glyph in a plan whose first step is shown as `offset + 1`. -/
def written (offset : Nat) : Glyph → List Char
  | char c => [c]
  | results place => ("results of Step " ++ (offset + place).repr).toList

/-- The place that is shown as a number. -/
def place? : Glyph → Option Nat
  | char _ => none
  | results place => some place

def isBlank : Glyph → Bool
  | char c => Text.isBlank c
  | results _ => false

end Glyph

/-- A sentence before its references are numbered. -/
abbrev Template := List Glyph

namespace Template

def written (offset : Nat) (t : Template) : List Char :=
  t.flatMap (Glyph.written offset)

/-- The places that are shown as numbers, in reading order. -/
def places (t : Template) : List Nat :=
  t.filterMap Glyph.place?

/-- The template with another fragment. A space comes before it, unless it is the first, it
`attaches` or there is an opening parenthesis before it. -/
def push (t : Template) (attaches : Bool) (fragment : Template) : Template :=
  if fragment = [] then t
  else if t = [] ∨ attaches = true ∨ t.getLast? = some (.char '(') then t ++ fragment
  else t ++ .char ' ' :: fragment

/-- The template with further fragments of a step, where `placeOf` tells the places of steps. -/
def pushParts (placeOf : StepId → Nat) (t : Template) : List Part → Template
  | [] => t
  | .text words :: parts =>
    pushParts placeOf (t.push (Sentence.attaches words.toList) (words.toList.map .char)) parts
  | .ref id :: parts => pushParts placeOf (t.push false [.results (placeOf id)]) parts

def close (t : Template) : Template :=
  let words := t.rdropWhile Glyph.isBlank
  if words.getLast? = some (.char '.') then words else words ++ [.char '.']

def line (offset number : Nat) (t : Template) : String :=
  number.repr ++ ". " ++ String.ofList (t.written offset)

end Template

namespace Plan

/-- The place of the step referred to; references of valid plans have one. -/
def place (plan : Plan) (id : StepId) : Nat :=
  (plan.position? id).getD 0

def template (plan : Plan) (s : Step) : Template :=
  (Template.pushParts plan.place [] s.parts).close

end Plan

/-! ## Writing templates out -/

namespace Text

theorem isBlank_eq_false_of_isDigit {c : Char} (h : c.isDigit = true) : isBlank c = false := by
  obtain ⟨hlow, hhigh⟩ : 48 ≤ c.toNat ∧ c.toNat ≤ 57 := by
    simpa [Char.isDigit, UInt32.le_iff_toNat_le] using h
  have hne : c.toNat ∉ [0x20, 0x85, 0xA0, 0x1680, 0x2028, 0x2029, 0x202F, 0x205F, 0x3000] := by
    simp only [List.mem_cons, List.not_mem_nil, or_false, not_or]
    omega
  simp only [isBlank, hne, Bool.or_eq_false_iff, Bool.and_eq_false_iff, decide_eq_false_iff_not,
    not_false_iff, and_true]
  omega

theorem trimEnd_eq_self {s : List Char} {c : Char} (h : s.getLast? = some c)
    (hsolid : isBlank c = false) : trimEnd s = s := by
  obtain ⟨init, rfl⟩ := List.getLast?_eq_some_iff.mp h
  rw [trimEnd, List.reverse_append, List.reverse_singleton, List.singleton_append,
    List.dropWhile_cons_of_neg (Bool.eq_false_iff.mp hsolid), List.reverse_cons,
    List.reverse_reverse]

end Text

namespace Template

variable {t u : Template} {offset : Nat}

@[simp] theorem written_nil : written offset [] = [] := rfl

@[simp] theorem written_append : written offset (t ++ u) = t.written offset ++ u.written offset :=
  List.flatMap_append

@[simp] theorem written_cons (g : Glyph) :
    written offset (g :: t) = g.written offset ++ t.written offset := rfl

@[simp] theorem written_chars (s : List Char) : written offset (s.map .char) = s := by
  induction s with
  | nil => rfl
  | cons c rest ih => rw [List.map_cons, written_cons, ih]; rfl

theorem getLast?_written_results (offset place : Nat) :
    ∃ d, ((Glyph.results place).written offset).getLast? = some d ∧ d.isDigit = true := by
  have hne : (offset + place).repr.toList ≠ [] := by
    rw [Nat.repr_eq_ofList_toDigits, String.toList_ofList]
    exact Nat.toDigits_ne_nil
  obtain ⟨d, hd⟩ := Option.ne_none_iff_exists'.mp (mt List.getLast?_eq_none_iff.mp hne)
  refine ⟨d, ?_, ?_⟩
  · rw [Glyph.written, String.toList_append, List.getLast?_append, hd]
    rfl
  · have hmem := List.mem_of_getLast? hd
    rw [Nat.repr_eq_ofList_toDigits, String.toList_ofList] at hmem
    exact Nat.isDigit_of_mem_toDigits (by decide) (by decide) hmem

theorem attaches_written_results (place : Nat) :
    Sentence.attaches (written offset [.results place]) = false := by
  rw [written_cons, Glyph.written, String.toList_append]
  rfl

theorem written_ne_nil (g : Glyph) : g.written offset ≠ [] := by
  cases g with
  | char c => exact List.cons_ne_nil _ _
  | results place =>
    obtain ⟨d, hd, -⟩ := getLast?_written_results offset place
    intro h
    rw [h] at hd
    cases hd

theorem written_eq_nil_iff : t.written offset = [] ↔ t = [] := by
  cases t with
  | nil => simp
  | cons g rest => simp [written_ne_nil]

/-- Whether a sentence ends with some mark does not depend on its numbers. -/
theorem getLast?_written_iff (t : Template) (offset : Nat) {c : Char} (hc : c.isDigit = false) :
    (t.written offset).getLast? = some c ↔ t.getLast? = some (.char c) := by
  rcases List.eq_nil_or_concat t with rfl | ⟨init, g, rfl⟩
  · simp
  · have hlast : (written offset (init ++ [g])).getLast? = (g.written offset).getLast? := by
      rw [written_append, written_cons, written_nil, List.append_nil,
        List.getLast?_append_of_ne_nil _ (written_ne_nil g)]
    rw [List.concat_eq_append, hlast, List.getLast?_concat]
    cases g with
    | char d => simp [Glyph.written]
    | results place =>
      obtain ⟨d, hd, hdigit⟩ := getLast?_written_results offset place
      rw [hd]
      refine iff_of_false ?_ (by simp)
      rintro ⟨⟩
      rw [hc] at hdigit
      cases hdigit

theorem written_push {attaches : Bool}
    (h : u ≠ [] → Sentence.attaches (u.written offset) = attaches) :
    (t.push attaches u).written offset =
      Sentence.push (t.written offset) (u.written offset) := by
  by_cases hu : u = []
  · rw [push, if_pos hu, hu]
    rfl
  · have hne : u.written offset ≠ [] := mt written_eq_nil_iff.mp hu
    have hstart : (t.written offset).isEmpty = decide (t = []) := by
      rw [Bool.eq_iff_iff]
      simp [written_eq_nil_iff]
    have hopen : ((t.written offset).getLast? == some '(') =
        decide (t.getLast? = some (.char '(')) := by
      rw [Bool.eq_iff_iff, beq_iff_eq, decide_eq_true_iff]
      exact getLast?_written_iff t offset (by decide)
    rw [Sentence.push, hstart, hopen, h hu, if_neg (mt List.isEmpty_iff.mp hne), push, if_neg hu]
    by_cases hjoin : t = [] ∨ attaches = true ∨ t.getLast? = some (.char '(')
    · rw [if_pos hjoin, if_pos (by simpa [or_assoc] using hjoin), written_append]
    · rw [if_neg hjoin, if_neg (by simpa [or_assoc] using hjoin), written_append]
      rfl

/-- The blanks at the end of a sentence are those of its template, as numbers are not blank. -/
theorem written_trimmed :
    written offset (t.rdropWhile Glyph.isBlank) = Text.trimEnd (t.written offset) := by
  induction t using List.reverseRecOn with
  | nil => rfl
  | append_singleton init g ih =>
    rw [written_append, written_cons, written_nil, List.append_nil]
    by_cases hg : g.isBlank = true
    · rw [List.rdropWhile_concat_pos _ _ _ hg, ih, Text.trimEnd_append_of_blank]
      cases g with
      | char c => exact List.forall_mem_singleton.mpr hg
      | results place => cases hg
    · obtain ⟨d, hd, hsolid⟩ :
          ∃ d, (g.written offset).getLast? = some d ∧ Text.isBlank d = false := by
        cases g with
        | char c => exact ⟨c, rfl, Bool.eq_false_iff.mpr hg⟩
        | results place =>
          obtain ⟨d, hd, hdigit⟩ := getLast?_written_results offset place
          exact ⟨d, hd, Text.isBlank_eq_false_of_isDigit hdigit⟩
      rw [List.rdropWhile_concat_neg _ _ _ hg, written_append, written_cons, written_nil,
        List.append_nil, Text.trimEnd_append_of_solid ⟨d, List.mem_of_getLast? hd, hsolid⟩,
        Text.trimEnd_eq_self hd hsolid]

theorem written_close : t.close.written offset = Sentence.close (t.written offset) := by
  have hdot := getLast?_written_iff (t.rdropWhile Glyph.isBlank) offset (c := '.') (by decide)
  rw [written_trimmed] at hdot
  simp only [close, Sentence.close, beq_iff_eq, hdot]
  split
  · exact written_trimmed
  · rw [written_append, written_trimmed]
    rfl

/-! ## Places -/

@[simp] theorem places_append : places (t ++ u) = t.places ++ u.places :=
  List.filterMap_append

@[simp] theorem places_chars (s : List Char) : places (s.map .char) = [] := by
  induction s with
  | nil => rfl
  | cons c rest ih => exact ih

theorem places_push (attaches : Bool) : (t.push attaches u).places = t.places ++ u.places := by
  unfold push
  split
  · rename_i hu
    simp [hu, places]
  · split
    · exact places_append
    · rw [places_append]
      rfl

theorem places_pushParts (placeOf : StepId → Nat) (t : Template) (parts : List Part) :
    (pushParts placeOf t parts).places =
      t.places ++ (parts.filterMap Part.ref?).map placeOf := by
  induction parts generalizing t with
  | nil => simp [pushParts]
  | cons p parts ih =>
    cases p with
    | text words => rw [pushParts, ih, places_push, places_chars, List.append_nil]; rfl
    | ref id =>
      rw [pushParts, ih, places_push, List.append_assoc]
      rfl

theorem places_close : t.close.places = t.places := by
  have htrim : places (t.rdropWhile Glyph.isBlank) = t.places := by
    induction t using List.reverseRecOn with
    | nil => rfl
    | append_singleton init g ih =>
      by_cases hg : g.isBlank = true
      · rw [List.rdropWhile_concat_pos _ _ _ hg, ih, places_append]
        cases g with
        | char c => exact (List.append_nil _).symm
        | results place => cases hg
      · rw [List.rdropWhile_concat_neg _ _ _ hg]
  simp only [close]
  split
  · exact htrim
  · rw [places_append, htrim]
    exact List.append_nil _

end Template

/-! ## Lines -/

namespace Plan

variable {plan : Plan} {offset : Nat}

theorem render_ref_eq_ok {number : Nat} {id : StepId} {fragment : String}
    (h : (Part.ref id).render number (plan.numberOf offset) = .ok fragment) :
    fragment.toList = (Glyph.results (plan.place id)).written offset := by
  unfold Part.render numberOf at h
  unfold place Glyph.written
  cases hp : plan.position? id with
  | none => simp [hp, throw, throwThe, MonadExceptOf.throw] at h
  | some p =>
    simp only [hp, Option.map_some] at h
    split at h
    · cases h
      rfl
    · cases h

theorem written_pushParts {number : Nat} {parts : List Part} {t : Template} {sentence : List Char}
    (h : Step.renderParts number (plan.numberOf offset) (t.written offset) parts = .ok sentence) :
    (t.pushParts plan.place parts).written offset = sentence := by
  induction parts generalizing t with
  | nil =>
    cases h
    rfl
  | cons p parts ih =>
    cases p with
    | text words =>
      refine ih ?_
      rw [Template.written_push fun _ => by rw [Template.written_chars], Template.written_chars]
      exact h
    | ref id =>
      cases hfragment : (Part.ref id).render number (plan.numberOf offset) with
      | error e => simp [Step.renderParts, hfragment, bind, Except.bind] at h
      | ok fragment =>
        rw [Step.renderParts_cons hfragment, render_ref_eq_ok hfragment] at h
        refine ih ?_
        rw [Template.written_push fun _ => Template.attaches_written_results _,
          Template.written_cons, Template.written_nil, List.append_nil]
        exact h

/-- The lines of a valid plan are its templates, numbered and written out. -/
theorem lines_eq (h : plan.validate = .ok ()) (offset : Nat) : plan.lines offset =
    .ok (plan.mapIdx fun i s => (plan.template s).line offset (offset + i + 1)) := by
  obtain ⟨-, -, lines, hlines⟩ | ⟨id, -, herror, -⟩ := validate_lines_agree plan offset
  · obtain ⟨hlength, hall⟩ := line_of_lines hlines
    rw [hlines, Except.ok.injEq]
    refine List.ext_getElem? fun i => ?_
    rw [List.getElem?_mapIdx]
    cases hi : plan[i]? with
    | none =>
      rw [List.getElem?_eq_none_iff] at hi
      exact List.getElem?_eq_none (by omega)
    | some s =>
      obtain ⟨sentence, hsentence, hat⟩ := hall i s hi
      have hwritten := written_pushParts (t := []) hsentence
      rw [hat, Option.map_some, Template.line, template, Template.written_close, hwritten]
      rfl
  · rw [h] at herror
    cases herror

/-- The template of a step of a valid plan shows the places of the steps referred to, in order. -/
theorem places_template (h : plan.validate = .ok ()) {s : Step} (hs : s ∈ plan) :
    (plan.template s).places.map some = s.refs.map (position? · plan) := by
  obtain ⟨-, hresolved⟩ | ⟨id, herror, -⟩ := validate_cases plan
  · rw [template, Template.places_close, Template.places_pushParts, Template.places,
      List.filterMap_nil, List.nil_append, List.map_map]
    refine List.map_congr_left fun id hid => ?_
    obtain ⟨before, after, heq⟩ := List.append_of_mem hs
    obtain ⟨p, hp, -⟩ :=
      (position?_lt_iff before (s :: after) id).mpr (hresolved before s after heq id hid)
    rw [← heq] at hp
    rw [Function.comp_apply, place, hp]
    rfl
  · rw [h] at herror
    cases herror

/-- The offset only shifts numbers. With and without it there is one line for each step, written
from one template: its characters are the same, the number in front and the places of the steps
referred to grow by the offset. -/
theorem lines_shift (h : plan.validate = .ok ()) (offset : Nat) : ∃ lines shifted,
    plan.lines 0 = .ok lines ∧ plan.lines offset = .ok shifted ∧
    lines.length = plan.length ∧ shifted.length = lines.length ∧
    ∀ (i : Nat) s, plan[i]? = some s →
      (plan.template s).places.map some = s.refs.map (position? · plan) ∧
      lines[i]? = some ((plan.template s).line 0 (i + 1)) ∧
      shifted[i]? = some ((plan.template s).line offset (offset + i + 1)) := by
  refine ⟨_, _, lines_eq h 0, lines_eq h offset, ?_, ?_, fun i s hi => ⟨?_, ?_, ?_⟩⟩
  · exact List.length_mapIdx
  · rw [List.length_mapIdx, List.length_mapIdx]
  · exact places_template h (List.mem_of_getElem? hi)
  · rw [List.getElem?_mapIdx, hi, Option.map_some, Nat.zero_add]
  · rw [List.getElem?_mapIdx, hi, Option.map_some]

/-- The second step refers to the first by a text of its own and by a reference. -/
def lookalike : Plan :=
  [⟨7, [.text "Load data for table t"]⟩,
    ⟨3, [.text "Keep", .text "(", .text "results of Step 1", .text ",", .ref 7, .text ")",
      .text ". "]⟩]

theorem lines_shift_lookalike : lookalike.validate = .ok () ∧ ∃ lines shifted,
    lookalike.lines 0 = .ok lines ∧ lookalike.lines 9 = .ok shifted ∧
    lines.length = lookalike.length ∧ shifted.length = lines.length ∧
    ∀ (i : Nat) s, lookalike[i]? = some s →
      (lookalike.template s).places.map some = s.refs.map (position? · lookalike) ∧
      lines[i]? = some ((lookalike.template s).line 0 (i + 1)) ∧
      shifted[i]? = some ((lookalike.template s).line 9 (9 + i + 1)) :=
  ⟨rfl, lines_shift rfl 9⟩

example : lookalike.lines 9 = .ok ["10. Load data for table t.",
    "11. Keep (results of Step 1, results of Step 10)."] := by
  cbv

end Plan

end QuerySteps
