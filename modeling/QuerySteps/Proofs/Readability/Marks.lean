import Mathlib.Data.List.Induction
import QuerySteps.Proofs.Plan.Lines

/-!
# Reading lines

A line is read as a list of marks: words, the separators `,` and `and`, the word `between`, and
parentheses. Quotes keep what is between them together. Fragments are separated so that a line reads
as its fragments do one after the other, provided that each of them closes its quotes
(`Step.read_renderParts`).
-/

namespace QuerySteps

/-- What a line is read as. -/
inductive Mark where
  | word | and | between | comma | opening | closing
  deriving DecidableEq

namespace Mark

/-- The mark of the characters of a word, if there are any. -/
def ofWord (word : List Char) : List Mark :=
  if word = [] then []
  else if word = ['a', 'n', 'd'] then [and]
  else if word = ['b', 'e', 't', 'w', 'e', 'e', 'n'] then [between]
  else [Mark.word]

/-- The marks of a character that ends a word. -/
def punctuation? (c : Char) : Option (List Mark) :=
  if c = ',' then some [comma]
  else if c = '(' then some [opening]
  else if c = ')' then some [closing]
  else if c ∈ ['.', ':', ';', '-'] ∨ Text.isBlank c = true then some []
  else none

theorem punctuation?_blank {c : Char} (h : Text.isBlank c = true) : punctuation? c = some [] := by
  have hne : c ≠ ',' ∧ c ≠ '(' ∧ c ≠ ')' := by
    refine ⟨?_, ?_, ?_⟩ <;> rintro rfl <;> exact absurd h (by decide)
  simp [punctuation?, hne, h]

/-- Reads a text after the characters of a word, between quotes or not. -/
def readFrom (quoted : Bool) (word : List Char) : List Char → List Mark
  | [] => ofWord word
  | c :: cs =>
    if c = '\'' then readFrom (!quoted) (word ++ [c]) cs
    else match (if quoted then none else punctuation? c) with
      | some marks => ofWord word ++ (marks ++ readFrom false [] cs)
      | none => readFrom quoted (word ++ [c]) cs

def read (text : List Char) : List Mark :=
  readFrom false [] text

def quotedAfter (quoted : Bool) (text : List Char) : Bool :=
  text.foldl (fun quoted c => if c = '\'' then !quoted else quoted) quoted

variable {quoted : Bool} {word text more : List Char}

theorem quotedAfter_cons (c : Char) :
    quotedAfter quoted (c :: text) = quotedAfter (if c = '\'' then !quoted else quoted) text :=
  rfl

theorem quotedAfter_append :
    quotedAfter quoted (text ++ more) = quotedAfter (quotedAfter quoted text) more :=
  List.foldl_append

@[simp] theorem ofWord_nil : ofWord [] = [] := rfl

@[simp] theorem read_nil : read [] = [] := rfl

theorem ne_quote {c : Char} {marks : List Mark} (h : punctuation? c = some marks) : c ≠ '\'' := by
  have hnone : punctuation? '\'' = none := by decide
  rintro rfl
  rw [hnone] at h
  cases h

theorem readFrom_nil : readFrom quoted word [] = ofWord word := rfl

theorem readFrom_punctuation {c : Char} {marks : List Mark} (h : punctuation? c = some marks) :
    readFrom false word (c :: text) = ofWord word ++ (marks ++ read text) := by
  rw [readFrom, if_neg (ne_quote h), if_neg Bool.false_ne_true, h]
  rfl

theorem read_punctuation {c : Char} {marks : List Mark} (h : punctuation? c = some marks) :
    read (c :: text) = marks ++ read text :=
  readFrom_punctuation h

theorem readFrom_cons {c : Char} (h : quoted = true ∨ punctuation? c = none) :
    readFrom quoted word (c :: text) =
      readFrom (if c = '\'' then !quoted else quoted) (word ++ [c]) text := by
  have hnone : (if quoted then none else punctuation? c) = none := by
    rcases h with rfl | h
    · rfl
    · rw [h, ite_self]
  rw [readFrom]
  split
  · rfl
  · rw [hnone]

/-- A text is read on its own after another one, unless it goes on with a word. -/
theorem readFrom_append (h : quotedAfter quoted text = false)
    (hmore : ∀ c ∈ more.head?, (punctuation? c).isSome = true) :
    readFrom quoted word (text ++ more) = readFrom quoted word text ++ read more := by
  induction text generalizing quoted word with
  | nil =>
    obtain rfl : quoted = false := h
    cases more with
    | nil => simp
    | cons c more =>
      obtain ⟨marks, hmarks⟩ := Option.isSome_iff_exists.mp (hmore c rfl)
      rw [List.nil_append, readFrom_punctuation hmarks, read_punctuation hmarks, readFrom_nil]
  | cons c text ih =>
    rw [quotedAfter_cons] at h
    rw [List.cons_append]
    by_cases hends : quoted = true ∨ punctuation? c = none
    · rw [readFrom_cons hends, readFrom_cons hends, ih h]
    · obtain ⟨hquoted, hsome⟩ := not_or.mp hends
      obtain rfl : quoted = false := by simpa using hquoted
      obtain ⟨marks, hmarks⟩ := Option.ne_none_iff_exists'.mp hsome
      rw [if_neg (ne_quote hmarks)] at h
      rw [readFrom_punctuation hmarks, readFrom_punctuation hmarks, read, ih h]
      simp [read]

/-- The text closes its quotes. -/
def Closed (text : List Char) : Prop :=
  quotedAfter false text = false

instance (text : List Char) : Decidable (Closed text) :=
  inferInstanceAs (Decidable (quotedAfter false text = false))

theorem Closed.append (h : Closed text) (hmore : Closed more) : Closed (text ++ more) := by
  rw [Closed, quotedAfter_append, h]
  exact hmore

theorem read_append (h : Closed text) (hmore : ∀ c ∈ more.head?, (punctuation? c).isSome = true) :
    read (text ++ more) = read text ++ read more :=
  readFrom_append h hmore

theorem read_space (text : List Char) : read (' ' :: text) = read text :=
  read_punctuation (show punctuation? ' ' = some [] by decide)

/-- Nothing but a word can run into what follows it. -/
theorem read_append_of_opening (h : Closed text) (hlast : text.getLast? = some '(') :
    read (text ++ more) = read text ++ read more := by
  obtain ⟨front, rfl⟩ := List.getLast?_eq_some_iff.mp hlast
  have hfront : Closed front := by
    rw [Closed, quotedAfter_append] at h
    exact h
  have hopening (rest : List Char) :
      read (front ++ '(' :: rest) = read front ++ opening :: read rest := by
    rw [read_append hfront fun c hc => ?_, read_punctuation (by rfl)]
    · rfl
    · cases hc
      rfl
  rw [List.append_assoc, List.singleton_append, hopening, hopening]
  simp

end Mark

open Mark

namespace Sentence

variable {sentence fragment : List Char}

theorem punctuation?_of_attaches (h : attaches fragment = true) :
    ∀ c ∈ fragment.head?, (punctuation? c).isSome = true := by
  intro c hc
  unfold attaches at h
  split at h
  all_goals first | cases hc; decide | cases h

theorem closed_push (hs : Closed sentence) (hf : Closed fragment) :
    Closed (push sentence fragment) := by
  unfold push
  split
  · exact hs
  · split
    · exact hs.append hf
    · exact hs.append hf

theorem read_push (hs : Closed sentence) :
    read (push sentence fragment) = read sentence ++ read fragment := by
  unfold push
  split
  · rename_i hempty
    rw [List.isEmpty_iff.mp hempty]
    simp
  · split
    · rename_i hglue
      simp only [Bool.or_eq_true, List.isEmpty_iff, beq_iff_eq] at hglue
      rcases hglue with (rfl | hattaches) | hlast
      · simp
      · exact read_append hs (punctuation?_of_attaches hattaches)
      · exact read_append_of_opening hs hlast
    · rw [read_append hs fun c hc => ?_, read_space]
      cases hc
      decide

theorem read_trimEnd (hs : Closed sentence) :
    Closed (Text.trimEnd sentence) ∧ read (Text.trimEnd sentence) = read sentence := by
  induction sentence using List.reverseRecOn with
  | nil => exact ⟨hs, rfl⟩
  | append_singleton front c ih =>
    cases hblank : Text.isBlank c with
    | false =>
      have hkeep : Text.trimEnd (front ++ [c]) = front ++ [c] := by
        simp [Text.trimEnd, hblank]
      rw [hkeep]
      exact ⟨hs, rfl⟩
    | true =>
      have hdrop : Text.trimEnd (front ++ [c]) = Text.trimEnd front := by
        simp [Text.trimEnd, hblank]
      have hmarks := punctuation?_blank hblank
      have hfront : Closed front := by
        rw [Closed, quotedAfter_append] at hs
        rwa [quotedAfter_cons, if_neg (ne_quote hmarks)] at hs
      obtain ⟨hclosed, hread⟩ := ih hfront
      rw [hdrop, read_append hfront fun d hd => ?_, read_punctuation hmarks]
      · simp [hclosed, hread]
      · cases hd
        rw [hmarks]
        rfl

theorem read_close (hs : Closed sentence) : read (close sentence) = read sentence := by
  obtain ⟨hclosed, hread⟩ := read_trimEnd hs
  unfold close
  simp only
  split
  · exact hread
  · rw [read_append hclosed fun c hc => ?_, hread]
    · exact List.append_nil _
    · cases hc
      rfl

end Sentence

namespace Part

def Closed : Part → Prop
  | text words => Mark.Closed words.toList
  | ref _ => True

/-- What a fragment is read as: a reference is four words. -/
def marks : Part → List Mark
  | text words => Mark.read words.toList
  | ref _ => [.word, .word, .word, .word]

end Part

namespace Mark

theorem punctuation?_digit {c : Char} (h : c.isDigit = true) :
    c ≠ '\'' ∧ c ∉ ['a', 'b'] ∧ punctuation? c = none := by
  have hne (d : Char) (hd : d.isDigit = false) : c ≠ d := by
    rintro rfl
    rw [h] at hd
    cases hd
  have hblank : Text.isBlank c = false := by
    have hrange : 48 ≤ c.toNat ∧ c.toNat ≤ 57 := by
      simp only [Char.isDigit, ge_iff_le, Bool.and_eq_true, decide_eq_true_eq,
        UInt32.le_iff_toNat_le] at h
      exact h
    unfold Text.isBlank
    generalize c.toNat = n at hrange
    simp only [Bool.or_eq_false_iff, Bool.and_eq_false_iff, decide_eq_false_iff_not]
    refine ⟨⟨by omega, by omega⟩, fun hmem => ?_⟩
    simp only [List.mem_cons, List.not_mem_nil, or_false] at hmem
    omega
  refine ⟨hne _ rfl, by simp [hne], ?_⟩
  simp [punctuation?, hne, hblank]

theorem read_digits {digits : List Char} (hne : digits ≠ [])
    (h : ∀ c ∈ digits, c.isDigit = true) : Closed digits ∧ read digits = [.word] := by
  have hread (digits : List Char) (h : ∀ c ∈ digits, c.isDigit = true) (word : List Char) :
      quotedAfter false digits = false ∧
        readFrom false word digits = ofWord (word ++ digits) := by
    induction digits generalizing word with
    | nil => simp [quotedAfter, readFrom_nil]
    | cons c digits ih =>
      obtain ⟨hc, hdigits⟩ := List.forall_mem_cons.mp h
      obtain ⟨hquote, -, hnone⟩ := punctuation?_digit hc
      obtain ⟨hq, hw⟩ := ih hdigits (word ++ [c])
      rw [quotedAfter_cons, readFrom_cons (.inr hnone), if_neg hquote]
      exact ⟨hq, by simp [hw]⟩
  obtain ⟨hq, hw⟩ := hread digits h []
  refine ⟨hq, hw.trans ?_⟩
  obtain ⟨c, rest, rfl⟩ := List.exists_cons_of_ne_nil hne
  obtain ⟨-, hletters, -⟩ := punctuation?_digit (h c (List.mem_cons_self ..))
  simp only [List.mem_cons, not_or] at hletters
  simp [ofWord, hletters]

/-- The name of the results of a step is read as four words. -/
theorem read_results (n : Nat) :
    Closed ("results of Step " ++ n.repr).toList ∧
      read ("results of Step " ++ n.repr).toList = [.word, .word, .word, .word] := by
  have htext : ("results of Step " ++ n.repr).toList =
      "results of Step".toList ++ ' ' :: Nat.toDigits 10 n := by
    simp [Nat.repr_eq_ofList_toDigits]
  obtain ⟨hclosed, hread⟩ := read_digits (Nat.toDigits_ne_nil (n := n) (b := 10))
    fun c hc => Nat.isDigit_of_mem_toDigits (by decide) (by decide) hc
  have hfront : Closed "results of Step".toList := by decide
  rw [htext]
  refine ⟨hfront.append hclosed, ?_⟩
  rw [read_append hfront fun c hc => ?_, read_space, hread]
  · decide
  · cases hc
    decide

end Mark

/-- A line is read as its fragments are. -/
theorem Step.read_renderParts {number : Nat} {numberOf : StepId → Option Nat} {parts : List Part}
    (hp : ∀ p ∈ parts, p.Closed) {sentence written : List Char} (hs : Mark.Closed sentence)
    (h : Step.renderParts number numberOf sentence parts = .ok written) :
    Mark.Closed written ∧
      Mark.read written = Mark.read sentence ++ parts.flatMap Part.marks := by
  induction parts generalizing sentence with
  | nil =>
    cases h
    simpa using hs
  | cons p parts ih =>
    obtain ⟨hp, hparts⟩ := List.forall_mem_cons.mp hp
    -- Whatever the fragment is written as closes its quotes and has the marks of the fragment.
    obtain ⟨fragment, hfragment, hclosed, hmarks⟩ : ∃ fragment,
        p.render number numberOf = .ok fragment ∧ Mark.Closed fragment.toList ∧
          Mark.read fragment.toList = p.marks := by
      cases p with
      | text words => exact ⟨words, rfl, hp, rfl⟩
      | ref id =>
        cases hn : numberOf id with
        | none => simp [renderParts, Part.render, hn, bind, Except.bind, throw, throwThe,
            MonadExceptOf.throw] at h
        | some n =>
          by_cases hlt : n < number
          · exact ⟨_, Part.render_ref hn hlt, Mark.read_results n⟩
          · simp [renderParts, Part.render, hn, hlt, bind, Except.bind, throw, throwThe,
              MonadExceptOf.throw] at h
    rw [renderParts_cons hfragment] at h
    obtain ⟨hwritten, hread⟩ := ih hparts (Sentence.closed_push hs hclosed) h
    refine ⟨hwritten, ?_⟩
    rw [hread, Sentence.read_push hs, hmarks, List.flatMap_cons, List.append_assoc]

end QuerySteps
