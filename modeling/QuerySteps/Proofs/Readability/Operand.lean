import QuerySteps.Proofs.Plan.Conditions
import QuerySteps.Proofs.Readability.Marks

/-!
# Operands in a line

What a line is read as outside of parentheses is its outline, in which a pair of parentheses is a
word. Conditions are grouped so that an operand has neither `and` nor `between` in its outline and
does not end with a comma (`Part.IsBody.grouped`), so the separators of a list around it can be told
from those in it.
-/

namespace QuerySteps

namespace Mark

/-- The depth of parentheses after a mark; none may close that is not open. -/
def depthAfter? (d : Nat) : Mark → Option Nat
  | opening => some (d + 1)
  | closing => if d = 0 then none else some (d - 1)
  | _ => some d

/-- What is left of a mark in an outline. -/
def outlined (d : Nat) (m : Mark) : List Mark :=
  if d = 0 then
    match m with
    | opening => [word]
    | closing => []
    | m => [m]
  else []

def depthAfterAll? : Nat → List Mark → Option Nat
  | d, [] => some d
  | d, m :: marks => (m.depthAfter? d).bind fun d => depthAfterAll? d marks

/-- The marks outside of parentheses, from a depth on. -/
def outline : Nat → List Mark → List Mark
  | _, [] => []
  | d, m :: marks => m.outlined d ++ outline ((m.depthAfter? d).getD 0) marks

variable {d e : Nat} {a b : List Mark}

theorem depthAfterAll?_append :
    depthAfterAll? d (a ++ b) = (depthAfterAll? d a).bind fun e => depthAfterAll? e b := by
  induction a generalizing d with
  | nil => rfl
  | cons m a ih =>
    simp only [List.cons_append, depthAfterAll?, Option.bind_assoc]
    exact congrArg _ (funext fun d => ih)

theorem outline_append (h : depthAfterAll? d a = some e) :
    outline d (a ++ b) = outline d a ++ outline e b := by
  induction a generalizing d with
  | nil =>
    cases h
    rfl
  | cons m a ih =>
    obtain ⟨next, hnext, hrest⟩ := Option.bind_eq_some_iff.mp h
    simp only [List.cons_append, outline, hnext, Option.getD_some, ih hrest, List.append_assoc]

/-- Between parentheses nothing is seen, and marks that may stand on their own may stand there. -/
theorem depthAfterAll?_succ (h : depthAfterAll? d a = some e) :
    depthAfterAll? (d + 1) a = some (e + 1) ∧ outline (d + 1) a = [] := by
  induction a generalizing d with
  | nil =>
    cases h
    exact ⟨rfl, rfl⟩
  | cons m a ih =>
    obtain ⟨next, hnext, hrest⟩ := Option.bind_eq_some_iff.mp h
    obtain ⟨hdepth, houtline⟩ := ih hrest
    have hstep : m.depthAfter? (d + 1) = some (next + 1) := by
      cases m with
      | closing =>
        simp only [depthAfter?] at hnext ⊢
        split at hnext
        · cases hnext
        · cases hnext
          simp
          omega
      | _ =>
        cases hnext
        rfl
    simp [depthAfterAll?, outline, outlined, hstep, hdepth, houtline]

/-- The marks of an operand outside of parentheses. -/
structure IsOperand (outline : List Mark) : Prop where
  ne_nil : outline ≠ []
  and_notMem : and ∉ outline
  between_notMem : between ∉ outline
  last_ne : outline.getLast? ≠ some comma

theorem IsOperand.append (ha : IsOperand a) (hb : IsOperand b) : IsOperand (a ++ b) where
  ne_nil := List.append_ne_nil_of_left_ne_nil ha.ne_nil b
  and_notMem := by simp [ha.and_notMem, hb.and_notMem]
  between_notMem := by simp [ha.between_notMem, hb.between_notMem]
  last_ne := by
    rw [List.getLast?_append_of_ne_nil _ hb.ne_nil]
    exact hb.last_ne

theorem IsOperand.append_comma (ha : IsOperand a) (hb : IsOperand b) :
    IsOperand (a ++ comma :: b) where
  ne_nil := List.append_ne_nil_of_left_ne_nil ha.ne_nil _
  and_notMem := by simp [ha.and_notMem, hb.and_notMem]
  between_notMem := by simp [ha.between_notMem, hb.between_notMem]
  last_ne := by
    rw [← List.singleton_append, ← List.append_assoc, List.getLast?_append_of_ne_nil _ hb.ne_nil]
    exact hb.last_ne

def AreWords (outline : List Mark) : Prop :=
  outline ≠ [] ∧ ∀ m ∈ outline, m = word

instance (outline : List Mark) : Decidable (AreWords outline) :=
  inferInstanceAs (Decidable (outline ≠ [] ∧ ∀ m ∈ outline, m = word))

theorem AreWords.isOperand (h : AreWords a) : IsOperand a where
  ne_nil := h.1
  and_notMem hmem := by cases h.2 _ hmem
  between_notMem hmem := by cases h.2 _ hmem
  last_ne hlast := by cases h.2 _ (List.mem_of_getLast? hlast)

theorem AreWords.append (ha : AreWords a) (hb : ∀ m ∈ b, m = word) : AreWords (a ++ b) := by
  refine ⟨List.append_ne_nil_of_left_ne_nil ha.1 b, fun m hm => ?_⟩
  rcases List.mem_append.mp hm with hm | hm
  · exact ha.2 m hm
  · exact hb m hm

end Mark

open Mark

namespace Part

/-- The fragments close their quotes and parentheses, and have that outline. -/
structure Outlined (parts : List Part) (outline : List Mark) : Prop where
  closed : ∀ p ∈ parts, p.Closed
  depth : depthAfterAll? 0 (parts.flatMap marks) = some 0
  outline_eq : Mark.outline 0 (parts.flatMap marks) = outline

variable {parts more : List Part} {a b : List Mark}

theorem Outlined.nil : Outlined [] [] := ⟨by simp, rfl, rfl⟩

theorem Outlined.ref (id : StepId) : Outlined [.ref id] [.word, .word, .word, .word] :=
  ⟨by simp [Closed], rfl, rfl⟩

theorem Outlined.append (ha : Outlined parts a) (hb : Outlined more b) :
    Outlined (parts ++ more) (a ++ b) where
  closed := List.forall_mem_append.mpr ⟨ha.closed, hb.closed⟩
  depth := by rw [List.flatMap_append, depthAfterAll?_append, ha.depth]; exact hb.depth
  outline_eq := by
    rw [List.flatMap_append, outline_append ha.depth, ha.outline_eq, hb.outline_eq]

theorem Outlined.enclosed (h : Outlined parts a) : Outlined (Part.enclosed parts) [.word] := by
  obtain ⟨hdepth, houtline⟩ := depthAfterAll?_succ h.depth
  have hmarks : (Part.enclosed parts).flatMap marks =
      opening :: (parts.flatMap marks ++ [closing]) := by
    have hopening : marks (.text "(") = [opening] := by decide
    have hclosing : marks (.text ")") = [closing] := by decide
    simp [Part.enclosed, hopening, hclosing]
  refine ⟨?_, ?_, ?_⟩
  · have hquotes : Closed (.text "(") ∧ Closed (.text ")") :=
      ⟨show Mark.Closed _ by decide, show Mark.Closed _ by decide⟩
    rintro p (_ | ⟨_, hp⟩)
    · exact hquotes.1
    · rcases List.mem_append.mp hp with hp | hp
      · exact h.closed p hp
      · exact List.mem_singleton.mp hp ▸ hquotes.2
  · rw [hmarks]
    simp [depthAfterAll?, depthAfter?, depthAfterAll?_append, hdepth]
  · rw [hmarks]
    simp [outline, outlined, depthAfter?, outline_append hdepth, houtline]

/-- The text closes its quotes and parentheses, and outside of them it is words only. -/
def Legible (words : String) : Prop :=
  Mark.Closed words.toList ∧ depthAfterAll? 0 (Mark.read words.toList) = some 0 ∧
    AreWords (outline 0 (Mark.read words.toList))

instance (words : String) : Decidable (Legible words) :=
  inferInstanceAs (Decidable (_ ∧ _ ∧ _))

theorem Outlined.text {words : String} (hclosed : Mark.Closed words.toList)
    (hdepth : depthAfterAll? 0 (Mark.read words.toList) = some 0) :
    Outlined [.text words] (Mark.outline 0 (Mark.read words.toList)) := by
  refine ⟨?_, ?_, ?_⟩
  · simpa [Closed] using hclosed
  · simpa [marks] using hdepth
  · simp [marks]

theorem Outlined.comma : Outlined [.text ","] [.comma] := .text (by decide) (by decide)

theorem Outlined.and : Outlined [.text "and"] [.and] := .text (by decide) (by decide)

def IsOperand (parts : List Part) : Prop :=
  ∃ outline, Outlined parts outline ∧ Mark.IsOperand outline

theorem IsOperand.append (ha : IsOperand parts) (hb : IsOperand more) :
    IsOperand (parts ++ more) := by
  obtain ⟨a, ha, hoa⟩ := ha
  obtain ⟨b, hb, hob⟩ := hb
  exact ⟨a ++ b, ha.append hb, hoa.append hob⟩

theorem IsOperand.text {words : String} (h : Legible words) : IsOperand [.text words] := by
  obtain ⟨hclosed, hdepth, hwords⟩ := h
  exact ⟨_, .text hclosed hdepth, hwords.isOperand⟩

theorem IsOperand.ref (id : StepId) : IsOperand [.ref id] :=
  ⟨_, .ref id, AreWords.isOperand ⟨by simp, by simp⟩⟩

theorem Outlined.isOperand_enclosed (h : Outlined parts a) : IsOperand (Part.enclosed parts) :=
  ⟨_, h.enclosed, AreWords.isOperand ⟨by simp, by simp⟩⟩

/-- The fragments are the condition of a check. Only a conjunction has `and` without `between`
before it in its outline. -/
inductive IsBody (conjunction : Bool) (body : List Part) : Prop where
  | plain (h : IsOperand body)
  | chain {a b : List Mark} (h : Outlined body (a ++ .and :: b))
      (hconnective : haveConnective body = true) (hand : .and ∉ a)
      (hlast : a.getLast? ≠ some comma) (hb : Mark.IsOperand b)
      (hkind : conjunction = true ∨ between ∈ a)

variable {conjunction : Bool} {body : List Part}

theorem IsBody.outlined (h : IsBody conjunction body) : ∃ a, Outlined body a := by
  cases h with
  | plain h =>
    obtain ⟨a, ha, -⟩ := h
    exact ⟨a, ha⟩
  | chain h => exact ⟨_, h⟩

theorem IsBody.enclosed (h : IsBody conjunction body) : IsOperand (Part.enclosed body) := by
  obtain ⟨a, ha⟩ := h.outlined
  exact ha.isOperand_enclosed

/-- A condition that is written into another one is an operand. -/
theorem IsBody.grouped (h : IsBody conjunction body) : IsOperand (Part.grouped body) := by
  cases hconnective : haveConnective body with
  | true =>
    rw [grouped_of_haveConnective hconnective]
    exact h.enclosed
  | false =>
    rw [grouped_of_not_haveConnective hconnective]
    cases h with
    | plain h => exact h
    | chain _ hsome =>
      rw [hconnective] at hsome
      cases hsome

end Part

end QuerySteps
