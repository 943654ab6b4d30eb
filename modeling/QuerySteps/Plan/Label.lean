import QuerySteps.Plan.Step

/-!
# Labels

A label says how later steps name a value: by text of its own, by a reference to the step that
computes it, or by a mixture of both.
-/

namespace QuerySteps

/-- The fragments that name a value. -/
structure Label where
  parts : List Part := []
  deriving Repr, DecidableEq, Inhabited

namespace Label

def text (words : String) : Label :=
  ⟨[.text words]⟩

/-- The label that names the results of a step. -/
def step (id : StepId) : Label :=
  ⟨[.ref id]⟩

def refs (a : Label) : List StepId :=
  a.parts.filterMap Part.ref?

/-- The step referred to, when the label is a single reference. -/
def step? : Label → Option StepId
  | ⟨[.ref id]⟩ => some id
  | _ => none

protected def append (a b : Label) : Label :=
  ⟨a.parts ++ b.parts⟩

instance : Append Label := ⟨Label.append⟩

@[simp] theorem parts_append (a b : Label) : (a ++ b).parts = a.parts ++ b.parts := rfl

def before (a : Label) (words : String) : Label :=
  a ++ text words

/-- The label with a sign in front, which joins the first text if there is one. -/
def signed (sign : String) : Label → Label
  | ⟨.text words :: rest⟩ => ⟨.text (sign ++ words) :: rest⟩
  | ⟨parts⟩ => ⟨.text sign :: parts⟩

def parenthesized (a : Label) : Label :=
  ⟨.text "(" :: a.parts ++ [.text ")"]⟩

def commaList (labels : List Label) : Label :=
  ⟨List.intercalate [.text ","] (labels.map (·.parts))⟩

/-- The rest of an enumeration of three or more: every item after a comma, the last also
after `and`. -/
def enumerationTail : List Label → List Part
  | [] => []
  | [last] => .text "," :: .text "and" :: last.parts
  | item :: items => .text "," :: item.parts ++ enumerationTail items

/-- Labels as an enumeration: `a`, `a and b`, or `a, b, and c`. -/
def enumeration : List Label → Label
  | [] => ⟨[]⟩
  | [a] => a
  | [a, b] => ⟨a.parts ++ .text "and" :: b.parts⟩
  | a :: items => ⟨a.parts ++ enumerationTail items⟩

/-! ## References -/

@[simp] theorem refs_nil : refs ⟨[]⟩ = [] := rfl

@[simp] theorem refs_text (words : String) : (text words).refs = [] := rfl

@[simp] theorem refs_step (id : StepId) : (step id).refs = [id] := rfl

@[simp] theorem refs_append (a b : Label) : (a ++ b).refs = a.refs ++ b.refs := by
  simp [refs]

@[simp] theorem refs_before (a : Label) (words : String) : (a.before words).refs = a.refs := by
  simp [before]

@[simp] theorem refs_signed (sign : String) (a : Label) : (a.signed sign).refs = a.refs := by
  obtain ⟨parts⟩ := a
  cases parts with
  | nil => rfl
  | cons p rest => cases p <;> rfl

@[simp] theorem refs_parenthesized (a : Label) : a.parenthesized.refs = a.refs := by
  simp [parenthesized, refs]

@[simp] theorem refs_commaList (labels : List Label) :
    (commaList labels).refs = labels.flatMap refs := by
  simp only [commaList, refs]
  induction labels with
  | nil => rfl
  | cons a rest ih =>
    cases rest with
    | nil => simp [refs]
    | cons b rest =>
      simp only [List.map_cons, List.intercalate_cons_cons] at ih ⊢
      simp [ih, refs]

theorem filterMap_enumerationTail (labels : List Label) :
    (enumerationTail labels).filterMap Part.ref? = labels.flatMap refs := by
  fun_induction enumerationTail labels with
  | case1 => rfl
  | case2 last => simp [refs]
  | case3 item items _ ih => simp [refs, ih]

@[simp] theorem refs_enumeration (labels : List Label) :
    (enumeration labels).refs = labels.flatMap refs := by
  fun_cases enumeration labels with
  | case1 => rfl
  | case2 a => simp
  | case3 a b => simp [refs]
  | case4 a items _ => simp [refs, filterMap_enumerationTail]

end Label

end QuerySteps
