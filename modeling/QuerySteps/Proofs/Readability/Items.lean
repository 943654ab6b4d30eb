import Mathlib.Data.List.Basic
import Mathlib.Data.List.Infix
import QuerySteps.Proofs.Readability.Expressions

/-!
# Items of an enumeration

How many items a step enumerates can be read off the outline of the enumeration (`itemCount`): three
and more have a comma before their `and`, a pair has an `and` and no comma. An item alone has no
such comma, and if it has an `and` at all then `between` comes before it, unless it is a
conjunction.
-/

namespace QuerySteps

open Sql QuerySteps.Part Mark

namespace Mark

/-- How many items an enumeration with that outline has. -/
def itemCount (outline : List Mark) : Nat :=
  if outline = [] then 0
  else if [comma, and] <:+: outline then outline.count comma + 1
  else if and ∈ outline ∧ between ∉ outline then 2
  else 1

variable {a b : List Mark}

theorem AreWords.notMem (h : AreWords a) {m : Mark} (hm : m ≠ word) : m ∉ a :=
  fun hmem => hm (h.2 m hmem)

theorem itemCount_of_notMem (hne : a ≠ []) (hand : and ∉ a) : itemCount a = 1 := by
  have hseparated : ¬[comma, and] <:+: a := fun h => hand (h.subset (by simp))
  simp [itemCount, hne, hseparated, hand]

/-- The `and` of a single item does not follow a comma, so it is taken for a pair at most. -/
theorem itemCount_chain (hand : and ∉ a) (hlast : a.getLast? ≠ some comma) (hb : and ∉ b) :
    itemCount (a ++ and :: b) = if between ∈ a ++ and :: b then 1 else 2 := by
  have hseparated : ¬[comma, and] <:+: a ++ and :: b := by
    rintro ⟨front, back, h⟩
    have heq : a ++ and :: b = (front ++ [comma]) ++ and :: back := by simpa using h.symm
    obtain ⟨rfl, -, -⟩ := (List.append_cons_inj_of_notMem hand hb).mp heq
    exact hlast (by simp)
  have hmem : and ∈ a ++ and :: b := by simp
  have hne : a ++ and :: b ≠ [] := List.ne_nil_of_mem hmem
  by_cases hbetween : between ∈ a ++ and :: b
  · simp only [itemCount, hne, hseparated, hbetween, hmem, not_true, and_false, if_false, if_true]
  · simp only [itemCount, hne, hseparated, hbetween, hmem, not_false_eq_true, and_true, if_false,
      if_true]

/-- Three and more items are counted by their commas. -/
theorem itemCount_of_separated (h : [comma, and] <:+: a) : itemCount a = a.count comma + 1 := by
  have hne : a ≠ [] := by
    rintro rfl
    simp at h
  simp [itemCount, hne, h]

theorem itemCount_pair (ha : AreWords a) (hb : AreWords b) : itemCount (a ++ and :: b) = 2 := by
  have hbetween : between ∉ a ++ and :: b := by simp [ha.notMem, hb.notMem]
  rw [itemCount_chain (ha.notMem (by decide)) ha.isOperand.last_ne (hb.notMem (by decide)),
    if_neg hbetween]

end Mark

/-- The label of an item: with its condition in parentheses it is words only, and alone it is read
as one item, or as a pair if it is a conjunction. -/
structure Label.IsItem (c : Conditions) (conjunction : Bool) (a : Label) : Prop where
  noList : haveList a.parts = false
  oneCheck : ∀ id ∈ a.refs, ∀ id' ∈ a.refs, c id ≠ none → c id' ≠ none → id = id'
  enclosed : ∃ outline, Outlined (a.parts.flatMap (write enclosed c)) outline ∧ AreWords outline
  alone : ∃ outline, Outlined (a.parts.flatMap (write (fun body => body) c)) outline ∧
    ∀ more, (∀ m ∈ more, m = .word) → itemCount (outline ++ more) = 1 ∨
      (conjunction = true ∧ itemCount (outline ++ more) = 2)

namespace Label

variable {c : Conditions} {a : Label} {conjunction : Bool}

theorem haveList_of_legible {words : String} (h : Legible words) :
    haveList [.text words] = false := by
  have hcomma : ¬Legible "," := by decide
  have hand : ¬Legible "and" := by decide
  have hne : words ≠ "," ∧ words ≠ "and" := by
    constructor <;> rintro rfl <;> contradiction
  simp [haveList, hne]

theorem isItem_text {words : String} (h : Legible words) :
    (Label.text words).IsItem c conjunction := by
  obtain ⟨hclosed, hdepth, hwords⟩ := h
  refine ⟨haveList_of_legible ⟨hclosed, hdepth, hwords⟩, by simp, ⟨_, .text hclosed hdepth, hwords⟩,
    _, .text hclosed hdepth, fun more hmore => ?_⟩
  have hall := hwords.append hmore
  exact .inl (itemCount_of_notMem hall.1 (hall.notMem (by decide)))

theorem IsCheck.isItem (h : a.IsCheck c conjunction) : a.IsItem c conjunction := by
  obtain ⟨id, body, rfl, hid, hbody⟩ := h
  have hwrite (shape : List Part → List Part) :
      (Label.step id).parts.flatMap (write shape c) = shape body := by
    simp [Label.step, write, hid]
  obtain ⟨outline, houtline⟩ := hbody.outlined
  refine ⟨rfl, by simp, ⟨[.word], ?_, by decide⟩, ?_⟩
  · rw [hwrite]
    exact houtline.enclosed
  rw [hwrite]
  have hnotMem {more : List Mark} (hmore : ∀ m ∈ more, m = .word) : .and ∉ more :=
    fun hmem => by cases hmore _ hmem
  cases hbody with
  | plain h =>
    obtain ⟨o, ho, hoperand⟩ := h
    refine ⟨o, ho, fun more hmore => ?_⟩
    have hne := List.append_ne_nil_of_left_ne_nil hoperand.ne_nil more
    exact .inl (itemCount_of_notMem hne (by simp [hoperand.and_notMem, hnotMem hmore]))
  | @chain left right h _ hand hlast hright hkind =>
    refine ⟨_, h, fun more hmore => ?_⟩
    have hrest : .and ∉ right ++ more := by simp [hright.and_notMem, hnotMem hmore]
    rw [List.append_assoc, List.cons_append, itemCount_chain hand hlast hrest]
    rcases hkind with rfl | hbetween
    · split <;> simp
    · simp [hbetween]

theorem IsItem.withAlias (h : a.IsItem c conjunction) (s : Settings) {aliasName : Option Name}
    (halias : ∀ n ∈ aliasName, Legible (s.aliasText n)) :
    (s.withAlias a aliasName).IsItem c conjunction := by
  cases aliasName with
  | none => exact h
  | some n =>
    have hlegible := halias n rfl
    obtain ⟨hclosed, hdepth, hwords⟩ := hlegible
    have htext := Outlined.text hclosed hdepth
    have hwrite (shape : List Part → List Part) :
        (s.withAlias a (some n)).parts.flatMap (write shape c) =
          a.parts.flatMap (write shape c) ++ [.text (s.aliasText n)] := by
      simp [Settings.withAlias, Label.before, Label.text, write]
    obtain ⟨inside, hinside, hall⟩ := h.enclosed
    obtain ⟨outline, houtline, halone⟩ := h.alone
    refine ⟨?_, by simpa using h.oneCheck,
      ⟨_, hwrite _ ▸ hinside.append htext, hall.append hwords.2⟩,
      _, hwrite _ ▸ houtline.append htext, fun more hmore => ?_⟩
    · have hlist := haveList_of_legible (halias n rfl)
      have hitem := h.noList
      simp only [haveList] at hlist hitem
      simp [Settings.withAlias, Label.before, Label.text, haveList, hitem]
      simpa using hlist
    · rw [List.append_assoc]
      exact halone _ (List.forall_mem_append.mpr ⟨hwords.2, hmore⟩)

/-! ## Enumerations -/

theorem outlined_enumerationTail {labels : List Label} (hne : labels ≠ [])
    (h : ∀ a ∈ labels, ∃ outline, Outlined (a.parts.flatMap (write Part.enclosed c)) outline ∧
      AreWords outline) :
    ∃ outline, Outlined ((enumerationTail labels).flatMap (write Part.enclosed c)) outline ∧
      [.comma, .and] <:+: outline ∧ outline.count .comma = labels.length := by
  fun_induction enumerationTail labels with
  | case1 => exact absurd rfl hne
  | case2 last =>
    obtain ⟨o, ho, hwords⟩ := h last (List.mem_singleton_self last)
    refine ⟨[.comma] ++ ([.and] ++ o), ?_, ⟨[], o, rfl⟩, ?_⟩
    · have hall := Outlined.comma.append (Outlined.and.append ho)
      simpa [write] using hall
    · simp [List.count_eq_zero_of_not_mem (hwords.notMem (m := .comma) (by decide))]
  | case3 item items hitems ih =>
    obtain ⟨⟨o, ho, hwords⟩, hrest⟩ := List.forall_mem_cons.mp h
    obtain ⟨rest, hrest, hseparated, hcount⟩ := ih hitems hrest
    refine ⟨[.comma] ++ (o ++ rest), ?_, hseparated.trans ?_, ?_⟩
    · have hall := Outlined.comma.append (ho.append hrest)
      simpa [write] using hall
    · exact (List.suffix_append ([.comma] ++ o) rest).isInfix.trans (by simp)
    · simp [List.count_eq_zero_of_not_mem (hwords.notMem (m := .comma) (by decide)), hcount]

theorem parts_enumeration_cons (a b : Label) (rest : List Label) :
    (enumeration (a :: b :: rest)).parts = a.parts ++
      if rest = [] then .text "and" :: b.parts else enumerationTail (b :: rest) := by
  cases rest with
  | nil => rfl
  | cons d rest => rfl

theorem haveList_enumeration (a b : Label) (rest : List Label) :
    haveList (enumeration (a :: b :: rest)).parts = true := by
  rw [parts_enumeration_cons]
  cases rest with
  | nil => simp [haveList]
  | cons d rest => simp [haveList, enumerationTail]

theorem haveList_append (xs ys : List Part) :
    haveList (xs ++ ys) = (haveList xs || haveList ys) := List.any_append

end Label

/-- What stands around an enumeration in its step: a text that opens no check, and nothing that
separates items or refers to a check. -/
structure Conditions.Frame (c : Conditions) (before after : List Part) : Prop where
  opens : ∃ words rest, before = .text words :: rest ∧ words ≠ checkPhrase
  noCheck : ∀ id ∈ (before ++ after).filterMap ref?, c id = none
  noList : haveList (before ++ after) = false
  outlined : (∃ outline, Outlined before outline) ∧ ∃ outline, Outlined after outline

theorem Conditions.Frame.isCheck {c : Conditions} {before after : List Part}
    (h : c.Frame before after) {id : StepId} {parts : List Part} :
    Step.isCheck ⟨id, before ++ (parts ++ after)⟩ = false := by
  obtain ⟨words, rest, rfl, hne⟩ := h.opens
  simp [Step.isCheck, Step.opensWith, hne]

theorem Conditions.Frame.write {c : Conditions} {before after : List Part}
    (h : c.Frame before after) (shape : List Part → List Part) (parts : List Part) :
    (before ++ (parts ++ after)).flatMap (Part.write shape c) =
      before ++ (parts.flatMap (Part.write shape c) ++ after) := by
  have hnone := h.noCheck
  simp only [List.filterMap_append, List.mem_append] at hnone
  rw [List.flatMap_append, List.flatMap_append,
    flatMap_write_of_none fun id hid => hnone id (.inl hid),
    flatMap_write_of_none fun id hid => hnone id (.inr hid)]

namespace Label

/-- An enumeration of items of these kinds can be read as one of `n` items: a conjunction alone may
be taken for a pair. -/
def ReadsAs (kinds : List Bool) (n : Nat) : Prop :=
  n = kinds.length ∨ (kinds = [true] ∧ n = 2)

theorem ReadsAs.ne {kinds kinds' : List Bool} {n n' : Nat} (h : ReadsAs kinds n)
    (h' : ReadsAs kinds' n') (hne : kinds.length ≠ kinds'.length)
    (hpair : kinds = [true] → kinds'.length ≠ 2) (hpair' : kinds' = [true] → kinds.length ≠ 2) :
    n ≠ n' := by
  rintro rfl
  rcases h with hcount | ⟨rfl, hcount⟩ <;> rcases h' with hcount' | ⟨rfl, hcount'⟩
  · exact hne (hcount.symm.trans hcount')
  · exact hpair' rfl (hcount.symm.trans hcount')
  · exact hpair rfl (hcount'.symm.trans hcount)
  · exact hne rfl

theorem forall_enclosed {c : Conditions} {kinds : List Bool} {labels : List Label}
    (h : List.Forall₂ (fun conjunction a => a.IsItem c conjunction) kinds labels) :
    ∀ a ∈ labels, ∃ outline, Outlined (a.parts.flatMap (write Part.enclosed c)) outline ∧
      AreWords outline := by
  induction h with
  | nil => simp
  | cons ha _ ih => exact List.forall_mem_cons.mpr ⟨ha.enclosed, ih⟩

theorem shapes_of_noList {c : Conditions} {parts : List Part} (hlist : haveList parts = false)
    (hone : ∀ id ∈ parts.filterMap ref?, ∀ id' ∈ parts.filterMap ref?, c id ≠ none →
      c id' ≠ none → id = id') {id : StepId} {before after : List Part}
    (hf : c.Frame before after) :
    Step.Shapes c ⟨id, before ++ (parts ++ after)⟩ fun body => body := by
  have hmem {id : StepId} (hid : id ∈ (before ++ (parts ++ after)).filterMap ref?)
      (hc : c id ≠ none) : id ∈ parts.filterMap ref? := by
    have hframe := hf.noCheck id
    simp only [List.filterMap_append, List.mem_append] at hid hframe
    grind
  refine .single hf.isCheck ?_ fun id hid id' hid' hc hc' =>
    hone id (hmem hid hc) id' (hmem hid' hc') hc hc'
  have hframe := hf.noList
  simp only [haveList_append, Bool.or_eq_false_iff] at hframe ⊢
  exact ⟨hframe.1, hlist, hframe.2⟩

theorem shapes_of_list {c : Conditions} (a b : Label) (labels : List Label) {id : StepId}
    {before after : List Part} (hf : c.Frame before after) :
    Step.Shapes c ⟨id, before ++ ((enumeration (a :: b :: labels)).parts ++ after)⟩
      Part.enclosed := by
  refine .list hf.isCheck ?_
  simp only [haveList_append, haveList_enumeration, Bool.true_or, Bool.or_true]

/-- Two and more items that are set off are counted by their separators. -/
theorem outlined_enumeration {c : Conditions} {a b : Label} {labels : List Label}
    (h : ∀ x ∈ a :: b :: labels, ∃ outline,
      Outlined (x.parts.flatMap (write Part.enclosed c)) outline ∧ AreWords outline) :
    ∃ outline, Outlined ((enumeration (a :: b :: labels)).parts.flatMap (write Part.enclosed c))
      outline ∧ itemCount outline = labels.length + 2 := by
  obtain ⟨⟨first, hfirst, hwords⟩, hrest⟩ := List.forall_mem_cons.mp h
  rw [parts_enumeration_cons]
  cases labels with
  | nil =>
    obtain ⟨second, hsecond, hwords'⟩ := hrest b (List.mem_singleton_self b)
    refine ⟨first ++ .and :: second, ?_, itemCount_pair hwords hwords'⟩
    have hall := hfirst.append (Outlined.and.append hsecond)
    simpa [write] using hall
  | cons d labels =>
    obtain ⟨rest, houtline, hseparated, hcount⟩ :=
      outlined_enumerationTail (List.cons_ne_nil b (d :: labels)) hrest
    refine ⟨first ++ rest, ?_, ?_⟩
    · simpa using hfirst.append houtline
    · rw [itemCount_of_separated (hseparated.trans (List.suffix_append first rest).isInfix),
        List.count_append, hcount,
        List.count_eq_zero_of_not_mem (hwords.notMem (m := .comma) (by decide))]
      simp

/-- Conditions are written into an enumeration so that its outline tells how many items it has. -/
theorem exists_itemCount {c : Conditions} {kinds : List Bool} {labels : List Label}
    (h : List.Forall₂ (fun conjunction a => a.IsItem c conjunction) kinds labels) :
    ∃ shape outline, Outlined ((enumeration labels).parts.flatMap (write shape c)) outline ∧
      ReadsAs kinds (itemCount outline) ∧
      ∀ (id : StepId) (before after : List Part), c.Frame before after →
        Step.Shapes c ⟨id, before ++ ((enumeration labels).parts ++ after)⟩ shape := by
  have hwords := forall_enclosed h
  cases h with
  | nil =>
    exact ⟨_, [], .nil, .inl rfl, fun _ _ _ => shapes_of_noList rfl fun _ hid =>
      absurd hid List.not_mem_nil⟩
  | @cons conjunction a kinds labels ha hrest =>
    cases hrest with
    | nil =>
      obtain ⟨outline, houtline, hall⟩ := ha.alone
      refine ⟨_, outline, houtline, ?_, fun _ _ _ => shapes_of_noList ha.noList ha.oneCheck⟩
      simpa [ReadsAs] using hall [] (by simp)
    | @cons conjunction' b kinds labels hb hrest =>
      obtain ⟨outline, houtline, hcount⟩ := outlined_enumeration hwords
      refine ⟨_, outline, houtline, .inl ?_, fun _ _ _ => shapes_of_list a b labels⟩
      simp [hcount, hrest.length_eq]

end Label

end QuerySteps
