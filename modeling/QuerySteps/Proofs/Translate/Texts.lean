import QuerySteps.Proofs.Plan.TextLines
import QuerySteps.Proofs.Text.AsciiCase
import QuerySteps.Proofs.Translate.Results

/-!
# Where line breaks come from

All texts of a translated query are made of fixed words, of the names and constants of the query and
of signs around them. If no name and no constant has a line break (`Query.Unbroken`), no step and no
label has one (`Draft.Clear`).
-/

namespace QuerySteps

open Sql

/-! ## Names -/

namespace Text

theorem ofNat_ne_newline {n : Nat} (h : 10 < n) : Char.ofNat n ≠ '\n' := by
  intro heq
  have hnat := congrArg Char.toNat heq
  by_cases hvalid : n.isValidChar
  · rw [Char.ofNat, dif_pos hvalid] at hnat
    have hten : n = 10 := hnat
    omega
  · rw [Char.ofNat, dif_neg hvalid] at hnat
    exact absurd hnat (by decide)

theorem ten_lt_target : ∀ s ∈ lowerSpans, 10 < s.target := by decide +kernel

theorem lowerChar_ne_newline {c : Char} (h : c ≠ '\n') : lowerChar c ≠ '\n' := by
  unfold lowerChar
  split
  · exact toLower_ne_newline h
  · split
    · rename_i s hs
      exact ofNat_ne_newline (Nat.lt_add_right _ (ten_lt_target s (List.mem_of_find?_eq_some hs)))
    · exact h

theorem newline_notMem_lowercase {words : String} (h : '\n' ∉ words.toList) :
    '\n' ∉ (lowercase words).toList := by
  have hfrom (before after : List Char) (h : '\n' ∉ after) : '\n' ∉ lowerFrom before after := by
    fun_induction lowerFrom before after with
    | case1 => exact h
    | case2 before rest ih =>
      obtain ⟨-, hrest⟩ := not_or.mp (List.mem_cons.not.mp h)
      simp [ih hrest]
    | case3 before rest ih =>
      obtain ⟨-, hrest⟩ := not_or.mp (List.mem_cons.not.mp h)
      have hsigma : '\n' ≠ lowerSigma before rest := by
        unfold lowerSigma
        split <;> decide
      simp [ih hrest, hsigma]
    | case4 before c rest _ _ ih =>
      obtain ⟨hc, hrest⟩ := not_or.mp (List.mem_cons.not.mp h)
      simp [ih hrest, (lowerChar_ne_newline (Ne.symm hc)).symm]
  rw [lowercase, String.toList_ofList]
  exact hfrom [] _ h

end Text

theorem forall_mem_intercalate {α : Type} {p : α → Prop} {sep : List α} {ls : List (List α)}
    (hsep : ∀ x ∈ sep, p x) (h : ∀ l ∈ ls, ∀ x ∈ l, p x) : ∀ x ∈ sep.intercalate ls, p x := by
  induction ls with
  | nil => simp
  | cons l rest ih =>
    obtain ⟨hl, hrest⟩ := List.forall_mem_cons.mp h
    cases rest with
    | nil => simpa [List.intercalate_singleton] using hl
    | cons next rest =>
      rw [List.intercalate_cons_cons]
      exact List.forall_mem_append.mpr ⟨List.forall_mem_append.mpr ⟨hl, hsep⟩, ih hrest⟩

namespace Label

/-- No text of the label has a line break. -/
def Unbroken (a : Label) : Prop :=
  ∀ p ∈ a.parts, '\n' ∉ p.wording

@[simp] theorem unbroken_nil : Unbroken {} := by simp [Unbroken]

@[simp] theorem unbroken_text {words : String} : (text words).Unbroken ↔ '\n' ∉ words.toList := by
  simp [Unbroken, text]

@[simp] theorem unbroken_step (id : StepId) : (step id).Unbroken := by
  simp [Unbroken, step]

@[simp] theorem unbroken_append {a b : Label} :
    (a ++ b).Unbroken ↔ a.Unbroken ∧ b.Unbroken := by
  simp [Unbroken, or_imp, forall_and]

@[simp] theorem unbroken_before {a : Label} {words : String} :
    (a.before words).Unbroken ↔ a.Unbroken ∧ '\n' ∉ words.toList := by
  simp [before]

@[simp] theorem unbroken_parenthesized {a : Label} : a.parenthesized.Unbroken ↔ a.Unbroken := by
  simp [Unbroken, parenthesized, or_imp, forall_and]

theorem Unbroken.signed {a : Label} {sign : String} (h : a.Unbroken) (hs : '\n' ∉ sign.toList) :
    (a.signed sign).Unbroken := by
  obtain ⟨parts⟩ := a
  cases parts with
  | nil => simpa [Label.signed, Unbroken] using hs
  | cons p rest =>
    obtain ⟨hp, hrest⟩ := List.forall_mem_cons.mp h
    cases p with
    | text words =>
      refine List.forall_mem_cons.mpr ⟨?_, hrest⟩
      simpa using ⟨hs, hp⟩
    | ref id => exact List.forall_mem_cons.mpr ⟨hs, h⟩

theorem unbroken_flatMap {labels : List Label} (h : ∀ a ∈ labels, a.Unbroken) :
    Unbroken ⟨labels.flatMap (·.parts)⟩ :=
  List.forall_mem_flatMap.mpr h

theorem Unbroken.commaList {labels : List Label} (h : ∀ a ∈ labels, a.Unbroken) :
    (commaList labels).Unbroken :=
  forall_mem_intercalate (by simp) (List.forall_mem_map.mpr h)

theorem unbroken_enumerationTail {labels : List Label} (h : ∀ a ∈ labels, a.Unbroken) :
    ∀ p ∈ enumerationTail labels, '\n' ∉ p.wording := by
  fun_induction enumerationTail labels with
  | case1 => simp
  | case2 last => simpa [Unbroken] using h
  | case3 item items _ ih =>
    obtain ⟨hitem, hitems⟩ := List.forall_mem_cons.mp h
    refine List.forall_mem_cons.mpr ⟨by simp, ?_⟩
    exact List.forall_mem_append.mpr ⟨hitem, ih hitems⟩

theorem Unbroken.enumeration {labels : List Label} (h : ∀ a ∈ labels, a.Unbroken) :
    (enumeration labels).Unbroken := by
  fun_cases Label.enumeration labels with
  | case1 => exact unbroken_nil
  | case2 a => exact h a (List.mem_singleton_self a)
  | case3 a b =>
    have hboth : a.Unbroken ∧ b.Unbroken := by simpa using h
    refine List.forall_mem_append.mpr ⟨hboth.1, ?_⟩
    exact List.forall_mem_cons.mpr ⟨by simp, hboth.2⟩
  | case4 a items _ =>
    obtain ⟨ha, hitems⟩ := List.forall_mem_cons.mp h
    exact List.forall_mem_append.mpr ⟨ha, unbroken_enumerationTail hitems⟩

end Label

theorem Label.Unbroken.call {name : String} {arity : Nat} {distinct : Bool} {phrase : CallPhrase}
    (h : CallPhrase.ofFunction? name arity distinct = some phrase) {args : List Label}
    (ha : ∀ a ∈ args, a.Unbroken) : (phrase.label args).Unbroken := by
  cases phrase with
  | lead words =>
    refine List.forall_mem_cons.mpr ⟨?_, unbroken_flatMap ha⟩
    unfold CallPhrase.ofFunction? at h
    cases distinct <;> dsimp only at h <;> split at h <;> cases h <;> simp
  | toInteger =>
    exact List.forall_mem_append.mpr ⟨unbroken_flatMap ha, by simp⟩
  | toPlaces =>
    have hfirst := unbroken_flatMap fun a hmem => ha a (List.mem_of_mem_take (i := 1) hmem)
    have hrest := unbroken_flatMap fun a hmem => ha a (List.mem_of_mem_drop (i := 1) hmem)
    refine List.forall_mem_append.mpr ⟨List.forall_mem_append.mpr ⟨hfirst, ?_⟩, by
      simp⟩
    exact List.forall_mem_cons.mpr ⟨by simp, hrest⟩

def Step.Unbroken (t : Step) : Prop :=
  ∀ p ∈ t.parts, '\n' ∉ p.wording

theorem Step.Unbroken.not_breaks {t : Step} (h : t.Unbroken) : ¬ t.Breaks := by
  intro hbreaks
  rw [Step.Breaks, Text.trimEnd, List.mem_reverse] at hbreaks
  have hmem := List.mem_reverse.mp ((List.dropWhile_suffix _).mem hbreaks)
  obtain ⟨p, hp, hbreak⟩ := List.mem_flatMap.mp hmem
  exact h p hp hbreak

/-! ## Pieces -/

namespace Sql

/-- The name or the constant has no line break. -/
def Piece.Unbroken : Piece → Prop
  | .name n => '\n' ∉ n.value.toList
  | .constant (.number text) => '\n' ∉ text.toList
  | .constant (.string value) => '\n' ∉ value.toList
  | .constant .null | .constant (.boolean _) | .block _ => True

/-- No name and no constant of the query has a line break. -/
def Query.Unbroken (q : Query) : Prop :=
  ∀ piece ∈ q.pieces, piece.Unbroken

instance : DecidablePred Piece.Unbroken
  | .name n => inferInstanceAs (Decidable ('\n' ∉ n.value.toList))
  | .constant (.number text) => inferInstanceAs (Decidable ('\n' ∉ text.toList))
  | .constant (.string value) => inferInstanceAs (Decidable ('\n' ∉ value.toList))
  | .constant .null => inferInstanceAs (Decidable True)
  | .constant (.boolean _) => inferInstanceAs (Decidable True)
  | .block _ => inferInstanceAs (Decidable True)

instance : DecidablePred Query.Unbroken :=
  fun q => inferInstanceAs (Decidable (∀ piece ∈ q.pieces, piece.Unbroken))

theorem unbroken_literal {v : Literal} (h : (Piece.constant v).Unbroken) :
    '\n' ∉ v.text.toList := by
  cases v with
  | null => simp [Literal.text]
  | boolean value => cases value <;> simp [Literal.text]
  | number text => exact h
  | string value =>
    have hvalue : '\n' ∉ value.toList := h
    simp only [Literal.text]
    split <;> simp [hvalue]

end Sql

namespace Settings

variable {s : Settings}

theorem unbroken_nameText {n : Name} (h : '\n' ∉ n.value.toList) :
    '\n' ∉ (s.nameText n).toList := by
  have hvalue : '\n' ∉ (if s.caseSensitive then n.value else Text.lowercase n.value).toList := by
    split
    · exact h
    · exact Text.newline_notMem_lowercase h
  simp only [nameText]
  split
  · simp [hvalue]
  · exact hvalue

theorem unbroken_qualifierText (lead : String) (hlead : '\n' ∉ lead.toList) {name : Option Name}
    (h : ∀ n ∈ name, '\n' ∉ n.value.toList) : '\n' ∉ (s.qualifierText lead name).toList := by
  cases name with
  | none => simp [qualifierText]
  | some n => simp [qualifierText, hlead, unbroken_nameText (h n rfl)]

theorem unbroken_columnText {c : Column} (h : ∀ piece ∈ c.pieces, piece.Unbroken) :
    '\n' ∉ (s.columnText c).toList := by
  obtain ⟨hname, hqualifiers⟩ := List.forall_mem_cons.mp h
  rw [List.map_append, List.forall_mem_append] at hqualifiers
  have hoption {name : Option Name}
      (h : ∀ piece ∈ name.toList.map Piece.name, piece.Unbroken) :
      ∀ n ∈ name, '\n' ∉ n.value.toList := by
    rintro n rfl
    exact h (.name n) (by simp)
  have htable := unbroken_qualifierText (s := s) " in " (by simp) (hoption hqualifiers.1)
  have hschema := unbroken_qualifierText (s := s) " in schema " (by simp)
    (hoption hqualifiers.2)
  have hcolumn : '\n' ∉ (s.nameText c.name).toList := unbroken_nameText hname
  simp [columnText, hcolumn, htable, hschema]

theorem unbroken_tableText {path : List Name} (h : ∀ n ∈ path, '\n' ∉ n.value.toList) :
    '\n' ∉ (s.tableText path).toList := by
  unfold tableText
  split
  · simp
  · rename_i table htable
    have hname := unbroken_nameText (s := s) (h table (List.mem_of_getLast? htable))
    split
    · exact hname
    · have hpath : '\n' ∉ (".".intercalate (path.dropLast.map s.nameText)).toList := by
        rw [String.toList_intercalate]
        refine fun hmem => forall_mem_intercalate (p := (· ≠ '\n')) (by simp) ?_ _ hmem rfl
        simp only [List.map_map, List.forall_mem_map]
        rintro n hn c hc rfl
        exact unbroken_nameText (h n (List.dropLast_subset _ hn)) hc
      have hlead : '\n' ∉ " in schema ".toList := by simp
      simp only [String.toList_append, List.mem_append, hname, hlead, hpath, or_false,
        not_false_iff]

theorem unbroken_withAlias {a : Label} (ha : a.Unbroken) {aliasName : Option Name}
    (h : ∀ piece ∈ piecesOfAlias aliasName, piece.Unbroken) :
    (s.withAlias a aliasName).Unbroken := by
  cases aliasName with
  | none => exact ha
  | some n =>
    have hn : '\n' ∉ n.value.toList := h (.name n) (by simp [piecesOfAlias])
    simp [withAlias, aliasText, ha, unbroken_nameText hn]

end Settings

/-! ## Drafts -/

namespace Draft

variable {α β : Type}

/-- No step that the draft adds has a line break, and its value satisfies `post`. -/
def Writes (d : Draft α) (post : α → Prop) : Prop :=
  ∀ first r, d first = .ok r → (∀ t ∈ r.steps, t.Unbroken) ∧ post r.value

/-- Neither the steps nor the label have a line break. -/
abbrev Clear (d : Draft Label) : Prop :=
  d.Writes Label.Unbroken

theorem Writes.pure {a : α} {post : α → Prop} (h : post a) : Writes (pure a) post := by
  intro first r hr
  cases hr
  exact ⟨by simp, h⟩

theorem Writes.bind {x : Draft α} {f : α → Draft β} {M : α → Prop} {post : β → Prop}
    (hx : x.Writes M) (hf : ∀ a, M a → (f a).Writes post) : (x >>= f).Writes post := by
  intro first r hr
  obtain ⟨a, ha, b, hb, rfl⟩ := bind_eq_ok.mp hr
  obtain ⟨hfirst, hM⟩ := hx first a ha
  obtain ⟨hsecond, hpost⟩ := hf a.value hM a.next b hb
  exact ⟨List.forall_mem_append.mpr ⟨hfirst, hsecond⟩, hpost⟩

theorem Writes.step {sentence : Label} (h : sentence.Unbroken) : (Draft.step sentence).Clear := by
  intro first r hr
  cases hr
  refine ⟨fun t ht => ?_, Label.unbroken_step first⟩
  rw [List.mem_singleton.mp ht]
  exact h

theorem Writes.check {condition : Label} (h : condition.Unbroken) :
    (Draft.check condition).Clear :=
  .step (by simp [h, checkPhrase])

theorem Writes.fail {e : PlanError} {post : α → Prop} : (Draft.fail e).Writes post := by
  intro first r hr
  cases hr

theorem Writes.ofExcept {x : Except PlanError α} {post : α → Prop} (h : ∀ a, x = .ok a → post a) :
    (Draft.ofExcept x).Writes post := by
  intro first r hr
  cases x with
  | error e => cases hr
  | ok a =>
    cases hr
    exact ⟨by simp, h a rfl⟩

theorem Writes.sequence {ds : List (Draft Label)} (h : ∀ d ∈ ds, d.Clear) :
    (Draft.sequence ds).Writes fun labels => ∀ a ∈ labels, a.Unbroken := by
  induction ds with
  | nil => exact .pure (by simp)
  | cons d ds ih =>
    obtain ⟨hd, hds⟩ := List.forall_mem_cons.mp h
    refine .bind hd fun a ha => .bind (ih hds) fun rest hrest => ?_
    exact .pure (List.forall_mem_cons.mpr ⟨ha, hrest⟩)

def InputUnbroken (input : Option Label) : Prop :=
  ∀ a ∈ input, a.Unbroken

theorem InputUnbroken.some {a : Label} (h : a.Unbroken) : InputUnbroken (some a) := by
  rintro x ⟨⟩
  exact h

theorem unbroken_inputOr {input : Option Label} (h : InputUnbroken input) :
    (inputOr input).Unbroken := by
  cases input with
  | none => simp [inputOr]
  | some a => exact h a rfl

theorem Writes.optional {d : Option (Draft Label)} (h : ∀ x ∈ d, x.Clear) :
    (Draft.optional d).Writes InputUnbroken := by
  cases d with
  | none => exact .pure (by simp [InputUnbroken])
  | some d => exact .bind (h d rfl) fun a ha => .pure (.some ha)

end Draft

/-! ## Clauses -/

open Draft

theorem GroupClauses.All.clear_apply {c : GroupClauses} (h : c.All Clear) {input : Label}
    (hi : input.Unbroken) : (c.apply input).Clear := by
  refine .bind (M := Label.Unbroken) ?_ fun input hi => ?_
  · unfold group
    split
    · exact .pure hi
    · refine .bind (.sequence h.keys) fun keys hk => .step ?_
      simp [hi, Label.Unbroken.enumeration hk]
  · unfold GroupClauses.filter
    split
    · exact .pure hi
    · rename_i condition hc
      exact .bind (h.having condition hc) fun a ha => .step (by simp [hi, ha])

namespace RowClauses

theorem clear_order {keys : List (Draft Label)} (h : ∀ d ∈ keys, d.Clear) {input : Label}
    (hi : input.Unbroken) : (order keys input).Clear := by
  unfold order
  split
  · exact .pure hi
  · exact .bind (.sequence h) fun keys hk => .step (by simp [hi, Label.Unbroken.enumeration hk])

theorem clear_cut {words : String} (hw : '\n' ∉ words.toList) {count : Option (Draft Label)}
    (h : ∀ d ∈ count, d.Clear) {input : Label} (hi : input.Unbroken) :
    (cut words count input).Clear := by
  unfold cut
  split
  · exact .pure hi
  · rename_i count
    exact .bind (h count rfl) fun a ha => .step (by simp [hi, ha, hw])

theorem All.clear_apply {c : RowClauses} (h : c.All Clear) {input : Label}
    (hi : input.Unbroken) : (c.apply input).Clear :=
  .bind (clear_order h.keys hi) fun _ hi => .bind (clear_cut (by simp) h.offset hi) fun _ hi =>
    clear_cut (by simp) h.limit hi

end RowClauses

namespace Draft

theorem clear_unique {distinct : Bool} {input : Label} (h : input.Unbroken) :
    (unique distinct input).Clear := by
  unfold unique
  split
  · exact .step (by simp [h])
  · exact .pure h

theorem writes_filterSingle {condition : Option (Draft Label)} (hc : ∀ d ∈ condition, d.Clear)
    {input : Option Label} (h : InputUnbroken input) :
    (filterSingle condition input).Writes InputUnbroken := by
  unfold filterSingle
  split
  · exact .pure h
  · rename_i condition
    refine .bind (hc condition rfl) fun a ha => .bind (.step ?_) fun result hr => .pure (.some hr)
    simp [unbroken_inputOr h, ha]

theorem writes_arrangeSingle {groups : GroupClauses} {rows : RowClauses} (hg : groups.All Clear)
    (hr : rows.All Clear) {input : Option Label} (h : InputUnbroken input) :
    (arrangeSingle groups rows input).Writes InputUnbroken := by
  unfold arrangeSingle
  split
  · refine .bind (hg.clear_apply (unbroken_inputOr h)) fun a ha => ?_
    exact .bind (hr.clear_apply ha) fun b hb => .pure (.some hb)
  · exact .pure h

theorem clear_createTable {columns : List Label} {input : Option Label}
    (hc : ∀ a ∈ columns, a.Unbroken) (h : InputUnbroken input) :
    (createTable columns input).Clear := by
  unfold createTable
  cases input with
  | none => exact .step (by simp [Label.Unbroken.enumeration hc])
  | some a => exact .step (by simp [Label.Unbroken.enumeration hc, h a rfl])

theorem clear_selectSingle {load condition : Option (Draft Label)} {groups : GroupClauses}
    {rows : RowClauses} {items : List (Draft Label)} {distinct : Bool}
    (hl : ∀ d ∈ load, d.Clear) (hc : ∀ d ∈ condition, d.Clear) (hg : groups.All Clear)
    (hr : rows.All Clear) (hi : ∀ d ∈ items, d.Clear) :
    (selectSingle load condition groups rows items distinct).Clear := by
  refine .bind (.optional hl) fun loaded h1 => ?_
  refine .bind (writes_filterSingle hc h1) fun filtered h2 => ?_
  refine .bind (writes_arrangeSingle hg hr h2) fun arranged h3 => ?_
  refine .bind (.sequence hi) fun columns hcolumns => ?_
  exact .bind (clear_createTable hcolumns h3) fun result h4 => clear_unique h4

theorem clear_filterJoined {condition : Draft Label} (hc : condition.Clear) {input : Label}
    (h : input.Unbroken) : (filterJoined condition input).Clear :=
  .bind hc fun a ha => .step (by simp [h, ha])

theorem writes_filterSources {sources : List Source} {conjuncts : List (Expr × Draft Label)}
    (hc : ∀ c ∈ conjuncts, c.2.Clear) {results : List Label} (h : ∀ a ∈ results, a.Unbroken) :
    (filterSources sources results conjuncts).Writes fun out =>
      (∀ a ∈ out.1, a.Unbroken) ∧ ∀ d ∈ out.2, d.Clear := by
  induction conjuncts generalizing results with
  | nil => exact .pure ⟨h, by simp⟩
  | cons c rest ih =>
    obtain ⟨conjunct, condition⟩ := c
    obtain ⟨hcondition, hrest⟩ := List.forall_mem_cons.mp hc
    unfold filterSources
    split
    · rename_i i _
      have hat : (results[i]?.getD {}).Unbroken := by
        cases hri : results[i]? with
        | none => exact Label.unbroken_nil
        | some a => exact h a (List.mem_of_getElem? hri)
      refine .bind (clear_filterJoined hcondition hat) fun filtered hf => ih hrest fun a ha => ?_
      rcases List.mem_or_eq_of_mem_set ha with ha | rfl
      · exact h a ha
      · exact hf
    · refine .bind (ih hrest h) fun out hout => .pure ⟨hout.1, ?_⟩
      exact List.forall_mem_cons.mpr ⟨hcondition, hout.2⟩

theorem clear_filterAll {conditions : List (Draft Label)} (hc : ∀ d ∈ conditions, d.Clear)
    {input : Label} (h : input.Unbroken) : (filterAll input conditions).Clear := by
  induction conditions generalizing input with
  | nil => exact .pure h
  | cons condition rest ih =>
    obtain ⟨hcondition, hrest⟩ := List.forall_mem_cons.mp hc
    exact .bind (clear_filterJoined hcondition h) fun filtered hf => ih hrest hf

theorem newline_notMem_words (kind : JoinKind) : '\n' ∉ kind.words.toList := by
  cases kind <;> simp [JoinKind.words]

theorem clear_joinAll {joins : List (JoinKind × Label × Draft Label)} {input : Label}
    (hj : ∀ j ∈ joins, j.2.1.Unbroken ∧ j.2.2.Clear) (h : input.Unbroken) :
    (joinAll input joins).Clear := by
  induction joins generalizing input with
  | nil => exact .pure h
  | cons j rest ih =>
    obtain ⟨kind, right, matching⟩ := j
    obtain ⟨⟨hright, hmatching⟩, hrest⟩ := List.forall_mem_cons.mp hj
    refine .bind hmatching fun condition hc => .bind (.step ?_) fun joined hjoined =>
      ih hrest hjoined
    simp_all [newline_notMem_words kind]

theorem writes_retrieveAll {items : List (Draft Label)} (hi : ∀ d ∈ items, d.Clear)
    {input : Label} (h : input.Unbroken) :
    (retrieveAll input items).Writes fun columns => ∀ a ∈ columns, a.Unbroken := by
  induction items with
  | nil => exact .pure (by simp)
  | cons item rest ih =>
    obtain ⟨hitem, hrest⟩ := List.forall_mem_cons.mp hi
    refine .bind hitem fun column hc => .bind (.step (by simp [h, hc])) fun retrieved hr => ?_
    exact .bind (ih hrest) fun columns hcolumns =>
      .pure (List.forall_mem_cons.mpr ⟨hr, hcolumns⟩)

end Draft

/-- The relation is stored under a name without a line break and its condition worded without line
breaks. -/
structure Stage.Clear (s : Stage) : Prop where
  store : ∀ name : Name, '\n' ∉ name.value.toList → (s.store name).Clear
  matching : s.matching.Clear

namespace Draft

theorem clear_joinChain {sources : List Source} {stages : List Stage} {results : List Label}
    (hs : ∀ stage ∈ stages, stage.Clear) (h : ∀ a ∈ results, a.Unbroken) :
    (joinChain sources stages results).Clear := by
  unfold joinChain
  split
  · exact .fail
  · rename_i first others
    obtain ⟨hfirst, hothers⟩ := List.forall_mem_cons.mp h
    refine clear_joinAll (fun j hj => ?_) hfirst
    have hpair := (List.of_mem_zip (a := j.1) (b := j.2) hj).2
    have hmem := List.of_mem_zip (a := j.2.1) (b := j.2.2) hpair
    refine ⟨hothers _ hmem.1, ?_⟩
    obtain ⟨stage, hstage, heq⟩ := List.mem_map.mp hmem.2
    rw [← heq]
    exact (hs stage (List.mem_of_mem_tail hstage)).matching

theorem writes_joinInputs {sources : List Source} {stages : List Stage}
    {conjuncts : List (Expr × Draft Label)} (hs : ∀ stage ∈ stages, stage.Clear)
    (hc : ∀ c ∈ conjuncts, c.2.Clear)
    (hnames : ∀ source ∈ sources, '\n' ∉ source.name.value.toList) :
    (joinInputs sources stages conjuncts).Writes fun out =>
      (∀ a ∈ out.1, a.Unbroken) ∧ ∀ d ∈ out.2, d.Clear := by
  refine .bind (.sequence fun d hd => ?_) fun loaded h => writes_filterSources hc h
  rw [← List.map_uncurry_zip_eq_zipWith] at hd
  obtain ⟨pair, hpair, rfl⟩ := List.mem_map.mp hd
  have hmem := List.of_mem_zip hpair
  exact (hs pair.2 hmem.2).store _ (hnames pair.1 hmem.1)

theorem clear_selectJoin {items : List FromItem} {stages : List Stage}
    {conjuncts : List (Expr × Draft Label)} {groups : GroupClauses} {rows : RowClauses}
    {columns : List (Draft Label)} {distinct : Bool} (hs : ∀ stage ∈ stages, stage.Clear)
    (hnames : ∀ link ∈ Source.links items, ∀ name, link.1.exposedName? = some name →
      '\n' ∉ name.value.toList)
    (hc : ∀ c ∈ conjuncts, c.2.Clear) (hg : groups.All Clear) (hr : rows.All Clear)
    (hi : ∀ d ∈ columns, d.Clear) :
    (selectJoin items stages conjuncts groups rows columns distinct).Clear := by
  refine .bind (M := fun sources => ∀ source ∈ sources, '\n' ∉ source.name.value.toList)
    (.ofExcept fun sources hsources source hmem => ?_) fun sources hsources => ?_
  · have hlink : source.link ∈ Source.links items := by
      rw [← (Source.map_ofItems hsources).1]
      exact List.mem_map_of_mem hmem
    exact hnames _ hlink _ (Source.exposedName?_of_mem_ofItems hsources source hmem)
  refine .bind (writes_joinInputs hs hc hsources) fun out hout => ?_
  refine .bind (clear_joinChain hs hout.1) fun joined hjoined => ?_
  refine .bind (clear_filterAll hout.2 hjoined) fun filtered hfiltered => ?_
  refine .bind (hg.clear_apply hfiltered) fun grouped hgrouped => ?_
  refine .bind (hr.clear_apply hgrouped) fun arranged harranged => ?_
  refine .bind (writes_retrieveAll hi harranged) fun retrieved hretrieved => ?_
  refine .bind (.step ?_) fun result hresult => clear_unique hresult
  simp [Label.Unbroken.enumeration hretrieved]

theorem clear_combine {op : SetOperator} {all : Bool} {left right : Label} (hl : left.Unbroken)
    (hr : right.Unbroken) : (combine op all left right).Clear := by
  cases op <;> cases all <;> exact .step (by simp [hl, hr])

end Draft

/-! ## Expressions and queries -/

namespace Sql

variable (s : Settings)

theorem newline_notMem_op (op : BinaryOp) : '\n' ∉ op.words.toList := by
  cases op <;> simp [BinaryOp.words]

theorem newline_notMem_like (negated ignoreCase : Bool) :
    '\n' ∉ (likeWords negated ignoreCase).toList := by
  cases negated <;> cases ignoreCase <;> simp [likeWords]

theorem clear_equalityLabel {left right : Draft Label} (hl : left.Clear) (hr : right.Clear) :
    (equalityLabel left right).Clear :=
  .bind hl fun a ha => .bind hr fun b hb => .pure (by simp [ha, hb])

theorem clear_stage {link : Source.Link}
    (hd : ∀ query aliasName, link.1 = .derived query aliasName → (query.draft s).Clear)
    (hm : ∀ e, link.2.2 = .on e → ∀ c ∈ e.conjuncts, ∀ l op r, c.withoutParens = .binary l op r →
      (l.draft s .kept).Clear ∧ (r.draft s .kept).Clear)
    (hp : ∀ piece ∈ link.1.pieces, piece.Unbroken) :
    Stage.Clear ⟨link.1.store s, link.2.2.draft s⟩ := by
  obtain ⟨relation, kind, constraint⟩ := link
  constructor
  · intro name hname
    have hshown := Settings.unbroken_nameText (s := s) hname
    cases relation with
    | table path aliasName =>
      have hpath := Settings.unbroken_tableText (s := s) fun n hn =>
        hp (.name n) (List.mem_append_left _ (List.mem_map_of_mem hn))
      exact .step (by simp [hshown, hpath])
    | derived query aliasName =>
      exact .bind (hd query aliasName rfl) fun rows hrows => .step (by simp [hrows, hshown])
  · cases constraint with
    | unconstrained => exact .pure (by simp)
    | shared columns => exact .fail
    | natural => exact .fail
    | on e =>
      have hsides : ∀ d ∈ e.equalityDrafts s, d.Clear := by
        refine e.forall_equalityDrafts s (fun c hc l r hb => ?_) fun _ => .fail
        have hboth := hm e rfl c hc l .eq r hb
        exact clear_equalityLabel hboth.1 hboth.2
      exact .bind (.sequence hsides) fun labels hl =>
        .pure (by simp [Label.Unbroken.enumeration hl])

theorem clear_rows {q : Query} (h : q.RowParts fun e => ∀ qs, (e.draft s qs).Clear)
    (qs : Qualifiers) : RowClauses.All Clear
      ⟨draftsOfOrder s qs q.orderBy, draftOfOption s qs q.offset, draftOfOption s qs q.limit⟩ := by
  refine all_rowClauses s h (fun key descending qs hkey => .bind hkey fun a ha => .pure ?_) qs
  cases descending <;> simp [ha]

theorem clear_item {item : SelectItem}
    (h : ∀ value aliasName, item = .expr value aliasName → (value.draft s .kept).Clear)
    (hp : ∀ piece ∈ item.pieces, piece.Unbroken) : (item.draft s).Clear := by
  cases item with
  | all => exact .pure (by simp)
  | allOf table =>
    have hname := hp (.name table) (by simp [SelectItem.pieces])
    have htable := Settings.unbroken_nameText (s := s) hname
    exact .pure (by simp [htable])
  | expr value aliasName =>
    exact .bind (h value aliasName rfl) fun a ha =>
      .pure (Settings.unbroken_withAlias ha (List.forall_mem_append.mp hp).2)

theorem clear_load {relation : Relation}
    (h : ∀ query aliasName, relation = .derived query aliasName → (query.draft s).Clear)
    (hp : ∀ piece ∈ relation.pieces, piece.Unbroken) : (relation.load s).Clear := by
  cases relation with
  | table path aliasName =>
    have htable := Settings.unbroken_tableText (s := s) fun n hn =>
      hp (.name n) (List.mem_append_left _ (List.mem_map_of_mem hn))
    exact .step (Settings.unbroken_withAlias (by simp [htable]) (List.forall_mem_append.mp hp).2)
  | derived query aliasName =>
    exact .bind (h query aliasName rfl) fun a ha =>
      .pure (Settings.unbroken_withAlias ha (List.forall_mem_append.mp hp).2)

theorem clear_select {b : Select}
    (h : b.Parts (fun e => ∀ qs, (e.draft s qs).Clear) fun q => (q.draft s).Clear)
    (hp : ∀ piece ∈ b.pieces, piece.Unbroken) {rows : Qualifiers → RowClauses}
    (hr : ∀ q, (rows q).All Clear) : (b.draft s rows).Clear := by
  have hitems : ∀ d ∈ b.projection.map (SelectItem.draft s), d.Clear :=
    List.forall_mem_map.mpr fun item hi =>
      clear_item s (fun value aliasName hv => h.items value aliasName (hv ▸ hi) .kept)
        fun piece hmem => hp piece (Select.pieces_of_item hi hmem)
  have hrelation {link : Source.Link} (hl : link ∈ Source.links b.sources) :
      ∀ piece ∈ link.1.pieces, piece.Unbroken :=
    fun piece hmem => hp piece ((Select.pieces_of_link hl).1 hmem)
  rw [Select.draft_eq]
  split
  · refine clear_selectJoin (List.forall_mem_map.mpr fun link hl => ?_)
      (fun link hl name hname => ?_)
      (List.forall_mem_map.mpr fun e he => h.conjuncts e he .kept) (all_groupClauses s h .dropped)
      (hr .dropped) hitems
    · refine clear_stage s (h.derived link hl) (fun e he c hc l op r hb => ?_) (hrelation hl)
      have hsides := h.matching link hl e he c hc l op r hb
      exact ⟨hsides.1 .kept, hsides.2 .kept⟩
    · exact hrelation hl (.name name) (Relation.name_mem_pieces hname)
  · refine clear_selectSingle (fun d hd => ?_) (fun d hd => ?_) (all_groupClauses s h .kept)
      (hr .kept) hitems
    · obtain ⟨link, hl, rfl⟩ := Option.map_eq_some_iff.mp hd
      have hmem := List.mem_of_mem_head? hl
      exact clear_load s (h.derived link hmem) (hrelation hmem)
    · obtain ⟨e, he, rfl⟩ := Option.map_eq_some_iff.mp hd
      exact (h.condition e he).1 .kept

/-- Queries whose names and constants have no line breaks are translated without line breaks. -/
theorem hereditary_clear :
    Hereditary (fun e => (∀ piece ∈ e.pieces, piece.Unbroken) → ∀ qs, (e.draft s qs).Clear)
      fun q => q.Unbroken → (q.draft s).Clear where
  column c h q := by
    have hcolumn : ∀ piece ∈ (q.column c).pieces, piece.Unbroken := by
      cases q with
      | kept => exact h
      | dropped =>
        refine List.forall_mem_cons.mpr ⟨h _ (List.mem_cons_self ..), ?_⟩
        simp [Qualifiers.column, Column.bare]
    exact .pure (Label.unbroken_text.mpr (Settings.unbroken_columnText hcolumn))
  literal v h q :=
    .pure (Label.unbroken_text.mpr (unbroken_literal (h _ (List.mem_singleton_self _))))
  binary l op r hl hr h q := by
    obtain ⟨hleft, hright⟩ := List.forall_mem_append.mp h
    refine .bind (hl hleft q) fun a ha => .bind (hr hright q) fun b hb => ?_
    have hphrase : ((a.before op.words) ++ b).Unbroken := by simp [ha, hb, newline_notMem_op op]
    dsimp only
    split
    · exact .pure hphrase
    · exact .check hphrase
  unary op e he h q := by
    refine .bind (he h q) fun a ha => ?_
    cases op with
    | not => exact .check (by simp [ha])
    | neg => exact .pure (ha.signed (by simp))
    | plus => exact .pure ha
  isValue e v negated he h q := by
    obtain ⟨hv, hpieces⟩ := List.forall_mem_cons.mp h
    refine .bind (he hpieces q) fun a ha => .check ?_
    cases negated <;> simp [ha, unbroken_literal hv]
  between e low high negated he hlow hhigh h q := by
    obtain ⟨h1, hbounds⟩ := List.forall_mem_append.mp h
    obtain ⟨h2, h3⟩ := List.forall_mem_append.mp hbounds
    refine .bind (he h1 q) fun a ha => .bind (hlow h2 q) fun b hb => ?_
    refine .bind (hhigh h3 q) fun c hc => .check ?_
    cases negated <;> simp [ha, hb, hc]
  inList e items negated he hi h q := by
    obtain ⟨h1, h2⟩ := List.forall_mem_append.mp h
    rw [piecesOfExprs_eq, List.forall_mem_flatMap] at h2
    have hs := forall_draftsOfExprs s fun i him => hi i him (h2 i him) q
    refine .bind (he h1 q) fun a ha => .bind (.sequence hs) fun labels hl => .check ?_
    cases negated <;> simp [ha, Label.Unbroken.commaList hl]
  inQuery e query negated he hq h q := by
    obtain ⟨h1, h2⟩ := List.forall_mem_append.mp h
    refine .bind (he h1 q) fun a ha => .bind (hq h2) fun rows hr => .check ?_
    cases negated <;> simp [ha, hr]
  existsQuery query negated hq h q := by
    refine .bind (hq h) fun rows hr => .check ?_
    cases negated <;> simp [hr]
  subquery query hq h q := hq h
  like e pattern negated ignoreCase he hp h q := by
    obtain ⟨h1, h2⟩ := List.forall_mem_append.mp h
    refine .bind (he h1 q) fun a ha => .bind (hp h2 q) fun b hb => .check ?_
    simp [ha, hb, newline_notMem_like]
  call f args distinct ha h q := by
    unfold Expr.draft
    split
    · exact .pure (by simp)
    · split
      · exact .fail
      · rename_i phrase hphrase
        have hargs : ∀ a ∈ args, ∀ piece ∈ a.pieces, piece.Unbroken := by
          rwa [Expr.pieces, piecesOfExprs_eq, List.forall_mem_flatMap] at h
        have hs := forall_draftsOfExprs s fun a ham => ha a ham (hargs a ham) q
        exact .bind (.sequence hs) fun labels hl => .pure (.call hphrase hl)
  nested e he h q := by
    refine .bind (he h q) fun a ha => .pure ?_
    split
    · exact Label.unbroken_parenthesized.mpr ha
    · exact ha
  wildcard _ q := .fail
  select block orderBy limit offset hb hr h := by
    have hblock : ∀ piece ∈ block.pieces, piece.Unbroken := (List.forall_mem_append.mp h).1
    exact clear_select s (hb.of_pieces hblock) hblock (clear_rows s (hr.of_pieces h))
  setOperation op all l r orderBy limit offset hl hr hrows h := by
    obtain ⟨h1, h2⟩ := List.forall_mem_append.mp (List.forall_mem_append.mp h).1
    refine .bind (hl h1) fun a ha => .bind (hr h2) fun b hb => ?_
    exact .bind (clear_combine ha hb) fun c hc =>
      (clear_rows s (hrows.of_pieces h) .kept).clear_apply hc

end Sql

end QuerySteps
