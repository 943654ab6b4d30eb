import QuerySteps.Proofs.Readability.Filter
import QuerySteps.Proofs.Readability.Lists

/-!
# Columns and keys

The SELECT list and GROUP BY of a SELECT over at most one relation are lists of one step each
(`Select.listDraft`). If their items are columns, constants and conditions with legible texts, then
lists of different lengths make different plans. The exception is a conjunction alone: its step has
no list, so its condition is not set off and reads as a list of two.
-/

namespace QuerySteps

open Sql QuerySteps.Part Mark Draft

namespace Sql

def Expr.isAtom (e : Expr) : Bool :=
  match e.withoutParens with
  | .column _ | .literal _ => true
  | _ => false

/-- An expression in a list, with the alias that a column may have. -/
structure Listed where
  value : Expr
  aliasName : Option Name := none

/-- The expression is a column, a constant or a condition, and its texts are legible. -/
structure Listed.Readable (s : Settings) (i : Listed) : Prop where
  kind : i.value.isAtom = true ∨ i.value.isBoolean = true
  legible : i.value.IsLegible s
  aliasLegible : ∀ n ∈ i.aliasName, Legible (s.aliasText n)

def Select.HasLegibleAliases (s : Settings) (b : Select) : Prop :=
  ∀ r ∈ b.relations, ∀ n ∈ r.alias?, Legible (s.aliasText n)

/-- The list is a conjunction alone, which is shown like the list of its two sides. -/
def IsConjunctionAlone (items : List Listed) : Prop :=
  items.map (fun i => i.value.isConjunction) = [true]

instance (items : List Listed) : Decidable (IsConjunctionAlone items) :=
  inferInstanceAs (Decidable (items.map _ = [true]))

/-- The clauses that list expressions in a single step. -/
inductive ListClause where
  | columns | keys
  deriving DecidableEq

/-- The query with these expressions in the clause, if it is a SELECT. Keys show no aliases. -/
def Query.listing (q : Query) (clause : ListClause) (items : List Listed) : Query :=
  match q.body, clause with
  | .select b, .columns =>
    let projection := items.map fun i => .expr i.value i.aliasName
    { q with body := .select { b with projection } }
  | .select b, .keys => { q with body := .select { b with groupBy := items.map (·.value) } }
  | .setOperation .., _ => q

namespace Expr

variable {s : Settings} {c : Conditions} {e : Expr}

theorem says_isItem_of_isAtom (h : e.isAtom = true) (hlegible : e.IsLegible s)
    (conjunction : Bool) :
    (e.draft s .kept).Says c fun a => a.IsItem c conjunction := by
  unfold isAtom at h
  fun_induction withoutParens e with
  | case1 e ih =>
    have harithmetic : e.isArithmetic = false := by
      cases e with
      | binary l op r => cases h
      | _ => rfl
    rw [draft_nested harithmetic]
    exact ih h hlegible
  | case2 e hne =>
    cases e with
    | column column => exact .pure (Label.isItem_text hlegible)
    | literal v => exact .pure (Label.isItem_text hlegible)
    | _ => cases h

theorem says_isItem (h : e.isAtom = true ∨ e.isBoolean = true) (hlegible : e.IsLegible s) :
    (e.draft s .kept).Says c fun a => a.IsItem c e.isConjunction := by
  rcases h with hatom | hboolean
  · exact says_isItem_of_isAtom hatom hlegible _
  · exact .imp ((hereditary_labelled s c).expr e hlegible) fun _ ha => (ha.2 hboolean).isItem

end Expr

def Listed.draft (s : Settings) (i : Listed) : ListClause → Draft Label
  | .columns => SelectItem.draft s (.expr i.value i.aliasName)
  | .keys => i.value.draft s .kept

theorem hasKinds_listed {s : Settings} {items : List Listed} (h : ∀ i ∈ items, i.Readable s)
    (clause : ListClause) :
    ListDraft.HasKinds (items.map fun i => i.draft s clause)
      (items.map fun i => i.value.isConjunction) := by
  intro c
  rw [List.forall₂_map_left_iff, List.forall₂_map_right_iff, List.forall₂_same]
  intro i hi
  have hvalue := Expr.says_isItem (c := c) (h i hi).kind (h i hi).legible
  cases clause with
  | columns => exact .bind hvalue fun a ha => .pure (ha.withAlias s (h i hi).aliasLegible)
  | keys => exact hvalue

variable (s : Settings) (q : Query) (b : Select)

/-- The rows of the relation that satisfy WHERE. -/
def Select.filtered : Draft (Option Label) := do
  let input ← (Query.ofSelect b).load s
  filterSingle (b.condition.map (Expr.draft s .kept)) input

/-- What comes after the table of the output columns. -/
def Select.written (result : Label) : Draft Label := do
  let rows ← unique b.distinct result
  Planner.write s rows

/-- What comes after the rows that the output columns are taken from. -/
def Select.tabled (input : Option Label) : Draft Label := do
  let columns ← Draft.sequence (b.projection.map (SelectItem.draft s))
  let result ← createTable columns input
  b.written s result

/-- The draft of the query around the list of a clause. -/
def Select.listDraft : ListClause → ListDraft (Option Label)
  | .columns =>
    { front := do
        let input ← b.filtered s
        arrangeSingle ⟨draftsOfExprs s .kept b.groupBy, draftOfOption s .kept b.having⟩
          (q.rowClauses s) input
      before := fun _ => [.text "Create table with columns"]
      after := fun input => input.elim [] fun rows => .text "from" :: rows.parts
      rest := b.written s }
  | .keys =>
    { front := b.filtered s
      before := fun input => .text "Group rows from" :: ((inputOr input).parts ++ [.text "using"])
      after := fun _ => []
      rest := fun grouped => do
        let input ← GroupClauses.filter (draftOfOption s .kept b.having) grouped
        let input ← (q.rowClauses s).apply input
        b.tabled s (some input) }

theorem Planner.draft_select (hb : q.body = .select b) (hone : b.relations.length ≤ 1) :
    Planner.draft s q = (do
      let input ← b.filtered s
      let input ← arrangeSingle ⟨draftsOfExprs s .kept b.groupBy, draftOfOption s .kept b.having⟩
        (q.rowClauses s) input
      b.tabled s input) := by
  have hload : q.load s = (Query.ofSelect b).load s := by simp only [Query.load, hb, Query.ofSelect]
  unfold Planner.draft
  rw [Query.draft_single s hb hone, hload]
  simp only [Select.filtered, Select.tabled, Select.written, bind_assoc]

theorem createTable_eq (columns : List Label) (input : Option Label) :
    createTable columns input = Draft.step ⟨[.text "Create table with columns"] ++
      ((Label.enumeration columns).parts ++
        input.elim [] fun rows => .text "from" :: rows.parts)⟩ := by
  cases input with
  | none => exact congrArg (fun parts => Draft.step ⟨parts⟩) (by simp [Label.text])
  | some rows =>
    exact congrArg (fun parts => Draft.step ⟨parts⟩) (by simp [Label.text, Label.before])

theorem groupStep_eq (keys : List Label) (input : Label) :
    Draft.step ((Label.text "Group rows from" ++ input).before "using" ++ Label.enumeration keys) =
      Draft.step ⟨.text "Group rows from" :: (input.parts ++ [.text "using"]) ++
        ((Label.enumeration keys).parts ++ [])⟩ :=
  congrArg (fun parts => Draft.step ⟨parts⟩) (by simp [Label.text, Label.before])

theorem draft_listing_columns (hb : q.body = .select b) (hone : b.relations.length ≤ 1)
    (items : List Listed) : Planner.draft s (q.listing .columns items) =
      (b.listDraft s q .columns).draft (items.map fun i => i.draft s .columns) := by
  let listed : Select := { b with projection := items.map fun i => .expr i.value i.aliasName }
  have hlisting : q.listing .columns items = { q with body := .select listed } := by
    simp only [Query.listing, hb, listed]
  rw [hlisting, Planner.draft_select s _ listed rfl hone]
  simp only [ListDraft.draft, Select.listDraft, Select.tabled, createTable_eq, bind_assoc,
    List.map_map, listed]
  rfl

theorem draft_listing_keys (hb : q.body = .select b) (hone : b.relations.length ≤ 1)
    {items : List Listed} (hne : items ≠ []) : Planner.draft s (q.listing .keys items) =
      (b.listDraft s q .keys).draft (items.map fun i => i.draft s .keys) := by
  let listed : Select := { b with groupBy := items.map (·.value) }
  have hlisting : q.listing .keys items = { q with body := .select listed } := by
    simp only [Query.listing, hb, listed]
  have hpresent : items.isEmpty = false := by simpa using hne
  rw [hlisting, Planner.draft_select s _ listed rfl hone]
  simp only [ListDraft.draft, Select.listDraft, arrangeSingle, GroupClauses.present,
    GroupClauses.apply, GroupClauses.group, groupStep_eq, draftsOfExprs_eq_map, List.isEmpty_map,
    hpresent, Bool.not_false, Bool.true_or, if_true, Bool.false_eq_true, if_false, bind_assoc,
    pure_bind, List.map_map, listed]
  rfl

theorem draft_listing_nil (hb : q.body = .select b) (hone : b.relations.length ≤ 1) :
    Planner.draft s (q.listing .keys []) = (do
      let input ← b.filtered s
      let input ← arrangeSingle ⟨[], draftOfOption s .kept b.having⟩ (q.rowClauses s) input
      b.tabled s input) := by
  have hlisting : q.listing .keys [] = { q with body := .select { b with groupBy := [] } } := by
    simp only [Query.listing, hb, List.map_nil]
  rw [hlisting, Planner.draft_select s _ { b with groupBy := [] } rfl hone]
  rfl

end Sql

/-! ## What stands around a list -/

/-- The label of the rows that a clause works on: quiet, with its quotes and parentheses closed. -/
structure Conditions.Supplies (c : Conditions) (a : Label) : Prop where
  quiet : c.Quiet a
  outlined : ∃ outline, Outlined a.parts outline

theorem Conditions.Names.supplies {c : Conditions} {a : Label} (h : c.Names a) : c.Supplies a := by
  refine ⟨h.quiet, ?_⟩
  obtain ⟨id, rfl, -⟩ := h
  exact ⟨_, .ref id⟩

theorem Conditions.Supplies.withAlias {c : Conditions} {s : Settings} {a : Label}
    (h : c.Supplies a) {aliasName : Option Name}
    (halias : ∀ n ∈ aliasName, Legible (s.aliasText n)) : c.Supplies (s.withAlias a aliasName) := by
  refine ⟨h.quiet.withAlias s aliasName, ?_⟩
  obtain ⟨outline, houtline⟩ := h.outlined
  cases aliasName with
  | none => exact ⟨_, houtline⟩
  | some n =>
    obtain ⟨hclosed, hdepth, -⟩ := halias n rfl
    exact ⟨_, houtline.append (.text hclosed hdepth)⟩

theorem Conditions.supplies_inputOr {c : Conditions} {input : Option Label}
    (h : ∀ a ∈ input, c.Supplies a) : c.Supplies (inputOr input) := by
  cases input with
  | none => exact ⟨⟨by simp [inputOr], rfl⟩, _, .text (by decide) (by decide)⟩
  | some a => exact h a rfl

namespace Sql

variable {s : Settings} {q : Query} {b : Select} {c : Conditions}

theorem Select.says_filtered (h : b.HasLegibleAliases s) :
    (b.filtered s).Says c fun input => ∀ a ∈ input, c.Supplies a := by
  have hload : ∀ d ∈ (Source.links b.sources).head?.map fun link => link.1.load s,
      d.Says c c.Supplies := by
    intro d hd
    obtain ⟨link, hlink, rfl⟩ := Option.map_eq_some_iff.mp hd
    have hrelation : link.1 ∈ b.relations := by
      rw [Select.relations, ← Source.map_links_fst]
      exact List.mem_map_of_mem (List.mem_of_mem_head? hlink)
    refine says_load s fun a ha n hn => ha.supplies.withAlias fun n' hn' => ?_
    rcases hn with rfl | rfl
    · cases hn'
    · exact h link.1 hrelation n' hn'
  refine .bind (.optional hload) fun input hinput => ?_
  unfold filterSingle
  split
  · exact .pure hinput
  · refine .last fun condition => .bind (.step ⟨_, _, rfl, by decide⟩) fun result hresult => ?_
    refine .pure ?_
    rintro a ⟨⟩
    exact hresult.supplies

theorem says_arrangeSingle (groups : GroupClauses) (rows : RowClauses) {input : Option Label}
    (h : ∀ a ∈ input, c.Supplies a) :
    (arrangeSingle groups rows input).Says c fun input => ∀ a ∈ input, c.Supplies a := by
  have hsteps : ∀ a, c.Names a → c.Supplies a := fun a ha => ha.supplies
  unfold arrangeSingle
  split
  · refine .bind (says_groups hsteps groups (Conditions.supplies_inputOr h)) fun input hinput => ?_
    refine .bind (says_rows hsteps rows hinput) fun input hinput => .pure ?_
    rintro a ⟨⟩
    exact hinput
  · exact .pure h

theorem frame_columns {input : Option Label} (h : ∀ a ∈ input, c.Supplies a) :
    c.Frame [.text "Create table with columns"]
      (input.elim [] fun rows => .text "from" :: rows.parts) := by
  have hbefore : Outlined [.text "Create table with columns"] _ := .text (by decide) (by decide)
  cases input with
  | none => exact ⟨⟨_, _, rfl, by decide⟩, by simp, rfl, ⟨_, hbefore⟩, _, .nil⟩
  | some rows =>
    obtain ⟨⟨hrefs, hlist⟩, outline, houtline⟩ := h rows rfl
    have hfrom : Outlined [.text "from"] _ := .text (by decide) (by decide)
    refine ⟨⟨_, _, rfl, by decide⟩, by simpa [Label.refs] using hrefs, ?_, ⟨_, hbefore⟩, _,
      hfrom.append houtline⟩
    simp only [haveList] at hlist
    simp [haveList, hlist]

theorem frame_keys {input : Label} (h : c.Supplies input) :
    c.Frame (.text "Group rows from" :: (input.parts ++ [.text "using"])) [] := by
  obtain ⟨⟨hrefs, hlist⟩, outline, houtline⟩ := h
  have hbefore : Outlined [.text "Group rows from"] _ := .text (by decide) (by decide)
  have husing : Outlined [.text "using"] _ := .text (by decide) (by decide)
  refine ⟨⟨_, _, rfl, by decide⟩, by simpa [Label.refs] using hrefs, ?_,
    ⟨_, hbefore.append (houtline.append husing)⟩, _, .nil⟩
  simp only [haveList] at hlist
  simp [haveList, hlist]

/-! ## What follows a list -/

theorem Select.alike_written (result result' : Label) :
    Alike True (b.written s result) (b.written s result') :=
  .before .unique fun rows rows' _ => Planner.alike_write s s rows rows'

theorem Select.alike_tabled (input input' : Option Label) :
    Alike (∀ i ∈ b.projection, i.supported = true) (b.tabled s input) (b.tabled s input') := by
  refine .andThen (.sequence fun i hi => ?_) fun columns columns' _ =>
    .before .createTable fun result result' _ => alike_written result result'
  exact alike_item s s fun value aliasName hv => hereditary_settled.expr value

theorem Query.alike_rowClauses (q : Query) : ∃ R, AlikeRows R (q.rowClauses s) (q.rowClauses s) :=
  ⟨_, alike_rows s s ⟨fun i _ => hereditary_settled.expr i.key,
    fun e _ => hereditary_settled.expr e, fun e _ => hereditary_settled.expr e⟩ .kept .kept⟩

theorem Select.alike_grouped (q : Query) (b : Select) :
    ∃ P, ∀ a a', Alike P ((b.listDraft s q .keys).rest a) ((b.listDraft s q .keys).rest a') := by
  obtain ⟨R, hrows⟩ := q.alike_rowClauses (s := s)
  refine ⟨(∀ e ∈ b.having, e.supported = true) ∧ R ∧ ∀ i ∈ b.projection, i.supported = true,
    fun a a' => ?_⟩
  have hfilter : Alike (∀ e ∈ b.having, e.supported = true)
      (GroupClauses.filter (draftOfOption s .kept b.having) a)
      (GroupClauses.filter (draftOfOption s .kept b.having) a') := by
    rw [draftOfOption_eq_map]
    exact .filterGroups fun e _ => hereditary_settled.expr e s s .kept .kept
  exact .bind hfilter fun a a' _ => .bind (hrows.apply a a') fun a a' _ => alike_tabled _ _

theorem Select.sound_listDraft (h : b.HasLegibleAliases s) (q : Query) (clause : ListClause) :
    (b.listDraft s q clause).Sound := by
  cases clause with
  | columns =>
    refine ⟨fun c => ?_, _, alike_written⟩
    refine .bind (says_filtered h) fun input hinput => ?_
    exact .imp (says_arrangeSingle _ _ hinput) fun input => frame_columns
  | keys =>
    refine ⟨fun c => .imp (says_filtered h) fun input hinput => ?_, alike_grouped q b⟩
    exact frame_keys (Conditions.supplies_inputOr hinput)

theorem apply_of_absent {rows : RowClauses} (h : rows.present = false) (input : Label) :
    rows.apply input = pure input := by
  obtain ⟨keys, offset, limit⟩ := rows
  simp only [RowClauses.present, Bool.or_eq_false_iff, Bool.not_eq_false', List.isEmpty_iff,
    Option.isSome_eq_false_iff, Option.isNone_iff_eq_none] at h
  obtain ⟨⟨rfl, rfl⟩, rfl⟩ := h
  rfl

/-- Without keys the clauses after GROUP BY add the same steps as with keys. -/
theorem Select.alike_ungrouped (q : Query) (b : Select) :
    ∃ P, ∀ (input : Option Label) grouped, Alike P
      (do
        let input ← arrangeSingle ⟨[], draftOfOption s .kept b.having⟩ (q.rowClauses s) input
        b.tabled s input)
      ((b.listDraft s q .keys).rest grouped) := by
  simp only [arrangeSingle]
  split
  · obtain ⟨P, hP⟩ := alike_grouped (s := s) q b
    refine ⟨P, fun input grouped => ?_⟩
    simp only [GroupClauses.apply, GroupClauses.group, List.isEmpty_nil, if_true, bind_assoc,
      pure_bind]
    exact hP (inputOr input) grouped
  · rename_i habsent
    rw [Bool.not_eq_true, Bool.or_eq_false_iff] at habsent
    have hhaving : draftOfOption s .kept b.having = none := by
      simpa [GroupClauses.present] using habsent.1
    refine ⟨∀ i ∈ b.projection, i.supported = true, fun input grouped => ?_⟩
    simp only [Select.listDraft, hhaving, GroupClauses.filter, apply_of_absent habsent.2,
      pure_bind]
    exact alike_tabled _ _

end Sql

/-! ## Lists of different lengths -/

namespace Planner

open Sql

variable {s : Settings} {q : Query} {b : Select} {sheet sheet' : Sheet}

theorem length_lt_of_keys (hs : s.simplify = true) (hb : q.body = .select b)
    (hone : b.relations.length ≤ 1) {items : List Listed} (hne : items ≠ [])
    (h : Planner.planQuery { settings := s } (q.listing .keys []) = .ok sheet)
    (h' : Planner.planQuery { settings := s } (q.listing .keys items) = .ok sheet') :
    sheet.plan.length < sheet'.plan.length := by
  obtain ⟨r, hdraft, rfl, -, hr⟩ := exists_draft h
  obtain ⟨r', hdraft', rfl, -, hr'⟩ := exists_draft h'
  refine length_finish_lt hs hr hr' ?_
  rw [draft_listing_nil s q b hb hone] at hdraft
  rw [draft_listing_keys s q b hb hone hne] at hdraft'
  obtain ⟨input, hinput, last, hlast, rfl⟩ := bind_eq_ok.mp hdraft
  obtain ⟨input', hinput', grouped, hgrouped, rfl⟩ := bind_eq_ok.mp hdraft'
  obtain rfl : input = input' := Except.ok.inj (hinput.symm.trans hinput')
  obtain ⟨labels, -, result, hresult, rfl⟩ := bind_eq_ok.mp hgrouped
  obtain ⟨step, hstep, last', hlast', rfl⟩ := bind_eq_ok.mp hresult
  cases hstep
  obtain ⟨P, hP⟩ := Select.alike_ungrouped (s := s) q b
  have hcount := (hP input.value _).length_filter_not_isCheck hlast hlast'
  have hcheck : Step.isCheck ⟨labels.next, (b.listDraft s q .keys).before input.value ++
      ((Label.enumeration labels.value).parts ++ (b.listDraft s q .keys).after input.value)⟩ =
        false := rfl
  simp only [List.filter_append, List.length_append, hcount, List.filter_cons, hcheck,
    Bool.not_false, if_true, List.filter_nil, List.length_cons, List.length_nil]
  omega

end Planner

open Sql

/-- Lists of different lengths in the same clause of a SELECT over at most one relation make plans
that differ as texts, but for a conjunction alone and a list of two. -/
theorem lines_ne_of_length_ne {s : Settings} (hs : s.simplify = true) {q : Query} {b : Select}
    (hb : q.body = .select b) (hone : b.relations.length ≤ 1) (halias : b.HasLegibleAliases s)
    (clause : ListClause) {items items' : List Listed} (h : ∀ i ∈ items, i.Readable s)
    (h' : ∀ i ∈ items', i.Readable s) (hne : items.length ≠ items'.length)
    (hpair : IsConjunctionAlone items → items'.length ≠ 2)
    (hpair' : IsConjunctionAlone items' → items.length ≠ 2) {sheet sheet' : Sheet}
    (hplan : Planner.planQuery { settings := s } (q.listing clause items) = .ok sheet)
    (hplan' : Planner.planQuery { settings := s } (q.listing clause items') = .ok sheet')
    (offset : Nat) : ∃ lines lines', sheet.plan.lines offset = .ok lines ∧
      sheet'.plan.lines offset = .ok lines' ∧ lines ≠ lines' := by
  have hlists (hitems : Planner.draft s (q.listing clause items) =
      (b.listDraft s q clause).draft (items.map fun i => i.draft s clause))
      (hitems' : Planner.draft s (q.listing clause items') =
        (b.listDraft s q clause).draft (items'.map fun i => i.draft s clause)) := by
    refine ListDraft.lines_ne hs (Select.sound_listDraft halias q clause) (hasKinds_listed h clause)
      (hasKinds_listed h' clause) hitems hitems' ?_ ?_ ?_ hplan hplan' offset
    · simpa using hne
    · rw [List.length_map]
      exact hpair
    · rw [List.length_map]
      exact hpair'
  cases clause with
  | columns =>
    exact hlists (draft_listing_columns s q b hb hone items)
      (draft_listing_columns s q b hb hone items')
  | keys =>
    obtain ⟨-, -, -, hordered, -⟩ := Planner.exists_draft hplan
    obtain ⟨-, -, -, hordered', -⟩ := Planner.exists_draft hplan'
    by_cases hnil : items = []
    · subst hnil
      have hsome : items' ≠ [] := fun hnil' => hne (hnil' ▸ rfl)
      have hlt := Planner.length_lt_of_keys hs hb hone hsome hplan hplan'
      exact hordered.lines_ne_of_lengths hordered' (Nat.ne_of_lt hlt) offset
    by_cases hnil' : items' = []
    · subst hnil'
      have hlt := Planner.length_lt_of_keys hs hb hone hnil hplan' hplan
      exact hordered.lines_ne_of_lengths hordered' (Nat.ne_of_gt hlt) offset
    exact hlists (draft_listing_keys s q b hb hone hnil) (draft_listing_keys s q b hb hone hnil')

def columnPair : List Listed :=
  [{ value := bareColumn "a" }, { value := bareColumn "b" }]

/-- `a AND b` or another condition on the two columns, as the only item. -/
def connected (op : BinaryOp) : List Listed :=
  [{ value := .binary (bareColumn "a") op (bareColumn "b") }]

theorem legible_bareColumn {name : String}
    (h : Legible (({} : Settings).columnText { name := ⟨name, false⟩ })) :
    (bareColumn name).IsLegible {} := h

theorem readable_columnPair : ∀ i ∈ columnPair, i.Readable {} := by
  have hitem {name : String} (h : (bareColumn name).IsLegible {}) :
      Listed.Readable {} { value := bareColumn name } := ⟨.inl rfl, h, by simp⟩
  simp only [columnPair, List.forall_mem_cons, List.not_mem_nil, false_implies, implies_true,
    and_true]
  exact ⟨hitem (legible_bareColumn (by decide)), hitem (legible_bareColumn (by decide))⟩

theorem readable_connected {op : BinaryOp} (h : op.isPredicate = true) :
    ∀ i ∈ connected op, i.Readable {} := by
  simp only [connected, List.forall_mem_cons, List.not_mem_nil, false_implies, implies_true,
    and_true]
  exact ⟨.inr h, ⟨legible_bareColumn (by decide), legible_bareColumn (by decide)⟩, by simp⟩

/-- `SELECT a OR b FROM t` and `SELECT a, b FROM t`. -/
theorem lines_ne_of_length_ne_alternative :
    ∃ sheet sheet',
      Planner.planQuery {} (wholeTable.listing .columns (connected .or)) = .ok sheet ∧
      Planner.planQuery {} (wholeTable.listing .columns columnPair) = .ok sheet' ∧
      ∃ lines lines', sheet.plan.lines 0 = .ok lines ∧ sheet'.plan.lines 0 = .ok lines' ∧
        lines ≠ lines' := by
  obtain ⟨sheet, hsheet⟩ : ∃ sheet,
      Planner.planQuery {} (wholeTable.listing .columns (connected .or)) = .ok sheet :=
    Planner.exists_plan_iff.mpr (by decide)
  obtain ⟨sheet', hsheet'⟩ : ∃ sheet,
      Planner.planQuery {} (wholeTable.listing .columns columnPair) = .ok sheet :=
    Planner.exists_plan_iff.mpr (by decide)
  obtain ⟨b, hb, hone, halias⟩ : ∃ b, wholeTable.body = .select b ∧ b.relations.length ≤ 1 ∧
      b.HasLegibleAliases {} :=
    ⟨_, rfl, by decide, by simp [Select.HasLegibleAliases, Select.relations, FromItem.relations,
      Relation.alias?]⟩
  exact ⟨sheet, sheet', hsheet, hsheet',
    lines_ne_of_length_ne rfl hb hone halias .columns (readable_connected rfl) readable_columnPair
      (by decide) (fun h => absurd h (by decide)) (fun h => absurd h (by decide)) hsheet hsheet' 0⟩

/-- The lines of a draft with the default settings after one pass of inlining. -/
def Planner.onePassLines (q : Query) : Except PlanError (List String) := do
  let r ← Planner.draft {} q 0
  (Plan.inlineChecks r.steps).plan.lines 0

theorem Planner.exists_lines_of_onePass {q : Query} {lines : List String}
    (h : onePassLines q = .ok lines) :
    ∃ sheet, Planner.planQuery {} q = .ok sheet ∧ sheet.plan.lines 0 = .ok lines := by
  unfold onePassLines at h
  cases hdraft : Planner.draft {} q 0 with
  | error e =>
    rw [hdraft] at h
    cases h
  | ok r =>
    rw [hdraft] at h
    exact ⟨_, planQuery_of_draft hdraft, h⟩

/-- A conjunction alone and the list of its sides make the same text, as columns and as keys. -/
theorem lines_eq_of_conjunction :
    (∀ i ∈ connected .and ++ columnPair, i.Readable {}) ∧
      (connected .and).length ≠ columnPair.length ∧
      ∀ clause : ListClause, ∃ sheet sheet' lines,
        Planner.planQuery {} (wholeTable.listing clause (connected .and)) = .ok sheet ∧
        Planner.planQuery {} (wholeTable.listing clause columnPair) = .ok sheet' ∧
        sheet.plan.lines 0 = .ok lines ∧ sheet'.plan.lines 0 = .ok lines := by
  refine ⟨List.forall_mem_append.mpr ⟨readable_connected rfl, readable_columnPair⟩, by decide,
    fun clause => ?_⟩
  obtain ⟨lines, hlines, hlines'⟩ : ∃ lines,
      Planner.onePassLines (wholeTable.listing clause (connected .and)) = .ok lines ∧
      Planner.onePassLines (wholeTable.listing clause columnPair) = .ok lines := by
    cases clause with
    | columns =>
      exact ⟨["1. Load data for table t.",
        "2. Create table with columns a and b from results of Step 1.",
        "3. Write to 'result.csv' the results of Step 2."], by decide +kernel, by decide +kernel⟩
    | keys =>
      exact ⟨["1. Load data for table t.", "2. Group rows from results of Step 1 using a and b.",
        "3. Create table with columns all columns from results of Step 2.",
        "4. Write to 'result.csv' the results of Step 3."], by decide +kernel, by decide +kernel⟩
  obtain ⟨sheet, hsheet, hshown⟩ := Planner.exists_lines_of_onePass hlines
  obtain ⟨sheet', hsheet', hshown'⟩ := Planner.exists_lines_of_onePass hlines'
  exact ⟨sheet, sheet', lines, hsheet, hsheet', hshown, hshown'⟩

end QuerySteps
