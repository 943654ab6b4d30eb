import Mathlib.Logic.Function.Basic
import QuerySteps.Translate.Clause

/-!
# Changing the sources of a join

A SELECT over several relations looks at its FROM clause only through the kinds and the stages of
the joins, and at its conjuncts only through the sources that they are pushed to and their drafts.
Whatever keeps these keeps the draft of the block (`Draft.selectJoin_map`).
-/

namespace QuerySteps

open Sql

namespace Source

/-- If every link is changed together with its source, and keeps its kind, all sources change. -/
theorem ofItems_map {items items' : List FromItem} {g : Link → Link} {change : Source → Source}
    (hlinks : links items' = (links items).map g) (hkind : ∀ l, (g l).2.1 = l.2.1)
    (hlink : ∀ l pushable, ofLink (g l) pushable = (ofLink l pushable).map change) :
    ofItems items' = (ofItems items).map (List.map change) := by
  have hmapM (flagged : List (Link × Bool)) :
      ((flagged.map fun l => (g l.1, l.2)).mapM fun l => ofLink l.1 l.2) =
      (flagged.mapM fun l => ofLink l.1 l.2).map (List.map change) := by
    induction flagged with
    | nil => rfl
    | cons l rest ih =>
      obtain ⟨link, pushable⟩ := l
      rw [List.map_cons, List.mapM_cons, List.mapM_cons, ih]
      simp only [hlink]
      cases ofLink link pushable with
      | error e => rfl
      | ok source => cases rest.mapM fun l => ofLink l.1 l.2 <;> rfl
  have hkinds : ((links items).map g).map (·.2.1) = (links items).map (·.2.1) := by
    rw [List.map_map]
    exact List.map_congr_left fun l _ => hkind l
  unfold ofItems ofLinks
  rw [hlinks, hkinds, List.zip_map_left, ← hmapM]
  rfl

theorem indexOf?_map {sources : List Source} (change : Source → Source) {n n' : Name}
    (h : ∀ source ∈ sources, (change source).name.denotes n' = source.name.denotes n) :
    indexOf? (sources.map change) n' = indexOf? sources n := by
  unfold indexOf?
  induction sources with
  | nil => rfl
  | cons source rest ih =>
    obtain ⟨hsource, hrest⟩ := List.forall_mem_cons.mp h
    rw [List.map_cons, List.findIdx?_cons, List.findIdx?_cons, hsource, ih hrest]

theorem ofColumns?_map {sources sources' : List Source} {g : Column → Column}
    {columns : List Column}
    (h : ∀ c ∈ columns, ofColumn? sources' (g c) = ofColumn? sources c) :
    ofColumns? sources' (columns.map g) = ofColumns? sources columns := by
  induction columns with
  | nil => rfl
  | cons c rest ih =>
    obtain ⟨hc, hrest⟩ := List.forall_mem_cons.mp h
    have hmap := ih hrest
    cases rest with
    | nil => exact hc
    | cons d rest =>
      simp only [List.map_cons, ofColumns?, hc] at hmap ⊢
      rw [hmap]

theorem pushTarget?_map {sources : List Source} (change : Source → Source)
    (hpushable : ∀ source, (change source).pushable = source.pushable) {c c' : Expr}
    {g : Column → Column} (hcolumns : c'.columns = c.columns.map g)
    (h : ∀ column ∈ c.columns,
      ofColumn? (sources.map change) (g column) = ofColumn? sources column) :
    pushTarget? (sources.map change) c' = pushTarget? sources c := by
  unfold pushTarget?
  rw [hcolumns, ofColumns?_map h]
  refine congrArg₂ Option.filter (funext fun i => ?_) rfl
  rw [List.getElem?_map]
  cases sources[i]? with
  | none => rfl
  | some source => exact hpushable source

end Source

namespace Draft

open Source

section

variable {conjuncts : List Expr} {g : Expr → Expr} {draft draft' : Expr → Draft Label}

theorem filterSources_map {sources sources' : List Source}
    (htarget : ∀ c ∈ conjuncts, pushTarget? sources' (g c) = pushTarget? sources c)
    (hdraft : ∀ c ∈ conjuncts, draft' (g c) = draft c) (results : List Label) :
    filterSources sources' results (conjuncts.map fun c => (g c, draft' (g c))) =
      filterSources sources results (conjuncts.map fun c => (c, draft c)) := by
  induction conjuncts generalizing results with
  | nil => rfl
  | cons c rest ih =>
    obtain ⟨ht, htrest⟩ := List.forall_mem_cons.mp htarget
    obtain ⟨hd, hdrest⟩ := List.forall_mem_cons.mp hdraft
    rw [List.map_cons, List.map_cons, filterSources, filterSources, ht, hd]
    cases pushTarget? sources c with
    | some i => simp only [ih htrest hdrest]
    | none => simp only [ih htrest hdrest]

/-- A SELECT over several relations does not change with its FROM clause and its conjuncts if the
joins keep their kinds and their stages, and the conjuncts their places and their drafts. -/
theorem selectJoin_map {items items' : List FromItem} {stages stages' : List Stage}
    (change : Source → Source) (hkind : ∀ source, (change source).kind = source.kind)
    (hitems : ofItems items' = (ofItems items).map (List.map change))
    (hstore : ∀ sources, ofItems items = .ok sources →
      (sources.map change).zipWith (fun source stage => stage.store source.name) stages' =
        sources.zipWith (fun source stage => stage.store source.name) stages)
    (hmatching : stages'.map (·.matching) = stages.map (·.matching))
    (htarget : ∀ sources, ofItems items = .ok sources → ∀ c ∈ conjuncts,
      pushTarget? (sources.map change) (g c) = pushTarget? sources c)
    (hdraft : ∀ c ∈ conjuncts, draft' (g c) = draft c)
    (groups : GroupClauses) (rows : RowClauses) (columns : List (Draft Label)) (distinct : Bool) :
    selectJoin items' stages' (conjuncts.map fun c => (g c, draft' (g c))) groups rows columns
        distinct =
      selectJoin items stages (conjuncts.map fun c => (c, draft c)) groups rows columns
        distinct := by
  have hkinds (sources : List Source) :
      (sources.map change).tail.map (·.kind) = sources.tail.map (·.kind) := by
    rw [← List.map_tail, List.map_map]
    exact List.map_congr_left fun source _ => hkind source
  have hmatchings : stages'.tail.map (·.matching) = stages.tail.map (·.matching) := by
    rw [List.map_tail, hmatching, ← List.map_tail]
  unfold selectJoin
  rw [hitems]
  cases hsources : ofItems items with
  | error e => rfl
  | ok sources =>
    have hpure (sources : List Source) : ofExcept (.ok sources) = (pure sources : Draft _) := rfl
    simp only [Except.map, hpure, pure_bind, joinInputs, hstore sources hsources,
      filterSources_map (htarget sources hsources) hdraft, joinChain, hkinds, hmatchings]

end

end Draft

end QuerySteps
