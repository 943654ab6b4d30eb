import QuerySteps.Proofs.Join.EarlyFilters
import QuerySteps.Proofs.Skeleton.Steps
import QuerySteps.Proofs.Translate.Results

/-!
# SELECTs over several relations step by step

Over several relations a SELECT stores each of them, filters single ones, joins them one after the
other, filters and arranges the joined rows, and retrieves the columns from these. Each clause is a
run of `Skeleton.lay` over its own roles, from whatever skeleton the clauses before have left. Put
one after the other they make the draft of the SELECT (`Skeleton.draft_join_lay`).
-/

namespace QuerySteps

open Sql Source

namespace Role

/-- The sources are stored one after the other, the first of them at the place `k`. -/
def stores (k : Nat) (sources : List Source) : List Role :=
  (sources.zipIdx k).map fun p => store p.2 p.1

/-- Single sources are filtered. -/
def earlies (filters : List (Nat × Expr)) : List Role :=
  filters.map fun filter => early filter.1 filter.2

/-- The sources, the first of them at the place `k`, are joined to those before. -/
def joinsFrom (k : Nat) (sources : List Source) : List Role :=
  (sources.zipIdx k).map fun p => join p.2 p.1

end Role

namespace Skeleton

variable {s : Settings} {q : Qualifiers} {origin : Option Label} {done new : Skeleton}
  {sources : List Source} {place k : Nat}

/-- The latest results for the first `n` relations. -/
def results (n : Nat) (done : Skeleton) : List Label :=
  (List.range n).map fun place => done.latest place

theorem latest?_append (h : ∀ e ∈ new, e.role.concerns place = false) :
    (done ++ new).latest? place = done.latest? place := by
  have hnone : new.filter (·.role.concerns place) = [] := by simpa using h
  simp only [latest?, List.filter_append, hnone, List.append_nil]

theorem carrier?_append (h : ∀ e ∈ new, e.role.carries = true) :
    (done ++ new).carrier? = new.getLast?.or done.carrier? := by
  have hall : new.filter (·.role.carries) = new := List.filter_eq_self.mpr h
  simp only [carrier?, List.filter_append, hall, List.getLast?_append]

theorem carrier?_append_of_not (h : ∀ e ∈ new, e.role.carries = false) :
    (done ++ new).carrier? = done.carrier? := by
  have hnone : new.filter (·.role.carries) = [] := by simpa using h
  simp only [carrier?, List.filter_append, hnone, List.append_nil]

/-- Before the joins, what goes on is the latest result for the first relation. -/
theorem carrier?_eq_latest? (h : ∀ e ∈ done, e.role.carries = e.role.concerns 0) :
    done.carrier? = done.latest? 0 := by
  simp only [carrier?, latest?, List.filter_congr h]

theorem exists_latest? (h : ∃ e ∈ done, e.role.concerns place = true) :
    ∃ e, done.latest? place = some e := by
  obtain ⟨e, he, hplace⟩ := h
  have hne : done.filter (·.role.concerns place) ≠ [] :=
    List.ne_nil_of_mem (List.mem_filter.mpr ⟨he, hplace⟩)
  exact ⟨_, List.getLast?_eq_some_getLast hne⟩

theorem forall_of_roles {roles : List Role} {p : Role → Prop} (h : done.roles = roles)
    (hp : ∀ role ∈ roles, p role) : ∀ e ∈ done, p e.role := by
  intro e he
  exact hp _ (h ▸ List.mem_map_of_mem he)

/-! ## Clauses over several relations -/

theorem store_lay (source : Source) (place : Nat) :
    source.relation.store s source.name =
      Entry.result <$> (Role.store place source).lay s q origin done := by
  rw [← result_lay]
  simp only [Role.part, sentence]
  cases source.relation with
  | table path aliasName => rfl
  | derived query aliasName => rfl

theorem latest_of_stores (hnew : new.roles = Role.stores (place + 1) sources) :
    (done ++ new).latest place = done.latest place := by
  rw [latest, latest?_append, latest]
  refine forall_of_roles hnew (p := fun role => role.concerns place = false) fun role hrole => ?_
  obtain ⟨⟨source, place'⟩, hmem, rfl⟩ := List.mem_map.mp hrole
  have hle := List.le_snd_of_mem_zipIdx hmem
  simp only [Role.concerns, beq_eq_false_iff_ne]
  omega

theorem sequence_stores_lay (sources : List Source) (k : Nat) :
    Draft.sequence (sources.map fun source => source.relation.store s source.name) =
      (fun d => (List.range' k sources.length).map fun place => latest place d) <$>
        done.lay s q origin (Role.stores k sources) := by
  induction sources generalizing k done with
  | nil => simp [Draft.sequence, Role.stores, lay]
  | cons source rest ih =>
    have hlay : done.lay s q origin (Role.stores k (source :: rest)) =
        (Role.store k source).lay s q origin done >>= fun e =>
          (done ++ [e]).lay s q origin (Role.stores (k + 1) rest) := rfl
    rw [hlay, map_bind, List.map_cons, Draft.sequence, store_lay source k, bind_map_left]
    refine bind_role_congr fun e he => ?_
    rw [ih (k + 1), bind_map_left, ← map_eq_pure_bind]
    refine map_lay_congr fun new hnew => ?_
    have hlatest : (done ++ [e] ++ new).latest k = e.result := by
      rw [latest_of_stores hnew, latest_concat, he]
      simp [Role.concerns]
    rw [List.length_cons, List.range'_succ, List.map_cons, hlatest]

theorem results_concat {n : Nat} {e : Entry} {conjunct : Expr}
    (he : e.role = .early place conjunct) :
    (done ++ [e]).results n = (done.results n).set place e.result := by
  refine List.ext_getElem (by simp [results]) fun i h1 h2 => ?_
  simp only [results, List.getElem_map, List.getElem_range, List.getElem_set, latest_concat, he,
    Role.concerns, beq_iff_eq]

theorem filterEach_lay {n : Nat} {filters : List (Nat × Expr)} (h : ∀ c ∈ filters, c.1 < n) :
    Draft.filterEach (done.results n) (filters.map (Prod.map id (Expr.draft s .kept))) =
      results n <$> done.lay s q origin (Role.earlies filters) := by
  induction filters generalizing done with
  | nil => simp [Draft.filterEach, Role.earlies, lay]
  | cons filter rest ih =>
    obtain ⟨place, conjunct⟩ := filter
    obtain ⟨hplace, hrest⟩ := List.forall_mem_cons.mp h
    have hlay : done.lay s q origin (Role.earlies ((place, conjunct) :: rest)) =
        (Role.early place conjunct).lay s q origin done >>= fun e =>
          (done ++ [e]).lay s q origin (Role.earlies rest) := rfl
    have hinput : (done.results n)[place]?.getD {} = done.latest place := by
      simp [results, List.getElem?_range hplace]
    have hfilter : Draft.filterJoined (conjunct.draft s .kept) (done.latest place) =
        Entry.result <$> (Role.early place conjunct).lay s q origin done :=
      result_lay (.early place conjunct)
    simp only [List.map_cons, Prod.map_apply, id_eq, Draft.filterEach]
    rw [hlay, map_bind, hinput, hfilter, bind_map_left]
    refine bind_role_congr fun e he => ?_
    rw [← results_concat he, ih hrest]

theorem joinAll_lay (sources : List Source) (k : Nat) :
    Draft.joinAll (done.rows origin) ((sources.zipIdx k).map fun p =>
      (p.1.kind, done.latest p.2, p.1.constraint.draft s)) =
      rows origin <$> done.lay s q origin (Role.joinsFrom k sources) := by
  induction sources generalizing k done with
  | nil => simp [Draft.joinAll, Role.joinsFrom, lay]
  | cons source rest ih =>
    have hlay : done.lay s q origin (Role.joinsFrom k (source :: rest)) =
        (Role.join k source).lay s q origin done >>= fun e =>
          (done ++ [e]).lay s q origin (Role.joinsFrom (k + 1) rest) := rfl
    rw [hlay, map_bind, List.zipIdx_cons, List.map_cons, Draft.joinAll, ← bind_assoc]
    have hjoin : (do
        let condition ← source.constraint.draft s
        Draft.step ((Label.text source.kind.words ++ done.rows origin).before "with" ++
          done.latest k ++ condition)) =
        Entry.result <$> (Role.join k source).lay s q origin done := result_lay (.join k source)
    rw [hjoin, bind_map_left]
    refine bind_role_congr fun e he => ?_
    have hrows : (done ++ [e]).rows origin = e.result := by
      rw [rows_concat, he]
      rfl
    have hlatest (i : Nat) : (done ++ [e]).latest i = done.latest i := by
      rw [latest_concat, he]
      rfl
    rw [← ih (k + 1), hrows]
    simp only [hlatest]

theorem filterAll_lay (conjuncts : List Expr) :
    Draft.filterAll (done.rows origin) (conjuncts.map (Expr.draft s .kept)) =
      rows origin <$> done.lay s q origin ((conjuncts.map Operation.late).map .apply) := by
  induction conjuncts generalizing done with
  | nil => simp [Draft.filterAll, lay]
  | cons conjunct rest ih =>
    have hfilter : Draft.filterJoined (conjunct.draft s .kept) (done.rows origin) =
        rows origin <$> done.lay s q origin [.apply (.late conjunct)] :=
      rows_lay (.late conjunct)
    have hlay : done.lay s q origin (((conjunct :: rest).map Operation.late).map .apply) =
        done.lay s q origin [.apply (.late conjunct)] >>= fun d =>
          d.lay s q origin ((rest.map Operation.late).map .apply) := lay_append [_] _
    rw [hlay, map_bind, List.map_cons, Draft.filterAll, hfilter, bind_map_left]
    exact bind_congr fun filtered => ih

theorem retrieveAll_lay (items : List SelectItem) :
    (done.retrieved ++ ·) <$>
        Draft.retrieveAll (done.rows origin) (items.map (SelectItem.draft s)) =
      retrieved <$> done.lay s q origin (items.map .retrieve) := by
  induction items generalizing done with
  | nil => simp [Draft.retrieveAll, lay]
  | cons item rest ih =>
    have hlay : done.lay s q origin ((item :: rest).map .retrieve) =
        (Role.retrieve item).lay s q origin done >>= fun e =>
          (done ++ [e]).lay s q origin (rest.map .retrieve) := rfl
    have hretrieve : (do
        let column ← item.draft s
        Draft.step ((Label.text "Retrieve" ++ column).before "from" ++ done.rows origin)) =
        Entry.result <$> (Role.retrieve item).lay s q origin done := result_lay (.retrieve item)
    rw [hlay, map_bind, List.map_cons, Draft.retrieveAll, ← bind_assoc, hretrieve, bind_map_left,
      map_bind]
    refine bind_role_congr fun e he => ?_
    have hrows : (done ++ [e]).rows origin = done.rows origin := by
      rw [rows_concat, he]
      rfl
    have hretrieved : (done ++ [e]).retrieved = done.retrieved ++ [e.result] := by
      rw [retrieved_concat, he]
      rfl
    rw [← ih, hrows, hretrieved]
    simp

theorem collect_lay :
    Draft.step (Label.text "Create table with columns for" ++ Label.enumeration done.retrieved) =
      rows origin <$> done.lay s q origin [.collect] := by
  refine map_lay_singleton .collect fun e he => ?_
  rw [rows_concat, he]
  rfl

/-! ## The whole SELECT -/

theorem rows_of_inputs {source : Source} {filters : List (Nat × Expr)}
    (h : done.roles = Role.stores 0 (source :: sources) ++ Role.earlies filters) :
    done.rows none = done.latest 0 := by
  have hcarries : ∀ e ∈ done, e.role.carries = e.role.concerns 0 := by
    refine forall_of_roles h (p := fun role => role.carries = role.concerns 0) fun role hrole => ?_
    obtain hrole | hrole := List.mem_append.mp hrole
    · obtain ⟨_, -, rfl⟩ := List.mem_map.mp hrole
      rfl
    · obtain ⟨_, -, rfl⟩ := List.mem_map.mp hrole
      rfl
  have hfirst : ∃ e ∈ done, e.role.concerns 0 = true := by
    have hmem : Role.store 0 source ∈ done.roles := by
      rw [h]
      exact List.mem_append_left _ (List.mem_cons_self ..)
    obtain ⟨e, he, hrole⟩ := List.mem_map.mp hmem
    exact ⟨e, he, by rw [hrole]; rfl⟩
  obtain ⟨e, he⟩ := exists_latest? hfirst
  simp [rows, input?, carrier?_eq_latest? hcarries, latest, he, Draft.inputOr]

theorem zip_joins (f : Nat → Label) (g : Source → Draft Label) (k : Nat) (sources : List Source) :
    (sources.map (·.kind)).zip
      (((List.range' k sources.length).map f).zip (sources.map g)) =
    (sources.zipIdx k).map fun p => (p.1.kind, f p.2, g p.1) := by
  induction sources generalizing k with
  | nil => rfl
  | cons source rest ih => simp [List.range'_succ, ih]

theorem joinChain_lay {items : List FromItem} {source : Source} {filters : List (Nat × Expr)}
    (hitems : ofItems items = .ok (source :: sources))
    (h : done.roles = Role.stores 0 (source :: sources) ++ Role.earlies filters) :
    Draft.joinChain (source :: sources) (stagesOfItems s items)
      (done.results (source :: sources).length) =
      rows none <$> done.lay s q none (Role.joinsFrom 1 sources) := by
  have hmatching : (stagesOfItems s items).tail.map (·.matching) =
      sources.map fun source => source.constraint.draft s := by
    rw [stagesOfItems_eq_map, ← (map_ofItems hitems).1]
    simp [link, Function.comp_def]
  have hresults : done.results (source :: sources).length =
      done.latest 0 :: (List.range' 1 sources.length).map fun place => done.latest place := by
    simp [results, List.range_eq_range', List.range'_succ]
  rw [hresults, ← rows_of_inputs h, Draft.joinChain, List.tail_cons, hmatching, zip_joins]
  exact joinAll_lay sources 1

end Skeleton

namespace Sql.Query

def rowRoles (q : Query) (b : Select) (sources : List Source) : List Role :=
  Role.stores 0 sources ++ Role.earlies (early sources b.conjuncts) ++
    Role.joinsFrom 1 sources.tail ++ ((late sources b.conjuncts).map Operation.late).map .apply ++
    (Operation.arrangement q b).map .apply

/-- What the steps of a SELECT over several relations do. -/
def joinRoles (q : Query) (b : Select) (sources : List Source) : List Role :=
  q.rowRoles b sources ++ (b.projection.map .retrieve ++ [.collect] ++
    (if b.distinct then [Operation.unique] else []).map .apply)

theorem retrieves_rowRoles (q : Query) (b : Select) (sources : List Source) :
    ∀ role ∈ q.rowRoles b sources, role.retrieves = false := by
  intro role hrole
  simp only [rowRoles, Role.stores, Role.earlies, Role.joinsFrom, List.mem_append,
    List.mem_map] at hrole
  rcases hrole with (((h | h) | h) | h) | h
  all_goals
    obtain ⟨_, -, rfl⟩ := h
    rfl

end Sql.Query

namespace Skeleton

variable {s : Settings} {q : Qualifiers} {done : Skeleton} {query : Query} {b : Select}
  {sources : List Source}

theorem inputs_lay {items : List FromItem} (h : ofItems items = .ok sources)
    {filters : List (Nat × Expr)} (hplaces : ∀ c ∈ filters, c.1 < sources.length) : (do
      let loaded ← Draft.sequence (sources.zipWith (fun source stage => stage.store source.name)
        (stagesOfItems s items))
      Draft.filterEach loaded (filters.map (Prod.map id (Expr.draft s .kept)))) =
    results sources.length <$>
      lay s q none [] (Role.stores 0 sources ++ Role.earlies filters) := by
  have hstores : sources.zipWith (fun source (stage : Stage) => stage.store source.name)
      (stagesOfItems s items) = sources.map fun source => source.relation.store s source.name := by
    rw [stagesOfItems_eq_map, ← (map_ofItems h).1]
    simp [List.zipWith_map_right, List.zipWith_self, link]
  have hloads : Draft.sequence (sources.map fun source => source.relation.store s source.name) =
      (fun d => (List.range' 0 sources.length).map fun place => latest place d) <$>
        lay s q none [] (Role.stores 0 sources) := sequence_stores_lay sources 0
  rw [hstores, hloads, bind_map_left, lay_append, map_bind]
  refine bind_congr fun loaded => ?_
  rw [← filterEach_lay hplaces, results, List.range_eq_range']

theorem joined_lay (query : Query) (hjoin : 1 < b.relations.length)
    (h : ofItems b.sources = .ok sources) : (do
      let loaded ← Draft.sequence (sources.zipWith (fun source stage => stage.store source.name)
        (stagesOfItems s b.sources))
      let filtered ← Draft.filterEach loaded
        ((early sources b.conjuncts).map (Prod.map id (Expr.draft s .kept)))
      let joined ← Draft.joinChain sources (stagesOfItems s b.sources) filtered
      let kept ← Draft.filterAll joined ((late sources b.conjuncts).map (Expr.draft s .kept))
      let grouped ← GroupClauses.apply
        ⟨draftsOfExprs s q b.groupBy, draftOfOption s q b.having⟩ kept
      RowClauses.apply ⟨draftsOfOrder s q query.orderBy, draftOfOption s q query.offset,
        draftOfOption s q query.limit⟩ grouped) =
    rows none <$> lay s q none [] (query.rowRoles b sources) := by
  have hplaces : ∀ c ∈ early sources b.conjuncts, c.1 < sources.length := fun c hc =>
    Draft.lt_length_of_pushTarget? (mem_early.mp hc).2
  have hlength : 1 < sources.length := by
    rw [length_ofItems h, ← List.length_map (f := (·.1)), map_links_fst]
    exact hjoin
  obtain ⟨source, rest, rfl⟩ := List.exists_cons_of_length_pos (Nat.lt_of_succ_lt hlength)
  have hroles : query.rowRoles b (source :: rest) =
      (Role.stores 0 (source :: rest) ++ Role.earlies (early (source :: rest) b.conjuncts)) ++
      (Role.joinsFrom 1 rest ++
        (((late (source :: rest) b.conjuncts).map Operation.late).map .apply ++
          (Operation.arrangement query b).map .apply)) := by
    simp only [Query.rowRoles, List.append_assoc, List.tail_cons]
  rw [← bind_assoc, inputs_lay (q := q) h hplaces, bind_map_left, hroles,
    lay_append (Role.stores 0 _ ++ _) _, map_bind]
  refine bind_lay_congr fun inputs hinputs => ?_
  rw [List.nil_append, joinChain_lay h hinputs, bind_map_left, lay_append, map_bind]
  refine bind_congr fun joined => ?_
  rw [filterAll_lay, bind_map_left, lay_append, map_bind]
  exact bind_congr fun kept => arrangement_lay query b

theorem collected_lay (hnone : done.retrieved = []) (items : List SelectItem) (distinct : Bool) :
    (do
      let retrieved ← Draft.retrieveAll (done.rows none) (items.map (SelectItem.draft s))
      let result ←
        Draft.step (Label.text "Create table with columns for" ++ Label.enumeration retrieved)
      Draft.unique distinct result) = rows none <$> done.lay s q none (items.map .retrieve ++
        [.collect] ++ (if distinct then [Operation.unique] else []).map .apply) := by
  have hretrieve : Draft.retrieveAll (done.rows none) (items.map (SelectItem.draft s)) =
      retrieved <$> done.lay s q none (items.map .retrieve) := by
    rw [← retrieveAll_lay, hnone]
    exact (id_map _).symm
  have hcollect (d : Skeleton) : Draft.step
      (Label.text "Create table with columns for" ++ Label.enumeration d.retrieved) =
      rows none <$> d.lay s q none [.collect] := collect_lay
  rw [hretrieve, bind_map_left, lay_append, lay_append]
  simp only [hcollect, bind_map_left, bind_assoc, map_bind]
  exact bind_congr fun retrieved => bind_congr fun collected => unique_lay

/-- A SELECT over several relations lays its steps on nothing. -/
theorem draft_join_lay (hb : query.body = .select b) (hjoin : 1 < b.relations.length)
    (h : ofItems b.sources = .ok sources) :
    query.draft s = rows none <$> lay s .dropped none [] (query.joinRoles b sources) := by
  obtain ⟨body, orderBy, limit, offset⟩ := query
  obtain rfl : body = .select b := hb
  simp only [Query.draft, QueryBody.draft]
  rw [b.draft_eq_of_join s _ hjoin h, Draft.selectFiltered, Query.joinRoles, lay_append, map_bind]
  have hrows := joined_lay (s := s) (q := .dropped) ⟨.select b, orderBy, limit, offset⟩ hjoin h
  have hcollect (new : Skeleton) (hnew : new.roles = Query.rowRoles ⟨.select b, orderBy, limit,
      offset⟩ b sources) : new.retrieved = [] := by
    have hnone := forall_of_roles (p := fun role => role.retrieves = false) hnew
      (Query.retrieves_rowRoles _ b sources)
    simpa [retrieved] using hnone
  trans (rows none <$> lay s .dropped none [] (Query.rowRoles ⟨.select b, orderBy, limit, offset⟩ b
      sources)) >>= fun arranged => do
    let retrieved ← Draft.retrieveAll arranged (b.projection.map (SelectItem.draft s))
    let result ←
      Draft.step (Label.text "Create table with columns for" ++ Label.enumeration retrieved)
    Draft.unique b.distinct result
  · rw [← hrows]
    simp only [bind_assoc]
  · rw [bind_map_left]
    exact bind_lay_congr fun new hnew => collected_lay (hcollect new hnew) _ _

end Skeleton

end QuerySteps
