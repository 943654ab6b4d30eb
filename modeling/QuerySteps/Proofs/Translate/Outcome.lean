import QuerySteps.Proofs.Translate.Support

/-!
# Outcomes of drafts

Whether a draft succeeds, and how it fails, depends neither on the settings nor on the identifiers
that are free. `Draft.Alike` compares two drafts run from any two identifiers: both succeed if a
given condition holds, and both fail with the same refusal if it does not. If they succeed, they add
the same numbers of steps, and the same ones are checks. There is one rule for each way to build a
draft. For expressions and queries the condition is that they are supported.
-/

namespace QuerySteps

open Sql

/-- Whether the error says that a query cannot be put into words. -/
def PlanError.isRefusal : PlanError → Bool
  | unsupported _ | malformedJoin _ => true
  | malformedQuery _ | unresolved _ | invalidPlan _ => false

/-- Whether a step with these fragments tests a condition. -/
def Label.saysCheck (a : Label) : Bool :=
  Step.isCheck ⟨0, a.parts⟩

theorem Label.saysCheck_eq_false {a : Label} {words : String} {rest : List Part}
    (h : a.parts = .text words :: rest) (hne : words ≠ checkPhrase) : a.saysCheck = false := by
  simp [saysCheck, Step.isCheck, Step.opensWith, h, hne]

namespace Draft

variable {α β α' β' γ : Type}

/-- From wherever they start, both drafts succeed, with values in the relation and the same steps
being checks, if `supported` holds; otherwise both fail with the same refusal. -/
def Alike (supported : Prop) (x : Draft α) (y : Draft β)
    (related : α → β → Prop := fun _ _ => True) : Prop :=
  ∀ m n,
    (supported ∧ ∃ a b, x m = .ok a ∧ y n = .ok b ∧ related a.value b.value ∧
      a.steps.map Step.isCheck = b.steps.map Step.isCheck) ∨
    (¬ supported ∧ ∃ e, e.isRefusal = true ∧ x m = .error e ∧ y n = .error e)

namespace Alike

variable {P Q : Prop} {x : Draft α} {y : Draft β} {f : α → Draft α'} {g : β → Draft β'}
  {R : α → β → Prop} {S : α' → β' → Prop}

theorem congr (h : P ↔ Q) (hx : Alike P x y R) : Alike Q x y R := by
  rw [← propext h]
  exact hx

theorem imp {S : α → β → Prop} (hx : Alike P x y R) (h : ∀ a b, R a b → S a b) :
    Alike P x y S := by
  intro m n
  rcases hx m n with ⟨hP, a, b, ha, hb, hR, hchecks⟩ | hrefused
  · exact .inl ⟨hP, a, b, ha, hb, h _ _ hR, hchecks⟩
  · exact .inr hrefused

theorem pure {a : α} {b : β} (h : R a b) : Alike True (pure a) (pure b) R :=
  fun m n => .inl ⟨trivial, ⟨a, [], m⟩, ⟨b, [], n⟩, rfl, rfl, h, rfl⟩

theorem step {a b : Label} (h : a.saysCheck = b.saysCheck) :
    Alike True (Draft.step a) (Draft.step b) :=
  fun _ _ => .inl ⟨trivial, _, _, rfl, rfl, trivial, congrArg ([·]) h⟩

theorem check {a b : Label} : Alike True (Draft.check a) (Draft.check b) :=
  step rfl

theorem fail {e : PlanError} (h : e.isRefusal = true) :
    Alike False (Draft.fail e : Draft α) (Draft.fail e : Draft β) R :=
  fun _ _ => .inr ⟨id, e, h, rfl, rfl⟩

theorem bind (hx : Alike P x y R) (hf : ∀ a b, R a b → Alike Q (f a) (g b) S) :
    Alike (P ∧ Q) (x >>= f) (y >>= g) S := by
  intro m n
  obtain ⟨hP, a, b, ha, hb, hR, hchecks⟩ | ⟨hP, e, he, hxe, hye⟩ := hx m n
  · obtain ⟨hQ, c, d, hc, hd, hS, hmore⟩ | ⟨hQ, e, he, hfe, hge⟩ := hf _ _ hR a.next b.next
    · refine .inl ⟨⟨hP, hQ⟩, { c with steps := a.steps ++ c.steps },
        { d with steps := b.steps ++ d.steps }, ?_, ?_, hS, ?_⟩
      · exact bind_eq_ok.mpr ⟨a, ha, c, hc, rfl⟩
      · exact bind_eq_ok.mpr ⟨b, hb, d, hd, rfl⟩
      · simp only [List.map_append, hchecks, hmore]
    · refine .inr ⟨fun h => hQ h.2, e, he, ?_, ?_⟩
      · exact bind_eq_error.mpr (.inr ⟨a, ha, hfe⟩)
      · exact bind_eq_error.mpr (.inr ⟨b, hb, hge⟩)
  · refine .inr ⟨fun h => hP h.1, e, he, ?_, ?_⟩
    · exact bind_eq_error.mpr (.inl hxe)
    · exact bind_eq_error.mpr (.inl hye)

/-- A first step that cannot fail leaves the outcome to the rest. -/
theorem before (hx : Alike True x y R) (hf : ∀ a b, R a b → Alike Q (f a) (g b) S) :
    Alike Q (x >>= f) (y >>= g) S :=
  .congr (and_iff_right trivial) (.bind hx hf)

/-- A last step that cannot fail leaves the outcome as it is. -/
theorem andThen (hx : Alike P x y R) (hf : ∀ a b, R a b → Alike True (f a) (g b) S) :
    Alike P (x >>= f) (y >>= g) S :=
  .congr (and_iff_left trivial) (.bind hx hf)

theorem ofExcept {r : Except PlanError α} (hok : P ↔ ∃ a, r = .ok a)
    (herror : ∀ e, r = .error e → e.isRefusal = true) :
    Alike P (Draft.ofExcept r) (Draft.ofExcept r) fun a b => r = .ok a ∧ b = a := by
  intro m n
  cases r with
  | ok a => exact .inl ⟨hok.mpr ⟨a, rfl⟩, _, _, rfl, rfl, ⟨rfl, rfl⟩, rfl⟩
  | error e =>
    refine .inr ⟨fun h => ?_, e, herror e rfl, rfl, rfl⟩
    obtain ⟨a, ha⟩ := hok.mp h
    cases ha

end Alike

theorem Alike.filterJoined {P : Prop} {c d : Draft Label} (h : Alike P c d) {a b : Label} :
    Alike P (Draft.filterJoined c a) (Draft.filterJoined d b) :=
  .andThen h fun _ _ _ => .step rfl

/-! ## Drafts for the members of a list

Both drafts of each member `c` are alike, and succeed if `P c` holds. -/

section Members

variable {P : γ → Prop} {f g : γ → Draft Label} {cs : List γ}

theorem Alike.sequence (h : ∀ c ∈ cs, Alike (P c) (f c) (g c)) :
    Alike (∀ c ∈ cs, P c) (Draft.sequence (cs.map f)) (Draft.sequence (cs.map g))
      fun a b => a.length = cs.length ∧ b.length = cs.length := by
  induction cs with
  | nil => exact .congr (by simp) (.pure ⟨rfl, rfl⟩)
  | cons c cs ih =>
    obtain ⟨hc, hcs⟩ := List.forall_mem_cons.mp h
    refine .congr List.forall_mem_cons.symm (.bind hc fun a b _ => ?_)
    refine .andThen (ih hcs) fun as bs hl => .pure ?_
    simp [hl]

theorem Alike.optional {c : Option γ} (h : ∀ x ∈ c, Alike (P x) (f x) (g x)) :
    Alike (∀ x ∈ c, P x) (Draft.optional (c.map f)) (Draft.optional (c.map g)) := by
  cases c with
  | none => exact .congr (by simp) (.pure trivial)
  | some c => exact .congr (by simp) (.andThen (h c rfl) fun a b _ => .pure trivial)

theorem Alike.filterAll (h : ∀ c ∈ cs, Alike (P c) (f c) (g c)) {a b : Label} :
    Alike (∀ c ∈ cs, P c) (Draft.filterAll a (cs.map f)) (Draft.filterAll b (cs.map g)) := by
  induction cs generalizing a b with
  | nil => exact .congr (by simp) (.pure trivial)
  | cons c cs ih =>
    obtain ⟨hc, hcs⟩ := List.forall_mem_cons.mp h
    exact .congr List.forall_mem_cons.symm (.bind (.filterJoined hc) fun a b _ => ih hcs)

theorem Alike.retrieveAll (h : ∀ c ∈ cs, Alike (P c) (f c) (g c)) {a b : Label} :
    Alike (∀ c ∈ cs, P c) (Draft.retrieveAll a (cs.map f)) (Draft.retrieveAll b (cs.map g)) := by
  induction cs with
  | nil => exact .congr (by simp) (.pure trivial)
  | cons c cs ih =>
    obtain ⟨hc, hcs⟩ := List.forall_mem_cons.mp h
    refine .congr List.forall_mem_cons.symm (.bind hc fun column column' _ => ?_)
    refine .before (.step rfl) fun retrieved retrieved' _ => ?_
    exact .andThen (ih hcs) fun rest rest' _ => .pure trivial

theorem Alike.joinAll (h : ∀ c ∈ cs, Alike (P c) (f c) (g c)) {kinds : List JoinKind}
    {rights rights' : List Label} (hk : kinds.length = cs.length)
    (hr : rights.length = cs.length) (hr' : rights'.length = cs.length) {a b : Label} :
    Alike (∀ c ∈ cs, P c) (Draft.joinAll a (kinds.zip (rights.zip (cs.map f))))
      (Draft.joinAll b (kinds.zip (rights'.zip (cs.map g)))) := by
  induction cs generalizing a b kinds rights rights' with
  | nil =>
    simp only [List.length_nil, List.length_eq_zero_iff] at hk
    rw [hk]
    exact .congr (by simp) (.pure trivial)
  | cons c cs ih =>
    obtain ⟨hc, hcs⟩ := List.forall_mem_cons.mp h
    obtain ⟨kind, kinds, rfl⟩ := List.exists_cons_of_length_eq_add_one hk
    obtain ⟨right, rights, rfl⟩ := List.exists_cons_of_length_eq_add_one hr
    obtain ⟨right', rights', rfl⟩ := List.exists_cons_of_length_eq_add_one hr'
    simp only [List.length_cons, Nat.add_right_cancel_iff] at hk hr hr'
    refine .congr List.forall_mem_cons.symm (.bind hc fun condition condition' _ => ?_)
    exact .before (.step rfl) fun joined joined' _ => ih hcs hk hr hr'

theorem Alike.filterSources {P : Expr → Prop} {f g : Expr → Draft Label} {cs : List Expr}
    (h : ∀ c ∈ cs, Alike (P c) (f c) (g c)) {sources : List Source} (as bs : List Label) :
    Alike (∀ c ∈ cs, (Source.pushTarget? sources c).isSome = true → P c)
      (Draft.filterSources sources as (cs.map fun c => (c, f c)))
      (Draft.filterSources sources bs (cs.map fun c => (c, g c)))
      fun out out' => out.1.length = as.length ∧ out'.1.length = bs.length ∧
        out.2 = (cs.filter fun c => (Source.pushTarget? sources c).isNone).map f ∧
        out'.2 = (cs.filter fun c => (Source.pushTarget? sources c).isNone).map g := by
  induction cs generalizing as bs with
  | nil => exact .congr (by simp) (.pure ⟨rfl, rfl, rfl, rfl⟩)
  | cons c cs ih =>
    obtain ⟨hc, hcs⟩ := List.forall_mem_cons.mp h
    simp only [List.map_cons]
    cases ht : Source.pushTarget? sources c with
    | some i =>
      simp only [Draft.filterSources, ht]
      refine .congr (P := P c ∧ ∀ c ∈ cs, (Source.pushTarget? sources c).isSome = true → P c) ?_
        (.bind (.filterJoined hc) fun filtered filtered' _ => ?_)
      · rw [List.forall_mem_cons, ht]
        simp
      · simpa [ht] using ih hcs (as.set i filtered) (bs.set i filtered')
    | none =>
      simp only [Draft.filterSources, ht]
      refine .congr ?_ (.andThen (ih hcs as bs) fun out out' hout => .pure ?_)
      · rw [List.forall_mem_cons, ht]
        simp
      · simpa [ht] using hout

end Members

/-! ## Clauses -/

section Clauses

variable {P : γ → Prop} {f g : γ → Draft Label}

theorem Alike.ofKeys {keys : List γ} (h : ∀ c ∈ keys, Alike (P c) (f c) (g c))
    {k k' : List Label → Draft Label} (hk : ∀ as bs, Alike True (k as) (k' bs)) {a b : Label} :
    Alike (∀ c ∈ keys, P c)
      (if (keys.map f).isEmpty then Pure.pure a else Draft.sequence (keys.map f) >>= k)
      (if (keys.map g).isEmpty then Pure.pure b else Draft.sequence (keys.map g) >>= k') := by
  simp only [List.isEmpty_map]
  split
  · rename_i hk
    rw [List.isEmpty_iff.mp hk]
    exact .congr (by simp) (.pure trivial)
  · exact .andThen (.sequence h) fun as bs _ => hk as bs

theorem Alike.group {keys : List γ} (h : ∀ c ∈ keys, Alike (P c) (f c) (g c)) {a b : Label} :
    Alike (∀ c ∈ keys, P c) (GroupClauses.group (keys.map f) a)
      (GroupClauses.group (keys.map g) b) := by
  refine .ofKeys h fun _ _ => .step ?_
  rfl

theorem Alike.order {keys : List γ} (h : ∀ c ∈ keys, Alike (P c) (f c) (g c)) {a b : Label} :
    Alike (∀ c ∈ keys, P c) (RowClauses.order (keys.map f) a)
      (RowClauses.order (keys.map g) b) := by
  refine .ofKeys h fun _ _ => .step ?_
  rfl

theorem Alike.filterGroups {having : Option γ} (h : ∀ c ∈ having, Alike (P c) (f c) (g c))
    {a b : Label} : Alike (∀ c ∈ having, P c) (GroupClauses.filter (having.map f) a)
      (GroupClauses.filter (having.map g) b) := by
  cases having with
  | none => exact .congr (by simp) (.pure trivial)
  | some c => exact .congr (by simp) (.andThen (h c rfl) fun a b _ => .step rfl)

theorem Alike.cut {words : String} {count : Option γ}
    (h : ∀ c ∈ count, Alike (P c) (f c) (g c)) {a b : Label} :
    Alike (∀ c ∈ count, P c) (RowClauses.cut words (count.map f) a)
      (RowClauses.cut words (count.map g) b) := by
  cases count with
  | none => exact .congr (by simp) (.pure trivial)
  | some c => exact .congr (by simp) (.andThen (h c rfl) fun a b _ => .step rfl)

theorem Alike.filterSingle {condition : Option γ}
    (h : ∀ c ∈ condition, Alike (P c) (f c) (g c)) {a b : Option Label} :
    Alike (∀ c ∈ condition, P c) (Draft.filterSingle (condition.map f) a)
      (Draft.filterSingle (condition.map g) b) := by
  cases condition with
  | none => exact .congr (by simp) (.pure trivial)
  | some c =>
    refine .congr (by simp) (.andThen (h c rfl) fun a b _ => ?_)
    exact .andThen (.step rfl) fun a b _ => .pure trivial

theorem Alike.unique {distinct : Bool} {a b : Label} :
    Alike True (Draft.unique distinct a) (Draft.unique distinct b) := by
  cases distinct with
  | true => exact .step rfl
  | false => exact .pure trivial

theorem Alike.combine {op : SetOperator} {all : Bool} {a a' b b' : Label} :
    Alike True (Draft.combine op all a b) (Draft.combine op all a' b') := by
  cases op <;> exact .step rfl

theorem Alike.createTable {as bs : List Label} {a b : Option Label} :
    Alike True (Draft.createTable as a) (Draft.createTable bs b) := by
  cases a <;> cases b <;> exact .step rfl

end Clauses

/-- Clauses that are present together and fail alike on any input. -/
structure AlikeClauses (supported : Prop) (present present' : Bool)
    (apply apply' : Label → Draft Label) : Prop where
  present_eq : present = present'
  of_absent : present = false → supported
  apply : ∀ a b, Alike supported (apply a) (apply' b)

abbrev AlikeGroups (supported : Prop) (c d : GroupClauses) : Prop :=
  AlikeClauses supported c.present d.present c.apply d.apply

abbrev AlikeRows (supported : Prop) (c d : RowClauses) : Prop :=
  AlikeClauses supported c.present d.present c.apply d.apply

theorem alike_groupClauses {P : γ → Prop} {f g : γ → Draft Label} {keys : List γ}
    {having : Option γ} (hk : ∀ c ∈ keys, Alike (P c) (f c) (g c))
    (hh : ∀ c ∈ having, Alike (P c) (f c) (g c)) :
    AlikeGroups ((∀ c ∈ keys, P c) ∧ ∀ c ∈ having, P c) ⟨keys.map f, having.map f⟩
      ⟨keys.map g, having.map g⟩ where
  present_eq := by simp [GroupClauses.present]
  of_absent h := by
    simp only [GroupClauses.present, List.isEmpty_map, Option.isSome_map, Bool.or_eq_false_iff,
      Bool.not_eq_false', List.isEmpty_iff, Option.isSome_eq_false_iff, Option.isNone_iff_eq_none]
      at h
    simp [h]
  apply a b := .bind (.group hk) fun _ _ _ => .filterGroups hh

theorem alike_rowClauses {κ : Type} {O : κ → Prop} {P : γ → Prop} {k l : κ → Draft Label}
    {f g : γ → Draft Label} {keys : List κ} {offset limit : Option γ}
    (hk : ∀ c ∈ keys, Alike (O c) (k c) (l c)) (ho : ∀ c ∈ offset, Alike (P c) (f c) (g c))
    (hl : ∀ c ∈ limit, Alike (P c) (f c) (g c)) :
    AlikeRows ((∀ c ∈ keys, O c) ∧ (∀ c ∈ offset, P c) ∧ ∀ c ∈ limit, P c)
      ⟨keys.map k, offset.map f, limit.map f⟩ ⟨keys.map l, offset.map g, limit.map g⟩ where
  present_eq := by simp [RowClauses.present]
  of_absent h := by
    simp only [RowClauses.present, List.isEmpty_map, Option.isSome_map, Bool.or_eq_false_iff,
      Bool.not_eq_false', List.isEmpty_iff, Option.isSome_eq_false_iff, Option.isNone_iff_eq_none]
      at h
    simp [h]
  apply a b := .bind (.order hk) fun _ _ _ => .bind (.cut ho) fun _ _ _ => .cut hl

section Selects

variable {G R I : Prop} {groups groups' : GroupClauses} {rows rows' : RowClauses}

theorem Alike.arrangeSingle
    (hg : AlikeGroups G groups groups') (hr : AlikeRows R rows rows') {a b : Option Label} :
    Alike (G ∧ R) (Draft.arrangeSingle groups rows a) (Draft.arrangeSingle groups' rows' b) := by
  simp only [Draft.arrangeSingle, ← hg.present_eq, ← hr.present_eq]
  split
  · refine .bind (hg.apply _ _) fun c d _ => ?_
    exact .andThen (hr.apply c d) fun c d _ => .pure trivial
  · rename_i habsent
    rw [Bool.not_eq_true, Bool.or_eq_false_iff] at habsent
    exact .congr (by simp [hg.of_absent habsent.1, hr.of_absent habsent.2]) (.pure trivial)

/-- A SELECT over at most one relation fails only where one of its parts does. -/
theorem Alike.selectSingle {L C : Prop} {load load' condition condition' : Option (Draft Label)}
    {items items' : List (Draft Label)} {distinct : Bool}
    (hl : Alike L (Draft.optional load) (Draft.optional load'))
    (hc : ∀ a b, Alike C (Draft.filterSingle condition a) (Draft.filterSingle condition' b))
    (hg : AlikeGroups G groups groups') (hr : AlikeRows R rows rows')
    (hi : Alike I (Draft.sequence items) (Draft.sequence items')) :
    Alike (L ∧ C ∧ (G ∧ R) ∧ I)
      (Draft.selectSingle load condition groups rows items distinct)
      (Draft.selectSingle load' condition' groups' rows' items' distinct) := by
  refine .bind hl fun a b _ => ?_
  refine .bind (hc a b) fun a b _ => ?_
  refine .bind (.arrangeSingle hg hr) fun a b _ => ?_
  refine .andThen hi fun as bs _ => ?_
  exact .andThen .createTable fun a b _ => .unique

theorem Alike.storeAll {links : List Source.Link} {f g : Source.Link → Stage}
    {S : Source.Link → Prop} {sources : List Source} (hlen : sources.length = links.length)
    (h : ∀ l ∈ links, ∀ name, Alike (S l) ((f l).store name) ((g l).store name)) :
    Alike (∀ l ∈ links, S l)
      (Draft.sequence (sources.zipWith (fun source stage => stage.store source.name)
        (links.map f)))
      (Draft.sequence (sources.zipWith (fun source stage => stage.store source.name)
        (links.map g)))
      fun as bs => as.length = links.length ∧ bs.length = links.length := by
  have hzip (k : Source.Link → Stage) :
      sources.zipWith (fun source stage => stage.store source.name) (links.map k) =
        (sources.zip links).map fun p => (k p.2).store p.1.name := by
    rw [List.zipWith_map_right, ← List.map_uncurry_zip_eq_zipWith]
    rfl
  have hsize : (sources.zip links).length = links.length := by
    rw [List.length_zip, hlen, Nat.min_self]
  have hlinks : (∀ p ∈ sources.zip links, S p.2) ↔ ∀ l ∈ links, S l := by
    rw [← List.map_snd_zip (Nat.le_of_eq hlen.symm), List.forall_mem_map]
    simp only [List.map_snd_zip (Nat.le_of_eq hlen.symm)]
  rw [hzip, hzip, ← hsize]
  exact .congr hlinks (.sequence fun p hp => h p.2 (List.of_mem_zip hp).2 p.1.name)

theorem Alike.joinInputs {links : List Source.Link} {f g : Source.Link → Stage}
    {S : Source.Link → Prop} {sources : List Source} {cs : List Expr} {c d : Expr → Draft Label}
    {C : Expr → Prop} (hlen : sources.length = links.length)
    (hs : ∀ l ∈ links, ∀ name, Alike (S l) ((f l).store name) ((g l).store name))
    (hc : ∀ e ∈ cs, Alike (C e) (c e) (d e)) :
    Alike ((∀ l ∈ links, S l) ∧
        ∀ e ∈ cs, (Source.pushTarget? sources e).isSome = true → C e)
      (Draft.joinInputs sources (links.map f) (cs.map fun e => (e, c e)))
      (Draft.joinInputs sources (links.map g) (cs.map fun e => (e, d e)))
      fun out out' => out.1.length = links.length ∧ out'.1.length = links.length ∧
        out.2 = (cs.filter fun e => (Source.pushTarget? sources e).isNone).map c ∧
        out'.2 = (cs.filter fun e => (Source.pushTarget? sources e).isNone).map d := by
  refine .bind (.storeAll hlen hs) fun as bs hab => ?_
  refine .imp (.filterSources hc as bs) fun out out' hout => ?_
  exact ⟨hout.1.trans hab.1, hout.2.1.trans hab.2, hout.2.2⟩

theorem Alike.ofItems (items : List FromItem) :
    Alike (∀ l ∈ Source.links items, l.1.exposedName?.isSome = true)
      (Draft.ofExcept (Source.ofItems items)) (Draft.ofExcept (Source.ofItems items))
      fun a b => Source.ofItems items = .ok a ∧ b = a := by
  rcases Source.ofItems_cases items with ⟨hall, hok⟩ | ⟨⟨l, hl, hnone⟩, herror⟩
  · refine .ofExcept (iff_of_true hall hok) fun e he => ?_
    obtain ⟨sources, hs⟩ := hok
    rw [hs] at he
    cases he
  · refine .ofExcept (iff_of_false (fun h => ?_) ?_) fun e he => ?_
    · rw [h l hl] at hnone
      cases hnone
    · rintro ⟨a, ha⟩
      rw [herror] at ha
      cases ha
    · rw [herror] at he
      cases he
      rfl

/-- A chain of joins fails only where a condition cannot be worded. The first relation has none. -/
theorem Alike.joinChain {links : List Source.Link} {f g : Source.Link → Stage}
    {M : Source.Link → Prop} {sources : List Source} {as bs : List Label}
    (hm : ∀ l ∈ links, Alike (M l) (f l).matching (g l).matching) (hne : links ≠ [])
    (hs : sources.length = links.length) (ha : as.length = links.length)
    (hb : bs.length = links.length) :
    Alike (∀ l ∈ links.tail, M l) (Draft.joinChain sources (links.map f) as)
      (Draft.joinChain sources (links.map g) bs) := by
  obtain ⟨l, links, rfl⟩ := List.exists_cons_of_ne_nil hne
  obtain ⟨a, as, rfl⟩ := List.exists_cons_of_length_eq_add_one ha
  obtain ⟨b, bs, rfl⟩ := List.exists_cons_of_length_eq_add_one hb
  simp only [List.length_cons, Nat.add_right_cancel_iff] at ha hb
  simp only [Draft.joinChain, List.map_cons, List.tail_cons, List.map_map]
  refine .joinAll (f := fun l => (f l).matching) (g := fun l => (g l).matching)
    (fun l hl => hm l (List.mem_cons_of_mem _ hl)) ?_ ha hb
  simp [hs]

theorem forall_conjuncts_iff (sources : List Source) (cs : List Expr) (C : Expr → Prop) :
    (∀ e ∈ cs, C e) ↔ (∀ e ∈ cs, (Source.pushTarget? sources e).isSome = true → C e) ∧
      ∀ e ∈ cs.filter fun e => (Source.pushTarget? sources e).isNone, C e := by
  simp only [List.mem_filter, and_imp, ← forall_and]
  refine forall₂_congr fun e _ => ?_
  cases Source.pushTarget? sources e <;> simp

/-- A SELECT over several relations fails only where a relation has no name or one of its parts
fails. -/
theorem Alike.selectJoin {items : List FromItem} {f g : Source.Link → Stage}
    {S M : Source.Link → Prop} {cs : List Expr} {c d : Expr → Draft Label} {C : Expr → Prop}
    {columns columns' : List (Draft Label)} {distinct : Bool}
    (hne : Source.links items ≠ [])
    (hs : ∀ l ∈ Source.links items, ∀ name, Alike (S l) ((f l).store name) ((g l).store name))
    (hm : ∀ l ∈ Source.links items, Alike (M l) (f l).matching (g l).matching)
    (hc : ∀ e ∈ cs, Alike (C e) (c e) (d e))
    (hg : AlikeGroups G groups groups') (hr : AlikeRows R rows rows')
    (hi : ∀ a b, Alike I (Draft.retrieveAll a columns) (Draft.retrieveAll b columns')) :
    Alike ((∀ l ∈ Source.links items, l.1.exposedName?.isSome = true) ∧
        (∀ l ∈ Source.links items, S l) ∧ (∀ l ∈ (Source.links items).tail, M l) ∧
        (∀ e ∈ cs, C e) ∧ G ∧ R ∧ I)
      (Draft.selectJoin items ((Source.links items).map f) (cs.map fun e => (e, c e)) groups rows
        columns distinct)
      (Draft.selectJoin items ((Source.links items).map g) (cs.map fun e => (e, d e)) groups' rows'
        columns' distinct) := by
  refine .bind (.ofItems items) fun sources sources' hok => ?_
  rw [hok.2]
  have hlen := Source.length_ofItems hok.1
  have hsplit : (((∀ l ∈ Source.links items, S l) ∧
        ∀ e ∈ cs, (Source.pushTarget? sources e).isSome = true → C e) ∧
      (∀ l ∈ (Source.links items).tail, M l) ∧
      (∀ e ∈ cs.filter fun e => (Source.pushTarget? sources e).isNone, C e) ∧ G ∧ R ∧ I) ↔
      (∀ l ∈ Source.links items, S l) ∧ (∀ l ∈ (Source.links items).tail, M l) ∧
        (∀ e ∈ cs, C e) ∧ G ∧ R ∧ I := by
    rw [forall_conjuncts_iff sources cs C, and_assoc, and_assoc, and_left_comm (b := ∀ l ∈ _, M l)]
  refine .congr hsplit (.bind (.joinInputs hlen hs hc) fun out out' hout => ?_)
  obtain ⟨h1, h2, h3, h4⟩ := hout
  refine .bind (.joinChain hm hne hlen h1 h2) fun a b _ => ?_
  rw [h3, h4]
  refine .bind (.filterAll fun e he => hc e ((List.mem_filter.mp he).1)) fun a b _ => ?_
  refine .bind (hg.apply a b) fun a b _ => ?_
  refine .bind (hr.apply a b) fun a b _ => ?_
  refine .andThen (hi a b) fun as bs _ => ?_
  exact .andThen (.step rfl) fun a b _ => .unique

end Selects

end Draft

/-! ## Expressions and queries -/

namespace Sql

open Draft

/-- Under any settings and with or without qualifiers, the expression is translated exactly if it is
supported, and otherwise refused alike. -/
def Expr.Settled (e : Expr) : Prop :=
  ∀ s s' q q', Alike (e.supported = true) (e.draft s q) (e.draft s' q')

/-- Under any settings the query is translated exactly if it is supported, and otherwise refused
alike. -/
def Query.Settled (q : Query) : Prop :=
  ∀ s s', Alike (q.supported = true) (q.draft s) (q.draft s')

variable (s s' : Settings)

theorem alike_equalityDraft {c : Expr}
    (h : ∀ l op r, c.withoutParens = .binary l op r → l.Settled ∧ r.Settled) :
    Alike (∃ l r, c.withoutParens = .binary l .eq r ∧ l.supported = true ∧ r.supported = true)
      (c.equalityDraft s) (c.equalityDraft s') := by
  rw [Expr.equalityDraft_eq, Expr.equalityDraft_eq]
  generalize c.withoutParens = inner at h
  split
  · rename_i l r
    obtain ⟨hl, hr⟩ := h l .eq r rfl
    exact .congr Expr.exists_sides_iff.symm (.bind (hl s s' .kept .kept) fun a b _ =>
      .andThen (hr s s' .kept .kept) fun a b _ => .pure trivial)
  · rename_i hne
    refine .congr (iff_of_false id ?_) (.fail rfl)
    rintro ⟨l, r, hl, -⟩
    exact hne l r hl

/-- The condition of a join is refused unless it is a chain of equalities. -/
theorem alike_matching {constraint : JoinConstraint}
    (h : ∀ e, constraint = .on e → ∀ c ∈ e.conjuncts, ∀ l op r, c.withoutParens = .binary l op r →
      l.Settled ∧ r.Settled) :
    Alike (constraint.supported = true) (constraint.draft s) (constraint.draft s') := by
  cases constraint with
  | unconstrained => exact .congr (by simp [JoinConstraint.supported]) (.pure trivial)
  | shared columns => exact .congr (by simp [JoinConstraint.supported]) (.fail rfl)
  | natural => exact .congr (by simp [JoinConstraint.supported]) (.fail rfl)
  | on e =>
    unfold JoinConstraint.draft JoinConstraint.supported
    rw [Expr.equalityDrafts_eq_map, Expr.equalityDrafts_eq_map]
    refine .congr Expr.equatesAll_iff.symm (.andThen (.sequence fun c hc => ?_) fun as bs _ => ?_)
    · exact alike_equalityDraft s s' (h e rfl c hc)
    · exact .pure trivial

theorem alike_store {relation : Relation}
    (h : ∀ query aliasName, relation = .derived query aliasName → query.Settled) (name : Name) :
    Alike (relation.supported = true) (relation.store s name) (relation.store s' name) := by
  cases relation with
  | table path aliasName =>
    have hload (s : Settings) :
        (Label.text ("Load table " ++ s.tableText path ++ " and store as alias " ++
          s.nameText name)).saysCheck = false := by
      refine Label.saysCheck_eq_false rfl ?_
      simp only [String.append_assoc]
      exact append_ne (by decide) _
    exact .congr (by simp [Relation.supported]) (.step ((hload s).trans (hload s').symm))
  | derived query aliasName => exact .andThen (h query aliasName rfl s s') fun a b _ => .step rfl

theorem alike_load {relation : Relation}
    (h : ∀ query aliasName, relation = .derived query aliasName → query.Settled) :
    Alike (relation.supported = true) (relation.load s) (relation.load s') := by
  cases relation with
  | table path aliasName =>
    have hload (s : Settings) :
        (s.withAlias (.text ("Load data for table " ++ s.tableText path)) aliasName).saysCheck =
          false := by
      cases aliasName <;> exact Label.saysCheck_eq_false rfl (append_ne (by decide) _)
    exact .congr (by simp [Relation.supported]) (.step ((hload s).trans (hload s').symm))
  | derived query aliasName =>
    exact .andThen (h query aliasName rfl s s') fun a b _ => .pure trivial

theorem alike_item {item : SelectItem}
    (h : ∀ value aliasName, item = .expr value aliasName → value.Settled) :
    Alike (item.supported = true) (item.draft s) (item.draft s') := by
  cases item with
  | all => exact .congr (by simp [SelectItem.supported]) (.pure trivial)
  | allOf table => exact .congr (by simp [SelectItem.supported]) (.pure trivial)
  | expr value aliasName =>
    exact .andThen (h value aliasName rfl s s' .kept .kept) fun a b _ => .pure trivial

theorem alike_orderItem {item : OrderItem} (h : item.key.Settled) (q q' : Qualifiers) :
    Alike (item.key.supported = true) (item.draft s q) (item.draft s' q') := by
  obtain ⟨key, descending⟩ := item
  exact .andThen (h s s' q q') fun a b _ => .pure trivial

theorem alike_rows {q : Query} (h : q.RowParts Expr.Settled) (qs qs' : Qualifiers) :
    AlikeRows ((∀ i ∈ q.orderBy, i.key.supported = true) ∧
        (∀ e ∈ q.offset, e.supported = true) ∧ ∀ e ∈ q.limit, e.supported = true)
      ⟨draftsOfOrder s qs q.orderBy, draftOfOption s qs q.offset, draftOfOption s qs q.limit⟩
      ⟨draftsOfOrder s' qs' q.orderBy, draftOfOption s' qs' q.offset,
        draftOfOption s' qs' q.limit⟩ := by
  simp only [draftsOfOrder_eq_map, draftOfOption_eq_map]
  exact alike_rowClauses (fun i hi => alike_orderItem s s' (h.order i hi) qs qs')
    (fun e he => h.offset e he s s' qs qs') fun e he => h.limit e he s s' qs qs'

theorem alike_groups {b : Select} {Q : Query → Prop} (h : b.Parts Expr.Settled Q)
    (q : Qualifiers) :
    AlikeGroups ((∀ e ∈ b.groupBy, e.supported = true) ∧ ∀ e ∈ b.having, e.supported = true)
      ⟨draftsOfExprs s q b.groupBy, draftOfOption s q b.having⟩
      ⟨draftsOfExprs s' q b.groupBy, draftOfOption s' q b.having⟩ := by
  simp only [draftsOfExprs_eq_map, draftOfOption_eq_map]
  exact alike_groupClauses (fun e he => h.keys e he s s' q q) fun e he => h.having e he s s' q q

theorem alike_select {b : Select} (h : b.Parts Expr.Settled Query.Settled) {R : Prop}
    {rows rows' : Qualifiers → RowClauses} (hr : ∀ q, AlikeRows R (rows q) (rows' q)) :
    Alike (b.supported = true ∧ R) (b.draft s rows) (b.draft s' rows') := by
  have hg := alike_groups s s' h
  have hitems : ∀ i ∈ b.projection, Alike (i.supported = true) (i.draft s) (i.draft s') :=
    fun i hi => alike_item s s' fun value aliasName hv => h.items value aliasName (hv ▸ hi)
  have hstore : ∀ l ∈ Source.links b.sources, ∀ name,
      Alike (l.1.supported = true) (l.1.store s name) (l.1.store s' name) :=
    fun l hl name => alike_store s s' (h.derived l hl) name
  have hmatching : ∀ l ∈ Source.links b.sources,
      Alike (l.2.2.supported = true) (l.2.2.draft s) (l.2.2.draft s') :=
    fun l hl => alike_matching s s' (h.matching l hl)
  have hloaded : ∀ l ∈ (Source.links b.sources).head?,
      Alike (l.1.supported = true) (l.1.load s) (l.1.load s') :=
    fun l hl => alike_load s s' (h.derived l (List.mem_of_mem_head? hl))
  have hcondition : ∀ e ∈ b.condition,
      Alike (e.supported = true) (e.draft s .kept) (e.draft s' .kept) :=
    fun e he => (h.condition e he).1 s s' .kept .kept
  have hconjuncts : ∀ e ∈ b.condition.elim [] Expr.conjuncts,
      Alike (e.supported = true) (e.draft s .kept) (e.draft s' .kept) :=
    fun e he => h.conjuncts e he s s' .kept .kept
  -- One relation needs no name and has no join condition, so its case asks for less.
  rw [Select.draft_eq, Select.draft_eq, Select.supported_iff, links_supported_iff]
  split
  · rename_i hlen
    have hne : Source.links b.sources ≠ [] := by
      intro hnil
      simp [Select.relations, ← Source.map_links_fst, hnil] at hlen
    refine .congr ?_ (.selectJoin hne hstore hmatching hconjuncts (hg .dropped) (hr .dropped)
      fun a b => .retrieveAll hitems)
    rw [conjunctsSupported_iff]
    constructor
    · rintro ⟨hnamed, hs, hm, hc, ⟨hk, hh⟩, hR, hp⟩
      exact ⟨⟨hp, ⟨hs, hm⟩, hc, hk, hh, .inr hnamed⟩, hR⟩
    · rintro ⟨⟨hp, ⟨hs, hm⟩, hc, hk, hh, hnamed⟩, hR⟩
      exact ⟨hnamed.resolve_left (Nat.not_le.mpr hlen), hs, hm, hc, ⟨hk, hh⟩, hR, hp⟩
  · rename_i hlen
    have hloads : (∀ l ∈ (Source.links b.sources).head?, l.1.supported = true) ↔
        (∀ l ∈ Source.links b.sources, l.1.supported = true) ∧
          ∀ l ∈ (Source.links b.sources).tail, l.2.2.supported = true := by
      rw [Select.relations, ← Source.map_links_fst, List.length_map] at hlen
      rcases hl : Source.links b.sources with _ | ⟨l, _ | ⟨l', rest⟩⟩
      · simp
      · simp
      · simp [hl] at hlen
    refine .congr ?_ (.selectSingle (.optional hloaded) (fun a b => .filterSingle hcondition)
      (hg .kept) (hr .kept) (.imp (.sequence hitems) fun _ _ _ => trivial))
    rw [hloads]
    constructor
    · rintro ⟨hl, hc, ⟨⟨hk, hh⟩, hR⟩, hp⟩
      exact ⟨⟨hp, hl, hc, hk, hh, .inl (Nat.not_lt.mp hlen)⟩, hR⟩
    · rintro ⟨⟨hp, hl, hc, hk, hh, -⟩, hR⟩
      exact ⟨hl, hc, ⟨⟨hk, hh⟩, hR⟩, hp⟩

theorem Query.supported_iff {q : Query} : q.supported = true ↔ q.body.supported = true ∧
    (∀ i ∈ q.orderBy, i.key.supported = true) ∧
    (∀ e ∈ q.offset, e.supported = true) ∧ ∀ e ∈ q.limit, e.supported = true := by
  obtain ⟨body, orderBy, limit, offset⟩ := q
  simp only [supported, Bool.and_eq_true, orderSupported_iff, optionSupported_iff, and_assoc]
  rw [and_comm (a := ∀ x ∈ limit, _)]

/-- Translating is settled: every constructor is refused exactly where one of its parts is, or where
it is one of the three that are not supported. -/
theorem hereditary_settled : Hereditary Expr.Settled Query.Settled where
  column c s s' q q' := .congr (by simp [Expr.supported]) (.pure trivial)
  literal v s s' q q' := .congr (by simp [Expr.supported]) (.pure trivial)
  binary l op r hl hr s s' q q' := by
    refine .congr (by simp [Expr.supported]) (.bind (hl s s' q q') fun a b _ =>
      .andThen (hr s s' q q') fun a b _ => ?_)
    cases h : op.isArithmetic with
    | true => exact .pure trivial
    | false => exact .check
  unary op e he s s' q q' := by
    refine .congr (by simp [Expr.supported]) (.andThen (he s s' q q') fun a b _ => ?_)
    cases op with
    | not => exact .check
    | neg => exact .pure trivial
    | plus => exact .pure trivial
  isValue e v negated he s s' q q' :=
    .congr (by simp [Expr.supported]) (.andThen (he s s' q q') fun a b _ => .check)
  between e low high negated he hlow hhigh s s' q q' :=
    .congr (by simp [Expr.supported, and_assoc]) (.bind (he s s' q q') fun a b _ =>
      .bind (hlow s s' q q') fun a b _ => .andThen (hhigh s s' q q') fun a b _ => .check)
  inList e items negated he hi s s' q q' := by
    unfold Expr.draft
    rw [draftsOfExprs_eq_map, draftsOfExprs_eq_map]
    exact .congr (by simp [Expr.supported, exprsSupported_iff]) (.bind (he s s' q q') fun a b _ =>
      .andThen (.sequence fun i him => hi i him s s' q q') fun as bs _ => .check)
  inQuery e query negated he hq s s' q q' :=
    .congr (by simp [Expr.supported]) (.bind (he s s' q q') fun a b _ =>
      .andThen (hq s s') fun a b _ => .check)
  existsQuery query negated hq s s' q q' :=
    .congr (by simp [Expr.supported]) (.andThen (hq s s') fun a b _ => .check)
  subquery query hq s s' q q' := hq s s'
  like e pattern negated ignoreCase he hp s s' q q' :=
    .congr (by simp [Expr.supported]) (.bind (he s s' q q') fun a b _ =>
      .andThen (hp s s' q q') fun a b _ => .check)
  call f args distinct ha s s' q q' := by
    unfold Expr.draft
    rw [draftsOfExprs_eq_map, draftsOfExprs_eq_map]
    have hknown := isSome_ofFunction? f.toLower args.length distinct
    split
    · rename_i hcounts
      exact .congr (by simp [Expr.supported, hcounts]) (.pure trivial)
    · rename_i hcounts
      cases hphrase : CallPhrase.ofFunction? f.toLower args.length distinct with
      | none =>
        rw [hphrase, Option.isSome_none] at hknown
        refine .congr ?_ (.fail rfl)
        rw [Expr.supported, ← hknown]
        simp [hcounts]
      | some phrase =>
        rw [hphrase, Option.isSome_some] at hknown
        refine .congr ?_ (.andThen (.sequence fun a ham => ha a ham s s' q q') fun as bs _ =>
          .pure trivial)
        rw [Expr.supported, ← hknown, Bool.true_and, Bool.or_eq_true, exprsSupported_iff]
        simp [hcounts]
  nested e he s s' q q' :=
    .congr (by simp [Expr.supported]) (.andThen (he s s' q q') fun a b _ => .pure trivial)
  wildcard s s' q q' := .congr (by simp [Expr.supported]) (.fail rfl)
  select block orderBy limit offset hb hr s s' := by
    refine .congr Query.supported_iff.symm ?_
    exact alike_select s s' hb fun q => alike_rows s s' hr q q
  setOperation op all l r orderBy limit offset hl hr hrows s s' := by
    refine .congr Query.supported_iff.symm (.congr ?_ (.bind (hl s s') fun a b _ =>
      .bind (hr s s') fun a b _ => .before .combine fun a b _ =>
        (alike_rows s s' hrows .kept .kept).apply a b))
    simp [QueryBody.supported, and_assoc]

end Sql

end QuerySteps
