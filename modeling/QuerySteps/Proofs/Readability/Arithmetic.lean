import QuerySteps.Proofs.Readability.Filter
import QuerySteps.Proofs.Readability.Terms

/-!
# Reading arithmetic

Parentheses are shown around arithmetic as they were written, so operators can be read back by how
tightly they bind. The phrases of functions have no end of their own: the label of `abs(a + b)` is
that of `abs(a) + b`. A reader can take them for the shortest operand, and then prefixes come before
roundings: `Term.read` keeps what is open on a stack, as operator precedence parsers do, and finds
back every term in which functions are applied so (`Term.read_tokens`).
-/

namespace QuerySteps

open Sql

namespace Term

def isRounding : Term → Bool
  | toInteger _ | toPlaces .. => true
  | _ => false

/-- Operands are in parentheses where the operators bind so that they have to be. -/
def Shaped (d : Dialect) : Term → Prop
  | leaf _ => True
  | binary l o r =>
    (∀ p ∈ l.top?, o.level d ≤ p.level d) ∧ (∀ p ∈ r.top?, o.level d < p.level d) ∧
      l.Shaped d ∧ r.Shaped d
  | negate t => t.top? = none ∧ t.Shaped d
  | toPlaces t n => t.Shaped d ∧ n.Shaped d
  | lead _ t | toInteger t | group t => t.Shaped d

/-- No function is applied to arithmetic without parentheses, and no minus sign or phrase stands
before a rounded operand. -/
def Closed : Term → Prop
  | leaf _ => True
  | binary l _ r => l.Closed ∧ r.Closed
  | negate t => t.isRounding = false ∧ t.Closed
  | lead _ t => t.top? = none ∧ t.isRounding = false ∧ t.Closed
  | toInteger t => t.top? = none ∧ t.Closed
  | toPlaces t n => t.top? = none ∧ t.Closed ∧ n.Closed
  | group t => t.Closed

/-! ## Reading -/

/-- What waits for the operand that is read. -/
inductive Frame where
  | minus
  | lead (words : String)
  | opening
  | left (operand : Term) (o : Arithmetic)
  /-- A rounding whose number of places is read. -/
  | places (argument : Term)

/-- Whether the right operand of the operator ends where the token stands. -/
def Token.ends (d : Dialect) : Token → Arithmetic → Bool
  | .op o, p => o.level d ≤ p.level d
  | .toInteger, _ | .toPlaces, _ => false
  | _, _ => true

/-- Completes by an operand what waits for it, of operators those that satisfy `p`. -/
def complete (p : Arithmetic → Bool) : List Frame → Term → List Frame × Term
  | .minus :: stack, t => complete p stack (negate t)
  | .lead words :: stack, t => complete p stack (lead words t)
  | .left l o :: stack, t =>
    if p o then complete p stack (binary l o t) else (.left l o :: stack, t)
  | stack, t => (stack, t)

/-- Reads a term, where an operand has just been read or is to come. -/
def read (d : Dialect) : List Frame → Option Term → List Token → Option Term
  | _, none, [] => none
  | stack, some t, [] => some (complete (fun _ => true) stack t).2
  | stack, none, k :: rest =>
    match k with
    | .leaf words => read d stack (some (leaf words)) rest
    | .minus => read d (.minus :: stack) none rest
    | .lead words => read d (.lead words :: stack) none rest
    | .opening => read d (.opening :: stack) none rest
    | _ => none
  | stack, some t, k :: rest =>
    match k, complete (k.ends d) stack t with
    | .op o, (stack, t) => read d (.left t o :: stack) none rest
    | .toInteger, (stack, t) => read d stack (some (toInteger t)) rest
    | .toPlaces, (stack, t) => read d (.places t :: stack) none rest
    | .places, (.places t :: stack, n) => read d stack (some (toPlaces t n)) rest
    | .closing, (.opening :: stack, t) => read d stack (some (group t)) rest
    | _, _ => none

variable {d : Dialect} {stack : List Frame} {t : Term} {rest : List Token}

/-- The frame waits for the whole term, not for its first operand. -/
def Frame.Awaits (d : Dialect) (t : Term) : Frame → Prop
  | minus | lead _ => t.top? = none ∧ t.isRounding = false
  | left _ o => ∀ p ∈ t.top?, o.level d < p.level d
  | opening | places _ => True

/-- The operator of the term has its whole right operand before the rest. -/
def EndsBefore (d : Dialect) (t : Term) (rest : List Token) : Prop :=
  ∀ k ∈ rest.head?, ∀ p ∈ t.top?, k.ends d p = true

theorem Token.ends_mono {k : Token} {o p : Arithmetic} (h : k.ends d o = true)
    (hle : o.level d ≤ p.level d) : k.ends d p = true := by
  cases k with
  | op o' =>
    simp only [Token.ends, decide_eq_true_eq] at h ⊢
    exact Nat.le_trans h hle
  | _ => exact h

theorem endsBefore_of_top?_eq_none (h : t.top? = none) : EndsBefore d t rest := by
  simp [EndsBefore, h]

theorem endsBefore_cons {k : Token} (h : ∀ p ∈ t.top?, k.ends d p = true) :
    EndsBefore d t (k :: rest) := by
  simpa [EndsBefore] using h

theorem Frame.Awaits.of_top?_eq_none {u : Term} {f : Frame} (h : f.Awaits d u)
    (hu : u.isRounding = true) (ht : t.top? = none) : f.Awaits d t := by
  cases f with
  | minus | lead words => simp [Awaits, hu] at h
  | left l o => simp [Awaits, ht]
  | opening | places t => trivial

theorem Frame.Awaits.left {l r : Term} {o : Arithmetic} {f : Frame}
    (h : f.Awaits d (binary l o r)) (hl : ∀ p ∈ l.top?, o.level d ≤ p.level d) :
    f.Awaits d l := by
  cases f with
  | minus | lead words => simp [Awaits, top?] at h
  | left l' o' => exact fun p hp => Nat.lt_of_lt_of_le (h o rfl) (hl p hp)
  | opening | places t => trivial

theorem read_op {r : Term} {o : Arithmetic} (h : ∀ f ∈ stack.head?, f.Awaits d (binary t o r)) :
    read d stack (some t) (.op o :: rest) = read d (.left t o :: stack) none rest := by
  have hcomplete : complete (Token.ends d (.op o)) stack t = (stack, t) := by
    cases stack with
    | nil => rfl
    | cons f stack =>
      have hf : f.Awaits d (binary t o r) := h f rfl
      cases f with
      | minus | lead words => simp [Frame.Awaits, top?] at hf
      | left l o' =>
        have hlt : o'.level d < o.level d := hf o rfl
        simp [complete, Token.ends, Nat.not_le.mpr hlt]
      | opening | places u => rfl
  simp only [read, hcomplete]

/-- A rounding is about the operand before it and the prefixes of that. -/
theorem complete_rounding {u : Term} (hu : u.isRounding = true)
    (h : ∀ f ∈ stack.head?, f.Awaits d u) :
    complete (fun _ => false) stack t = (stack, t) := by
  cases stack with
  | nil => rfl
  | cons f stack =>
    have hf : f.Awaits d u := h f rfl
    cases f with
    | minus | lead words => simp [Frame.Awaits, hu] at hf
    | left l o | opening | places v => rfl

theorem read_toInteger (h : ∀ f ∈ stack.head?, f.Awaits d (toInteger t)) :
    read d stack (some t) (.toInteger :: rest) = read d stack (some (toInteger t)) rest := by
  have hends : Token.ends d .toInteger = fun _ => false := rfl
  simp only [read, hends, complete_rounding rfl h]

theorem read_toPlaces {n : Term} (h : ∀ f ∈ stack.head?, f.Awaits d (toPlaces t n)) :
    read d stack (some t) (.toPlaces :: rest) = read d (.places t :: stack) none rest := by
  have hends : Token.ends d .toPlaces = fun _ => false := rfl
  simp only [read, hends, complete_rounding rfl h]

theorem read_minus :
    read d (.minus :: stack) (some t) rest = read d stack (some (negate t)) rest := by
  cases rest <;> rfl

theorem read_lead {words : String} :
    read d (.lead words :: stack) (some t) rest = read d stack (some (lead words t)) rest := by
  cases rest <;> rfl

theorem read_left {l : Term} {o : Arithmetic} (h : EndsBefore d (binary l o t) rest) :
    read d (.left l o :: stack) (some t) rest = read d stack (some (binary l o t)) rest := by
  cases rest with
  | nil => rfl
  | cons k rest =>
    have hk : k.ends d o = true := h k rfl o rfl
    simp [read, complete, hk]

theorem read_tokens_append (hshape : t.Shaped d) (hclosed : t.Closed)
    (hstack : ∀ f ∈ stack.head?, f.Awaits d t) (hrest : EndsBefore d t rest) :
    read d stack none (t.tokens ++ rest) = read d stack (some t) rest := by
  -- An operand is read over the frame of what it belongs to, so the stack varies with the rest.
  induction t generalizing stack rest with
  | leaf words => rfl
  | binary l o r ihl ihr =>
    obtain ⟨hl, hr, hshapel, hshaper⟩ := hshape
    have hends : ∀ p ∈ l.top?, Token.ends d (.op o) p = true := by
      simpa [Token.ends] using hl
    have hleft : read d stack none (l.tokens ++ .op o :: (r.tokens ++ rest)) =
        read d stack (some l) (.op o :: (r.tokens ++ rest)) :=
      ihl hshapel hclosed.1 (fun f hf => (hstack f hf).left hl) (endsBefore_cons hends)
    -- What ends this operator ends those of the right operand, which bind tighter.
    have hright : read d (.left l o :: stack) none (r.tokens ++ rest) =
        read d (.left l o :: stack) (some r) rest :=
      ihr hshaper hclosed.2 (by simpa [Frame.Awaits] using hr)
        (fun k hk p hp => Token.ends_mono (hrest k hk o rfl) (Nat.le_of_lt (hr p hp)))
    rw [tokens, List.append_assoc, List.cons_append, hleft, read_op hstack, hright,
      read_left hrest]
  | negate t ih =>
    have hoperand : read d (.minus :: stack) none (t.tokens ++ rest) =
        read d (.minus :: stack) (some t) rest :=
      ih hshape.2 hclosed.2 (by simpa [Frame.Awaits] using ⟨hshape.1, hclosed.1⟩)
        (endsBefore_of_top?_eq_none hshape.1)
    exact hoperand.trans read_minus
  | lead words t ih =>
    obtain ⟨htop, hround, hclosed⟩ := hclosed
    have hargument : read d (.lead words :: stack) none (t.tokens ++ rest) =
        read d (.lead words :: stack) (some t) rest :=
      ih hshape hclosed (by simpa [Frame.Awaits] using ⟨htop, hround⟩)
        (endsBefore_of_top?_eq_none htop)
    exact hargument.trans read_lead
  | toInteger t ih =>
    have hargument : read d stack none (t.tokens ++ .toInteger :: rest) =
        read d stack (some t) (.toInteger :: rest) :=
      ih hshape hclosed.2 (fun f hf => (hstack f hf).of_top?_eq_none rfl hclosed.1)
        (endsBefore_of_top?_eq_none hclosed.1)
    rw [tokens, List.append_assoc, List.singleton_append, hargument, read_toInteger hstack]
  | toPlaces t n iht ihn =>
    obtain ⟨htop, hclosedt, hclosedn⟩ := hclosed
    have hargument : read d stack none (t.tokens ++ .toPlaces :: (n.tokens ++ .places :: rest)) =
        read d stack (some t) (.toPlaces :: (n.tokens ++ .places :: rest)) :=
      iht hshape.1 hclosedt (fun f hf => (hstack f hf).of_top?_eq_none rfl htop)
        (endsBefore_of_top?_eq_none htop)
    have hplaces : read d (.places t :: stack) none (n.tokens ++ .places :: rest) =
        read d (.places t :: stack) (some n) (.places :: rest) :=
      ihn hshape.2 hclosedn (by simp [Frame.Awaits]) (endsBefore_cons fun p hp => rfl)
    have htokens : (toPlaces t n).tokens ++ rest =
        t.tokens ++ .toPlaces :: (n.tokens ++ .places :: rest) := by
      simp [tokens]
    rw [htokens, hargument, read_toPlaces hstack, hplaces]
    rfl
  | group t ih =>
    have hinner : read d (.opening :: stack) none (t.tokens ++ .closing :: rest) =
        read d (.opening :: stack) (some t) (.closing :: rest) :=
      ih hshape hclosed (by simp [Frame.Awaits]) (endsBefore_cons fun p hp => rfl)
    have htokens : (group t).tokens ++ rest = .opening :: (t.tokens ++ .closing :: rest) := by
      simp [tokens]
    rw [htokens]
    exact hinner

theorem read_tokens (hshape : t.Shaped d) (hclosed : t.Closed) :
    read d [] none t.tokens = some t := by
  have hread : read d [] none (t.tokens ++ []) = read d [] (some t) [] :=
    read_tokens_append hshape hclosed nofun nofun
  rwa [List.append_nil] at hread

theorem tokens_injective {u : Term} (ht : t.Shaped d) (hu : u.Shaped d) (hct : t.Closed)
    (hcu : u.Closed) (h : t.tokens = u.tokens) : t = u := by
  have hread := read_tokens ht hct
  rw [h, read_tokens hu hcu] at hread
  exact (Option.some.inj hread).symm

end Term

/-- Arithmetic has the same label exactly if the labels show the same tokens. If functions are
applied to shortest operands, as the reader takes them, then different terms have different labels.
Terms that differ after redundant parentheses are dropped differ with them, too. -/
theorem parts_eq_iff_tokens_eq {s : Settings} {q : Qualifiers} {e e' : Expr} {t t' : Term}
    (he : e.IsTerm s q t) (he' : e'.IsTerm s q t') (d : Dialect) :
    ∃ a a', e.draft s q = pure a ∧ e'.draft s q = pure a' ∧
      (a.parts = a'.parts ↔ t.tokens = t'.tokens) ∧
      (t.Shaped d → t'.Shaped d → t.Closed → t'.Closed → t ≠ t' → a.parts ≠ a'.parts) := by
  have hiff := Term.parts_label_eq_iff he.readable he'.readable
  refine ⟨t.label, t'.label, he.draft_eq, he'.draft_eq, hiff, ?_⟩
  intro hshape hshape' hclosed hclosed' hne heq
  exact hne (Term.tokens_injective hshape hshape' hclosed hclosed' (hiff.mp heq))

def columnTerm (name : String) : Term :=
  .leaf (({} : Settings).columnText { name := ⟨name, false⟩ })

theorem bareColumn_isTerm {name : String}
    (h : Term.IsPlain (({} : Settings).columnText { name := ⟨name, false⟩ })) :
    (bareColumn name).IsTerm {} .kept (columnTerm name) :=
  .column _ h

theorem abs_isTerm {s : Settings} {q : Qualifiers} {e : Expr} {t : Term} (h : e.IsTerm s q t) :
    (Expr.call "ABS" [e] false).IsTerm s q (.lead "absolute value of" t) :=
  .lead (by decide +kernel) h

/-- `ABS((a + b))` and `ABS(a) + b`. -/
theorem parts_eq_iff_tokens_eq_enclosed :
    let sum := Expr.binary (bareColumn "a") .plus (bareColumn "b")
    let t := Term.lead "absolute value of"
      (.group (.binary (columnTerm "a") .plus (columnTerm "b")))
    let t' := Term.binary (.lead "absolute value of" (columnTerm "a")) .plus (columnTerm "b")
    ∃ a a', (Expr.call "ABS" [.nested sum] false).draft {} .kept = pure a ∧
      (Expr.binary (.call "ABS" [bareColumn "a"] false) .plus (bareColumn "b")).draft {} .kept =
        pure a' ∧
      (a.parts = a'.parts ↔ t.tokens = t'.tokens) ∧
      (t.Shaped .generic → t'.Shaped .generic → t.Closed → t'.Closed → t ≠ t' →
        a.parts ≠ a'.parts) := by
  have ha : (bareColumn "a").IsTerm {} .kept (columnTerm "a") := bareColumn_isTerm (by decide)
  have hb : (bareColumn "b").IsTerm {} .kept (columnTerm "b") := bareColumn_isTerm (by decide)
  exact parts_eq_iff_tokens_eq (abs_isTerm (.nested (.binary .plus ha hb)))
    (.binary .plus (abs_isTerm ha) hb) .generic

/-- `ABS(a + b)` and `ABS(a) + b` are different terms without parentheses, and their labels are the
same. -/
theorem parts_eq_of_term_ne :
    let e := Expr.call "ABS" [.binary (bareColumn "a") .plus (bareColumn "b")] false
    let e' := Expr.binary (.call "ABS" [bareColumn "a"] false) .plus (bareColumn "b")
    ∃ t t', e.IsTerm {} .kept t ∧ e'.IsTerm {} .kept t' ∧ t ≠ t' ∧
      Term.Token.opening ∉ t.tokens ++ t'.tokens ∧ (∀ d, t.Shaped d ∧ t'.Shaped d) ∧
      ∃ a a', e.draft {} .kept = pure a ∧ e'.draft {} .kept = pure a' ∧ a.parts = a'.parts := by
  have ha : (bareColumn "a").IsTerm {} .kept (columnTerm "a") := bareColumn_isTerm (by decide)
  have hb : (bareColumn "b").IsTerm {} .kept (columnTerm "b") := bareColumn_isTerm (by decide)
  have hwhole := abs_isTerm (.binary .plus ha hb)
  have hfirst := Expr.IsTerm.binary .plus (abs_isTerm ha) hb
  refine ⟨_, _, hwhole, hfirst, by simp, by decide, fun d => ?_, _, _, hwhole.draft_eq,
    hfirst.draft_eq, rfl⟩
  simp [Term.Shaped, Term.top?, columnTerm]

end QuerySteps
