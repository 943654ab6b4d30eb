import QuerySteps.Proofs.Readability.Expressions
import QuerySteps.Sql.Grammar.Lexicon

/-!
# Arithmetic terms

Columns and numbers under arithmetic operators, minus signs and function calls are put into words
without a step of their own: the label shows operands, operators, minus signs, phrases of functions
and parentheses one after the other. These are the tokens of a term. A minus sign joins the text
that follows it and can still be told from it, so two labels are the same exactly if their tokens
are (`Term.parts_label_eq_iff`).
-/

namespace QuerySteps

open Sql

inductive Arithmetic where
  | plus | minus | times | divide | modulo | concat
  deriving DecidableEq

namespace Arithmetic

def op : Arithmetic → BinaryOp
  | plus => .plus
  | minus => .minus
  | times => .times
  | divide => .divide
  | modulo => .modulo
  | concat => .concat

def sign : Arithmetic → String
  | plus => "+"
  | minus => "-"
  | times => "*"
  | divide => "/"
  | modulo => "%"
  | concat => "||"

/-- How tightly the operator binds. -/
def level (d : Dialect) (o : Arithmetic) : Nat :=
  d.signLevel o.sign

theorem isArithmetic_op (o : Arithmetic) : o.op.isArithmetic = true := by
  cases o <;> rfl

end Arithmetic

/-- A value that is computed from columns and numbers, which are known by their texts. Parentheses
stand where they are shown. -/
inductive Term where
  | leaf (words : String)
  | binary (left : Term) (op : Arithmetic) (right : Term)
  | negate (operand : Term)
  /-- A call whose phrase stands before the argument. -/
  | lead (words : String) (argument : Term)
  | toInteger (argument : Term)
  | toPlaces (argument places : Term)
  | group (inner : Term)
  deriving DecidableEq

namespace Term

/-- The operator of a term that is not in parentheses. -/
def top? : Term → Option Arithmetic
  | binary _ o _ => some o
  | _ => none

/-- The term between parentheses. They are shown around arithmetic only. -/
def nested : Term → Term
  | binary l o r => group (binary l o r)
  | t => t

def label : Term → Label
  | leaf words => .text words
  | binary l o r => l.label.before o.op.words ++ r.label
  | negate t => t.label.signed "-"
  | lead words t => (CallPhrase.lead words).label [t.label]
  | toInteger t => CallPhrase.toInteger.label [t.label]
  | toPlaces t n => CallPhrase.toPlaces.label [t.label, n.label]
  | group t => t.label.parenthesized

/-- What a label shows. -/
inductive Token where
  | leaf (words : String)
  | minus
  | lead (words : String)
  | opening
  | op (o : Arithmetic)
  | toInteger
  /-- What stands before the number of places, which ends with `places`. -/
  | toPlaces
  | places
  | closing
  deriving DecidableEq

/-- What the label of a term shows. -/
def tokens : Term → List Token
  | leaf words => [.leaf words]
  | binary l o r => l.tokens ++ .op o :: r.tokens
  | negate t => .minus :: t.tokens
  | lead words t => .lead words :: t.tokens
  | toInteger t => t.tokens ++ [.toInteger]
  | toPlaces t n => t.tokens ++ .toPlaces :: n.tokens ++ [.places]
  | group t => .opening :: t.tokens ++ [.closing]

/-! ## Labels and tokens -/

namespace Token

def text : Token → String
  | leaf words | lead words => words
  | minus => "-"
  | opening => "("
  | op o => o.op.words
  | toInteger => "rounded to an integer"
  | toPlaces => "rounded to"
  | places => "decimal places"
  | closing => ")"

/-- Whether an operand ends with the token. -/
def endsOperand : Token → Bool
  | leaf _ | toInteger | places | closing => true
  | _ => false

/-- The tokens that stand after an operand. -/
def followers : List Token :=
  [.toInteger, .toPlaces, .places, .closing, .op .plus, .op .minus, .op .times, .op .divide,
    .op .modulo, .op .concat]

def ofFollower (words : String) : Token :=
  (followers.find? fun k => k.text == words).getD .closing

theorem ofFollower_text {k : Token} (h : k ∈ followers) : ofFollower k.text = k := by
  revert k
  decide

end Token

/-- The phrases that stand before an argument. -/
def leads : List String :=
  CallPhrase.leads false ++ CallPhrase.leads true

/-- The token of a text without a minus sign where an operand begins. -/
def Token.ofOperand (words : String) : Token :=
  if words = "(" then .opening else if words ∈ leads then .lead words else .leaf words

/-- The tokens of a text where an operand begins. -/
def Token.signed : List Char → List Token
  | '-' :: rest => .minus :: signed rest
  | rest => [.ofOperand (String.ofList rest)]

/-- The fragments of a label that shows the tokens. -/
def spell : List Token → List Part
  | [] => []
  | .minus :: rest => (Label.signed "-" ⟨spell rest⟩).parts
  | k :: rest => .text k.text :: spell rest

/-- Reads the tokens of a label, where an operand has just ended or is to come. -/
def lex (ended : Bool) : List Part → List Token
  | .text words :: rest =>
    let tokens := if ended then [.ofFollower words] else Token.signed words.toList
    tokens ++ lex (tokens.any Token.endsOperand) rest
  | _ => []

/-- The text of a column or a number is no minus sign, parenthesis or phrase of a function. -/
def IsPlain (words : String) : Prop :=
  words.toList.head? ≠ some '-' ∧ words ≠ "(" ∧ words ∉ leads

instance (words : String) : Decidable (IsPlain words) :=
  inferInstanceAs (Decidable (_ ∧ _ ∧ _))

/-- The texts of columns and numbers are plain, and the phrases are those of functions. -/
def Readable : Term → Prop
  | leaf words => IsPlain words
  | binary l _ r => l.Readable ∧ r.Readable
  | lead words t => words ∈ leads ∧ t.Readable
  | toPlaces t n => t.Readable ∧ n.Readable
  | negate t | toInteger t | group t => t.Readable

theorem parts_signed {a : Label} {words : String} {rest : List Part}
    (h : a.parts = .text words :: rest) :
    (a.signed "-").parts = .text ("-" ++ words) :: rest := by
  obtain ⟨parts⟩ := a
  obtain rfl : parts = _ := h
  rfl

theorem exists_parts_label (t : Term) : ∃ words rest, t.label.parts = .text words :: rest := by
  induction t with
  | leaf words => exact ⟨words, [], rfl⟩
  | lead words t ih => exact ⟨words, _, rfl⟩
  | group t ih => exact ⟨"(", _, rfl⟩
  | negate t ih =>
    obtain ⟨words, rest, h⟩ := ih
    exact ⟨"-" ++ words, rest, parts_signed h⟩
  | binary l o r ihl ihr =>
    obtain ⟨words, rest, h⟩ := ihl
    exact ⟨words, _, by rw [label, Label.parts_append, Label.before, Label.parts_append, h]; rfl⟩
  | toInteger t ih =>
    obtain ⟨words, rest, h⟩ := ih
    exact ⟨words, _, by rw [label, CallPhrase.label, List.flatMap_singleton, h]; rfl⟩
  | toPlaces t n iht ihn =>
    obtain ⟨words, rest, h⟩ := iht
    exact ⟨words, _, by simp [label, CallPhrase.label, h]; rfl⟩

/-- A minus sign joins the first text of a label. -/
theorem parts_signed_append (t : Term) (rest : List Part) :
    (t.label.signed "-").parts ++ rest = (Label.signed "-" ⟨t.label.parts ++ rest⟩).parts := by
  obtain ⟨words, tail, h⟩ := t.exists_parts_label
  rw [parts_signed h, h]
  rfl

theorem spell_tokens (t : Term) (rest : List Token) :
    spell (t.tokens ++ rest) = t.label.parts ++ spell rest := by
  induction t generalizing rest with
  | leaf words => rfl
  | binary l o r ihl ihr =>
    simp [tokens, ihl, ihr, spell, Token.text, label, Label.before, Label.text]
  | negate t ih =>
    rw [tokens, List.cons_append, spell, ih, label, parts_signed_append]
  | lead words t ih => simp [tokens, ih, spell, Token.text, label, CallPhrase.label]
  | toInteger t ih => simp [tokens, ih, spell, Token.text, label, CallPhrase.label]
  | toPlaces t n iht ihn =>
    simp [tokens, iht, ihn, spell, Token.text, label, CallPhrase.label]
  | group t ih => simp [tokens, ih, spell, Token.text, label, Label.parenthesized]

theorem lex_signed (words : String) (rest : List Part) :
    lex false (Label.signed "-" ⟨.text words :: rest⟩).parts =
      .minus :: lex false (.text words :: rest) := by
  simp [Label.signed, lex, Token.signed, Token.endsOperand]

theorem lex_operand {words : String} (h : words.toList.head? ≠ some '-') (rest : List Part) :
    lex false (.text words :: rest) =
      .ofOperand words :: lex (Token.ofOperand words).endsOperand rest := by
  have hsigned : Token.signed words.toList = [.ofOperand words] := by
    unfold Token.signed
    split
    · rename_i heq
      simp [heq] at h
    · simp
  simp [lex, hsigned]

theorem lex_follower {k : Token} (h : k ∈ Token.followers) (rest : List Part) :
    lex true (.text k.text :: rest) = k :: lex k.endsOperand rest := by
  simp [lex, Token.ofFollower_text h]

theorem op_mem_followers (o : Arithmetic) : Token.op o ∈ Token.followers := by
  cases o <;> decide

theorem head?_leads : ∀ words ∈ leads, words.toList.head? ≠ some '-' ∧ words ≠ "(" := by
  decide

/-- The label of a term is read up to where it ends. -/
theorem lex_label {t : Term} (h : t.Readable) (rest : List Part) :
    lex false (t.label.parts ++ rest) = t.tokens ++ lex true rest := by
  induction t generalizing rest with
  | leaf words =>
    obtain ⟨hsign, hopen, hlead⟩ := h
    have htoken : Token.ofOperand words = .leaf words := by
      simp [Token.ofOperand, hopen, hlead]
    have hread := lex_operand hsign rest
    rwa [htoken] at hread
  | binary l o r ihl ihr =>
    have hop := lex_follower (op_mem_followers o) (r.label.parts ++ rest)
    have hparts : (binary l o r).label.parts ++ rest =
        l.label.parts ++ .text o.op.words :: (r.label.parts ++ rest) := by
      simp [label, Label.before, Label.text]
    rw [hparts, ihl h.1]
    simp only [Token.text, Token.endsOperand, ihr h.2] at hop
    simp [hop, tokens]
  | negate t ih =>
    obtain ⟨words, tail, hlabel⟩ := t.exists_parts_label
    rw [label, parts_signed_append, hlabel, List.cons_append, lex_signed, ← List.cons_append,
      ← hlabel, ih h]
    rfl
  | lead words t ih =>
    obtain ⟨hsign, hopen⟩ := head?_leads words h.1
    have htoken : Token.ofOperand words = .lead words := by
      simp [Token.ofOperand, hopen, h.1]
    have hread := lex_operand hsign (t.label.parts ++ rest)
    simp only [htoken, Token.endsOperand, ih h.2] at hread
    simpa [label, CallPhrase.label, tokens] using hread
  | toInteger t ih =>
    have hround := lex_follower (k := .toInteger) (by decide) rest
    have hparts : (toInteger t).label.parts ++ rest =
        t.label.parts ++ .text Token.toInteger.text :: rest := by
      simp [label, CallPhrase.label, Token.text]
    rw [hparts, ih h, hround]
    simp [tokens, Token.endsOperand]
  | toPlaces t n iht ihn =>
    have hplaces := lex_follower (k := .places) (by decide) rest
    have hround := lex_follower (k := .toPlaces) (by decide)
      (n.label.parts ++ .text Token.places.text :: rest)
    have hparts : (toPlaces t n).label.parts ++ rest = t.label.parts ++
        .text Token.toPlaces.text :: (n.label.parts ++ .text Token.places.text :: rest) := by
      simp [label, CallPhrase.label, Token.text]
    simp only [Token.endsOperand, ihn h.2] at hround
    rw [hparts, iht h.1, hround, hplaces]
    simp [tokens, Token.endsOperand]
  | group t ih =>
    have hclose := lex_follower (k := .closing) (by decide) rest
    have hopen := lex_operand (show "(".toList.head? ≠ some '-' by decide)
      (t.label.parts ++ .text Token.closing.text :: rest)
    have hparts : (group t).label.parts ++ rest =
        .text "(" :: (t.label.parts ++ .text Token.closing.text :: rest) := by
      simp [label, Label.parenthesized, Token.text]
    simp only [show Token.ofOperand "(" = .opening from rfl, Token.endsOperand, ih h] at hopen
    rw [hparts, hopen, hclose]
    simp [tokens, Token.endsOperand]

/-- Labels are the same exactly if their tokens are. -/
theorem parts_label_eq_iff {t u : Term} (ht : t.Readable) (hu : u.Readable) :
    t.label.parts = u.label.parts ↔ t.tokens = u.tokens := by
  have hlex {t : Term} (h : t.Readable) : lex false t.label.parts = t.tokens := by
    simpa [lex] using lex_label h []
  have hspell (t : Term) : spell t.tokens = t.label.parts := by
    simpa [spell] using t.spell_tokens []
  constructor
  · intro h
    rw [← hlex ht, h, hlex hu]
  · intro h
    rw [← hspell t, h, hspell u]

end Term

namespace Sql.Expr

inductive IsTerm (s : Settings) (q : Qualifiers) : Expr → Term → Prop where
  | column (c : Column) (h : Term.IsPlain (s.columnText (q.column c))) :
      IsTerm s q (.column c) (.leaf (s.columnText (q.column c)))
  | number (digits : String) (h : Term.IsPlain digits) :
      IsTerm s q (.literal (.number digits)) (.leaf digits)
  | binary {l r : Expr} {t u : Term} (o : Arithmetic) (hl : IsTerm s q l t) (hr : IsTerm s q r u) :
      IsTerm s q (.binary l o.op r) (.binary t o u)
  | negate {e : Expr} {t : Term} (h : IsTerm s q e t) : IsTerm s q (.unary .neg e) (.negate t)
  | countRows {f : String} {distinct : Bool} (hf : countsRows f [.wildcard] = true) :
      IsTerm s q (.call f [.wildcard] distinct) (.leaf "number of rows")
  | lead {f words : String} {distinct : Bool} {e : Expr} {t : Term}
      (hf : CallPhrase.ofFunction? f.toLower 1 distinct = some (.lead words))
      (h : IsTerm s q e t) : IsTerm s q (.call f [e] distinct) (.lead words t)
  | toInteger {f : String} {distinct : Bool} {e : Expr} {t : Term}
      (hf : CallPhrase.ofFunction? f.toLower 1 distinct = some .toInteger)
      (h : IsTerm s q e t) : IsTerm s q (.call f [e] distinct) (.toInteger t)
  | toPlaces {f : String} {distinct : Bool} {e places : Expr} {t n : Term}
      (hf : CallPhrase.ofFunction? f.toLower 2 distinct = some .toPlaces)
      (h : IsTerm s q e t) (hplaces : IsTerm s q places n) :
      IsTerm s q (.call f [e, places] distinct) (.toPlaces t n)
  | nested {e : Expr} {t : Term} (h : IsTerm s q e t) : IsTerm s q (.nested e) t.nested

namespace IsTerm

variable {s : Settings} {q : Qualifiers} {e : Expr} {t : Term}

theorem isArithmetic (h : e.IsTerm s q t) : e.isArithmetic = t.top?.isSome := by
  cases h with
  | binary o hl hr => exact o.isArithmetic_op
  | @nested e t h => cases t <;> rfl
  | _ => rfl

theorem countsRows_eq_false {f : String} (h : e.IsTerm s q t) : countsRows f [e] = false := by
  cases h <;> rfl

theorem draft_eq (h : e.IsTerm s q t) : e.draft s q = pure t.label := by
  induction h with
  | column c h => rfl
  | number digits h => rfl
  | binary o hl hr ihl ihr => simp [Expr.draft, ihl, ihr, o.isArithmetic_op, Term.label]
  | negate h ih => simp [Expr.draft, ih, Term.label]
  | countRows hf => simp [Expr.draft, hf, Term.label]
  | lead hf h ih | toInteger hf h ih =>
    simp [Expr.draft, h.countsRows_eq_false, hf, draftsOfExprs, Draft.sequence, ih, Term.label]
  | toPlaces hf h hplaces ih ihplaces =>
    simp [Expr.draft, countsRows, hf, draftsOfExprs, Draft.sequence, ih, ihplaces, Term.label]
  | @nested e t h ih =>
    simp only [Expr.draft, ih, h.isArithmetic]
    cases t <;> rfl

theorem readable (h : e.IsTerm s q t) : t.Readable := by
  induction h with
  | column c h | number digits h => exact h
  | binary o hl hr ihl ihr => exact ⟨ihl, ihr⟩
  | negate h ih => exact ih
  | countRows hf => exact show Term.IsPlain _ by decide
  | @lead f words distinct e t hf h ih =>
    have hwords := CallPhrase.mem_leads hf
    refine ⟨?_, ih⟩
    cases distinct with
    | false => exact List.mem_append_left _ hwords
    | true => exact List.mem_append_right _ hwords
  | toInteger hf h ih => exact ih
  | toPlaces hf h hplaces ih ihplaces => exact ⟨ih, ihplaces⟩
  | @nested e t h ih => cases t <;> exact ih

end IsTerm

end Sql.Expr

end QuerySteps
