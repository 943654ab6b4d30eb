import Mathlib.Data.List.TakeDrop
import QuerySteps.CommandLine.Arguments

/-!
# What arguments give

A command line that asks for a plan is a sequence of options with their values, of switches and of
queries, each spelled in one of a few ways. `Spells` is this grammar; it says nothing about the
order in which arguments are read or about which of them may be given twice.

The reading of the arguments is sound for it: whatever it accepts is spelled so
(`exists_spells`), and in any such spelling every option has exactly the values that were taken for
it (`given_of_spells`).
-/

namespace QuerySteps.CommandLine

/-! ## The grammar -/

/-- What one or two arguments give. -/
inductive Occurrence where
  | setting (s : Setting) (text : String)
  | quoteNames
  | keepChecks
  | query (text : String)
  deriving Repr, DecidableEq

/-- How something is given. A value in an argument of its own does not look like an option. -/
inductive Spelling : List String → Occurrence → Prop
  | separate (s : Setting) {text : String} (h : Shape.of text = .word) :
      Spelling [s.spelling, text] (.setting s text)
  | attached (s : Setting) (text : String) :
      Spelling [s.spelling ++ "=" ++ text] (.setting s text)
  | letter {text : String} (h : Shape.of text = .word) :
      Spelling ["-f", text] (.setting .file text)
  | letterAttached {text : String} (hne : text ≠ "") (h : text.toList.head? ≠ some '=') :
      Spelling ["-f" ++ text] (.setting .file text)
  | letterEquated (text : String) : Spelling ["-f=" ++ text] (.setting .file text)
  | quoteNames : Spelling ["--quote-identifiers"] .quoteNames
  | keepChecks : Spelling ["--no-simplify"] .keepChecks
  | query {text : String} (h : Shape.of text = .word) : Spelling [text] (.query text)

/-- How arguments give one thing after another; after two dashes all are queries. -/
inductive Spells : List String → List Occurrence → Prop
  | nil : Spells [] []
  | cons {words rest : List String} {occurrence : Occurrence} {given : List Occurrence}
      (h : Spelling words occurrence) (hrest : Spells rest given) :
      Spells (words ++ rest) (occurrence :: given)
  | queries (texts : List String) : Spells ("--" :: texts) (texts.map .query)

/-! ## Forms of arguments -/

namespace Shape

theorem of_spelling (s : Setting) : Shape.of s.spelling = .long s.spelling none := by
  cases s <;> decide

theorem of_attached (s : Setting) (text : String) :
    Shape.of (s.spelling ++ "=" ++ text) = .long s.spelling (some text) := by
  have htext : String.ofList text.toList = text := String.ofList_toList
  unfold Shape.of
  rw [String.toList_append, String.toList_append]
  cases s <;> simp [Setting.spelling, List.span, List.span.loop, htext]

theorem of_letter (text : String) : Shape.of ("-f" ++ text) = .short 'f' text.toList := by
  unfold Shape.of
  rw [String.toList_append]
  simp

/-- The argument has the form: the text of the form is the argument. -/
def Fits (argument : String) : Shape → Prop
  | .separator => argument = "--"
  | .long option none => argument = option
  | .long option (some value) => argument = option ++ "=" ++ value
  | .short letter attached => argument = String.ofList ('-' :: letter :: attached)
  | .word => True

theorem fits_of (argument : String) : Fits argument (Shape.of argument) := by
  have htext : String.ofList argument.toList = argument := String.ofList_toList
  unfold Shape.of
  split
  · rename_i h
    rw [Fits, ← htext, h]
  · rename_i text _ h
    split
    · rename_i name value hspan
      rw [List.span_eq_takeWhile_dropWhile, Prod.mk.injEq] at hspan
      have hsplit : text = name ++ '=' :: value := by
        rw [← hspan.1, ← hspan.2, List.takeWhile_append_dropWhile]
      rw [Fits, ← String.toList_inj, h, hsplit]
      simp
    · rfl
  · rename_i h
    rw [Fits, ← htext, h]
  · trivial

theorem fits {argument : String} {shape : Shape} (h : Shape.of argument = shape) :
    Fits argument shape :=
  h ▸ fits_of argument

end Shape

namespace Setting

theorem ofSpelling?_spelling (s : Setting) : ofSpelling? s.spelling = some s := by
  cases s <;> decide

theorem spelling_of_ofSpelling? {option : String} {s : Setting}
    (h : ofSpelling? option = some s) : option = s.spelling := by
  have hfound := List.find?_some h
  exact (eq_of_beq hfound).symm

end Setting

/-! ## Reading -/

namespace Arguments

/-- Takes what is given at one place. -/
def take (a : Arguments) : Occurrence → Except ArgumentError Arguments
  | .setting s text => a.assign s text
  | .quoteNames =>
    if a.quoteNames then .error (.repeated "--quote-identifiers")
    else pure { a with quoteNames := true }
  | .keepChecks =>
    if a.keepChecks then .error (.repeated "--no-simplify") else pure { a with keepChecks := true }
  | .query text => a.takeQuery text

def takeAll (a : Arguments) : List Occurrence → Except ArgumentError Arguments
  | [] => pure a
  | occurrence :: given => do
    let a ← a.take occurrence
    a.takeAll given

theorem takeAll_queries (a : Arguments) (texts : List String) :
    a.takeAll (texts.map .query) = a.takeQueries texts := by
  induction texts generalizing a with
  | nil => rfl
  | cons text texts ih =>
    show (do let a ← a.takeQuery text; a.takeAll (texts.map .query)) = _
    simp only [ih]
    rfl

end Arguments

namespace Request

variable {env : Settings.Environment} {a : Arguments}

theorem readFrom_of_letter {argument : String} {attached : List Char}
    (h : Shape.of argument = .short 'f' attached) (hne : attached ≠ []) (rest : List String) :
    readFrom env a (argument :: rest) = (do
      let a ← a.assign .file (String.ofList
        (if attached.head? = some '=' then attached.tail else attached))
      readFrom env a rest) := by
  rw [readFrom, h]
  by_cases hhead : attached.head? = some '='
  · obtain ⟨text, rfl⟩ : ∃ text, attached = '=' :: text := by
      cases attached <;> simp_all
    simp only [List.head?_cons, if_true, List.tail_cons]
    cases a.assign .file (String.ofList text) <;> rfl
  · rw [if_neg hhead]
    split <;> rename_i hshape <;> cases hshape
    · exact absurd rfl hne
    · exact absurd rfl hhead
    · cases a.assign .file (String.ofList attached) <;> rfl
    · contradiction

theorem readFrom_of_spelling {words : List String} {occurrence : Occurrence}
    (h : Spelling words occurrence) (rest : List String) :
    readFrom env a (words ++ rest) = (do
      let a ← a.take occurrence
      readFrom env a rest) := by
  cases h with
  | @separate s text hword =>
    rw [List.cons_append, List.singleton_append, readFrom, Shape.of_spelling]
    simp only [Setting.ofSpelling?_spelling, hword, beq_self_eq_true, if_true, Arguments.take]
    cases a.assign s text <;> rfl
  | attached s text =>
    rw [List.singleton_append, readFrom, Shape.of_attached]
    simp only [Setting.ofSpelling?_spelling, Arguments.take]
    cases a.assign s text <;> rfl
  | @letter text hword =>
    rw [List.cons_append, List.singleton_append, readFrom,
      show Shape.of "-f" = .short 'f' [] by decide]
    simp only [hword, beq_self_eq_true, if_true, Arguments.take]
    cases a.assign .file text <;> rfl
  | @letterAttached text hne hhead =>
    rw [List.singleton_append,
      readFrom_of_letter (Shape.of_letter text) (mt String.toList_eq_nil_iff.mp hne), if_neg hhead,
      String.ofList_toList]
    rfl
  | letterEquated text =>
    have hsplit : "-f=" ++ text = "-f" ++ ("=" ++ text) := by simp [← String.append_assoc]
    have hlist : ("=" ++ text).toList = '=' :: text.toList := by simp
    rw [List.singleton_append, hsplit,
      readFrom_of_letter (hlist ▸ Shape.of_letter ("=" ++ text)) (List.cons_ne_nil _ _),
      if_pos List.head?_cons, List.tail_cons, String.ofList_toList]
    rfl
  | quoteNames =>
    rw [List.singleton_append, readFrom,
      show Shape.of "--quote-identifiers" = .long "--quote-identifiers" none by decide]
    simp only [show Setting.ofSpelling? "--quote-identifiers" = none by decide, Arguments.take]
    cases a.quoteNames <;> rfl
  | keepChecks =>
    rw [List.singleton_append, readFrom,
      show Shape.of "--no-simplify" = .long "--no-simplify" none by decide]
    simp only [show Setting.ofSpelling? "--no-simplify" = none by decide, Arguments.take]
    cases a.keepChecks <;> rfl
  | @query text hword =>
    rw [List.singleton_append, readFrom, hword]
    simp only [Arguments.take]
    cases a.takeQuery text <;> rfl

/-- To read arguments is to take what they give. -/
theorem readFrom_of_spells {arguments : List String} {given : List Occurrence}
    (h : Spells arguments given) : readFrom env a arguments = (do
      let a ← a.takeAll given
      a.complete env) := by
  induction h generalizing a with
  | nil => rw [readFrom]; rfl
  | cons h hrest ih =>
    rw [readFrom_of_spelling h, Arguments.takeAll, bind_assoc]
    exact bind_congr fun a => ih
  | queries texts =>
    rw [readFrom, show Shape.of "--" = .separator by decide, Arguments.takeAll_queries]
    cases a.takeQueries texts <;> rfl

theorem exists_spelling_of_letter {attached : List Char} (hne : attached ≠ []) :
    ∃ occurrence, Spelling [String.ofList ('-' :: 'f' :: attached)] occurrence := by
  by_cases hhead : attached.head? = some '='
  · obtain ⟨text, rfl⟩ : ∃ text, attached = '=' :: text := by
      cases attached <;> simp_all
    have hsplit : String.ofList ('-' :: 'f' :: '=' :: text) = "-f=" ++ String.ofList text := by
      simp [← String.toList_inj]
    rw [hsplit]
    exact ⟨_, .letterEquated (String.ofList text)⟩
  · have hsplit : String.ofList ('-' :: 'f' :: attached) = "-f" ++ String.ofList attached := by
      simp [← String.toList_inj]
    rw [hsplit]
    exact ⟨_, .letterAttached (by simpa using hne) (by simpa using hhead)⟩

/-- The arguments begin with a spelling of something. -/
def Opens (arguments : List String) : Prop :=
  ∃ words rest occurrence, arguments = words ++ rest ∧ words ≠ [] ∧ Spelling words occurrence

theorem opens_cons {argument : String} {rest : List String} {occurrence : Occurrence}
    (h : Spelling [argument] occurrence) : Opens (argument :: rest) :=
  ⟨[argument], rest, occurrence, rfl, List.cons_ne_nil _ _, h⟩

theorem opens_cons_cons {argument text : String} {rest : List String} {occurrence : Occurrence}
    (h : Spelling [argument, text] occurrence) : Opens (argument :: text :: rest) :=
  ⟨[argument, text], rest, occurrence, rfl, List.cons_ne_nil _ _, h⟩

section

variable {argument : String} {rest : List String} {b : Arguments} {offset : Nat} {marker : String}

theorem opens_short {letter : Char} {attached : List Char}
    (hshape : Shape.of argument = .short letter attached)
    (h : readFrom env a (argument :: rest) = .ok (.plan b offset marker)) :
    Opens (argument :: rest) := by
  obtain rfl : argument = String.ofList ('-' :: letter :: attached) := Shape.fits hshape
  by_cases hletter : letter = 'f'
  · subst hletter
    cases attached with
    | nil =>
      rw [readFrom, hshape] at h
      cases rest with
      | nil => cases h
      | cons text rest =>
        cases hword : Shape.of text == .word with
        | false => simp [hword] at h
        | true => exact opens_cons_cons (.letter (eq_of_beq hword))
    | cons c attached =>
      obtain ⟨_, hspelling⟩ := exists_spelling_of_letter (List.cons_ne_nil c attached)
      exact opens_cons hspelling
  · rw [readFrom, hshape] at h
    split at h <;> rename_i heq <;> cases heq <;> first | contradiction | cases h

theorem opens_long {option : String} {value : Option String}
    (hshape : Shape.of argument = .long option value)
    (h : readFrom env a (argument :: rest) = .ok (.plan b offset marker)) :
    Opens (argument :: rest) := by
  rw [readFrom, hshape] at h
  cases hs : Setting.ofSpelling? option with
  | some s =>
    obtain rfl := Setting.spelling_of_ofSpelling? hs
    cases value with
    | some text =>
      obtain rfl : argument = s.spelling ++ "=" ++ text := Shape.fits hshape
      exact opens_cons (.attached s text)
    | none =>
      obtain rfl : argument = s.spelling := Shape.fits hshape
      simp only [hs] at h
      cases rest with
      | nil => cases h
      | cons text rest =>
        cases hword : Shape.of text == .word with
        | false => simp [hword] at h
        | true => exact opens_cons_cons (.separate s (eq_of_beq hword))
  | none =>
    cases value with
    | some text =>
      simp only [hs] at h
      split at h <;> cases h
    | none =>
      obtain rfl : argument = option := Shape.fits hshape
      simp only [hs] at h
      split at h
      · cases h
      · cases h
      · exact opens_cons .quoteNames
      · exact opens_cons .keepChecks
      · cases h

/-- An accepted command line begins with a spelling of something, or all of it are queries. -/
theorem opens_of_readFrom (h : readFrom env a (argument :: rest) = .ok (.plan b offset marker)) :
    argument = "--" ∨ Opens (argument :: rest) := by
  cases hshape : Shape.of argument with
  | separator => exact .inl (Shape.fits hshape)
  | word => exact .inr (opens_cons (.query hshape))
  | short letter attached => exact .inr (opens_short hshape h)
  | long option value => exact .inr (opens_long hshape h)

end

/-- Whatever is accepted is spelled by the grammar. -/
theorem exists_spells {arguments : List String} {b : Arguments} {offset : Nat} {marker : String}
    (h : readFrom env a arguments = .ok (.plan b offset marker)) :
    ∃ given, Spells arguments given := by
  induction hlength : arguments.length using Nat.strongRecOn generalizing arguments a with
  | ind n ih =>
    cases arguments with
    | nil => exact ⟨[], .nil⟩
    | cons argument rest =>
      obtain rfl | ⟨words, rest', occurrence, hsplit, hne, hspelling⟩ := opens_of_readFrom h
      · exact ⟨_, .queries rest⟩
      · rw [hsplit, readFrom_of_spelling hspelling] at h
        cases htake : a.take occurrence with
        | error e =>
          rw [htake] at h
          cases h
        | ok a' =>
          rw [htake] at h
          have hshorter : rest'.length < n := by
            have hcount := congrArg List.length hsplit
            have hwords := List.length_pos_iff.mpr hne
            rw [List.length_append, hlength] at hcount
            omega
          obtain ⟨given, hgiven⟩ := ih _ hshorter h rfl
          exact ⟨occurrence :: given, hsplit ▸ .cons hspelling hgiven⟩

end Request

/-! ## What is taken -/

def Occurrence.value? (s : Setting) : Occurrence → Option String
  | setting s' text => if s' = s then some text else none
  | _ => none

def Occurrence.query? : Occurrence → Option String
  | query text => some text
  | _ => none

def values (given : List Occurrence) (s : Setting) : List String :=
  given.filterMap (·.value? s)

def queries (given : List Occurrence) : List String :=
  given.filterMap (·.query?)

def readTruth? (text : String) : Option Bool :=
  [("true", true), ("false", false)].lookup text

def readPath? (text : String) : Option String :=
  if text.isEmpty then none else some text

def readDialect? (text : String) : Option Sql.Dialect :=
  (Sql.Dialect.ofName text).toOption

/-- Nothing was given and nothing taken, or one value was given and read as what was taken. -/
def Once {α : Type} (read : String → Option α) (values : List String) (taken : Option α) : Prop :=
  values.map read = taken.toList.map some

theorem Once.append {α : Type} {read : String → Option α} {values : List String} {text : String}
    (h : Once read values none) (htext : (read text).isSome = true) :
    Once read (values ++ [text]) (read text) := by
  obtain ⟨a, ha⟩ := Option.isSome_iff_exists.mp htext
  simp_all [Once]

namespace Arguments

/-- The values given to an option are the one that was taken, or all of those that were. -/
def Holds (a : Arguments) (values : List String) : Setting → Prop
  | .file => Once readPath? values a.file
  | .caseSensitive => Once readTruth? values a.caseSensitive
  | .dialect => Once readDialect? values a.dialect
  | .sink => Once some values a.sink
  | .prologue => a.prologue = values
  | .interlude => Once some values a.interlude
  | .offset => Once readOffset? values a.offset
  | .marker => Once some values a.marker

/-- All that was taken is all that was given. -/
structure TakenFrom (a : Arguments) (given : List Occurrence) : Prop where
  settings : ∀ s, a.Holds (values given s) s
  query : Once some (queries given) a.query
  quoteNames : a.quoteNames = true ↔ .quoteNames ∈ given
  keepChecks : a.keepChecks = true ↔ .keepChecks ∈ given

theorem bind_once_eq_ok {α : Type} {s : Setting} {before value : Option α} {text : String}
    {f : Option α → Arguments} {b : Arguments} :
    (do let after ← once s before value text; pure (f after)) = Except.ok b ↔
      before = none ∧ value.isSome ∧ b = f value := by
  cases before <;> cases value <;> simp [once, pure, Except.pure, bind, Except.bind, eq_comm]

theorem holds_assign {a b : Arguments} {s : Setting} {text : String}
    (h : a.assign s text = .ok b) :
    (∀ values, a.Holds values s → b.Holds (values ++ [text]) s) ∧
    (∀ s', s' ≠ s → ∀ values, a.Holds values s' → b.Holds values s') ∧
    b.query = a.query ∧ b.quoteNames = a.quoteNames ∧ b.keepChecks = a.keepChecks := by
  cases s
  case prologue =>
    cases h
    refine ⟨fun values h => congrArg (· ++ [text]) h, fun s' hs values h => ?_, rfl, rfl, rfl⟩
    cases s' <;> first | exact h | contradiction
  -- All other options are given once at most.
  all_goals
    obtain ⟨hnone, hsome, rfl⟩ := bind_once_eq_ok.mp h
    refine ⟨fun values h => Once.append (hnone ▸ h) hsome, fun s' hs values h => ?_, rfl, rfl, rfl⟩
    cases s' <;> first | exact h | contradiction

theorem takenFrom_nil : TakenFrom {} [] where
  settings s := by cases s <;> rfl
  query := rfl
  quoteNames := by simp
  keepChecks := by simp

theorem TakenFrom.take {a b : Arguments} {given : List Occurrence} {occurrence : Occurrence}
    (h : a.TakenFrom given) (hb : a.take occurrence = .ok b) :
    b.TakenFrom (given ++ [occurrence]) := by
  have hvalues (s : Setting) : values (given ++ [occurrence]) s =
      values given s ++ (occurrence.value? s).toList := by
    rw [values, List.filterMap_append]
    cases hvalue : occurrence.value? s <;> simp [hvalue, values]
  have hqueries : queries (given ++ [occurrence]) = queries given ++ occurrence.query?.toList := by
    rw [queries, List.filterMap_append]
    cases hquery : occurrence.query? <;> simp [hquery, queries]
  have hsettings (hnone : ∀ s, occurrence.value? s = none)
      (hsame : ∀ s values, a.Holds values s → b.Holds values s) (s : Setting) :
      b.Holds (values (given ++ [occurrence]) s) s := by
    rw [hvalues, hnone, Option.toList_none, List.append_nil]
    exact hsame s _ (h.settings s)
  cases occurrence with
  | setting s text =>
    obtain ⟨hsame, hother, hq, hn, hk⟩ := holds_assign hb
    refine ⟨fun s' => ?_, ?_, ?_, ?_⟩
    · rw [hvalues]
      by_cases hs : s' = s
      · subst hs
        simpa [Occurrence.value?] using hsame _ (h.settings s')
      · simpa [Occurrence.value?, Ne.symm hs] using hother s' hs _ (h.settings s')
    · simpa [hqueries, Occurrence.query?, hq] using h.query
    · simpa [hn] using h.quoteNames
    · simpa [hk] using h.keepChecks
  | quoteNames =>
    simp only [Arguments.take] at hb
    split at hb <;> cases hb
    refine ⟨hsettings (fun _ => rfl) fun s _ h => by cases s <;> exact h, ?_, by simp, ?_⟩
    · simpa [hqueries, Occurrence.query?] using h.query
    · simpa using h.keepChecks
  | keepChecks =>
    simp only [Arguments.take] at hb
    split at hb <;> cases hb
    refine ⟨hsettings (fun _ => rfl) fun s _ h => by cases s <;> exact h, ?_, ?_, by simp⟩
    · simpa [hqueries, Occurrence.query?] using h.query
    · simpa using h.quoteNames
  | query text =>
    simp only [Arguments.take, takeQuery] at hb
    split at hb <;> cases hb
    rename_i hnone
    refine ⟨hsettings (fun _ => rfl) fun s _ h => by cases s <;> exact h, ?_, ?_, ?_⟩
    · rw [hqueries]
      exact Once.append (hnone ▸ h.query) rfl
    · simpa using h.quoteNames
    · simpa using h.keepChecks

theorem TakenFrom.takeAll {a b : Arguments} {before given : List Occurrence}
    (h : a.TakenFrom before) (hb : a.takeAll given = .ok b) : b.TakenFrom (before ++ given) := by
  induction given generalizing a before with
  | nil =>
    cases hb
    rwa [List.append_nil]
  | cons occurrence given ih =>
    cases htake : a.take occurrence with
    | error e => simp [Arguments.takeAll, htake, bind, Except.bind] at hb
    | ok next =>
      simp only [Arguments.takeAll, htake, bind, Except.bind] at hb
      rw [← List.singleton_append, ← List.append_assoc]
      exact ih (h.take htake) hb

theorem complete_eq_ok {a b : Arguments} {env : Settings.Environment} {offset : Nat}
    {marker : String} (h : a.complete env = .ok (.plan b offset marker)) :
    b = { a with offset := b.offset } ∧
    offset = (a.offset <|> (env "NLPLAN_OFFSET").bind readOffset?).getD 0 ∧
    marker = (a.marker <|> env "NLPLAN_PREFIX").getD "" := by
  unfold complete at h
  cases hoffset : a.offset with
  | some n =>
    simp only [hoffset, bind, Except.bind, pure, Except.pure] at h
    split at h <;> cases h
    exact ⟨rfl, by simp, rfl⟩
  | none =>
    cases henv : env "NLPLAN_OFFSET" with
    | none =>
      simp only [hoffset, henv, bind, Except.bind, pure, Except.pure] at h
      split at h <;> cases h
      exact ⟨rfl, by simp, rfl⟩
    | some text =>
      cases hassign : a.assign .offset text with
      | error e => simp [hoffset, henv, hassign, bind, Except.bind] at h
      | ok c =>
        simp only [hoffset, henv, hassign, bind, Except.bind, pure, Except.pure] at h
        obtain ⟨-, -, rfl⟩ := bind_once_eq_ok.mp hassign
        split at h <;> cases h
        exact ⟨rfl, by simp, rfl⟩

end Arguments

/-- What an accepted command line asks for is what it gives, however its spelling is read. -/
theorem Request.given_of_spells {env : Settings.Environment} {arguments : List String}
    {given : List Occurrence} {b : Arguments} {offset : Nat} {marker : String}
    (h : ofArguments env arguments = .ok (.plan b offset marker))
    (hspells : Spells arguments given) :
    ∃ a : Arguments, a.TakenFrom given ∧ b = { a with offset := b.offset } ∧
      offset = (a.offset <|> (env "NLPLAN_OFFSET").bind readOffset?).getD 0 ∧
      marker = (a.marker <|> env "NLPLAN_PREFIX").getD "" := by
  rw [ofArguments, readFrom_of_spells hspells] at h
  cases htake : Arguments.takeAll {} given with
  | error e => simp [htake, bind, Except.bind] at h
  | ok a =>
    simp only [htake, bind, Except.bind] at h
    exact ⟨a, Arguments.takenFrom_nil.takeAll htake, Arguments.complete_eq_ok h⟩

end QuerySteps.CommandLine
