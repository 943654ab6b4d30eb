import QuerySteps.CommandLine.Run
import QuerySteps.Proofs.CommandLine.Given
import QuerySteps.Proofs.Plan.Resolution

/-!
# How a run ends

A run that plans a query agrees with the library. Each setting comes from its option, or else from
its environment variable, or else it has its default (`settingsFor`). The run prints the plan under
these settings, unless a variable is invalid, the query cannot be read or it cannot be planned
(`Ends`). Once a query is planned nothing goes wrong any more, since the references of a plan that
passed its validation can be written out.
-/

namespace QuerySteps

open CommandLine

/-! ## Printing a plan -/

theorem Planner.validate_of_plan {p : Planner} {text : String} {sheet : Sheet}
    (h : p.plan text = .ok sheet) : sheet.plan.validate = .ok () := by
  unfold plan at h
  split at h
  · cases h
  · rename_i query _
    unfold planQuery at h
    cases hsteps : steps p.settings query with
    | error e => simp [hsteps, bind, Except.bind] at h
    | ok body =>
      cases hvalid : (p.finish body).plan.validate with
      | error e => simp [hsteps, hvalid, bind, Except.bind] at h
      | ok u =>
        simp only [hsteps, hvalid, bind, Except.bind] at h
        cases h
        exact hvalid

theorem Planner.exists_format {p : Planner} {text : String} {sheet : Sheet}
    (h : p.plan text = .ok sheet) (marker : String) (offset : Nat) :
    ∃ printed, sheet.plan.format marker offset = .ok printed := by
  obtain ⟨-, -, lines, hlines⟩ | ⟨id, -, herror, -⟩ := sheet.plan.validate_lines_agree offset
  · exact ⟨_, by simp only [Plan.format, hlines]; rfl⟩
  · rw [validate_of_plan h] at herror
    cases herror

/-! ## The environment -/

namespace Settings

/-- A variable of the planner is set to a value that is not allowed. -/
inductive InvalidVariable (env : Environment) : Prop
  | truth {variableName value : String}
      (hname : variableName ∈
        ["NLPLAN_CASE_SENSITIVE", "NLPLAN_QUOTE_IDENTIFIERS", "NLPLAN_SIMPLIFY"])
      (hset : env variableName = some value) (hvalue : truthValue? value = none)
  | dialect {value : String} (hset : env "NLPLAN_DIALECT" = some value)
      (hvalue : readDialect? value = none)

/-- The variable was read as the value that it is set to, or as the default if it is unset; or it is
set to a value that cannot be read. -/
def Reads {α : Type} (env : Environment) (variableName : String) (read : String → Option α)
    (default : α) (result : Except SettingsError α) : Prop :=
  (result = .ok (((env variableName).bind read).getD default) ∧
    ∀ value, env variableName = some value → read value ≠ none) ∨
  (∃ e, result = .error e) ∧ ∃ value, env variableName = some value ∧ read value = none

theorem reads_readFlag (env : Environment) (variableName : String) (default : Bool) :
    Reads env variableName truthValue? default (readFlag env variableName default) := by
  unfold readFlag
  cases henv : env variableName with
  | none => exact .inl ⟨by rw [henv]; rfl, by simp [henv]⟩
  | some value =>
    cases hvalue : truthValue? value with
    | none => exact .inr ⟨⟨_, by simp only [hvalue]; rfl⟩, value, henv, hvalue⟩
    | some b =>
      exact .inl ⟨by simp only [hvalue, henv, Option.bind_some, Option.getD_some]; rfl,
        by simp [henv, hvalue]⟩

theorem reads_readDialect (env : Environment) (variableName : String) (default : Sql.Dialect) :
    Reads env variableName readDialect? default (readDialect env variableName default) := by
  unfold readDialect
  cases henv : env variableName with
  | none => exact .inl ⟨by rw [henv]; rfl, by simp [henv]⟩
  | some value =>
    cases hvalue : Sql.Dialect.ofName value with
    | error e =>
      exact .inr ⟨⟨_, by simp only [hvalue]; rfl⟩, value, henv, by rw [readDialect?, hvalue]; rfl⟩
    | ok d =>
      have hread : readDialect? value = some d := by rw [readDialect?, hvalue]; rfl
      exact .inl ⟨by simp only [hvalue, henv, hread, Option.bind_some, Option.getD_some]; rfl,
        by simp [henv, hread]⟩

end Settings

namespace CommandLine

def flag (given : List Occurrence) (s : Setting) : Option String :=
  (values given s).head?

/-- The settings that are asked for: those of the options, or else those of the environment, or else
the defaults. -/
def settingsFor (env : Settings.Environment) (given : List Occurrence) : Settings where
  caseSensitive := ((flag given .caseSensitive).bind readTruth? <|>
    (env "NLPLAN_CASE_SENSITIVE").bind Settings.truthValue?).getD true
  quoteNames :=
    if .quoteNames ∈ given then true
    else ((env "NLPLAN_QUOTE_IDENTIFIERS").bind Settings.truthValue?).getD false
  dialect := ((flag given .dialect).bind readDialect? <|>
    (env "NLPLAN_DIALECT").bind readDialect?).getD .generic
  simplify :=
    if .keepChecks ∈ given then false
    else ((env "NLPLAN_SIMPLIFY").bind Settings.truthValue?).getD true
  sink := (flag given .sink <|> env "NLPLAN_OUTPUT_SINK").getD "'result.csv'"
  prologue := values given .prologue
  interlude := flag given .interlude <|> (env "NLPLAN_INTERSPERSE").bind Settings.unlessBlank

/-- Where the query is to be read from. -/
def sourceFor (given : List Occurrence) : Source :=
  match (queries given).head?, (flag given .file).bind readPath? with
  | some text, _ => .given text
  | none, some path => .file path
  | none, none => .input

def offsetFor (env : Settings.Environment) (given : List Occurrence) : Nat :=
  ((flag given .offset).bind readOffset? <|> (env "NLPLAN_OFFSET").bind readOffset?).getD 0

def markerFor (env : Settings.Environment) (given : List Occurrence) : String :=
  (flag given .marker <|> env "NLPLAN_PREFIX").getD ""

theorem ofEnvironment_cases (env : Settings.Environment) :
    (¬ Settings.InvalidVariable env ∧ Settings.ofEnvironment env = .ok (settingsFor env [])) ∨
      Settings.InvalidVariable env ∧ ∃ e, Settings.ofEnvironment env = .error e := by
  unfold Settings.ofEnvironment
  obtain ⟨hcase, hcaseValid⟩ | ⟨⟨e, he⟩, value, hset, hvalue⟩ :=
    Settings.reads_readFlag env "NLPLAN_CASE_SENSITIVE" true
  case inr => exact .inr ⟨.truth (by simp) hset hvalue, e, by simp only [he, bind, Except.bind]⟩
  obtain ⟨hquote, hquoteValid⟩ | ⟨⟨e, he⟩, value, hset, hvalue⟩ :=
    Settings.reads_readFlag env "NLPLAN_QUOTE_IDENTIFIERS" false
  case inr =>
    exact .inr ⟨.truth (by simp) hset hvalue, e, by simp only [hcase, he, bind, Except.bind]⟩
  obtain ⟨hsimplify, hsimplifyValid⟩ | ⟨⟨e, he⟩, value, hset, hvalue⟩ :=
    Settings.reads_readFlag env "NLPLAN_SIMPLIFY" true
  case inr =>
    exact .inr ⟨.truth (by simp) hset hvalue, e,
      by simp only [hcase, hquote, he, bind, Except.bind]⟩
  obtain ⟨hdialect, hdialectValid⟩ | ⟨⟨e, he⟩, value, hset, hvalue⟩ :=
    Settings.reads_readDialect env "NLPLAN_DIALECT" .generic
  case inr =>
    exact .inr ⟨.dialect hset hvalue, e,
      by simp only [hcase, hquote, hsimplify, he, bind, Except.bind]⟩
  refine .inl ⟨?_, by simp only [hcase, hquote, hsimplify, hdialect, bind, Except.bind]; rfl⟩
  rintro (⟨hname, hset, hvalue⟩ | ⟨hset, hvalue⟩)
  · simp only [List.mem_cons, List.not_mem_nil, or_false] at hname
    obtain rfl | rfl | rfl := hname
    · exact hcaseValid _ hset hvalue
    · exact hquoteValid _ hset hvalue
    · exact hsimplifyValid _ hset hvalue
  · exact hdialectValid _ hset hvalue

/-! ## The arguments -/

theorem Once.taken_eq {α : Type} {read : String → Option α} {values : List String}
    {taken : Option α} (h : Once read values taken) : taken = values.head?.bind read := by
  unfold Once at h
  cases taken with
  | none => simp_all
  | some a =>
    cases values with
    | nil => simp at h
    | cons text rest => simp_all

theorem getD_orElse {α : Type} (x y : Option α) (default : α) :
    x.getD (y.getD default) = (x <|> y).getD default := by
  cases x <;> rfl

theorem apply_settingsFor {a : Arguments} {given : List Occurrence} (h : a.TakenFrom given)
    (env : Settings.Environment) : a.apply (settingsFor env []) = settingsFor env given := by
  have hcase : a.caseSensitive = (flag given .caseSensitive).bind readTruth? :=
    (h.settings .caseSensitive).taken_eq
  have hdialect : a.dialect = (flag given .dialect).bind readDialect? :=
    (h.settings .dialect).taken_eq
  have hsink : a.sink = flag given .sink :=
    (h.settings .sink).taken_eq.trans (Option.bind_fun_some _)
  have hinterlude : a.interlude = flag given .interlude :=
    (h.settings .interlude).taken_eq.trans (Option.bind_fun_some _)
  have hquote : a.quoteNames = decide (.quoteNames ∈ given) :=
    Bool.eq_iff_iff.mpr (h.quoteNames.trans decide_eq_true_iff.symm)
  have hkeep : a.keepChecks = decide (.keepChecks ∈ given) :=
    Bool.eq_iff_iff.mpr (h.keepChecks.trans decide_eq_true_iff.symm)
  simp only [Arguments.apply, settingsFor, hcase, hdialect, hsink, hinterlude, ← getD_orElse,
    Settings.mk.injEq]
  refine ⟨rfl, ?_, rfl, ?_, rfl, h.settings .prologue, rfl⟩
  · rw [hquote]
    by_cases hmem : Occurrence.quoteNames ∈ given <;> simp [hmem]
  · rw [hkeep]
    by_cases hmem : Occurrence.keepChecks ∈ given <;> simp [hmem]

theorem source_eq_sourceFor {a : Arguments} {given : List Occurrence} (h : a.TakenFrom given) :
    a.source = sourceFor given := by
  have hfile : a.file = (flag given .file).bind readPath? := (h.settings .file).taken_eq
  have hquery : a.query = (queries given).head? := h.query.taken_eq.trans (Option.bind_fun_some _)
  rw [Arguments.source, hfile, hquery]
  rfl

/-! ## Runs -/

/-- How a run ends that is asked to plan a query. The first thing that is wrong decides, in the
order of the cases. -/
inductive Ends (world : World) (given : List Occurrence) (outcome : Outcome) : Prop
  | invalid (hinvalid : Settings.InvalidVariable world.env)
      (hcode : outcome.code = 1) (houtput : outcome.output = "")
  | unreadable (hvalid : ¬ Settings.InvalidVariable world.env) {e : SourceError}
      (hread : (sourceFor given).read world = .error e)
      (hcode : outcome.code = 1) (houtput : outcome.output = "")
  | refused (hvalid : ¬ Settings.InvalidVariable world.env) {text : String}
      (hread : (sourceFor given).read world = .ok text) {e : PlanError}
      (hplan : Planner.plan { settings := settingsFor world.env given } text = .error e)
      (hcode : outcome.code = 2) (houtput : outcome.output = "")
  | printed (hvalid : ¬ Settings.InvalidVariable world.env) {text : String}
      (hread : (sourceFor given).read world = .ok text) {sheet : Sheet}
      (hplan : Planner.plan { settings := settingsFor world.env given } text = .ok sheet)
      {lines : String}
      (hlines : sheet.plan.format (markerFor world.env given) (offsetFor world.env given) =
        .ok lines)
      (hcode : outcome.code = 0) (houtput : outcome.output = lines ++ "\n")

theorem ends_runPlan (world : World) {a : Arguments} {given : List Occurrence}
    (h : a.TakenFrom given) :
    Ends world given
      (runPlan world a (offsetFor world.env given) (markerFor world.env given)) := by
  unfold runPlan
  obtain ⟨hvalid, henv⟩ | ⟨hinvalid, e, he⟩ := ofEnvironment_cases world.env
  case inr =>
    rw [he]
    exact .invalid hinvalid rfl rfl
  simp only [henv, source_eq_sourceFor h, apply_settingsFor h, planText]
  cases hread : (sourceFor given).read world with
  | error e => exact .unreadable hvalid hread rfl rfl
  | ok text =>
    cases hplan : Planner.plan { settings := settingsFor world.env given } text with
    | error e => exact .refused hvalid hread hplan (by simp [hplan]; rfl) (by simp [hplan]; rfl)
    | ok sheet =>
      obtain ⟨lines, hlines⟩ :=
        Planner.exists_format hplan (markerFor world.env given) (offsetFor world.env given)
      refine .printed hvalid hread hplan hlines ?_ ?_ <;>
        simp [hplan, hlines, bind, Except.bind, Outcome.success]

/-- A run agrees with the library: an accepted command line gives options and queries in some
spelling, and however they are spelled, the run ends as they and the environment ask for. -/
theorem run_ends {world : World} {arguments : List String} {a : Arguments} {offset : Nat}
    {marker : String}
    (haccepted : Request.ofArguments world.env arguments = .ok (.plan a offset marker)) :
    (∃ given, Spells arguments given) ∧
      ∀ given, Spells arguments given → Ends world given (run world arguments) := by
  refine ⟨Request.exists_spells haccepted, fun given hspells => ?_⟩
  obtain ⟨taken, htaken, ha, hoffset, hmarker⟩ := Request.given_of_spells haccepted hspells
  have hgivenOffset : taken.offset = (flag given .offset).bind readOffset? :=
    (htaken.settings .offset).taken_eq
  have hgivenMarker : taken.marker = flag given .marker :=
    (htaken.settings .marker).taken_eq.trans (Option.bind_fun_some _)
  rw [hgivenOffset] at hoffset
  rw [hgivenMarker] at hmarker
  have hrun : run world arguments =
      runPlan world taken (offsetFor world.env given) (markerFor world.env given) := by
    unfold run
    rw [haccepted, ha, hoffset, hmarker]
    rfl
  rw [hrun]
  exact ends_runPlan world htaken

/-- Names are to be folded by the environment, lines to be marked, and the query stands on standard
input. -/
def foldingWorld : World where
  env variableName := [("NLPLAN_CASE_SENSITIVE", "no"), ("NLPLAN_PREFIX", "#")].lookup variableName
  file _ := .error .missing
  input := .ok "SELECT x FROM t"

/-- An option overrides the environment. -/
theorem run_ends_foldingWorld :
    Request.ofArguments foldingWorld.env ["--case-sensitive=true", "--offset", "3"] =
      .ok (.plan { caseSensitive := some true, offset := some 3 } 3 "#") ∧
    Spells ["--case-sensitive=true", "--offset", "3"]
      [.setting .caseSensitive "true", .setting .offset "3"] ∧
    Ends foldingWorld [.setting .caseSensitive "true", .setting .offset "3"]
      (run foldingWorld ["--case-sensitive=true", "--offset", "3"]) := by
  have haccepted : Request.ofArguments foldingWorld.env ["--case-sensitive=true", "--offset", "3"] =
      .ok (.plan { caseSensitive := some true, offset := some 3 } 3 "#") := by decide
  have hspells : Spells ["--case-sensitive=true", "--offset", "3"]
      [.setting .caseSensitive "true", .setting .offset "3"] :=
    .cons (.attached .caseSensitive "true") (.cons (.separate .offset (by decide)) .nil)
  exact ⟨haccepted, hspells, (run_ends haccepted).2 _ hspells⟩

end CommandLine

end QuerySteps
