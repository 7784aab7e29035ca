import Mathlib.Data.List.Forall2
import WireSchema.Checker
import WireSchema.Proofs.Reports

/-!
What the checker reports. Every load adds a part to the record of the protocol, and the checker
takes in that part alone, under the path of the source. So what it prints and counts is the record
itself, up to the first source that fails; and since exactly the loads that fail record errors, the
count of errors says as much as the exit code. What a line says is written down here once more,
apart from the functions that print it.
-/

namespace WireSchema.Checker

/-! ### Lines -/

inductive IsWord : Level → String → Prop where
  | debug : IsWord .debug "debug"
  | info : IsWord .info "info"
  | warning : IsWord .warning "warning"
  | error : IsWord .error "error"

inductive Verbosity.Reveals : Verbosity → Level → Prop where
  | error (verbosity : Verbosity) : Reveals verbosity .error
  | warning : Reveals .normal .warning
  | all (level : Level) : Reveals .verbose level

/-- An entry is printed as its path, the number of its line if it has one, its level and its
message. -/
inductive IsEntryLine (path : String) (d : Diagnostic) : String → Prop where
  | placed {line : Nat} {word : String} (place : d.line = some line) (level : IsWord d.level word) :
      IsEntryLine path d (path ++ ":" ++ toString line ++ ": " ++ word ++ ": " ++ d.message)
  | unplaced {word : String} (place : d.line = none) (level : IsWord d.level word) :
      IsEntryLine path d (path ++ ": " ++ word ++ ": " ++ d.message)

inductive Prints (verbosity : Verbosity) : List (String × Diagnostic) → List String → Prop where
  | nil : Prints verbosity [] []
  | shown {path line : String} {d : Diagnostic} {entries : List (String × Diagnostic)}
      {lines : List String} (reveals : verbosity.Reveals d.level) (isLine : IsEntryLine path d line)
      (rest : Prints verbosity entries lines) :
      Prints verbosity ((path, d) :: entries) (line :: lines)
  | hidden {path : String} {d : Diagnostic} {entries : List (String × Diagnostic)}
      {lines : List String} (conceals : ¬ verbosity.Reveals d.level)
      (rest : Prints verbosity entries lines) : Prints verbosity ((path, d) :: entries) lines

def IsMessageLine (m : Message) (line : String) : Prop :=
  ∃ bound, line = "  " ++ m.qualifiedName ++ " id=" ++ toString m.id ++ " fields=" ++
      toString m.fields.length ++ " min=" ++ toString m.minLength ++ " max=" ++ bound ∧
    (m.maxLength = 18446744073709551615 → bound = "unbounded") ∧
    (m.maxLength ≠ 18446744073709551615 → bound = toString m.maxLength)

inductive IsSummary : List Schema → List String → Prop where
  | nil : IsSummary [] []
  | cons {s : Schema} {schemas : List Schema} {own others : List String}
      (messages : List.Forall₂ IsMessageLine s.messages own) (rest : IsSummary schemas others) :
      IsSummary (s :: schemas) ((("schema " ++ s.name ++ " (version " ++
        toString s.context.version ++ ")") :: own) ++ others)

theorem reveals_iff {verbosity : Verbosity} {level : Level} :
    verbosity.Reveals level ↔ verbosity.shows level = true := by
  constructor
  · rintro (_ | _ | _)
    · cases verbosity <;> rfl
    · rfl
    · rfl
  · intro shown
    cases verbosity with
    | verbose => exact .all level
    | quiet =>
        cases level with
        | error => exact .error .quiet
        | _ => cases shown
    | normal =>
        cases level with
        | error => exact .error .normal
        | warning => exact .warning
        | _ => cases shown

theorem level_word_is_word (level : Level) : IsWord level (levelWord level) := by
  cases level <;> constructor

theorem diagnostic_line_is_line (path : String) (d : Diagnostic) :
    IsEntryLine path d (diagnosticLine path d) := by
  have word := level_word_is_word d.level
  unfold diagnosticLine
  split
  · rename_i line place
    exact .placed place word
  · rename_i place
    exact .unplaced place word

theorem message_line_is_line (m : Message) : IsMessageLine m (messageLine m) := by
  refine ⟨boundText m.maxLength, rfl, ?_, ?_⟩
  · exact fun unbounded => if_pos unbounded
  · exact fun bounded => if_neg bounded

theorem schema_lines_are_summary (schemas : List Schema) :
    IsSummary schemas (schemas.flatMap schemaLines) := by
  induction schemas with
  | nil => exact .nil
  | cons s schemas ih =>
      refine .cons ?_ ih
      rw [List.forall₂_map_right_iff, List.forall₂_same]
      exact fun m _ => message_line_is_line m

/-! ### Runs -/

abbrev Parts := List (Source × List Diagnostic)

namespace Parts

def entries (parts : Parts) : List Diagnostic := parts.flatMap Prod.snd

def texts (parts : Parts) : List String := parts.map fun part => part.1.text

def located (parts : Parts) : List (String × Diagnostic) :=
  parts.flatMap fun part => part.2.map (part.1.path, ·)

def lines (verbosity : Verbosity) (parts : Parts) : List String :=
  parts.flatMap fun part =>
    (part.2.filter fun d => verbosity.shows d.level).map (diagnosticLine part.1.path)

end Parts

theorem entries_print (verbosity : Verbosity) (path : String) (added : List Diagnostic)
    {others : List (String × Diagnostic)} {lines : List String}
    (rest : Prints verbosity others lines) :
    Prints verbosity (added.map (path, ·) ++ others)
      ((added.filter fun d => verbosity.shows d.level).map (diagnosticLine path) ++ lines) := by
  induction added with
  | nil => exact rest
  | cons d added ih =>
      by_cases shown : verbosity.shows d.level = true
      · rw [List.filter_cons_of_pos (by exact shown)]
        exact .shown (reveals_iff.mpr shown) (diagnostic_line_is_line path d) ih
      · rw [List.filter_cons_of_neg (by exact shown)]
        exact .hidden (fun reveals => shown (reveals_iff.mp reveals)) ih

theorem parts_print (verbosity : Verbosity) (parts : Parts) :
    Prints verbosity parts.located (parts.lines verbosity) := by
  induction parts with
  | nil => exact .nil
  | cons part parts ih => exact entries_print verbosity part.1.path part.2 ih

def countAt (level : Level) (log : List Diagnostic) : Nat := log.countP fun d => d.level == level

theorem count_at_append (level : Level) (log more : List Diagnostic) :
    countAt level (log ++ more) = countAt level log + countAt level more :=
  List.countP_append

/-- From `p` on, the sources are loaded one after another up to the first that fails, which leads to
the protocol `last`; `parts` are the sources loaded, each with what its load recorded. -/
inductive Run : Protocol → List Source → Parts → Protocol → Bool → Prop where
  | done (p : Protocol) : Run p [] [] p false
  | fails {p q : Protocol} {source : Source} {added : List Diagnostic} {e : Error}
      (load : p.load source.text = (q, .error e)) (log : q.log = p.log ++ added)
      (rest : List Source) : Run p (source :: rest) [(source, added)] q true
  | loads {p q last : Protocol} {source : Source} {added : List Diagnostic} {rest : List Source}
      {parts : Parts} {failed : Bool} (load : p.load source.text = (q, .ok ()))
      (log : q.log = p.log ++ added) (next : Run q rest parts last failed) :
      Run p (source :: rest) ((source, added) :: parts) last failed

namespace Report

def including (r : Report) (verbosity : Verbosity) (parts : Parts) (failed : Bool) : Report where
  lines := r.lines ++ parts.lines verbosity
  errors := r.errors + countAt .error parts.entries
  warnings := r.warnings + countAt .warning parts.entries
  failed := r.failed || failed

theorem including_nil (r : Report) (verbosity : Verbosity) (failed : Bool) :
    r.including verbosity [] failed = { r with failed := r.failed || failed } := by
  simp [including, Parts.lines, Parts.entries, countAt]

theorem including_cons (r : Report) (verbosity : Verbosity) (source : Source)
    (added : List Diagnostic) (parts : Parts) (failed : Bool) :
    r.including verbosity ((source, added) :: parts) failed =
      (r.record verbosity source.path added).including verbosity parts failed := by
  simp [including, record, Parts.lines, Parts.entries, countAt, Nat.add_assoc]

end Report

theorem load_all_runs (verbosity : Verbosity) (p : Protocol) (r : Report) (sources : List Source) :
    ∃ parts last failed, Run p sources parts last failed ∧
      loadAll verbosity p r sources = (last, r.including verbosity parts failed) := by
  induction sources generalizing p r with
  | nil =>
      refine ⟨[], p, false, .done p, ?_⟩
      rw [Report.including_nil, Bool.or_false]
      rfl
  | cons source rest ih =>
      obtain ⟨added, appended, -⟩ := p.load_errors source.text
      have own : (p.load source.text).1.log.drop p.log.length = added := by
        rw [appended, List.drop_left]
      cases load : p.load source.text with
      | mk q outcome =>
          rw [load] at appended own
          cases outcome with
          | error e =>
              refine ⟨[(source, added)], q, true, .fails load appended rest, ?_⟩
              rw [Report.including_cons, Report.including_nil, Bool.or_true]
              simp only [loadAll, load, own]
          | ok =>
              obtain ⟨parts, last, failed, run, reported⟩ :=
                ih q (r.record verbosity source.path added)
              refine ⟨(source, added) :: parts, last, failed, .loads load appended run, ?_⟩
              simp only [loadAll, load, own, reported, Report.including_cons]

theorem load_all_cons {p q : Protocol} {text : String} {outcome : Except Error Unit}
    (load : p.load text = (q, outcome)) (texts : List String) :
    p.loadAll (text :: texts) = q.loadAll texts :=
  congrArg (fun result => Protocol.loadAll result.1 texts) load

/-- A load records an error exactly if it fails. -/
theorem load_count_errors {p q : Protocol} {text : String} {outcome : Except Error Unit}
    {added : List Diagnostic} (load : p.load text = (q, outcome)) (log : q.log = p.log ++ added) :
    0 < countAt .error added ↔ outcome.isOk = false := by
  have counted : countAt .error added = (errorsIn added).length := (errors_in_length added).symm
  obtain ⟨same, appended, cases⟩ := p.load_errors text
  rw [load, log, List.append_cancel_left_eq] at appended
  subst appended
  simp only [load] at cases
  rw [counted]
  obtain ⟨rfl, quiet⟩ | ⟨e, before, rfl, rfl, -⟩ := cases
  · rw [quiet]
    simp [Except.isOk, Except.toBool]
  · simp [Except.isOk, Except.toBool]

section Runs

variable {p last : Protocol} {sources : List Source} {parts : Parts} {failed : Bool}

/-- Sources are left over only where the last one loaded failed. -/
theorem run_sources (run : Run p sources parts last failed) :
    ∃ rest, sources = parts.map Prod.fst ++ rest ∧
      (rest ≠ [] → failed = true) ∧ (failed = true → parts ≠ []) := by
  induction run with
  | done => exact ⟨[], rfl, fun left => absurd rfl left, nofun⟩
  | fails _ _ rest => exact ⟨rest, rfl, fun _ => rfl, fun _ => List.cons_ne_nil _ _⟩
  | loads _ _ _ ih =>
      obtain ⟨rest, split, stopped, -⟩ := ih
      exact ⟨rest, by rw [split]; rfl, stopped, fun _ => List.cons_ne_nil _ _⟩

theorem run_last (run : Run p sources parts last failed) :
    last = p.loadAll parts.texts ∧ last.log = p.log ++ parts.entries := by
  induction run with
  | done p => exact ⟨rfl, (List.append_nil _).symm⟩
  | @fails p q source added e load log _ =>
      have single : Parts.entries [(source, added)] = added := List.append_nil _
      exact ⟨(load_all_cons load []).symm, by rw [log, single]⟩
  | @loads p q last source added rest parts failed load log next ih =>
      refine ⟨ih.1.trans (load_all_cons load parts.texts).symm, ?_⟩
      rw [ih.2, log, List.append_assoc]
      rfl

/-- Each part has what its load recorded, and the load of the last one alone may have failed. -/
theorem run_parts (run : Run p sources parts last failed) {before later : Parts}
    {part : Source × List Diagnostic} (split : parts = before ++ part :: later) :
    ((p.loadAll before.texts).load part.1.text).1.log =
        (p.loadAll before.texts).log ++ part.2 ∧
      (((p.loadAll before.texts).load part.1.text).2.isOk = false ↔
        later = [] ∧ failed = true) := by
  induction run generalizing before with
  | done => simp at split
  | @fails p q source added e load log _ =>
      cases before with
      | nil =>
          cases split
          have same : (p.loadAll (Parts.texts [])).load source.text = (q, .error e) := load
          rw [same]
          exact ⟨log, by simp [Except.isOk, Except.toBool]⟩
      | cons => simp at split
  | @loads p q last source added rest parts failed load log next ih =>
      cases before with
      | nil =>
          cases split
          have same : (p.loadAll (Parts.texts [])).load source.text = (q, .ok ()) := load
          rw [same]
          refine ⟨log, ?_⟩
          constructor
          · intro refused
            cases refused
          · rintro ⟨rfl, rfl⟩
            obtain ⟨-, -, -, nonempty⟩ := run_sources next
            exact absurd rfl (nonempty rfl)
      | cons first before =>
          obtain ⟨rfl, ofRest⟩ := List.cons.inj split
          have behind : p.loadAll (Parts.texts ((source, added) :: before)) =
              q.loadAll (Parts.texts before) := load_all_cons load _
          rw [behind]
          exact ih ofRest

/-- Errors are recorded exactly where a load fails. -/
theorem run_errors (run : Run p sources parts last failed) :
    0 < countAt .error parts.entries ↔ failed = true := by
  induction run with
  | done => simp [Parts.entries, countAt]
  | @fails p q source added e load log _ =>
      have single : Parts.entries [(source, added)] = added := List.append_nil _
      rw [single, load_count_errors load log]
      exact iff_of_true rfl rfl
  | @loads p q last source added rest parts failed load log next ih =>
      have none : countAt .error added = 0 := by
        apply Nat.eq_zero_of_not_pos
        intro positive
        cases (load_count_errors load log).mp positive
      have split : Parts.entries ((source, added) :: parts) = added ++ parts.entries := rfl
      rw [split, count_at_append, none, Nat.zero_add]
      exact ih

end Runs

def Parts.Fails (before : Parts) (part : Source × List Diagnostic) : Prop :=
  ((Protocol.after before.texts).load part.1.text).2.isOk = false

def Parts.HasFailure (parts : Parts) : Prop :=
  ∃ before part later, parts = before ++ part :: later ∧ Parts.Fails before part

/-- The parts are the sources in order, up to the first that fails, loaded into one protocol and
each with the entries that its load recorded there. -/
structure Parts.LoadedFrom (parts : Parts) (sources : List Source) : Prop where
  inOrder : parts.map Prod.fst <+: sources
  complete : ¬ parts.HasFailure → parts.map Prod.fst = sources
  stops : ∀ before part later, parts = before ++ part :: later →
    Parts.Fails before part → later = []
  recorded : ∀ before part later, parts = before ++ part :: later →
    ((Protocol.after (Parts.texts before)).load part.1.text).1.log =
      (Protocol.after (Parts.texts before)).log ++ part.2
  whole : (Protocol.after parts.texts).log = parts.entries

/-- The report is that of the parts: their entries as far as they are shown, each under the path of
its source, then the summary of the protocol if it is asked for and nothing failed; all errors and
warnings counted, and a line for the counts unless both are zero; and the exit code says whether a
load failed. -/
structure Report.Tells (r : Report) (options : Options) (parts : Parts) : Prop where
  summarized : options.summary = true → ¬ parts.HasFailure →
    ∃ shown summary, r.lines = shown ++ summary ∧
      Prints options.verbosity parts.located shown ∧
      IsSummary (Protocol.after parts.texts).schemas summary
  unsummarized : ¬ (options.summary = true ∧ ¬ parts.HasFailure) →
    Prints options.verbosity parts.located r.lines
  errors : r.errors = countAt .error (Protocol.after parts.texts).log
  warnings : r.warnings = countAt .warning (Protocol.after parts.texts).log
  omitted : r.totals? = none ↔ r.errors = 0 ∧ r.warnings = 0
  totals : ∀ line ∈ r.totals?, line = s!"check: {r.errors} error(s), {r.warnings} warning(s)"
  exits : r.exitCode = 1 ↔ parts.HasFailure
  counted : parts.HasFailure ↔ 0 < r.errors

theorem run_has_failure {sources : List Source} {parts : Parts} {last : Protocol} {failed : Bool}
    (run : Run {} sources parts last failed) : parts.HasFailure ↔ failed = true := by
  constructor
  · rintro ⟨before, part, later, isPart, fails⟩
    exact ((run_parts run isPart).2.mp fails).2
  · intro isFailed
    obtain ⟨-, -, -, nonempty⟩ := run_sources run
    have isPart := (List.dropLast_concat_getLast (nonempty isFailed)).symm
    exact ⟨_, _, [], isPart, (run_parts run isPart).2.mpr ⟨rfl, isFailed⟩⟩

theorem run_loaded_from {sources : List Source} {parts : Parts} {last : Protocol} {failed : Bool}
    (run : Run {} sources parts last failed) : parts.LoadedFrom sources := by
  obtain ⟨rest, split, stopped, -⟩ := run_sources run
  obtain ⟨isLast, log⟩ := run_last run
  constructor
  · exact ⟨rest, split.symm⟩
  · intro unfailed
    by_cases left : rest = []
    · rw [split, left, List.append_nil]
    · exact absurd ((run_has_failure run).mpr (stopped left)) unfailed
  · intro before part later isPart fails
    exact ((run_parts run isPart).2.mp fails).1
  · intro before part later isPart
    exact (run_parts run isPart).1
  · rw [Protocol.after, ← isLast, log]
    rfl

theorem totals_none_iff (r : Report) : r.totals? = none ↔ r.errors = 0 ∧ r.warnings = 0 := by
  simp [Report.totals?, Nat.pos_iff_ne_zero, not_or]

theorem exit_code_one_iff (r : Report) : r.exitCode = 1 ↔ r.failed = true := by
  unfold Report.exitCode
  cases r.failed <;> decide

/-- Where the loads have led to a protocol and a report, the summary is all that is added. -/
theorem check_of_loaded {options : Options} {sources : List Source} {last : Protocol} {r : Report}
    (loaded : loadAll options.verbosity {} {} sources = (last, r)) :
    check options sources = { r with
      lines := r.lines ++
        if options.summary && !r.failed then last.schemas.flatMap schemaLines else [] } := by
  simp only [check, loaded]
  split
  · rfl
  · rw [List.append_nil]

/-- For all sources and options, what is recorded while the sources are loaded is what is reported,
once each and under the right path. -/
theorem record_reported_once (options : Options) (sources : List Source) :
    ∃ parts : Parts, parts.LoadedFrom sources ∧ (check options sources).Tells options parts := by
  obtain ⟨parts, last, failed, run, reported⟩ :=
    load_all_runs options.verbosity {} {} sources
  have loaded := run_loaded_from run
  have hasFailure := run_has_failure run
  have isLast : last = Protocol.after parts.texts := (run_last run).1
  refine ⟨parts, loaded, ?_⟩
  rw [check_of_loaded reported]
  constructor
  case summarized =>
    intro wanted unfailed
    have isFailed : failed = false := by simpa [hasFailure] using unfailed
    refine ⟨parts.lines options.verbosity, last.schemas.flatMap schemaLines, ?_,
      parts_print _ _, ?_⟩
    · simp [Report.including, wanted, isFailed]
    · rw [isLast]
      exact schema_lines_are_summary _
  case unsummarized =>
    intro unwanted
    have omitted : (options.summary && !failed) = false := by
      simpa [hasFailure] using unwanted
    simpa [Report.including, omitted] using parts_print options.verbosity parts
  case errors =>
    rw [loaded.whole]
    exact Nat.zero_add _
  case warnings =>
    rw [loaded.whole]
    exact Nat.zero_add _
  case omitted => exact totals_none_iff _
  case totals =>
    intro line shown
    simp only [Report.totals?, Option.mem_def, Option.ite_none_right_eq_some,
      Option.some.injEq] at shown
    exact shown.2.symm
  case exits =>
    rw [hasFailure, exit_code_one_iff]
    exact Iff.rfl
  case counted =>
    rw [hasFailure, ← run_errors run, ← Nat.zero_add (countAt .error parts.entries)]
    exact Iff.rfl

def idleWidth : String := r#"<schema name="S"><message name="M" id="1">
  <int name="x" type="uint8" bitLength="3"/></message></schema>"#

def typeless : String := r#"<schema name="T"><fields><int name="A"/></fields></schema>"#

def unlikeSources : List Source := [⟨"a.xml", idleWidth⟩, ⟨"b.xml", typeless⟩]

def unlikeLines : List String :=
  ["a.xml:2: warning: Property \"bitLength\" is only applicable to <bitfield> members, ignored.",
    "b.xml: error: Missing property: line 1: missing value for mandatory property \"type\" " ++
      "for \"int\" element"]

def summedLines : List String :=
  ["a.xml:2: debug: int \"x\" built", "a.xml:1: debug: message \"M\" (1) built",
    "a.xml: info: schema \"S\": 0 fields, 0 interfaces, 1 messages", "schema S (version 0)",
    "  M id=1 fields=1 min=1 max=1"]

set_option maxRecDepth 6000 in
/-- The warning is reported under the one path and the error under the other, and what is recorded
besides on demand only; without the second document there is a summary. -/
theorem mixed_levels_reported :
    (∃ parts : Parts, parts.LoadedFrom unlikeSources ∧ parts.HasFailure ∧
      (check {} unlikeSources).Tells {} parts ∧ (check {} unlikeSources).lines = unlikeLines) ∧
    ∃ parts : Parts, parts.LoadedFrom (unlikeSources.take 1) ∧ ¬ parts.HasFailure ∧
      (check ⟨.verbose, true, []⟩ (unlikeSources.take 1)).Tells ⟨.verbose, true, []⟩ parts ∧
      (check ⟨.verbose, true, []⟩ (unlikeSources.take 1)).lines =
        unlikeLines.take 1 ++ summedLines := by
  have outlined (p : Protocol) := p.outline_spelled idleWidth String.toList_ofList
  have outlined' (p : Protocol) := p.outline_spelled typeless String.toList_ofList
  obtain ⟨parts, loaded, tells⟩ := record_reported_once {} unlikeSources
  obtain ⟨first, loadedFirst, tellsFirst⟩ :=
    record_reported_once ⟨.verbose, true, []⟩ (unlikeSources.take 1)
  obtain ⟨one, lines⟩ : (check {} unlikeSources).errors = 1 ∧
      (check {} unlikeSources).lines = unlikeLines := by
    simp only [check, unlikeSources, loadAll, Protocol.load, outlined, outlined']
    decide +kernel
  obtain ⟨none, linesFirst⟩ : (check ⟨.verbose, true, []⟩ (unlikeSources.take 1)).errors = 0 ∧
      (check ⟨.verbose, true, []⟩ (unlikeSources.take 1)).lines =
        unlikeLines.take 1 ++ summedLines := by
    simp only [check, unlikeSources, List.take_succ_cons, List.take_zero, loadAll, Protocol.load,
      outlined]
    decide +kernel
  refine ⟨⟨parts, loaded, tells.counted.mpr ?_, tells, lines⟩,
    first, loadedFirst, fun fails => ?_, tellsFirst, linesFirst⟩
  · rw [one]
    exact Nat.one_pos
  · rw [tellsFirst.counted, none] at fails
    exact absurd fails (Nat.lt_irrefl 0)

end WireSchema.Checker
