/-
What the command leaves says how far it came.

* `Report.about`: a report on a failure, with what the command was doing around it; by
  `Report.failure?_eq_some_iff` the failure is found behind just these;
* `Ending`: the furthest stage that the command comes to, with what it gave, and the failure
  if there is one; `Ending.exitCode_iff` tells the endings apart by their exit codes;
* `Invocation.Reads` and `Invocation.ComesTo`: which source is read, and what an inflation
  comes to, by what the file system, the source, the decoder and the standard output give;
* `Invocation.exists_comesTo`: it comes to exactly one ending;
* `Finish.exitCode_eq_one_iff`: the exit code of an error that no failure is behind, and
  `Finish.ofAttempt_result`: what is left at an ending;
* `Invocation.ComesTo.attempt_eq`: the attempt to inflate gives what its ending says;
* `Invocation.run_ending`: the whole command.
-/
import Mathlib.Tactic
import Deflate.Command.Run
import Deflate.Proofs.Gathering
import Deflate.Proofs.Stages

namespace Deflate.Command

/-! ### Reports -/

namespace Report

/-- A report on a failure, with what the command was doing, from the outside in. -/
def about (doing : List String) (failure : Failure) : Report :=
  doing.foldr during (failed failure)

variable {doing : List String} {failure : Failure}

/-- A failure is behind a report if all around it is what the command was doing. -/
lemma failure?_eq_some_iff {report : Report} :
    report.failure? = some failure ↔ ∃ doing, report = about doing failure := by
  refine ⟨fun h => ?_, ?_⟩
  · induction report with
    | failed found => exact ⟨[], congrArg failed (Option.some.inj h)⟩
    | unwritable fault => cases h
    | during task report ih =>
        obtain ⟨doing, rfl⟩ := ih h
        exact ⟨task :: doing, rfl⟩
  · rintro ⟨doing, rfl⟩
    induction doing with
    | nil => rfl
    | cons _ _ ih => exact ih

lemma messages_about :
    (about doing failure).messages = doing ++ failure.message :: failure.sources := by
  induction doing with
  | nil => rfl
  | cons task _ ih => exact congrArg (task :: ·) ih

end Report

/-! ### Endings -/

lemma exitCodeOf_ne_zero (failure : Failure) : exitCodeOf failure ≠ 0 := by
  cases failure <;> simp [exitCodeOf, exitTransfer, exitData]

/-- How far an inflation comes. -/
inductive Ending where
  /-- The input cannot be opened. -/
  | unopened (path : String) (fault : Fault)
  /-- The input fails. -/
  | unread (error : ReadError)
  /-- The input is not a stream. -/
  | undecoded (input : ByteArray) (error : DecodeError)
  /-- The output fails. -/
  | unwritten (input : ByteArray) (outcome : Outcome) (output : ByteArray) (fault : Fault)
  /-- The output is written and flushed. -/
  | written (input : ByteArray) (outcome : Outcome) (output : ByteArray)

namespace Ending

/-- The output, if the input has been read and decoded. -/
def output? : Ending → Option ByteArray
  | unwritten _ _ output _ => some output
  | written _ _ output => some output
  | _ => none

/-- The failure, if there is one, and what the command was doing. -/
def failure? : Ending → Option (List String × Failure)
  | unopened path fault => some ([s!"opening {path}"], .read ⟨0, fault⟩)
  | unread error => some ([], .read error)
  | undecoded _ error => some ([], .decode error)
  | unwritten _ _ _ fault => some ([], .write fault)
  | written .. => none

/-- The exit code; that the receiver of the output has gone away counts as success. -/
def exitCode (ending : Ending) : ℕ :=
  ending.failure?.elim 0 fun (_, failure) =>
    if failure.isBrokenPipe then 0 else exitCodeOf failure

/-- The line about the failure, if it does not count as success. -/
def lines (ending : Ending) : List String :=
  ending.failure?.elim [] fun (doing, failure) =>
    if failure.isBrokenPipe then []
    else ["rawinflate: " ++ failure.label ++ ": " ++
      ": ".intercalate (doing ++ failure.message :: failure.sources)]

/-- The events up to the ending. -/
def events : Ending → List Event
  | unopened .. => []
  | unread _ => []
  | undecoded input _ => [.inputCollected input.size]
  | unwritten input outcome _ _ => .inputCollected input.size :: outcome.events
  | written input outcome output =>
      .inputCollected input.size :: outcome.events ++ [.outputWritten output.size]

/-- The lines shown after the run: only a run that comes to its end has a record. -/
def completion (i : Invocation) : Ending → Except Json.WriteFault (List String)
  | written input outcome _ =>
      (LogFilter.ofSetting i.logSetting?).completion i.stageOrder
        (snapshotOf i.clock input.size outcome)
  | _ => .ok []

/-- What the attempt to inflate comes to. -/
def result (ending : Ending) : Except Report Unit :=
  ending.failure?.elim (.ok ()) fun (doing, failure) => .error (.about doing failure)

/-- The standard output after the ending: only a decoded input makes the command call it. -/
def standardOutput (i : Invocation) (ending : Ending) : Sink :=
  ending.output?.elim i.standardOutput fun output =>
    (i.standardOutput.deliver .cooperative output).1

/-- The exit code tells the kinds of endings apart. -/
lemma exitCode_iff (ending : Ending) :
    (ending.exitCode = 0 ↔ (∃ input outcome output, ending = .written input outcome output) ∨
      ∃ input outcome output fault, ending = .unwritten input outcome output fault ∧
        fault.kind = .brokenPipe) ∧
    (ending.exitCode = 65 ↔ ∃ input error, ending = .undecoded input error) ∧
    (ending.exitCode = 74 ↔ (∃ path fault, ending = .unopened path fault) ∨
      (∃ error, ending = .unread error) ∨
      ∃ input outcome output fault, ending = .unwritten input outcome output fault ∧
        fault.kind ≠ .brokenPipe) ∧
    (ending.exitCode = 0 ∨ ending.exitCode = 65 ∨ ending.exitCode = 74) := by
  rw [exitCode]
  cases ending with
  | unopened path fault =>
      simp [failure?, Failure.isBrokenPipe, exitCodeOf, exitTransfer]
  | unread error => simp [failure?, Failure.isBrokenPipe, exitCodeOf, exitTransfer]
  | undecoded input error => simp [failure?, Failure.isBrokenPipe, exitCodeOf, exitData]
  | unwritten input outcome output fault =>
      by_cases h : fault.kind = .brokenPipe <;>
        simp [failure?, Failure.isBrokenPipe, exitCodeOf, exitTransfer, h]
  | written input outcome output => simp [failure?]

/-- There is a line about the failure that chose the exit code, or the exit code is zero. -/
lemma lines_cases (ending : Ending) :
    (ending.exitCode = 0 ∧ ending.lines = []) ∨
      ending.exitCode ≠ 0 ∧ ∃ doing failure, ending.failure? = some (doing, failure) ∧
        ending.exitCode = exitCodeOf failure ∧
        ending.lines = ["rawinflate: " ++ failure.label ++ ": " ++
          ": ".intercalate (doing ++ failure.message :: failure.sources)] := by
  rw [exitCode, lines]
  rcases ending.failure? with _ | ⟨doing, failure⟩
  · exact .inl ⟨rfl, rfl⟩
  · by_cases h : failure.isBrokenPipe = true
    · exact .inl ⟨if_pos h, if_pos h⟩
    · exact .inr ⟨ne_of_eq_of_ne (if_neg h) (exitCodeOf_ne_zero failure), doing, failure, rfl,
        if_neg h, if_neg h⟩

/-- The line about a file that cannot be opened says so around the fault. -/
lemma lines_unopened (path : String) (fault : Fault) :
    (unopened path fault).lines = ["rawinflate: stream read: opening " ++ path ++
      ": input stream failed after 0 bytes: " ++ fault.text ++ ": " ++ fault.text] := by
  have hopening : "rawinflate: stream read: opening " =
      "rawinflate: " ++ "stream read" ++ ": " ++ "opening " := by decide
  have hfailed : ": input stream failed after 0 bytes: " =
      ": " ++ "input stream failed after " ++ toString 0 ++ " bytes: " := by decide
  have hmessage : (Failure.read ⟨0, fault⟩).message =
      "input stream failed after " ++ toString 0 ++ " bytes: " ++ fault.text := rfl
  have hdoing : s!"opening {path}" = "opening " ++ path := rfl
  rw [hopening, hfailed]
  simp only [lines, failure?, Option.elim_some, Failure.isBrokenPipe, Failure.label, hmessage,
    Failure.sources, List.cons_append, List.nil_append, hdoing, Bool.false_eq_true, if_false,
    String.intercalate_cons_cons, String.intercalate_singleton, String.append_assoc]

end Ending

/-! ### Lines -/

/-- A line about an error names the command first. -/
lemma errorLine_eq {part : String} {parts : List String} :
    errorLine (part :: parts) = "rawinflate: " ++ ": ".intercalate (part :: parts) := by
  have hname : programName ++ ": " = "rawinflate: " := by decide
  rw [errorLine, String.intercalate_cons_cons, hname]

/-- A line that begins with a level does not begin with the name of the command. -/
lemma not_prefix_of_level (level : Level) (rest : String) :
    ¬"rawinflate: ".toList <+: (level.name ++ rest).toList := by
  rw [String.toList_append]
  cases level <;> simp [Level.name]

namespace LogFilter

variable {filter : LogFilter} {line : String}

lemma not_prefix_of_mem_lines {events : List Event} (h : line ∈ filter.lines events) :
    ¬"rawinflate: ".toList <+: line.toList := by
  obtain ⟨e, -, rfl⟩ := List.mem_map.mp h
  obtain ⟨rest, hrest⟩ : ∃ rest, filter.line .run e = e.level.name ++ rest :=
    ⟨_, by simp only [LogFilter.line, String.append_assoc]; rfl⟩
  rw [hrest]
  exact not_prefix_of_level e.level rest

/-- The record of a run can always be written down, and stands in the line shown after it. -/
lemma exists_telemetry (filter : LogFilter) (order : StageOrder) (s : Snapshot) :
    ∃ telemetry, (s.toJsonWith (s.stages.recordedIn order)).write = .ok telemetry ∧
      filter.completion order s = .ok
        (if filter.showsAnywhere programName .debug completionFields then
          ["DEBUG rawinflate: run complete telemetry=" ++ telemetry] else []) := by
  obtain ⟨telemetry, htelemetry⟩ := s.isWritable_toJsonWith (s.stages.recordedIn order)
  refine ⟨telemetry, htelemetry, ?_⟩
  by_cases h : filter.showsAnywhere programName .debug completionFields
  · have hline : "DEBUG rawinflate: run complete telemetry=" =
        Level.debug.name ++ " " ++ programName ++ ": run complete telemetry=" := by decide
    rw [completion, if_pos h, if_pos h, htelemetry, hline]
    rfl
  · rw [completion, if_neg h, if_neg h]

/-- So is the line, and it begins with a level. -/
lemma exists_completion (filter : LogFilter) (order : StageOrder) (s : Snapshot) :
    ∃ completed, filter.completion order s = .ok completed ∧
      ∀ line ∈ completed, ¬"rawinflate: ".toList <+: line.toList := by
  obtain ⟨telemetry, -, hcompletion⟩ := filter.exists_telemetry order s
  refine ⟨_, hcompletion, fun line hline => ?_⟩
  split at hline
  · obtain rfl := List.mem_singleton.mp hline
    exact not_prefix_of_level .debug (" rawinflate: run complete telemetry=" ++ telemetry)
  · cases hline

end LogFilter

/-! ### What is left after an attempt -/

namespace Finish

variable {sink : Sink} {logged : List String}

/-- Whatever the command was doing, the failure chooses the exit code and the label. -/
lemma ofAttempt_about {doing : List String} {failure : Failure} :
    ofAttempt ⟨.error (.about doing failure), sink, logged⟩ =
      if failure.isBrokenPipe then ⟨0, sink, textOf logged⟩
      else ⟨exitCodeOf failure, sink, textOf (logged ++ ["rawinflate: " ++ failure.label ++ ": " ++
        ": ".intercalate (doing ++ failure.message :: failure.sources)])⟩ := by
  have hline : errorLine [failure.label, (Report.about doing failure).text] =
      "rawinflate: " ++ failure.label ++ ": " ++
        ": ".intercalate (doing ++ failure.message :: failure.sources) := by
    rw [errorLine_eq, String.intercalate_cons_cons, String.intercalate_singleton, Report.text,
      Report.messages_about]
    simp only [String.append_assoc]
  rw [ofAttempt]
  dsimp only
  rw [Report.failure?_eq_some_iff.mpr ⟨doing, rfl⟩]
  dsimp only
  rw [List.append_nil, hline]
  rfl

/-- The exit code is 1 for just the errors that no failure is behind. -/
lemma exitCode_eq_one_iff (a : Attempt) :
    (ofAttempt a).exitCode = 1 ↔ ∃ report, a.result = .error report ∧ report.failure? = none := by
  rw [ofAttempt]
  rcases a.result with report | _
  · rcases hfailure : report.failure? with _ | failure
    · simp [exitFailure, hfailure]
    · by_cases h : failure.isBrokenPipe = true
      · simp [h, hfailure, exitSuccess]
      · cases failure <;> simp [h, hfailure, exitCodeOf, exitTransfer, exitData]
  · simp [exitSuccess]

/-- What the command leaves after an attempt is what its ending says. -/
lemma ofAttempt_result (ending : Ending) :
    ofAttempt ⟨ending.result, sink, logged⟩ =
      ⟨ending.exitCode, sink, textOf (logged ++ ending.lines)⟩ := by
  rw [Ending.result, Ending.exitCode, Ending.lines]
  rcases ending.failure? with _ | ⟨doing, failure⟩
  · rfl
  · refine ofAttempt_about.trans ?_
    dsimp only [Option.elim_some]
    by_cases h : failure.isBrokenPipe = true
    · rw [if_pos h, if_pos h, if_pos h, List.append_nil]
    · rw [if_neg h, if_neg h, if_neg h]

end Finish

/-! ### What an inflation comes to -/

namespace Invocation

/-- The input named leads to the source: the standard input without a name and with a dash, and
else what the file gives. -/
inductive Reads (i : Invocation) : Option String → List Delivery → Prop where
  | unnamed : i.Reads none i.standardInput
  | dash : i.Reads (some "-") i.standardInput
  | file {path : String} {source : List Delivery} :
      path ≠ "-" → i.openFile path = .ok source → i.Reads (some path) source

/-- The inflation of the input named comes to the ending. -/
inductive ComesTo (i : Invocation) : Option String → Ending → Prop where
  /-- The file cannot be opened. -/
  | unopened {path : String} {fault : Fault} :
      path ≠ "-" → i.openFile path = .error fault → i.ComesTo (some path) (.unopened path fault)
  /-- The source fails before its end. -/
  | unread {input? : Option String} {source left : List Delivery} {error : ReadError} :
      i.Reads input? source → collect .cooperative source = (.error error, left) →
      i.ComesTo input? (.unread error)
  /-- The whole source is collected, and is no stream. -/
  | undecoded {input? : Option String} {source left : List Delivery} {input : ByteArray}
      {error : DecodeError} :
      i.Reads input? source → collect .cooperative source = (.ok input, left) →
      decode input = .error error → i.ComesTo input? (.undecoded input error)
  /-- The whole source is collected and decoded, and the standard output fails. -/
  | unwritten {input? : Option String} {source left : List Delivery} {input output : ByteArray}
      {outcome : Outcome} {called : Sink} {fault : Fault} :
      i.Reads input? source → collect .cooperative source = (.ok input, left) →
      decode input = .ok (outcome, output) →
      i.standardOutput.deliver .cooperative output = (called, .error fault) →
      i.ComesTo input? (.unwritten input outcome output fault)
  /-- The whole source is collected, decoded, written and flushed. -/
  | written {input? : Option String} {source left : List Delivery} {input output : ByteArray}
      {outcome : Outcome} {called : Sink} :
      i.Reads input? source → collect .cooperative source = (.ok input, left) →
      decode input = .ok (outcome, output) →
      i.standardOutput.deliver .cooperative output = (called, .ok ()) →
      i.ComesTo input? (.written input outcome output)

variable {i : Invocation} {input? : Option String} {source : List Delivery} {ending : Ending}

/-- A source that is read is what the input opens to. -/
lemma Reads.openInput_eq (h : i.Reads input? source) : i.openInput input? = .ok source := by
  cases h with
  | unnamed => rfl
  | dash => rfl
  | file hne hfile => rw [openInput, if_neg hne, hfile]; rfl

/-- Either a source is read, or the file named cannot be opened. -/
lemma exists_reads_or_unopened (i : Invocation) (input? : Option String) :
    (∃ source, i.Reads input? source) ∨ ∃ path fault, input? = some path ∧ path ≠ "-" ∧
      i.openFile path = .error fault := by
  rcases input? with _ | path
  · exact .inl ⟨_, .unnamed⟩
  · by_cases hne : path = "-"
    · obtain rfl := hne
      exact .inl ⟨_, .dash⟩
    · rcases hfile : i.openFile path with fault | source
      · exact .inr ⟨path, fault, rfl, hne, hfile⟩
      · exact .inl ⟨source, .file hne hfile⟩

lemma Reads.attempt_eq (h : i.Reads input? source) : i.attempt input? = i.attemptFrom source := by
  rw [attempt, h.openInput_eq]

lemma Reads.unique {other : List Delivery} (h : i.Reads input? source)
    (h' : i.Reads input? other) : source = other :=
  Except.ok.inj (h.openInput_eq.symm.trans h'.openInput_eq)

/-- A file that is read can be opened. -/
lemma Reads.openFile_eq {path : String} (h : i.Reads (some path) source) (hne : path ≠ "-") :
    i.openFile path = .ok source := by
  cases h with
  | dash => exact absurd rfl hne
  | file _ hfile => exact hfile

/-- What the inflation of a source comes to, stage by stage. -/
def endingOf (i : Invocation) (source : List Delivery) : Ending :=
  match (collect .cooperative source).1 with
  | .error error => .unread error
  | .ok input =>
      match decode input with
      | .error error => .undecoded input error
      | .ok (outcome, output) =>
          match (i.standardOutput.deliver .cooperative output).2 with
          | .error fault => .unwritten input outcome output fault
          | .ok () => .written input outcome output

lemma comesTo_endingOf (hs : i.Reads input? source) : i.ComesTo input? (i.endingOf source) := by
  rw [endingOf]
  rcases hc : collect .cooperative source with ⟨error | input, left⟩
  · exact .unread hs hc
  · dsimp only
    rcases hd : decode input with error | ⟨outcome, output⟩
    · exact .undecoded hs hc hd
    · dsimp only
      rcases hw : i.standardOutput.deliver .cooperative output with ⟨called, fault | _⟩
      · exact .unwritten hs hc hd hw
      · exact .written hs hc hd hw

lemma ComesTo.eq_endingOf (h : i.ComesTo input? ending) (hs : i.Reads input? source) :
    ending = i.endingOf source := by
  cases h with
  | unopened hne hfile => cases hfile.symm.trans (hs.openFile_eq hne)
  | unread hs' hc =>
      obtain rfl := hs.unique hs'
      rw [endingOf, hc]
  | undecoded hs' hc hd =>
      obtain rfl := hs.unique hs'
      simp only [endingOf, hc, hd]
  | unwritten hs' hc hd hw =>
      obtain rfl := hs.unique hs'
      simp only [endingOf, hc, hd, hw]
  | written hs' hc hd hw =>
      obtain rfl := hs.unique hs'
      simp only [endingOf, hc, hd, hw]

lemma ComesTo.eq_unopened {path : String} {fault : Fault} (h : i.ComesTo (some path) ending)
    (hne : path ≠ "-") (hfile : i.openFile path = .error fault) :
    ending = .unopened path fault := by
  have hreads : ∀ source, ¬i.Reads (some path) source := fun source hs => by
    cases hfile.symm.trans (hs.openFile_eq hne)
  cases h with
  | unopened _ hfile' => rw [Except.error.inj (hfile.symm.trans hfile')]
  | unread hs => exact absurd hs (hreads _)
  | undecoded hs => exact absurd hs (hreads _)
  | unwritten hs => exact absurd hs (hreads _)
  | written hs => exact absurd hs (hreads _)

/-- An inflation comes to exactly one ending. -/
lemma exists_comesTo (i : Invocation) (input? : Option String) :
    ∃ ending, ∀ other, i.ComesTo input? other ↔ other = ending := by
  rcases i.exists_reads_or_unopened input? with ⟨source, hs⟩ | ⟨path, fault, rfl, hne, hfile⟩
  · refine ⟨i.endingOf source, fun other => ⟨fun h => h.eq_endingOf hs, ?_⟩⟩
    rintro rfl
    exact comesTo_endingOf hs
  · refine ⟨.unopened path fault, fun other => ⟨fun h => h.eq_unopened hne hfile, ?_⟩⟩
    rintro rfl
    exact .unopened hne hfile

/-- The attempt to inflate gives what the ending says. -/
lemma ComesTo.attempt_eq (h : i.ComesTo input? ending) :
    ∃ completed, ending.completion i = .ok completed ∧
      (∀ line ∈ completed, ¬"rawinflate: ".toList <+: line.toList) ∧
      i.attempt input? = ⟨ending.result, ending.standardOutput i,
        (LogFilter.ofSetting i.logSetting?).lines ending.events ++ completed⟩ := by
  have hempty : ∀ line ∈ ([] : List String), ¬"rawinflate: ".toList <+: line.toList :=
    fun line hline => absurd hline List.not_mem_nil
  cases h with
  | unopened hne hfile =>
      refine ⟨[], rfl, hempty, ?_⟩
      rw [attempt, openInput, if_neg hne, hfile]
      rfl
  | unread hs hc =>
      refine ⟨[], rfl, hempty, ?_⟩
      rw [hs.attempt_eq, attemptFrom, inflateStream_of_unread hc]
      rfl
  | undecoded hs hc hd =>
      refine ⟨[], rfl, hempty, ?_⟩
      rw [hs.attempt_eq, attemptFrom, inflateStream_of_undecoded hc hd, List.append_nil]
      rfl
  | unwritten hs hc hd hw =>
      refine ⟨[], rfl, hempty, ?_⟩
      rw [hs.attempt_eq, attemptFrom, inflateStream_of_decoded hc hd, Ending.standardOutput,
        Ending.output?, Option.elim_some, hw, List.append_nil]
      rfl
  | @written _ _ _ input _ outcome _ hs hc hd hw =>
      obtain ⟨completed, hcompleted, hlines⟩ :=
        (LogFilter.ofSetting i.logSetting?).exists_completion i.stageOrder
          (snapshotOf i.clock input.size outcome)
      refine ⟨completed, hcompleted, hlines, ?_⟩
      rw [hs.attempt_eq, attemptFrom, inflateStream_of_decoded hc hd, Ending.standardOutput,
        Ending.output?, Option.elim_some, hw]
      dsimp only
      rw [hcompleted]
      rfl

/-- Of a source only what it gives counts. -/
lemma attempt_congr {other? : Option String} {other : List Delivery}
    (hs : i.Reads input? source) (ho : i.Reads other? other)
    (h : (collect .cooperative source).1 = (collect .cooperative other).1) :
    i.attempt input? = i.attempt other? := by
  rw [hs.attempt_eq, ho.attempt_eq, attemptFrom, attemptFrom, inflateStream_congr h]

/-- Of the arguments only the input that they name counts. -/
lemma run_of_inflate (i : Invocation) {arguments : List String} {input? : Option String}
    (h : Request.ofArguments arguments = .ok (.inflate input?)) :
    { i with arguments := arguments }.run = i.inflate input? := by
  rw [run, h]
  rfl

/-- What the command leaves is what its ending says. -/
lemma ComesTo.run_eq (h : i.ComesTo input? ending)
    (hrequest : Request.ofArguments i.arguments = .ok (.inflate input?)) :
    ∃ completed, ending.completion i = .ok completed ∧
      (∀ line ∈ completed, ¬"rawinflate: ".toList <+: line.toList) ∧
      i.run = ⟨ending.exitCode, ending.standardOutput i,
        textOf ((LogFilter.ofSetting i.logSetting?).lines ending.events ++ completed ++
          ending.lines)⟩ := by
  obtain ⟨completed, hcompleted, hlevels, hattempt⟩ := h.attempt_eq
  have hrun : i.run = i.inflate input? := i.run_of_inflate hrequest
  refine ⟨completed, hcompleted, hlevels, ?_⟩
  rw [hrun, inflate, hattempt]
  exact Finish.ofAttempt_result ending

/-- The standard output accepts a front part of a decoded input, and all of it if the command
comes to its end. -/
lemma ComesTo.accepted (h : i.ComesTo input? ending) {output : ByteArray}
    (hsome : ending.output? = some output) :
    ∃ taken left, taken ++ left = output ∧
      (ending.standardOutput i).accepted = i.standardOutput.accepted ++ taken ∧
      (ending.failure? = none → left = .empty) := by
  obtain ⟨taken, left, hout, ha, hall⟩ :=
    Sink.deliver_accepted .cooperative i.standardOutput output
  rw [Ending.standardOutput, hsome]
  refine ⟨taken, left, hout, ha, fun hnone => hall ?_⟩
  cases h with
  | written _ _ _ hw =>
      cases hsome
      rw [hw]
  | unopened => cases hnone
  | unread => cases hnone
  | undecoded => cases hnone
  | unwritten => cases hnone

/-- A file that cannot be opened is a failure to read. -/
lemma run_of_unopened {path : String} {fault : Fault}
    (h : Request.ofArguments i.arguments = .ok (.inflate (some path))) (hne : path ≠ "-")
    (hfile : i.openFile path = .error fault) :
    i.run.exitCode = 74 ∧ i.run.standardOutput = i.standardOutput ∧
      i.run.errorText = "rawinflate: stream read: opening " ++ path ++
        ": input stream failed after 0 bytes: " ++ fault.text ++ ": " ++ fault.text ++ "\n" := by
  obtain ⟨completed, hcompleted, -, hrun⟩ := (ComesTo.unopened hne hfile).run_eq h
  cases hcompleted
  rw [hrun, Ending.lines_unopened]
  exact ⟨rfl, rfl, rfl⟩

/-- A file that can be opened gives what its bytes give on the standard input. -/
lemma run_of_opened {path : String}
    (h : Request.ofArguments i.arguments = .ok (.inflate (some path))) (hne : path ≠ "-")
    (hfile : i.openFile path = .ok source) :
    i.run = { i with arguments := [], standardInput := source }.run := by
  have hrun : i.run = i.inflate (some path) := i.run_of_inflate h
  have hstdin : { i with arguments := [], standardInput := source }.run =
      { i with standardInput := source }.inflate none :=
    run_of_inflate { i with standardInput := source } rfl
  rw [hrun, hstdin, inflate, inflate, (Reads.file hne hfile).attempt_eq, Reads.unnamed.attempt_eq]
  rfl

/-- A path that leads to what the standard input gives is as good as the standard input. -/
lemma exists_reads_path {path : String} (hfile : i.openFile path = .ok source)
    (h : (collect .cooperative source).1 = (collect .cooperative i.standardInput).1) :
    ∃ given, i.Reads (some path) given ∧
      (collect .cooperative given).1 = (collect .cooperative i.standardInput).1 := by
  by_cases hdash : path = "-"
  · obtain rfl := hdash
    exact ⟨i.standardInput, .dash, rfl⟩
  · exact ⟨source, .file hdash hfile, h⟩

/-- **What the command leaves says how far it came**, if it is asked to inflate. It comes to
exactly one ending, and the exit code is that of the ending; a receiver that has gone away counts
as success. The standard output is not called before the whole input is decoded, it accepts a
front part of the output, and all of it if the command comes to the end. After the log, which
can always be written, a line names the failure that chose the exit code, unless the command
succeeds. A file that cannot be opened is a failure to read, and a file that can be gives what
its bytes on the standard input give. The standard input, with or without a dash, and a path to
the same input give the same. -/
theorem run_ending (i : Invocation) {input? : Option String}
    (h : Request.ofArguments i.arguments = .ok (.inflate input?)) :
    let f := i.run
    (∃ ending completed, (∀ other, i.ComesTo input? other ↔ other = ending) ∧
      ending.completion i = .ok completed ∧
      let logged := (LogFilter.ofSetting i.logSetting?).lines ending.events ++ completed
      ((f.exitCode = 0 ↔ (∃ input outcome output, ending = .written input outcome output) ∨
          ∃ input outcome output fault, ending = .unwritten input outcome output fault ∧
            fault.kind = .brokenPipe) ∧
        (f.exitCode = 65 ↔ ∃ input error, ending = .undecoded input error) ∧
        (f.exitCode = 74 ↔ (∃ path fault, ending = .unopened path fault) ∨
          (∃ error, ending = .unread error) ∨
          ∃ input outcome output fault, ending = .unwritten input outcome output fault ∧
            fault.kind ≠ .brokenPipe) ∧
        (f.exitCode = 0 ∨ f.exitCode = 65 ∨ f.exitCode = 74)) ∧
      ((ending.output? = none → f.standardOutput = i.standardOutput) ∧
        (∀ output, ending.output? = some output → ∃ taken left, taken ++ left = output ∧
          f.standardOutput.accepted = i.standardOutput.accepted ++ taken) ∧
        ∀ input outcome output, ending = .written input outcome output →
          f.standardOutput.accepted = i.standardOutput.accepted ++ output) ∧
      (∀ line ∈ logged, ¬"rawinflate: ".toList <+: line.toList) ∧
      (f.exitCode = 0 → f.errorText = textOf logged) ∧
      (f.exitCode ≠ 0 → ∃ doing failure, ending.failure? = some (doing, failure) ∧
        f.exitCode = exitCodeOf failure ∧
        f.errorText = textOf (logged ++ ["rawinflate: " ++ failure.label ++ ": " ++
          ": ".intercalate (doing ++ failure.message :: failure.sources)]))) ∧
    (∀ path fault, input? = some path → path ≠ "-" → i.openFile path = .error fault →
      f.exitCode = 74 ∧ f.standardOutput = i.standardOutput ∧
        f.errorText = "rawinflate: stream read: opening " ++ path ++
          ": input stream failed after 0 bytes: " ++ fault.text ++ ": " ++ fault.text ++ "\n") ∧
    (∀ path source, input? = some path → path ≠ "-" → i.openFile path = .ok source →
      f = { i with arguments := [], standardInput := source }.run) ∧
    ∀ arguments other?, Request.ofArguments arguments = .ok (.inflate other?) →
      (other? = none ∨ other? = some "-" ∨ ∃ path source, other? = some path ∧
        i.openFile path = .ok source ∧
        (collect .cooperative source).1 = (collect .cooperative i.standardInput).1) →
      { i with arguments := arguments }.run = { i with arguments := [] }.run := by
  intro f
  refine ⟨?_, ?_, ?_, ?_⟩
  · obtain ⟨ending, hending⟩ := i.exists_comesTo input?
    have hcomes := (hending ending).mpr rfl
    obtain ⟨completed, hcompleted, hlevels, hrun⟩ := hcomes.run_eq h
    refine ⟨ending, completed, hending, hcompleted, ?_⟩
    intro logged
    have hf : f = ⟨ending.exitCode, ending.standardOutput i, textOf (logged ++ ending.lines)⟩ :=
      hrun
    rw [hf]
    refine ⟨ending.exitCode_iff, ⟨?_, ?_, ?_⟩, ?_, ?_⟩
    · intro hnone
      rw [Ending.standardOutput, hnone]
      rfl
    · intro output hsome
      obtain ⟨taken, left, hout, ha, -⟩ := hcomes.accepted hsome
      exact ⟨taken, left, hout, ha⟩
    · rintro input outcome output rfl
      obtain ⟨taken, left, hout, ha, hall⟩ := hcomes.accepted rfl
      rw [hall rfl, ByteArray.append_empty] at hout
      exact ha.trans (congrArg (_ ++ ·) hout)
    · intro line hline
      rcases List.mem_append.mp hline with hline | hline
      · exact LogFilter.not_prefix_of_mem_lines hline
      · exact hlevels line hline
    · rcases ending.lines_cases with ⟨hzero, hlines⟩ | ⟨hcode, doing, failure, hsome, hc, hlines⟩
      · rw [hlines, List.append_nil]
        exact ⟨fun _ => rfl, fun hcode => absurd hzero hcode⟩
      · rw [hlines]
        exact ⟨fun hzero => absurd hzero hcode, fun _ => ⟨doing, failure, hsome, hc, rfl⟩⟩
  · rintro path fault rfl hne hfile
    exact run_of_unopened h hne hfile
  · rintro path source rfl hne hfile
    exact run_of_opened h hne hfile
  · intro arguments other? hrequest hother
    have hnone : { i with arguments := [] }.run = i.inflate none := i.run_of_inflate rfl
    rw [i.run_of_inflate hrequest, hnone, inflate, inflate]
    refine congrArg Finish.ofAttempt ?_
    rcases hother with rfl | rfl | ⟨path, source, rfl, hfile, hc⟩
    · rfl
    · exact attempt_congr .dash .unnamed rfl
    · obtain ⟨given, hgiven, hc'⟩ := exists_reads_path hfile hc
      exact attempt_congr hgiven .unnamed hc'

/-- A command with these arguments, and no files. -/
def piped (arguments : List String) (standardInput : List Delivery)
    (writes : List WriteReply) : Invocation where
  arguments := arguments
  logSetting? := none
  standardInput := standardInput
  openFile _ := .error (.system 2)
  standardOutput := .ofReplies writes []
  clock := .still

/-- A command whose standard output is a pipe that nobody reads. -/
def pipedOut : Invocation :=
  piped [] [.bytes mixedBytes] [.fail (.system 32)]

/-- A command whose standard input fails with the fault of such a pipe. -/
def pipedIn : Invocation :=
  piped [] [.fail (.system 32)] []

/-- A command for a file that there is not. -/
def missing : Invocation :=
  piped ["missing"] [] []

lemma comesTo_pipedOut :
    ∃ outcome, pipedOut.ComesTo none
      (.unwritten mixedBytes outcome ⟨mixedStream.output.toArray⟩ (.system 32)) := by
  have hc : collect .cooperative [.bytes mixedBytes] = (.ok mixedBytes, []) := by
    rw [collect_eq_gather, gather_bytes (by decide), ByteArray.empty_append]
    rfl
  have hsize : (⟨mixedStream.output.toArray⟩ : ByteArray).size ≠ 0 :=
    length_mixedStream_output.trans_ne (by decide)
  have hw : (pipedOut.standardOutput.deliver .cooperative ⟨mixedStream.output.toArray⟩).2 =
      .error (.system 32) := by
    rw [Sink.deliver, Sink.writeAll_of_fault hsize rfl (by decide)]
  exact ⟨_, .unwritten .unnamed hc decode_mixedBytes (Prod.ext rfl hw)⟩

lemma comesTo_pipedIn : pipedIn.ComesTo none (.unread ⟨0, .system 32⟩) := by
  have hc : collect .cooperative [.fail (.system 32)] = (.error ⟨0, .system 32⟩, []) := by
    rw [collect_eq_gather]
    rfl
  exact .unread .unnamed hc

/-- That a pipe is broken counts as success for the standard output, but not for the
standard input. That a file is missing is a failure to read it. -/
theorem run_ending_brokenPipes :
    Request.ofArguments [] = .ok (.inflate none) ∧
      pipedOut.run.exitCode = 0 ∧
      pipedIn.run.exitCode = 74 ∧ pipedIn.run.standardOutput = .ofReplies [] [] ∧
      pipedIn.run.errorText =
        "rawinflate: stream read: input stream failed after 0 bytes: " ++
          "Broken pipe (os error 32): Broken pipe (os error 32)\n" ∧
      Request.ofArguments ["missing"] = .ok (.inflate (some "missing")) ∧
      missing.run.exitCode = 74 ∧ missing.run.errorText =
        "rawinflate: stream read: opening missing: input stream failed after 0 bytes: " ++
          "No such file or directory (os error 2): No such file or directory (os error 2)\n" := by
  have hnone : Request.ofArguments [] = .ok (.inflate none) := rfl
  have hfile : Request.ofArguments ["missing"] = .ok (.inflate (some "missing")) := by decide
  obtain ⟨⟨out, _, hout, -, ⟨hzero, -⟩, -⟩, -⟩ := run_ending pipedOut hnone
  obtain ⟨⟨ending, completed, hin, hcompleted, ⟨-, -, hcode, -⟩, ⟨hsink, -⟩, -, -, hline⟩, -⟩ :=
    run_ending pipedIn hnone
  obtain ⟨-, hunopened, -⟩ := run_ending missing hfile
  obtain ⟨outcome, hpipedOut⟩ := comesTo_pipedOut
  obtain rfl := (hout _).mp hpipedOut
  obtain rfl := (hin _).mp comesTo_pipedIn
  cases hcompleted
  have hbroken : pipedOut.run.exitCode = 0 := hzero.mpr (.inr ⟨_, _, _, _, rfl, rfl⟩)
  have hfailed : pipedIn.run.exitCode = 74 := hcode.mpr (.inr (.inl ⟨_, rfl⟩))
  rw [hfailed] at hline
  obtain ⟨doing, failure, hfailure, -, htext⟩ := hline (by decide)
  cases hfailure
  obtain ⟨hmissing, -, hmissingText⟩ := hunopened "missing" (.system 2) rfl (by decide) rfl
  refine ⟨hnone, hbroken, hfailed, hsink rfl, ?_, hfile, hmissing, ?_⟩
  · rw [htext]
    decide
  · rw [hmissingText]
    decide

end Invocation

end Deflate.Command
