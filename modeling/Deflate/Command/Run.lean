/-
The command from its arguments to its exit code.

* `Invocation`: all that the command is given;
* `Finish`: all that it leaves, the exit code, the standard output and the text
  on the standard error output, with `Finish.errorLines` for its lines;
* `Attempt` and `Invocation.attempt`: what inflating an input comes to, before
  the command says anything about it;
* `Finish.ofAttempt`: the exit code, and the line about an error; if a failure
  of the run is behind the error it is chosen by the failure;
* `Invocation.run`: the whole command.
-/
import Deflate.Command.Arguments
import Deflate.Command.Log
import Deflate.Command.Report
import Deflate.Pipeline

namespace Deflate.Command

/-- All that the command is given. -/
structure Invocation where
  /-- The arguments after the name of the command. -/
  arguments : List String
  /-- The setting of the log, if there is one. -/
  logSetting? : Option String
  /-- The standard input. -/
  standardInput : List Delivery
  /-- Opens a file. -/
  openFile : String → Except Fault (List Delivery)
  /-- The standard output. -/
  standardOutput : Sink
  /-- The clock that runs are measured by. -/
  clock : Clock
  /-- The order in which the times of the stages are written down. -/
  stageOrder : StageOrder := .usual

/-- All that the command leaves. -/
structure Finish where
  /-- The exit code. -/
  exitCode : Nat
  /-- The standard output. -/
  standardOutput : Sink
  /-- The text on the standard error output. -/
  errorText : String

/-- A text of some lines, each with a line feed at its end. -/
def textOf (lines : List String) : String :=
  String.join (lines.map (· ++ "\n"))

/-- A line without the carriage return at its end, if there is one. -/
def withoutReturn (line : String) : String :=
  if line.toList.getLast? = some '\x0d' then String.ofList line.toList.dropLast else line

/-- The lines on the standard error output. A line feed ends a line, with a
carriage return before it or not. -/
def Finish.errorLines (f : Finish) : List String :=
  (f.errorText.splitOn "\n").dropLast.map withoutReturn

/-- The exit code after success. -/
def exitSuccess : Nat := 0

/-- The exit code for errors that no failure of the run is behind. -/
def exitFailure : Nat := 1

/-- The exit code for arguments that ask for nothing. -/
def exitUsage : Nat := 2

/-- The exit code for input that is not a complete stream. -/
def exitData : Nat := 65

/-- The exit code for faults of the input and the output. -/
def exitTransfer : Nat := 74

/-- The exit code of a failure. -/
def exitCodeOf : Failure → Nat
  | .decode _ => exitData
  | .read _ => exitTransfer
  | .write _ => exitTransfer

/-- What doing what the arguments ask for comes to. -/
structure Attempt where
  /-- Whether it could be done, and else why not. -/
  result : Except Report Unit
  /-- The standard output. -/
  standardOutput : Sink
  /-- The lines of the log. -/
  logged : List String

/-- A line about an error: the name of the command and what there is to say. -/
def errorLine (parts : List String) : String :=
  ": ".intercalate (programName :: parts)

/-- What the command leaves after an attempt. That the receiver of the output
has gone away counts as success. -/
def Finish.ofAttempt (a : Attempt) : Finish :=
  let leave (code : Nat) (lines : List String) : Finish :=
    ⟨code, a.standardOutput, textOf (a.logged ++ lines)⟩
  match a.result with
  | .ok () => leave exitSuccess []
  | .error report =>
      match report.failure? with
      | some failure =>
          if failure.isBrokenPipe then leave exitSuccess []
          else leave (exitCodeOf failure) [errorLine [failure.label, report.text]]
      | none => leave exitFailure [errorLine [report.text]]

namespace Invocation

/-- Opens the input; a lone dash is the standard input, and so is none. That a
file cannot be opened counts as a fault of the input before its first byte. -/
def openInput (i : Invocation) : Option String → Except Report (List Delivery)
  | none => .ok i.standardInput
  | some path =>
      if path = "-" then .ok i.standardInput
      else (i.openFile path).mapError fun fault =>
        .during s!"opening {path}" (.failed (.read ⟨0, fault⟩))

/-- Prints a text and succeeds. -/
def print (i : Invocation) (text : String) : Finish :=
  ⟨exitSuccess, (i.standardOutput.deliver .cooperative text.toUTF8).1, ""⟩

/-- Inflates what a source gives and reports the record of the run. -/
def attemptFrom (i : Invocation) (source : List Delivery) : Attempt :=
  let filter := LogFilter.ofSetting i.logSetting?
  let r := inflateStream i.clock .cooperative source i.standardOutput
  let shown := filter.lines r.events
  match r.result with
  | .error failure => ⟨.error (.failed failure), r.sink, shown⟩
  | .ok snapshot =>
      match filter.completion i.stageOrder snapshot with
      | .error fault => ⟨.error (.unwritable fault), r.sink, shown⟩
      | .ok lines => ⟨.ok (), r.sink, shown ++ lines⟩

/-- Opens an input and inflates it. -/
def attempt (i : Invocation) (input? : Option String) : Attempt :=
  match i.openInput input? with
  | .error report => ⟨.error report, i.standardOutput, []⟩
  | .ok source => i.attemptFrom source

/-- Inflates an input. -/
def inflate (i : Invocation) (input? : Option String) : Finish :=
  .ofAttempt (i.attempt input?)

/-- Runs the command. -/
def run (i : Invocation) : Finish :=
  match Request.ofArguments i.arguments with
  | .error error => ⟨exitUsage, i.standardOutput, textOf error.lines⟩
  | .ok .help => i.print helpText
  | .ok .version => i.print versionText
  | .ok (.inflate input?) => i.inflate input?

end Invocation

end Deflate.Command
