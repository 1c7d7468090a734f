import BorrowLang.Annotation
import BorrowLang.CommandLine.Directory
import BorrowLang.CommandLine.Options
import BorrowLang.Outcome

/-! # Reports

What a command line prints for each file, and the exit code.  A file that cannot be read, has a
diagnostic or differs from its annotation makes the exit code one; the other files are still
looked at. -/
set_option autoImplicit false
namespace BorrowLang.CommandLine

/-- What is printed, with the exit code. -/
structure Report where
  code : Nat := 0
  out : List String := []
  err : List String := []
deriving Repr, DecidableEq, Inhabited

/-- One report after another; the greater exit code counts. -/
def Report.append (a b : Report) : Report :=
  ⟨max a.code b.code, a.out ++ b.out, a.err ++ b.err⟩

def linesText (lines : List String) : String :=
  String.join (lines.map (· ++ "\n"))

/-- The characters of a file as a text: a carriage return, alone or before a line feed, is a line
feed. -/
def lineFeeds : List Char → List Char
  | [] => []
  | '\r' :: '\n' :: rest => '\n' :: lineFeeds rest
  | '\r' :: rest => '\n' :: lineFeeds rest
  | c :: rest => c :: lineFeeds rest

/-- What becomes of one file: its outputs or a diagnostic. -/
abbrev FileOutcome := Except Diagnostic (List String)

/-- What becomes of a text, with the log; a fault without a diagnostic ends everything. -/
def fileOutcome (options : Options) (settings : Settings) (name text : String) :
    Except Fault (FileOutcome × List LogEvent) :=
  let (answer, log) : Except Fault (List String) × List LogEvent :=
    if options.checkOnly then
      let (answer, log) := checkText settings (some name) text
      (answer.map fun _ => [], log)
    else runText settings (some name) text
  match answer with
  | .ok outputs => .ok (.ok outputs, log)
  | .error fault =>
      match fault.diagnostic? with
      | some d => .ok (.error d, log)
      | none => .error fault

/-- What is said of a text that has to be compared with its annotation and has none. -/
def noExpectationText : String := "no `// Output:` or `// Error:` annotation"

/-- How what became of a text differs from its annotation. -/
def fileProblems (checkOnly : Bool) (text : String) (outcome : FileOutcome) : List String :=
  match Expectation.read? text with
  | none => [Expectation.conflictText]
  | some expectation =>
      if expectation.isEmpty then [noExpectationText]
      else
        match outcome with
        | .error d => expectation.problems (if checkOnly then none else some []) (some d.message)
        | .ok outputs => expectation.problems (if checkOnly then none else some outputs) none

def comparisonReport (json : Bool) (name : String) (problems : List String) : Report :=
  let code : Nat := if problems.isEmpty then 0 else 1
  if json then
    { code
      out := [(Text.Json.obj
        [("file", .str name), ("exit_code", .num code),
         ("problems", .arr (problems.map .str))]).render] }
  else
    { code
      out := ((if problems.isEmpty then "ok " else "FAIL ") ++ name) :: problems.map ("  " ++ ·) }

def runReport (json : Bool) (name : String) (outcome : FileOutcome) : Report :=
  let code : Nat := if outcome.isOk then 0 else 1
  if json then
    let diagnostics : List Text.Json :=
      match outcome with
      | .ok _ => []
      | .error d => [({ d with span := { d.span with file := some (d.span.file.getD name) } }
          : Diagnostic).toJson]
    { code
      out := [(Text.Json.obj
        [("exit_code", .num code), ("outputs", .arr ((outcome.toOption.getD []).map .str)),
         ("diagnostics", .arr diagnostics)]).render] }
  else
    match outcome with
    | .ok outputs => { code, out := outputs }
    | .error d => { code, err := [d.render] }

/-- The report on one file, whose text may not be readable. -/
def fileReport (options : Options) (settings : Settings) (name : String)
    (content : Except Unreadable String) : Except Fault Report :=
  match content with
  | .error refusal => .ok { code := 1, err := [name ++ ": error: " ++ refusal.text] }
  | .ok raw =>
      let text := String.ofList (lineFeeds raw.toList)
      match fileOutcome options settings name text with
      | .error fault => .error fault
      | .ok (outcome, log) =>
          let logged : Report := if options.verbose then { err := log.map LogEvent.line } else {}
          let report :=
            if options.verify then
              comparisonReport options.json name (fileProblems options.checkOnly text outcome)
            else runReport options.json name outcome
          .ok (logged.append report)

/-- The reports on several files, one after another. -/
def reportAll (options : Options) (settings : Settings)
    (read : String → Except Unreadable String) : List String → Except Fault Report
  | [] => .ok {}
  | path :: rest =>
      match fileReport options settings (pathText path) (read path) with
      | .error fault => .error fault
      | .ok report =>
          match reportAll options settings read rest with
          | .error fault => .error fault
          | .ok more => .ok (report.append more)

/-- How a command ends. -/
inductive Ending
  /-- Nothing was run. -/
  | stopped (stop : Stop)
  | reported (report : Report)
  /-- A program led to a fault that has no diagnostic. -/
  | broken (fault : Fault)
deriving Repr, DecidableEq

/-- What a command does, given what can be read. -/
def command (read : String → Except Unreadable String) (argv : List String) : Ending :=
  match readOptions argv with
  | .error stop => .stopped stop
  | .ok (options, settings) =>
      match reportAll options settings read options.files with
      | .error fault => .broken fault
      | .ok report => .reported report

end BorrowLang.CommandLine
