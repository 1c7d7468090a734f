import BorrowLang.Checker.Program
import BorrowLang.Evaluator.Program
import BorrowLang.Syntax.OfText

/-! # Outcomes

A text is read, checked and run.  The result is everything that was shown, or the first fault; what
a failing run has shown is not kept. -/
set_option autoImplicit false
namespace BorrowLang

/-- The fault that ends the way from a text to its outputs. -/
inductive Fault
  | reading (fault : ReadFault)
  | checking (fault : Checker.Fault)
  | running (fault : Evaluator.Fault)
  /-- The run was cut off. -/
  | unfinished
deriving Repr, DecidableEq

def Fault.diagnostic? : Fault → Option Diagnostic
  | reading (.reported d) | checking (.reported d) | running (.reported d) => some d
  | _ => none

/-- What checking a program gives, with the log. -/
def Program.checkLogged (settings : Settings) (file : Option String) (program : Program) :
    Except Fault (List (String × Signature)) × List LogEvent :=
  match Checker.run settings file program with
  | (.ok functions, log) => (.ok functions, log)
  | (.error fault, log) => (.error (.checking fault), log)

/-- What a program shows when it is run, with the log. -/
def Program.runLogged (settings : Settings) (file : Option String) (program : Program) :
    Except Fault (List String) × List LogEvent :=
  let result := program.run settings file
  match result.ending with
  | .normal => (.ok result.outputs, result.log)
  | .failed fault => (.error (.running fault), result.log)
  | .unfinished => (.error .unfinished, result.log)

/-- What a program shows when it is checked and run, with the log. -/
def Program.outcome (settings : Settings) (file : Option String) (program : Program) :
    Except Fault (List String) × List LogEvent :=
  match program.checkLogged settings file with
  | (.error fault, log) => (.error fault, log)
  | (.ok _, log) =>
      let (answer, more) := program.runLogged settings file
      (answer, log ++ more)

/-- What a text gives when it is read and checked, with the log. -/
def checkText (settings : Settings) (file : Option String) (text : String) :
    Except Fault Unit × List LogEvent :=
  match Program.ofText file text with
  | .error fault => (.error (.reading fault), [])
  | .ok program =>
      let (answer, log) := program.checkLogged settings file
      (answer.map fun _ => (), log)

def failedEvent (file : Option String) (d : Diagnostic) : LogEvent :=
  .failed (Span.fileText ⟨file, none, none⟩) (d.phase.getD "") d.message

/-- What a text shows when it is read, checked and run, with the log. -/
def runText (settings : Settings) (file : Option String) (text : String) :
    Except Fault (List String) × List LogEvent :=
  let (answer, log) : Except Fault (List String) × List LogEvent :=
    match Program.ofText file text with
    | .error fault => (.error (.reading fault), [])
    | .ok program => program.outcome settings file
  match answer with
  | .ok outputs => (.ok outputs, log)
  | .error fault =>
      (.error fault, log ++ (fault.diagnostic?.map (failedEvent file)).toList)

end BorrowLang
