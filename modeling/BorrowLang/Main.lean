import BorrowLang.CommandLine.Report

/-! # The program

The command line is run on the files of the system. -/
set_option autoImplicit false
namespace BorrowLang

open CommandLine

def usageText : String :=
  "usage: [-h] [--json] [--check-only] [--verify] [--entry ENTRY]\n"
    ++ "       [--max-call-depth MAX_CALL_DEPTH] [--lifetimes \x7bnll,lexical\x7d] [-v]\n"
    ++ "       source [source ...]"

/-- What the system says of a path that cannot be read. -/
def unreadable (path : String) (error : IO.Error) : Unreadable :=
  match error with
  | .noFileOrDirectory .. => .missing
  | .inappropriateType .. => .isDirectory
  | .permissionDenied .. => .other "Permission denied"
  | _ => .other (error.toString ++ " (" ++ path ++ ")")

def readPath (path : String) : IO (Except Unreadable String) := do
  match ← (IO.FS.readFile path).toBaseIO with
  | .ok text => return .ok text
  | .error error => return .error (unreadable path error)

/-- Run a command line: read the files it names, then print its report. -/
def runCommand (argv : List String) : IO UInt32 := do
  let named := (readOptions argv).toOption.elim [] fun (options, _) => options.files
  let contents ← named.mapM fun path => return (path, ← readPath path)
  let read (path : String) : Except Unreadable String :=
    (contents.lookup path).getD (.error .missing)
  match command read argv with
  | .stopped .help =>
      IO.println usageText
      return Stop.help.code.toUInt32
  | .stopped .usage =>
      IO.eprintln usageText
      return Stop.usage.code.toUInt32
  | .broken fault =>
      IO.eprintln (reprStr fault)
      return 1
  | .reported report =>
      IO.print (linesText report.out)
      IO.eprint (linesText report.err)
      return report.code.toUInt32

end BorrowLang

def main (argv : List String) : IO UInt32 :=
  BorrowLang.runCommand argv
