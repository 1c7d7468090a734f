/-! # Positions and spans

A position is a line and a column of a program text, both counted from one.  A span is what a
message says about where it belongs: a file, a line and a column, each of which may be unknown. -/
set_option autoImplicit false
namespace BorrowLang

/-- A line and a column; zero stands for an unknown one. -/
structure Position where
  line : Nat
  column : Nat
deriving Repr, DecidableEq, Inhabited

/-- The position of the first character of a text. -/
def Position.start : Position := ⟨1, 1⟩

/-- The position after a character: only a line feed starts a new line. -/
def Position.after (p : Position) (c : Char) : Position :=
  if c = '\n' then ⟨p.line + 1, 1⟩ else ⟨p.line, p.column + 1⟩

def Position.afterAll (p : Position) (chars : List Char) : Position :=
  chars.foldl Position.after p

/-- Where a message belongs. -/
structure Span where
  file : Option String := none
  line : Option Nat := none
  column : Option Nat := none
deriving Repr, DecidableEq, Inhabited

namespace Span

/-- The span of a node: unknown without a position, and a zero line or column is unknown too. -/
def ofPosition? (file : Option String) : Option Position → Span
  | none => ⟨file, none, none⟩
  | some p =>
      ⟨file, if p.line = 0 then none else some p.line, if p.column = 0 then none else some p.column⟩

/-- The file name shown: an absent or empty one is shown as `<input>`. -/
def fileText (span : Span) : String :=
  match span.file with
  | none => "<input>"
  | some name => if name.isEmpty then "<input>" else name

/-- The text of a span: file, line and column with colons between; a column needs a line. -/
def text (span : Span) : String :=
  match span.line, span.column with
  | none, _ => span.fileText
  | some line, none => span.fileText ++ ":" ++ toString line
  | some line, some column => span.fileText ++ ":" ++ toString line ++ ":" ++ toString column

end Span

end BorrowLang
