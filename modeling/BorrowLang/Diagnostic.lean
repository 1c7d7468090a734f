import BorrowLang.Position
import BorrowLang.Text.Json

/-! # Diagnostics

A failure that a user sees is one diagnostic: its kind, a message, the phase that found it, a span,
notes, and the place or expression at fault where there is one.  It is shown as lines of text or as
a JSON object. -/
set_option autoImplicit false
namespace BorrowLang

/-- The kinds of failure. -/
inductive DiagnosticKind
  | conflictingBorrow
  | useAfterMove
  | assignWhileBorrowed
  | assignImmutable
  | danglingBorrow
  | moveWhileBorrowed
  | moveOutOfBorrow
  | useUninitialized
  | typeMismatch
  | unresolvedName
  | duplicateDefinition
  | invalidAssignTarget
  | formatMismatch
  | syntaxError
  | stackExhausted
  | arithmeticFault
deriving Repr, DecidableEq, Inhabited

namespace DiagnosticKind

def code : DiagnosticKind → String
  | conflictingBorrow => "ConflictingBorrow"
  | useAfterMove => "UseAfterMove"
  | assignWhileBorrowed => "AssignWhileBorrowed"
  | assignImmutable => "AssignImmutable"
  | danglingBorrow => "DanglingBorrow"
  | moveWhileBorrowed => "MoveWhileBorrowed"
  | moveOutOfBorrow => "MoveOutOfBorrow"
  | useUninitialized => "UseUninitialized"
  | typeMismatch => "TypeMismatch"
  | unresolvedName => "UnresolvedName"
  | duplicateDefinition => "DuplicateDefinition"
  | invalidAssignTarget => "InvalidAssignTarget"
  | formatMismatch => "FormatMismatch"
  | syntaxError => "SyntaxError"
  | stackExhausted => "StackExhausted"
  | arithmeticFault => "ArithmeticFault"

def all : List DiagnosticKind :=
  [conflictingBorrow, useAfterMove, assignWhileBorrowed, assignImmutable, danglingBorrow,
   moveWhileBorrowed, moveOutOfBorrow, useUninitialized, typeMismatch, unresolvedName,
   duplicateDefinition, invalidAssignTarget, formatMismatch, syntaxError, stackExhausted,
   arithmeticFault]

def ofCode? (name : String) : Option DiagnosticKind :=
  all.find? fun kind => kind.code = name

end DiagnosticKind

/-- The phase that found a failure. -/
inductive Phase
  | parser
  | borrowcheck
  | eval
deriving Repr, DecidableEq

def Phase.text : Phase → String
  | parser => "parser"
  | borrowcheck => "borrowcheck"
  | eval => "eval"

/-- One failure as a user sees it. -/
structure Diagnostic where
  message : String
  kind : DiagnosticKind
  phase : Option String := none
  severity : String := "error"
  span : Span := {}
  notes : List String := []
  subject : Option String := none
deriving Repr, DecidableEq, Inhabited

namespace Diagnostic

/-- The lines shown to a user: severity, kind and message, then the span, then the notes. -/
def lines (d : Diagnostic) : List String :=
  (d.severity ++ "[" ++ d.kind.code ++ "]: " ++ d.message)
    :: (" --> " ++ d.span.text)
    :: d.notes.map ("  = note: " ++ ·)

def render (d : Diagnostic) : String :=
  "\n".intercalate d.lines

/-- The fields of a diagnostic as a JSON object. -/
def toJson (d : Diagnostic) : Text.Json :=
  .obj
    [("phase", .ofString? d.phase), ("kind", .str d.kind.code), ("message", .str d.message),
     ("severity", .str d.severity), ("subject", .ofString? d.subject),
     ("file", .ofString? d.span.file), ("line", .ofNat? d.span.line),
     ("column", .ofNat? d.span.column), ("notes", .arr (d.notes.map .str))]

end Diagnostic

end BorrowLang
