import BorrowLang.Syntax.OfParseTree

/-! # Programs from texts

A text is read as a parse tree, and the tree as a program.  A text that is no program is answered
with one diagnostic at the place of the first fault, except for literals that cannot be converted.
-/
set_option autoImplicit false
namespace BorrowLang

/-- Why a text is no program. -/
inductive ReadFault
  | reported (diagnostic : Diagnostic)
  /-- A string literal whose escapes cannot be decoded. -/
  | malformedString
  /-- An integer literal with more digits than are ever converted. -/
  | tooManyDigits
deriving Repr, DecidableEq

/-- The diagnostic of a message about a text. -/
def syntaxDiagnostic (file : Option String) (message : String) (loc : Position) : Diagnostic :=
  { message, kind := .syntaxError, phase := some Phase.parser.text
    span := .ofPosition? file (some loc) }

/-- The fault of a text without a parse tree. -/
def Grammar.SyntaxFault.toReadFault (file : Option String) (fault : Grammar.SyntaxFault) :
    ReadFault :=
  .reported (syntaxDiagnostic file fault.message fault.position)

/-- The fault of a text whose parse tree stands for no program. -/
def BuildFault.toReadFault (file : Option String) : BuildFault → ReadFault
  | .missingSemicolon loc => .reported (syntaxDiagnostic file "expected `;` after expression" loc)
  | .unsupportedPath owner member loc =>
      .reported
        (syntaxDiagnostic file ("unsupported path `" ++ owner ++ "::" ++ member ++ "`") loc)
  | .boxArguments loc =>
      .reported (syntaxDiagnostic file "`Box::new` takes exactly one argument" loc)
  | .integerTooLarge loc =>
      .reported (syntaxDiagnostic file "integer literal is too large for `i32`" loc)
  | .unsupportedShape loc => .reported (syntaxDiagnostic file "unsupported tree" loc)
  | .malformedString => .malformedString
  | .tooManyDigits => .tooManyDigits

def Program.ofText (file : Option String) (text : String) : Except ReadFault Program :=
  match Grammar.ParseTree.ofText text with
  | .error fault => .error (fault.toReadFault file)
  | .ok trees =>
      match buildProgram trees with
      | .error fault => .error (fault.toReadFault file)
      | .ok program => .ok program

end BorrowLang
