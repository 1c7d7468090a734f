import BorrowLang.Text.Blank
import BorrowLang.Text.Quoted

/-! # Annotations

A program text may say in a comment what its run should give: `// Output:` with the outputs, or
`// Error:` with a part of the message.  The first comment of each kind counts, and a text may not
have both. -/
set_option autoImplicit false
namespace BorrowLang

/-- What a run is expected to give. -/
structure Expectation where
  outputs : Option (List String) := none
  error : Option String := none
deriving Repr, DecidableEq, Inhabited

namespace Expectation

def isEmpty (e : Expectation) : Bool := e.outputs.isNone && e.error.isNone

/-- The rest of the line after a label, if the text begins with two slashes, any white space, the
label and a colon; spaces and tabs after the colon are dropped. -/
def labelled? (label : String) : List Char → Option (List Char)
  | '/' :: '/' :: rest =>
      let body := Text.trimLeft rest
      let mark := (label ++ ":").toList
      if mark.isPrefixOf body then
        some (((body.drop mark.length).dropWhile fun c => c = ' ' || c = '\t').takeWhile (· ≠ '\n'))
      else none
  | _ => none

/-- The rest of the line after the first label in a text. -/
def find? (label : String) : List Char → Option (List Char)
  | [] => none
  | c :: rest =>
      match labelled? label (c :: rest) with
      | some found => some found
      | none => find? label rest

/-- What is said of a text that expects both outputs and an error. -/
def conflictText : String := "a program cannot expect both output and an error"

/-- The expectation that a program text states; none where it states both kinds. -/
def read? (text : String) : Option Expectation :=
  let outputs := (find? "Output" text.toList).map fun rest => (Text.words rest).map String.ofList
  let error := (find? "Error" text.toList).map fun rest => String.ofList (Text.trim rest)
  if outputs.isSome && error.isSome then none else some ⟨outputs, error⟩

def occursIn (part : List Char) : List Char → Bool
  | [] => part.isEmpty
  | c :: rest => part.isPrefixOf (c :: rest) || occursIn part rest

/-- How a run differs from the expectation.  A run has outputs unless the program was only checked,
and a message when it failed. -/
def problems (e : Expectation) (outputs : Option (List String)) (message : Option String) :
    List String :=
  match e.error, e.outputs, message with
  | some wanted, _, none =>
      ["expected error containing " ++ Text.quoted wanted ++ ", program ran successfully"]
  | some wanted, _, some message =>
      if occursIn wanted.toList message.toList then []
      else
        ["expected error containing " ++ Text.quoted wanted ++ ", got " ++ Text.quoted message]
  | none, some wanted, some message =>
      ["expected output " ++ Text.quotedList wanted ++ ", got error " ++ Text.quoted message]
  | none, some wanted, none =>
      match outputs with
      | none => []
      | some outputs =>
          if outputs = wanted then []
          else
            ["expected output " ++ Text.quotedList wanted ++ ", got " ++ Text.quotedList outputs]
  | none, none, _ => []

end Expectation

end BorrowLang
