import BorrowLang.Heap

/-! # Templates

A template is literal text with holes: `{}` is a hole, a doubled brace stands for one brace, and any
other brace is a fault.  A template with `n` holes has `n + 1` pieces of text around them. -/
set_option autoImplicit false
namespace BorrowLang

/-- Why a text is no template. -/
inductive TemplateFault
  | unsupportedHole
  | unmatchedBrace
deriving Repr, DecidableEq

def TemplateFault.message : TemplateFault → String
  | unsupportedHole => "invalid format string: only `\x7b\x7d` placeholders are supported"
  | unmatchedBrace => "invalid format string: unmatched `\x7d` found"

namespace Template

def prependChar (c : Char) : List (List Char) → List (List Char)
  | [] => [[c]]
  | piece :: rest => (c :: piece) :: rest

/-- The pieces of a template, as lists of characters. -/
def splitChars : List Char → Except TemplateFault (List (List Char))
  | [] => .ok [[]]
  | '\x7b' :: '\x7b' :: rest => (splitChars rest).map (prependChar '\x7b')
  | '\x7d' :: '\x7d' :: rest => (splitChars rest).map (prependChar '\x7d')
  | '\x7b' :: '\x7d' :: rest => (splitChars rest).map ([] :: ·)
  | c :: rest =>
      if c = '\x7b' then .error .unsupportedHole
      else if c = '\x7d' then .error .unmatchedBrace
      else (splitChars rest).map (prependChar c)

/-- The pieces of a template; there is always one. -/
def split (template : String) : Except TemplateFault (List String) :=
  (splitChars template.toList).map (·.map String.ofList)

def holes (template : String) : Except TemplateFault Nat :=
  (split template).map (·.length - 1)

/-- Texts put between pieces, as far as both go. -/
def interleave : List String → List String → String
  | text :: texts, piece :: pieces => text ++ piece ++ interleave texts pieces
  | _, _ => ""

/-- The text of some pieces with texts in the holes between them. -/
def fill (pieces texts : List String) : String :=
  match pieces with
  | [] => ""
  | first :: rest => first ++ interleave texts rest

end Template

/-- Why a template cannot be shown with some values. -/
inductive FormatFault
  | template (fault : TemplateFault)
  | heap (fault : HeapFault)
deriving Repr, DecidableEq

/-- A template with values in its holes.  Values without a hole are not shown, and holes without a
value are dropped with the text after them. -/
def Heap.format (heap : Heap) (template : String) (values : List Value) :
    Except FormatFault String := do
  match Template.split template with
  | .error fault => throw (.template fault)
  | .ok pieces =>
      match (values.take (pieces.length - 1)).mapM heap.display with
      | .error fault => throw (.heap fault)
      | .ok texts => return Template.fill pieces texts

end BorrowLang
