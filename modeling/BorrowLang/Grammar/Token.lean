import BorrowLang.Grammar.Terminal
import BorrowLang.Position

/-! # Tokens

The next token of a text, among the terminals that are possible where it is read.  White space and
comments come before any token.  Terminals are tried in order and the first that matches wins: a
word is a keyword only when it is one of the possible terminals, and where no name is possible a
keyword may run into what follows it. -/
set_option autoImplicit false
namespace BorrowLang.Grammar

/-- A token with its text and the position of its first character. -/
structure Token where
  terminal : Terminal
  text : String
  position : Position
deriving Repr, DecidableEq, Inhabited

/-- What is being skipped before a token. -/
inductive BlankState
  | between
  | lineComment
  | opening
  | blockComment (afterStar : Bool)
deriving Repr, DecidableEq

def isSpace (c : Char) : Bool :=
  c = ' ' || c = '\t' || c = '\x0c' || c = '\r' || c = '\n'

/-- Does a comment end somewhere in the text? -/
def closesComment : List Char → Bool
  | '*' :: '/' :: _ => true
  | _ :: rest => closesComment rest
  | [] => false

/-- The text after white space and comments, with its position.  A comment that is never closed is
none. -/
def skipBlanks : BlankState → Position → List Char → Position × List Char
  | _, p, [] => (p, [])
  | .between, p, c :: rest =>
      if isSpace c then skipBlanks .between (p.after c) rest
      else if c = '/' then
        match rest with
        | '/' :: _ => skipBlanks .lineComment (p.after c) rest
        | '*' :: body =>
            if closesComment body then skipBlanks .opening (p.after c) rest else (p, c :: rest)
        | _ => (p, c :: rest)
      else (p, c :: rest)
  | .lineComment, p, c :: rest =>
      skipBlanks (if c = '\n' then .between else .lineComment) (p.after c) rest
  | .opening, p, c :: rest => skipBlanks (.blockComment false) (p.after c) rest
  | .blockComment afterStar, p, c :: rest =>
      skipBlanks (if afterStar && c = '/' then .between else .blockComment (c = '*')) (p.after c)
        rest

def isNameStart (c : Char) : Bool := c.isAlpha || c = '_'

def isNameChar (c : Char) : Bool := c.isAlphanum || c = '_'

def isNumberChar (c : Char) : Bool := c.isDigit || c = '_'

/-- The rest of a string literal after its opening quote, up to the first quote that an odd number
of backslashes does not escape; a literal does not run over the end of a line. -/
def stringTail? : (escaped : Bool) → List Char → Option (List Char)
  | _, [] => none
  | escaped, c :: rest =>
      if c = '\n' then none
      else if c = '"' && !escaped then some [c]
      else (stringTail? (c = '\\' && !escaped) rest).map (c :: ·)

/-- The text of a token that begins a text, for terminals without fixed texts. -/
def openLexeme? (terminal : Terminal) (chars : List Char) : Option (List Char) :=
  match terminal, chars with
  | .name, c :: _ => if isNameStart c then some (chars.takeWhile isNameChar) else none
  | .int, c :: _ => if c.isDigit then some (chars.takeWhile isNumberChar) else none
  | .string, '"' :: rest => (stringTail? false rest).map ('"' :: ·)
  | _, _ => none

/-- The text of a token of a terminal that begins a text. -/
def lexeme? (terminal : Terminal) (chars : List Char) : Option (List Char) :=
  match (terminal.spellings.map String.toList).find? fun spelling => spelling.isPrefixOf chars with
  | some spelling => some spelling
  | none => openLexeme? terminal chars

def keywordOf? (possible : TerminalSet) (word : List Char) : Option Terminal :=
  possible.toList.find? fun terminal =>
    terminal.isKeyword && terminal.spellings.any fun spelling => spelling.toList = word

/-- The terminal and text of the token that begins a text, among the possible terminals. -/
def firstToken? (possible : TerminalSet) (chars : List Char) : Option (Terminal × List Char) :=
  (possible.toList.findSome? fun terminal =>
      (lexeme? terminal chars).map fun text => (terminal, text)).map
    fun (terminal, text) =>
      if terminal = .name then ((keywordOf? possible text).getD .name, text) else (terminal, text)

/-- The terminals that are tried as such in a set: a keyword beside names is not one of them. -/
def triedTerminals (possible : TerminalSet) : List Terminal :=
  possible.toList.filter fun terminal =>
    terminal ≠ .endOfInput && !(terminal.isKeyword && possible.has .name)

end BorrowLang.Grammar
