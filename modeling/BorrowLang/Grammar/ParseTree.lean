import BorrowLang.Grammar.State
import BorrowLang.Grammar.Token
import BorrowLang.Diagnostic

/-! # Parse trees

A text is read token by token.  The terminals that are possible at a token are those with an action
in the state after the token before it; complete productions are then put together as often as it
takes to read the token.  A tree starts where the first token under it starts, dropped tokens
included. -/
set_option autoImplicit false
namespace BorrowLang.Grammar

/-- A parse tree: kept tokens, and nodes of a form with the position of their first token. -/
inductive ParseTree
  | leaf (token : Token)
  | node (form : Form) (start : Position) (children : List ParseTree)
deriving Repr, Inhabited

/-- Why a text has no parse tree. -/
inductive SyntaxFault
  /-- No possible terminal matches, though some terminal does. -/
  | noMatch (expected : List Terminal) (found : Token)
  /-- No action on a token. -/
  | noAction (expected : List Terminal) (found : Token)
  /-- No terminal matches. -/
  | unknownStart (c : Char) (position : Position)
  /-- No action on the end of the text; the position is that of the last token. -/
  | unexpectedEnd (lastToken : Position)
deriving Repr, DecidableEq

namespace SyntaxFault

/-- The first six of some terminals by label, each in back quotes. -/
def expectedText (expected : List Terminal) : String :=
  let inOrder := expected.mergeSort fun a b => decide (a.label ≤ b.label)
  ", ".intercalate ((inOrder.take 6).map fun terminal => "`" ++ terminal.hint ++ "`")

def message : SyntaxFault → String
  | noMatch [] found => "expected one of `<END-OF-FILE>`, found `" ++ found.text ++ "`"
  | noAction [] found => "expected one of tokens, found `" ++ found.text ++ "`"
  | noMatch expected found | noAction expected found =>
      "expected one of " ++ expectedText expected ++ ", found `" ++ found.text ++ "`"
  | unknownStart c _ => "unknown start of token: " ++ Text.quoted (String.singleton c)
  | unexpectedEnd _ => "expected more input, found end of file"

def position : SyntaxFault → Position
  | noMatch _ found | noAction _ found => found.position
  | unknownStart _ p => p
  | unexpectedEnd p => p

end SyntaxFault

/-- What is left to read: the position of the rest, the rest, and where the last token began. -/
structure Reading where
  position : Position
  rest : List Char
  lastToken : Position
deriving Repr, Inhabited

def Reading.ofText (text : String) : Reading := ⟨.start, text.toList, .start⟩

/-- The next token, among the terminals that are possible. -/
def Reading.next (reading : Reading) (possible : TerminalSet) :
    Except SyntaxFault (Token × Reading) :=
  let (position, chars) := skipBlanks .between reading.position reading.rest
  match chars with
  | [] => .ok (⟨.endOfInput, "", reading.lastToken⟩, ⟨position, [], reading.lastToken⟩)
  | c :: _ =>
      match firstToken? possible chars with
      | some (terminal, text) =>
          .ok (⟨terminal, String.ofList text, position⟩,
            ⟨position.afterAll text, chars.drop text.length, position⟩)
      | none =>
          match firstToken? TerminalSet.full chars with
          | some (terminal, text) =>
              .error (.noMatch (triedTerminals possible) ⟨terminal, String.ofList text, position⟩)
          | none => .error (.unknownStart c position)

/-- A symbol that has been read: the state after it, where it starts, and its trees. -/
structure StackEntry where
  state : State
  symbol : Symbol
  start : Position
  trees : List ParseTree
deriving Repr, Inhabited

/-- The state on top of a stack; the start state is below every entry. -/
def topState (stack : List StackEntry) : State :=
  match stack with
  | [] => .start
  | entry :: _ => entry.state

def tokenEntry (state : State) (token : Token) : StackEntry :=
  ⟨state, .t token.terminal, token.position,
    if token.terminal.isKept then [.leaf token] else []⟩

/-- The entry of a phrase: its trees are those of its symbols in order, under one node when the
production names a form.  A phrase without symbols starts at the next token. -/
def phraseEntry (state : State) (production : Production) (entries : List StackEntry)
    (nextToken : Position) : StackEntry :=
  let start := (entries.head?.map (·.start)).getD nextToken
  let trees := entries.flatMap (·.trees)
  ⟨state, .n production.phrase, start,
    match production.form with
    | none => trees
    | some form => [.node form start trees]⟩

/-- The stack after a complete production has been put together, if its top holds the symbols of the
production. -/
def reduce? (production : Production) (nextToken : Position) (stack : List StackEntry) :
    Option (List StackEntry) := do
  let entries := (stack.take production.symbols.length).reverse
  let below := stack.drop production.symbols.length
  if entries.map (·.symbol) = production.symbols then
    let state ← (topState below).after? (.n production.phrase)
    return phraseEntry state production entries nextToken :: below
  else none

def noActionFault (state : State) (token : Token) : SyntaxFault :=
  if token.terminal = .endOfInput then .unexpectedEnd token.position
  else .noAction state.expected.toList token

/-- The stack after a token has been shifted, with the reductions before it. -/
def feed (token : Token) : (fuel : Nat) → List StackEntry → Except SyntaxFault (List StackEntry)
  | 0, stack => .error (noActionFault (topState stack) token)
  | fuel + 1, stack =>
      match (topState stack).action? token.terminal with
      | none => .error (noActionFault (topState stack) token)
      | some (.shift state) => .ok (tokenEntry state token :: stack)
      | some (.reduce production) =>
          match reduce? production token.position stack with
          | none => .error (noActionFault (topState stack) token)
          | some stack => feed token fuel stack

/-- More reductions than can come before a shift: at one height of the stack, every phrase is
reduced to at most once. -/
def reductionBound (stack : List StackEntry) : Nat :=
  (stack.length + 2) * Nonterminal.all.length

def readTrees : (fuel : Nat) → Reading → List StackEntry → Except SyntaxFault (List ParseTree)
  | 0, reading, _ => .error (.unexpectedEnd reading.lastToken)
  | fuel + 1, reading, stack => do
      let (token, reading) ← reading.next (topState stack).expected
      let stack ← feed token (reductionBound stack) stack
      if token.terminal = .endOfInput then return stack.reverse.flatMap (·.trees)
      else readTrees fuel reading stack

/-- The parse tree of a program text; every token but the end of the input has a character. -/
def ParseTree.ofText (text : String) : Except SyntaxFault (List ParseTree) :=
  readTrees (text.length + 1) (.ofText text) []

end BorrowLang.Grammar
