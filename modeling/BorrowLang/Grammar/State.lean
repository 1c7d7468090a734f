import BorrowLang.Grammar.Followers

/-! # States of reading

What may come next is known from the productions that have been begun: a state is the set of them,
each with the part of it that is still to come.  A terminal that comes next in one of them is read;
a production that is complete may be put together when the terminal can follow its phrase.  Where
both are possible the terminal is read.  The grammar is such that the place in the program does not
matter for this: whatever can follow a phrase at all can follow it wherever a state completes it. -/
set_option autoImplicit false
namespace BorrowLang.Grammar

/-- A production that has been begun, with the symbols still to come. -/
structure Item where
  production : Production
  rest : List Symbol
deriving Repr, DecidableEq, Inhabited

namespace Item

def ofProduction (production : Production) : Item := ⟨production, production.symbols⟩

/-- The item after a symbol, if that symbol comes next. -/
def after? (symbol : Symbol) (item : Item) : Option Item :=
  match item.rest with
  | [] => none
  | next :: rest => if next = symbol then some ⟨item.production, rest⟩ else none

def isComplete (item : Item) : Bool := item.rest.isEmpty

/-- The phrases that can begin where an item stands. -/
def beginning (item : Item) : PhraseSet :=
  match item.rest with
  | .n phrase :: _ => leading phrase
  | _ => 0

/-- The terminals on which an item can do something: the one that comes next, or those that can
follow the phrase that is complete. -/
def expected (item : Item) : TerminalSet :=
  match item.rest with
  | [] => followers item.production.phrase
  | .t terminal :: _ => .single terminal
  | .n _ :: _ => 0

end Item

/-- Every production before its first symbol. -/
def freshItems : List Item := productions.map Item.ofProduction

/-- The productions of some phrases before their first symbols. -/
def itemsOf (phrases : PhraseSet) : List Item :=
  if phrases = 0 then [] else freshItems.filter fun item => phrases.has item.production.phrase

/-- The productions begun at a point of a text, and the terminals that may come there. -/
structure State where
  items : List Item
  expected : TerminalSet
deriving Repr, DecidableEq, Inhabited

namespace State

/-- The state of some productions that have been begun: others may begin where their next symbols
do. -/
def ofItems (begun : List Item) : State :=
  let phrases := begun.foldl (fun s item => Nat.lor s item.beginning) 0
  let items := begun ++ itemsOf phrases
  ⟨items, items.foldl (fun s item => Nat.lor s item.expected) 0⟩

def start : State := ofItems (freshItems.take 1)

/-- The state after a symbol, if some production goes on with it. -/
def after? (s : State) (symbol : Symbol) : Option State :=
  match s.items.filterMap (Item.after? symbol) with
  | [] => none
  | begun => some (ofItems begun)

/-- The production that is complete where a terminal can follow it. -/
def complete? (s : State) (terminal : Terminal) : Option Production :=
  (s.items.find? fun item =>
    item.isComplete && (followers item.production.phrase).has terminal).map (·.production)

end State

/-- What to do with a terminal. -/
inductive Action
  | shift (next : State)
  | reduce (production : Production)
deriving Repr, DecidableEq

/-- The action of a state on a terminal, if there is one. -/
def State.action? (s : State) (terminal : Terminal) : Option Action :=
  match s.after? (.t terminal) with
  | some next => some (.shift next)
  | none => (s.complete? terminal).map .reduce

end BorrowLang.Grammar
