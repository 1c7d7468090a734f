import BorrowLang.Grammar.Production

/-! # First and following terminals

Which phrases a phrase can begin with, which terminals it can begin with, and which terminals can
come right after it in a program.  No phrase but the whole program can be empty, so the first symbol
of a production decides how it begins, and the last one how it ends. -/
set_option autoImplicit false
namespace BorrowLang.Grammar

/-- A set of phrases; bit `i` stands for the phrase with index `i`. -/
abbrev PhraseSet := Nat

namespace PhraseSet

def single (phrase : Nonterminal) : PhraseSet := 1 <<< phrase.index

def has (s : PhraseSet) (phrase : Nonterminal) : Bool := Nat.testBit s phrase.index

/-- The set with a symbol, if that is a phrase. -/
def addSymbol (s : PhraseSet) : Symbol → PhraseSet
  | .t _ => s
  | .n phrase => Nat.lor s (single phrase)

def hasSymbol (s : PhraseSet) : Symbol → Bool
  | .t _ => false
  | .n phrase => s.has phrase

/-- Rounds of making a set larger, until nothing changes.  Every round but the last adds a phrase,
so the number of phrases is enough of them. -/
def grow (step : PhraseSet → PhraseSet) : (rounds : Nat) → PhraseSet → PhraseSet
  | 0, s => s
  | rounds + 1, s =>
      let more := step s
      if more = s then s else grow step rounds more

end PhraseSet

/-- The values of a function on phrases, in the order of the phrases. -/
def phraseTable (f : Nonterminal → Nat) : Array Nat := (Nonterminal.all.map f).toArray

def lookupPhrase (table : Array Nat) (phrase : Nonterminal) : Nat := table.getD phrase.index 0

/-- The set with every phrase that a production of one of its phrases begins with. -/
def addLeading (s : PhraseSet) : PhraseSet :=
  productions.foldl (fun more production =>
    match production.symbols with
    | first :: _ => if s.has production.phrase then more.addSymbol first else more
    | [] => more) s

/-- For each phrase, the phrases that it can begin with, itself among them. -/
def leadingTable : Array PhraseSet :=
  phraseTable fun phrase => PhraseSet.grow addLeading Nonterminal.all.length (.single phrase)

/-- The phrases that a phrase can begin with, itself among them. -/
def leading (phrase : Nonterminal) : PhraseSet := lookupPhrase leadingTable phrase

/-- For each phrase, the terminals that it can begin with. -/
def startTable : Array TerminalSet :=
  phraseTable fun phrase =>
    productions.foldl (fun set production =>
      match production.symbols with
      | .t terminal :: _ =>
          if (leading phrase).has production.phrase then TerminalSet.insert set terminal else set
      | _ => set) 0

/-- The terminals that a symbol can begin with. -/
def starts : Symbol → TerminalSet
  | .t terminal => .single terminal
  | .n phrase => lookupPhrase startTable phrase

/-- The set with every phrase that can end with one of its phrases. -/
def addEnded (s : PhraseSet) : PhraseSet :=
  productions.foldl (fun more production =>
    match production.symbols.getLast? with
    | some last => if s.hasSymbol last then more.addSymbol (.n production.phrase) else more
    | none => more) s

/-- The terminals that can come after the phrases of a set inside one production. -/
def startsAfter (s : PhraseSet) : List Symbol → TerminalSet
  | first :: second :: rest =>
      Nat.lor (if s.hasSymbol first then starts second else 0) (startsAfter s (second :: rest))
  | _ => 0

/-- For each phrase, the terminals that can come right after it: those that come after it or after a
phrase that it ends, inside some production. -/
def followerTable : Array TerminalSet :=
  phraseTable fun phrase =>
    let ended := PhraseSet.grow addEnded Nonterminal.all.length (.single phrase)
    productions.foldl (fun set production => Nat.lor set (startsAfter ended production.symbols)) 0

/-- The terminals that can come right after a phrase. -/
def followers (phrase : Nonterminal) : TerminalSet := lookupPhrase followerTable phrase

end BorrowLang.Grammar
