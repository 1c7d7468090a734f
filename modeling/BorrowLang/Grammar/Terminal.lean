/-! # Terminals

The classes of tokens, listed in the order in which a reader tries them, and sets of them as bit
masks. -/
set_option autoImplicit false
namespace BorrowLang.Grammar

/-- The classes of tokens.  The order of the constructors is the order in which they are tried. -/
inductive Terminal
  | name
  | string
  | int
  | kwReturn
  | kwFalse
  | kwWhile
  | kwElse
  | kwTrue
  | kwLet
  | kwMut
  | compoundOp
  | andAnd
  | eqEq
  | kwFn
  | gtEq
  | kwIf
  | ltEq
  | notEq
  | orOr
  | arrow
  | pathSep
  | amp
  | bang
  | colon
  | comma
  | equal
  | gt
  | lbrace
  | lparen
  | lt
  | minus
  | percent
  | plus
  | rbrace
  | rparen
  | semicolon
  | slash
  | star
  | endOfInput
deriving Repr, DecidableEq, Inhabited

namespace Terminal

/-- Every terminal, in the order in which they are tried. -/
def all : List Terminal :=
  [name, string, int, kwReturn, kwFalse, kwWhile, kwElse, kwTrue, kwLet, kwMut, compoundOp, andAnd,
   eqEq, kwFn, gtEq, kwIf, ltEq, notEq, orOr, arrow, pathSep, amp, bang, colon, comma, equal, gt,
   lbrace, lparen, lt, minus, percent, plus, rbrace, rparen, semicolon, slash, star, endOfInput]

/-- The place of a terminal in the order of trial. -/
def index (t : Terminal) : Nat := t.ctorIdx

/-- The name under which a terminal is listed in messages. -/
def label : Terminal → String
  | name => "NAME"
  | string => "STRING"
  | int => "INT"
  | kwReturn => "RETURN"
  | kwFalse => "FALSE"
  | kwWhile => "WHILE"
  | kwElse => "ELSE"
  | kwTrue => "TRUE"
  | kwLet => "LET"
  | kwMut => "MUT"
  | compoundOp => "COMPOUND_OP"
  | andAnd => "ANDAND"
  | eqEq => "EQEQ"
  | kwFn => "FN"
  | gtEq => "GTE"
  | kwIf => "IF"
  | ltEq => "LTE"
  | notEq => "NOTEQ"
  | orOr => "OROR"
  | arrow => "__ANON_0"
  | pathSep => "__ANON_1"
  | amp => "AMP"
  | bang => "BANG"
  | colon => "COLON"
  | comma => "COMMA"
  | equal => "EQUAL"
  | gt => "GT"
  | lbrace => "LBRACE"
  | lparen => "LPAR"
  | lt => "LT"
  | minus => "MINUS"
  | percent => "PERCENT"
  | plus => "PLUS"
  | rbrace => "RBRACE"
  | rparen => "RPAR"
  | semicolon => "SEMICOLON"
  | slash => "SLASH"
  | star => "STAR"
  | endOfInput => "$END"

/-- The form of a terminal in a list of what was expected: eight kinds of punctuation are shown as
they are written, the others by their label. -/
def hint : Terminal → String
  | semicolon => ";"
  | lbrace => "\x7b"
  | rbrace => "\x7d"
  | lparen => "("
  | rparen => ")"
  | comma => ","
  | colon => ":"
  | equal => "="
  | t => t.label

/-- The texts of a terminal that has fixed ones; names, numbers and strings have none. -/
def spellings : Terminal → List String
  | name | string | int | endOfInput => []
  | kwReturn => ["return"]
  | kwFalse => ["false"]
  | kwWhile => ["while"]
  | kwElse => ["else"]
  | kwTrue => ["true"]
  | kwLet => ["let"]
  | kwMut => ["mut"]
  | compoundOp => ["+=", "-=", "*=", "/=", "%="]
  | andAnd => ["&&"]
  | eqEq => ["=="]
  | kwFn => ["fn"]
  | gtEq => [">="]
  | kwIf => ["if"]
  | ltEq => ["<="]
  | notEq => ["!="]
  | orOr => ["||"]
  | arrow => ["->"]
  | pathSep => ["::"]
  | amp => ["&"]
  | bang => ["!"]
  | colon => [":"]
  | comma => [","]
  | equal => ["="]
  | gt => [">"]
  | lbrace => ["\x7b"]
  | lparen => ["("]
  | lt => ["<"]
  | minus => ["-"]
  | percent => ["%"]
  | plus => ["+"]
  | rbrace => ["\x7d"]
  | rparen => [")"]
  | semicolon => [";"]
  | slash => ["/"]
  | star => ["*"]

/-- Is this terminal a word that a name could also spell? -/
def isKeyword : Terminal → Bool
  | kwReturn | kwFalse | kwWhile | kwElse | kwTrue | kwLet | kwMut | kwFn | kwIf => true
  | _ => false

/-- Does a token of this class appear in parse trees?  Keywords other than `mut` and plain
punctuation only give a tree its shape. -/
def isKept : Terminal → Bool
  | kwReturn | kwFalse | kwWhile | kwElse | kwTrue | kwLet | kwFn | kwIf => false
  | arrow | pathSep | colon | comma | lbrace | lparen | rbrace | rparen | semicolon => false
  | endOfInput => false
  | _ => true

end Terminal

/-- A set of terminals; bit `i` stands for the terminal with index `i`. -/
abbrev TerminalSet := Nat

namespace TerminalSet

def single (t : Terminal) : TerminalSet := 1 <<< t.index

def insert (s : TerminalSet) (t : Terminal) : TerminalSet := Nat.lor s (single t)

def full : TerminalSet := (1 <<< Terminal.all.length) - 1

def has (s : TerminalSet) (t : Terminal) : Bool := Nat.testBit s t.index

/-- The terminals of a set, in the order of trial. -/
def toList (s : TerminalSet) : List Terminal := Terminal.all.filter fun t => has s t

end TerminalSet

end BorrowLang.Grammar
