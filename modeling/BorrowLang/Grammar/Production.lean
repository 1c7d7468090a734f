import BorrowLang.Grammar.Terminal

/-! # Productions

The grammar of programs.  A production may name the form of the tree that it builds; a production
without one only hands on the trees of its symbols, as parentheses, levels of precedence and
repetitions do. -/
set_option autoImplicit false
namespace BorrowLang.Grammar

/-- The phrases of the language. -/
inductive Nonterminal
  | root
  | program
  | function
  | params
  | param
  | result
  | type
  | block
  | item
  | letStmt
  | typeSpec
  | assignStmt
  | returnStmt
  | whileStmt
  | exprStmt
  | tailExpr
  | ifExpr
  | elseClause
  | blockExpr
  | expr
  | operation
  | disjunction
  | conjunction
  | comparison
  | sum
  | term
  | unary
  | application
  | args
  | macroArgs
  | atom
  | functions
  | moreParams
  | items
  | moreArgs
deriving Repr, DecidableEq, Inhabited

def Nonterminal.all : List Nonterminal :=
  [.root, .program, .function, .params, .param, .result, .type, .block, .item, .letStmt,
   .typeSpec, .assignStmt, .returnStmt, .whileStmt, .exprStmt, .tailExpr, .ifExpr, .elseClause,
   .blockExpr, .expr, .operation, .disjunction, .conjunction, .comparison, .sum, .term, .unary,
   .application, .args, .macroArgs, .atom, .functions, .moreParams, .items, .moreArgs]

/-- The place of a nonterminal in the list of all of them. -/
def Nonterminal.index (n : Nonterminal) : Nat := n.ctorIdx

/-- A symbol on the right side of a production. -/
inductive Symbol
  | t (terminal : Terminal)
  | n (nonterminal : Nonterminal)
deriving Repr, DecidableEq, Inhabited

/-- The forms of parse trees. -/
inductive Form
  | program
  | function
  | params
  | param
  | result
  | refType
  | doubleRefType
  | genericType
  | namedType
  | unitType
  | block
  | emptyStmt
  | letStmt
  | typeSpec
  | assignStmt
  | returnStmt
  | whileStmt
  | exprStmt
  | tailExpr
  | ifExpr
  | elseClause
  | blockExpr
  | binary
  | negation
  | complement
  | deref
  | borrow
  | doubleBorrow
  | call
  | pathCall
  | macroCall
  | args
  | macroArgs
  | var
  | intLit
  | trueLit
  | falseLit
  | unitLit
deriving Repr, DecidableEq, Inhabited

/-- A way to write a phrase, and the form of the tree it builds. -/
structure Production where
  phrase : Nonterminal
  symbols : List Symbol
  form : Option Form
deriving Repr, DecidableEq, Inhabited

/-- The productions; the first one closes a program with the end of the input. -/
def productions : List Production :=
  [⟨.root, [.n .program, .t .endOfInput], none⟩,
   ⟨.program, [.n .functions], some .program⟩,
   ⟨.program, [], some .program⟩,
   ⟨.function, [.t .kwFn, .t .name, .t .lparen, .n .params, .t .rparen, .n .result, .n .block],
     some .function⟩,
   ⟨.function, [.t .kwFn, .t .name, .t .lparen, .n .params, .t .rparen, .n .block], some .function⟩,
   ⟨.function, [.t .kwFn, .t .name, .t .lparen, .t .rparen, .n .result, .n .block], some .function⟩,
   ⟨.function, [.t .kwFn, .t .name, .t .lparen, .t .rparen, .n .block], some .function⟩,
   ⟨.params, [.n .param, .n .moreParams, .t .comma], some .params⟩,
   ⟨.params, [.n .param, .n .moreParams], some .params⟩,
   ⟨.params, [.n .param, .t .comma], some .params⟩,
   ⟨.params, [.n .param], some .params⟩,
   ⟨.param, [.t .kwMut, .t .name, .t .colon, .n .type], some .param⟩,
   ⟨.param, [.t .name, .t .colon, .n .type], some .param⟩,
   ⟨.result, [.t .arrow, .n .type], some .result⟩,
   ⟨.type, [.t .amp, .t .kwMut, .n .type], some .refType⟩,
   ⟨.type, [.t .amp, .n .type], some .refType⟩,
   ⟨.type, [.t .andAnd, .t .kwMut, .n .type], some .doubleRefType⟩,
   ⟨.type, [.t .andAnd, .n .type], some .doubleRefType⟩,
   ⟨.type, [.t .name, .t .lt, .n .type, .t .gt], some .genericType⟩,
   ⟨.type, [.t .name], some .namedType⟩,
   ⟨.type, [.t .lparen, .t .rparen], some .unitType⟩,
   ⟨.block, [.t .lbrace, .n .items, .t .rbrace], some .block⟩,
   ⟨.block, [.t .lbrace, .t .rbrace], some .block⟩,
   ⟨.item, [.n .letStmt], none⟩,
   ⟨.item, [.n .assignStmt], none⟩,
   ⟨.item, [.n .returnStmt], none⟩,
   ⟨.item, [.n .whileStmt], none⟩,
   ⟨.item, [.n .exprStmt], none⟩,
   ⟨.item, [.n .ifExpr], none⟩,
   ⟨.item, [.n .blockExpr], none⟩,
   ⟨.item, [.n .tailExpr], none⟩,
   ⟨.item, [.t .semicolon], some .emptyStmt⟩,
   ⟨.letStmt, [.t .kwLet, .t .kwMut, .t .name, .n .typeSpec, .t .equal, .n .expr, .t .semicolon],
     some .letStmt⟩,
   ⟨.letStmt, [.t .kwLet, .t .kwMut, .t .name, .n .typeSpec, .t .semicolon], some .letStmt⟩,
   ⟨.letStmt, [.t .kwLet, .t .kwMut, .t .name, .t .equal, .n .expr, .t .semicolon], some .letStmt⟩,
   ⟨.letStmt, [.t .kwLet, .t .kwMut, .t .name, .t .semicolon], some .letStmt⟩,
   ⟨.letStmt, [.t .kwLet, .t .name, .n .typeSpec, .t .equal, .n .expr, .t .semicolon],
     some .letStmt⟩,
   ⟨.letStmt, [.t .kwLet, .t .name, .n .typeSpec, .t .semicolon], some .letStmt⟩,
   ⟨.letStmt, [.t .kwLet, .t .name, .t .equal, .n .expr, .t .semicolon], some .letStmt⟩,
   ⟨.letStmt, [.t .kwLet, .t .name, .t .semicolon], some .letStmt⟩,
   ⟨.typeSpec, [.t .colon, .n .type], some .typeSpec⟩,
   ⟨.assignStmt, [.n .operation, .t .equal, .n .expr, .t .semicolon], some .assignStmt⟩,
   ⟨.assignStmt, [.n .operation, .t .compoundOp, .n .expr, .t .semicolon], some .assignStmt⟩,
   ⟨.returnStmt, [.t .kwReturn, .n .expr, .t .semicolon], some .returnStmt⟩,
   ⟨.returnStmt, [.t .kwReturn, .t .semicolon], some .returnStmt⟩,
   ⟨.whileStmt, [.t .kwWhile, .n .operation, .n .block], some .whileStmt⟩,
   ⟨.exprStmt, [.n .operation, .t .semicolon], some .exprStmt⟩,
   ⟨.tailExpr, [.n .operation], some .tailExpr⟩,
   ⟨.ifExpr, [.t .kwIf, .n .operation, .n .block, .n .elseClause], some .ifExpr⟩,
   ⟨.ifExpr, [.t .kwIf, .n .operation, .n .block], some .ifExpr⟩,
   ⟨.elseClause, [.t .kwElse, .n .block], some .elseClause⟩,
   ⟨.elseClause, [.t .kwElse, .n .ifExpr], some .elseClause⟩,
   ⟨.blockExpr, [.n .block], some .blockExpr⟩,
   ⟨.expr, [.n .operation], none⟩,
   ⟨.expr, [.n .ifExpr], none⟩,
   ⟨.expr, [.n .blockExpr], none⟩,
   ⟨.operation, [.n .disjunction], none⟩,
   ⟨.disjunction, [.n .conjunction], none⟩,
   ⟨.disjunction, [.n .disjunction, .t .orOr, .n .conjunction], some .binary⟩,
   ⟨.conjunction, [.n .comparison], none⟩,
   ⟨.conjunction, [.n .conjunction, .t .andAnd, .n .comparison], some .binary⟩,
   ⟨.comparison, [.n .sum], none⟩,
   ⟨.comparison, [.n .sum, .t .eqEq, .n .sum], some .binary⟩,
   ⟨.comparison, [.n .sum, .t .notEq, .n .sum], some .binary⟩,
   ⟨.comparison, [.n .sum, .t .lt, .n .sum], some .binary⟩,
   ⟨.comparison, [.n .sum, .t .gt, .n .sum], some .binary⟩,
   ⟨.comparison, [.n .sum, .t .ltEq, .n .sum], some .binary⟩,
   ⟨.comparison, [.n .sum, .t .gtEq, .n .sum], some .binary⟩,
   ⟨.sum, [.n .term], none⟩,
   ⟨.sum, [.n .sum, .t .plus, .n .term], some .binary⟩,
   ⟨.sum, [.n .sum, .t .minus, .n .term], some .binary⟩,
   ⟨.term, [.n .unary], none⟩,
   ⟨.term, [.n .term, .t .star, .n .unary], some .binary⟩,
   ⟨.term, [.n .term, .t .slash, .n .unary], some .binary⟩,
   ⟨.term, [.n .term, .t .percent, .n .unary], some .binary⟩,
   ⟨.unary, [.n .application], none⟩,
   ⟨.unary, [.t .minus, .n .unary], some .negation⟩,
   ⟨.unary, [.t .bang, .n .unary], some .complement⟩,
   ⟨.unary, [.t .star, .n .unary], some .deref⟩,
   ⟨.unary, [.t .amp, .t .kwMut, .n .unary], some .borrow⟩,
   ⟨.unary, [.t .amp, .n .unary], some .borrow⟩,
   ⟨.unary, [.t .andAnd, .t .kwMut, .n .unary], some .doubleBorrow⟩,
   ⟨.unary, [.t .andAnd, .n .unary], some .doubleBorrow⟩,
   ⟨.application, [.n .atom], none⟩,
   ⟨.application, [.t .name, .t .lparen, .n .args, .t .rparen], some .call⟩,
   ⟨.application, [.t .name, .t .lparen, .t .rparen], some .call⟩,
   ⟨.application, [.t .name, .t .pathSep, .t .name, .t .lparen, .n .args, .t .rparen],
     some .pathCall⟩,
   ⟨.application, [.t .name, .t .pathSep, .t .name, .t .lparen, .t .rparen], some .pathCall⟩,
   ⟨.application, [.t .name, .t .bang, .t .lparen, .n .macroArgs, .t .rparen], some .macroCall⟩,
   ⟨.application, [.t .name, .t .bang, .t .lparen, .t .rparen], some .macroCall⟩,
   ⟨.args, [.n .expr, .n .moreArgs, .t .comma], some .args⟩,
   ⟨.args, [.n .expr, .n .moreArgs], some .args⟩,
   ⟨.args, [.n .expr, .t .comma], some .args⟩,
   ⟨.args, [.n .expr], some .args⟩,
   ⟨.macroArgs, [.t .string, .n .moreArgs, .t .comma], some .macroArgs⟩,
   ⟨.macroArgs, [.t .string, .n .moreArgs], some .macroArgs⟩,
   ⟨.macroArgs, [.t .string, .t .comma], some .macroArgs⟩,
   ⟨.macroArgs, [.t .string], some .macroArgs⟩,
   ⟨.atom, [.t .name], some .var⟩,
   ⟨.atom, [.t .int], some .intLit⟩,
   ⟨.atom, [.t .kwTrue], some .trueLit⟩,
   ⟨.atom, [.t .kwFalse], some .falseLit⟩,
   ⟨.atom, [.t .lparen, .t .rparen], some .unitLit⟩,
   ⟨.atom, [.t .lparen, .n .expr, .t .rparen], none⟩,
   ⟨.functions, [.n .function], none⟩,
   ⟨.functions, [.n .functions, .n .function], none⟩,
   ⟨.moreParams, [.t .comma, .n .param], none⟩,
   ⟨.moreParams, [.n .moreParams, .t .comma, .n .param], none⟩,
   ⟨.items, [.n .item], none⟩,
   ⟨.items, [.n .items, .n .item], none⟩,
   ⟨.moreArgs, [.t .comma, .n .expr], none⟩,
   ⟨.moreArgs, [.n .moreArgs, .t .comma, .n .expr], none⟩]

end BorrowLang.Grammar
