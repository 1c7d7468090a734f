import BorrowLang.Arith
import BorrowLang.Proofs.Parsing.Words
import BorrowLang.Syntax.Tree
import BorrowLang.Text.Quoted

/-!
# Printing

The text of a program: its words with a space between them.  An operand is put in parentheses where
the grammar has no room for it; every expression statement ends with a semicolon; an `else` with
nothing but an `if` goes on with that.  Only the programs in normal form have a text that says all of
them.
-/

set_option autoImplicit false

namespace BorrowLang

open Grammar (Word Terminal isIdentifier)

/-! ### Literals -/

def isControl (c : Char) : Bool := c.toNat < 0x20 || (0x7f ≤ c.toNat && c.toNat < 0xa0)

/-- A character inside the quotes of a literal. -/
def templateChar (c : Char) : List Char :=
  if c = '"' || c = '\\' then ['\\', c]
  else if isControl c then '\\' :: 'x' :: Text.hexDigits 2 c.toNat
  else [c]

def templateWord (template : String) : Word :=
  ⟨.string, String.ofList ('"' :: (template.toList.flatMap templateChar ++ ['"']))⟩

def numberWord (n : Nat) : Word := ⟨.int, toString n⟩

/-! ### Operators -/

def UnaryOp.terminal : UnaryOp → Terminal
  | .neg => .minus
  | .not => .bang
  | .unknown _ => .name

def ArithOp.terminal : ArithOp → Terminal
  | .add => .plus
  | .sub => .minus
  | .mul => .star
  | .div => .slash
  | .rem => .percent

def OrderOp.terminal : OrderOp → Terminal
  | .lt => .lt
  | .gt => .gt
  | .le => .ltEq
  | .ge => .gtEq

def BinaryOp.terminal : BinaryOp → Terminal
  | .arith op => op.terminal
  | .order op => op.terminal
  | .eq => .eqEq
  | .ne => .notEq
  | .and => .andAnd
  | .or => .orOr
  | .unknown _ => .name

/-- How tightly an operator binds its operands.  Level 0 has every expression, 1 those of
operators, 7 those of operators with one operand, 8 calls and 9 names, literals and parentheses. -/
def BinaryOp.level : BinaryOp → Nat
  | .or => 2
  | .and => 3
  | .order _ | .eq | .ne => 4
  | .arith .add | .arith .sub => 5
  | .arith .mul | .arith .div | .arith .rem => 6
  | .unknown _ => 9

def BinaryOp.isComparison : BinaryOp → Bool
  | .order _ | .eq | .ne => true
  | _ => false

/-- Operators are left-associative, but a comparison has no operand that is one. -/
def BinaryOp.leftLevel (op : BinaryOp) : Nat := if op.isComparison then op.level + 1 else op.level

/-- The words of an assignment to a target, with or without an operator. -/
def assignWord : Option BinaryOp → Word
  | none => .of .equal
  | some op => ⟨.compoundOp, op.text ++ "="⟩

/-! ### Types -/

def mutWords (isMut : Bool) : List Word := if isMut then [.of .kwMut] else []

def TypeExpr.words : TypeExpr → List Word
  | .mk name [] => if name = "()" then [.of .lparen, .of .rparen] else [.named name]
  | .mk name [arg] =>
      if name = "&" then .of .amp :: arg.words
      else if name = "&mut" then .of .amp :: .of .kwMut :: arg.words
      else .named name :: .of .lt :: (arg.words ++ [.of .gt])
  | .mk _ (_ :: _ :: _) => []

/-! ### Expressions -/

/-- The level of an expression: it needs parentheses where a higher one is needed. -/
def Expr.level : Expr → Nat
  | .ifElse .. | .block .. => 0
  | .binary _ op _ _ => op.level
  | .unary .. | .deref .. | .borrow .. => 7
  | .literal _ (.int n) => if n < 0 then 7 else 9
  | .call .. | .boxNew .. | .macroCall .. => 8
  | .literal .. | .name .. | .ofStmt _ | .ofBlock _ => 9

def enclosed (needed level : Nat) (words : List Word) : List Word :=
  if level < needed then .of .lparen :: (words ++ [.of .rparen]) else words

def braced (words : List Word) : List Word := .of .lbrace :: (words ++ [.of .rbrace])

/-- Is there nothing in a block but an `if`? -/
def Block.isChained : Block → Bool
  | .mk [] (some (.ifElse ..)) _ => true
  | _ => false

mutual

def Expr.words : Expr → List Word
  | .literal _ (.int n) =>
      if n < 0 then [.of .minus, numberWord n.natAbs] else [numberWord n.natAbs]
  | .literal _ (.bool b) => [.of (if b then .kwTrue else .kwFalse)]
  | .literal _ .unit => [.of .lparen, .of .rparen]
  | .name _ ident => [.named ident]
  | .unary _ op operand => .of op.terminal :: enclosed 7 operand.level operand.words
  | .deref _ operand => .of .star :: enclosed 7 operand.level operand.words
  | .borrow _ operand isMut =>
      .of .amp :: (mutWords isMut ++ enclosed 7 operand.level operand.words)
  | .binary _ op left right =>
      enclosed op.leftLevel left.level left.words ++
        .of op.terminal :: enclosed (op.level + 1) right.level right.words
  | .call _ func args => .named func :: .of .lparen :: (wordsOfArgs args ++ [.of .rparen])
  | .boxNew _ value =>
      .named "Box" :: .of .pathSep :: .named "new" :: .of .lparen :: (value.words ++ [.of .rparen])
  | .macroCall _ callee template args =>
      .named callee :: .of .bang :: .of .lparen ::
        (templateWord template :: wordsOfMoreArgs args ++ [.of .rparen])
  | .ifElse _ condition thenBlock none =>
      .of .kwIf :: (enclosed 1 condition.level condition.words ++ braced thenBlock.inner)
  | .ifElse _ condition thenBlock (some elseBlock) =>
      .of .kwIf :: (enclosed 1 condition.level condition.words ++ (braced thenBlock.inner ++
        .of .kwElse :: if elseBlock.isChained then elseBlock.inner else braced elseBlock.inner))
  | .block _ body => braced body.inner
  | .ofStmt _ | .ofBlock _ => []

def wordsOfArgs : List Expr → List Word
  | [] => []
  | first :: rest => first.words ++ wordsOfMoreArgs rest

/-- Each argument after a comma. -/
def wordsOfMoreArgs : List Expr → List Word
  | [] => []
  | arg :: rest => .of .comma :: (arg.words ++ wordsOfMoreArgs rest)

def Stmt.words : Stmt → List Word
  | .letVar _ ident written none isMut =>
      .of .kwLet :: (mutWords isMut ++ .named ident :: (written.elim [] (.of .colon :: ·.words) ++
        [.of .semicolon]))
  | .letVar _ ident written (some value) isMut =>
      .of .kwLet :: (mutWords isMut ++ .named ident :: (written.elim [] (.of .colon :: ·.words) ++
        .of .equal :: (value.words ++ [.of .semicolon])))
  | .assign _ target value op =>
      enclosed 1 target.level target.words ++ assignWord op :: (value.words ++ [.of .semicolon])
  | .ret _ none => [.of .kwReturn, .of .semicolon]
  | .ret _ (some value) => .of .kwReturn :: (value.words ++ [.of .semicolon])
  | .whileLoop _ condition body =>
      .of .kwWhile :: (enclosed 1 condition.level condition.words ++ braced body.inner)
  | .expr _ value => value.words ++ [.of .semicolon]
  | .ofExpr _ | .ofBlock _ => []

def wordsOfStmts : List Stmt → List Word
  | [] => []
  | stmt :: rest => stmt.words ++ wordsOfStmts rest

/-- The words between the braces of a block. -/
def Block.inner : Block → List Word
  | .mk statements none _ => wordsOfStmts statements
  | .mk statements (some tail) _ => wordsOfStmts statements ++ tail.words

end

/-! ### Programs -/

def Param.words (p : Param) : List Word :=
  mutWords p.isMut ++ .named p.name :: .of .colon :: p.typeExpr.words

def wordsOfParams : List Param → List Word
  | [] => []
  | first :: rest => first.words ++ rest.flatMap fun p => .of .comma :: p.words

def FunctionDef.words (f : FunctionDef) : List Word :=
  .of .kwFn :: .named f.name :: .of .lparen :: (wordsOfParams f.params ++ .of .rparen ::
    (f.returnType.elim [] (.of .arrow :: ·.words) ++ braced f.body.inner))

def Program.words (program : Program) : List Word := program.functions.flatMap FunctionDef.words

/-- The text of a program. -/
def Program.text (program : Program) : String := " ".intercalate (program.words.map (·.text))

/-! ### Normal form -/

def UnaryOp.known : UnaryOp → Bool
  | .unknown _ => false
  | _ => true

def BinaryOp.known : BinaryOp → Bool
  | .unknown _ => false
  | _ => true

def BinaryOp.isArith : BinaryOp → Bool
  | .arith _ => true
  | _ => false

/-- Is this a literal that a text has without a minus? -/
def Expr.isNatural : Expr → Bool
  | .literal _ (.int n) => decide (0 ≤ n)
  | _ => false

/-- A type of names, with an argument or none, of `()`, and of references. -/
def TypeExpr.normal : TypeExpr → Bool
  | .mk name [] => name = "()" || isIdentifier name
  | .mk name [arg] => (name = "&" || name = "&mut" || isIdentifier name) && arg.normal
  | .mk _ (_ :: _ :: _) => false

mutual

/-- An expression that a text can have: its names are identifiers, its integers have 32 bits, its
operators are those of the language, and a minus does not stand before a literal, which has it. -/
def Expr.normal : Expr → Bool
  | .literal _ (.int n) => decide (minInt ≤ n) && decide (n ≤ maxInt)
  | .literal .. => true
  | .name _ ident => isIdentifier ident
  | .unary _ op operand => op.known && !(op == .neg && operand.isNatural) && operand.normal
  | .deref _ operand | .borrow _ operand _ | .boxNew _ operand => operand.normal
  | .binary _ op left right => op.known && left.normal && right.normal
  | .call _ func args => isIdentifier func && normalArgs args
  | .macroCall _ callee _ args => isIdentifier callee && normalArgs args
  | .ifElse _ condition thenBlock none => condition.normal && thenBlock.normal
  | .ifElse _ condition thenBlock (some elseBlock) =>
      condition.normal && thenBlock.normal && elseBlock.normal
  | .block _ body => body.normal
  | .ofStmt _ | .ofBlock _ => false

def normalArgs : List Expr → Bool
  | [] => true
  | first :: rest => first.normal && normalArgs rest

def Stmt.normal : Stmt → Bool
  | .letVar _ ident written none _ => isIdentifier ident && written.all TypeExpr.normal
  | .letVar _ ident written (some value) _ =>
      isIdentifier ident && written.all TypeExpr.normal && value.normal
  | .assign _ target value op => target.normal && value.normal && op.all BinaryOp.isArith
  | .ret _ none => true
  | .ret _ (some value) | .expr _ value => value.normal
  | .whileLoop _ condition body => condition.normal && body.normal
  | .ofExpr _ | .ofBlock _ => false

def normalStmts : List Stmt → Bool
  | [] => true
  | first :: rest => first.normal && normalStmts rest

def Block.normal : Block → Bool
  | .mk statements none _ => normalStmts statements
  | .mk statements (some tail) _ => normalStmts statements && tail.normal

end

def Param.normal (p : Param) : Bool := isIdentifier p.name && p.typeExpr.normal

def FunctionDef.normal (f : FunctionDef) : Bool :=
  isIdentifier f.name && f.params.all Param.normal && f.returnType.all TypeExpr.normal &&
    f.body.normal

def Program.normal (program : Program) : Bool := program.functions.all FunctionDef.normal

/-! ### Without positions -/

mutual

def Expr.bare : Expr → Expr
  | .literal _ value => .literal none value
  | .name _ ident => .name none ident
  | .unary _ op operand => .unary none op operand.bare
  | .deref _ operand => .deref none operand.bare
  | .borrow _ operand isMut => .borrow none operand.bare isMut
  | .binary _ op left right => .binary none op left.bare right.bare
  | .call _ func args => .call none func (bareArgs args)
  | .boxNew _ value => .boxNew none value.bare
  | .macroCall _ callee template args => .macroCall none callee template (bareArgs args)
  | .ifElse _ condition thenBlock none => .ifElse none condition.bare thenBlock.bare none
  | .ifElse _ condition thenBlock (some elseBlock) =>
      .ifElse none condition.bare thenBlock.bare (some elseBlock.bare)
  | .block _ body => .block none body.bare
  | .ofStmt stmt => .ofStmt stmt.bare
  | .ofBlock body => .ofBlock body.bare

def bareArgs : List Expr → List Expr
  | [] => []
  | first :: rest => first.bare :: bareArgs rest

def Stmt.bare : Stmt → Stmt
  | .letVar _ ident written none isMut => .letVar none ident written none isMut
  | .letVar _ ident written (some value) isMut => .letVar none ident written (some value.bare) isMut
  | .assign _ target value op => .assign none target.bare value.bare op
  | .ret _ none => .ret none none
  | .ret _ (some value) => .ret none (some value.bare)
  | .whileLoop _ condition body => .whileLoop none condition.bare body.bare
  | .expr _ value => .expr none value.bare
  | .ofExpr value => .ofExpr value.bare
  | .ofBlock body => .ofBlock body.bare

def bareStmts : List Stmt → List Stmt
  | [] => []
  | first :: rest => first.bare :: bareStmts rest

def Block.bare : Block → Block
  | .mk statements none _ => .mk (bareStmts statements) none none
  | .mk statements (some tail) _ => .mk (bareStmts statements) (some tail.bare) none

end

def Param.bare (p : Param) : Param := { p with loc := none }

def FunctionDef.bare (f : FunctionDef) : FunctionDef :=
  { f with params := f.params.map Param.bare, body := f.body.bare, loc := none }

/-- A program without the positions of its parts. -/
def Program.bare (program : Program) : Program := ⟨program.functions.map FunctionDef.bare⟩

end BorrowLang
