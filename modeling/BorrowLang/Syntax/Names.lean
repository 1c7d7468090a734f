import BorrowLang.Syntax.Tree

/-! # Names in a tree

Every identifier that a statement or expression reads, writes or borrows, wherever it stands in it;
the names of functions, macros, types and new bindings are not among them. -/
set_option autoImplicit false
namespace BorrowLang

mutual

def Expr.names : Expr → List String
  | .literal _ _ => []
  | .name _ ident => [ident]
  | .unary _ _ operand | .deref _ operand | .borrow _ operand _ | .boxNew _ operand => operand.names
  | .binary _ _ left right => left.names ++ right.names
  | .call _ _ args | .macroCall _ _ _ args => namesOfArgs args
  | .ifElse _ condition thenBlock none => condition.names ++ thenBlock.names
  | .ifElse _ condition thenBlock (some elseBlock) =>
      condition.names ++ thenBlock.names ++ elseBlock.names
  | .block _ body | .ofBlock body => body.names
  | .ofStmt stmt => stmt.names

def namesOfArgs : List Expr → List String
  | [] => []
  | arg :: rest => arg.names ++ namesOfArgs rest

def Stmt.names : Stmt → List String
  | .letVar _ _ _ (some value) _ => value.names
  | .letVar _ _ _ none _ => []
  | .assign _ target value _ => target.names ++ value.names
  | .ret _ (some value) => value.names
  | .ret _ none => []
  | .whileLoop _ condition body => condition.names ++ body.names
  | .expr _ value | .ofExpr value => value.names
  | .ofBlock body => body.names

def namesOfStmts : List Stmt → List String
  | [] => []
  | stmt :: rest => stmt.names ++ namesOfStmts rest

def Block.names : Block → List String
  | .mk statements none _ => namesOfStmts statements
  | .mk statements (some tail) _ => namesOfStmts statements ++ tail.names

end

def Block.tailNames (block : Block) : List String :=
  (block.tail.map Expr.names).getD []

/-- Some names in increasing order, each once. -/
def sortedNames (names : List String) : List String :=
  (names.mergeSort fun a b => decide (a ≤ b)).eraseReps

end BorrowLang
