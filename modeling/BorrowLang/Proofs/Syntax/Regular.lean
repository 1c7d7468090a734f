import BorrowLang.Syntax.Tree

/-!
# Regular trees

The trees that have an operator of the language wherever they have one: `-` and `!` before an
operand, and an operator of arithmetic before `=`.
-/

set_option autoImplicit false

namespace BorrowLang

mutual

/-- Every operator in an expression is one of the language. -/
def Expr.Regular : Expr → Prop
  | .literal _ _ | .name _ _ | .ofStmt _ | .ofBlock _ => True
  | .unary _ op operand => (op = .neg ∨ op = .not) ∧ operand.Regular
  | .deref _ operand | .borrow _ operand _ | .boxNew _ operand => operand.Regular
  | .binary _ _ left right => left.Regular ∧ right.Regular
  | .call _ _ args | .macroCall _ _ _ args => Expr.AllRegular args
  | .ifElse _ condition thenBlock none => condition.Regular ∧ thenBlock.Regular
  | .ifElse _ condition thenBlock (some elseBlock) =>
      condition.Regular ∧ thenBlock.Regular ∧ elseBlock.Regular
  | .block _ body => body.Regular

/-- Every operator in some expressions is one of the language. -/
def Expr.AllRegular : List Expr → Prop
  | [] => True
  | expr :: rest => expr.Regular ∧ Expr.AllRegular rest

/-- Every operator in a statement is one of the language. -/
def Stmt.Regular : Stmt → Prop
  | .letVar _ _ _ none _ | .ret _ none | .ofExpr _ | .ofBlock _ => True
  | .letVar _ _ _ (some value) _ | .ret _ (some value) | .expr _ value => value.Regular
  | .assign _ target value op =>
      target.Regular ∧ value.Regular ∧ ∀ known ∈ op, ∃ arith, known = .arith arith
  | .whileLoop _ condition body => condition.Regular ∧ body.Regular

/-- Every operator in some statements is one of the language. -/
def Stmt.AllRegular : List Stmt → Prop
  | [] => True
  | stmt :: rest => stmt.Regular ∧ Stmt.AllRegular rest

/-- Every operator in a block is one of the language. -/
def Block.Regular : Block → Prop
  | .mk statements none _ => Stmt.AllRegular statements
  | .mk statements (some tail) _ => Stmt.AllRegular statements ∧ tail.Regular

end

/-- Every operator in a program is one of the language. -/
def Program.Regular (program : Program) : Prop := ∀ f ∈ program.functions, f.body.Regular

example : (Expr.deref none (.borrow none (.name none "x") true)).Regular := by cbv

end BorrowLang
