import BorrowLang.Position
import BorrowLang.Syntax.Operator

/-! # Syntax trees

Programs, functions, blocks, statements and expressions.  A tree that was not read from a text may
lack positions, and may hold a statement, an expression or a bare block where a node of another
class belongs; such a node has no meaning, and is kept as it is. -/
set_option autoImplicit false
namespace BorrowLang

/-- A type as it is written: a name with arguments; `&` and `&mut` are names too. -/
inductive TypeExpr
  | mk (name : String) (args : List TypeExpr)
deriving Repr, Inhabited

def TypeExpr.name : TypeExpr → String
  | .mk name _ => name

/-- A literal value. -/
inductive Literal
  | int (n : Int)
  | bool (b : Bool)
  | unit
deriving Repr, DecidableEq, Inhabited

mutual

/-- An expression. -/
inductive Expr
  | literal (loc : Option Position) (value : Literal)
  | name (loc : Option Position) (ident : String)
  | unary (loc : Option Position) (op : UnaryOp) (operand : Expr)
  | deref (loc : Option Position) (operand : Expr)
  | borrow (loc : Option Position) (operand : Expr) (isMut : Bool)
  | binary (loc : Option Position) (op : BinaryOp) (left right : Expr)
  | call (loc : Option Position) (func : String) (args : List Expr)
  | boxNew (loc : Option Position) (value : Expr)
  | macroCall (loc : Option Position) (callee template : String) (args : List Expr)
  | ifElse (loc : Option Position) (condition : Expr) (thenBlock : Block)
      (elseBlock : Option Block)
  | block (loc : Option Position) (body : Block)
  | ofStmt (stmt : Stmt)
  | ofBlock (body : Block)

/-- A statement. -/
inductive Stmt
  | letVar (loc : Option Position) (ident : String) (typeExpr : Option TypeExpr)
      (value : Option Expr) (isMut : Bool)
  | assign (loc : Option Position) (target value : Expr) (op : Option BinaryOp)
  | ret (loc : Option Position) (value : Option Expr)
  | whileLoop (loc : Option Position) (condition : Expr) (body : Block)
  | expr (loc : Option Position) (value : Expr)
  | ofExpr (value : Expr)
  | ofBlock (body : Block)

/-- A block: statements, and the expression whose value it has, if any. -/
inductive Block
  | mk (statements : List Stmt) (tail : Option Expr) (loc : Option Position)

end

namespace Block

def statements : Block → List Stmt
  | .mk statements _ _ => statements

def tail : Block → Option Expr
  | .mk _ tail _ => tail

def loc : Block → Option Position
  | .mk _ _ loc => loc

end Block

mutual

def Expr.loc : Expr → Option Position
  | .literal loc _ | .name loc _ | .unary loc _ _ | .deref loc _ | .borrow loc _ _
  | .binary loc _ _ _ | .call loc _ _ | .boxNew loc _ | .macroCall loc _ _ _ | .ifElse loc _ _ _
  | .block loc _ => loc
  | .ofStmt stmt => stmt.loc
  | .ofBlock body => body.loc

def Stmt.loc : Stmt → Option Position
  | .letVar loc _ _ _ _ | .assign loc _ _ _ | .ret loc _ | .whileLoop loc _ _ | .expr loc _ => loc
  | .ofExpr value => value.loc
  | .ofBlock body => body.loc

end

instance : Inhabited Expr := ⟨.literal none .unit⟩
instance : Inhabited Block := ⟨.mk [] none none⟩
instance : Inhabited Stmt := ⟨.ret none none⟩

/-- Does an expression denote a place: a name, or the target of a reference or box that is one?
`*&p` denotes the place `p`. -/
def Expr.isPlace : Expr → Bool
  | .name _ _ => true
  | .deref _ (.borrow _ operand _) => operand.isPlace
  | .deref _ operand => operand.isPlace
  | _ => false

/-- A parameter of a function. -/
structure Param where
  name : String
  typeExpr : TypeExpr
  loc : Option Position
  isMut : Bool
deriving Repr, Inhabited

/-- A function definition. -/
structure FunctionDef where
  name : String
  params : List Param
  returnType : Option TypeExpr
  body : Block
  loc : Option Position
deriving Inhabited

/-- A program: its functions in the order of the text. -/
structure Program where
  functions : List FunctionDef
deriving Inhabited

end BorrowLang
