import BorrowLang.Syntax.Tree
import BorrowLang.Text.Quoted

/-! # Descriptions of nodes

The full description of a node, as it is shown in errors about nodes that have no meaning where they
stand: the class of the node with its fields in order. -/
set_option autoImplicit false
namespace BorrowLang

namespace Describe

def record (name : String) (fields : List (String × String)) : String :=
  name ++ "(" ++ ", ".intercalate (fields.map fun (field, value) => field ++ "=" ++ value) ++ ")"

def list (items : List String) : String := "[" ++ ", ".intercalate items ++ "]"

def flag (b : Bool) : String := if b then "True" else "False"

def absent : String := "None"

def position : Option Position → String
  | none => absent
  | some p => record "Located" [("line", toString p.line), ("column", toString p.column)]

def literal : Literal → String
  | .int n => toString n
  | .bool b => flag b
  | .unit => absent

mutual

def typeExpr : TypeExpr → String
  | .mk name args =>
      record "TypeExpr" [("name", Text.quoted name), ("args", list (typeExprs args))]

def typeExprs : List TypeExpr → List String
  | [] => []
  | first :: rest => typeExpr first :: typeExprs rest

end

mutual

def expr : Expr → String
  | .literal loc value => record "Literal" [("loc", position loc), ("value", literal value)]
  | .name loc ident => record "Name" [("loc", position loc), ("ident", Text.quoted ident)]
  | .unary loc op operand =>
      record "Unary"
        [("loc", position loc), ("op", Text.quoted op.text), ("operand", expr operand)]
  | .deref loc operand => record "Deref" [("loc", position loc), ("operand", expr operand)]
  | .borrow loc operand isMut =>
      record "Borrow" [("loc", position loc), ("operand", expr operand), ("mutable", flag isMut)]
  | .binary loc op left right =>
      record "Binary"
        [("loc", position loc), ("op", Text.quoted op.text), ("left", expr left),
         ("right", expr right)]
  | .call loc func args =>
      record "Call" [("loc", position loc), ("func", Text.quoted func), ("args", list (exprs args))]
  | .boxNew loc value => record "BoxNew" [("loc", position loc), ("value", expr value)]
  | .macroCall loc callee template args =>
      record "MacroCall"
        [("loc", position loc), ("name", Text.quoted callee), ("template", Text.quoted template),
         ("args", list (exprs args))]
  | .ifElse loc condition thenBlock none =>
      record "IfExpr"
        [("loc", position loc), ("condition", expr condition), ("then_block", block thenBlock),
         ("else_block", absent)]
  | .ifElse loc condition thenBlock (some elseBlock) =>
      record "IfExpr"
        [("loc", position loc), ("condition", expr condition), ("then_block", block thenBlock),
         ("else_block", block elseBlock)]
  | .block loc body => record "BlockExpr" [("loc", position loc), ("block", block body)]
  | .ofStmt s => stmt s
  | .ofBlock body => block body

def exprs : List Expr → List String
  | [] => []
  | first :: rest => expr first :: exprs rest

def stmt : Stmt → String
  | .letVar loc ident written none isMut =>
      record "LetStmt"
        [("loc", position loc), ("name", Text.quoted ident),
         ("type_expr", (written.map typeExpr).getD absent), ("value", absent),
         ("mutable", flag isMut)]
  | .letVar loc ident written (some value) isMut =>
      record "LetStmt"
        [("loc", position loc), ("name", Text.quoted ident),
         ("type_expr", (written.map typeExpr).getD absent), ("value", expr value),
         ("mutable", flag isMut)]
  | .assign loc target value op =>
      record "AssignStmt"
        [("loc", position loc), ("target", expr target), ("value", expr value),
         ("op", (op.map fun op => Text.quoted op.text).getD absent)]
  | .ret loc none => record "ReturnStmt" [("loc", position loc), ("value", absent)]
  | .ret loc (some value) => record "ReturnStmt" [("loc", position loc), ("value", expr value)]
  | .whileLoop loc condition body =>
      record "WhileStmt"
        [("loc", position loc), ("condition", expr condition), ("body", block body)]
  | .expr loc value => record "ExprStmt" [("loc", position loc), ("value", expr value)]
  | .ofExpr value => expr value
  | .ofBlock body => block body

def stmts : List Stmt → List String
  | [] => []
  | first :: rest => stmt first :: stmts rest

def block : Block → String
  | .mk statements none loc =>
      record "Block"
        [("statements", list (stmts statements)), ("tail", absent), ("loc", position loc)]
  | .mk statements (some tail) loc =>
      record "Block"
        [("statements", list (stmts statements)), ("tail", expr tail), ("loc", position loc)]

end

end Describe

end BorrowLang
