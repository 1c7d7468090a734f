/-! # Operators

The operators of expressions.  A tree that was not read from a text may hold an operator that the
language does not have; it keeps its text. -/
set_option autoImplicit false
namespace BorrowLang

/-- Operators from two integers to an integer. -/
inductive ArithOp
  | add
  | sub
  | mul
  | div
  | rem
deriving Repr, DecidableEq, Inhabited

/-- Operators that compare the order of two integers. -/
inductive OrderOp
  | lt
  | gt
  | le
  | ge
deriving Repr, DecidableEq, Inhabited

/-- Operators with two operands. -/
inductive BinaryOp
  | arith (op : ArithOp)
  | order (op : OrderOp)
  | eq
  | ne
  | and
  | or
  | unknown (text : String)
deriving Repr, DecidableEq, Inhabited

/-- Operators with one operand. -/
inductive UnaryOp
  | neg
  | not
  | unknown (text : String)
deriving Repr, DecidableEq, Inhabited

def ArithOp.text : ArithOp → String
  | add => "+"
  | sub => "-"
  | mul => "*"
  | div => "/"
  | rem => "%"

def OrderOp.text : OrderOp → String
  | lt => "<"
  | gt => ">"
  | le => "<="
  | ge => ">="

def BinaryOp.text : BinaryOp → String
  | arith op => op.text
  | order op => op.text
  | eq => "=="
  | ne => "!="
  | and => "&&"
  | or => "||"
  | unknown text => text

def BinaryOp.ofText (text : String) : BinaryOp :=
  match text with
  | "+" => arith .add
  | "-" => arith .sub
  | "*" => arith .mul
  | "/" => arith .div
  | "%" => arith .rem
  | "<" => order .lt
  | ">" => order .gt
  | "<=" => order .le
  | ">=" => order .ge
  | "==" => eq
  | "!=" => ne
  | "&&" => and
  | "||" => or
  | text => unknown text

def UnaryOp.text : UnaryOp → String
  | neg => "-"
  | not => "!"
  | unknown text => text

def UnaryOp.ofText (text : String) : UnaryOp :=
  match text with
  | "-" => neg
  | "!" => not
  | text => unknown text

end BorrowLang
