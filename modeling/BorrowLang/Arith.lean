import BorrowLang.Syntax.Operator

/-! # Arithmetic

Integer operators give the exact result where it fits into 32 bits, and a fault otherwise.  Division
truncates toward zero, and the remainder has the sign of the dividend. -/
set_option autoImplicit false
namespace BorrowLang

def minInt : Int := -2147483648

def maxInt : Int := 2147483647

/-- Why an operator has no result. -/
inductive ArithFault
  | overflow (op : ArithOp)
  | negateOverflow
  | zeroDivisor
  | zeroModulus
deriving Repr, DecidableEq

def ArithOp.verb : ArithOp → String
  | add => "add"
  | sub => "subtract"
  | mul => "multiply"
  | div => "divide"
  | rem => "calculate the remainder"

def ArithFault.message : ArithFault → String
  | overflow op => "attempt to " ++ op.verb ++ " with overflow"
  | negateOverflow => "attempt to negate with overflow"
  | zeroDivisor => "attempt to divide by zero"
  | zeroModulus => "attempt to calculate the remainder with a divisor of zero"

/-- The number itself where it fits into 32 bits. -/
def inRange (n : Int) (fault : ArithFault) : Except ArithFault Int :=
  if minInt ≤ n ∧ n ≤ maxInt then .ok n else .error fault

/-- The result of an operator on two integers. -/
def ArithOp.apply (op : ArithOp) (left right : Int) : Except ArithFault Int :=
  match op with
  | add => inRange (left + right) (.overflow add)
  | sub => inRange (left - right) (.overflow sub)
  | mul => inRange (left * right) (.overflow mul)
  | div => if right = 0 then .error .zeroDivisor else inRange (left.tdiv right) (.overflow div)
  | rem => if right = 0 then .error .zeroModulus else inRange (left.tmod right) (.overflow rem)

def negate (n : Int) : Except ArithFault Int := inRange (-n) .negateOverflow

def OrderOp.holds (op : OrderOp) (left right : Int) : Bool :=
  match op with
  | lt => left < right
  | gt => right < left
  | le => left ≤ right
  | ge => right ≤ left

end BorrowLang
