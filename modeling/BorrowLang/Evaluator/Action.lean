import BorrowLang.Arith
import BorrowLang.Evaluator.Access

/-! # Actions

What a step of the evaluator does with values, locations and activations, once they are there: the
operators, assignments, the parts of a call. -/
set_option autoImplicit false
namespace BorrowLang.Evaluator

/-- Does a value count as true?  Zero, false and the unit value do not. -/
def isTrue : Value → Bool
  | .int n => n ≠ 0
  | .bool b => b
  | .unit => false
  | .box _ | .ref _ _ _ => true

/-- The number that a value counts as; a boolean counts as zero or one. -/
def number? : Value → Option Int
  | .int n => some n
  | .bool b => some (if b then 1 else 0)
  | _ => none

def sameValue (left right : Value) : Bool :=
  match number? left, number? right with
  | some m, some n => m = n
  | _, _ => left = right

def literalValue : Literal → Value
  | .int n => .int n
  | .bool b => .bool b
  | .unit => .unit

/-- The result of arithmetic, or a report where it has none. -/
def ofArith (ctx : Context) (loc : Option Position) : Except ArithFault Int → Eval Value
  | .ok n => pure (.int n)
  | .error fault => report ctx .arithmeticFault fault.message loc

/-- The result of an operator of arithmetic; both operands must be integers, whatever it is. -/
def arith (ctx : Context) (loc : Option Position) (op : BinaryOp) (left right : Value) :
    Eval Value :=
  match number? left, number? right with
  | some m, some n =>
      match op with
      | .arith op => ofArith ctx loc (op.apply m n)
      | op => fail (.unsupportedOperator op.text)
  | _, _ => fail .notInteger

/-- The result of a binary operator whose operands are both evaluated. -/
def binary (ctx : Context) (loc : Option Position) (op : BinaryOp) (left right : Value) :
    Eval Value :=
  match op with
  | .eq => pure (.bool (sameValue left right))
  | .ne => pure (.bool (!sameValue left right))
  | .order op =>
      match number? left, number? right with
      | some m, some n => pure (.bool (op.holds m n))
      | _, _ => fail .wrongOperand
  | op => arith ctx loc op left right

/-- The result of a unary operator: any but `!` is taken for `-`. -/
def unary (ctx : Context) (loc : Option Position) (op : UnaryOp) (operand : Value) : Eval Value :=
  if op = .not then pure (.bool (!isTrue operand))
  else
    match number? operand with
    | some n => ofArith ctx loc (negate n)
    | none => fail .wrongOperand

def pushTag (addr : Addr) (isMut : Bool) : Eval Value := do
  let s ← get
  let (borrows, tag) := s.borrows.push addr (.ofMut isMut)
  set { s with borrows }
  return .ref addr isMut tag

/-- The location that a pointer leads to, which was read from an expression at a location or is a
temporary. -/
def pointee (base : Option Location) (pointer : Value) (source : Expr) : Eval Location :=
  match pointer, base with
  | .ref addr _ tag, _ => pure { addr, tag := some tag, source := some source }
  | .box addr, none => pure { addr }
  | .box addr, some base =>
      pure { addr, tag := base.tag, owners := base.owners ++ [base.addr], source := base.source }
  | other, _ => fail (.notPointer other)

def dropHeld (cell : Cell) : Eval Unit :=
  match cell.liveValue? with
  | some old => dropValue old
  | none => pure ()

def storeAt (addr : Addr) (value : Value) : Eval Unit := do
  let s ← get
  let heap ← ofHeap (s.heap.store addr value)
  set { s with heap }

/-- A value is stored in a location, and the value that was there is dropped. -/
def assign (ctx : Context) (l : Location) (target : Expr) (value : Value) : Eval Unit := do
  access ctx l target true .assignWhileBorrowed
  dropHeld (← ofHeap ((← get).heap.cell l.addr))
  storeAt l.addr value

/-- The value at a location is combined with another. -/
def combine (ctx : Context) (loc : Option Position) (l : Location) (target : Expr) (op : BinaryOp)
    (value : Value) : Eval Unit := do
  let current ← load ctx l target
  let result ← arith ctx loc op current value
  access ctx l target true .assignWhileBorrowed
  storeAt l.addr result

/-- The function with a name; of several, the last in the text. -/
def Context.function? (ctx : Context) (name : String) : Option FunctionDef :=
  ctx.functions.reverse.find? (·.name = name)

/-- The parameters of a function become bindings of its outermost scope. -/
def bindArgs : List (Param × Value) → Eval Unit
  | [] => pure ()
  | (param, value) :: rest => do
      bind param.name value true
      bindArgs rest

def dropValues : List Value → Eval Unit
  | [] => pure ()
  | value :: rest => do
      dropValue value
      dropValues rest

/-- A new activation, if there are not too many. -/
def pushFrame (ctx : Context) (f : FunctionDef) (loc : Option Position) : Eval Unit := do
  let s ← get
  let limit := ctx.settings.maxCallDepth
  if limit ≤ s.frames.length then
    report ctx .stackExhausted
      ("call depth exceeded " ++ toString limit ++ " frames in `" ++ f.name ++ "`") loc
      (some f.name)
  set { s with frames := ⟨[default]⟩ :: s.frames }

end BorrowLang.Evaluator
