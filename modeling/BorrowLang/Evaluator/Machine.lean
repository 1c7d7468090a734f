import BorrowLang.Evaluator.Action

/-! # The machine

The evaluator goes step by step.  A machine is at some point of a body, its control; frames keep
what is still to be done with the outcome there, the innermost first; and a state holds the cells.
One step does one thing with the state.  An interrupt takes the frames down one by one, and the
frames of scopes and calls clean up on the way. -/
set_option autoImplicit false
namespace BorrowLang.Evaluator

/-- What a part of a body comes to: a value, a location, or nothing but its effects. -/
inductive Mode
  | value
  | place
  | done
deriving Repr, DecidableEq

/-- An argument of a macro with its value; a place is only looked at, any other value is the
macro's to drop. -/
structure Shown where
  arg : Expr
  value : Value
  owned : Bool

/-- The point that a machine is at. -/
inductive Control : Mode → Type
  | expr (e : Expr) : Control .value
  | block (body : Block) : Control .value
  /-- What is left of a block. -/
  | stmts (rest : List Stmt) (tail : Option Expr) : Control .value
  /-- A call with the arguments that have a value, and those that do not yet. -/
  | args (loc : Option Position) (func : String) (values : List Value) (rest : List Expr) :
      Control .value
  | call (f : FunctionDef) (values : List Value) (loc : Option Position) : Control .value
  /-- The activation of a call is there, without bindings. -/
  | enter (f : FunctionDef) (values : List Value) : Control .value
  /-- A macro call with the arguments that have a value, and those that do not yet. -/
  | shown (template : String) (values : List Shown) (rest : List Expr) : Control .value
  /-- A macro call with the texts of the arguments that were followed to the end, and what is left
  of the others. -/
  | follow (template : String) (owned : List Value) (texts : List String)
      (rest : List (Expr × Value)) : Control .value
  /-- A value that is shown by itself. -/
  | display (value : Value) : Control .value
  | value (value : Value) : Control .value
  | place (e : Expr) : Control .place
  | found (l : Location) : Control .place
  | stmt (s : Stmt) : Control .done
  | loop (condition : Expr) (body : Block) : Control .done
  | finished : Control .done
  | interrupted {mode : Mode} (interrupt : Interrupt) : Control mode

/-- What is to be done with an outcome of the first mode, for one of the second. -/
inductive Frame : Mode → Mode → Type
  | unary (loc : Option Position) (op : UnaryOp) : Frame .value .value
  /-- The left operand of `&&` or `||`. -/
  | logic (isAnd : Bool) (right : Expr) : Frame .value .value
  /-- The right operand of `&&` or `||`. -/
  | truth : Frame .value .value
  | left (loc : Option Position) (op : BinaryOp) (right : Expr) : Frame .value .value
  | right (loc : Option Position) (op : BinaryOp) (first : Value) : Frame .value .value
  | borrowTemporary (isMut : Bool) : Frame .value .value
  | boxNew : Frame .value .value
  | arg (loc : Option Position) (func : String) (values : List Value) (rest : List Expr) :
      Frame .value .value
  | shownValue (template : String) (values : List Shown) (arg : Expr) (rest : List Expr) :
      Frame .value .value
  | branch (thenBlock : Block) (elseBlock : Option Block) : Frame .value .value
  | leaveScope : Frame .value .value
  | leaveCall (f : FunctionDef) : Frame .value .value
  | derefValue (operand : Expr) : Frame .value .place
  | letVar (ident : String) : Frame .value .done
  | assignValue (loc : Option Position) (target : Expr) (op : Option BinaryOp) : Frame .value .done
  | ret : Frame .value .done
  | exprStmt : Frame .value .done
  | loopCondition (condition : Expr) (body : Block) : Frame .value .done
  | loopBody (condition : Expr) (body : Block) : Frame .value .done
  | readPlace (expr : Expr) : Frame .place .value
  | borrowPlace (operand : Expr) (isMut : Bool) : Frame .place .value
  | shownPlace (template : String) (values : List Shown) (arg : Expr) (rest : List Expr) :
      Frame .place .value
  | derefPlace (operand : Expr) : Frame .place .place
  | assignPlace (loc : Option Position) (target : Expr) (op : Option BinaryOp) (value : Value) :
      Frame .place .done
  | stmts (rest : List Stmt) (tail : Option Expr) : Frame .done .value

/-- Frames that fit together, the innermost first; the outermost gives a value. -/
inductive Stack : Mode → Type
  | nil : Stack .value
  | cons {first next : Mode} (frame : Frame first next) (rest : Stack next) : Stack first

/-- A machine. -/
structure Machine where
  {mode : Mode}
  control : Control mode
  stack : Stack mode
  state : State

/-- One step: the frames after it, and the action that leads to the next control. -/
structure Transition where
  {mode : Mode}
  stack : Stack mode
  action : Eval (Control mode)

def goTo {mode : Mode} (control : Control mode) (stack : Stack mode) : Transition :=
  ⟨stack, pure control⟩

def enterExpr (expr : Expr) (k : Stack .value) : Transition :=
  match expr with
  | .literal _ value => goTo (.value (literalValue value)) k
  | .name _ _ | .deref _ _ => goTo (.place expr) (.cons (.readPlace expr) k)
  | .unary loc op operand => goTo (.expr operand) (.cons (.unary loc op) k)
  | .binary _ .and left right => goTo (.expr left) (.cons (.logic true right) k)
  | .binary _ .or left right => goTo (.expr left) (.cons (.logic false right) k)
  | .binary loc op left right => goTo (.expr left) (.cons (.left loc op right) k)
  | .borrow _ operand isMut =>
      if operand.isPlace then goTo (.place operand) (.cons (.borrowPlace operand isMut) k)
      else goTo (.expr operand) (.cons (.borrowTemporary isMut) k)
  | .boxNew _ value => goTo (.expr value) (.cons .boxNew k)
  | .call loc func args => goTo (.args loc func [] args) k
  | .macroCall _ _ template args => goTo (.shown template [] args) k
  | .ifElse _ condition thenBlock elseBlock =>
      goTo (.expr condition) (.cons (.branch thenBlock elseBlock) k)
  | .block _ body => goTo (.block body) k
  | .ofStmt _ | .ofBlock _ => ⟨k, fail (.unsupportedExpr (Describe.expr expr))⟩

/-- The first step towards the location that an expression denotes. -/
def enterPlace (expr : Expr) (k : Stack .place) : Transition :=
  match expr with
  | .name _ ident => ⟨k, do return .found { addr := ← lookup ident }⟩
  | .deref _ (.borrow loc inner isMut) =>
      if inner.isPlace then goTo (.place inner) k
      else
        goTo (.expr (.borrow loc inner isMut)) (.cons (.derefValue (.borrow loc inner isMut)) k)
  | .deref _ operand =>
      if operand.isPlace then goTo (.place operand) (.cons (.derefPlace operand) k)
      else goTo (.expr operand) (.cons (.derefValue operand) k)
  | _ => ⟨k, fail (.notPlace (Describe.expr expr))⟩

def enterStmt (stmt : Stmt) (k : Stack .done) : Transition :=
  match stmt with
  | .letVar _ ident _ none _ =>
      ⟨k, do
        bind ident .unit false
        return .finished⟩
  | .letVar _ ident _ (some value) _ => goTo (.expr value) (.cons (.letVar ident) k)
  | .assign loc target value op => goTo (.expr value) (.cons (.assignValue loc target op) k)
  | .ret _ none => ⟨k, throw (.returned .unit)⟩
  | .ret _ (some value) => goTo (.expr value) (.cons .ret k)
  | .whileLoop _ condition body => goTo (.loop condition body) k
  | .expr _ value => goTo (.expr value) (.cons .exprStmt k)
  | .ofExpr _ | .ofBlock _ => ⟨k, fail (.unsupportedStmt (Describe.stmt stmt))⟩

/-- A step of a call whose arguments all have values. -/
def applyCall (ctx : Context) (loc : Option Position) (func : String) (values : List Value)
    (k : Stack .value) : Transition :=
  match ctx.function? func with
  | some f => goTo (.call f values loc) k
  | none =>
      if func = displayName then
        match values with
        | [] => ⟨k, fail .missingArgument⟩
        | value :: _ => goTo (.display value) k
      else ⟨k, fail .unknownFunction⟩

/-- The step after an argument of a macro has a value. -/
def addShown (template : String) (values : List Shown) (shown : Shown) (rest : List Expr) :
    Control .value :=
  .shown template (values ++ [shown]) rest

/-- The step after all arguments of a macro have values. -/
def followShown (template : String) (values : List Shown) : Control .value :=
  .follow template ((values.filter (·.owned)).map (·.value)) []
    (values.map fun shown => (shown.arg, shown.value))

/-- A step on one of the values that a macro shows. -/
def followFirst (ctx : Context) (template : String) (owned : List Value) (texts : List String)
    (arg : Expr) (value : Value) (rest : List (Expr × Value)) : Eval (Control .value) := do
  match ← follow ctx arg value with
  | some inner => return .follow template owned texts ((arg, inner) :: rest)
  | none => return .follow template owned (texts ++ [value.text]) rest

def print (template : String) (owned : List Value) (texts : List String) :
    Eval (Control .value) := do
  emit (← format template texts)
  dropValues owned
  return .value .unit

/-- A step on a value that is shown by itself. -/
def displayStep (value : Value) : Eval (Control .value) :=
  match value.addr? with
  | some addr => do return .display (← ofHeap ((← get).heap.load addr))
  | none => do
      emit value.text
      return .value .unit

/-- The step after a part of a body has come to a value. -/
def resumeValue (ctx : Context) (v : Value) {next : Mode} (frame : Frame .value next)
    (k : Stack next) : Transition :=
  match frame with
  | .unary loc op => ⟨k, do return .value (← unary ctx loc op v)⟩
  | .logic isAnd right =>
      if isTrue v = isAnd then goTo (.expr right) (.cons .truth k)
      else goTo (.value (.bool (!isAnd))) k
  | .truth => goTo (.value (.bool (isTrue v))) k
  | .left loc op right => goTo (.expr right) (.cons (.right loc op v) k)
  | .right loc op first => ⟨k, do return .value (← binary ctx loc op first v)⟩
  | .borrowTemporary isMut =>
      ⟨k, do
        let addr ← materialize v
        return .value (← pushTag addr isMut)⟩
  | .boxNew => ⟨k, do return .value (.box (← alloc v true))⟩
  | .arg loc func values rest => goTo (.args loc func (values ++ [v]) rest) k
  | .shownValue template values arg rest => goTo (addShown template values ⟨arg, v, true⟩ rest) k
  | .branch thenBlock elseBlock =>
      if isTrue v then goTo (.block thenBlock) k
      else
        match elseBlock with
        | none => goTo (.value .unit) k
        | some elseBlock => goTo (.block elseBlock) k
  | .leaveScope =>
      ⟨k, do
        popScope
        return .value v⟩
  | .leaveCall _ =>
      ⟨k, do
        popFrame
        return .value v⟩
  | .derefValue operand =>
      ⟨k, do
        if let .box _ := v then
          let _ ← materialize v
        return .found (← pointee none v operand)⟩
  | .letVar ident =>
      ⟨k, do
        bind ident v true
        return .finished⟩
  | .assignValue loc target op => goTo (.place target) (.cons (.assignPlace loc target op v) k)
  | .ret => ⟨k, throw (.returned v)⟩
  | .exprStmt =>
      ⟨k, do
        dropValue v
        return .finished⟩
  | .loopCondition condition body =>
      if isTrue v then goTo (.block body) (.cons (.loopBody condition body) k)
      else goTo .finished k
  | .loopBody condition body => goTo (.loop condition body) k

/-- The step after a place expression has come to a location. -/
def resumePlace (ctx : Context) (l : Location) {next : Mode} (frame : Frame .place next)
    (k : Stack next) : Transition :=
  match frame with
  | .readPlace expr => ⟨k, do return .value (← read ctx l expr)⟩
  | .borrowPlace operand isMut =>
      ⟨k, do
        access ctx l operand isMut .conflictingBorrow
        return .value (← pushTag l.addr isMut)⟩
  | .shownPlace template values arg rest =>
      ⟨k, do return addShown template values ⟨arg, ← load ctx l arg, false⟩ rest⟩
  | .derefPlace operand =>
      ⟨k, do
        let pointer ← load ctx l operand
        return .found (← pointee (some l) pointer operand)⟩
  | .assignPlace loc target op value =>
      ⟨k, do
        match op with
        | some op => combine ctx loc l target op value
        | none => assign ctx l target value
        return .finished⟩

def resumeDone {next : Mode} (frame : Frame .done next) (k : Stack next) : Transition :=
  match frame with
  | .stmts rest tail => goTo (.stmts rest tail) k

/-- The step of an interrupt past a frame.  A scope and a call are left in every case, and a call
ends a return; a fault on the way takes the place of what was there before. -/
def unwind (interrupt : Interrupt) {first next : Mode} (frame : Frame first next)
    (k : Stack next) : Transition :=
  match frame with
  | .leaveScope =>
      ⟨k, do
        popScope
        return .interrupted interrupt⟩
  | .leaveCall _ =>
      ⟨k, do
        popFrame
        match interrupt with
        | .returned v => return .value v
        | .failed _ => return .interrupted interrupt⟩
  | _ => goTo (.interrupted interrupt) k

/-- The step from a control that does not wait for an outcome. -/
def advance (ctx : Context) {mode : Mode} (control : Control mode) (k : Stack mode) :
    Option Transition :=
  match control with
  | .expr e => some (enterExpr e k)
  | .block body =>
      some ⟨.cons .leaveScope k, do
        pushScope
        return .stmts body.statements body.tail⟩
  | .stmts [] none => some (goTo (.value .unit) k)
  | .stmts [] (some tail) => some (goTo (.expr tail) k)
  | .stmts (stmt :: rest) tail => some (goTo (.stmt stmt) (.cons (.stmts rest tail) k))
  | .args loc func values [] => some (applyCall ctx loc func values k)
  | .args loc func values (arg :: rest) =>
      some (goTo (.expr arg) (.cons (.arg loc func values rest) k))
  | .call f values loc =>
      some ⟨k, do
        pushFrame ctx f loc
        return .enter f values⟩
  | .enter f values =>
      some ⟨.cons (.leaveCall f) k, do
        bindArgs (f.params.zip values)
        return .block f.body⟩
  | .shown template values [] => some (goTo (followShown template values) k)
  | .shown template values (arg :: rest) =>
      some (if arg.isPlace then goTo (.place arg) (.cons (.shownPlace template values arg rest) k)
        else goTo (.expr arg) (.cons (.shownValue template values arg rest) k))
  | .follow template owned texts [] => some ⟨k, print template owned texts⟩
  | .follow template owned texts ((arg, value) :: rest) =>
      some ⟨k, followFirst ctx template owned texts arg value rest⟩
  | .display value => some ⟨k, displayStep value⟩
  | .value v =>
      match k with
      | .nil => none
      | .cons frame k => some (resumeValue ctx v frame k)
  | .place e => some (enterPlace e k)
  | .found l =>
      match k with
      | .cons frame k => some (resumePlace ctx l frame k)
  | .stmt s => some (enterStmt s k)
  | .loop condition body =>
      some (goTo (.expr condition) (.cons (.loopCondition condition body) k))
  | .finished =>
      match k with
      | .cons frame k => some (resumeDone frame k)
  | .interrupted interrupt =>
      match k with
      | .nil => none
      | .cons frame k => some (unwind interrupt frame k)

def Transition.perform (t : Transition) (s : State) : Machine :=
  match t.action s with
  | (.ok control, s) => ⟨control, t.stack, s⟩
  | (.error interrupt, s) => ⟨.interrupted interrupt, t.stack, s⟩

namespace Machine

/-- The machine after one step; none when it is at its end. -/
def step (ctx : Context) (m : Machine) : Option Machine :=
  (advance ctx m.control m.stack).map (·.perform m.state)

/-- The machine after some steps, or at its end if that comes first. -/
def run (ctx : Context) : (steps : Nat) → Machine → Machine
  | 0, m => m
  | steps + 1, m =>
      match m.step ctx with
      | none => m
      | some next => next.run ctx steps

/-- The machine at the start of a run: about to call the entry function, without arguments. -/
def start (ctx : Context) : Machine :=
  match ctx.function? ctx.settings.entry with
  | none => ⟨(.interrupted (.failed .unknownFunction) : Control .value), .nil, {}⟩
  | some entry => ⟨.call entry [] entry.loc, .nil, {}⟩

end Machine

end BorrowLang.Evaluator
