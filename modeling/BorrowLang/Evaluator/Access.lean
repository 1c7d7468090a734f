import BorrowLang.Evaluator.State

/-! # Reaching cells

A place expression denotes a cell, reached from a binding or through a reference, and through the
boxes after it.  Every use of a cell is noted in the borrow stacks: the reference must still be
valid for the first cell on the way, and the boxes behind it are used on its behalf. -/
set_option autoImplicit false
namespace BorrowLang.Evaluator

/-- The cell that a place expression denotes, and how it was reached. -/
structure Location where
  addr : Addr
  /-- The tag of the last reference on the way; none when it starts at a binding. -/
  tag : Option Tag := none
  /-- The cells of the boxes after that reference or binding, the outermost first. -/
  owners : List Addr := []
  /-- The expression whose value was that reference. -/
  source : Option Expr := none

def Location.first (l : Location) : Addr := l.owners.headD l.addr

def Location.inner (l : Location) : List Addr := (l.owners ++ [l.addr]).drop 1

/-- A place expression as it is written, as far as it is shown. -/
def placeText : Expr → String
  | .name _ ident => ident
  | .deref _ operand => "*" ++ placeText operand
  | .borrow _ operand true => "&mut " ++ placeText operand
  | .borrow _ operand false => "&" ++ placeText operand
  | .call _ func _ => func ++ "(..)"
  | _ => "value"

/-- A broken rule is reported about the reference that a location was reached through. -/
def failRule {α : Type} (ctx : Context) (rule : Rule) (l : Location) (expr : Expr) : Eval α :=
  fail (.reported
    (Violation.reportRunning rule (placeText (l.source.getD expr))
      (.ofPosition? ctx.file expr.loc)))

def accessOwned (isWrite : Bool) (cause : DiagnosticKind) (borrows : BorrowStacks) :
    List Addr → Except Violation BorrowStacks
  | [] => .ok borrows
  | addr :: rest => do accessOwned isWrite cause (← borrows.access addr none isWrite cause) rest

def access (ctx : Context) (l : Location) (expr : Expr) (isWrite : Bool) (cause : DiagnosticKind) :
    Eval Unit := do
  let s ← get
  if !s.heap.contains l.first then failRule ctx .freed l expr
  match s.borrows.access l.first l.tag isWrite cause with
  | .error violation => failRule ctx violation.rule l expr
  | .ok borrows =>
      match accessOwned isWrite cause borrows l.inner with
      | .error violation => failRule ctx violation.rule l expr
      | .ok borrows => set { s with borrows }

/-- The value of a location, which must hold one. -/
def load (ctx : Context) (l : Location) (expr : Expr) : Eval Value := do
  access ctx l expr false .conflictingBorrow
  let cell ← ofHeap ((← get).heap.cell l.addr)
  match cell.state with
  | .live => return cell.value
  | .moved => report ctx .useAfterMove "use of moved value" expr.loc
  | .uninit => report ctx .useAfterMove "use of uninitialized value" expr.loc

/-- Moving a box ends every borrow of what it owns; the fuel bounds the number of cells. -/
def endOwned : (fuel : Nat) → Value → Eval Unit
  | fuel + 1, .box addr => do
      let s ← get
      match s.borrows.access addr none true .moveWhileBorrowed with
      | .error _ => pure ()
      | .ok borrows => set { s with borrows }
      let cell ← ofHeap (s.heap.cell addr)
      match cell.liveValue? with
      | none => pure ()
      | some value => endOwned fuel value
  | 0, .box _ => fail (.heap .cycle)
  | _, _ => pure ()

/-- A location in the position of a value: a box is moved out of it. -/
def read (ctx : Context) (l : Location) (expr : Expr) : Eval Value := do
  let value ← load ctx l expr
  match value with
  | .box _ =>
      access ctx l expr true .moveWhileBorrowed
      endOwned ((← get).heap.live + 1) value
      let s ← get
      let (heap, taken) ← ofHeap (s.heap.take l.addr)
      set { s with heap }
      return taken
  | _ => return value

/-- What a box or reference that is shown leads to; a reference is used on the way.  No other value
leads on. -/
def follow (ctx : Context) (expr : Expr) : Value → Eval (Option Value)
  | .ref addr _ tag => do return some (← load ctx { addr, tag := some tag, source := some expr } expr)
  | .box addr => do return some (← ofHeap ((← get).heap.load addr))
  | _ => return none

def format (template : String) (texts : List String) : Eval String :=
  match Template.split template with
  | .error fault => fail (.template fault)
  | .ok pieces => pure (Template.fill pieces texts)

end BorrowLang.Evaluator
