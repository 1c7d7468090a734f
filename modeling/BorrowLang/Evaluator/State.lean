import BorrowLang.Builtin
import BorrowLang.LogEvent
import BorrowLang.Syntax.Describe
import BorrowLang.Template

/-! # State of the evaluator

A run has a heap, the borrow stacks of its cells, the activations of the functions that are being
evaluated, and the outputs so far.  An activation has scopes, and a scope owns cells: those of its
bindings and of the temporaries made in it.  Leaving a scope drops its cells, the newest first; a
dropped cell drops what it owns first. -/
set_option autoImplicit false
namespace BorrowLang.Evaluator

/-- Why a run fails. -/
inductive Fault
  | reported (diagnostic : Diagnostic)
  | heap (fault : HeapFault)
  | template (fault : TemplateFault)
  | unknownName (name : String)
  | notPointer (value : Value)
  | notPlace (expr : String)
  | unsupportedStmt (stmt : String)
  | unsupportedExpr (expr : String)
  | unsupportedOperator (text : String)
  | unknownFunction
  /-- An integer was needed. -/
  | notInteger
  /-- The operand has no order or no opposite. -/
  | wrongOperand
  /-- The function that shows an integer was called without one. -/
  | missingArgument
  /-- A scope was left that is not open. -/
  | noScope
deriving Repr, DecidableEq

def describeValue : Value → String
  | .int n => toString n
  | .bool b => Describe.flag b
  | .unit => Describe.absent
  | .box addr => Describe.record "BoxValue" [("addr", toString addr)]
  | .ref addr isMut tag =>
      Describe.record "RefValue"
        [("addr", toString addr), ("mutable", Describe.flag isMut), ("tag", toString tag)]

/-- The text of a fault of the run itself; other faults have a text elsewhere or none. -/
def Fault.text : Fault → String
  | unknownName name => "Unknown identifier '" ++ name ++ "'"
  | notPointer value => "cannot dereference " ++ describeValue value
  | notPlace expr => "not a place expression: " ++ expr
  | unsupportedStmt stmt => "Unsupported statement " ++ stmt
  | unsupportedExpr expr => "Unsupported expression " ++ expr
  | unsupportedOperator text => "Unsupported operator " ++ text
  | heap fault => fault.message
  | template fault => fault.message
  | _ => ""

/-- Why an evaluation does not go on where it is. -/
inductive Interrupt
  /-- A function returns a value. -/
  | returned (value : Value)
  | failed (fault : Fault)
deriving Repr, DecidableEq

/-- The bindings and cells of a scope, the newest first. -/
structure Scope where
  names : List (String × Addr) := []
  cells : List Addr := []
  /-- A binding has a cell of the scope. -/
  held : ∀ binding ∈ names, binding.2 ∈ cells := by simp
deriving Repr

namespace Scope

instance : Inhabited Scope := ⟨{}⟩

def hold (scope : Scope) (addr : Addr) : Scope where
  names := scope.names
  cells := addr :: scope.cells
  held binding member := List.mem_cons_of_mem addr (scope.held binding member)

def bind (scope : Scope) (name : String) (addr : Addr) : Scope where
  names := (name, addr) :: scope.names
  cells := addr :: scope.cells
  held := by
    intro binding member
    rcases List.mem_cons.mp member with rfl | old
    · exact List.mem_cons_self
    · exact List.mem_cons_of_mem addr (scope.held binding old)

end Scope

/-- The scopes of a function that is being evaluated, the innermost first. -/
structure Activation where
  scopes : List Scope := []
deriving Repr, Inhabited

/-- The state of a run.  The innermost activation and the latest output come first. -/
structure State where
  heap : Heap := {}
  borrows : BorrowStacks := {}
  frames : List Activation := []
  outputs : List String := []
deriving Inhabited

/-- An evaluation: an interrupt ends it, and the state at that point is kept. -/
abbrev Eval (α : Type) := ExceptT Interrupt (StateM State) α

/-- What stays the same in a run. -/
structure Context where
  functions : List FunctionDef := []
  settings : Settings := {}
  file : Option String := none
deriving Inhabited

def fail {α : Type} (fault : Fault) : Eval α := throw (.failed fault)

def report {α : Type} (ctx : Context) (kind : DiagnosticKind) (message : String)
    (loc : Option Position) (subject : Option String := none) : Eval α :=
  fail (.reported
    { message, kind, phase := some Phase.eval.text, span := .ofPosition? ctx.file loc, subject })

def ofHeap {α : Type} : Except HeapFault α → Eval α
  | .ok a => pure a
  | .error fault => fail (.heap fault)

/-! ### Cells and scopes -/

def modifyScope (f : Scope → Scope) : Eval Unit := modify fun s =>
  match s.frames with
  | ⟨scope :: scopes⟩ :: frames => { s with frames := ⟨f scope :: scopes⟩ :: frames }
  | _ => s

def alloc (value : Value) (initialized : Bool) : Eval Addr := do
  let s ← get
  let (heap, addr) := s.heap.alloc value initialized
  set { s with heap }
  return addr

def bind (name : String) (value : Value) (initialized : Bool) : Eval Unit := do
  let addr ← alloc value initialized
  modifyScope fun scope => scope.bind name addr

/-- A cell for a temporary, which lasts as long as the innermost scope. -/
def materialize (value : Value) : Eval Addr := do
  let addr ← alloc value true
  modifyScope fun scope => scope.hold addr
  return addr

/-- The cell that a name is bound to, in the innermost scope of the activation that binds it. -/
def lookup (name : String) : Eval Addr := do
  let scopes := ((← get).frames.head?.map (·.scopes)).getD []
  match scopes.findSome? fun scope => (scope.names.find? (·.1 = name)).map (·.2) with
  | some addr => return addr
  | none => fail (.unknownName name)

/-- A cell leaves the heap, and its borrow stack with it. -/
def freeCell (addr : Addr) : Eval Unit := do
  let s ← get
  let heap ← ofHeap (s.heap.free addr)
  set { s with heap, borrows := s.borrows.forget addr }

def freeCells : List Addr → Eval Unit
  | [] => pure ()
  | addr :: rest => do
      freeCell addr
      freeCells rest

/-- A value is dropped: the cells that it owns leave the heap, the innermost first. -/
def dropValue (value : Value) : Eval Unit := do
  let owned ← ofHeap ((← get).heap.owned value)
  freeCells owned.reverse

def dropCell (addr : Addr) : Eval Unit := dropValue (.box addr)

def dropCells : List Addr → Eval Unit
  | [] => pure ()
  | addr :: rest => do
      dropCell addr
      dropCells rest

def pushScope : Eval Unit := modify fun s =>
  match s.frames with
  | ⟨scopes⟩ :: frames => { s with frames := ⟨{} :: scopes⟩ :: frames }
  | [] => s

def popScope : Eval Unit := do
  let s ← get
  match s.frames with
  | ⟨scope :: scopes⟩ :: frames =>
      set { s with frames := ⟨scopes⟩ :: frames }
      dropCells scope.cells
  | _ => fail .noScope

def popScopes : (count : Nat) → Eval Unit
  | 0 => pure ()
  | count + 1 => do
      popScope
      popScopes count

/-- The innermost activation is left, with the scopes that are still open in it. -/
def popFrame : Eval Unit := do
  let openScopes := ((← get).frames.head?.map (·.scopes.length)).getD 0
  popScopes openScopes
  modify fun s => { s with frames := s.frames.drop 1 }

def emit (text : String) : Eval Unit := modify fun s => { s with outputs := text :: s.outputs }

end BorrowLang.Evaluator
