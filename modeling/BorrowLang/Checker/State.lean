import BorrowLang.Builtin
import BorrowLang.LiveNames
import BorrowLang.LogEvent
import BorrowLang.Syntax.Names
import BorrowLang.Tracker

/-! # State of the checker

What the checker knows at a point of a function, and how a broken rule ends the check. -/
set_option autoImplicit false
namespace BorrowLang.Checker

/-- Why a check ends early. -/
inductive Fault
  | reported (diagnostic : Diagnostic)
  /-- A node or operator that has no meaning where it stands. -/
  | unsupported
  /-- A reference type that was written without a target. -/
  | missingTarget
  /-- A state that no check reaches. -/
  | unreachable
  /-- A search through borrows that comes back to where it was. -/
  | endless
deriving Repr, DecidableEq

/-- What stays the same while a function is checked. -/
structure Context where
  settings : Settings := {}
  file : Option String := none
  functions : List (String × Signature) := []
  /-- The type that the function being checked returns. -/
  result : Ty := .unit
deriving Inhabited

/-- What changes while a function is checked.  The innermost scope comes first, and in a scope the
latest binding. -/
structure State where
  arena : Arena := {}
  tracker : Tracker := {}
  nextBorrow : BorrowId := 1
  scopes : List (List (String × PlaceId)) := [[]]
  live : LiveNames := {}
  /-- The latest event first. -/
  log : List LogEvent := []
deriving Inhabited

/-- A check: it ends early at the first fault, and the state at that point is kept. -/
abbrev Check (α : Type) := ExceptT Fault (StateM State) α

/-- The value of an expression: its type, the borrows that it carries, and whether evaluating it
always leaves the function. -/
structure Operand where
  ty : Ty
  loans : List BorrowId := []
  diverges : Bool := false
deriving Repr, Inhabited

/-- Borrows of either of two values, each once. -/
def unionLoans (a b : List BorrowId) : List BorrowId := a ++ b.filter fun id => !a.contains id

/-- Borrows of any of several values, each once. -/
def unionAll (loans : List (List BorrowId)) : List BorrowId := loans.foldl unionLoans []

namespace Context

def span (ctx : Context) (loc : Option Position) : Span := .ofPosition? ctx.file loc

def fault (ctx : Context) (kind : DiagnosticKind) (message : String) (loc : Option Position)
    (subject : Option String := none) : Fault :=
  .reported
    { message, kind, phase := some Phase.borrowcheck.text, span := ctx.span loc, subject }

/-- The signature of a function of the program. -/
def signature? (ctx : Context) (name : String) : Option Signature :=
  (ctx.functions.find? (·.1 = name)).map (·.2)

/-- The type that a written type stands for; a fault names the whole written type. -/
def resolve (ctx : Context) (written : TypeExpr) (loc : Option Position) : Except Fault Ty :=
  match Ty.resolve written with
  | .ok ty => .ok ty
  | .error .missingTarget => .error .missingTarget
  | .error (.unknown name) =>
      .error (ctx.fault .unresolvedName (TypeFault.unknown name).message loc (some written.name))
  | .error fault => .error (ctx.fault .typeMismatch fault.message loc)

end Context

/-- What is said when a type is not the expected one. -/
def mismatchText (expected found : Ty) : String :=
  "mismatched types: expected `" ++ expected.text ++ "`, found `" ++ found.text ++ "`"

def tyText? (ty : Option Ty) : String := (ty.map Ty.text).getD "None"

/-- A value of the expected type, or one that is never reached. -/
def expect (ctx : Context) (expected : Ty) (value : Operand) (loc : Option Position) : Check Unit :=
  if value.diverges || value.ty.coercesTo expected then pure ()
  else throw (ctx.fault .typeMismatch (mismatchText expected value.ty) loc)

/-- An answer of the tracker; a violation is reported at a position. -/
def guard {α : Type} (ctx : Context) (loc : Option Position) (answer : Except Violation α) :
    Check α :=
  match answer with
  | .ok a => pure a
  | .error violation => do throw (.reported (violation.report (← get).arena (ctx.span loc)))

def modifyTracker (f : Tracker → Tracker) : Check Unit :=
  modify fun s => { s with tracker := f s.tracker }

def note (event : LogEvent) : Check Unit := modify fun s => { s with log := event :: s.log }

def requireRead (ctx : Context) (loc : Option Position) (place : PlaceId) : Check Unit := do
  let s ← get
  guard ctx loc (s.tracker.canRead s.arena place)

/-- A new borrow of a place, carried by a value. -/
def borrow (ctx : Context) (loc : Option Position) (place : PlaceId) (kind : BorrowKind) :
    Check BorrowId := do
  let s ← get
  let tracker ← guard ctx loc (s.tracker.beginBorrow s.arena s.nextBorrow place kind none false loc)
  set { s with tracker, nextBorrow := s.nextBorrow + 1 }
  return s.nextBorrow

/-- Is the binding with this slot mentioned later? -/
def State.isLive (s : State) (holder : PlaceId) : Bool := s.live.contains (s.arena.name holder)

/-- Does a borrow stored in this binding last as long as the binding's scope? -/
def State.pins (s : State) (ctx : Context) (holder : PlaceId) : Bool :=
  ctx.settings.lexical || !s.isLive holder

end BorrowLang.Checker
