import BorrowLang.Checker.Program

/-!
# Parts of a check

Checks whose last steps are looked at by themselves, and the checks as they consist of them.
-/

set_option autoImplicit false

namespace BorrowLang.Checker

/-- A borrow of a place whose mutability is in order. -/
def borrowChecked (ctx : Context) (s : State) (loc : Option Position) (place : PlaceId)
    (isMut : Bool) : Check Operand := do
  let loan ← borrow ctx loc place (.ofMut isMut)
  match s.arena.ty? place with
  | none => throw .unreachable
  | some ty => return { ty := .ref isMut ty, loans := [loan] }

theorem borrowPlace_eq (ctx : Context) (loc : Option Position) (place : PlaceId) (isMut : Bool) :
    borrowPlace ctx loc place isMut = (do
      let s ← get
      if isMut then guard ctx loc (Tracker.checkMutable s.arena place true)
      borrowChecked ctx s loc place isMut) := rfl

/-- The borrows that no later mention needs end, and as many are noted. -/
def releaseUnused : Check Unit := do
  let s ← get
  let (tracker, released) := s.tracker.releaseDead s.arena s.isLive
  set { s with tracker }
  if !released.isEmpty then note (.released released.length)

theorem endStatement_eq (ctx : Context) :
    endStatement ctx = (do
      modifyTracker (·.endTemporaries [])
      if !ctx.settings.lexical then releaseUnused) := rfl

/-- The innermost scope is closed. -/
def closeScope (ctx : Context) (loc : Option Position) : Check Unit := do
  let s ← get
  let (tracker, answer) := s.tracker.popFrame s.arena
  set { s with tracker, scopes := s.scopes.drop 1 }
  match answer with
  | .ok _ => pure ()
  | .error .outermost => throw .unreachable
  | .error (.dangling violation) =>
      let origin := violation.conflict.bind (·.origin)
      throw (.reported (violation.report s.arena (ctx.span (origin <|> loc))))

theorem endBlock_eq (ctx : Context) (loc : Option Position) (keep : List BorrowId) :
    endBlock ctx loc keep = (do
      modifyTracker (·.endTemporaries keep)
      if !ctx.settings.lexical then
        modify fun s => { s with tracker := (s.tracker.releaseDead s.arena s.isLive).1 }
      closeScope ctx loc) := rfl

/-- The kind of the diagnostic with which a check ends. -/
def refusal? {α : Type} : Except Fault α → Option DiagnosticKind
  | .error (.reported diagnostic) => some diagnostic.kind
  | _ => none

theorem reported_of_refusal? {α : Type} {answer : Except Fault α} {kind : DiagnosticKind}
    (refused : refusal? answer = some kind) :
    ∃ diagnostic, answer = .error (.reported diagnostic) ∧ diagnostic.kind = kind := by
  unfold refusal? at refused
  split at refused
  · exact ⟨_, rfl, Option.some.inj refused⟩
  · cases refused

end BorrowLang.Checker
