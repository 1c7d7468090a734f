import BorrowLang.Borrow
import BorrowLang.Diagnostic

/-! # Violations

A broken rule of ownership or borrowing, with the place at fault and the borrow in the way where
there is one; and the diagnostics that tell a user. -/
set_option autoImplicit false
namespace BorrowLang

/-- The rules that a program can break. -/
inductive Rule
  | useUninitialized
  | useMoved
  | borrowMoved
  | assignPartOfMoved
  | useWhileMut
  | mutTwice
  | mutWhileShared
  | sharedWhileMut
  | assignBorrowed
  | assignTwice
  | assignBehindShared
  | assignImmutableOwner
  | borrowImmutable
  | borrowImmutableOwner
  | borrowBehindShared
  | moveBorrowed
  | moveOutOfShared
  | moveOutOfMut
  | outlived
  | returnedLocal
  | returnedData
  /-- A reference is used after an access of the given kind has ended its borrow. -/
  | invalidated (cause : DiagnosticKind)
  /-- A reference is used after what it points at is gone. -/
  | freed
deriving Repr, DecidableEq

namespace Rule

def kind : Rule → DiagnosticKind
  | useUninitialized => .useUninitialized
  | useMoved | borrowMoved | assignPartOfMoved => .useAfterMove
  | useWhileMut | mutTwice | mutWhileShared | sharedWhileMut => .conflictingBorrow
  | assignBorrowed => .assignWhileBorrowed
  | assignTwice | assignBehindShared | assignImmutableOwner | borrowImmutable
  | borrowImmutableOwner | borrowBehindShared => .assignImmutable
  | moveBorrowed => .moveWhileBorrowed
  | moveOutOfShared | moveOutOfMut => .moveOutOfBorrow
  | outlived | returnedLocal | returnedData | freed => .danglingBorrow
  | invalidated cause => cause

/-- The name that tells the rules of one kind apart. -/
def variant : Rule → String
  | useUninitialized | useMoved => "use"
  | borrowMoved => "borrow"
  | assignPartOfMoved => "assign-part"
  | useWhileMut => "use-while-mut"
  | mutTwice => "mut-twice"
  | mutWhileShared => "mut-while-shared"
  | sharedWhileMut => "shared-while-mut"
  | assignBorrowed => "assign"
  | assignTwice => "assign-twice"
  | assignBehindShared => "assign-behind-shared"
  | assignImmutableOwner => "assign-immutable-owner"
  | borrowImmutable => "borrow-immutable"
  | borrowImmutableOwner => "borrow-immutable-owner"
  | borrowBehindShared => "borrow-behind-shared"
  | moveBorrowed => "move"
  | moveOutOfShared => "shared"
  | moveOutOfMut => "mut"
  | outlived => "scope"
  | returnedLocal => "return-local"
  | returnedData => "return-data"
  | invalidated _ => "invalidated"
  | freed => "freed"

def code (rule : Rule) : String := rule.kind.code ++ "/" ++ rule.variant

/-- The message about a place, and about the binding that it belongs to. -/
def message (rule : Rule) (place root : String) : String :=
  match rule with
  | useUninitialized => "used binding `" ++ place ++ "` isn't initialized"
  | useMoved => "use of moved value: `" ++ place ++ "`"
  | borrowMoved => "borrow of moved value: `" ++ place ++ "`"
  | assignPartOfMoved => "assign to part of moved value: `" ++ place ++ "`"
  | useWhileMut => "cannot use `" ++ place ++ "` because it was mutably borrowed"
  | mutTwice => "cannot borrow `" ++ place ++ "` as mutable more than once at a time"
  | mutWhileShared =>
      "cannot borrow `" ++ place ++ "` as mutable because it is also borrowed as immutable"
  | sharedWhileMut =>
      "cannot borrow `" ++ place ++ "` as immutable because it is also borrowed as mutable"
  | assignBorrowed => "cannot assign to `" ++ place ++ "` because it is borrowed"
  | assignTwice => "cannot assign twice to immutable variable `" ++ place ++ "`"
  | assignBehindShared => "cannot assign to `" ++ place ++ "`, which is behind a `&` reference"
  | assignImmutableOwner =>
      "cannot assign to `" ++ place ++ "`, as `" ++ root ++ "` is not declared as mutable"
  | borrowImmutable =>
      "cannot borrow `" ++ place ++ "` as mutable, as it is not declared as mutable"
  | borrowImmutableOwner =>
      "cannot borrow `" ++ place ++ "` as mutable, as `" ++ root ++ "` is not declared as mutable"
  | borrowBehindShared =>
      "cannot borrow `" ++ place ++ "` as mutable, as it is behind a `&` reference"
  | moveBorrowed => "cannot move out of `" ++ place ++ "` because it is borrowed"
  | moveOutOfShared => "cannot move out of `" ++ place ++ "` which is behind a shared reference"
  | moveOutOfMut => "cannot move out of `" ++ place ++ "` which is behind a mutable reference"
  | outlived => "`" ++ place ++ "` does not live long enough"
  | returnedLocal => "cannot return reference to local variable `" ++ place ++ "`"
  | returnedData => "cannot return value referencing local data `" ++ place ++ "`"
  | invalidated .assignWhileBorrowed =>
      "`" ++ place ++ "` was used after the value it borrows was assigned"
  | invalidated .moveWhileBorrowed =>
      "`" ++ place ++ "` was used after the value it borrows was moved"
  | invalidated .conflictingBorrow =>
      "`" ++ place ++ "` was used after a conflicting borrow of the value it borrows"
  | invalidated _ => rule.code
  | freed => "`" ++ place ++ "` refers to storage that was already freed"

def catalogue : List Rule :=
  [useUninitialized, useMoved, borrowMoved, assignPartOfMoved, useWhileMut, mutTwice,
   mutWhileShared, sharedWhileMut, assignBorrowed, assignTwice, assignBehindShared,
   assignImmutableOwner, borrowImmutable, borrowImmutableOwner, borrowBehindShared, moveBorrowed,
   moveOutOfShared, moveOutOfMut, outlived, returnedLocal, returnedData,
   invalidated .assignWhileBorrowed, invalidated .moveWhileBorrowed, invalidated .conflictingBorrow,
   freed]

/-- The rule of the catalogue with a kind and a variant. -/
def ofCode? (kind : DiagnosticKind) (variant : String) : Option Rule :=
  catalogue.find? fun rule => rule.kind = kind && rule.variant = variant

/-- What is said of a kind and variant that the catalogue lacks. -/
def missingText (kind : DiagnosticKind) (variant : String) : String :=
  "no message for " ++ kind.code ++ "/" ++ variant

end Rule

/-- A broken rule. -/
structure Violation where
  rule : Rule
  /-- The place at fault; for a reference used while running, the address of a cell. -/
  place : Nat
  conflict : Option BorrowRecord := none
deriving Repr, DecidableEq

namespace Violation

/-- A short text for a violation that is not shown to a user. -/
def text (v : Violation) : String := v.rule.code ++ " on place " ++ toString v.place

/-- The note about the borrow in the way: of which place it is, and where it was made. -/
def conflictNote (arena : Arena) (place : PlaceId) (origin : Option Position) : String :=
  "borrow of `" ++ arena.render place ++ "` occurs here"
    ++ match origin with
      | none => ""
      | some p => " at " ++ toString p.line ++ ":" ++ toString p.column

/-- The diagnostic of a rule broken at a place, with a borrow in the way of a place or none. -/
def diagnose (arena : Arena) (span : Span) (phase : String) (rule : Rule) (place : PlaceId)
    (conflict : Option (PlaceId × Option Position)) : Diagnostic :=
  let shown := arena.render place
  { message := rule.message shown (arena.render (arena.root place))
    kind := rule.kind
    phase := some phase
    span
    notes := conflict.toList.map fun (other, origin) => conflictNote arena other origin
    subject := some shown }

/-- The diagnostic of a violation found while checking. -/
def report (v : Violation) (arena : Arena) (span : Span) : Diagnostic :=
  diagnose arena span Phase.borrowcheck.text v.rule v.place
    (v.conflict.map fun record => (record.place, record.origin))

/-- The diagnostic of a rule broken while running, about the expression that held the reference. -/
def reportRunning (rule : Rule) (subject : String) (span : Span) : Diagnostic :=
  { message := rule.message subject subject
    kind := rule.kind
    phase := some Phase.eval.text
    span
    subject := some subject }

end Violation

end BorrowLang
