import BorrowLang.Place

/-! # Borrows

A borrow is a shared or exclusive claim on a place.  It lasts as long as its holder, the binding
whose value carries the reference; a borrow without a holder belongs to a temporary value. -/
set_option autoImplicit false
namespace BorrowLang

/-- What a borrow claims: any number of shared ones may overlap, an exclusive one overlaps none. -/
inductive BorrowKind
  | shared
  | exclusive
deriving Repr, DecidableEq, Inhabited

def BorrowKind.text : BorrowKind → String
  | shared => "shared"
  | exclusive => "exclusive"

/-- The kind of the borrow that `&` or `&mut` makes. -/
def BorrowKind.ofMut (isMut : Bool) : BorrowKind := if isMut then exclusive else shared

/-- The number of a borrow. -/
abbrev BorrowId := Nat

/-- An active borrow.  A pinned one lasts until its holder leaves its scope, another only until the
holder's last use. -/
structure BorrowRecord where
  id : BorrowId
  place : PlaceId
  kind : BorrowKind
  holder : Option PlaceId := none
  pinned : Bool := false
  origin : Option Position := none
deriving Repr, DecidableEq, Inhabited

/-- Whether a place holds a value, as far as is known. -/
inductive MoveState
  | uninit
  | live
  | moved
deriving Repr, DecidableEq, Inhabited

def MoveState.text : MoveState → String
  | uninit => "UNINIT"
  | live => "LIVE"
  | moved => "MOVED"

/-- The state after two paths meet: the one that allows less, and an unknown state gives way. -/
def MoveState.merge : Option MoveState → Option MoveState → Option MoveState
  | none, b => b
  | a, none => a
  | some a, some b =>
      if a = moved ∨ b = moved then some moved
      else if a = uninit ∨ b = uninit then some uninit
      else some live

end BorrowLang
