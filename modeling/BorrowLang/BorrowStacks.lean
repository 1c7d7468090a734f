import BorrowLang.Violation
import Std.Data.TreeMap.Basic

/-! # Borrow stacks

While a program runs, every reference carries a tag, and every cell keeps the tags that may still
reach it, oldest first, above its owner.  An access ends the tags above the one that it goes
through: a write ends all of them, a read those from the first exclusive one on.  A tag that has
ended remembers the kind of access that ended it. -/
set_option autoImplicit false
namespace BorrowLang

/-- The tag of a reference. -/
abbrev Tag := Nat

/-- The address of a cell. -/
abbrev Addr := Nat

/-- A tag that may reach a cell. -/
structure StackItem where
  tag : Tag
  kind : BorrowKind
deriving Repr, DecidableEq, Inhabited

/-- The stacks of all cells, the tags that have ended, and the next free tag. -/
structure BorrowStacks where
  byAddr : Std.TreeMap Addr (List StackItem) := {}
  revoked : Std.TreeMap Tag DiagnosticKind := {}
  nextTag : Tag := 1
deriving Inhabited

namespace BorrowStacks

/-- The stack of a cell; a cell that was never borrowed has an empty one. -/
def stack (s : BorrowStacks) (addr : Addr) : List StackItem := s.byAddr.getD addr []

def push (s : BorrowStacks) (addr : Addr) (kind : BorrowKind) : BorrowStacks × Tag :=
  ({ s with
      byAddr := s.byAddr.insert addr (s.stack addr ++ [⟨s.nextTag, kind⟩])
      nextTag := s.nextTag + 1 },
   s.nextTag)

/-- A stack cut after a tag, if the tag is on it. -/
def splitAfter? (tag : Tag) : List StackItem → Option (List StackItem × List StackItem)
  | [] => none
  | item :: rest =>
      if item.tag = tag then some ([item], rest)
      else (splitAfter? tag rest).map fun (kept, above) => (item :: kept, above)

/-- The tags that stay below and those above an access through a tag, or by the owner. -/
def splitAt? (stack : List StackItem) : Option Tag → Option (List StackItem × List StackItem)
  | none => some ([], stack)
  | some tag => splitAfter? tag stack

def StackItem.isShared (item : StackItem) : Bool := item.kind = .shared

/-- The tags that an access leaves, and those that it ends. -/
def cut (stack : List StackItem) (isWrite : Bool) (tag : Option Tag) :
    Option (List StackItem × List StackItem) :=
  (splitAt? stack tag).map fun (kept, above) =>
    if isWrite then (kept, above)
    else (kept ++ above.takeWhile StackItem.isShared, above.dropWhile StackItem.isShared)

/-- The stacks after a read or write of a cell through a tag, or by the owner.  The use of a tag
that has ended is a violation of the kind that ended it. -/
def access (s : BorrowStacks) (addr : Addr) (tag : Option Tag) (isWrite : Bool)
    (cause : DiagnosticKind) : Except Violation BorrowStacks :=
  match cut (s.stack addr) isWrite tag with
  | none =>
      let ended := (tag.bind (s.revoked[·]?)).getD .conflictingBorrow
      .error ⟨.invalidated ended, addr, none⟩
  | some (kept, ended) =>
      .ok { s with
        byAddr := if s.byAddr.contains addr then s.byAddr.insert addr kept else s.byAddr
        revoked := ended.foldl (fun revoked item => revoked.insert item.tag cause) s.revoked }

def forget (s : BorrowStacks) (addr : Addr) : BorrowStacks :=
  { s with byAddr := s.byAddr.erase addr }

end BorrowStacks

end BorrowLang
