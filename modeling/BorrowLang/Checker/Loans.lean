import BorrowLang.Checker.State

/-! # Storing borrows

Where the borrows that a value carries go when the value is stored.  Behind a reference, the value
lands in the storage of other bindings: those that the reference may point at, found through the
borrows that its own binding holds.  Storage of a caller must not receive borrows of this
function's. -/
set_option autoImplicit false
namespace BorrowLang.Checker

/-- No borrow of a value may be of storage that this function owns: it would leave the function, or
be stored where the storage is out of reach. -/
def checkEscape (ctx : Context) (loans : List BorrowId) (loc : Option Position) (stored : Bool) :
    Check Unit := do
  let s ← get
  let owned := (loans.mergeSort fun a b => decide (a ≤ b)).findSome? fun id =>
    (s.tracker.borrow? id).filter fun record => (s.arena.innermostRef record.place).isNone
  match owned with
  | none => pure ()
  | some record =>
      let rule : Rule :=
        if stored then .outlived
        else if (s.arena.parent? record.place).isNone then .returnedLocal
        else .returnedData
      throw (.reported
        (Violation.report ⟨rule, record.place, some record⟩ s.arena (ctx.span loc)))

/-- What is known about a place from the borrows of its owner. -/
inductive Lead
  /-- The bindings whose storage it may be; none when the storage may be a caller's. -/
  | known (bindings : Option (List PlaceId))
  /-- It may be the storage of whatever these places may be. -/
  | among (targets : List PlaceId)

/-- Behind a reference, a place lies in what the borrows held by the reference's owner are of. -/
def State.lead (s : State) (place : PlaceId) : Lead :=
  let owner := s.arena.root place
  let held := s.tracker.heldBy owner
  if (s.arena.innermostRef place).isNone then .known (some [owner])
  else if held.isEmpty then .known (if s.arena.isParam owner then none else some [])
  else
    .among ((held.map (·.place)).filter fun target =>
      ((s.arena.ty? target).map Ty.hasRef).getD false)

/-- The bindings whose storage some places may be, if none of it may be a caller's.  After a place
whose storage may be a caller's no other is searched. -/
def unionReferents (referents : PlaceId → Except Fault (Option (List PlaceId))) :
    List PlaceId → Except Fault (Option (List PlaceId))
  | [] => .ok (some [])
  | place :: rest =>
      match referents place with
      | .ok (some first) =>
          (unionReferents referents rest).map
            (Option.map fun others => first ++ others.filter fun id => !first.contains id)
      | other => other

/-- The bindings whose storage a place may be; none when the storage may be a caller's.  The fuel
bounds the number of references that are followed one after another. -/
def referents (s : State) : (fuel : Nat) → PlaceId → Except Fault (Option (List PlaceId))
  | 0, place =>
      match s.lead place with
      | .known bindings => .ok bindings
      | .among _ => .error .endless
  | fuel + 1, place =>
      match s.lead place with
      | .known bindings => .ok bindings
      | .among targets => unionReferents (referents s fuel) targets

/-- The bindings whose storage a place may be.  A search that follows more references one after
another than there are places comes to a binding that it has come from, and goes on forever. -/
def State.referents (s : State) (place : PlaceId) : Except Fault (Option (List PlaceId)) :=
  Checker.referents s s.arena.size place

/-- Copies of borrows for each of some bindings. -/
def shareWith (ctx : Context) (loans : List BorrowId) : List PlaceId → Check Unit
  | [] => pure ()
  | holder :: rest => do
      let s ← get
      let (tracker, nextBorrow, _) := s.tracker.share s.nextBorrow loans holder (s.pins ctx holder)
      set { s with tracker, nextBorrow }
      shareWith ctx loans rest

/-- Copies of borrows for every binding whose storage some places may be.  Was there one? -/
def storeInto (ctx : Context) (places : List PlaceId) (loans : List BorrowId)
    (loc : Option Position) : Check Bool := do
  match unionReferents (← get).referents places with
  | .error fault => throw fault
  | .ok none =>
      checkEscape ctx loans loc true
      return false
  | .ok (some holders) =>
      shareWith ctx loans (holders.mergeSort fun a b => decide (a ≤ b))
      return !holders.isEmpty

/-- The borrows that a value carries go to the binding that stores it. -/
def storeLoans (ctx : Context) (holder : PlaceId) (loans : List BorrowId) : Check Unit :=
  modify fun s => { s with tracker := s.tracker.adopt loans holder (s.pins ctx holder) }

end BorrowLang.Checker
