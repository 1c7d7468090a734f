import BorrowLang.Violation
import Std.Data.TreeMap.Basic

/-! # The ownership tracker

What is known at a point of a function: the move state of places, the active borrows in the order of
their numbers, and the bindings of the open scopes.  A capability is asked for before a read, write,
move or borrow; the answer is a violation or nothing.  Operations that make borrows take the next
free number, which forks of a tracker share. -/
set_option autoImplicit false
namespace BorrowLang

/-- The state of a tracker.  The innermost scope is the first of `frames`. -/
structure Tracker where
  states : Std.TreeMap PlaceId MoveState := {}
  borrows : List BorrowRecord := []
  frames : List (List PlaceId) := [[]]
deriving Inhabited

namespace Tracker

/-! ### Move states -/

/-- The first moved place on the way to a place, or else the first moved one behind it. -/
def movedOverlap (t : Tracker) (arena : Arena) (place : PlaceId) : Option PlaceId :=
  (arena.chain place ++ arena.descendants place).find? fun id => t.states[id]? = some .moved

/-- The state of a place: moved when a part of it or a place on the way to it is. -/
def state (t : Tracker) (arena : Arena) (place : PlaceId) : MoveState :=
  if (t.movedOverlap arena place).isSome then .moved
  else if t.states[arena.root place]? = some .uninit then .uninit
  else .live

def markMoved (t : Tracker) (place : PlaceId) : Tracker :=
  { t with states := t.states.insert place .moved }

/-- The place has a new value; what is known of the places behind it no longer holds. -/
def markLive (t : Tracker) (arena : Arena) (place : PlaceId) : Tracker :=
  { t with states := (arena.descendants place).foldl (·.erase ·) (t.states.insert place .live) }

/-! ### Borrows on a place -/

/-- The borrows of places that overlap a place. -/
def borrowsOn (t : Tracker) (arena : Arena) (place : PlaceId) : List BorrowRecord :=
  t.borrows.filter fun record => arena.overlaps record.place place

def heldBy (t : Tracker) (holder : PlaceId) : List BorrowRecord :=
  t.borrows.filter fun record => record.holder = some holder

/-- The borrow with a number, while it is active. -/
def borrow? (t : Tracker) (id : BorrowId) : Option BorrowRecord :=
  t.borrows.find? fun record => record.id = id

/-! ### Capabilities -/

/-- The binding that a place belongs to has been given a value at some time. -/
def requireInitialized (t : Tracker) (arena : Arena) (place : PlaceId) : Except Violation Unit :=
  let root := arena.root place
  if t.states[root]? = some .uninit then .error ⟨.useUninitialized, root, none⟩ else .ok ()

def requireUnmoved (t : Tracker) (arena : Arena) (place : PlaceId) (rule : Rule) :
    Except Violation Unit :=
  match t.movedOverlap arena place with
  | some moved => .error ⟨rule, moved, none⟩
  | none => .ok ()

/-- The first of some borrows with a property is in the way. -/
def requireNone (records : List BorrowRecord) (place : PlaceId)
    (rule? : BorrowRecord → Option Rule) : Except Violation Unit :=
  match records.findSome? fun record => (rule? record).map fun rule => (record, rule) with
  | some (record, rule) => .error ⟨rule, place, some record⟩
  | none => .ok ()

/-- A place may be read: it has a value and no exclusive borrow overlaps it. -/
def canRead (t : Tracker) (arena : Arena) (place : PlaceId) : Except Violation Unit := do
  t.requireInitialized arena place
  t.requireUnmoved arena place .useMoved
  requireNone (t.borrowsOn arena place) place fun record =>
    if record.kind = .exclusive then some .useWhileMut else none

/-- A value may be moved out of a place: it is owned by its binding and not borrowed. -/
def canMove (t : Tracker) (arena : Arena) (place : PlaceId) : Except Violation Unit := do
  t.requireInitialized arena place
  t.requireUnmoved arena place .useMoved
  match arena.innermostRef place with
  | some via => .error ⟨if via = .mutRef then .moveOutOfMut else .moveOutOfShared, place, none⟩
  | none => requireNone (t.borrowsOn arena place) place fun _ => some .moveBorrowed

/-- Whether writes are allowed after the steps of a way, and whether a shared reference was the
last to decide it: `&mut` allows them whatever the binding, `&` forbids them, a box changes
nothing. -/
def mutabilityAlong (isMut : Bool) (steps : List Via) : Bool × Bool :=
  steps.foldl (fun known via =>
    match via with
    | .mutRef => (true, false)
    | .sharedRef => (false, true)
    | .box => known) (isMut, false)

/-- A place may be written or borrowed mutably as far as declarations go. -/
def checkMutable (arena : Arena) (place : PlaceId) (toBorrow : Bool) : Except Violation Unit :=
  let chain := arena.chain place
  let (allowed, behindShared) :=
    mutabilityAlong (arena.isMut (arena.root place)) (chain.filterMap arena.via?)
  if allowed then .ok ()
  else
    let rule : Rule :=
      if behindShared then if toBorrow then .borrowBehindShared else .assignBehindShared
      else if chain.length = 1 then if toBorrow then .borrowImmutable else .assignTwice
      else if toBorrow then .borrowImmutableOwner else .assignImmutableOwner
    .error ⟨rule, place, none⟩

/-- The places on the way to a place hold values. -/
def requireOwners (t : Tracker) (place : PlaceId) : List PlaceId → Except Violation Unit
  | [] => .ok ()
  | owner :: rest =>
      match t.states[owner]? with
      | some .uninit => .error ⟨.useUninitialized, owner, none⟩
      | some .moved => .error ⟨.assignPartOfMoved, place, none⟩
      | _ => t.requireOwners place rest

/-- A place may be assigned to: for the first time, or because it is mutable; and it is not
borrowed. -/
def canWrite (t : Tracker) (arena : Arena) (place : PlaceId) : Except Violation Unit := do
  let chain := arena.chain place
  t.requireOwners place chain.dropLast
  if chain.length = 1 ∧ t.states[place]? = some .uninit then pure ()
  else checkMutable arena place false
  requireNone (t.borrowsOn arena place) place fun _ => some .assignBorrowed

/-- A place may be borrowed: shared beside shared borrows, exclusively beside none. -/
def checkBorrow (t : Tracker) (arena : Arena) (place : PlaceId) (kind : BorrowKind) :
    Except Violation Unit := do
  t.requireInitialized arena place
  t.requireUnmoved arena place .borrowMoved
  requireNone (t.borrowsOn arena place) place fun record =>
    match kind, record.kind with
    | .exclusive, .exclusive => some .mutTwice
    | .exclusive, .shared => some .mutWhileShared
    | .shared, .exclusive => some .sharedWhileMut
    | .shared, .shared => none

/-! ### Making, passing on and ending borrows -/

def beginBorrow (t : Tracker) (arena : Arena) (id : BorrowId) (place : PlaceId) (kind : BorrowKind)
    (holder : Option PlaceId) (pinned : Bool) (origin : Option Position) :
    Except Violation Tracker := do
  t.checkBorrow arena place kind
  return { t with borrows := t.borrows ++ [⟨id, place, kind, holder, pinned, origin⟩] }

def endBorrow (t : Tracker) (id : BorrowId) : Tracker :=
  { t with borrows := t.borrows.filter fun record => record.id ≠ id }

def endHeldBy (t : Tracker) (holder : PlaceId) : Tracker :=
  { t with borrows := t.borrows.filter fun record => record.holder ≠ some holder }

/-- The borrows that a value carries pass to the binding that stores it. -/
def adopt (t : Tracker) (ids : List BorrowId) (holder : PlaceId) (pinned : Bool) : Tracker :=
  { t with
    borrows := t.borrows.map fun record =>
      if ids.contains record.id then { record with holder := some holder, pinned } else record }

/-- A copy of one borrow for a binding, with the next free number, if the borrow is active. -/
def shareOne (t : Tracker) (next id : BorrowId) (holder : PlaceId) (pinned : Bool) :
    Option Tracker :=
  (t.borrow? id).map fun record =>
    { t with borrows := t.borrows ++ [{ record with id := next, holder := some holder, pinned }] }

/-- Copies of borrows for a binding, one after another; those copied stay.  Also the next free
number and the numbers of the copies. -/
def shareEach (holder : PlaceId) (pinned : Bool) :
    List BorrowId → Tracker → (next : BorrowId) → Tracker × BorrowId × List BorrowId
  | [], t, next => (t, next, [])
  | id :: rest, t, next =>
      match t.shareOne next id holder pinned with
      | none => shareEach holder pinned rest t next
      | some t =>
          let (t, after, copies) := shareEach holder pinned rest t (next + 1)
          (t, after, next :: copies)

/-- Copies of borrows for a binding, in the order of their numbers. -/
def share (t : Tracker) (next : BorrowId) (ids : List BorrowId) (holder : PlaceId) (pinned : Bool) :
    Tracker × BorrowId × List BorrowId :=
  shareEach holder pinned (ids.mergeSort fun a b => decide (a ≤ b)) t next

/-- Moving a binding's value turns the borrows it holds into those of a temporary. -/
def detach (t : Tracker) (holder : PlaceId) : Tracker × List BorrowId :=
  ({ t with
    borrows := t.borrows.map fun record =>
      if record.holder = some holder then { record with holder := none, pinned := false }
      else record },
   (t.heldBy holder).map (·.id))

/-- Some records as a temporary's, numbered from the next free number on. -/
def renumbered (next : BorrowId) : List BorrowRecord → List BorrowRecord
  | [] => []
  | record :: rest =>
      { record with id := next, holder := none, pinned := false } :: renumbered (next + 1) rest

/-- Copying a shared reference copies the shared borrows that its binding holds, as a
temporary's. -/
def cloneHeld (t : Tracker) (next : BorrowId) (holder : PlaceId) :
    Tracker × BorrowId × List BorrowId :=
  let copies := renumbered next ((t.heldBy holder).filter fun record => record.kind = .shared)
  ({ t with borrows := t.borrows ++ copies }, next + copies.length, copies.map (·.id))

/-- The borrows of temporaries end, but for those to keep. -/
def endTemporaries (t : Tracker) (keep : List BorrowId) : Tracker :=
  { t with
    borrows := t.borrows.filter fun record => record.holder.isSome || keep.contains record.id }

/-! ### Borrows whose holder is no longer used -/

/-- A borrow that stays: of a temporary, pinned, or held by one of some bindings. -/
def isKept (alive : List PlaceId) (record : BorrowRecord) : Bool :=
  match record.holder with
  | none => true
  | some holder => record.pinned || alive.contains holder

/-- One round of extending the live holders: a borrow that stays reaches its place through the
reference of the binding that the place belongs to, so that binding's borrows stay too. -/
def extendAlive (t : Tracker) (arena : Arena) (alive : List PlaceId) : List PlaceId :=
  t.borrows.foldl (fun alive record =>
    let root := arena.root record.place
    if isKept alive record && t.borrows.any (·.holder = some root) && !alive.contains root then
      root :: alive
    else alive) alive

/-- Rounds of extending the live holders, until nothing changes. -/
def settleAlive (t : Tracker) (arena : Arena) : (rounds : Nat) → List PlaceId → List PlaceId
  | 0, alive => alive
  | rounds + 1, alive =>
      let more := t.extendAlive arena alive
      if more.length = alive.length then alive else t.settleAlive arena rounds more

/-- The holders whose borrows stay; every round but the last adds one of them. -/
def aliveHolders (t : Tracker) (arena : Arena) (isLive : PlaceId → Bool) : List PlaceId :=
  t.settleAlive arena (t.borrows.length + 1)
    ((t.borrows.filterMap (·.holder)).eraseDups.filter isLive)

/-- The borrows that no live binding needs end; also their numbers. -/
def releaseDead (t : Tracker) (arena : Arena) (isLive : PlaceId → Bool) :
    Tracker × List BorrowId :=
  let alive := t.aliveHolders arena isLive
  ({ t with borrows := t.borrows.filter (isKept alive) },
   (t.borrows.filter fun record => !isKept alive record).map (·.id))

/-! ### Scopes -/

def pushFrame (t : Tracker) : Tracker := { t with frames := [] :: t.frames }

def declare (t : Tracker) (place : PlaceId) (initialized : Bool) : Tracker :=
  { t with
    states := t.states.insert place (if initialized then .live else .uninit)
    frames :=
      match t.frames with
      | [] => [[place]]
      | frame :: rest => (frame ++ [place]) :: rest }

/-- Why a scope cannot be left. -/
inductive PopFault
  | outermost
  | dangling (violation : Violation)
deriving Repr, DecidableEq

/-- The message of a fault that is not a violation. -/
def outermostText : String := "cannot pop the outermost frame"

/-- The borrow of storage that dies with some bindings. -/
def danglingBorrow? (t : Tracker) (arena : Arena) (dying : List PlaceId) : Option Violation :=
  t.borrows.findSome? fun record =>
    let root := arena.root record.place
    if dying.contains root && (arena.innermostRef record.place).isNone then
      some ⟨.outlived, root, some record⟩
    else none

/-- The innermost scope is left: the borrows that its bindings hold end, and nothing is known any
more of its places.  A remaining borrow of its storage would dangle; the scope is then left all the
same, but its places are not forgotten.  Also the numbers of the borrows that ended. -/
def popFrame (t : Tracker) (arena : Arena) : Tracker × Except PopFault (List BorrowId) :=
  match t.frames with
  | dying :: outer :: rest =>
      let dies (record : BorrowRecord) : Bool := record.holder.any dying.contains
      let popped : Tracker :=
        { t with borrows := t.borrows.filter fun record => !dies record, frames := outer :: rest }
      match popped.danglingBorrow? arena dying with
      | some violation => (popped, .error (.dangling violation))
      | none =>
          ({ popped with
              states := dying.foldl (fun states place =>
                (arena.descendants place).foldl (·.erase ·) (states.erase place)) popped.states },
           .ok ((t.borrows.filter dies).map (·.id)))
  | _ => (t, .error .outermost)

/-! ### Paths that meet -/

def insertById (record : BorrowRecord) : List BorrowRecord → List BorrowRecord
  | [] => [record]
  | first :: rest =>
      if record.id < first.id then record :: first :: rest else first :: insertById record rest

/-- A record of another path: one that is missing is added, one that is there becomes pinned when
the other is. -/
def joinRecord (records : List BorrowRecord) (record : BorrowRecord) : List BorrowRecord :=
  if records.any (·.id = record.id) then
    records.map fun mine =>
      if mine.id = record.id && record.pinned then { mine with pinned := true } else mine
  else insertById record records

/-- What is known when another path meets this one. -/
def join (t other : Tracker) : Tracker :=
  { t with
    states := other.states.foldl (fun states place theirs =>
      match MoveState.merge states[place]? (some theirs) with
      | some merged => states.insert place merged
      | none => states) t.states
    borrows := other.borrows.foldl joinRecord t.borrows }

end Tracker

end BorrowLang
