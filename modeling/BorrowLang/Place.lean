import BorrowLang.Ty

/-! # Places

The storage that expressions denote: the slot of a binding, or what a box or reference in another
place points at.  Places are numbered in the order in which they are first named, and a place has at
most one target, so two places overlap exactly when they belong to one binding. -/
set_option autoImplicit false
namespace BorrowLang

/-- The number of a place. -/
abbrev PlaceId := Nat

/-- What a place was reached through. -/
inductive Via
  | box
  | sharedRef
  | mutRef
deriving Repr, DecidableEq, Inhabited

/-- Was the place reached through a reference? -/
def Via.isRef : Via → Bool
  | box => false
  | sharedRef | mutRef => true

/-- What a place is: the slot of a binding, or the target of another place. -/
inductive PlaceKind
  | local (name : String) (isMut isParam : Bool)
  | target (parent : PlaceId) (via : Via)
deriving Repr, DecidableEq, Inhabited

/-- A place, with its type where that is known, and its target where that has been named. -/
structure Place where
  kind : PlaceKind
  ty : Option Ty
  child : Option PlaceId := none
deriving Repr, DecidableEq, Inhabited

namespace Place

def parent (place : Place) : Option PlaceId :=
  match place.kind with
  | .local _ _ _ => none
  | .target parent _ => some parent

def via (place : Place) : Option Via :=
  match place.kind with
  | .local _ _ _ => none
  | .target _ via => some via

/-- The name of the binding; a target has none of its own. -/
def name (place : Place) : String :=
  match place.kind with
  | .local name _ _ => name
  | .target _ _ => ""

def isMut (place : Place) : Bool :=
  match place.kind with
  | .local _ isMut _ => isMut
  | .target _ _ => false

def isParam (place : Place) : Bool :=
  match place.kind with
  | .local _ _ isParam => isParam
  | .target _ _ => false

end Place

/-- The places of one function. -/
structure Arena where
  places : Array Place := #[]
deriving Repr, DecidableEq, Inhabited

namespace Arena

def size (arena : Arena) : Nat := arena.places.size

def place? (arena : Arena) (id : PlaceId) : Option Place := arena.places[id]?

def ty? (arena : Arena) (id : PlaceId) : Option Ty := (arena.place? id).bind (·.ty)

def parent? (arena : Arena) (id : PlaceId) : Option PlaceId := (arena.place? id).bind Place.parent

def via? (arena : Arena) (id : PlaceId) : Option Via := (arena.place? id).bind Place.via

/-- The target of a place, where it has been named. -/
def child? (arena : Arena) (id : PlaceId) : Option PlaceId := (arena.place? id).bind (·.child)

def name (arena : Arena) (id : PlaceId) : String := ((arena.place? id).map Place.name).getD ""

/-- Was the binding with this slot declared mutable? -/
def isMut (arena : Arena) (id : PlaceId) : Bool := ((arena.place? id).map Place.isMut).getD false

def isParam (arena : Arena) (id : PlaceId) : Bool :=
  ((arena.place? id).map Place.isParam).getD false

def addLocal (arena : Arena) (name : String) (ty : Option Ty) (isMut isParam : Bool) :
    Arena × PlaceId :=
  (⟨arena.places.push { kind := .local name isMut isParam, ty }⟩, arena.size)

def setTy (arena : Arena) (id : PlaceId) (ty : Option Ty) : Arena :=
  ⟨arena.places.modify id fun place => { place with ty }⟩

/-- The target of a place.  It is made when it is first named; naming it again says anew what it is
reached through and of which type it is. -/
def target (arena : Arena) (parent : PlaceId) (via : Via) (ty : Option Ty) : Arena × PlaceId :=
  match arena.child? parent with
  | some child =>
      (⟨arena.places.modify child fun place => { place with kind := .target parent via, ty }⟩,
        child)
  | none =>
      (⟨(arena.places.modify parent fun place => { place with child := some arena.size }).push
          { kind := .target parent via, ty }⟩, arena.size)

/-- The places from the binding's slot to a place, both included.  A parent has a smaller number
than its target, and a step that would not go down is not taken. -/
def chain (arena : Arena) (id : PlaceId) : List PlaceId :=
  match arena.parent? id with
  | none => [id]
  | some parent => if parent < id then arena.chain parent ++ [id] else [id]
termination_by id

/-- The slot of the binding that a place belongs to. -/
def root (arena : Arena) (id : PlaceId) : PlaceId :=
  match arena.parent? id with
  | none => id
  | some parent => if parent < id then arena.root parent else id
termination_by id

/-- The number of boxes and references between the binding's slot and a place. -/
def depth (arena : Arena) (id : PlaceId) : Nat := (arena.chain id).length - 1

/-- Does the way to the second place lead through the first? -/
def leadsTo (arena : Arena) (first second : PlaceId) : Bool := (arena.chain second).contains first

/-- Does the way to one of two places lead through the other? -/
def overlaps (arena : Arena) (a b : PlaceId) : Bool := arena.leadsTo a b || arena.leadsTo b a

/-- The target of a place, its target, and so on.  A target has a greater number than what points at
it, and a step that would not go up is not taken. -/
def descendants (arena : Arena) (id : PlaceId) : List PlaceId :=
  match arena.child? id with
  | none => []
  | some child =>
      if _up : id < child ∧ child < arena.size then child :: arena.descendants child else []
termination_by arena.size - id
decreasing_by exact Nat.sub_lt_sub_left (Nat.lt_trans _up.1 _up.2) _up.1

/-- The innermost reference on the way to a place. -/
def innermostRef (arena : Arena) (id : PlaceId) : Option Via :=
  ((arena.chain id).filterMap arena.via?).reverse.find? Via.isRef

/-- A place as it is written: a star for every step from the name of its binding. -/
def render (arena : Arena) (id : PlaceId) : String :=
  String.ofList (List.replicate (arena.depth id) '*') ++ arena.name (arena.root id)

end Arena

end BorrowLang
