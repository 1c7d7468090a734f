import BorrowLang.BorrowStacks

/-! # Values and the heap

Values are integers, booleans, the unit value, boxes and references.  The heap holds the cells that
boxes and references point at; bindings and boxes share one space of addresses, which are given out
in increasing order and never again. -/
set_option autoImplicit false
namespace BorrowLang

/-- A value. -/
inductive Value
  | int (n : Int)
  | bool (b : Bool)
  | unit
  | box (addr : Addr)
  | ref (addr : Addr) (isMut : Bool) (tag : Tag)
deriving Repr, DecidableEq, Inhabited

/-- The cell that a box or reference points at. -/
def Value.addr? : Value → Option Addr
  | .box addr | .ref addr _ _ => some addr
  | _ => none

/-- The text of a value; a box or reference has none of its own. -/
def Value.text : Value → String
  | .int n => toString n
  | .bool b => if b then "true" else "false"
  | _ => "()"

/-- A cell: whether it holds a value, and the value. -/
structure Cell where
  value : Value
  state : MoveState
deriving Repr, DecidableEq, Inhabited

/-- The value that a cell owns a box by: nothing unless it holds a value. -/
def Cell.liveValue? (cell : Cell) : Option Value :=
  if cell.state = .live then some cell.value else none

/-- Misuse of the heap. -/
inductive HeapFault
  | freedAccess (addr : Addr)
  | doubleFree (addr : Addr)
  /-- Boxes that own each other. -/
  | cycle
deriving Repr, DecidableEq

def HeapFault.message : HeapFault → String
  | freedAccess addr => "access to freed cell " ++ toString addr
  | doubleFree addr => "double free of cell " ++ toString addr
  | cycle => "cells own each other"

/-- The cells in use, and how many were ever allocated and freed. -/
structure Heap where
  cells : Std.TreeMap Addr Cell := {}
  allocated : Nat := 0
  freed : Nat := 0
deriving Inhabited

namespace Heap

def live (heap : Heap) : Nat := heap.cells.size

def contains (heap : Heap) (addr : Addr) : Bool := heap.cells.contains addr

/-- A new cell, which holds the value or only keeps it for later. -/
def alloc (heap : Heap) (value : Value) (initialized : Bool) : Heap × Addr :=
  let addr := heap.allocated + 1
  ({ heap with
      cells := heap.cells.insert addr ⟨value, if initialized then .live else .uninit⟩
      allocated := addr },
   addr)

def cell (heap : Heap) (addr : Addr) : Except HeapFault Cell :=
  match heap.cells[addr]? with
  | some cell => .ok cell
  | none => .error (.freedAccess addr)

def state (heap : Heap) (addr : Addr) : Except HeapFault MoveState :=
  (heap.cell addr).map Cell.state

def load (heap : Heap) (addr : Addr) : Except HeapFault Value := (heap.cell addr).map Cell.value

def store (heap : Heap) (addr : Addr) (value : Value) : Except HeapFault Heap :=
  (heap.cell addr).map fun _ => { heap with cells := heap.cells.insert addr ⟨value, .live⟩ }

def take (heap : Heap) (addr : Addr) : Except HeapFault (Heap × Value) :=
  (heap.cell addr).map fun cell =>
    ({ heap with cells := heap.cells.insert addr ⟨.unit, .moved⟩ }, cell.value)

def free (heap : Heap) (addr : Addr) : Except HeapFault Heap :=
  if heap.contains addr then
    .ok { heap with cells := heap.cells.erase addr, freed := heap.freed + 1 }
  else .error (.doubleFree addr)

/-- The cells that a box owns, from the outside in; the fuel bounds their number. -/
def ownedFrom (heap : Heap) : (fuel : Nat) → Value → Except HeapFault (List Addr)
  | _, .int _ | _, .bool _ | _, .unit | _, .ref _ _ _ => .ok []
  | 0, .box _ => .error .cycle
  | fuel + 1, .box addr => do
      let cell ← heap.cell addr
      match cell.liveValue? with
      | none => return [addr]
      | some value => return addr :: (← heap.ownedFrom fuel value)

/-- The cells that a value owns, from the outside in.  More of them than there are cells would be a
cycle. -/
def owned (heap : Heap) (value : Value) : Except HeapFault (List Addr) :=
  heap.ownedFrom (heap.live + 1) value

/-- What a value shows behind its boxes and references; the fuel bounds the steps. -/
def shownFrom (heap : Heap) : (fuel : Nat) → Value → Except HeapFault Value
  | _, .int n => .ok (.int n)
  | _, .bool b => .ok (.bool b)
  | _, .unit => .ok .unit
  | 0, .box _ | 0, .ref _ _ _ => .error .cycle
  | fuel + 1, .box addr | fuel + 1, .ref addr _ _ => do heap.shownFrom fuel (← heap.load addr)

/-- The text of a value: boxes and references show what they point at. -/
def display (heap : Heap) (value : Value) : Except HeapFault String :=
  (heap.shownFrom (heap.live + 1) value).map Value.text

end Heap

end BorrowLang
