import BorrowLang.Proofs.Ownership.Access
import BorrowLang.Proofs.Typing.Rules
import Mathlib.Data.List.Forall2

/-!
# Types of cells

Each cell that was ever allocated has a type, which it keeps when it is gone.  A pointer is of a
type when the cell that it leads to has the type below; so a reference may outlive its cell.  Cells
are only added, and a value keeps its types when they are.
-/

set_option autoImplicit false

namespace BorrowLang

open Typing

/-- The types of the cells that were allocated. -/
abbrev CellTypes := Addr → Option Ty

namespace CellTypes

variable {types mid later : CellTypes}

/-- Cells are added, and the others keep their types. -/
def Extends (types later : CellTypes) : Prop :=
  ∀ addr ty, types addr = some ty → later addr = some ty

theorem Extends.refl (types : CellTypes) : types.Extends types := fun _ _ known => known

theorem Extends.trans (first : types.Extends mid) (second : mid.Extends later) :
    types.Extends later :=
  fun addr ty known => second addr ty (first addr ty known)

theorem Extends.insert {addr : Addr} (fresh : types addr = none) (ty : Ty) :
    types.Extends (Function.update types addr (some ty)) := by
  intro other known found
  have different : other ≠ addr := by
    rintro rfl
    simp [fresh] at found
  rw [Function.update_of_ne different]
  exact found

end CellTypes

/-- A value of a type.  A mutable reference is also a shared one. -/
inductive Value.HasType (types : CellTypes) : Value → Ty → Prop
  | int {n : Int} : HasType types (.int n) .i32
  | bool {b : Bool} : HasType types (.bool b) .bool
  | unit : HasType types .unit .unit
  | box {addr : Addr} {ty : Ty} (points : types addr = some ty) :
      HasType types (.box addr) (.box ty)
  | ref {addr : Addr} {isMut wanted : Bool} {tag : Tag} {ty : Ty} (points : types addr = some ty)
      (allowed : wanted = true → isMut = true) :
      HasType types (.ref addr isMut tag) (.ref wanted ty)

namespace Value.HasType

variable {types later : CellTypes} {value : Value} {ty : Ty}

theorem mono (typed : value.HasType types ty) (extended : types.Extends later) :
    value.HasType later ty := by
  cases typed with
  | int => exact .int
  | bool => exact .bool
  | unit => exact .unit
  | box points => exact .box (extended _ _ points)
  | ref points allowed => exact .ref (extended _ _ points) allowed

theorem coerce {expected : Ty} (typed : value.HasType types ty)
    (coerces : ty.coercesTo expected = true) : value.HasType types expected := by
  rcases Ty.coercesTo_iff.mp coerces with rfl | ⟨target, rfl, rfl⟩
  · exact typed
  · cases typed with
    | ref points allowed => exact .ref points nofun

theorem suits {out wanted : Outcome} (typed : value.HasType types ty) (is : out = some ty)
    (suits : out.Suits wanted) :
    ∃ expected, wanted = some expected ∧ value.HasType types expected := by
  obtain ⟨expected, same, coerces⟩ := suits ty is
  exact ⟨expected, same, typed.coerce coerces⟩

end Value.HasType

/-- Every cell in use has a type, and holds a value of it if it holds one. -/
structure Heap.Typed (types : CellTypes) (heap : Heap) : Prop where
  cell : ∀ addr cell, heap.lookup addr = some cell →
    ∃ ty, types addr = some ty ∧ ∀ value ∈ cell.liveValue?, value.HasType types ty
  bounded : ∀ addr ty, types addr = some ty → addr ≤ heap.allocated

namespace Heap.Typed

variable {types : CellTypes} {heap : Heap}

theorem value (typed : heap.Typed types) {addr : Addr} {value : Value} {ty : Ty}
    (found : heap.lookup addr = some ⟨value, .live⟩) (points : types addr = some ty) :
    value.HasType types ty := by
  obtain ⟨own, known, holds⟩ := typed.cell addr _ found
  obtain rfl := Option.some.inj (known.symm.trans points)
  exact holds value rfl

theorem overwrite (typed : heap.Typed types) {addr : Addr} {cell : Cell} {ty : Ty}
    (points : types addr = some ty) (holds : ∀ value ∈ cell.liveValue?, value.HasType types ty) :
    Heap.Typed types { heap with cells := heap.cells.insert addr cell } where
  cell other found is := by
    rw [heap.lookup_insert] at is
    by_cases same : other = addr
    · subst same
      obtain rfl : cell = found := by simpa using is
      exact ⟨ty, points, holds⟩
    · rw [Function.update_of_ne same] at is
      exact typed.cell other found is
  bounded := typed.bounded

theorem alloc (typed : heap.Typed types) {value : Value} {initialized : Bool} {ty : Ty}
    (holds : initialized = true → value.HasType types ty) :
    (heap.alloc value initialized).1.Typed
      (Function.update types (heap.allocated + 1) (some ty)) ∧
    types.Extends (Function.update types (heap.allocated + 1) (some ty)) := by
  have fresh : types (heap.allocated + 1) = none := by
    cases known : types (heap.allocated + 1) with
    | none => rfl
    | some ty => exact absurd (typed.bounded _ ty known) (Nat.not_succ_le_self _)
  have extended := CellTypes.Extends.insert fresh ty
  refine ⟨⟨?_, ?_⟩, extended⟩
  · intro addr cell found
    rw [heap.lookup_alloc] at found
    by_cases isNew : addr = heap.allocated + 1
    · subst isNew
      rw [Function.update_self] at found
      obtain rfl := Option.some.inj found
      refine ⟨ty, Function.update_self .., ?_⟩
      cases initialized with
      | false => nofun
      | true =>
          intro held same
          obtain rfl : value = held := Option.some.inj same
          exact (holds rfl).mono extended
    · rw [Function.update_of_ne isNew] at found
      obtain ⟨own, known, ofType⟩ := typed.cell addr cell found
      exact ⟨own, extended addr own known, fun held is => (ofType held is).mono extended⟩
  · intro addr own known
    by_cases isNew : addr = heap.allocated + 1
    · exact Nat.le_of_eq isNew
    · rw [Function.update_of_ne isNew] at known
      exact Nat.le_succ_of_le (typed.bounded addr own known)

/-- Cells that leave the heap do not change what the others hold. -/
theorem thin (typed : heap.Typed types) {after : Heap}
    (cells : ∀ addr, (after.lookup addr).isSome → after.lookup addr = heap.lookup addr)
    (allocated : after.allocated = heap.allocated) : after.Typed types where
  cell addr cell found := typed.cell addr cell (by rw [← cells addr (by simp [found]), found])
  bounded addr ty known := allocated ▸ typed.bounded addr ty known

end Heap.Typed

namespace Evaluator

variable {types later : CellTypes} {env : Env} {callers envs : List Env} {s after : State}

/-- The bindings of a scope are those that are known, in cells of their types. -/
def Scope.Typed (types : CellTypes) (bindings : List (String × Ty)) (scope : Scope) : Prop :=
  List.Forall₂ (fun known bound => bound.1 = known.1 ∧ types bound.2 = some known.2) bindings
    scope.names

/-- The scopes of an activation are those that are known. -/
def Activation.Typed (types : CellTypes) (env : Env) (activation : Activation) : Prop :=
  List.Forall₂ (Scope.Typed types) env activation.scopes

/-- Cells hold values of their types, and what is bound in each activation is known. -/
structure State.Typed (types : CellTypes) (envs : List Env) (s : State) : Prop where
  heap : s.heap.Typed types
  frames : List.Forall₂ (Activation.Typed types) envs s.frames

theorem Activation.Typed.mono {activation : Activation} (typed : activation.Typed types env)
    (extended : types.Extends later) : activation.Typed later env :=
  List.Forall₂.imp (fun _ _ scope =>
    List.Forall₂.imp (fun _ _ ⟨named, points⟩ => ⟨named, extended _ _ points⟩) scope) typed

namespace State.Typed

/-- A state with other types of cells, in which the scopes are as before. -/
theorem reheap (typed : s.Typed types envs) (extended : types.Extends later)
    (heap : after.heap.Typed later) (frames : after.frames = s.frames) : after.Typed later envs :=
  ⟨heap, frames ▸ typed.frames.imp fun _ _ activation => activation.mono extended⟩

theorem ended (typed : s.Typed types envs) (ended : Ended s after) : after.Typed types envs :=
  typed.reheap (.refl types) (ended.heap ▸ typed.heap) ended.frames

theorem thinned (typed : s.Typed types envs) (thinned : Thinned s after) : after.Typed types envs :=
  typed.reheap (.refl types) (typed.heap.thin thinned.cells thinned.allocated) thinned.frames

theorem overwrite (typed : s.Typed types envs) {addr : Addr} {cell : Cell} {ty : Ty}
    (points : types addr = some ty) (holds : ∀ value ∈ cell.liveValue?, value.HasType types ty) :
    State.Typed types envs { s with heap := { s.heap with cells := s.heap.cells.insert addr cell } } :=
  typed.reheap (.refl types) (typed.heap.overwrite points holds) rfl

theorem head (typed : s.Typed types (env :: callers)) :
    ∃ scopes rest, s.frames = ⟨scopes⟩ :: rest ∧ List.Forall₂ (Scope.Typed types) env scopes ∧
      List.Forall₂ (Activation.Typed types) callers rest := by
  have frames := typed.frames
  generalize s.frames = all at frames
  cases frames with
  | cons first rest => exact ⟨_, _, rfl, first, rest⟩

end State.Typed

end Evaluator

end BorrowLang
