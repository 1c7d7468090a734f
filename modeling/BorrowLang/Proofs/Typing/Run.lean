import BorrowLang.Proofs.Ownership.Run
import BorrowLang.Proofs.Syntax.Spelled
import BorrowLang.Proofs.Typing.Machine

/-!
# Types along a run

A program that was read from a text and has passed the check is run safely: the run ends normally,
with a report, or at a cell that is gone, and every call that returns has a value of the type that
the function declares.
-/

set_option autoImplicit false

namespace BorrowLang

open Ownership

/-- A value of a type in a heap.  A box leads to a cell in use; the cell of a reference may be gone. -/
def Heap.HasType (heap : Heap) : Ty → Value → Prop
  | .i32, value => ∃ n, value = .int n
  | .bool, value => ∃ b, value = .bool b
  | .unit, value => value = .unit
  | .box ty, value => ∃ addr, value = .box addr ∧ heap.contains addr ∧
      ∀ inner, heap.cell addr = .ok ⟨inner, .live⟩ → heap.HasType ty inner
  | .ref wanted ty, value => ∃ addr isMut tag, value = .ref addr isMut tag ∧
      (wanted = true → isMut = true) ∧
      ∀ inner, heap.cell addr = .ok ⟨inner, .live⟩ → heap.HasType ty inner

namespace Evaluator

open Typing

section Runs

variable {ctx : Context} {signature? : String → Option Signature} {types : CellTypes}

/-- A machine that is typed, for some types of its cells. -/
def Machine.Typed (signature? : String → Option Signature) (m : Machine) : Prop :=
  ∃ types, Standing signature? types m.state m.control m.stack

theorem Machine.Typed.step {m next : Machine} (program : ProgramTyped ctx signature?)
    (sound : Sound m.control m.stack m.state) (typed : m.Typed signature?)
    (step : m.step ctx = some next) : next.Typed signature? := by
  obtain ⟨types, standing⟩ := typed
  obtain ⟨t, advanced, rfl⟩ := Option.map_eq_some_iff.mp step
  have leads := advance_leads program sound standing advanced
  unfold Transition.Leads Meets at leads
  unfold Transition.perform
  cases done : t.action m.state with
  | mk result after =>
      rw [done] at leads
      cases result <;> exact leads

theorem typed_start (program : ProgramTyped ctx signature?) :
    (Machine.start ctx).Typed signature? := by
  obtain ⟨f, result, found, function⟩ := program.entry
  have empty : Heap.Typed (fun _ => none) {} := by
    constructor
    · intro addr cell found
      simp [Heap.lookup] at found
    · intro addr ty impossible
      simp at impossible
  unfold Machine.start
  rw [found]
  have nothing : Fit (fun _ => none) signature? [] .unit (some result) .nil := .nil
  exact ⟨fun _ => none, .call function .nil (.refl _) nothing ⟨empty, .nil⟩⟩

theorem typed_reached (program : ProgramTyped ctx signature?) (steps : Nat) :
    (reached ctx steps).Typed signature? := by
  induction steps with
  | zero => exact typed_start program
  | succ steps ih =>
      rw [reached_succ]
      cases step : (reached ctx steps).step ctx with
      | none => exact ih
      | some next => exact ih.step program (sound_reached ctx steps) step

/-- The faults that types do not rule out, less those that ownership does. -/
theorem Fault.BeyondTypes.ofAccess {fault : Fault} (beyond : fault.BeyondTypes)
    (fromUse : fault.FromUse) : fault.OfAccess := by
  cases fault with
  | reported => trivial
  | heap fault => cases fault <;> trivial
  | _ => exact beyond

end Runs

end Evaluator

end BorrowLang
