import BorrowLang.Evaluator.Machine
import BorrowLang.Proofs.Ownership.Action

/-!
# Machines in order

The values in flight are those of the control and of the frames.  Each open scope has a frame that
leaves it, and so has each call.  A machine is in order when its state is, with the boxes among the
values in flight.
-/

set_option autoImplicit false

namespace BorrowLang.Evaluator

open Ownership

/-! ### Values in flight -/

/-- The values that a macro has to drop. -/
def ownedValues (values : List Shown) : List Value := (values.filter (·.owned)).map (·.value)

/-- The value that an interrupt carries. -/
def Interrupt.values : Interrupt → List Value
  | .returned value => [value]
  | .failed _ => []

/-- The values that belong to a control; those that are only shown do not. -/
def Control.values {mode : Mode} : Control mode → List Value
  | .args _ _ values _ => values
  | .call _ values _ => values
  | .enter _ values => values
  | .shown _ values _ => ownedValues values
  | .follow _ owned _ _ => owned
  | .value v => [v]
  | .interrupted interrupt => interrupt.values
  | _ => []

/-- The values that belong to a frame. -/
def Frame.values {first next : Mode} : Frame first next → List Value
  | .right _ _ value => [value]
  | .arg _ _ values _ => values
  | .shownValue _ values _ _ => ownedValues values
  | .shownPlace _ values _ _ => ownedValues values
  | .assignPlace _ _ _ value => [value]
  | _ => []

/-- The values that belong to frames. -/
def Stack.values {mode : Mode} : Stack mode → List Value
  | .nil => []
  | .cons frame rest => rest.values ++ frame.values

/-! ### Frames and scopes -/

/-- The open scopes before and after a frame. -/
def Frame.Below {first next : Mode} (frame : Frame first next) (shape below : List Nat) : Prop :=
  match frame with
  | .leaveScope => ∃ count rest, shape = (count + 1) :: rest ∧ below = count :: rest
  | .leaveCall _ => shape = 1 :: below
  | _ => Open shape ∧ below = shape

/-- Frames leave all scopes and calls, and no others. -/
def Stack.Fits {mode : Mode} (k : Stack mode) (shape : List Nat) : Prop :=
  match k with
  | .nil => shape = []
  | .cons frame rest => ∃ below, frame.Below shape below ∧ rest.Fits below

/-- A control is inside of a call, unless the call is about to start or has ended. -/
def Control.Fits {mode : Mode} (control : Control mode) (k : Stack mode) (shape : List Nat) : Prop :=
  match control with
  | .call _ _ _ | .value _ | .interrupted _ => k.Fits shape
  | .enter _ _ => ∃ rest, shape = 1 :: rest ∧ k.Fits rest
  | _ => Open shape ∧ k.Fits shape

/-! ### Machines in order -/

/-- What is known of a control itself: a location was reached, and no drop has failed. -/
def Control.Holds {mode : Mode} (control : Control mode) (s : State) : Prop :=
  match control with
  | .found l => Reached s l
  | .interrupted (.failed fault) => fault.FromUse
  | _ => True

/-- A machine in order. -/
structure Sound {mode : Mode} (control : Control mode) (k : Stack mode) (s : State) : Prop where
  owned : Owned s (boxes (k.values ++ control.values))
  fits : control.Fits k s.shape
  holds : control.Holds s

/-- A transition leads to a machine in order. -/
def Transition.Keeps (t : Transition) (s : State) : Prop :=
  Meets t.action s (fun control after => Sound control t.stack after ∧ Kept s after)
    (fun interrupt after =>
      Sound (.interrupted interrupt : Control t.mode) t.stack after ∧ Kept s after)

section Steps

variable {mode next : Mode} {s after : State}

theorem goTo_keeps {control : Control mode} {k : Stack mode} (sound : Sound control k s)
    {target : Control next} {rest : Stack next}
    (part : (boxes (rest.values ++ target.values)).Sublist (boxes (k.values ++ control.values)))
    (fits : target.Fits rest s.shape) (holds : target.Holds s) :
    (goTo target rest).Keeps s :=
  ⟨⟨sound.owned.weaken part.subperm, fits, holds⟩, .refl s⟩

theorem Broken.sound {k : Stack mode} {interrupt : Interrupt}
    (broken : Broken s (boxes k.values) interrupt after) (fits : k.Fits s.shape) :
    Sound (.interrupted interrupt) k after ∧ Kept s after := by
  obtain ⟨⟨fault, rfl, fromUse⟩, owned, steady⟩ := broken
  refine ⟨⟨?_, ?_, fromUse⟩, steady.toKept⟩
  · simpa [Control.values, Interrupt.values] using owned
  · simpa only [Control.Fits, steady.shape] using fits

/-- A value that was come to leads to a control in order. -/
theorem sound_value {k : Stack .value} {value : Value}
    (owned : Owned after (boxes k.values ++ boxes [value])) (steady : Steady s after)
    (fits : k.Fits s.shape) :
    Sound (.value value) k after ∧ Kept s after :=
  ⟨⟨by simpa [Control.values] using owned, by simpa only [Control.Fits, steady.shape] using fits,
    trivial⟩, steady.toKept⟩

theorem sound_value_plain {k : Stack .value} {value : Value} (plain : value.box? = none)
    (owned : Owned after (boxes k.values)) (steady : Steady s after) (fits : k.Fits s.shape) :
    Sound (.value value) k after ∧ Kept s after :=
  sound_value (by simpa [boxes_singleton, plain] using owned) steady fits

theorem sound_plain {k : Stack mode} {control : Control mode} (plain : control.values = [])
    (owned : Owned after (boxes k.values)) (steady : Steady s after)
    (fits : control.Fits k s.shape) (holds : control.Holds after) :
    Sound control k after ∧ Kept s after :=
  ⟨⟨by simpa [plain] using owned, by simpa only [steady.shape] using fits, holds⟩, steady.toKept⟩

theorem fail_keeps {k : Stack mode} {fault : Fault} (owned : Owned s (boxes k.values))
    (fits : k.Fits s.shape) (fromUse : fault.FromUse) :
    Transition.Keeps ⟨k, fail fault⟩ s :=
  ((Ended.refl s).broken owned fromUse).sound fits

theorem handOn_keeps {control : Control mode} {k : Stack mode} (sound : Sound control k s)
    {target : Control next} {rest : Stack next}
    (values : rest.values ++ target.values = k.values ++ control.values)
    (fits : target.Fits rest s.shape) (holds : target.Holds s) :
    (goTo target rest).Keeps s :=
  goTo_keeps sound (by rw [values]) fits holds

theorem Stack.Fits.push {frame : Frame mode next} {k : Stack next} {shape : List Nat}
    (fits : k.Fits shape) (below : frame.Below shape shape) : (Stack.cons frame k).Fits shape :=
  ⟨shape, below, fits⟩

/-- The frames below a frame that leaves neither a scope nor a call. -/
theorem Stack.Fits.pop {frame : Frame mode next} {k : Stack next} {shape : List Nat}
    (fits : (Stack.cons frame k).Fits shape)
    (inner : ∀ below, frame.Below shape below → Open shape ∧ below = shape) :
    Open shape ∧ k.Fits shape := by
  obtain ⟨below, known, rest⟩ := fits
  obtain ⟨isOpen, rfl⟩ := inner below known
  exact ⟨isOpen, rest⟩

end Steps

end BorrowLang.Evaluator
