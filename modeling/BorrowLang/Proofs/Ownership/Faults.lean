import BorrowLang.Proofs.Ownership.Run

/-!
# Faults along a run

Leaving scopes and calls does not fail, and nothing catches a fault.  So the first fault of a run is
the one that it ends with.
-/

set_option autoImplicit false

namespace BorrowLang.Evaluator

variable {ctx : Context} {fault : Fault}

theorem fault?_step {m next : Machine} (sound : Sound m.control m.stack m.state)
    (fails : fault ∈ m.fault?) (step : m.step ctx = some next) : fault ∈ next.fault? := by
  have leaves := sound.canLeave
  obtain ⟨control, k, s⟩ := m
  obtain ⟨t, advanced, rfl⟩ := Option.map_eq_some_iff.mp step
  cases control with
  | interrupted interrupt =>
      cases interrupt with
      | returned => simp [Machine.fault?] at fails
      | failed other =>
          obtain rfl := Option.some.inj fails
          cases k with
          | nil => simp [advance] at advanced
          | cons frame k =>
              obtain rfl := Option.some.inj advanced
              cases frame with
              | leaveScope =>
                  obtain ⟨after, left⟩ := leaves
                  simp only [Transition.perform, unwind, run_bind, left]
                  rfl
              | leaveCall f =>
                  obtain ⟨after, left⟩ := leaves
                  simp only [Transition.perform, unwind, run_bind, left]
                  rfl
              | _ => rfl
  | _ => simp [Machine.fault?] at fails

theorem fault?_succ {steps : Nat} (fails : fault ∈ (reached ctx steps).fault?) :
    fault ∈ (reached ctx (steps + 1)).fault? := by
  rw [reached_succ]
  cases step : (reached ctx steps).step ctx with
  | none => exact fails
  | some next => exact fault?_step (sound_reached ctx steps) fails step

end BorrowLang.Evaluator
