import BorrowLang.Proofs.Code.Machine
import BorrowLang.Proofs.Ownership.Run

/-!
# The code of a run

A run of functions that obey a rule has code that obeys it at every step.  A guard that each step
heeds holds at every step.
-/

set_option autoImplicit false

namespace BorrowLang.Evaluator

variable {rule : CodeRule} {ctx : Context}

namespace Guard

variable {guard : Guard rule}

theorem Holds.step {m next : Machine} (sound : Sound m.control m.stack m.state)
    (holds : guard.Holds m.control m.stack) (heeds : guard.Heeds ctx m.control m.stack)
    (step : m.step ctx = some next) : guard.Holds next.control next.stack := by
  obtain ⟨t, advanced, rfl⟩ := Option.map_eq_some_iff.mp step
  have guards := advance_guards sound holds heeds advanced
  unfold Transition.Guards Meets at guards
  unfold Transition.perform
  cases done : t.action m.state with
  | mk result after =>
      rw [done] at guards
      cases result <;> exact guards

theorem holds_start (quiet : guard.quiet .nil) :
    guard.Holds (Machine.start ctx).control (Machine.start ctx).stack := by
  unfold Machine.start
  split
  · exact ⟨Or.inr quiet, trivial⟩
  · exact ⟨Or.inr quiet, trivial⟩

/-- A guard holds along a run that heeds it, as long as it holds. -/
theorem holds_reached
    (start : guard.Holds (Machine.start ctx).control (Machine.start ctx).stack)
    (heeds : ∀ steps, guard.Holds (reached ctx steps).control (reached ctx steps).stack →
      guard.Heeds ctx (reached ctx steps).control (reached ctx steps).stack) (steps : Nat) :
    guard.Holds (reached ctx steps).control (reached ctx steps).stack := by
  induction steps with
  | zero => exact start
  | succ steps ih =>
      rw [reached_succ]
      cases step : (reached ctx steps).step ctx with
      | none => exact ih
      | some next => exact ih.step (sound_reached ctx steps) (heeds steps ih) step

end Guard

/-- The guard that asks for a rule everywhere. -/
def everywhere (rule : CodeRule) : Guard rule where
  callee f := f.body.obeys rule = true
  quiet _ := False
  asks _ := False
  holds impossible := impossible.elim
  push impossible _ := impossible.elim
  pop _ impossible := impossible

theorem everywhere_heeds {mode : Mode} {control : Control mode} {k : Stack mode}
    (functions : ∀ f ∈ ctx.functions, f.body.obeys rule = true)
    (holds : (everywhere rule).Holds control k) : (everywhere rule).Heeds ctx control k := by
  unfold Guard.Heeds
  split
  · intro f known
    exact functions f (List.mem_reverse.mp (List.mem_of_find?_eq_some known))
  · exact fun impossible => impossible.elim
  · exact fun impossible => (impossible.elim id id).elim
  · exact Or.inl (holds.control.resolve_right id).2
  · exact fun impossible => impossible.elim
  · exact fun impossible => impossible.elim
  · trivial

/-- A machine whose code obeys a rule, where functions do too. -/
structure Machine.Obeys (rule : CodeRule) (m : Machine) : Prop where
  control : m.control.Obeys rule fun f => f.body.obeys rule = true
  frames : m.stack.Each fun frame _ => frame.Obeys rule

theorem Stack.Each.mono {ok ok' : {first next : Mode} → Frame first next → Stack next → Prop}
    {mode : Mode} {k : Stack mode} (each : k.Each ok)
    (weaker : ∀ {first next : Mode} (frame : Frame first next) (rest : Stack next),
      ok frame rest → ok' frame rest) : k.Each ok' := by
  induction k with
  | nil => trivial
  | cons frame rest ih => exact ⟨weaker frame rest each.1, ih each.2⟩

/-- Where the functions of a program obey a rule, each machine of a run does. -/
theorem obeys_reached (functions : ∀ f ∈ ctx.functions, f.body.obeys rule = true)
    (calls : rule.calls = true) (steps : Nat) : (reached ctx steps).Obeys rule := by
  have start : (everywhere rule).Holds (Machine.start ctx).control (Machine.start ctx).stack := by
    unfold Machine.start
    split
    · exact ⟨Or.inl trivial, trivial⟩
    · rename_i entry found
      have member := List.mem_reverse.mp (List.mem_of_find?_eq_some found)
      exact ⟨Or.inl ⟨calls, functions entry member⟩, trivial⟩
  have holds := Guard.holds_reached start
    (fun _ holds => everywhere_heeds functions holds) steps
  exact ⟨holds.control.resolve_right id,
    holds.frames.mono fun _ _ obeys => obeys.resolve_right id⟩

end BorrowLang.Evaluator
