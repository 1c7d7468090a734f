import BorrowLang.Proofs.Leaving.Machine
import BorrowLang.Proofs.Ownership.Run
import BorrowLang.Proofs.Scoping.Points

/-!
# Evaluations that come to no value

What the checker marks as never reached is never reached: whoever evaluates it, and in whatever
state, gets an interrupt, or waits forever.
-/

set_option autoImplicit false

namespace BorrowLang.Evaluator

variable {ground : Mode} {base : Stack ground} {ctx : Context}

/-- The machine has come back to the base with an interrupt. -/
def Machine.InterruptedAt (base : Stack ground) (m : Machine) : Prop :=
  ∃ interrupt after, m = ⟨(.interrupted interrupt : Control ground), base, after⟩

theorem doomed_step {m after : Machine} (doomed : Doomed base m.control m.stack)
    (notYet : ¬ m.InterruptedAt base) (step : m.step ctx = some after) :
    Doomed base after.control after.stack := by
  obtain ⟨t, advanced, rfl⟩ := Option.map_eq_some_iff.mp step
  exact (advance_dooms doomed (fun interrupt same => notYet ⟨interrupt, m.state, same⟩)
    advanced).perform

/-- Until an interrupt is at the base, the machine is doomed. -/
theorem doomed_run {m : Machine} (doomed : Doomed base m.control m.stack) (steps : Nat) :
    (∃ earlier ≤ steps, (m.run ctx earlier).InterruptedAt base) ∨
      Doomed base (m.run ctx steps).control (m.run ctx steps).stack := by
  induction steps with
  | zero => exact Or.inr doomed
  | succ steps ih =>
      rcases ih with ⟨earlier, before, interrupted⟩ | still
      · exact Or.inl ⟨earlier, Nat.le_succ_of_le before, interrupted⟩
      · by_cases interrupted : (m.run ctx steps).InterruptedAt base
        · exact Or.inl ⟨steps, Nat.le_succ steps, interrupted⟩
        · rw [m.run_succ]
          cases step : (m.run ctx steps).step ctx with
          | none => exact Or.inr still
          | some after => exact Or.inr (doomed_step still interrupted step)

/-- What is evaluated on top of the base does not come to a value for it: as long as no interrupt
has come back to the base, the machine goes on and there is no value either. -/
def NeverCompletes (ctx : Context) (base : Stack .value) (m : Machine) : Prop :=
  ∀ steps, (∃ earlier ≤ steps, (m.run ctx earlier).InterruptedAt base) ∨
    ((m.run ctx steps).step ctx).isSome ∧ ∀ v after, m.run ctx steps ≠ ⟨.value v, base, after⟩

theorem Doomed.neverCompletes {base : Stack .value} {m : Machine}
    (doomed : Doomed base m.control m.stack) : NeverCompletes ctx base m := by
  intro steps
  rcases @doomed_run _ _ ctx _ doomed steps with interrupted | still
  · exact Or.inl interrupted
  · by_cases interrupted : (m.run ctx steps).InterruptedAt base
    · exact Or.inl ⟨steps, Nat.le_refl steps, interrupted⟩
    · refine Or.inr ⟨Option.isSome_iff_ne_none.mpr fun ended => ?_, fun v after same => ?_⟩
      · rcases Machine.eq_of_ended ended with ⟨v, after, same⟩ | ⟨interrupt, after, same⟩
        · rw [same] at still
          cases still.shielded rfl
        · rw [same] at still interrupted
          cases still.spared with
          | base => exact interrupted ⟨interrupt, after, rfl⟩
      · rw [same] at still
        exact base.not_shielded_self (still.shielded rfl)

/-- What does not come to a value after one step does not come to one. -/
theorem NeverCompletes.of_step {base : Stack .value} {m after : Machine}
    (step : m.step ctx = some after) (isNone : ∀ v s, m ≠ ⟨.value v, base, s⟩)
    (later : NeverCompletes ctx base after) : NeverCompletes ctx base m := by
  have shifted : ∀ steps, m.run ctx (steps + 1) = after.run ctx steps := fun steps => by
    rw [Machine.run, step]
  intro steps
  cases steps with
  | zero => exact Or.inr ⟨by rw [Machine.run, step]; rfl, isNone⟩
  | succ steps =>
      rw [shifted]
      refine (later steps).imp_left ?_
      rintro ⟨earlier, before, interrupted⟩
      exact ⟨earlier + 1, Nat.succ_le_succ before, by rwa [shifted]⟩

/-- A call of a function whose body always leaves it does not come to the end of the body. -/
theorem enter_neverCompletes {f : FunctionDef} (leaves : f.body.leaves = true) (values : List Value)
    (k : Stack .value) (s : State) :
    NeverCompletes ctx (.cons (.leaveCall f) k) ⟨.enter f values, k, s⟩ := by
  let entering : Transition := ⟨.cons (.leaveCall f) k, do
    bindArgs (f.params.zip values)
    return .block f.body⟩
  have step : (⟨.enter f values, k, s⟩ : Machine).step ctx = some (entering.perform s) := rfl
  refine .of_step step nofun (Doomed.neverCompletes (Transition.Dooms.perform ?_))
  rw [Transition.Dooms, meets_bind, Meets]
  split
  · exact Or.inr ⟨leaves, .base⟩
  · exact Doomed.interrupted .base

/-- Where the checker, in whatever state, marks the value of an expression or block as never
reached, no evaluation comes to such a value, in whatever program, state and frames: it ends with an
interrupt, a return or a fault, or it does not end.  So a call does not come to the end of a
function's body whose value is marked. -/
theorem diverges_neverCompletes {ctx : Checker.Context} {s after : Checker.State}
    {value : Checker.Operand} (diverges : value.diverges = true) :
    (∀ e, Checker.checkExpr ctx e s = (.ok value, after) →
      ∀ (run : Context) k start, NeverCompletes run k ⟨.expr e, k, start⟩) ∧
    (∀ isBody body, Checker.checkBlock ctx isBody body s = (.ok value, after) →
      ∀ (run : Context) k start, NeverCompletes run k ⟨.block body, k, start⟩) ∧
    ∀ f : FunctionDef, Checker.checkBlock ctx true f.body s = (.ok value, after) →
      ∀ (run : Context) values k start,
        NeverCompletes run (.cons (.leaveCall f) k) ⟨.enter f values, k, start⟩ := by
  refine ⟨fun e passed run k start => ?_, fun isBody body passed run k start => ?_,
    fun f passed run values k start => ?_⟩
  · have marked := (Checker.checkExpr_marked e s).of_ok passed
    exact Doomed.neverCompletes (Or.inr ⟨marked.symm.trans diverges, .base⟩)
  · have marked := (Checker.checkBlock_marked body isBody s).of_ok passed
    exact Doomed.neverCompletes (Or.inr ⟨marked.symm.trans diverges, .base⟩)
  · have marked := (Checker.checkBlock_marked f.body true s).of_ok passed
    exact enter_neverCompletes (marked.symm.trans diverges) values k start

/-- An expression both of whose arms return, one of them in front of a tail. -/
def returnsEitherWay : Expr :=
  .ifElse none (.literal none (.bool true)) (.mk [.ret none none] none none)
    (some (.mk [.ret none none] (some (.literal none (.int 5))) none))

/-- A function of that expression alone. -/
def endsEitherWay : FunctionDef :=
  { name := "f", params := [], returnType := none, loc := none
    body := .mk [] (some returnsEitherWay) none }

theorem marked_of_any {x : Checker.Check Checker.Operand} {s : Checker.State}
    (marked : (x s).1.toOption.any (·.diverges) = true) :
    ∃ value after, x s = (.ok value, after) ∧ value.diverges = true := by
  cases ended : x s with
  | mk result after =>
      rw [ended] at marked
      cases result with
      | ok value => exact ⟨value, after, rfl, marked⟩
      | error => cases marked

theorem returnsEitherWay_neverCompletes :
    let run : Context := { functions := [endsEitherWay] }
    ∃ value after body bodyAfter, value.diverges = true ∧ body.diverges = true ∧
      Checker.checkExpr {} returnsEitherWay {} = (.ok value, after) ∧
      Checker.checkBlock {} true endsEitherWay.body {} = (.ok body, bodyAfter) ∧
      NeverCompletes run .nil ⟨.expr returnsEitherWay, .nil, {}⟩ ∧
      NeverCompletes run .nil ⟨.block endsEitherWay.body, .nil, {}⟩ ∧
      NeverCompletes run (.cons (.leaveCall endsEitherWay) .nil)
        ⟨.enter endsEitherWay [], .nil, {}⟩ := by
  obtain ⟨value, after, passed, leaves⟩ : ∃ value after,
      Checker.checkExpr {} returnsEitherWay {} = (.ok value, after) ∧ value.diverges = true :=
    marked_of_any (by decide +kernel)
  obtain ⟨body, bodyAfter, bodyPassed, bodyLeaves⟩ : ∃ body bodyAfter,
      Checker.checkBlock {} true endsEitherWay.body {} = (.ok body, bodyAfter) ∧
        body.diverges = true := marked_of_any (by decide +kernel)
  exact ⟨value, after, body, bodyAfter, leaves, bodyLeaves, passed, bodyPassed,
    (diverges_neverCompletes leaves).1 _ passed _ _ _,
    (diverges_neverCompletes bodyLeaves).2.1 _ _ bodyPassed _ _ _,
    (diverges_neverCompletes bodyLeaves).2.2 _ bodyPassed _ _ _ _⟩

end BorrowLang.Evaluator
