import BorrowLang.Proofs.Accepted
import BorrowLang.Proofs.Moves.Passes
import BorrowLang.Proofs.Ownership.Run
import BorrowLang.Proofs.Typing.Program
import BorrowLang.Proofs.Uses.Conditions

/-!
# Checked programs use nothing that is gone

Each function of a program that passes the check is accepted by the bare check, so no run of the
program finds the use of a moved or uninitialized value, as long as the conditions of its loops
conserve what is there.  The check forgets what the condition of a loop has moved where the body puts
it back: after such a loop, a value may be gone.
-/

set_option autoImplicit false

namespace BorrowLang

open Ownership Moves

/-! ### Functions that pass -/

namespace Checker

variable {ctx : Context} {s : State}

theorem outline_fresh (log : List LogEvent) :
    State.outline { log, tracker := Tracker.pushFrame {} } = .empty := rfl

theorem bindParams_mirrors (outlined : s.Outlined) (params : List (Param × Ty)) :
    Passes (bindParams ctx params) s fun _ after =>
      after.Outlined ∧ after.outline = s.outline.bindParams params := by
  induction params generalizing s with
  | nil => exact ⟨outlined, rfl⟩
  | cons slot rest ih =>
      obtain ⟨param, ty⟩ := slot
      simp only [bindParams, meets_bind, meets_get]
      split
      · trivial
      rw [meets_bind]
      refine (bind_mirrors outlined param.name (some ty) param.isMut true true).passes_known ?_
      intro _ _ mid bound midOutlined _
      refine (ih midOutlined).mono ?_
      rintro _ after ⟨afterOutlined, same⟩
      refine ⟨afterOutlined, ?_⟩
      rw [same, ← (Prod.mk.inj (Option.some.inj bound)).2]
      rfl

/-- A function that passes is accepted under its signature. -/
theorem checkFunction_accepts {fs : List FunctionDef} (signed : Signed ctx fs) {f : FunctionDef}
    (member : f ∈ fs) (calm : (Node.block f.body).Calm (ctx.within f)) :
    Passes (checkFunction ctx f) s fun _ _ => ∃ signature,
      ctx.signature? f.name = some signature ∧ Evaluator.BodyAccepted ctx f signature := by
  obtain ⟨signature, known⟩ := Option.isSome_iff_exists.mp (signed.signature?_isSome member)
  obtain ⟨arity, -⟩ := signatureOfDef_parts (signed.signatureOfDef member known)
  rw [Context.within, known, Option.getD_some] at calm
  simp only [checkFunction, known, Option.getD_some, note, meets_bind, meets_modify]
  refine (bindParams_mirrors (outlined_start _) _).mono ?_
  rintro _ mid ⟨midOutlined, bound⟩
  rw [outline_fresh] at bound
  refine (blocks_mirror f.body true mid midOutlined).passes_known ?_
  rintro value _ after passed - ⟨rfl, -⟩
  rw [bound] at passed
  split
  · trivial
  · rename_i fits
    have suits : value.diverges = true ∨ value.ty.coercesTo signature.result = true := by
      cases diverges : value.diverges <;> simp_all
    simp only [meets_bind, meets_get, meets_set]
    split
    · exact ⟨signature, rfl, arity, calm, _, _, passed, suits⟩
    all_goals trivial

/-- What can be called of a program that passes the check is accepted, and so is its entry. -/
theorem accepts_of_check {program : Program} {settings : Settings} {file : Option String}
    {signatures : List (String × Signature)} {run : Evaluator.Context}
    (passed : program.check settings file = .ok signatures)
    (calm : ∀ f ∈ program.functions, (Node.block f.body).Calm
      (Context.within { settings, file, functions := signatures } f))
    (functions : run.functions = program.functions) (entry : run.settings.entry = settings.entry) :
    Evaluator.CallsAccepted run { settings, file, functions := signatures } ∧
      ∃ f result, run.function? run.settings.entry = some f ∧
        Evaluator.BodyAccepted { settings, file, functions := signatures } f ⟨[], result⟩ :=
  callable_of_check passed
    (fun signed f member _ => checkFunction_accepts signed member (calm f member)) functions entry

end Checker

/-! ### Runs -/

namespace Evaluator

variable {ctx : Context} {rules : Checker.Context}

/-- Nothing is known of the state at the start, and there is nothing to know. -/
theorem tracked_start : State.Tracked (fun _ => none) [] [] {} where
  shaped addr value found := by simp [Heap.lookup] at found
  bounded _ _ known := by cases known
  layers := .nil
  whole _ member := by cases member
  lent addr some := absurd rfl some
  caused := fun _ _ known => by cases known

/-- A value at the end of a run is the end. -/
theorem ended_safe (n : Nat) (value : Value) (s : State) : Safe ctx n ⟨.value value, .nil, s⟩ := by
  refine Safe.mono (.of_next rfl fun _ next step => ?_) (Nat.le_succ n)
  cases (step : none = some next)

theorem start_safe {f : FunctionDef} {result : Ty} (calls : CallsAccepted ctx rules)
    (entry : ctx.function? ctx.settings.entry = some f) (accepts : BodyAccepted rules f ⟨[], result⟩)
    (n : Nat) : Safe ctx n (Machine.start ctx) := by
  have started : Machine.start ctx = ⟨.call f [] f.loc, .nil, {}⟩ := by
    simp only [Machine.start, entry]
  rw [started]
  exact (callStep_safe f.loc accepts (calls_safe calls result) .nil tracked_start
    fun _ value s _ _ _ => ended_safe n value s).mono (Nat.le_succ n)

/-- No run of a program that passes the check finds the use of a moved or uninitialized value, if the
condition of each of its loops conserves what is there. -/
theorem run_initialized {program : Program} {settings : Settings} {file : Option String}
    {signatures : List (String × Signature)} {ctx : Context}
    (passed : program.check settings file = .ok signatures)
    (calm : ∀ f ∈ program.functions, (Node.block f.body).Calm
      (Checker.Context.within { settings, file, functions := signatures } f))
    (functions : ctx.functions = program.functions)
    (entry : ctx.settings.entry = settings.entry) (steps : Nat) :
    ∀ fault ∈ (reached ctx steps).fault?, ¬ fault.OfMove := by
  obtain ⟨calls, f, result, isEntry, accepts⟩ :=
    Checker.accepts_of_check passed calm functions entry
  exact start_safe calls isEntry accepts steps (sound_start ctx) steps (Nat.le_refl steps)

/-- The text of a program with a loop that moves a box and puts another one in its place. -/
def refillInBody : String :=
  "fn main()\x7blet mut b=Box::new(1);let mut i=0;" ++
    "while i<2\x7blet c=b;b=Box::new(2);i=i+1;\x7ddisplayi32(*b);\x7d"

/-- `refillInBody` is accepted, and no run of it finds the use of a moved value. -/
theorem run_initialized_refillInBody :
    ∃ program signatures, Program.ofText none refillInBody = .ok program ∧
      program.check default none = .ok signatures ∧
      ∀ steps, ∀ fault ∈ (reached ⟨program.functions, default, none⟩ steps).fault?,
        ¬ fault.OfMove := by
  have accepted : (accepted? refillInBody).any (fun program =>
      program.functions.all (·.body.conditions.all Expr.computes)) = true := by decide +kernel
  obtain ⟨program, found, computes⟩ := (Option.any_eq_true _ _).mp accepted
  obtain ⟨signatures, read, passed⟩ := parts_of_accepted found
  have calm : ∀ f ∈ program.functions, (Node.block f.body).Calm
      (Checker.Context.within { settings := default, file := none, functions := signatures } f) :=
    fun f member => Node.calm_of_computes (List.all_eq_true.mp computes f member)
  exact ⟨program, signatures, read, passed, run_initialized passed calm rfl rfl⟩

/-- The text of a program with a loop whose condition moves a box, and whose body puts another one in
its place. -/
def refillAfterTest : String :=
  "fn f(b:Box<i32>)->bool\x7bfalse\x7d" ++
    "fn main()\x7blet mut b=Box::new(1);while f(b)\x7bb=Box::new(2);\x7ddisplayi32(*b);\x7d"

/-- Not every program that passes the check is safe: after the loop in `refillAfterTest`, the check
knows of the box that the body puts there, and not of the one that the condition has moved. -/
theorem run_usesMoved :
    ∃ program signatures, Program.ofText none refillAfterTest = .ok program ∧
      program.check default none = .ok signatures ∧
      ∃ steps, ∃ fault ∈ (reached ⟨program.functions, default, none⟩ steps).fault?,
        fault.OfMove := by
  have faults : (accepted? refillAfterTest).any (fun program =>
      (reached ⟨program.functions, default, none⟩ 37).fault?.any
        fun fault => decide fault.OfMove) = true := by decide +kernel
  obtain ⟨program, found, fails⟩ := (Option.any_eq_true _ _).mp faults
  obtain ⟨signatures, read, passed⟩ := parts_of_accepted found
  obtain ⟨fault, isFault, ofMove⟩ := (Option.any_eq_true _ _).mp fails
  exact ⟨program, signatures, read, passed, 37, fault, isFault, of_decide_eq_true ofMove⟩

end Evaluator

end BorrowLang
